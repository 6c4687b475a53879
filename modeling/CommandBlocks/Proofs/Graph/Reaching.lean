import CommandBlocks.Proofs.Graph.Paths
import CommandBlocks.Proofs.Loops

namespace CommandBlocks

/-- The state of a search for a path: the blocks that were seen, and the stack of those whose turn
    has not come. -/
structure Reach where
  seen : List BlockId
  stack : List BlockId

namespace Reach

variable (goal : BlockId) (links : List Link)

/-- A step of the loop. The block on top of the stack is the goal, or was seen before, or makes room
    for the blocks that its links lead to, the last of them on top. -/
def step : Reach → Reach ⊕ Bool
  | ⟨_, []⟩ => .inr false
  | ⟨seen, id :: stack⟩ =>
    if id = goal then .inr true
    else if seen.contains id then .inl ⟨seen, stack⟩
    else .inl ⟨id :: seen, (targetsFrom id links).reverse ++ stack⟩

/-- The links that leave no block that was seen. -/
def unfollowed (seen : List BlockId) : List Link :=
  links.filter fun link => !seen.contains link.source

/-- The steps that a search can still take: each link puts one block on the stack, and each block on
    the stack takes one step. -/
def weight (s : Reach) : Nat := (unfollowed links s.seen).length + s.stack.length

/-- What the search finds from a state on. -/
def found (s : Reach) : Bool := canReach goal (unfollowed links s.seen) s.stack

variable {goal links} {seen : List BlockId} {id : BlockId}

/-- Nothing is left that leaves a block that was seen. -/
theorem targetsFrom_unfollowed_of_seen (hseen : seen.contains id = true) :
    targetsFrom id (unfollowed links seen) = [] := by
  rw [targetsFrom, List.map_eq_nil_iff, List.filter_eq_nil_iff]
  intro link hlink hsource
  rw [decide_eq_true_eq] at hsource
  have hfresh := (List.mem_filter.1 hlink).2
  rw [hsource, hseen] at hfresh
  cases hfresh

/-- All links of a block that has not been seen are still to be followed. -/
theorem targetsFrom_unfollowed (hfresh : ¬ seen.contains id = true) :
    targetsFrom id (unfollowed links seen) = targetsFrom id links := by
  rw [targetsFrom, targetsFrom, unfollowed, List.filter_filter]
  congr 2
  funext link
  by_cases hsource : link.source = id
  · rw [hsource, Bool.eq_false_iff.2 hfresh]
    simp
  · simp [hsource]

/-- To see a block is to take away the links that leave it. -/
theorem linksElsewhere_unfollowed :
    linksElsewhere id (unfollowed links seen) = unfollowed links (id :: seen) := by
  rw [linksElsewhere, unfollowed, unfollowed, List.filter_filter]
  congr 1
  funext link
  by_cases hsource : link.source = id
  · simp [hsource]
  · simp [hsource]

/-- Seeing a block again leaves the same links to follow. -/
theorem unfollowed_cons_of_seen (hseen : seen.contains id = true) :
    unfollowed links (id :: seen) = unfollowed links seen := by
  rw [unfollowed, unfollowed]
  congr 1
  funext link
  rw [List.contains_cons]
  by_cases hsource : link.source = id
  · rw [hsource, hseen, Bool.or_true]
  · rw [beq_eq_false_iff_ne.2 hsource, Bool.false_or]

/-- Whether a goal can be reached does not depend on the order of the frontier. -/
theorem canReach_reverse_append (ids frontier : List BlockId) :
    canReach goal links (ids.reverse ++ frontier) = canReach goal links (ids ++ frontier) := by
  rw [Bool.eq_iff_iff, canReach_iff, canReach_iff]
  simp only [List.mem_append, List.mem_reverse]

/-- Every step of the search uses up some of its weight and keeps its result. -/
theorem stepsToward (s : Reach) :
    StepsToward (weight links) (found goal links) s (s.step goal links) := by
  obtain ⟨seen, stack⟩ := s
  match stack with
  | [] => simp [step, StepsToward, found, canReach]
  | id :: stack =>
    by_cases hgoal : id = goal
    · simp [step, StepsToward, found, canReach, hgoal]
    · have hfound : found goal links ⟨seen, id :: stack⟩ =
          canReach goal (unfollowed links (id :: seen))
            (targetsFrom id (unfollowed links seen) ++ stack) := by
        rw [found, canReach, beq_eq_false_iff_ne.2 hgoal, Bool.false_or, linksElsewhere_unfollowed]
      by_cases hseen : seen.contains id = true
      · rw [targetsFrom_unfollowed_of_seen hseen, unfollowed_cons_of_seen hseen] at hfound
        simp only [step, if_neg hgoal, if_pos hseen, StepsToward, hfound]
        exact ⟨by simp [weight], rfl⟩
      · have hcount := length_linksElsewhere id (unfollowed links seen)
        rw [linksElsewhere_unfollowed, targetsFrom_unfollowed hseen] at hcount
        rw [targetsFrom_unfollowed hseen] at hfound
        simp only [step, if_neg hgoal, if_neg hseen, StepsToward, hfound]
        refine ⟨?_, canReach_reverse_append _ _⟩
        simp only [weight, List.length_append, List.length_reverse, List.length_cons]
        omega

end Reach

namespace Graph

/-- The search for a path ends on every graph, after at most one step for each link, one for its
    start, and the step that gives the result. -/
theorem afterSteps_eq_hasPath (g : Graph) (source target : BlockId) :
    afterSteps (Reach.step target g.links.values) (g.links.size + 2) ⟨[], [source]⟩ =
      .inr (g.hasPath source target) := by
  have hlinks : Reach.unfollowed g.links.values [] = g.links.values := by
    simp [Reach.unfollowed]
  have hweight : Reach.weight g.links.values ⟨[], [source]⟩ < g.links.size + 2 := by
    rw [Reach.weight, hlinks, Table.values, List.length_map, Table.size]
    simp
  rw [afterSteps_eq_inr Reach.stepsToward hweight, Reach.found, hlinks, hasPath]

end Graph

end CommandBlocks
