import CommandBlocks.Proofs.Graph.Counting
import CommandBlocks.Proofs.Graph.Searching
import Mathlib.Algebra.Order.BigOperators.Group.List
import Mathlib.Algebra.Order.Group.Nat

namespace CommandBlocks

/-- The state in which a program is put together: the blocks that are still fresh, the innermost
    level, and the open statements around it. -/
structure Building where
  fresh : List BlockId
  pending : List BlockId
  complete : List Statement
  opened : List OpenStatement

namespace Building

variable (g : Graph) (options : Options)

/-- A step of the loop: the next block of the innermost level opens a statement or is passed over,
    or the level is complete and closes the statement around it. -/
def step : Building → Building ⊕ Except CompileFault Program
  | ⟨fresh, id :: pending, complete, opened⟩ =>
    match g.blocks.get? id with
    | none => .inl ⟨fresh, pending, complete, opened⟩
    | some block =>
      if fresh.contains id then
        match block.fields options id with
        | .error fault => .inr (.error (.input fault))
        | .ok fields =>
          .inl ⟨fresh.erase id, g.children id, [],
            ⟨id, block.kind, fields, pending, complete⟩ :: opened⟩
      else .inr (.error (.shape (.cycle id)))
  | ⟨_, [], complete, []⟩ => .inr (.ok complete.reverse)
  | ⟨fresh, [], complete, o :: opened⟩ =>
    .inl ⟨fresh, (g.successor? o.id).toList ++ o.pending, o.close complete :: o.complete, opened⟩

/-- What the loop comes to from a state on. -/
def result (b : Building) : Except CompileFault Program :=
  g.build options b.fresh b.pending b.complete b.opened

/-- The steps that the loop can still take: one for each block that waits, one to close each open
    statement, and for each fresh block one to close its statement and one for each block that
    follows it. The block that runs after an open statement is still to come. -/
def weight (b : Building) : Nat :=
  b.pending.length
    + (b.opened.map fun o => o.pending.length + (g.successor? o.id).toList.length + 1).sum
    + (b.fresh.map fun id => (g.followers id).length + 1).sum

variable {g options}

/-- Every step uses up some of the weight and keeps the result. -/
theorem stepsToward (b : Building) :
    StepsToward (weight g) (result g options) b (b.step g options) := by
  obtain ⟨fresh, pending, complete, opened⟩ := b
  match pending, opened with
  | id :: pending, opened =>
    cases hget : g.blocks.get? id with
    | none =>
      simp only [step, hget, StepsToward, result, Graph.build, and_true]
      simp [weight]
    | some block =>
      by_cases hfresh : id ∈ fresh
      · cases hfields : block.fields options id with
        | error fault => simp [step, hget, hfresh, hfields, StepsToward, result, Graph.build]
        | ok fields =>
          -- what the fresh block was good for now waits in its level and beside its statement
          have hsum := List.sum_map_erase (fun id => (g.followers id).length + 1) hfresh
          simp only [step, hget, List.contains_iff_mem, hfresh, hfields, StepsToward, result,
            Graph.build, if_true, and_true]
          simp only [Graph.followers, List.length_append] at hsum
          simp only [weight, Graph.followers, List.map_cons, List.sum_cons, List.length_cons,
            List.length_append]
          omega
      · simp [step, hget, hfresh, StepsToward, result, Graph.build]
  | [], [] => simp [step, StepsToward, result, Graph.build]
  | [], o :: opened =>
    simp only [step, StepsToward, result, Graph.build, and_true]
    simp only [weight, List.map_cons, List.sum_cons, List.length_append, List.length_nil]
    omega

end Building

namespace Graph

/-- The loop starts with the given blocks on the outermost level. -/
def building (g : Graph) (starts : List BlockId) : Building := ⟨g.blocks.keys, starts, [], []⟩

/-- At first, the weight is at most one for each start, each block and each link. -/
private theorem weight_building_le (g : Graph) (starts : List BlockId) :
    (g.building starts).weight g ≤ starts.length + g.blocks.size + g.links.size := by
  have hfollowers : (g.blocks.keys.map fun id => (g.followers id).length + 1).sum ≤
      (g.blocks.keys.map fun id => (g.successors id).length + 1).sum :=
    List.sum_le_sum fun id _ => Nat.add_le_add_right (g.length_followers_le id) 1
  have hlinks := g.sum_length_successors_le
  simp only [Building.weight, building, List.map_nil, List.sum_nil]
  omega

/-- The loop comes to what is put together, within a number of steps that the starts, the blocks and
    the links bound. -/
theorem afterSteps_building (g : Graph) (options : Options) (starts : List BlockId) :
    afterSteps (Building.step g options) (starts.length + g.blocks.size + g.links.size + 1)
      (g.building starts) = .inr (g.build options g.blocks.keys starts [] []) :=
  afterSteps_eq_inr Building.stepsToward (Nat.lt_succ_of_le (g.weight_building_le starts))

end Graph

end CommandBlocks
