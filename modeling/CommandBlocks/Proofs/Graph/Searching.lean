import CommandBlocks.Proofs.Graph.Cycles
import CommandBlocks.Proofs.Loops
import Mathlib.Algebra.BigOperators.Group.List.Basic
import Mathlib.Algebra.GroupWithZero.Nat
import Mathlib.Data.List.Permutation

namespace CommandBlocks

open Relation

/-- The state of a search: the blocks that are still fresh, the trail that is followed, and the
    starts whose turn has not come. -/
structure Search where
  fresh : List BlockId
  trail : Trail
  starts : List BlockId

namespace Search

variable (successors : BlockId → List BlockId)

/-- A step of the loop. With a trail, the next successor of its last block is looked at; without
    one, the next start. -/
def step : Search → Search ⊕ Option ShapeFault
  | ⟨_, [], []⟩ => .inr none
  | ⟨fresh, [], start :: starts⟩ =>
    if fresh.contains start then .inl ⟨fresh.erase start, [(start, successors start)], starts⟩
    else .inl ⟨fresh, [], starts⟩
  | ⟨fresh, (_, []) :: trail, starts⟩ => .inl ⟨fresh, trail, starts⟩
  | ⟨fresh, (id, succ :: later) :: trail, starts⟩ =>
    if (id :: trail.map (·.1)).contains succ then .inr (some (.cycle succ))
    else if fresh.contains succ then
      .inl ⟨fresh.erase succ, (succ, successors succ) :: (id, later) :: trail, starts⟩
    else .inl ⟨fresh, (id, later) :: trail, starts⟩

/-- The fault that the search finds from a state on. -/
def fault? (s : Search) : Option ShapeFault :=
  match searchTrail successors s.fresh s.trail with
  | .error id => some (.cycle id)
  | .ok fresh =>
    match searchAll successors fresh s.starts with
    | .error id => some (.cycle id)
    | .ok _ => none

/-- The steps that a search can still take: one for each start, and for each block that is fresh or
    on the trail one for each successor to be looked at and one to be done with the block. -/
def weight (s : Search) : Nat :=
  s.starts.length + s.trail.weight + (s.fresh.map fun id => (successors id).length + 1).sum

/-- A fresh block that is put on the trail takes its steps along. -/
private theorem weight_push {fresh : List BlockId} {id : BlockId} (hid : id ∈ fresh)
    (trail : Trail) (starts : List BlockId) :
    weight successors ⟨fresh.erase id, (id, successors id) :: trail, starts⟩ =
      weight successors ⟨fresh, trail, starts⟩ := by
  have hsum := List.sum_map_erase (fun id => (successors id).length + 1) hid
  simp only [weight, Trail.weight]
  omega

variable {successors}

/-- Every step of the search uses up some of its weight and keeps its result. -/
theorem stepsToward (s : Search) :
    StepsToward (weight successors) (fault? successors) s (s.step successors) := by
  obtain ⟨fresh, trail, starts⟩ := s
  match trail, starts with
  | [], [] => simp [step, StepsToward, fault?, searchTrail, searchAll]
  | [], start :: starts =>
    by_cases hstart : start ∈ fresh
    · have hweight := weight_push successors hstart [] starts
      simp only [step, List.contains_iff_mem, if_pos hstart, StepsToward, hweight]
      refine ⟨by simp [weight], ?_⟩
      -- both sides search from the start before they search from the others
      simp only [fault?, searchTrail, searchAll, if_pos hstart]
      cases searchTrail successors (fresh.erase start) [(start, successors start)] <;> rfl
    · simp only [step, List.contains_iff_mem, if_neg hstart, StepsToward]
      exact ⟨by simp [weight], by simp [fault?, searchTrail, searchAll, hstart]⟩
  | (id, []) :: trail, starts =>
    exact ⟨by simp [weight, Trail.weight], by simp [fault?, searchTrail]⟩
  | (id, succ :: later) :: trail, starts =>
    by_cases htrail : succ ∈ id :: trail.map (·.1)
    · simp only [step, List.contains_iff_mem, if_pos htrail, StepsToward, fault?, searchTrail]
    · by_cases hfresh : succ ∈ fresh
      · have hweight := weight_push successors hfresh ((id, later) :: trail) starts
        simp only [step, List.contains_iff_mem, if_neg htrail, if_pos hfresh, StepsToward, hweight]
        refine ⟨by simp [weight, Trail.weight], ?_⟩
        simp only [fault?, searchTrail, if_neg htrail, if_pos hfresh]
      · simp only [step, List.contains_iff_mem, if_neg htrail, if_neg hfresh, StepsToward]
        refine ⟨by simp [weight, Trail.weight], ?_⟩
        simp only [fault?, searchTrail, if_neg htrail, if_neg hfresh]

end Search

/-- All the links that leave different blocks are at most all links. -/
theorem sum_length_targetsFrom_le {ids : List BlockId} (hids : ids.Nodup) (links : List Link) :
    (ids.map fun id => (targetsFrom id links).length).sum ≤ links.length := by
  induction ids generalizing links with
  | nil => exact Nat.zero_le _
  | cons id ids ih =>
    obtain ⟨hid, hids⟩ := List.nodup_cons.1 hids
    have helsewhere : ids.map (fun other => (targetsFrom other links).length) =
        ids.map fun other => (targetsFrom other (linksElsewhere id links)).length := by
      refine List.map_congr_left fun other hother => ?_
      rw [targetsFrom_linksElsewhere (ne_of_mem_of_not_mem hother hid)]
    rw [List.map_cons, List.sum_cons, helsewhere, ← length_linksElsewhere id links, Nat.add_comm]
    exact Nat.add_le_add_right (ih hids _) _

namespace Graph

variable {g : Graph}

/-- One for each link that leaves a block and one for the block: over all blocks, that is no more
    than there are blocks and links. -/
theorem sum_length_successors_le (g : Graph) :
    (g.blocks.keys.map fun id => (g.successors id).length + 1).sum ≤
      g.blocks.size + g.links.size := by
  have hlinks := sum_length_targetsFrom_le g.blocks.nodup_keys g.links.values
  rw [Table.values, List.length_map] at hlinks
  rw [List.sum_map_add, List.map_const', List.sum_replicate_nat, Nat.mul_one, Table.keys,
    List.length_map, Nat.add_comm]
  exact Nat.add_le_add_left hlinks _

/-- The search for a cycle starts from each block of a graph. -/
def search (g : Graph) : Search := ⟨g.blocks.keys, [], g.blocks.keys⟩

/-- The search that starts at all blocks has the cycle of the graph for its result. -/
private theorem fault?_search (g : Graph) : g.search.fault? g.successors = g.cycle? := by
  simp only [Search.fault?, search, searchTrail, cycle?]
  cases searchAll g.successors g.blocks.keys g.blocks.keys <;> rfl

/-- The search weighs at most two for each block and one for each link. -/
private theorem weight_search_le (g : Graph) :
    g.search.weight g.successors ≤ 2 * g.blocks.size + g.links.size := by
  have hlinks := g.sum_length_successors_le
  have hkeys : g.blocks.keys.length = g.blocks.size := List.length_map _
  simp only [Search.weight, search, Trail.weight]
  omega

/-- On every graph whose links join its blocks, the loop of the search ends, within a number of
    steps that the blocks and links bound. It finds nothing exactly if no cycle of links of either
    handle is there, and otherwise names a block on such a cycle. -/
theorem search_decides_acyclic (hends : ∀ x ∈ g.links.entries,
      g.blocks.contains x.2.source ∧ g.blocks.contains x.2.target) :
    afterSteps (Search.step g.successors) (2 * g.blocks.size + g.links.size + 1) g.search =
        .inr g.cycle? ∧
      (g.cycle? = none ↔ g.Acyclic) ∧
      ∀ fault, g.cycle? = some fault → ∃ id, fault = .cycle id ∧ TransGen g.Leads id id := by
  refine ⟨?_, cycle?_eq_none_iff fun x hx => (hends x hx).1, fun _ => cycle_of_cycle?_eq_some⟩
  rw [← fault?_search]
  exact afterSteps_eq_inr Search.stepsToward (Nat.lt_succ_of_le (weight_search_le g))

/-- Two ways lead from the first block to the last, and twice to each block between them. -/
def diamond : Graph where
  blocks := .ofList [(⟨0⟩, { kind := .repeatTimes }), (⟨1⟩, { kind := .ifThen }),
    (⟨2⟩, { kind := .ifThen }), (⟨3⟩, { kind := .captureImage })]
  links := .ofList [(⟨0⟩, ⟨⟨0⟩, .next, ⟨1⟩⟩), (⟨1⟩, ⟨⟨0⟩, .child, ⟨1⟩⟩),
    (⟨2⟩, ⟨⟨0⟩, .child, ⟨2⟩⟩), (⟨3⟩, ⟨⟨0⟩, .child, ⟨2⟩⟩), (⟨4⟩, ⟨⟨1⟩, .next, ⟨3⟩⟩),
    (⟨5⟩, ⟨⟨2⟩, .child, ⟨3⟩⟩)]
  nextBlock := ⟨4⟩
  nextLink := ⟨6⟩

/-- The last block of the diamond leads to itself, and back to the first. -/
def tangle : Graph := ((diamond.drawLink ⟨⟨3⟩, .next, ⟨3⟩⟩).2.drawLink ⟨⟨3⟩, .child, ⟨0⟩⟩).2

theorem search_diamond_tangle :
    (∀ x ∈ diamond.links.entries,
      diamond.blocks.contains x.2.source ∧ diamond.blocks.contains x.2.target) ∧
    diamond.Acyclic ∧
    (∀ x ∈ tangle.links.entries,
      tangle.blocks.contains x.2.source ∧ tangle.blocks.contains x.2.target) ∧
    afterSteps (Search.step tangle.successors) 17 tangle.search = .inr (some (.cycle ⟨3⟩)) ∧
    TransGen tangle.Leads ⟨3⟩ ⟨3⟩ := by
  have hdiamond : ∀ x ∈ diamond.links.entries,
      diamond.blocks.contains x.2.source ∧ diamond.blocks.contains x.2.target := by decide
  have htangle : ∀ x ∈ tangle.links.entries,
      tangle.blocks.contains x.2.source ∧ tangle.blocks.contains x.2.target := by decide
  have hcycle : tangle.cycle? = some (.cycle ⟨3⟩) := by cbv
  obtain ⟨hsteps, -, hfault⟩ := search_decides_acyclic htangle
  obtain ⟨id, heq, honCycle⟩ := hfault _ hcycle
  obtain rfl : ⟨3⟩ = id := ShapeFault.cycle.inj heq
  rw [hcycle] at hsteps
  exact ⟨hdiamond, (search_decides_acyclic hdiamond).2.1.1 (by cbv), htangle, hsteps, honCycle⟩

end Graph

end CommandBlocks
