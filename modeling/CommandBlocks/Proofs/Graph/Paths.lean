import CommandBlocks.Proofs.Graph.Links
import Mathlib.Data.Fintype.EquivFin
import Mathlib.Logic.Relation
import Mathlib.Order.WellFounded

namespace CommandBlocks

open Relation

/-- The targets that are followed from a block are those of the links that leave it. -/
theorem mem_targetsFrom {id target : BlockId} {links : List Link} :
    target ∈ targetsFrom id links ↔ ∃ link ∈ links, link.source = id ∧ link.target = target := by
  simp [targetsFrom, and_assoc]

/-- What leaves other blocks is not lost with the links that leave a block. -/
theorem targetsFrom_linksElsewhere {id other : BlockId} (hne : other ≠ id) (links : List Link) :
    targetsFrom other (linksElsewhere id links) = targetsFrom other links := by
  rw [targetsFrom, targetsFrom, linksElsewhere, List.filter_filter]
  congr 2
  funext link
  by_cases hsource : link.source = other
  · simp [hsource, hne]
  · simp [hsource]

private theorem mem_targetsFrom_of_elsewhere {id source target : BlockId} {links : List Link}
    (hmem : target ∈ targetsFrom source (linksElsewhere id links)) :
    target ∈ targetsFrom source links := by
  obtain ⟨link, hlink, hsource, htarget⟩ := mem_targetsFrom.1 hmem
  exact mem_targetsFrom.2 ⟨link, (List.mem_filter.1 hlink).1, hsource, htarget⟩

/-- A path can be cut so that it does not leave a given block, unless it leads to that block: what
    comes after the last visit starts at one of the block's targets. -/
private theorem path_avoiding (id : BlockId) {source goal : BlockId} {links : List Link}
    (hpath : ReflTransGen (fun a b => b ∈ targetsFrom a links) source goal) :
    id = goal ∨
      (∃ start ∈ targetsFrom id links,
        ReflTransGen (fun a b => b ∈ targetsFrom a (linksElsewhere id links)) start goal) ∨
      ReflTransGen (fun a b => b ∈ targetsFrom a (linksElsewhere id links)) source goal := by
  induction hpath using ReflTransGen.head_induction_on with
  | refl => exact .inr (.inr .refl)
  | @head source next hstep _ ih =>
    obtain hgoal | hstart | hrest := ih
    · exact .inl hgoal
    · exact .inr (.inl hstart)
    · by_cases heq : source = id
      · subst heq
        exact .inr (.inl ⟨next, hstep, hrest⟩)
      · rw [← targetsFrom_linksElsewhere heq] at hstep
        exact .inr (.inr (.head hstep hrest))

/-- The search finds exactly the blocks to which a path leads from the frontier. -/
theorem canReach_iff {goal : BlockId} {links : List Link} {frontier : List BlockId} :
    canReach goal links frontier = true ↔
      ∃ start ∈ frontier, ReflTransGen (fun a b => b ∈ targetsFrom a links) start goal := by
  fun_induction canReach goal links frontier with
  | case1 links => simp
  | case2 links id frontier ih =>
    rw [Bool.or_eq_true, beq_iff_eq, ih]
    constructor
    · rintro (rfl | ⟨start, hstart, hpath⟩)
      · exact ⟨id, List.mem_cons_self, .refl⟩
      · have hwhole := ReflTransGen.mono (fun _ _ hstep => mem_targetsFrom_of_elsewhere hstep)
          _ _ hpath
        obtain htarget | hfrontier := List.mem_append.1 hstart
        · exact ⟨id, List.mem_cons_self, .head htarget hwhole⟩
        · exact ⟨start, List.mem_cons_of_mem _ hfrontier, hwhole⟩
    · rintro ⟨start, hstart, hpath⟩
      obtain hgoal | ⟨after, hafter, hrest⟩ | hrest := path_avoiding id hpath
      · exact .inl hgoal
      · exact .inr ⟨after, List.mem_append_left _ hafter, hrest⟩
      · obtain rfl | hfrontier := List.mem_cons.1 hstart
        · obtain hgoal | ⟨next, hstep, -⟩ := hrest.cases_head
          · exact .inl hgoal
          · -- no link of the rest leaves the block itself
            obtain ⟨link, hlink, hsource, -⟩ := mem_targetsFrom.1 hstep
            have helsewhere := (List.mem_filter.1 hlink).2
            rw [decide_eq_true_eq] at helsewhere
            exact absurd hsource helsewhere
        · exact .inr ⟨start, List.mem_append_right _ hfrontier, hrest⟩

namespace Graph

variable {g : Graph}

/-- The search for a path finds one exactly if there is one, along links of both handles and on
    graphs with cycles, too. -/
theorem hasPath_iff {source target : BlockId} :
    g.hasPath source target = true ↔ ReflTransGen g.Leads source target := by
  have hrel : (fun a b => b ∈ targetsFrom a g.links.values) = g.Leads := g.mem_successors_eq
  rw [hasPath, canReach_iff, hrel]
  simp

/-- No block leads back to itself, over links of both handles. -/
def Acyclic (g : Graph) : Prop := ∀ id, ¬ TransGen g.Leads id id

end Graph

instance {named : Named} : Finite (Id named) :=
  Finite.of_injective (fun i => i.number.toFin) fun _ _ heq =>
    Id.number_inj (UInt64.toFin_inj.1 heq)

namespace Graph

variable {g : Graph}

/-- On a finite type, a relation without cycles is well-founded. -/
private theorem wellFounded_transGen_of_irrefl {α : Type} [Finite α] {r : α → α → Prop}
    (hirrefl : ∀ a, ¬ TransGen r a a) : WellFounded (TransGen r) := by
  have : Std.Irrefl (TransGen r) := ⟨hirrefl⟩
  exact Finite.wellFounded_of_trans_of_irrefl _

/-- Without cycles, a graph can be read from a block back to those that lead to it. -/
theorem Acyclic.wellFounded_leads (hg : g.Acyclic) : WellFounded g.Leads :=
  Subrelation.wf TransGen.single (wellFounded_transGen_of_irrefl hg)

/-- Without cycles a recursion may go on from a block to those it leads to. -/
theorem Acyclic.wellFounded_swap_leads (hg : g.Acyclic) :
    WellFounded (Function.swap g.Leads) := by
  refine Subrelation.wf TransGen.single (wellFounded_transGen_of_irrefl fun id hcycle => ?_)
  exact hg id (transGen_swap.1 hcycle)

/-- A graph that can be read from a block to those that it leads to has no cycles. -/
theorem acyclic_of_wellFounded (hwf : WellFounded (Function.swap g.Leads)) : g.Acyclic := by
  intro id hcycle
  have hswap : TransGen (Function.swap g.Leads) id id := transGen_swap.2 hcycle
  exact hwf.transGen.irrefl.irrefl id hswap

end Graph

end CommandBlocks
