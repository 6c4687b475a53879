import CommandBlocks.Proofs.Graph.Paths

namespace CommandBlocks

open Relation

variable {successors : BlockId → List BlockId}

/-- Each block of a trail was met among the successors of the block before it, and what is still to
    be looked at are successors as well. -/
def Trail.Walked (successors : BlockId → List BlockId) : Trail → Prop
  | [] => True
  | (id, later) :: trail =>
    later ⊆ successors id ∧ (∀ step ∈ trail.head?, id ∈ successors step.1) ∧
      Walked successors trail

/-- Of the successors of each block of a trail, those no longer to be looked at lead to no cycle,
    apart from the block that follows it on the trail; of the last block, that is the given one. -/
def Trail.LookedAt (successors : BlockId → List BlockId) : Option BlockId → Trail → Prop
  | _, [] => True
  | above, (id, later) :: trail =>
    (∀ succ ∈ successors id,
      succ ∈ later ∨ Acc (fun b a => b ∈ successors a) succ ∨ above = some succ) ∧
      LookedAt successors (some id) trail

/-- Every block of a trail leads to the last one of it. -/
private theorem Trail.Walked.path {id : BlockId} {later : List BlockId} {trail : Trail}
    (hwalked : Trail.Walked successors ((id, later) :: trail)) {earlier : BlockId}
    (hmem : earlier ∈ id :: trail.map (·.1)) :
    ReflTransGen (fun a b => b ∈ successors a) earlier id := by
  induction trail generalizing id later with
  | nil =>
    obtain rfl : earlier = id := by simpa using hmem
    exact .refl
  | cons step trail ih =>
    obtain ⟨-, hstep, hrest⟩ := hwalked
    obtain rfl | hmem := List.mem_cons.1 hmem
    · exact .refl
    · exact (ih hrest hmem).tail (hstep step rfl)

/-- A search that ends with a block has closed a cycle through it. -/
theorem transGen_of_searchTrail_error {fresh : List BlockId} {trail : Trail} {id : BlockId}
    (hwalked : Trail.Walked successors trail)
    (herror : searchTrail successors fresh trail = .error id) :
    TransGen (fun a b => b ∈ successors a) id id := by
  fun_induction searchTrail successors fresh trail with
  | case1 fresh => cases herror
  | case2 fresh last trail ih => exact ih hwalked.2.2 herror
  | case3 fresh last succ later trail hmem =>
    cases herror
    exact .tail' (hwalked.path hmem) (hwalked.1 List.mem_cons_self)
  | case4 fresh last succ later trail _ _ ih =>
    obtain ⟨hlater, hlast, hrest⟩ := hwalked
    have hsucc : succ ∈ successors last := hlater List.mem_cons_self
    refine ih ⟨List.Subset.refl _, ?_, ?_⟩ herror
    · intro step hstep
      cases hstep
      exact hsucc
    · exact ⟨fun _ h => hlater (List.mem_cons_of_mem _ h), hlast, hrest⟩
  | case5 fresh last succ later trail _ _ ih =>
    obtain ⟨hlater, hlast, hrest⟩ := hwalked
    exact ih ⟨fun _ h => hlater (List.mem_cons_of_mem _ h), hlast, hrest⟩ herror

/-- A block that the search ends with leads back to itself. -/
theorem transGen_of_searchAll_error {fresh starts : List BlockId} {id : BlockId}
    (herror : searchAll successors fresh starts = .error id) :
    TransGen (fun a b => b ∈ successors a) id id := by
  fun_induction searchAll successors fresh starts with
  | case1 fresh => cases herror
  | case2 fresh start starts _ ih =>
    cases htrail : searchTrail successors (fresh.erase start) [(start, successors start)] with
    | error last =>
      rw [htrail] at herror
      cases herror
      have hwalked : Trail.Walked successors [(start, successors start)] :=
        ⟨List.Subset.refl _, by simp, trivial⟩
      exact transGen_of_searchTrail_error hwalked htrail
    | ok rest =>
      rw [htrail] at herror
      exact ih rest herror
  | case3 fresh start starts _ ih => exact ih herror

/-- When the last block of a trail is done with, its trail goes on without it. -/
private theorem Trail.LookedAt.done {id : BlockId} {trail : Trail}
    (hlooked : Trail.LookedAt successors (some id) trail)
    (hacc : Acc (fun b a => b ∈ successors a) id) : Trail.LookedAt successors none trail := by
  cases trail with
  | nil => trivial
  | cons step trail =>
    obtain ⟨hstep, hrest⟩ := hlooked
    refine ⟨fun succ hsucc => ?_, hrest⟩
    obtain hlater | hdone | habove := hstep succ hsucc
    · exact .inl hlater
    · exact .inr (.inl hdone)
    · cases habove
      exact .inr (.inl hacc)

/-- A search along a trail that ends without a cycle has shown of all blocks but the remaining ones
    that they lead to no cycle. -/
theorem acc_of_searchTrail_ok {fresh rest : List BlockId} {trail : Trail}
    (hdone : ∀ id, id ∉ fresh → id ∉ trail.map (·.1) → Acc (fun b a => b ∈ successors a) id)
    (hlooked : Trail.LookedAt successors none trail)
    (hok : searchTrail successors fresh trail = .ok rest) :
    List.Sublist rest fresh ∧ ∀ id, id ∉ rest → Acc (fun b a => b ∈ successors a) id := by
  fun_induction searchTrail successors fresh trail with
  | case1 fresh =>
    cases hok
    exact ⟨List.Sublist.refl _, fun id hid => hdone id hid List.not_mem_nil⟩
  | case2 fresh last trail ih =>
    obtain ⟨hlast, hrest⟩ := hlooked
    have hacc : Acc (fun b a => b ∈ successors a) last := by
      refine .intro _ fun succ hsucc => ?_
      simpa using hlast succ hsucc
    refine ih (fun id hfresh htrail => ?_) (hrest.done hacc) hok
    by_cases heq : id = last
    · exact heq ▸ hacc
    · exact hdone id hfresh (by simpa [heq] using htrail)
  | case3 fresh last succ later trail => cases hok
  | case4 fresh last succ later trail _ hfresh ih =>
    obtain ⟨hlast, hrest⟩ := hlooked
    have hpushed : Trail.LookedAt successors none
        ((succ, successors succ) :: (last, later) :: trail) := by
      refine ⟨fun _ h => .inl h, fun other hother => ?_, hrest⟩
      obtain hlater | hacc | habove := hlast other hother
      · obtain rfl | hlater := List.mem_cons.1 hlater
        · exact .inr (.inr rfl)
        · exact .inl hlater
      · exact .inr (.inl hacc)
      · cases habove
    have hpushedDone : ∀ id, id ∉ fresh.erase succ →
        id ∉ ((succ, successors succ) :: (last, later) :: trail).map (·.1) →
        Acc (fun b a => b ∈ successors a) id := by
      intro id herase htrail
      rw [List.map_cons, List.mem_cons, not_or] at htrail
      obtain ⟨hne, htrail⟩ := htrail
      exact hdone id (fun hmem => herase ((List.mem_erase_of_ne hne).2 hmem)) htrail
    obtain ⟨hsub, hacc⟩ := ih hpushedDone hpushed hok
    exact ⟨hsub.trans List.erase_sublist, hacc⟩
  | case5 fresh last succ later trail htrail hfresh ih =>
    obtain ⟨hlast, hrest⟩ := hlooked
    refine ih hdone ⟨fun other hother => ?_, hrest⟩ hok
    obtain hlater | hacc | habove := hlast other hother
    · obtain rfl | hlater := List.mem_cons.1 hlater
      · exact .inr (.inl (hdone _ hfresh htrail))
      · exact .inl hlater
    · exact .inr (.inl hacc)
    · cases habove

/-- When the search ends without a cycle, no cycle is reached from a block that it is done with, and
    it is done with all starts. -/
theorem acc_of_searchAll_ok {fresh starts rest : List BlockId} (hnodup : fresh.Nodup)
    (hdone : ∀ id, id ∉ fresh → Acc (fun b a => b ∈ successors a) id)
    (hok : searchAll successors fresh starts = .ok rest) :
    List.Sublist rest fresh ∧ (∀ start ∈ starts, start ∉ rest) ∧
      ∀ id, id ∉ rest → Acc (fun b a => b ∈ successors a) id := by
  fun_induction searchAll successors fresh starts with
  | case1 fresh =>
    cases hok
    exact ⟨List.Sublist.refl _, by simp, hdone⟩
  | case2 fresh start starts hfresh ih =>
    cases htrail : searchTrail successors (fresh.erase start) [(start, successors start)] with
    | error last =>
      rw [htrail] at hok
      cases hok
    | ok next =>
      rw [htrail] at hok
      have hlooked : Trail.LookedAt successors none [(start, successors start)] :=
        ⟨fun _ hsucc => .inl hsucc, trivial⟩
      obtain ⟨hnext, hnextDone⟩ := acc_of_searchTrail_ok
        (fun id herase hstart => hdone id fun hmem =>
          herase ((List.mem_erase_of_ne (by simpa using hstart)).2 hmem)) hlooked htrail
      have hsub := hnext.trans List.erase_sublist
      obtain ⟨hrest, hstarts, hall⟩ := ih next (hsub.nodup hnodup) hnextDone hok
      refine ⟨hrest.trans hsub, ?_, hall⟩
      intro other hother hmem
      obtain rfl | hother := List.mem_cons.1 hother
      · exact hnodup.not_mem_erase (hnext.subset (hrest.subset hmem))
      · exact hstarts other hother hmem
  | case3 fresh start starts hfresh ih =>
    obtain ⟨hrest, hstarts, hall⟩ := ih hnodup hdone hok
    refine ⟨hrest, ?_, hall⟩
    intro other hother hmem
    obtain rfl | hother := List.mem_cons.1 hother
    · exact hfresh (hrest.subset hmem)
    · exact hstarts other hother hmem

namespace Graph

variable {g : Graph}

/-- If every link leaves a block of the graph, what is no block leads to no cycle. -/
theorem acc_of_not_mem_keys (hsource : ∀ x ∈ g.links.entries, g.blocks.contains x.2.source)
    {id : BlockId} (hid : id ∉ g.blocks.keys) : Acc (fun b a => b ∈ g.successors a) id := by
  refine .intro _ fun succ hsucc => absurd ?_ hid
  obtain ⟨k, link, hget, rfl, -⟩ := mem_successors.1 hsucc
  exact Table.mem_keys.2 (hsource _ (Table.mem_entries_iff.2 hget))

/-- The search for a cycle succeeds exactly on the graphs without cycles, whatever else their links
    are like. -/
theorem cycle?_eq_none_iff (hsource : ∀ x ∈ g.links.entries, g.blocks.contains x.2.source) :
    g.cycle? = none ↔ g.Acyclic := by
  rw [cycle?]
  constructor
  · intro hnone
    cases hsearch : searchAll g.successors g.blocks.keys g.blocks.keys with
    | error id => simp [hsearch] at hnone
    | ok rest =>
      obtain ⟨hsub, hstarts, hacc⟩ := acc_of_searchAll_ok g.blocks.nodup_keys
        (fun _ hid => acc_of_not_mem_keys hsource hid) hsearch
      have hwf : WellFounded (fun b a => b ∈ g.successors a) :=
        ⟨fun id => hacc id fun hmem => hstarts id (hsub.subset hmem) hmem⟩
      refine acyclic_of_wellFounded (Subrelation.wf (fun {b a} hleads => ?_) hwf)
      exact mem_successors.2 hleads
  · intro hacyclic
    cases hsearch : searchAll g.successors g.blocks.keys g.blocks.keys with
    | ok rest => rfl
    | error id =>
      have hcycle := transGen_of_searchAll_error hsearch
      rw [mem_successors_eq] at hcycle
      exact absurd hcycle (hacyclic id)

/-- The search finds no cycle exactly if there is none. -/
theorem WellFormed.cycle?_eq_none_iff (hg : g.WellFormed) : g.cycle? = none ↔ g.Acyclic :=
  Graph.cycle?_eq_none_iff fun x hx => (hg.ends x hx).1

/-- The block that the search names lies on a cycle. -/
theorem cycle_of_cycle?_eq_some {fault : ShapeFault} (hsome : g.cycle? = some fault) :
    ∃ id, fault = .cycle id ∧ TransGen g.Leads id id := by
  rw [cycle?] at hsome
  cases hsearch : searchAll g.successors g.blocks.keys g.blocks.keys with
  | ok rest => simp [hsearch] at hsome
  | error id =>
    simp only [hsearch, Option.some.injEq] at hsome
    have hcycle := transGen_of_searchAll_error hsearch
    rw [mem_successors_eq] at hcycle
    exact ⟨id, hsome.symm, hcycle⟩

end Graph

end CommandBlocks
