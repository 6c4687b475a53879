import CommandBlocks.Proofs.Program.Reading

namespace CommandBlocks.Graph

open Relation

variable {g : Graph}

/-- Reading a block visits just the blocks that it leads to. -/
theorem mem_visits_iff (hshaped : g.Shaped) {id other : BlockId} :
    other ∈ g.visits hshaped.acyclic id ↔ ReflTransGen g.Leads id other := by
  induction id using hshaped.acyclic.wellFounded_swap_leads.induction with
  | _ id ih =>
    rw [visits_eq, List.mem_cons, List.mem_flatMap, ReflTransGen.cases_head_iff]
    refine or_congr eq_comm (exists_congr fun next => ?_)
    rw [hshaped.mem_followers_iff]
    exact and_congr_right fun hleads => ih next hleads

/-- Of two blocks that lead to a third, one leads to the other. -/
theorem Shaped.comparable (hshaped : g.Shaped) {first second id : BlockId}
    (hfirst : ReflTransGen g.Leads first id) (hsecond : ReflTransGen g.Leads second id) :
    ReflTransGen g.Leads first second ∨ ReflTransGen g.Leads second first := by
  have hunique : Relator.RightUnique (Function.swap g.Leads) :=
    fun _ _ _ => hshaped.leads_unique
  rcases ReflTransGen.total_of_right_unique hunique (reflTransGen_swap.2 hfirst)
    (reflTransGen_swap.2 hsecond) with hpath | hpath
  · exact .inr (reflTransGen_swap.1 hpath)
  · exact .inl (reflTransGen_swap.1 hpath)

/-- No block follows another twice. -/
theorem Shaped.nodup_followers (hshaped : g.Shaped) (id : BlockId) : (g.followers id).Nodup := by
  have hlinks : ∀ handle, ((g.outgoing id handle).map (·.2.target)).Nodup := by
    intro handle
    refine List.Nodup.map_on ?_ (g.links.nodup_entries.filter _)
    rintro ⟨i, link⟩ hlink ⟨j, other⟩ hother htarget
    obtain ⟨rfl, rfl⟩ := hshaped.link_unique (mem_outgoing.1 hlink).1 (mem_outgoing.1 hother).1
      htarget
    rfl
  refine List.nodup_append.2 ⟨hlinks .child, ?_, ?_⟩
  · cases g.successor? id <;> simp
  · rintro child hchild next hnext rfl
    obtain ⟨i, link, hlink, -, hhandle, htarget⟩ := mem_children.1 hchild
    obtain ⟨j, other, hother, -, hnextHandle, hnextTarget⟩ :=
      successor?_mem (Option.mem_toList.1 hnext)
    obtain ⟨rfl, rfl⟩ := hshaped.link_unique hlink hother (htarget.trans hnextTarget.symm)
    rw [hhandle] at hnextHandle
    cases hnextHandle

/-- Two different blocks that follow one block reach no common block. -/
private theorem Shaped.disjoint_of_follow (hshaped : g.Shaped) {id first second : BlockId}
    (hfirst : g.Leads id first) (hsecond : g.Leads id second) (hne : first ≠ second) :
    List.Disjoint (g.visits hshaped.acyclic first) (g.visits hshaped.acyclic second) := by
  have hapart : ∀ {a b}, g.Leads id a → g.Leads id b → a ≠ b → ¬ ReflTransGen g.Leads a b := by
    intro a b ha hb hab hpath
    obtain heq | ⟨last, hbefore, hlast⟩ := hpath.cases_tail
    · exact hab heq.symm
    · obtain rfl := hshaped.leads_unique hlast hb
      exact hshaped.acyclic last (.head' ha hbefore)
  intro other hmem hmem'
  rcases hshaped.comparable ((mem_visits_iff hshaped).1 hmem) ((mem_visits_iff hshaped).1 hmem')
    with hpath | hpath
  · exact hapart hfirst hsecond hne hpath
  · exact hapart hsecond hfirst hne.symm hpath

theorem nodup_visits (hshaped : g.Shaped) (id : BlockId) :
    (g.visits hshaped.acyclic id).Nodup := by
  induction id using hshaped.acyclic.wellFounded_swap_leads.induction with
  | _ id ih =>
    rw [visits_eq, List.nodup_cons, List.mem_flatMap, List.nodup_flatMap]
    refine ⟨?_, fun next hnext => ih next (leads_of_mem_followers hnext), ?_⟩
    · rintro ⟨next, hnext, hback⟩
      exact hshaped.acyclic id
        (.head' (leads_of_mem_followers hnext) ((mem_visits_iff hshaped).1 hback))
    · refine (hshaped.nodup_followers id).imp_of_mem fun hfirst hsecond hne => ?_
      exact hshaped.disjoint_of_follow (leads_of_mem_followers hfirst)
        (leads_of_mem_followers hsecond) hne

/-- Reading a graph visits no block twice. -/
theorem nodup_readingOrder (hshaped : g.Shaped) : (g.readingOrder hshaped.acyclic).Nodup := by
  rw [readingOrder, List.nodup_flatMap]
  refine ⟨fun id _ => nodup_visits hshaped id, ?_⟩
  refine g.nodup_roots.imp_of_mem fun {first second} hfirst hsecond hne => ?_
  -- a path between two roots would end with a link to one of them
  have hroot : ∀ {a b}, b ∈ g.roots → ReflTransGen g.Leads a b → b = a := by
    intro a b hb hpath
    obtain heq | ⟨last, -, hlast⟩ := hpath.cases_tail
    · exact heq
    · exact absurd hlast ((mem_roots.1 hb).2 last)
  intro other hmem hmem'
  rcases hshaped.comparable ((mem_visits_iff hshaped).1 hmem) ((mem_visits_iff hshaped).1 hmem')
    with hpath | hpath
  · exact hne (hroot hsecond hpath).symm
  · exact hne (hroot hfirst hpath)

/-- Every block is reached from a root. -/
theorem exists_root (hg : g.WellFormed) (hacyclic : g.Acyclic) {id : BlockId}
    (hid : g.blocks.contains id = true) : ∃ root ∈ g.roots, ReflTransGen g.Leads root id := by
  induction id using hacyclic.wellFounded_leads.induction with
  | _ id ih =>
    by_cases hsource : ∃ source, g.Leads source id
    · obtain ⟨source, hleads⟩ := hsource
      obtain ⟨root, hroot, hpath⟩ := ih source hleads (hg.contains_of_leads hleads).1
      exact ⟨root, hroot, hpath.tail hleads⟩
    · exact ⟨id, mem_roots.2 ⟨hid, fun source hleads => hsource ⟨source, hleads⟩⟩, .refl⟩

/-- Reading a graph visits each of its blocks. -/
theorem mem_readingOrder_iff (hg : g.WellFormed) (hshaped : g.Shaped) {id : BlockId} :
    id ∈ g.readingOrder hshaped.acyclic ↔ g.blocks.contains id = true := by
  rw [readingOrder, List.mem_flatMap]
  constructor
  · rintro ⟨root, hroot, hmem⟩
    obtain rfl | ⟨last, -, hleads⟩ := ((mem_visits_iff hshaped).1 hmem).cases_tail
    · exact (mem_roots.1 hroot).1
    · exact (hg.contains_of_leads hleads).2
  · intro hid
    obtain ⟨root, hroot, hpath⟩ := exists_root hg hshaped.acyclic hid
    exact ⟨root, hroot, (mem_visits_iff hshaped).2 hpath⟩

/-- A reading meets every block of the graph exactly once. -/
theorem readingOrder_perm_keys (hg : g.WellFormed) (hshaped : g.Shaped) :
    (g.readingOrder hshaped.acyclic).Perm g.blocks.keys := by
  rw [List.perm_ext_iff_of_nodup (nodup_readingOrder hshaped) g.blocks.nodup_keys]
  intro id
  rw [mem_readingOrder_iff hg hshaped, Table.mem_keys]

end CommandBlocks.Graph
