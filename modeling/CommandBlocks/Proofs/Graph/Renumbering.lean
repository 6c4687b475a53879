import CommandBlocks.Proofs.Graph.Counting
import CommandBlocks.Proofs.Graph.Faults
import Mathlib.Logic.Equiv.Fintype

namespace CommandBlocks

open Relation

/-- A link between the same blocks under other identifiers. -/
def Link.rename (block : BlockId → BlockId) (link : Link) : Link :=
  ⟨block link.source, link.handle, block link.target⟩

namespace Graph

variable {g h : Graph}

/-- The second graph has the blocks of the first with their kinds and values, and its links, under
    the identifiers that two functions give. The roots keep their order, and so do the links that
    leave a block by its child handle. -/
structure Renumbered (block : BlockId → BlockId) (link : LinkId → LinkId) (g h : Graph) :
    Prop where
  blocks : Set.BijOn block {id | g.blocks.contains id = true} {id | h.blocks.contains id = true}
  links : Set.BijOn link {id | g.links.contains id = true} {id | h.links.contains id = true}
  kept : ∀ id old, g.blocks.get? id = some old →
    ∃ new, h.blocks.get? (block id) = some new ∧ new.kind = old.kind ∧ new.values = old.values
  joined : ∀ id old, g.links.get? id = some old →
    h.links.get? (link id) = some ⟨block old.source, old.handle, block old.target⟩
  roots : ∀ first ∈ g.roots, ∀ second ∈ g.roots, first.number < second.number →
    (block first).number < (block second).number
  children : ∀ i j first second, g.links.get? i = some first → g.links.get? j = some second →
    first.source = second.source → first.handle = .child → second.handle = .child →
    i.number < j.number → (link i).number < (link j).number

/-- Two graphs as in `Renumbered`, where the identifiers are exchanged by permutations of all
    identifiers. -/
structure Permuted (block : Equiv.Perm BlockId) (link : Equiv.Perm LinkId) (g h : Graph) :
    Prop where
  blocks : ∀ id, (h.blocks.get? (block id)).map (fun new => (new.kind, new.values)) =
    (g.blocks.get? id).map fun old => (old.kind, old.values)
  links : ∀ id, h.links.get? (link id) = (g.links.get? id).map (·.rename block)
  roots : ∀ first ∈ g.roots, ∀ second ∈ g.roots, first.number < second.number →
    (block first).number < (block second).number
  children : ∀ i j first second, g.links.get? i = some first → g.links.get? j = some second →
    first.source = second.source → first.handle = .child → second.handle = .child →
    i.number < j.number → (link i).number < (link j).number

namespace Permuted

variable {block : Equiv.Perm BlockId} {link : Equiv.Perm LinkId}

/-- Each block is there under its other identifier, with the same kind and the same values. -/
theorem exists_get? (hp : Permuted block link g h) {id : BlockId} {old : Block}
    (hget : g.blocks.get? id = some old) :
    ∃ new, h.blocks.get? (block id) = some new ∧ new.kind = old.kind ∧
      new.values = old.values := by
  have hmap := hp.blocks id
  rw [hget, Option.map_some, Option.map_eq_some_iff] at hmap
  obtain ⟨new, hnew, heq⟩ := hmap
  exact ⟨new, hnew, congrArg Prod.fst heq, congrArg Prod.snd heq⟩

theorem contains_eq (hp : Permuted block link g h) (id : BlockId) :
    h.blocks.contains (block id) = g.blocks.contains id := by
  have hsome := congrArg Option.isSome (hp.blocks id)
  rwa [Option.isSome_map, Option.isSome_map] at hsome

/-- The links of the two graphs are the same but for their identifiers. -/
theorem entries_perm (hp : Permuted block link g h) :
    h.links.entries.Perm (g.links.entries.map fun x => (link x.1, x.2.rename block)) := by
  have hnodup : (g.links.entries.map fun x => (link x.1, x.2.rename block)).Nodup := by
    have hkeys := g.links.nodup_keys.map link.injective
    rw [Table.keys, List.map_map] at hkeys
    refine List.Nodup.of_map Prod.fst ?_
    rwa [List.map_map]
  rw [List.perm_ext_iff_of_nodup (Table.nodup_entries _) hnodup]
  rintro ⟨k, drawn⟩
  obtain ⟨k, rfl⟩ := link.surjective k
  rw [Table.mem_entries_iff, hp.links, Option.map_eq_some_iff, List.mem_map]
  constructor
  · rintro ⟨old, hold, rfl⟩
    exact ⟨(k, old), Table.mem_entries_iff.2 hold, rfl⟩
  · rintro ⟨⟨i, old⟩, hmem, heq⟩
    obtain ⟨hi, rfl⟩ := Prod.mk.inj heq
    obtain rfl := link.injective hi
    exact ⟨old, Table.mem_entries_iff.1 hmem, rfl⟩

/-- The same links leave a block, up to their identifiers. -/
theorem outgoing_perm (hp : Permuted block link g h) (id : BlockId) (handle : Handle) :
    (h.outgoing (block id) handle).Perm
      ((g.outgoing id handle).map fun x => (link x.1, x.2.rename block)) := by
  have hfilter := hp.entries_perm.filter fun x =>
    decide (x.2.source = block id ∧ x.2.handle = handle)
  rw [List.filter_map] at hfilter
  simpa [outgoing, Link.rename, Function.comp_def] using hfilter

theorem incoming_perm (hp : Permuted block link g h) (id : BlockId) :
    (h.incoming (block id)).Perm
      ((g.incoming id).map fun x => (link x.1, x.2.rename block)) := by
  have hfilter := hp.entries_perm.filter fun x => decide (x.2.target = block id)
  rw [List.filter_map] at hfilter
  simpa [incoming, Link.rename, Function.comp_def] using hfilter

/-- A block leads to another exactly if it does under the other identifiers. -/
theorem leads_iff (hp : Permuted block link g h) {source target : BlockId} :
    h.Leads (block source) (block target) ↔ g.Leads source target := by
  constructor
  · rintro ⟨k, drawn, hget, hsource, htarget⟩
    obtain ⟨k, rfl⟩ := link.surjective k
    rw [hp.links, Option.map_eq_some_iff] at hget
    obtain ⟨old, hold, rfl⟩ := hget
    exact ⟨k, old, hold, block.injective hsource, block.injective htarget⟩
  · rintro ⟨k, old, hold, rfl, rfl⟩
    exact ⟨link k, old.rename block, by rw [hp.links, hold, Option.map_some], rfl, rfl⟩

theorem mem_roots_iff (hp : Permuted block link g h) {id : BlockId} :
    block id ∈ h.roots ↔ id ∈ g.roots := by
  rw [mem_roots, mem_roots, hp.contains_eq, block.surjective.forall]
  simp only [hp.leads_iff]

/-- A list in order of identifiers is known from its members. -/
private theorem eq_of_perm_of_ascending {α : Type} (number : α → UInt64) {l m : List α}
    (hperm : l.Perm m) (hl : l.Pairwise fun x y => number x < number y)
    (hm : m.Pairwise fun x y => number x < number y) : l = m := by
  refine List.Perm.eq_of_pairwise (fun a b _ _ hab hba => ?_) hl hm hperm
  exact absurd (UInt64.lt_trans hab hba) (UInt64.lt_irrefl _)

/-- The roots are the same and in the same order. -/
theorem roots_eq (hp : Permuted block link g h) : h.roots = g.roots.map block := by
  apply eq_of_perm_of_ascending Id.number
  · rw [List.perm_ext_iff_of_nodup h.nodup_roots (g.nodup_roots.map block.injective)]
    intro id
    obtain ⟨id, rfl⟩ := block.surjective id
    rw [hp.mem_roots_iff, List.mem_map_of_injective block.injective]
  · exact h.blocks.keys_ascending.filter _
  · rw [List.pairwise_map]
    exact (g.blocks.keys_ascending.filter _).imp_of_mem fun hfirst hsecond hlt =>
      hp.roots _ hfirst _ hsecond hlt

/-- The children of a block are the same and in the same order. -/
theorem children_eq (hp : Permuted block link g h) (id : BlockId) :
    h.children (block id) = (g.children id).map block := by
  have houtgoing : h.outgoing (block id) .child =
      (g.outgoing id .child).map fun x => (link x.1, x.2.rename block) := by
    apply eq_of_perm_of_ascending (fun x => x.1.number) (hp.outgoing_perm id .child)
    · exact h.links.number_ascending.filter _
    · rw [List.pairwise_map]
      refine (g.links.number_ascending.filter _).imp_of_mem fun {x y} hx hy hlt => ?_
      obtain ⟨hfirst, hsource, hchild⟩ := mem_outgoing.1 hx
      obtain ⟨hsecond, hsame, hchild'⟩ := mem_outgoing.1 hy
      exact hp.children _ _ _ _ hfirst hsecond (hsource.trans hsame.symm) hchild hchild' hlt
  rw [Graph.children, Graph.children, houtgoing, List.map_map, List.map_map]
  rfl

/-- The next block of a block is the same, if there is no choice. -/
theorem successor?_eq (hp : Permuted block link g h) {id : BlockId}
    (hone : (g.outgoing id .next).length ≤ 1) :
    h.successor? (block id) = (g.successor? id).map block := by
  have hperm := hp.outgoing_perm id .next
  rw [successor?, successor?]
  rcases hnext : g.outgoing id .next with _ | ⟨x, _ | ⟨y, rest⟩⟩
  · rw [hnext] at hperm
    rw [hperm.eq_nil]
    rfl
  · rw [hnext] at hperm
    rw [List.perm_singleton.1 hperm]
    rfl
  · simp [hnext] at hone

/-- The shape that compiling needs does not depend on identifiers. -/
theorem shaped (hp : Permuted block link g h) (hg : g.Shaped) : h.Shaped where
  oneParent id := by
    obtain ⟨id, rfl⟩ := block.surjective id
    rw [(hp.incoming_perm id).length_eq, List.length_map]
    exact hg.oneParent id
  oneNext id := by
    obtain ⟨id, rfl⟩ := block.surjective id
    rw [(hp.outgoing_perm id .next).length_eq, List.length_map]
    exact hg.oneNext id
  capacity x hx := by
    obtain ⟨id, new⟩ := x
    obtain ⟨id, rfl⟩ := block.surjective id
    have hnew := Table.mem_entries_iff.1 hx
    have hcontains := Table.contains_of_get? hnew
    rw [hp.contains_eq] at hcontains
    obtain ⟨old, hold⟩ := Table.contains_iff.1 hcontains
    obtain ⟨found, hfound, hkind, -⟩ := hp.exists_get? hold
    obtain rfl : found = new := Option.some_inj.1 (hfound.symm.trans hnew)
    rw [(hp.outgoing_perm id .child).length_eq, List.length_map, hkind]
    exact hg.capacity (id, old) (Table.mem_entries_iff.2 hold)
  acyclic id hcycle := by
    refine hg.acyclic (block.symm id) (TransGen.lift block.symm (fun a b hleads => ?_) _ _ hcycle)
    rw [Function.onFun, ← hp.leads_iff, block.apply_symm_apply, block.apply_symm_apply]
    exact hleads

/-- Two things are in the order in which their images are, if the order is kept. -/
private theorem lt_of_map_lt {named : Named} {e : Equiv.Perm (Id named)} {i j : Id named}
    (hkept : (e.symm j).number < (e.symm i).number → j.number < i.number)
    (hlt : i.number < j.number) : (e.symm i).number < (e.symm j).number := by
  rcases lt_trichotomy (e.symm i).number.toNat (e.symm j).number.toNat with hbefore | heq | hafter
  · exact UInt64.lt_iff_toNat_lt.2 hbefore
  · obtain rfl := e.symm.injective (Id.number_inj (UInt64.toNat_inj.1 heq))
    exact absurd hlt (UInt64.lt_irrefl _)
  · have hgt := hkept (UInt64.lt_iff_toNat_lt.2 hafter)
    exact absurd (UInt64.lt_trans hlt hgt) (UInt64.lt_irrefl _)

theorem symm (hp : Permuted block link g h) : Permuted block.symm link.symm h g where
  blocks id := by rw [← hp.blocks, block.apply_symm_apply]
  links k := by
    have hlinks := hp.links (link.symm k)
    rw [link.apply_symm_apply] at hlinks
    have hrename : Link.rename block.symm ∘ Link.rename block = id := by
      funext drawn
      simp [Link.rename]
    rw [hlinks, Option.map_map, hrename, Option.map_id, id]
  roots first hfirst second hsecond hlt := by
    have hroot : ∀ {id}, id ∈ h.roots → block.symm id ∈ g.roots := by
      intro id hid
      rwa [← hp.mem_roots_iff, block.apply_symm_apply]
    apply lt_of_map_lt (fun hgt => ?_) hlt
    have hkept := hp.roots _ (hroot hsecond) _ (hroot hfirst) hgt
    rwa [block.apply_symm_apply, block.apply_symm_apply] at hkept
  children i j first second hfirst hsecond hsource hchild hchild' hlt := by
    have hlink : ∀ {k drawn}, h.links.get? k = some drawn →
        ∃ old, g.links.get? (link.symm k) = some old ∧ old.rename block = drawn := by
      intro k drawn hget
      rwa [← link.apply_symm_apply k, hp.links, Option.map_eq_some_iff] at hget
    obtain ⟨old, hold, rfl⟩ := hlink hfirst
    obtain ⟨old', hold', rfl⟩ := hlink hsecond
    apply lt_of_map_lt (fun hgt => ?_) hlt
    have hkept := hp.children _ _ _ _ hold' hold (block.injective hsource.symm) hchild' hchild hgt
    rwa [link.apply_symm_apply, link.apply_symm_apply] at hkept

end Permuted

/-- A bijection between two sets of identifiers extends to a permutation of all identifiers. -/
private theorem exists_perm_of_bijOn {named : Named} {f : Id named → Id named}
    {s t : Set (Id named)} (hf : Set.BijOn f s t) :
    ∃ e : Equiv.Perm (Id named), (∀ i ∈ s, e i = f i) ∧ ∀ i, e i ∈ t ↔ i ∈ s := by
  have : Finite (Id named) := Finite.of_injective (fun i => i.number.toFin)
    fun i j heq => Id.number_inj (UInt64.toFin_inj.1 heq)
  obtain ⟨e, he⟩ := Equiv.Perm.exists_extending_pair (fun i : s => i.1) (fun i : s => f i.1)
    Subtype.val_injective hf.injOn.injective
  have heq : ∀ i ∈ s, e i = f i := fun i hi => he ⟨i, hi⟩
  refine ⟨e, heq, fun i => ⟨fun hi => ?_, fun hi => heq i hi ▸ hf.mapsTo hi⟩⟩
  obtain ⟨j, hj, hfj⟩ := hf.surjOn hi
  rwa [← e.injective ((heq j hj).trans hfj)]

/-- What happens to the identifiers of a graph extends to permutations of all identifiers. -/
theorem Renumbered.exists_permuted {block : BlockId → BlockId} {link : LinkId → LinkId}
    (hr : Renumbered block link g h) (hg : g.WellFormed) :
    ∃ (block' : Equiv.Perm BlockId) (link' : Equiv.Perm LinkId), Permuted block' link' g h ∧
      ∀ id, g.blocks.contains id = true → block' id = block id := by
  obtain ⟨block', hblock, hblocks⟩ := exists_perm_of_bijOn hr.blocks
  obtain ⟨link', hlink, hlinks⟩ := exists_perm_of_bijOn hr.links
  refine ⟨block', link', ?_, hblock⟩
  have hroot : ∀ id ∈ g.roots, block' id = block id := fun id hid => hblock id (mem_roots.1 hid).1
  constructor
  case blocks =>
    intro id
    cases hold : g.blocks.get? id with
    | none =>
      have hnone := mt (hblocks id).1 (Table.get?_eq_none_iff.1 hold)
      rw [Table.get?_eq_none_iff.2 hnone, Option.map_none]
    | some old =>
      obtain ⟨new, hnew, hkind, hvalues⟩ := hr.kept id old hold
      rw [hblock id (Table.contains_of_get? hold), hnew, Option.map_some, Option.map_some, hkind,
        hvalues]
  case links =>
    intro k
    cases hold : g.links.get? k with
    | none =>
      have hnone := mt (hlinks k).1 (Table.get?_eq_none_iff.1 hold)
      rw [Table.get?_eq_none_iff.2 hnone, Option.map_none]
    | some old =>
      have hends := hg.ends (k, old) (Table.mem_entries_iff.2 hold)
      rw [hlink k (Table.contains_of_get? hold), hr.joined k old hold, Option.map_some, Link.rename,
        hblock _ hends.1, hblock _ hends.2]
  case roots =>
    intro first hfirst second hsecond hlt
    rw [hroot first hfirst, hroot second hsecond]
    exact hr.roots first hfirst second hsecond hlt
  case children =>
    intro i j first second hfirst hsecond hsource hchild hchild' hlt
    rw [hlink i (Table.contains_of_get? hfirst), hlink j (Table.contains_of_get? hsecond)]
    exact hr.children i j first second hfirst hsecond hsource hchild hchild' hlt

end Graph

end CommandBlocks
