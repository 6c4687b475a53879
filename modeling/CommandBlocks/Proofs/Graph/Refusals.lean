import CommandBlocks.Proofs.Graph.Faults
import CommandBlocks.Proofs.Graph.Rules

namespace CommandBlocks.Graph

open Relation

variable {g : Graph} {link : Link} {refusal : Refusal}

/-- A proposed link breaks no rule but perhaps the one against cycles: it joins two blocks of the
    graph, no link ends at its target, and its source has room for another child if it is to be
    nested in it. -/
structure Lands (g : Graph) (link : Link) : Prop where
  source : g.blocks.contains link.source = true
  target : g.blocks.contains link.target = true
  apart : link.source ≠ link.target
  free : ∀ other, ¬ g.Leads other link.target
  room : link.handle = .child → ∀ block, g.blocks.get? link.source = some block →
    block.kind.capacity.hasRoom (g.outgoing link.source .child).length = true

/-- The refusal for the first rule that a proposed link breaks. The rules come in the order of the
    constructors, each of which says that the link breaks none of the earlier ones. -/
inductive FirstRefusal (g : Graph) (link : Link) : Refusal → Prop where
  | unknownSource (unknown : g.blocks.contains link.source = false) :
    FirstRefusal g link (.unknownBlock link.source)
  | unknownTarget (source : g.blocks.contains link.source = true)
      (unknown : g.blocks.contains link.target = false) :
    FirstRefusal g link (.unknownBlock link.target)
  | selfLink (source : g.blocks.contains link.source = true)
      (target : g.blocks.contains link.target = true) (same : link.source = link.target) :
    FirstRefusal g link (.selfLink link.source)
  | occupied {id : LinkId} {earlier : Link} (source : g.blocks.contains link.source = true)
      (target : g.blocks.contains link.target = true) (apart : link.source ≠ link.target)
      (ends : g.links.get? id = some earlier ∧ earlier.target = link.target)
      (first : ∀ other later, g.links.get? other = some later → later.target = link.target →
        id.number ≤ other.number) :
    FirstRefusal g link (.occupied link.target id)
  | closed {block : Block} (source : g.blocks.get? link.source = some block)
      (target : g.blocks.contains link.target = true) (apart : link.source ≠ link.target)
      (free : ∀ other, ¬ g.Leads other link.target) (nested : link.handle = .child)
      (closed : block.kind.capacity = .closed) :
    FirstRefusal g link (.closed link.source block.kind)
  | full {block : Block} {limit : Nat} (source : g.blocks.get? link.source = some block)
      (target : g.blocks.contains link.target = true) (apart : link.source ≠ link.target)
      (free : ∀ other, ¬ g.Leads other link.target) (nested : link.handle = .child)
      (limited : block.kind.capacity = .atMost limit)
      (many : limit ≤ (g.outgoing link.source .child).length) :
    FirstRefusal g link (.full link.source limit)
  | cycle (lands : g.Lands link) (path : ReflTransGen g.Leads link.target link.source) :
    FirstRefusal g link (.cycle link.source link.target)

/-- The source is looked up before the target, and the first of them that is missing is reported. -/
theorem unknownEnd?_eq_some_iff :
    g.unknownEnd? link = some refusal ↔
      g.blocks.contains link.source = false ∧ .unknownBlock link.source = refusal ∨
      g.blocks.contains link.source = true ∧ g.blocks.contains link.target = false ∧
        .unknownBlock link.target = refusal := by
  cases hsource : g.blocks.contains link.source with
  | false => simp [unknownEnd?, hsource]
  | true =>
    cases htarget : g.blocks.contains link.target with
    | false => simp [unknownEnd?, hsource, htarget]
    | true => simp [unknownEnd?, hsource, htarget]

theorem sameEnds?_eq_some_iff :
    sameEnds? link = some refusal ↔
      link.source = link.target ∧ .selfLink link.source = refusal := by
  simp [sameEnds?]

/-- No link ends at a block exactly if no block leads to it. -/
theorem incoming_eq_nil_iff {target : BlockId} :
    g.incoming target = [] ↔ ∀ source, ¬ g.Leads source target := by
  rw [List.eq_nil_iff_forall_not_mem]
  constructor
  · rintro hnone source ⟨id, link, hget, -, htarget⟩
    exact hnone (id, link) (mem_incoming.2 ⟨hget, htarget⟩)
  · rintro hnone ⟨id, link⟩ hmem
    obtain ⟨hget, htarget⟩ := mem_incoming.1 hmem
    exact hnone link.source ⟨id, link, hget, rfl, htarget⟩

/-- The links at a block are listed by their identifiers, so the first of the list is the oldest. -/
theorem head?_incoming_eq_some_iff {target : BlockId} {id : LinkId} {earlier : Link} :
    (g.incoming target).head? = some (id, earlier) ↔
      (g.links.get? id = some earlier ∧ earlier.target = target) ∧
        ∀ other later, g.links.get? other = some later → later.target = target →
          id.number ≤ other.number := by
  have hascending := g.incoming_ascending target
  constructor
  · intro hhead
    obtain ⟨rest, hlist⟩ := List.head?_eq_some_iff.1 hhead
    rw [hlist, List.pairwise_cons] at hascending
    refine ⟨mem_incoming.1 (List.mem_of_mem_head? hhead), fun other later hget htarget => ?_⟩
    have hmem : (other, later) ∈ g.incoming target := mem_incoming.2 ⟨hget, htarget⟩
    rw [hlist, List.mem_cons] at hmem
    obtain heq | hrest := hmem
    · rw [Prod.mk.injEq] at heq
      rw [heq.1]
      exact UInt64.le_refl _
    · exact UInt64.le_of_lt (hascending.1 _ hrest)
  · rintro ⟨hself, hfirst⟩
    have hmem : (id, earlier) ∈ g.incoming target := mem_incoming.2 hself
    cases hlist : g.incoming target with
    | nil => simp [hlist] at hmem
    | cons head rest =>
      rw [hlist, List.pairwise_cons] at hascending
      rw [hlist, List.mem_cons] at hmem
      obtain heq | hrest := hmem
      · rw [heq, List.head?_cons]
      · -- the head of the list would be an older link
        have hhead : head ∈ g.incoming target := by simp [hlist]
        obtain ⟨hget, htarget⟩ := mem_incoming.1 hhead
        exact absurd (hascending.1 _ hrest) (UInt64.not_lt.2 (hfirst head.1 head.2 hget htarget))

/-- Of the links that end at the target, the one with the smallest identifier is reported. -/
theorem occupied?_eq_some_iff :
    g.occupied? link = some refusal ↔ ∃ id earlier,
      (g.links.get? id = some earlier ∧ earlier.target = link.target) ∧
        (∀ other later, g.links.get? other = some later → later.target = link.target →
          id.number ≤ other.number) ∧ .occupied link.target id = refusal := by
  simp only [occupied?, Option.map_eq_some_iff, Prod.exists, head?_incoming_eq_some_iff, and_assoc]

/-- The rule for the children of a block counts the links that leave its child handle. -/
theorem WellFormed.noRoom?_eq_some_iff (hg : g.WellFormed) :
    g.noRoom? link = some refusal ↔ link.handle = .child ∧ ∃ block,
      g.blocks.get? link.source = some block ∧
        (block.kind.capacity = .closed ∧ .closed link.source block.kind = refusal ∨
          ∃ limit, block.kind.capacity = .atMost limit ∧
            limit ≤ (g.outgoing link.source .child).length ∧
            .full link.source limit = refusal) := by
  rw [noRoom?]
  cases link.handle with
  | next => simp
  | child =>
    cases hget : g.blocks.get? link.source with
    | none => simp
    | some block =>
      have hcount := hg.childCount_eq hget
      rw [nestedIn_eq_length] at hcount
      cases hcapacity : block.kind.capacity with
      | closed => simp [hcapacity]
      | atMost limit => simp [hcapacity, hcount]
      | unbounded => simp [hcapacity]

/-- In a well-formed graph, the rule about room looks at the links that there are. -/
theorem WellFormed.noRoom?_eq_none_iff (hg : g.WellFormed) :
    g.noRoom? link = none ↔ (link.handle = .child → ∀ block,
      g.blocks.get? link.source = some block →
        block.kind.capacity.hasRoom (g.outgoing link.source .child).length = true) := by
  rw [Graph.noRoom?_eq_none_iff]
  refine forall₃_congr fun _ block hget => ?_
  rw [hg.childCount_eq hget, nestedIn_eq_length]

/-- A link is reported to close a cycle exactly if its target leads to its source. -/
theorem closedCycle?_eq_some_iff :
    g.closedCycle? link = some refusal ↔
      ReflTransGen g.Leads link.target link.source ∧ .cycle link.source link.target = refusal := by
  simp [closedCycle?, ← hasPath_iff]

/-- A link lands exactly if it keeps all rules but the one against cycles. -/
theorem WellFormed.lands_iff (hg : g.WellFormed) :
    g.Lands link ↔ (g.blocks.contains link.source = true ∧ g.blocks.contains link.target = true) ∧
      link.source ≠ link.target ∧ g.incoming link.target = [] ∧ g.noRoom? link = none := by
  rw [incoming_eq_nil_iff, hg.noRoom?_eq_none_iff]
  constructor
  · intro hlands
    exact ⟨⟨hlands.source, hlands.target⟩, hlands.apart, hlands.free, hlands.room⟩
  · rintro ⟨⟨hsource, htarget⟩, hapart, hfree, hroom⟩
    exact ⟨hsource, htarget, hapart, hfree, hroom⟩

/-- A link is accepted exactly if it lands and closes no cycle. -/
theorem WellFormed.refusal?_eq_none_iff (hg : g.WellFormed) :
    g.refusal? link = none ↔
      g.Lands link ∧ ¬ ReflTransGen g.Leads link.target link.source := by
  simp only [refusal?, Option.orElse_eq_orElse, Option.orElse_eq_or, Option.or_eq_none_iff,
    unknownEnd?_eq_none_iff, sameEnds?_eq_none_iff, occupied?_eq_none_iff, closedCycle?_eq_none_iff,
    hg.lands_iff, and_assoc]

/-- The rules are tried in order, and the first that the link breaks decides. -/
theorem WellFormed.refusal?_eq_some_iff (hg : g.WellFormed) :
    g.refusal? link = some refusal ↔ g.FirstRefusal link refusal := by
  simp only [refusal?, Option.orElse_eq_orElse, Option.orElse_eq_or, Option.or_eq_some_iff,
    unknownEnd?_eq_none_iff, sameEnds?_eq_none_iff, occupied?_eq_none_iff]
  constructor
  · rintro (hends | ⟨⟨hsource, htarget⟩, hself | ⟨hapart, hoccupied | ⟨hfree, hfull | hcycle⟩⟩⟩)
    · obtain ⟨hsource, rfl⟩ | ⟨hsource, htarget, rfl⟩ := unknownEnd?_eq_some_iff.1 hends
      · exact .unknownSource hsource
      · exact .unknownTarget hsource htarget
    · obtain ⟨hsame, rfl⟩ := sameEnds?_eq_some_iff.1 hself
      exact .selfLink hsource htarget hsame
    · obtain ⟨id, earlier, hends, hfirst, rfl⟩ := occupied?_eq_some_iff.1 hoccupied
      exact .occupied hsource htarget hapart hends hfirst
    · rw [incoming_eq_nil_iff] at hfree
      obtain ⟨hchild, block, hget, hkind⟩ := hg.noRoom?_eq_some_iff.1 hfull
      obtain ⟨hclosed, rfl⟩ | ⟨limit, hlimit, hmany, rfl⟩ := hkind
      · exact .closed hget htarget hapart hfree hchild hclosed
      · exact .full hget htarget hapart hfree hchild hlimit hmany
    · obtain ⟨hroom, hcycle⟩ := hcycle
      obtain ⟨hpath, rfl⟩ := closedCycle?_eq_some_iff.1 hcycle
      exact .cycle (hg.lands_iff.2 ⟨⟨hsource, htarget⟩, hapart, hfree, hroom⟩) hpath
  · intro hfirst
    cases hfirst with
    | unknownSource hsource => exact .inl (unknownEnd?_eq_some_iff.2 (.inl ⟨hsource, rfl⟩))
    | unknownTarget hsource htarget =>
      exact .inl (unknownEnd?_eq_some_iff.2 (.inr ⟨hsource, htarget, rfl⟩))
    | selfLink hsource htarget hsame =>
      exact .inr ⟨⟨hsource, htarget⟩, .inl (sameEnds?_eq_some_iff.2 ⟨hsame, rfl⟩)⟩
    | occupied hsource htarget hapart hends hfirst =>
      exact .inr ⟨⟨hsource, htarget⟩, .inr ⟨hapart,
        .inl (occupied?_eq_some_iff.2 ⟨_, _, hends, hfirst, rfl⟩)⟩⟩
    | closed hget htarget hapart hfree hchild hclosed =>
      refine .inr ⟨⟨Table.contains_of_get? hget, htarget⟩, .inr ⟨hapart, .inr
        ⟨incoming_eq_nil_iff.2 hfree, .inl (hg.noRoom?_eq_some_iff.2 ⟨hchild, _, hget, ?_⟩)⟩⟩⟩
      exact .inl ⟨hclosed, rfl⟩
    | full hget htarget hapart hfree hchild hlimit hmany =>
      refine .inr ⟨⟨Table.contains_of_get? hget, htarget⟩, .inr ⟨hapart, .inr
        ⟨incoming_eq_nil_iff.2 hfree, .inl (hg.noRoom?_eq_some_iff.2 ⟨hchild, _, hget, ?_⟩)⟩⟩⟩
      exact .inr ⟨_, hlimit, hmany, rfl⟩
    | cycle hlands hpath =>
      obtain ⟨hends, hapart, hfree, hroom⟩ := hg.lands_iff.1 hlands
      exact .inr ⟨hends, .inr ⟨hapart, .inr ⟨hfree, .inr ⟨hroom,
        closedCycle?_eq_some_iff.2 ⟨hpath, rfl⟩⟩⟩⟩⟩

/-- A link is refused for a cycle exactly if it lands and its target leads to its source. -/
theorem WellFormed.refusal?_eq_cycle_iff (hg : g.WellFormed) :
    g.refusal? link = some (.cycle link.source link.target) ↔
      g.Lands link ∧ ReflTransGen g.Leads link.target link.source := by
  rw [hg.refusal?_eq_some_iff]
  constructor
  · intro hfirst
    cases hfirst with
    | cycle hlands hpath => exact ⟨hlands, hpath⟩
  · rintro ⟨hlands, hpath⟩
    exact .cycle hlands hpath

/-- Every proposed link is refused for the first rule that it breaks, and a link that breaks none is
    not refused. On a graph without cycles, a link that breaks no other rule is refused for a cycle
    exactly if one would be there once it were drawn, whatever unused identifier it got. The two
    rules for the children of a block are together the rule that it has room for one more. -/
theorem refusal?_names_first (hg : g.WellFormed) (link : Link) :
    (∀ refusal, g.refusal? link = some refusal ↔ g.FirstRefusal link refusal) ∧
    (g.refusal? link = none ↔
      g.Lands link ∧ ¬ ReflTransGen g.Leads link.target link.source) ∧
    (g.Acyclic → g.Lands link → ∀ id, g.links.get? id = none →
      (g.refusal? link = some (.cycle link.source link.target) ↔
        ¬ ({ g with nextLink := id }.drawLink link).2.Acyclic)) ∧
    (link.handle = .child → ∀ block, g.blocks.get? link.source = some block →
      (g.noRoom? link = none ↔
        block.kind.capacity.hasRoom (g.outgoing link.source .child).length = true)) := by
  refine ⟨fun _ => hg.refusal?_eq_some_iff, hg.refusal?_eq_none_iff, ?_, ?_⟩
  · intro hacyclic hlands id hfresh
    have hdrawn : ({ g with nextLink := id }.drawLink link).2.Acyclic ↔
        g.Acyclic ∧ ¬ ReflTransGen g.Leads link.target link.source :=
      acyclic_drawLink_iff (g := { g with nextLink := id }) hfresh
    rw [hg.refusal?_eq_cycle_iff, hdrawn, not_and_not_right]
    exact ⟨fun hcycle _ => hcycle.2, fun hcycle => ⟨hlands, hcycle hacyclic⟩⟩
  · intro hchild block hget
    rw [hg.noRoom?_eq_none_iff]
    refine ⟨fun hroom => hroom hchild block hget, fun hroom _ other hother => ?_⟩
    obtain rfl := Option.some.inj (hget.symm.trans hother)
    exact hroom

/-- A graph that breaks every rule itself: a condition holds two blocks instead of one, two links
    end at the second of them, and two other blocks run after each other in a circle. -/
def tangledBlocks : Graph where
  blocks := .ofList [(⟨0⟩, ⟨.ifThen, ∅, 2⟩), (⟨1⟩, { kind := .waitSeconds }),
    (⟨2⟩, { kind := .gpioWrite }), (⟨4⟩, { kind := .repeatTimes }), (⟨5⟩, { kind := .waitSeconds }),
    (⟨7⟩, { kind := .captureImage })]
  links := .ofList [(⟨0⟩, ⟨⟨0⟩, .child, ⟨1⟩⟩), (⟨2⟩, ⟨⟨0⟩, .child, ⟨2⟩⟩), (⟨3⟩, ⟨⟨4⟩, .next, ⟨5⟩⟩),
    (⟨6⟩, ⟨⟨1⟩, .next, ⟨2⟩⟩), (⟨8⟩, ⟨⟨5⟩, .next, ⟨4⟩⟩)]
  nextBlock := ⟨8⟩
  nextLink := ⟨9⟩

theorem firstRefusal_tangledBlocks : tangledBlocks.WellFormed ∧
    tangledBlocks.FirstRefusal ⟨⟨7⟩, .next, ⟨2⟩⟩ (.occupied ⟨2⟩ ⟨2⟩) ∧
    tangledBlocks.FirstRefusal ⟨⟨0⟩, .child, ⟨7⟩⟩ (.full ⟨0⟩ 1) ∧
    tangledBlocks.FirstRefusal ⟨⟨2⟩, .next, ⟨0⟩⟩ (.cycle ⟨2⟩ ⟨0⟩) ∧
    tangledBlocks.refusal? ⟨⟨5⟩, .next, ⟨7⟩⟩ = none := by
  have hg : tangledBlocks.WellFormed := ⟨by decide, by decide⟩
  have hfirst := fun link => (refusal?_names_first hg link).1
  refine ⟨hg, (hfirst _ _).1 ?_, (hfirst _ _).1 ?_, (hfirst _ _).1 ?_, ?_⟩
  · cbv
  · cbv
  · cbv
  · cbv

end CommandBlocks.Graph
