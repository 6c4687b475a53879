import CommandBlocks.Graph.Connecting
import CommandBlocks.Proofs.Graph.Paths

namespace CommandBlocks.Graph

open Relation

variable {g : Graph} {link : Link}

theorem unknownEnd?_eq_none_iff :
    g.unknownEnd? link = none ↔
      g.blocks.contains link.source = true ∧ g.blocks.contains link.target = true := by
  simp [unknownEnd?]

theorem sameEnds?_eq_none_iff : sameEnds? link = none ↔ link.source ≠ link.target := by
  simp [sameEnds?]

theorem occupied?_eq_none_iff : g.occupied? link = none ↔ g.incoming link.target = [] := by
  simp [occupied?]

/-- The fourth rule asks for room at the source, if the link leaves it by its child handle. -/
theorem noRoom?_eq_none_iff :
    g.noRoom? link = none ↔ (link.handle = .child → ∀ block,
      g.blocks.get? link.source = some block →
        block.kind.capacity.hasRoom block.childCount = true) := by
  unfold noRoom?
  cases link.handle with
  | next => simp
  | child =>
    cases g.blocks.get? link.source with
    | none => simp
    | some block =>
      cases hcapacity : block.kind.capacity with
      | closed => simp [hcapacity, Capacity.hasRoom]
      | atMost limit => simp [hcapacity, Capacity.hasRoom]
      | unbounded => simp [hcapacity, Capacity.hasRoom]

/-- The last rule asks for a target that does not lead to the source. -/
theorem closedCycle?_eq_none_iff :
    g.closedCycle? link = none ↔ ¬ ReflTransGen g.Leads link.target link.source := by
  simp [closedCycle?, ← hasPath_iff]

/-- What it takes for a link to be drawn under the rules. -/
structure Fits (g : Graph) (link : Link) : Prop where
  source : g.blocks.contains link.source = true
  target : g.blocks.contains link.target = true
  apart : link.source ≠ link.target
  free : g.incoming link.target = []
  room : link.handle = .child → ∀ block, g.blocks.get? link.source = some block →
    block.kind.capacity.hasRoom block.childCount = true
  noPath : ¬ ReflTransGen g.Leads link.target link.source

/-- The links that are not refused are those that fit. -/
theorem refusal?_eq_none_iff : g.refusal? link = none ↔ g.Fits link := by
  simp only [refusal?, Option.orElse_eq_orElse, Option.orElse_eq_or, Option.or_eq_none_iff,
    unknownEnd?_eq_none_iff, sameEnds?_eq_none_iff, occupied?_eq_none_iff, noRoom?_eq_none_iff,
    closedCycle?_eq_none_iff]
  constructor
  · rintro ⟨⟨hsource, htarget⟩, hapart, hfree, hroom, hpath⟩
    exact ⟨hsource, htarget, hapart, hfree, hroom, hpath⟩
  · rintro ⟨hsource, htarget, hapart, hfree, hroom, hpath⟩
    exact ⟨⟨hsource, htarget⟩, hapart, hfree, hroom, hpath⟩

/-- Adding a link draws it, if it fits. -/
theorem addLink_eq_ok_iff {h : Graph} {id : LinkId} :
    g.addLink link = .ok (id, h) ↔ g.Fits link ∧ g.drawLink link = (id, h) := by
  rw [addLink, ← refusal?_eq_none_iff]
  cases g.refusal? link with
  | none => simp
  | some refusal => simp

end CommandBlocks.Graph
