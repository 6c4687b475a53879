import CommandBlocks.Proofs.Editing.InPlace
import CommandBlocks.Proofs.Graph.Connecting
import CommandBlocks.Proofs.Snapshot.Restore

namespace CommandBlocks

/-- An operation on a graph, with what its caller chooses. -/
inductive Edit where
  | addBlock (kind : Kind)
  | removeBlock (id : BlockId)
  | setValue (id : BlockId) (name : String) (value : Value)
  | clearValue (id : BlockId) (name : String)
  | addLink (link : Link)
  | removeLink (id : LinkId)
  | recount
  /-- Restores the graph from its own snapshot. -/
  | reload
  deriving DecidableEq, Repr

/-- What an edit that succeeds gives back. -/
inductive Answer where
  | nothing
  | newBlock (id : BlockId)
  | oldBlock (block : Block)
  | oldValue (value : Option Value)
  | newLink (id : LinkId)
  | oldLink (link : Link)
  deriving DecidableEq

inductive EditFault where
  | graph (fault : GraphFault)
  | refused (refusal : Refusal)
  deriving DecidableEq, Repr

namespace Graph

/-- The answer of an edit and the graph that it makes, unless it fails. -/
def apply (g : Graph) : Edit → Except EditFault (Answer × Graph)
  | .addBlock kind => .ok (.newBlock (g.addBlock kind).1, (g.addBlock kind).2)
  | .removeBlock id =>
    ((g.removeBlock id).mapError .graph).map fun (block, h) => (.oldBlock block, h)
  | .setValue id name value => ((g.setValue id name value).mapError .graph).map (.nothing, ·)
  | .clearValue id name =>
    ((g.clearValue id name).mapError .graph).map fun (value, h) => (.oldValue value, h)
  | .addLink link => ((g.addLink link).mapError .refused).map fun (id, h) => (.newLink id, h)
  | .removeLink id =>
    ((g.removeLink id).mapError .graph).map fun (link, h) => (.oldLink link, h)
  | .recount => .ok (.nothing, g.recount)
  | .reload => (g.snapshot.restore.mapError .graph).map (.nothing, ·)

end Graph

/-- An edit as an operation that changes the graph in place. -/
def Edit.inPlace : Edit → InPlace EditFault Answer
  | addBlock kind => return .newBlock (← InPlace.addBlock kind)
  | removeBlock id => return .oldBlock (← (InPlace.removeBlock id).rename .graph)
  | setValue id name value => do
    (InPlace.setValue id name value).rename .graph
    return .nothing
  | clearValue id name => return .oldValue (← (InPlace.clearValue id name).rename .graph)
  | addLink link => return .newLink (← (InPlace.addLink link).rename .refused)
  | removeLink id => return .oldLink (← (InPlace.removeLink id).rename .graph)
  | recount => do
    modify Graph.recount
    return .nothing
  | reload => do
    match (← get).snapshot.restore with
    | .ok g => set g
    | .error fault => throw (.graph fault)
    return .nothing

namespace Graph

/-- The outcome of an edit, and the graph that it leaves behind, also when it fails. -/
def perform (g : Graph) (edit : Edit) : Except EditFault Answer × Graph := edit.inPlace.on g

def after (g : Graph) (edit : Edit) : Graph := (g.perform edit).2

/-- The graph after edits one after the other, whether each succeeds or fails. -/
def run (g : Graph) (edits : List Edit) : Graph := edits.foldl after g

end Graph

/-- Whether an edit adds a block, which never fails. -/
def Edit.addsBlock : Edit → Bool
  | addBlock _ => true
  | _ => false

/-- Whether an edit adds a link to a graph. -/
def Edit.addsLink (g : Graph) : Edit → Bool
  | addLink link =>
    match g.refusal? link with
    | some _ => false
    | none => true
  | _ => false

namespace Graph

variable {g h : Graph} {edit : Edit} {edits : List Edit}

/-- The number of blocks that a run of edits adds. -/
def addedBlocks (edits : List Edit) : Nat := edits.countP Edit.addsBlock

/-- The number of links that a run of edits adds, the refused ones not among them. -/
def addedLinks (g : Graph) : List Edit → Nat
  | [] => 0
  | edit :: edits => (edit.addsLink g).toNat + (g.after edit).addedLinks edits

/-- What an edit that succeeds makes of a graph. -/
inductive Makes (g : Graph) : Edit → Graph → Prop
  | addBlock (kind : Kind) : Makes g (.addBlock kind) (g.addBlock kind).2
  | removeBlock {id : BlockId} {block : Block} {h : Graph}
    (hremove : g.removeBlock id = .ok (block, h)) : Makes g (.removeBlock id) h
  | setValue {id : BlockId} {name : String} {value : Value} {h : Graph}
    (hset : g.setValue id name value = .ok h) : Makes g (.setValue id name value) h
  | clearValue {id : BlockId} {name : String} {value : Option Value} {h : Graph}
    (hclear : g.clearValue id name = .ok (value, h)) : Makes g (.clearValue id name) h
  | addLink {link : Link} (hfits : g.Fits link) : Makes g (.addLink link) (g.drawLink link).2
  | removeLink {id : LinkId} {link : Link} {h : Graph}
    (hremove : g.removeLink id = .ok (link, h)) : Makes g (.removeLink id) h
  | recount : Makes g .recount g.recount
  | reload {h : Graph} (hrestore : g.snapshot.restore = .ok h) : Makes g .reload h

/-- An edit that succeeds makes what its operation makes. -/
theorem makes_of_apply {answer : Answer} (happly : g.apply edit = .ok (answer, h)) :
    g.Makes edit h := by
  cases edit with
  | addBlock kind =>
    cases happly
    exact .addBlock kind
  | removeBlock id =>
    obtain ⟨⟨block, _⟩, hremove, heq⟩ := map_eq_ok_iff.1 happly
    cases heq
    exact .removeBlock (mapError_eq_ok_iff.1 hremove)
  | setValue id name value =>
    obtain ⟨_, hset, heq⟩ := map_eq_ok_iff.1 happly
    cases heq
    exact .setValue (mapError_eq_ok_iff.1 hset)
  | clearValue id name =>
    obtain ⟨⟨value, _⟩, hclear, heq⟩ := map_eq_ok_iff.1 happly
    cases heq
    exact .clearValue (mapError_eq_ok_iff.1 hclear)
  | addLink link =>
    obtain ⟨⟨id, _⟩, hadd, heq⟩ := map_eq_ok_iff.1 happly
    cases heq
    obtain ⟨hfits, hdraw⟩ := addLink_eq_ok_iff.1 (mapError_eq_ok_iff.1 hadd)
    have hmakes : g.Makes (.addLink link) (g.drawLink link).2 := .addLink hfits
    rwa [hdraw] at hmakes
  | removeLink id =>
    obtain ⟨⟨link, _⟩, hremove, heq⟩ := map_eq_ok_iff.1 happly
    cases heq
    exact .removeLink (mapError_eq_ok_iff.1 hremove)
  | recount =>
    cases happly
    exact .recount
  | reload =>
    obtain ⟨_, hrestore, heq⟩ := map_eq_ok_iff.1 happly
    cases heq
    exact .reload (mapError_eq_ok_iff.1 hrestore)

/-- An edit in place makes the graph that the edit gives, and if that one fails it makes none. -/
theorem perform_eq (g : Graph) (edit : Edit) :
    g.perform edit = InPlace.settle g (g.apply edit) := by
  cases edit with
  | addBlock kind => exact InPlace.on_bind_of_ok (InPlace.on_addBlock kind g) _
  | removeBlock id => exact InPlace.on_answer (InPlace.on_removeBlock id g) _ _
  | setValue id name value =>
    refine (InPlace.on_answer (InPlace.on_setValue id name value g) _ _).trans ?_
    rw [apply]
    cases g.setValue id name value with
    | error fault => rfl
    | ok h => rfl
  | clearValue id name => exact InPlace.on_answer (InPlace.on_clearValue id name g) _ _
  | addLink link => exact InPlace.on_answer (InPlace.on_addLink link g) _ _
  | removeLink id => exact InPlace.on_answer (InPlace.on_removeLink id g) _ _
  | recount => rfl
  | reload =>
    rw [perform, Edit.inPlace, InPlace.on_get_bind, apply]
    cases g.snapshot.restore with
    | error fault => rfl
    | ok h => rfl

theorem after_of_apply_ok {answer : Answer} (happly : g.apply edit = .ok (answer, h)) :
    g.after edit = h := by
  rw [after, perform_eq, happly, InPlace.settle]

theorem after_of_apply_error {fault : EditFault} (happly : g.apply edit = .error fault) :
    g.after edit = g := by
  rw [after, perform_eq, happly, InPlace.settle]

/-- An edit that fails leaves the graph as it was. -/
theorem perform_of_error {fault : EditFault} (hfails : (g.perform edit).1 = .error fault) :
    (g.perform edit).2 = g := by
  rw [perform_eq] at hfails ⊢
  cases happly : g.apply edit with
  | error cause => rfl
  | ok made =>
    rw [happly] at hfails
    cases hfails

/-- An edit that fails adds nothing. -/
theorem adds_of_apply_error {fault : EditFault} (happly : g.apply edit = .error fault) :
    edit.addsBlock = false ∧ edit.addsLink g = false := by
  cases edit with
  | addBlock kind => cases happly
  | addLink link =>
    refine ⟨rfl, ?_⟩
    cases hrefusal : g.refusal? link with
    | some refusal => rw [Edit.addsLink, hrefusal]
    | none =>
      rw [apply, addLink, hrefusal] at happly
      cases happly
  | _ => exact ⟨rfl, rfl⟩

theorem addedBlocks_cons (edit : Edit) (edits : List Edit) :
    addedBlocks (edit :: edits) = edit.addsBlock.toNat + addedBlocks edits := by
  rw [addedBlocks, List.countP_cons, Nat.add_comm]
  cases edit.addsBlock <;> rfl

/-- A run of edits does not use up the numbers of blocks or of links. -/
structure Room (g : Graph) (edits : List Edit) : Prop where
  blocks : g.nextBlock.number.toNat + addedBlocks edits < 2 ^ 64
  links : g.nextLink.number.toNat + g.addedLinks edits < 2 ^ 64

/-- Both counters go up by what an edit adds. -/
structure Counted (g : Graph) (edit : Edit) (h : Graph) : Prop where
  blocks : h.nextBlock.number.toNat = g.nextBlock.number.toNat + edit.addsBlock.toNat
  links : h.nextLink.number.toNat = g.nextLink.number.toNat + (edit.addsLink g).toNat

theorem Room.head (hroom : g.Room (edit :: edits)) : g.Room [edit] := by
  obtain ⟨hblocks, hlinks⟩ := hroom
  rw [addedBlocks_cons] at hblocks
  rw [addedLinks] at hlinks
  constructor
  · rw [addedBlocks_cons, addedBlocks, List.countP_nil]
    omega
  · rw [addedLinks, addedLinks]
    omega

theorem Room.tail (hroom : g.Room (edit :: edits)) (hcounted : g.Counted edit (g.after edit)) :
    (g.after edit).Room edits := by
  obtain ⟨hblocks, hlinks⟩ := hroom
  rw [addedBlocks_cons] at hblocks
  rw [addedLinks] at hlinks
  constructor
  · rw [hcounted.blocks]
    omega
  · rw [hcounted.links]
    omega

namespace Sound

/-- What an edit makes of a sound graph is sound, and the counters go up by what the edit adds. -/
theorem makes (hg : g.Sound) (hmakes : g.Makes edit h) (hroom : g.Room [edit]) :
    h.Sound ∧ g.Counted edit h := by
  obtain ⟨hblocks, hlinks⟩ := hroom
  cases hmakes with
  | addBlock kind =>
    have hroom : g.nextBlock.number.toNat + 1 < 2 ^ 64 := hblocks
    exact ⟨hg.addBlock hroom kind, Id.toNat_next hroom, rfl⟩
  | removeBlock hremove =>
    refine ⟨hg.removeBlock hremove, ?_⟩
    obtain ⟨links, lost, rfl, -⟩ := of_removeBlock hremove
    exact ⟨rfl, rfl⟩
  | setValue hset =>
    have hvalues := revalues_of_setValue hset
    refine ⟨hg.revalues hvalues, ?_⟩
    obtain ⟨_, _, _, _, _, rfl⟩ := hvalues
    exact ⟨rfl, rfl⟩
  | clearValue hclear =>
    have hvalues := revalues_of_clearValue hclear
    refine ⟨hg.revalues hvalues, ?_⟩
    obtain ⟨_, _, _, _, _, rfl⟩ := hvalues
    exact ⟨rfl, rfl⟩
  | @addLink link hfits =>
    have hadds : (Edit.addLink link).addsLink g = true := by
      rw [Edit.addsLink, refusal?_eq_none_iff.2 hfits]
    have hroom : g.nextLink.number.toNat + 1 < 2 ^ 64 := by
      rwa [addedLinks, hadds] at hlinks
    refine ⟨hg.drawLink hroom hfits.source hfits.target, rfl, ?_⟩
    rw [hadds, drawLink_eq]
    exact Id.toNat_next hroom
  | removeLink hremove =>
    refine ⟨hg.removeLink hremove, ?_⟩
    obtain ⟨-, rfl⟩ := of_removeLink hremove
    exact ⟨rfl, rfl⟩
  | recount =>
    rw [hg.recount_eq]
    exact ⟨hg, rfl, rfl⟩
  | reload hrestore =>
    rw [hg.eq_of_restore_snapshot hrestore]
    exact ⟨hg, rfl, rfl⟩

/-- After an edit, whether it succeeds or fails, a sound graph is sound, and the counters have gone
    up by what the edit adds. -/
theorem after (hg : g.Sound) (hroom : g.Room [edit]) :
    (g.after edit).Sound ∧ g.Counted edit (g.after edit) := by
  cases happly : g.apply edit with
  | error fault =>
    obtain ⟨hblock, hlink⟩ := adds_of_apply_error happly
    rw [after_of_apply_error happly]
    refine ⟨hg, ?_, ?_⟩
    · rw [hblock]
      rfl
    · rw [hlink]
      rfl
  | ok made =>
    rw [after_of_apply_ok happly]
    exact hg.makes (makes_of_apply happly) hroom

/-- What every edit that succeeds keeps holds after a run, together with soundness. -/
theorem run_induction {motive : Graph → Prop}
    (hmakes : ∀ g edit h, g.Sound → g.Makes edit h → motive g → motive h)
    (hg : g.Sound) (hroom : g.Room edits) (hinit : motive g) :
    (g.run edits).Sound ∧ motive (g.run edits) := by
  -- every edit may change the graph, so the induction speaks of all graphs to start from
  induction edits generalizing g with
  | nil => exact ⟨hg, hinit⟩
  | cons edit edits ih =>
    obtain ⟨hsound, hcounted⟩ := hg.after hroom.head
    refine ih hsound (hroom.tail hcounted) ?_
    cases happly : g.apply edit with
    | error fault => rwa [after_of_apply_error happly]
    | ok made =>
      rw [after_of_apply_ok happly]
      exact hmakes g edit made.2 hg (makes_of_apply happly) hinit

/-- A run of edits keeps a graph sound. -/
theorem run (hg : g.Sound) (hroom : g.Room edits) : (g.run edits).Sound :=
  (hg.run_induction (motive := fun _ => True) (fun _ _ _ _ _ _ => trivial) hroom trivial).1

end Sound

end Graph

end CommandBlocks
