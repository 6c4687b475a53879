import CommandBlocks.Proofs.Editing.Stored
import CommandBlocks.Proofs.Snapshot.Records

namespace CommandBlocks

/-- A step of a session: an edit, or saving the graph as bytes and going on with the one that is
    loaded from them. -/
inductive Act where
  | edit (edit : Edit)
  | reopen
  deriving DecidableEq, Repr

inductive ActFault where
  | edit (fault : EditFault)
  | unreadable (fault : Bytes.Fault)
  | unrestored (fault : GraphFault)
  deriving DecidableEq, Repr

/-- The value that an act enters. -/
def Act.entered? : Act → Option Value
  | edit (.setValue _ _ value) => some value
  | _ => none

/-- The new identifier in an answer. -/
def Answer.new? : Answer → (named : Named) → Option (Id named)
  | newBlock id, .block => some id
  | newLink id, .link => some id
  | _, _ => none

/-- Whether an edit adds a block, or a link, to a graph. -/
def Edit.adds (edit : Edit) (g : Graph) : Named → Bool
  | .block => edit.addsBlock
  | .link => edit.addsLink g

namespace Graph

/-- The identifier to hand out next. -/
def next (g : Graph) : (named : Named) → Id named
  | .block => g.nextBlock
  | .link => g.nextLink

/-- Whether a graph has a block, or a link, of an identifier. -/
def holds (g : Graph) : (named : Named) → Id named → Bool
  | .block, id => g.blocks.contains id
  | .link, id => g.links.contains id

/-- The graph that is loaded from the bytes of a graph. -/
def reopened (g : Graph) : Except ActFault Graph :=
  (Snapshot.ofBytes g.snapshot.toBytes).mapError .unreadable >>= fun s =>
    s.restore.mapError .unrestored

end Graph

/-- An act as an operation that changes the graph in place. -/
def Act.inPlace : Act → InPlace ActFault Answer
  | edit change => change.inPlace.rename .edit
  | reopen => do
    match (← get).reopened with
    | .ok g => set g
    | .error fault => throw fault
    return .nothing

namespace Graph

/-- The outcome of an act, and the graph that it leaves behind, also when it fails. -/
def act (g : Graph) (act : Act) : Except ActFault Answer × Graph := act.inPlace.on g

/-- The graph after a session. -/
def session (g : Graph) (acts : List Act) : Graph := acts.foldl (fun g act => (g.act act).2) g

/-- The identifier that an act hands out. -/
def new? (g : Graph) (named : Named) (act : Act) : Option (Id named) :=
  match (g.act act).1 with
  | .ok answer => answer.new? named
  | .error _ => none

/-- The identifiers that a session hands out, in order. -/
def handedOut (g : Graph) (named : Named) : List Act → List (Id named)
  | [] => []
  | act :: acts => (g.new? named act).toList ++ (g.act act).2.handedOut named acts

variable {g : Graph} {named : Named} {acts : List Act}

theorem handedOut_singleton (act : Act) :
    g.handedOut named [act] = (g.new? named act).toList := List.append_nil _

/-- The identifiers that a session hands out are those of its first part and then those of the rest,
    from where the first part ended. -/
theorem handedOut_append (g : Graph) (earlier later : List Act) :
    g.handedOut named (earlier ++ later) =
      g.handedOut named earlier ++ (g.session earlier).handedOut named later := by
  induction earlier generalizing g with
  | nil => rfl
  | cons act earlier ih =>
    rw [List.cons_append, handedOut, handedOut, ih, List.append_assoc]
    rfl

theorem act_edit (g : Graph) (edit : Edit) :
    g.act (.edit edit) = ((g.perform edit).1.mapError .edit, (g.perform edit).2) := rfl

/-- Reopening makes the graph that is loaded from the bytes, and if it cannot be loaded it changes
    nothing. -/
theorem act_reopen_eq (g : Graph) :
    g.act .reopen = InPlace.settle g (g.reopened.map (.nothing, ·)) := by
  rw [act, Act.inPlace, InPlace.on_get_bind]
  cases g.reopened with
  | error fault => rfl
  | ok h => rfl

/-- An act that fails changes nothing. -/
theorem act_of_error {act : Act} {fault : ActFault} (hfails : (g.act act).1 = .error fault) :
    (g.act act).2 = g := by
  cases act with
  | edit edit =>
    cases hperform : (g.perform edit).1 with
    | error cause => exact perform_of_error hperform
    | ok answer =>
      rw [act_edit, hperform] at hfails
      cases hfails
  | reopen =>
    rw [act_reopen_eq] at hfails ⊢
    cases hreopened : g.reopened with
    | ok h =>
      rw [hreopened] at hfails
      cases hfails
    | error cause => rfl

/-- An edit that succeeds answers with the identifier that was next, if it adds something. -/
theorem new?_of_apply {edit : Edit} {answer : Answer} {h : Graph}
    (happly : g.apply edit = .ok (answer, h)) :
    answer.new? named = if edit.adds g named then some (g.next named) else none := by
  cases edit with
  | addBlock kind =>
    cases happly
    cases named <;> rfl
  | addLink link =>
    obtain ⟨⟨id, _⟩, hadd, heq⟩ := map_eq_ok_iff.1 happly
    cases heq
    obtain ⟨hfits, hdraw⟩ := addLink_eq_ok_iff.1 (mapError_eq_ok_iff.1 hadd)
    have hadds : (Edit.addLink link).addsLink g = true := by
      rw [Edit.addsLink, refusal?_eq_none_iff.2 hfits]
    have hid : id = g.nextLink := (congrArg Prod.fst hdraw).symm
    cases named with
    | block => rfl
    | link => rw [Edit.adds, hadds, if_pos rfl, Answer.new?, hid, next]
  | recount =>
    cases happly
    cases named <;> rfl
  | removeBlock | setValue | clearValue | removeLink | reload =>
    obtain ⟨_, -, heq⟩ := map_eq_ok_iff.1 happly
    cases heq
    cases named <;> rfl

/-- An edit that adds something hands out the identifier that is next. -/
theorem new?_edit (edit : Edit) :
    g.new? named (.edit edit) = if edit.adds g named then some (g.next named) else none := by
  cases happly : g.apply edit with
  | error fault =>
    obtain ⟨hblock, hlink⟩ := adds_of_apply_error happly
    have hadds : edit.adds g named = false := by
      cases named with
      | block => exact hblock
      | link => exact hlink
    simp [new?, act_edit, perform_eq, InPlace.settle, happly, hadds, Except.mapError]
  | ok made =>
    rw [← new?_of_apply happly]
    simp [new?, act_edit, perform_eq, InPlace.settle, happly, Except.mapError]

/-- What is loaded from the bytes of a sound graph is the graph itself, unless a counter is out of
    range. -/
theorem Sound.reopened_eq (hg : g.Sound) (htexts : g.Writable) :
    g.reopened =
      if maxRestoredId < g.nextBlock.number then
        .error (.unrestored (.idOutOfRange g.nextBlock.number))
      else if maxRestoredId < g.nextLink.number then
        .error (.unrestored (.idOutOfRange g.nextLink.number))
      else .ok g := by
  have hread := Snapshot.ofBytes_append (hg.writable_snapshot htexts) []
  rw [List.append_nil] at hread
  rw [reopened, hread]
  change g.snapshot.restore.mapError ActFault.unrestored = _
  rw [hg.restore_snapshot_eq]
  split_ifs <;> rfl

/-- Saving and loading leaves a sound graph as it is, and hands out nothing. -/
theorem Sound.act_reopen (hg : g.Sound) (htexts : g.Writable) :
    (g.act .reopen).2 = g ∧ ∀ named, g.new? named .reopen = none := by
  unfold new?
  rw [act_reopen_eq, hg.reopened_eq htexts]
  split_ifs
  · exact ⟨rfl, fun _ => rfl⟩
  · exact ⟨rfl, fun _ => rfl⟩
  · refine ⟨rfl, fun named => ?_⟩
    cases named <;> rfl

theorem length_new?_edit (edit : Edit) :
    (g.new? named (.edit edit)).toList.length = (edit.adds g named).toNat := by
  rw [new?_edit]
  cases edit.adds g named <;> rfl

/-- What an edit enters is all that may be too long after it. -/
theorem Sound.writable_after (hg : g.Sound) (htexts : g.Writable) {edit : Edit}
    (hentered : ∀ v, (Act.edit edit).entered? = some v → v.Writable) : (g.after edit).Writable := by
  cases happly : g.apply edit with
  | error fault => rwa [after_of_apply_error happly]
  | ok made =>
    rw [after_of_apply_ok happly, writable_iff]
    intro v hv
    obtain hold | ⟨id, name, rfl⟩ := stores_of_makes hg (makes_of_apply happly) hv
    · exact writable_iff.1 htexts v hold
    · exact hentered v rfl

/-- A session can run from a graph: the graph is sound, no text is too long to be written, and the
    identifiers are not used up. -/
structure Ready (g : Graph) (acts : List Act) : Prop where
  sound : g.Sound
  texts : g.Writable
  entered : ∀ v ∈ acts.filterMap Act.entered?, v.Writable
  room : ∀ named, (g.next named).number.toNat + (g.handedOut named acts).length < 2 ^ 64

/-- Some acts hand out the numbers from the counter on, and move the counter on by as many. -/
structure Numbered (g : Graph) (named : Named) (acts : List Act) : Prop where
  counter : ((g.session acts).next named).number.toNat =
    (g.next named).number.toNat + (g.handedOut named acts).length
  numbers : (g.handedOut named acts).map (·.number.toNat) =
    List.range' (g.next named).number.toNat (g.handedOut named acts).length

/-- When the first act and the acts after it count on one by one, so does the session. -/
theorem Numbered.cons {act : Act} (hfirst : g.Numbered named [act])
    (hrest : (g.act act).2.Numbered named acts) : g.Numbered named (act :: acts) := by
  have hhanded : g.handedOut named (act :: acts) =
      g.handedOut named [act] ++ (g.act act).2.handedOut named acts := handedOut_append g [act] acts
  have hcounter : ((g.act act).2.next named).number.toNat = _ := hfirst.counter
  constructor
  · rw [hhanded, List.length_append, ← Nat.add_assoc, ← hcounter]
    exact hrest.counter
  · rw [hhanded, List.map_append, hfirst.numbers, hrest.numbers, hcounter, List.range'_append_1,
      List.length_append]

/-- An edit hands out the next identifier or none, and the counter goes up by what it handed out. -/
theorem Sound.numbered_edit (hg : g.Sound) {edit : Edit} (hroom : g.Room [edit]) :
    g.Numbered named [.edit edit] := by
  have hcounted := (hg.after hroom).2
  constructor
  · rw [handedOut_singleton, length_new?_edit]
    cases named with
    | block => exact hcounted.blocks
    | link => exact hcounted.links
  · rw [handedOut_singleton, new?_edit]
    cases edit.adds g named <;> rfl

/-- Reopening hands out nothing and keeps the counters. -/
theorem Sound.numbered_reopen (hg : g.Sound) (htexts : g.Writable) :
    g.Numbered named [.reopen] := by
  obtain ⟨hsame, hnew⟩ := hg.act_reopen htexts
  have hnone : g.handedOut named [.reopen] = [] := by
    rw [handedOut_singleton, hnew]
    rfl
  constructor
  · rw [hnone]
    exact congrArg (fun h : Graph => (h.next named).number.toNat) hsame
  · rw [hnone]
    rfl

namespace Ready

theorem room_edit {edit : Edit} (hready : g.Ready (.edit edit :: acts)) : g.Room [edit] := by
  have hroom : ∀ named, (g.next named).number.toNat + (edit.adds g named).toNat < 2 ^ 64 := by
    intro named
    have hnamed := hready.room named
    rw [handedOut, List.length_append, length_new?_edit] at hnamed
    omega
  have hblocks := hroom .block
  have hlinks := hroom .link
  constructor
  · rw [addedBlocks_cons]
    exact hblocks
  · exact hlinks

/-- The first act of a session leaves a sound graph that can be written, and hands out the next
    identifiers. -/
theorem act {act : Act} (hready : g.Ready (act :: acts)) :
    (g.act act).2.Sound ∧ (g.act act).2.Writable ∧ ∀ named, g.Numbered named [act] := by
  cases act with
  | edit edit =>
    have hroom := hready.room_edit
    have hentered : ∀ v, (Act.edit edit).entered? = some v → v.Writable := by
      intro v hv
      exact hready.entered v (List.mem_filterMap.2 ⟨_, List.mem_cons_self, hv⟩)
    exact ⟨(hready.sound.after hroom).1, hready.sound.writable_after hready.texts hentered,
      fun named => hready.sound.numbered_edit hroom⟩
  | reopen =>
    rw [(hready.sound.act_reopen hready.texts).1]
    exact ⟨hready.sound, hready.texts, fun named => hready.sound.numbered_reopen hready.texts⟩

/-- A session that can run can be left off after any of its acts, and the rest can run. -/
theorem session {earlier later : List Act} (hready : g.Ready (earlier ++ later)) :
    (g.session earlier).Ready later ∧ ∀ named, g.Numbered named earlier := by
  -- every act may change the graph, so the induction speaks of all graphs to start from
  induction earlier generalizing g with
  | nil => exact ⟨hready, fun named => ⟨rfl, rfl⟩⟩
  | cons act earlier ih =>
    obtain ⟨hsound, htexts, hnumbered⟩ := hready.act
    have hrest : (g.act act).2.Ready (earlier ++ later) := by
      refine ⟨hsound, htexts, fun v hv => ?_, fun named => ?_⟩
      · obtain ⟨other, hother, hv⟩ := List.mem_filterMap.1 hv
        exact hready.entered v (List.mem_filterMap.2 ⟨other, List.mem_cons_of_mem _ hother, hv⟩)
      · have hroom := hready.room named
        have hcounter : ((g.act act).2.next named).number.toNat = _ := (hnumbered named).counter
        rw [List.cons_append, ← List.singleton_append, handedOut_append,
          List.length_append] at hroom
        rw [hcounter, Nat.add_assoc]
        exact hroom
    obtain ⟨hlast, hnumberedRest⟩ := ih hrest
    exact ⟨hlast, fun named => (hnumbered named).cons (hnumberedRest named)⟩

/-- A session hands out the identifiers from the counters on, one after the other. -/
theorem numbered (hready : g.Ready acts) : g.Numbered named acts := by
  rw [← List.append_nil acts] at hready
  exact hready.session.2 named

/-- Identifiers are handed out in ascending order. -/
theorem pairwise_handedOut (hready : g.Ready acts) :
    (g.handedOut named acts).Pairwise fun i j => i.number < j.number := by
  have hnumbers : ((g.handedOut named acts).map (·.number.toNat)).Pairwise (· < ·) := by
    rw [hready.numbered.numbers]
    exact List.pairwise_lt_range'
  exact (List.pairwise_map.1 hnumbers).imp Id.number_lt_iff.2

/-- An identifier in use is smaller than all that are handed out. -/
theorem number_lt (hready : g.Ready acts) {id new : Id named} (hid : g.holds named id = true)
    (hnew : new ∈ g.handedOut named acts) : id.number < new.number := by
  have hbelow : id.number < (g.next named).number := by
    cases named with
    | block => exact hready.sound.blockBelow id hid
    | link => exact hready.sound.linkBelow id hid
  have hmem : new.number.toNat ∈ (g.handedOut named acts).map (·.number.toNat) :=
    List.mem_map_of_mem hnew
  rw [hready.numbered.numbers, List.mem_range'_1] at hmem
  rw [Id.number_lt_iff] at hbelow ⊢
  omega

end Ready

end Graph

/-- The identifiers of a snapshot's records. -/
def Snapshot.ids (s : Snapshot) : (named : Named) → List (Id named)
  | .block => s.blocks.map (·.id)
  | .link => s.links.map (·.id)

/-- A restored graph has every block and link that its snapshot lists. -/
theorem Snapshot.holds_of_restore {s : Snapshot} {g : Graph} {named : Named} {id : Id named}
    (hrestore : s.restore = .ok g) (hid : id ∈ s.ids named) : g.holds named id = true := by
  obtain ⟨hs, rfl⟩ := restore_eq_ok_iff_restorable.1 hrestore
  cases named with
  | block =>
    exact (Graph.contains_recountWhere ..).trans
      ((contains_numbered_iff hs.blocksDistinct).2 (List.mem_map.1 hid))
  | link => exact (contains_numbered_iff hs.linksDistinct).2 (List.mem_map.1 hid)

namespace Graph

variable {g : Graph}

/-- Wherever a session starts, with at most `2 ^ 63` additions of each sort: the identifiers that it
    hands out ascend, and are greater than every identifier that was in use at any time before, be
    it in the snapshot that the session started from. The counters count what is handed out and
    nothing else, so they do not overflow. An act that fails hands out nothing and changes nothing,
    and the graph is loaded again as it was as long as its counters are in range. -/
theorem fresh_session {blocks links : Nat} (horigin : Origin g blocks links) (acts : List Act)
    (htexts : g.Writable) (hentered : ∀ v ∈ acts.filterMap Act.entered?, v.Writable)
    (hblocks : blocks + (g.handedOut .block acts).length ≤ 2 ^ 63)
    (hlinks : links + (g.handedOut .link acts).length ≤ 2 ^ 63) (named : Named) :
    (g.handedOut named acts).Pairwise (fun i j => i.number < j.number) ∧
      (∀ s : Snapshot, s.restore = .ok g → ∀ id ∈ s.ids named, ∀ new ∈ g.handedOut named acts,
        id.number < new.number) ∧
      (∀ earlier later, earlier ++ later = acts →
        (∀ id, (g.session earlier).holds named id = true →
          ∀ new ∈ (g.session earlier).handedOut named later, id.number < new.number) ∧
        ((g.session earlier).next named).number.toNat =
          (g.next named).number.toNat + (g.handedOut named earlier).length) ∧
      ∀ earlier act later, earlier ++ act :: later = acts →
        (∀ fault, ((g.session earlier).act act).1 = .error fault →
          (g.session earlier).new? named act = none ∧
          ((g.session earlier).act act).2 = g.session earlier) ∧
        ((g.session earlier).nextBlock.number ≤ maxRestoredId →
          (g.session earlier).nextLink.number ≤ maxRestoredId →
          (g.session earlier).reopened = .ok (g.session earlier)) := by
  obtain ⟨hsound, hnextBlock, hnextLink⟩ := horigin.sound (by omega) (by omega)
  have hready : g.Ready acts := by
    refine ⟨hsound, htexts, hentered, fun named => ?_⟩
    cases named with
    | block =>
      rw [next]
      omega
    | link =>
      rw [next]
      omega
  refine ⟨hready.pairwise_handedOut, ?_, ?_, ?_⟩
  · intro s hrestore id hid new hnew
    exact hready.number_lt (s.holds_of_restore hrestore hid) hnew
  · rintro earlier later rfl
    obtain ⟨hlater, hnumbered⟩ := hready.session
    exact ⟨fun id hid new hnew => hlater.number_lt hid hnew, (hnumbered named).counter⟩
  · rintro earlier act later rfl
    have hlater := hready.session.1
    refine ⟨fun fault hfails => ⟨?_, act_of_error hfails⟩, fun hblock hlink => ?_⟩
    · rw [new?, hfails]
    · rw [hlater.sound.reopened_eq hlater.texts, if_neg (UInt64.not_lt.2 hblock),
        if_neg (UInt64.not_lt.2 hlink)]

/-- A snapshot whose counters lag behind its records. -/
def laggingSnapshot : Snapshot where
  blocks := [⟨⟨5⟩, .ifThen, []⟩, ⟨⟨2⟩, .waitSeconds, []⟩]
  links := [⟨⟨4⟩, ⟨⟨5⟩, .child, ⟨2⟩⟩⟩]
  nextBlock := ⟨3⟩
  nextLink := ⟨0⟩

def laggingGraph : Graph where
  blocks := .ofList [(⟨2⟩, { kind := .waitSeconds }), (⟨5⟩, ⟨.ifThen, ∅, 1⟩)]
  links := .ofList [(⟨4⟩, ⟨⟨5⟩, .child, ⟨2⟩⟩)]
  nextBlock := ⟨6⟩
  nextLink := ⟨5⟩

/-- The block that was added last is removed before the graph is loaded again, and one link is
    refused. -/
def removingActs : List Act :=
  [.edit (.addBlock .repeatTimes), .edit (.removeBlock ⟨6⟩), .reopen, .edit (.addBlock .ifElse),
    .edit (.addLink ⟨⟨7⟩, .next, ⟨2⟩⟩), .edit (.addLink ⟨⟨7⟩, .child, ⟨5⟩⟩)]

theorem fresh_session_laggingGraph : laggingSnapshot.restore = .ok laggingGraph ∧
    laggingGraph.handedOut .block removingActs = [⟨6⟩, ⟨7⟩] ∧
    laggingGraph.handedOut .link removingActs = [⟨5⟩] ∧
    ∀ id ∈ laggingSnapshot.ids .block, ∀ new ∈ laggingGraph.handedOut .block removingActs,
      id.number < new.number := by
  have hrestore : laggingSnapshot.restore = .ok laggingGraph := by rfl
  have hblocks : laggingGraph.handedOut .block removingActs = [⟨6⟩, ⟨7⟩] := by decide +kernel
  have hlinks : laggingGraph.handedOut .link removingActs = [⟨5⟩] := by decide +kernel
  have hfresh := fresh_session (.restored hrestore) removingActs (by decide) (by decide)
    (by rw [hblocks]; decide) (by rw [hlinks]; decide) .block
  exact ⟨hrestore, hblocks, hlinks, hfresh.2.1 _ hrestore⟩

end Graph

end CommandBlocks
