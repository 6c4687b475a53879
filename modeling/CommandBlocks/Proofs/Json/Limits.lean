import CommandBlocks.Json.Records
import CommandBlocks.Proofs.Json.Sizes
import CommandBlocks.Proofs.Tables

namespace CommandBlocks.Json

variable {α σ : Type}

/-- From a text within a limit, what is read has a property and what is left is within the limit. -/
def Bounded (limit : Nat) (p : α → Prop) (read : Reader α) : Prop :=
  ∀ cs a rest, size cs ≤ limit → read cs = .ok (a, rest) → p a ∧ size rest ≤ limit

variable {limit : Nat} {p : α → Prop} {holds : σ → Prop}

/-- What a reader pays for with the text that it takes is bounded by the text. -/
theorem Spends.bounded {weight : α → Nat} {read : Reader α} (hread : Spends weight read) :
    Bounded limit (fun a => weight a ≤ limit) read := by
  intro cs a rest hcs hok
  have hle := hread.le hok
  exact ⟨by omega, by omega⟩

/-- If each element of an array is bounded, so are all elements that are left to read. -/
theorem bounded_elementsFrom {element : Reader α} (helement : Bounded limit p element)
    (bound : Nat) (isFirst : Bool) :
    Bounded limit (fun l => ∀ a ∈ l, p a) (elementsFrom element bound isFirst) := by
  intro cs l rest hcs hok
  induction bound generalizing isFirst cs l with
  | zero => cases hok
  | succ bound ih =>
    obtain ⟨⟨more, left⟩, hmore, hok⟩ := bind_eq_ok_iff.1 hok
    obtain ⟨-, hleft⟩ := (spends_moreElements isFirst).bounded cs more left hcs hmore
    dsimp only at hok
    split_ifs at hok
    · obtain ⟨⟨a, middle⟩, ha, hok⟩ := bind_eq_ok_iff.1 hok
      obtain ⟨⟨later, last⟩, hlater, hok⟩ := bind_eq_ok_iff.1 hok
      cases hok
      obtain ⟨hpa, hmiddle⟩ := helement left a middle hleft ha
      obtain ⟨hplater, hlast⟩ := ih false middle later hmiddle hlater
      exact ⟨List.forall_mem_cons.2 ⟨hpa, hplater⟩, hlast⟩
    · obtain ⟨last, hend, hok⟩ := bind_eq_ok_iff.1 hok
      cases hok
      exact ⟨List.forall_mem_nil _, Nat.le_trans (shortens_endElements _ _ hend) hleft⟩

theorem bounded_elements {element : Reader α} (helement : Bounded limit p element) :
    Bounded limit (fun l => ∀ a ∈ l, p a) (elements element) :=
  fun cs => bounded_elementsFrom helement (cs.length + 1) true cs

/-- What the members of an object are gathered into stays bounded if each member keeps it so. -/
theorem bounded_membersFrom {member : σ → String → Reader σ}
    (hmember : ∀ s key, holds s → Bounded limit holds (member s key)) (bound : Nat) (isFirst : Bool)
    {s : σ} (hs : holds s) : Bounded limit holds (membersFrom member bound isFirst s) := by
  intro cs t rest hcs hok
  induction bound generalizing isFirst s cs with
  | zero => cases hok
  | succ bound ih =>
    obtain ⟨⟨key?, left⟩, hkey, hok⟩ := bind_eq_ok_iff.1 hok
    obtain ⟨-, hleft⟩ := (spends_nextKey isFirst).bounded cs key? left hcs hkey
    cases key? with
    | none =>
      cases hok
      exact ⟨hs, hleft⟩
    | some key =>
      obtain ⟨⟨u, middle⟩, hu, hok⟩ := bind_eq_ok_iff.1 hok
      obtain ⟨hholds, hmiddle⟩ := hmember s key hs left u middle hleft hu
      exact ih false hholds middle hmiddle hok

theorem bounded_members {member : σ → String → Reader σ}
    (hmember : ∀ s key, holds s → Bounded limit holds (member s key)) {start : σ}
    (hstart : holds start) : Bounded limit holds (members member start) :=
  fun cs => bounded_membersFrom hmember (cs.length + 1) true hstart cs

/-- If each value of a table is bounded, all values of it are. -/
theorem bounded_tableOf {value : Reader α} (hvalue : Bounded limit p value) :
    Bounded limit (fun table => ∀ k a, table.get? k = some a → p a) (tableOf value) := by
  refine bounded_members ?_ ?_
  · intro table key htable cs next rest hcs hok
    obtain ⟨left, hcolon, hok⟩ := bind_eq_ok_iff.1 hok
    obtain ⟨⟨a, last⟩, ha, hok⟩ := bind_eq_ok_iff.1 hok
    cases hok
    have hleft := Nat.le_trans (shortens_colon _ _ hcolon) hcs
    obtain ⟨hpa, hlast⟩ := hvalue left a rest hleft ha
    refine ⟨fun k b hget => ?_, hlast⟩
    obtain ⟨-, rfl⟩ | ⟨-, hold⟩ := Table.get?_insert_eq_some.1 hget
    · exact hpa
    · exact htable k b hold
  · intro k a hget
    cases hget

/-- The number of bytes of a value that is a text. -/
def textSize : Json → Nat
  | string s => s.utf8ByteSize
  | _ => 0

/-- A value is within the limit if what stands at its start is, whatever is nested in it. -/
theorem bounded_valueBehind {nested? : Option (Reader Json)}
    (hnested : ∀ nested, nested? = some nested → Bounded limit (fun _ => True) nested)
    {found : Found} (hfound : found.textSize ≤ limit) :
    Bounded limit (fun json => json.textSize ≤ limit) (valueBehind nested? found) := by
  intro cs json rest hcs hok
  cases found with
  | string s =>
    cases hok
    exact ⟨hfound, hcs⟩
  | sequence =>
    cases nested? with
    | none => cases hok
    | some nested =>
      obtain ⟨⟨items, last⟩, hitems, hok⟩ := bind_eq_ok_iff.1 hok
      cases hok
      exact ⟨Nat.zero_le _, (bounded_elements (hnested nested rfl) cs items rest hcs hitems).2⟩
  | map =>
    cases nested? with
    | none => cases hok
    | some nested =>
      obtain ⟨⟨table, last⟩, htable, hok⟩ := bind_eq_ok_iff.1 hok
      cases hok
      exact ⟨Nat.zero_le _, (bounded_tableOf (hnested nested rfl) cs table rest hcs htable).2⟩
  | _ =>
    cases hok
    exact ⟨Nat.zero_le _, hcs⟩

/-- A value that is a text is no longer than what it is read from. -/
theorem bounded_readValue (nesting : Nat) :
    Bounded limit (fun json => json.textSize ≤ limit) (readValue nesting) := by
  induction nesting with
  | zero =>
    intro cs json rest hcs hok
    rw [readValue] at hok
    obtain ⟨⟨found, left⟩, hfound, hok⟩ := bind_eq_ok_iff.1 hok
    obtain ⟨hsize, hleft⟩ := spends_readStart.bounded cs found left hcs hfound
    exact bounded_valueBehind (by simp) hsize left json rest hleft hok
  | succ nesting ih =>
    intro cs json rest hcs hok
    rw [readValue] at hok
    obtain ⟨⟨found, left⟩, hfound, hok⟩ := bind_eq_ok_iff.1 hok
    obtain ⟨hsize, hleft⟩ := spends_readStart.bounded cs found left hcs hfound
    refine bounded_valueBehind ?_ hsize left json rest hleft hok
    rintro _ ⟨⟩ cs inner rest hcs hinner
    exact ⟨trivial, (ih cs inner rest hcs hinner).2⟩

/-- A text is no longer than what it is read from. -/
theorem bounded_readText : Bounded limit (fun s => s.utf8ByteSize ≤ limit) readText := by
  intro cs s rest hcs hok
  obtain ⟨⟨found, left⟩, hfound, hok⟩ := bind_eq_ok_iff.1 hok
  have hstart := spends_readStart.bounded cs found left hcs hfound
  cases found with
  | string t =>
    cases hok
    exact hstart
  | _ => cases hok

theorem bounded_readList {element : Reader α} (helement : Bounded limit p element) :
    Bounded limit (fun l => ∀ a ∈ l, p a) (readList element) := by
  intro cs l rest hcs hok
  obtain ⟨⟨found, left⟩, hfound, hok⟩ := bind_eq_ok_iff.1 hok
  obtain ⟨-, hleft⟩ := spends_readStart.bounded cs found left hcs hfound
  cases found with
  | sequence => exact bounded_elements helement left l rest hleft hok
  | _ => cases hok

theorem bounded_readTable {value : Reader α} (hvalue : Bounded limit p value) :
    Bounded limit (fun table => ∀ k a, table.get? k = some a → p a) (readTable value) := by
  intro cs table rest hcs hok
  obtain ⟨⟨found, left⟩, hfound, hok⟩ := bind_eq_ok_iff.1 hok
  obtain ⟨-, hleft⟩ := spends_readStart.bounded cs found left hcs hfound
  cases found with
  | map => exact bounded_tableOf hvalue left table rest hleft hok
  | _ => cases hok

/-- Reading a field keeps what holds of the drafts of a record. -/
def RecordField.Keeps (limit : Nat) (holds : σ → Prop) (field : RecordField σ) : Prop :=
  ∀ s, holds s → Bounded limit holds (field.read s)

/-- A field that may be left out keeps a record bounded if its values are. -/
theorem RecordField.keeps_optional {name : String} {aliases : List String} {get : σ → Option α}
    {set : σ → α → σ} {read : Reader α} (hread : Bounded limit p read)
    (hset : ∀ s a, holds s → p a → holds (set s a)) :
    (optional name aliases get set read).Keeps limit holds := by
  intro s hs cs t rest hcs hok
  obtain ⟨⟨a, left⟩, ha, hok⟩ := bind_eq_ok_iff.1 hok
  cases hok
  obtain ⟨hp, hrest⟩ := hread cs a rest hcs ha
  exact ⟨hset s a hs hp, hrest⟩

theorem RecordField.keeps_required {name : String} {aliases : List String} {get : σ → Option α}
    {set : σ → α → σ} {read : Reader α} (hread : Bounded limit p read)
    (hset : ∀ s a, holds s → p a → holds (set s a)) :
    (required name aliases get set read).Keeps limit holds := by
  change (optional name aliases get set read).Keeps limit holds
  exact keeps_optional hread hset

variable {fields : List (RecordField σ)}

/-- A member of an object keeps the record bounded, whichever field its key names. -/
theorem bounded_recordMember (hfields : ∀ field ∈ fields, field.Keeps limit holds) {s : σ}
    (hs : holds s) (key : String) : Bounded limit holds (recordMember fields s key) := by
  intro cs t rest hcs hok
  unfold recordMember at hok
  split at hok
  next =>
    obtain ⟨left, hcolon, hok⟩ := bind_eq_ok_iff.1 hok
    obtain ⟨last, hskip, hok⟩ := bind_eq_ok_iff.1 hok
    cases hok
    have hleft := Nat.le_trans (shortens_colon _ _ hcolon) hcs
    exact ⟨hs, Nat.le_trans (shortens_skipValue _ _ hskip) hleft⟩
  next field hfield =>
    obtain ⟨-, hok⟩ := throw_or_eq_ok_iff.1 hok
    obtain ⟨left, hcolon, hok⟩ := bind_eq_ok_iff.1 hok
    have hleft := Nat.le_trans (shortens_colon _ _ hcolon) hcs
    exact hfields field (List.mem_of_find?_eq_some hfield) s hs left t rest hleft hok

/-- The elements of an array keep the record bounded, each as the field of its position. -/
theorem bounded_recordElements (hfields : ∀ field ∈ fields, field.Keeps limit holds)
    (expected : String) (position : Nat) {s : σ} (hs : holds s) :
    Bounded limit holds (recordElements expected position fields s) := by
  intro cs t rest hcs hok
  induction fields generalizing position s cs with
  | nil =>
    obtain ⟨left, hend, hok⟩ := bind_eq_ok_iff.1 hok
    cases hok
    exact ⟨hs, Nat.le_trans (shortens_endElements _ _ hend) hcs⟩
  | cons field later ih =>
    obtain ⟨hfield, hlater⟩ := List.forall_mem_cons.1 hfields
    obtain ⟨⟨more, left⟩, hmore, hok⟩ := bind_eq_ok_iff.1 hok
    obtain ⟨-, hleft⟩ := (spends_moreElements _).bounded cs more left hcs hmore
    dsimp only at hok
    split_ifs at hok
    · obtain ⟨⟨u, middle⟩, hu, hok⟩ := bind_eq_ok_iff.1 hok
      obtain ⟨hholds, hmiddle⟩ := hfield s hs left u middle hleft hu
      exact ih hlater (position + 1) hholds middle hmiddle hok
    · exact ih hlater (position + 1) hs left hleft hok

/-- What every field keeps holds of a record. -/
theorem bounded_readRecord (holds : σ → Prop) (hfields : ∀ field ∈ fields, field.Keeps limit holds)
    (name : String) {start : σ} (hstart : holds start) :
    Bounded limit holds (readRecord name fields start) := by
  intro cs s rest hcs hok
  obtain ⟨⟨found, left⟩, hfound, hok⟩ := bind_eq_ok_iff.1 hok
  obtain ⟨-, hleft⟩ := spends_readStart.bounded cs found left hcs hfound
  cases found with
  | map =>
    obtain ⟨⟨t, last⟩, ht, hok⟩ := bind_eq_ok_iff.1 hok
    have hmembers := bounded_members (fun s key hs => bounded_recordMember hfields hs key) hstart
    have hlast := hmembers left t last hleft ht
    dsimp only at hok
    split at hok
    · cases hok
    · cases hok
      exact hlast
  | sequence => exact bounded_recordElements hfields _ 0 hstart left s rest hleft hok
  | _ => cases hok

end CommandBlocks.Json
