import CommandBlocks.Proofs.Numbers
import CommandBlocks.Proofs.Program.Regular
import CommandBlocks.Proofs.Tables
import Mathlib.Data.List.ReduceOption

namespace CommandBlocks

namespace Json

/-- A value is another one or a part of it at any depth. -/
inductive Within : Json → Json → Prop where
  | refl (json : Json) : Within json json
  | item {part item : Json} {items : List Json} :
    item ∈ items → Within part item → Within part (.array items)
  | member {part value : Json} {key : String} {members : List (String × Json)} :
    (key, value) ∈ members → Within part value → Within part (.object members)

/-- A value is written as `null`: it is `null`, or a number that is not finite. -/
def IsNull (json : Json) : Prop :=
  json = .null ∨ ∃ x : Binary64, json = .number (.binary x) ∧ x.isFinite = false

/-- No part of a value is written as `null`. -/
def NullFree (json : Json) : Prop := ∀ part, Within part json → ¬ IsNull part

theorem canonicalItems_eq_map (items : List Json) :
    canonicalItems items = items.map canonical := by
  induction items with
  | nil => rfl
  | cons item items ih => rw [canonicalItems, ih, List.map_cons]

theorem canonicalMembers_eq_map (members : List (String × Json)) :
    canonicalMembers members = members.map fun member => (member.1, member.2.canonical) := by
  induction members with
  | nil => rfl
  | cons member members ih => rw [canonicalMembers, ih, List.map_cons, canonicalMember]

end Json

/-- The kind that a JSON value names. -/
def Kind.ofJson? : Json → Option Kind
  | .string name => Kind.ofName? name
  | _ => none

/-- Reads the field of an input from the members of a statement. There is none if the member is
    missing or `null`. -/
def Input.ofJson? (members : Table String Json) (input : Input) :
    Option (Option (Parameter × Value)) :=
  match members.get? input.parameter.name with
  | none => some none
  | some json =>
    match Entry.ofJson json with
    | .blank => some none
    | .filled value => some (some (input.parameter, value))
    | .unsupported => none

/-- Reads a statement: its kind by its name, the fields of the kind's inputs in palette order, and
    the statements nested in it if it has a body. -/
def Statement.ofJson? (json : Json) : Option Statement :=
  match json with
  | .object members => do
    let table : Table String Json := .ofList members
    let kind ← (table.get? "name").bind Kind.ofJson?
    let fields ← kind.inputs.mapM (Input.ofJson? table)
    let body ← match _hbody : table.get? "body" with
      | none => some none
      | some (.array items) => (items.attach.mapM fun item => Statement.ofJson? item.1).map some
      | some _ => none
    return .mk kind fields.reduceOption body
  | _ => none
termination_by json
decreasing_by
  have hmember := List.sizeOf_lt_of_mem (Table.mem_of_get?_ofList _hbody)
  have hitem := List.sizeOf_lt_of_mem item.2
  simp only [Prod.mk.sizeOf_spec, Json.array.sizeOf_spec, Json.object.sizeOf_spec] at hmember ⊢
  omega

/-- Reads a program: an array of statements. -/
def Program.ofJson? : Json → Option Program
  | .array items => items.mapM Statement.ofJson?
  | _ => none

/-- The value that is read back where a value was written: zero has lost its sign. -/
def Value.withPositiveZero : Value → Value
  | number x => .number (if x.isZero then .zero false else x)
  | v => v

namespace Statement

mutual

/-- The statement with a function applied to the values of its fields and of those nested in it. -/
def mapValues (f : Value → Value) : Statement → Statement
  | mk kind fields body =>
    mk kind (fields.map fun field => (field.1, f field.2)) (bodyMapValues f body)

def bodyMapValues (f : Value → Value) : Option (List Statement) → Option (List Statement)
  | none => none
  | some body => some (itemsMapValues f body)

def itemsMapValues (f : Value → Value) : List Statement → List Statement
  | [] => []
  | statement :: rest => statement.mapValues f :: itemsMapValues f rest

end

theorem itemsMapValues_eq_map (f : Value → Value) (items : List Statement) :
    itemsMapValues f items = items.map (mapValues f) := by
  induction items with
  | nil => rfl
  | cons item items ih => rw [itemsMapValues, ih, List.map_cons]

theorem itemsToJson_eq_map (items : List Statement) : itemsToJson items = items.map toJson := by
  induction items with
  | nil => rfl
  | cons item items ih => rw [itemsToJson, ih, List.map_cons]

end Statement

section Numbers

variable {x : Binary64}

/-- Whole numbers below `2 ^ 63` are written as integers, and all others as they are. -/
theorem Value.toJson_number (hfinite : x.isFinite = true) :
    if Int.fract x.toRat = 0 ∧ |x.toRat| < 2 ^ 63 then
      ∃ n : Int, (Value.number x).toJson = .number (.integer n) ∧ n = x.toRat
    else (Value.number x).toJson = .number (.binary x) := by
  split_ifs with hwhole
  · obtain ⟨hfract, hlt⟩ := hwhole
    obtain ⟨n, hn⟩ := Int.fract_eq_zero_iff.1 hfract
    have hint := (Binary64.toInt?_eq_some_iff hfinite).2 ⟨hn.symm, hlt⟩
    exact ⟨n, by simp only [Value.toJson, hint], hn⟩
  · cases hint : x.toInt? with
    | none => simp only [Value.toJson, hint]
    | some n =>
      obtain ⟨hn, hlt⟩ := (Binary64.toInt?_eq_some_iff hfinite).1 hint
      exact absurd ⟨Int.fract_eq_zero_iff.2 ⟨n, hn.symm⟩, hlt⟩ hwhole

-- the first number that is too large is `2 ^ 63` itself
example : (Value.number ⟨0x43e0000000000000⟩).toJson = .number (.binary ⟨0x43e0000000000000⟩) := rfl

/-- A finite number is read back from what is written for it, but for the sign of zero. -/
theorem Entry.ofJson_toJson {value : Value}
    (hfinite : ∀ x, value = .number x → x.isFinite = true) :
    Entry.ofJson value.toJson = .filled value.withPositiveZero := by
  cases value with
  | number x =>
    cases hint : x.toInt? with
    | none =>
      have hzero : ¬ x.isZero = true := fun hzero => by
        rw [Binary64.toInt?_of_isZero hzero] at hint
        cases hint
      simp only [Value.toJson, hint, Entry.ofJson, Json.Number.toBinary64, Value.withPositiveZero,
        if_neg hzero]
    | some n =>
      have hn := ((Binary64.toInt?_eq_some_iff (hfinite x rfl)).1 hint).1
      simp only [Value.toJson, hint, Entry.ofJson, Json.Number.toBinary64, Value.withPositiveZero,
        Binary64.ofInt_eq (hfinite x rfl) hn]
  | text s => rfl
  | boolean b => rfl

/-- A value is not `null` as JSON, if its number is finite. -/
theorem Value.nullFree_toJson {value : Value}
    (hfinite : ∀ x, value = .number x → x.isFinite = true) : value.toJson.NullFree := by
  intro part hpart
  cases value with
  | number x =>
    simp only [Value.toJson] at hpart
    split at hpart
    · cases hpart
      simp [Json.IsNull]
    · cases hpart
      simp [Json.IsNull, hfinite x rfl]
  | text s =>
    cases hpart
    simp [Json.IsNull, Value.toJson]
  | boolean b =>
    cases hpart
    simp [Json.IsNull, Value.toJson]

end Numbers

namespace Statement

/-- The members of a statement in JSON, apart from their order. -/
private def members (kind : Kind) (fields : List (Parameter × Value))
    (body : Option (List Statement)) : List (String × Json) :=
  ("name", .string kind.name) :: fields.map (fun field => (field.1.name, field.2.toJson)) ++
    (body.map fun items =>
      ("body", Json.array (items.map fun item => item.toJson.canonical))).toList

variable {kind : Kind} {fields : List (Parameter × Value)} {body : Option (List Statement)}

/-- The canonical form of a statement lists its members in the order of their keys. -/
private theorem canonical_toJson :
    (Statement.mk kind fields body).toJson.canonical =
      .object (Table.ofList (members kind fields body)).entries := by
  have hvalue : ∀ value : Value, value.toJson.canonical = value.toJson := by
    intro value
    cases value with
    | number x =>
      simp only [Value.toJson]
      split <;> rfl
    | text s => rfl
    | boolean b => rfl
  have hbody : (bodyMember body).map (fun member => (member.1, member.2.canonical)) =
      (body.map fun items =>
        ("body", Json.array (items.map fun item => item.toJson.canonical))).toList := by
    cases body with
    | none => rfl
    | some items =>
      rw [bodyMember, itemsToJson_eq_map, List.map_singleton, Json.canonical,
        Json.canonicalItems_eq_map, List.map_map]
      rfl
  rw [toJson, Json.canonical, Json.canonicalMembers_eq_map, members, List.map_append, hbody,
    List.map_cons, List.map_map]
  simp only [Json.canonical, Function.comp_def, hvalue]

/-- The members of a statement are its name, its fields and its body, if it has one. -/
private theorem mem_members {key : String} {json : Json} :
    (key, json) ∈ members kind fields body ↔ key = "name" ∧ json = .string kind.name ∨
      (∃ parameter value, (parameter, value) ∈ fields ∧ parameter.name = key ∧
        value.toJson = json) ∨
      key = "body" ∧ (body.map fun items => .array (items.map fun item => item.toJson.canonical)) =
        some json := by
  rw [members, List.mem_append, List.mem_cons, Option.mem_toList, or_assoc]
  refine or_congr Prod.mk_inj (or_congr ?_ ?_)
  · simp
  · cases body with
    | none => simp
    | some items => simp [eq_comm]

/-- No parameter is called like the other members of a statement. -/
private theorem name_ne (parameter : Parameter) :
    parameter.name ≠ "name" ∧ parameter.name ≠ "body" := by
  cases parameter <;> decide

private theorem nodup_members (hnodup : (fields.map (·.1)).Nodup) :
    ((members kind fields body).map (·.1)).Nodup := by
  have hkeys : (members kind fields body).map (·.1) =
      "name" :: ((fields.map (·.1)).map Parameter.name ++ (body.map fun _ => "body").toList) := by
    cases body <;> simp [members]
  have hnames : ((fields.map (·.1)).map Parameter.name).Nodup :=
    hnodup.map fun p q => Parameter.name_inj
  have hbody : ∀ key ∈ (body.map fun _ => "body").toList, key = "body" := by
    cases body <;> simp
  rw [hkeys, List.nodup_cons, List.mem_append, not_or, List.nodup_append']
  refine ⟨⟨fun hmem => ?_, fun hmem => absurd (hbody _ hmem) (by decide)⟩, hnames, ?_, ?_⟩
  · obtain ⟨parameter, -, hname⟩ := List.mem_map.1 hmem
    exact (name_ne parameter).1 hname
  · cases body <;> simp
  · intro key hmem hlast
    obtain ⟨parameter, -, hname⟩ := List.mem_map.1 hmem
    exact (name_ne parameter).2 (hname.trans (hbody key hlast))

private theorem get?_name (hnodup : (fields.map (·.1)).Nodup) :
    (Table.ofList (members kind fields body)).get? "name" = some (.string kind.name) :=
  (Table.get?_ofList_eq_some_iff (nodup_members hnodup)).2 List.mem_cons_self

private theorem get?_body (hnodup : (fields.map (·.1)).Nodup) :
    (Table.ofList (members kind fields body)).get? "body" =
      body.map fun items => .array (items.map fun item => item.toJson.canonical) := by
  ext json
  rw [Table.get?_ofList_eq_some_iff (nodup_members hnodup), mem_members]
  simp [(name_ne _).2]

/-- The fields of a statement are found among its members. -/
private theorem get?_parameter (hnodup : (fields.map (·.1)).Nodup) {parameter : Parameter}
    {json : Json} :
    (Table.ofList (members kind fields body)).get? parameter.name = some json ↔
      ∃ value, (parameter, value) ∈ fields ∧ value.toJson = json := by
  rw [Table.get?_ofList_eq_some_iff (nodup_members hnodup), mem_members]
  constructor
  · rintro (⟨hname, -⟩ | ⟨other, value, hmem, hname, hvalue⟩ | ⟨hname, -⟩)
    · exact absurd hname (name_ne parameter).1
    · obtain rfl := Parameter.name_inj hname
      exact ⟨value, hmem, hvalue⟩
    · exact absurd hname (name_ne parameter).2
  · rintro ⟨value, hmem, hvalue⟩
    exact .inr (.inl ⟨parameter, value, hmem, rfl, hvalue⟩)

/-- The values found under some keys, in the order of the keys, are all values of a list that
    follows that order. -/
private theorem filterMap_find?_eq_of_sublist {α β : Type} [DecidableEq α] {keys : List α}
    {fields : List (α × β)} (hsublist : (fields.map (·.1)).Sublist keys) (hnodup : keys.Nodup) :
    keys.filterMap (fun key => fields.find? (·.1 == key)) = fields := by
  induction keys generalizing fields with
  | nil =>
    rw [List.sublist_nil, List.map_eq_nil_iff] at hsublist
    rw [hsublist, List.filterMap_nil]
  | cons key keys ih =>
    obtain ⟨hfresh, hkeys⟩ := List.nodup_cons.1 hnodup
    rw [List.filterMap_cons]
    rcases List.sublist_cons_iff.1 hsublist with hskip | ⟨rest, hrest, hsublist⟩
    · have hnone : fields.find? (·.1 == key) = none := by
        rw [List.find?_eq_none]
        intro field hfield heq
        exact hfresh (beq_iff_eq.1 heq ▸ hskip.subset (List.mem_map_of_mem hfield))
      simp only [hnone]
      exact ih hskip hkeys
    · obtain ⟨field, fields, rfl, rfl, rfl⟩ := List.map_eq_cons_iff.1 hrest
      have hlater : ∀ other ∈ keys,
          (field :: fields).find? (·.1 == other) = fields.find? (·.1 == other) := by
        rintro other hother
        refine List.find?_cons_of_neg ?_
        rw [beq_iff_eq]
        rintro rfl
        exact hfresh hother
      have hself : (field :: fields).find? (·.1 == field.1) = some field :=
        List.find?_cons_of_pos (beq_self_eq_true _)
      simp only [hself]
      rw [List.filterMap_congr hlater, ih hsublist hkeys]

private theorem mapM_eq_some {α β : Type} {f : α → Option β} {g : α → β} {l : List α}
    (hf : ∀ a ∈ l, f a = some (g a)) : l.mapM f = some (l.map g) := by
  induction l with
  | nil => rfl
  | cons a l ih =>
    obtain ⟨hhead, htail⟩ := List.forall_mem_cons.1 hf
    rw [List.mapM_cons, hhead, ih htail]
    rfl

/-- Fields in palette order are read back from the members of a statement. -/
private theorem mapM_ofJson? (hregular : (Statement.mk kind fields body).Regular) :
    ∃ found, kind.inputs.mapM (Input.ofJson? (Table.ofList (members kind fields body))) =
        some found ∧
      found.reduceOption = fields.map fun field => (field.1, field.2.withPositiveZero) := by
  have hnodup : (fields.map (·.1)).Nodup := hregular.nodup
  refine ⟨kind.inputs.map fun input =>
    (fields.find? (·.1 == input.parameter)).map fun field => (field.1, field.2.withPositiveZero),
    mapM_eq_some fun input _ => ?_, ?_⟩
  · unfold Input.ofJson?
    cases hfind : fields.find? (·.1 == input.parameter) with
    | none =>
      have hget : (Table.ofList (members kind fields body)).get? input.parameter.name = none := by
        refine Option.eq_none_iff_forall_ne_some.2 fun json hjson => ?_
        obtain ⟨value, hmem, -⟩ := (get?_parameter hnodup).1 hjson
        exact List.find?_eq_none.1 hfind _ hmem (beq_self_eq_true _)
      rw [hget]
      rfl
    | some field =>
      obtain ⟨parameter, value⟩ := field
      have heq := List.find?_some hfind
      obtain rfl : parameter = input.parameter := beq_iff_eq.1 heq
      have hmem := List.mem_of_find?_eq_some hfind
      have hread : Entry.ofJson value.toJson = .filled value.withPositiveZero := by
        refine Entry.ofJson_toJson fun x hx => ?_
        exact hregular.finite _ x (hx ▸ hmem)
      rw [(get?_parameter hnodup).2 ⟨value, hmem, rfl⟩]
      simp only [hread]
      rfl
  · have hfound := filterMap_find?_eq_of_sublist hregular.order kind.nodup_parameters
    have hmap := congrArg (List.map fun field => (field.1, field.2.withPositiveZero)) hfound
    rw [List.filterMap_map, List.map_filterMap] at hmap
    rw [List.reduceOption, List.filterMap_map]
    exact hmap

/-- A statement is read from an object by its keys. -/
theorem ofJson?_object (members : List (String × Json)) :
    Statement.ofJson? (.object members) = (do
      let kind ← ((Table.ofList members).get? "name").bind Kind.ofJson?
      let fields ← kind.inputs.mapM (Input.ofJson? (.ofList members))
      let body ← match (Table.ofList members).get? "body" with
        | none => some none
        | some (.array items) => (items.mapM Statement.ofJson?).map some
        | some _ => none
      return .mk kind fields.reduceOption body) := by
  have hitems : ∀ items : List Json, (items.attach.mapM fun item => Statement.ofJson? item.1) =
      items.mapM Statement.ofJson? := by
    intro items
    rw [List.mapM_subtype fun _ _ => rfl, List.unattach_attach]
  rw [Statement.ofJson?]
  refine bind_congr fun kind => bind_congr fun fields => ?_
  simp only [hitems]
  generalize (Table.ofList members).get? "body" = body
  rcases body with _ | json
  · rfl
  · cases json <;> rfl

/-- A statement is read back from what is written for it, but for the signs of zeros. -/
theorem ofJson?_canonical_toJson {statement : Statement}
    (hregular : ∀ nested ∈ statement.withNested, nested.Regular) :
    Statement.ofJson? statement.toJson.canonical =
      some (statement.mapValues Value.withPositiveZero) := by
  induction statement using Statement.induction with
  | mk kind fields body ih =>
    obtain ⟨hself, hnested⟩ := forall_mem_withNested_mk.1 hregular
    have hnodup : (fields.map (·.1)).Nodup := hself.nodup
    obtain ⟨found, hfound, hfields⟩ := mapM_ofJson? hself
    have hkind : Kind.ofJson? (.string kind.name) = some kind := by cases kind <;> rfl
    have hitems : ∀ item ∈ body.getD [], Statement.ofJson? item.toJson.canonical =
        some (item.mapValues Value.withPositiveZero) :=
      fun item hitem => ih item hitem (hnested item hitem)
    rw [canonical_toJson, ofJson?_object, Table.ofList_entries, get?_name hnodup, get?_body hnodup,
      Option.bind_some, hkind]
    simp only [Option.bind_eq_bind, Option.bind_some, hfound]
    cases body with
    | none =>
      rw [Option.map_none, hfields]
      rfl
    | some items =>
      have hbody : (items.map fun item => item.toJson.canonical).mapM Statement.ofJson? =
          some (items.map (mapValues Value.withPositiveZero)) := by
        rw [List.mapM_map]
        exact mapM_eq_some hitems
      simp only [Option.map_some, Option.bind_some, hbody, hfields]
      rw [mapValues, bodyMapValues, itemsMapValues_eq_map]
      rfl

/-- A statement with regular statements nested in it has no `null` in its JSON. -/
theorem nullFree_canonical_toJson {statement : Statement}
    (hregular : ∀ nested ∈ statement.withNested, nested.Regular) :
    statement.toJson.canonical.NullFree := by
  induction statement using Statement.induction with
  | mk kind fields body ih =>
    obtain ⟨hself, hnested⟩ := forall_mem_withNested_mk.1 hregular
    intro part hpart
    rw [canonical_toJson] at hpart
    cases hpart with
    | refl => simp [Json.IsNull]
    | member hmem hwithin =>
      have hmember := Table.mem_of_get?_ofList (Table.mem_entries_iff.1 hmem)
      rcases mem_members.1 hmember with ⟨-, rfl⟩ | ⟨parameter, v, hv, -, rfl⟩ | ⟨-, hbody⟩
      · cases hwithin
        simp [Json.IsNull]
      · exact Value.nullFree_toJson (fun x hx => hself.finite _ x (hx ▸ hv)) part hwithin
      · obtain ⟨items, rfl, rfl⟩ := Option.map_eq_some_iff.1 hbody
        cases hwithin with
        | refl => simp [Json.IsNull]
        | item hmem hwithin =>
          obtain ⟨item, hitem, rfl⟩ := List.mem_map.1 hmem
          exact ih item hitem (hnested item hitem) part hwithin

end Statement

/-- The program with a function applied to the values of all fields. -/
def Program.mapValues (f : Value → Value) (program : Program) : Program :=
  Statement.itemsMapValues f program

namespace Graph

variable {g : Graph} {options : Options}

/-- The JSON value of a compiled program loses nothing: it has no `null` in it and is read back as
    the program, apart from the signs of zeros. Every finite number is written so that it can be
    read back, as an integer if it is one below `2 ^ 63`. -/
theorem ofJson?_of_compile {program : Program} (hcompile : g.compile options = .ok program) :
    program.toJson.canonical.NullFree ∧
    Program.ofJson? program.toJson.canonical = some (program.mapValues Value.withPositiveZero) ∧
    ∀ x : Binary64, x.isFinite = true →
      Entry.ofJson (Value.number x).toJson =
        .filled (.number (if x.isZero then .zero false else x)) ∧
      if Int.fract x.toRat = 0 ∧ |x.toRat| < 2 ^ 63 then
        ∃ n : Int, (Value.number x).toJson = .number (.integer n) ∧ n = x.toRat
      else (Value.number x).toJson = .number (.binary x) := by
  have hregular := regular_of_compile hcompile
  have hitem : ∀ item ∈ program, ∀ nested ∈ item.withNested, nested.Regular :=
    fun item hitem nested hnested =>
      hregular nested (Statement.mem_itemStatements.2 ⟨item, hitem, hnested⟩)
  have hjson : program.toJson.canonical =
      .array (program.map fun item => item.toJson.canonical) := by
    rw [Program.toJson, Json.canonical, Json.canonicalItems_eq_map, Statement.itemsToJson_eq_map,
      List.map_map]
    rfl
  rw [hjson]
  refine ⟨fun part hpart => ?_, ?_, fun x hfinite => ⟨?_, Value.toJson_number hfinite⟩⟩
  · cases hpart with
    | refl => simp [Json.IsNull]
    | item hmem hwithin =>
      obtain ⟨item, hprogram, rfl⟩ := List.mem_map.1 hmem
      exact Statement.nullFree_canonical_toJson (hitem item hprogram) part hwithin
  · rw [Program.ofJson?, List.mapM_map, Program.mapValues, Statement.itemsMapValues_eq_map]
    exact Statement.mapM_eq_some fun item hmem =>
      Statement.ofJson?_canonical_toJson (hitem item hmem)
  · have hvalue : ∀ y, Value.number x = .number y → y.isFinite = true :=
      fun y hy => Value.number.inj hy ▸ hfinite
    exact Entry.ofJson_toJson hvalue

/-- A pause that is repeated three times. It takes negative zero seconds. -/
def pausedLoop : Graph where
  blocks := .ofList [
    (⟨0⟩, ⟨.repeatTimes, .ofList [(.count, .number ⟨0x4008000000000000⟩)], 1⟩),
    (⟨1⟩, ⟨.waitSeconds, .ofList [(.duration, .number ⟨0x8000000000000000⟩)], 0⟩)]
  links := .ofList [(⟨0⟩, ⟨⟨0⟩, .child, ⟨1⟩⟩)]
  nextBlock := ⟨2⟩
  nextLink := ⟨1⟩

private theorem compile_pausedLoop : pausedLoop.compile {} =
    .ok [.mk .repeatTimes [(.count, .number ⟨0x4008000000000000⟩)]
      (some [.mk .waitSeconds [(.duration, .number ⟨0x8000000000000000⟩)] none])] := by
  have hshape : pausedLoop.shapeFault? = none := by cbv
  let loop : OpenStatement :=
    ⟨⟨0⟩, .repeatTimes, [(.count, .number ⟨0x4008000000000000⟩)], [], []⟩
  let pause : OpenStatement :=
    ⟨⟨1⟩, .waitSeconds, [(.duration, .number ⟨0x8000000000000000⟩)], [], []⟩
  rw [compile, hshape]
  change pausedLoop.build {} [⟨0⟩, ⟨1⟩] [⟨0⟩] [] [] = _
  rw [build]
  change pausedLoop.build {} [⟨1⟩] [⟨1⟩] [] [loop] = _
  rw [build]
  change pausedLoop.build {} [] [] [] [pause, loop] = _
  rw [build]
  change pausedLoop.build {} [] [] [pause.close []] [loop] = _
  rw [build]
  change pausedLoop.build {} [] [] [loop.close [pause.close []]] [] = _
  rw [build]
  rfl

theorem ofJson?_pausedLoop : ∃ program, pausedLoop.compile {} = .ok program ∧
    program.toJson.canonical.NullFree ∧
    Program.ofJson? program.toJson.canonical =
      some [.mk .repeatTimes [(.count, .number ⟨0x4008000000000000⟩)]
        (some [.mk .waitSeconds [(.duration, .number ⟨0⟩)] none])] := by
  obtain ⟨hnull, hread, -⟩ := ofJson?_of_compile compile_pausedLoop
  exact ⟨_, compile_pausedLoop, hnull, hread⟩

end Graph

end CommandBlocks
