import CommandBlocks.Proofs.OneLine
import CommandBlocks.Proofs.Program.Coverage

namespace CommandBlocks

open Text

theorem takeWhile_append_of_boundary {p : Char → Bool} {cs rest : List Char}
    (hcs : ∀ c ∈ cs, p c = true) (hrest : ∀ c ∈ rest.head?, p c = false) :
    (cs ++ rest).takeWhile p = cs := by
  have hstop : rest.takeWhile p = [] := by
    cases rest with
    | nil => rfl
    | cons c rest => exact List.takeWhile_cons_of_neg (by simp [hrest c rfl])
  rw [List.takeWhile_append_of_pos hcs, hstop, List.append_nil]

theorem Parameter.oneLine_name (parameter : Parameter) : OneLine parameter.name := by
  cases parameter <;> decide

theorem Kind.blank_not_mem_name (kind : Kind) : ' ' ∉ kind.name.toList := by
  cases kind <;> decide

theorem Kind.toList_name_ne_nil (kind : Kind) : kind.name.toList ≠ [] := by
  cases kind <;> decide

theorem Kind.oneLine_name (kind : Kind) : OneLine kind.name := by
  cases kind <;> decide

/-- Kinds are known by their names. -/
theorem Kind.name_inj {kind kind' : Kind} (h : kind.name = kind'.name) : kind = kind' := by
  cases kind <;> cases kind' <;> first | rfl | (revert h; decide)

namespace Statement

variable {depth depth' : Nat} {s t : Statement}

mutual

/-- A statement and, after it, those nested in it at any depth, each with the number of statements
    around it. -/
def placed (depth : Nat) : Statement → List (Nat × Statement)
  | mk kind fields body => (depth, mk kind fields body) :: bodyPlaced (depth + 1) body

def bodyPlaced (depth : Nat) : Option (List Statement) → List (Nat × Statement)
  | none => []
  | some body => itemsPlaced depth body

def itemsPlaced (depth : Nat) : List Statement → List (Nat × Statement)
  | [] => []
  | statement :: rest => statement.placed depth ++ itemsPlaced depth rest

end

/-- The line of a statement at a depth: two blanks for each level, its kind, and its fields, each as
    its name, an equality sign and its value. -/
def line (depth : Nat) (s : Statement) : String :=
  .ofList (List.replicate (2 * depth) ' ') ++ s.kind.name
    ++ (if s.fields.isEmpty then "" else
      " " ++ " ".intercalate (s.fields.map fun field => field.1.name ++ "=" ++ field.2.display))

mutual

/-- The lines of a statement are those of the statements placed in it. -/
theorem lines_eq_map_placed (depth : Nat) :
    (s : Statement) → s.lines depth = (s.placed depth).map fun p => p.2.line p.1
  | mk kind fields body => by
    rw [lines, placed, List.map_cons, bodyLines_eq_map_placed]
    rfl

theorem bodyLines_eq_map_placed (depth : Nat) : (body : Option (List Statement)) →
    bodyLines depth body = (bodyPlaced depth body).map fun p => p.2.line p.1
  | none => rfl
  | some items => itemLines_eq_map_placed depth items

theorem itemLines_eq_map_placed (depth : Nat) : (items : List Statement) →
    itemLines depth items = (itemsPlaced depth items).map fun p => p.2.line p.1
  | [] => rfl
  | item :: items => by
    rw [itemLines, itemsPlaced, List.map_append, lines_eq_map_placed, itemLines_eq_map_placed]

end

mutual

/-- The statements placed in a statement are itself and those nested in it, in order. -/
theorem map_snd_placed (depth : Nat) :
    (s : Statement) → (s.placed depth).map Prod.snd = s.withNested
  | mk kind fields body => by rw [placed, withNested, List.map_cons, map_snd_bodyPlaced]

theorem map_snd_bodyPlaced (depth : Nat) : (body : Option (List Statement)) →
    (bodyPlaced depth body).map Prod.snd = bodyStatements body
  | none => rfl
  | some items => map_snd_itemsPlaced depth items

theorem map_snd_itemsPlaced (depth : Nat) : (items : List Statement) →
    (itemsPlaced depth items).map Prod.snd = itemStatements items
  | [] => rfl
  | item :: items => by
    rw [itemsPlaced, itemStatements, List.map_append, map_snd_placed, map_snd_itemsPlaced]

end

theorem oneLine_field (field : Parameter × Value) :
    OneLine (field.1.name ++ "=" ++ field.2.display) :=
  (field.1.oneLine_name.append (by decide)).append field.2.oneLine_display

/-- A statement is on one line, whatever its fields hold. -/
theorem oneLine_line (depth : Nat) (s : Statement) : OneLine (s.line depth) := by
  refine ((oneLine_replicate (by decide)).append s.kind.oneLine_name).append ?_
  split_ifs
  · decide
  · refine (show OneLine " " by decide).append (oneLine_intercalate (by decide) ?_)
    exact List.forall_mem_map.2 fun field _ => oneLine_field field

/-- Behind the blanks of its depth and the name of a kind, a line has nothing or a blank and what
    comes after it. -/
theorem exists_toList_line (depth : Nat) (s : Statement) : ∃ rest : List Char,
    (∀ c ∈ rest.head?, c = ' ') ∧
      (s.line depth).toList = List.replicate (2 * depth) ' ' ++ (s.kind.name.toList ++ rest) := by
  rw [line, String.toList_append, String.toList_append, String.toList_ofList, List.append_assoc]
  refine ⟨_, ?_, rfl⟩
  split_ifs
  · nofun
  · rw [String.toList_append]
    rintro c ⟨⟩
    rfl

/-- A line starts with two blanks for each level. -/
theorem takeWhile_line (depth : Nat) (s : Statement) :
    (s.line depth).toList.takeWhile (· = ' ') = List.replicate (2 * depth) ' ' := by
  obtain ⟨rest, -, hline⟩ := exists_toList_line depth s
  obtain ⟨first, others, hname⟩ := List.exists_cons_of_ne_nil s.kind.toList_name_ne_nil
  have hfirst : first ≠ ' ' := by
    rintro rfl
    exact s.kind.blank_not_mem_name (hname ▸ List.mem_cons_self)
  rw [hline, hname]
  refine takeWhile_append_of_boundary (by simp) ?_
  rintro c ⟨⟩
  exact decide_eq_false hfirst

/-- Behind the blanks at its start, the first word of a line is the name of the kind. -/
theorem takeWhile_dropWhile_line (depth : Nat) (s : Statement) :
    ((s.line depth).toList.dropWhile (· = ' ')).takeWhile (· ≠ ' ') = s.kind.name.toList := by
  obtain ⟨rest, hrest, hline⟩ := exists_toList_line depth s
  have hsplit := List.takeWhile_append_dropWhile (p := (· = ' ')) (l := (s.line depth).toList)
  rw [takeWhile_line, hline, List.append_cancel_left_eq] at hsplit
  rw [hline, hsplit]
  refine takeWhile_append_of_boundary ?_ ?_
  · intro c hc
    exact decide_eq_true fun heq => s.kind.blank_not_mem_name (heq ▸ hc)
  · intro c hc
    exact decide_eq_false (not_not_intro (hrest c hc))

/-- A line shows how deep a statement is nested and which kind it has. -/
theorem depth_kind_of_line (hline : s.line depth = t.line depth') :
    depth = depth' ∧ s.kind = t.kind := by
  constructor
  · have hblanks := takeWhile_line depth s
    rw [hline, takeWhile_line] at hblanks
    have hlength := congrArg List.length hblanks
    simp only [List.length_replicate] at hlength
    omega
  · have hname := takeWhile_dropWhile_line depth s
    rw [hline, takeWhile_dropWhile_line] at hname
    exact Kind.name_inj (String.toList_inj.1 hname.symm)

/-- Statements of one kind in which statements are nested in the same way, whatever their fields
    are. No body and an empty one are the same here. -/
inductive SameTree : Statement → Statement → Prop
  | mk {kind : Kind} {fields fields' : List (Parameter × Value)}
    {body body' : Option (List Statement)}
    (nested : List.Forall₂ SameTree (body.getD []) (body'.getD [])) :
    SameTree (mk kind fields body) (mk kind fields' body')

/-- What the line of a statement tells of it. -/
def mark (place : Nat × Statement) : Nat × Kind := (place.1, place.2.kind)

/-- What follows is nothing or the mark of a statement that lies above a depth. -/
def EndsAbove (depth : Nat) (marks : List (Nat × Kind)) : Prop := ∀ m ∈ marks.head?, m.1 < depth

theorem bodyPlaced_eq (depth : Nat) (body : Option (List Statement)) :
    bodyPlaced depth body = itemsPlaced depth (body.getD []) := by
  cases body <;> rfl

theorem head?_marks_cons (depth : Nat) (item : Statement) (items : List Statement)
    (rest : List (Nat × Kind)) :
    ((itemsPlaced depth (item :: items)).map mark ++ rest).head? = some (depth, item.kind) := by
  obtain ⟨kind, fields, body⟩ := item
  rfl

/-- Statements at a depth do not end above it. -/
theorem not_endsAbove_marks_cons (item : Statement) (items : List Statement)
    (rest : List (Nat × Kind)) :
    ¬ EndsAbove depth ((itemsPlaced depth (item :: items)).map mark ++ rest) := by
  intro habove
  exact Nat.lt_irrefl depth (habove _ (head?_marks_cons depth item items rest))

/-- In front of what ends above a depth, statements at that depth still end above the next one. -/
theorem EndsAbove.marks_append {rest : List (Nat × Kind)} (hrest : EndsAbove depth rest)
    (items : List Statement) :
    EndsAbove (depth + 1) ((itemsPlaced depth items).map mark ++ rest) := by
  intro m hm
  cases items with
  | nil => exact Nat.lt_succ_of_lt (hrest m hm)
  | cons item items =>
    rw [head?_marks_cons] at hm
    cases hm
    exact Nat.lt_succ_self depth

/-- If the marks of each statement in a row tell its tree, those of the row tell all the trees. The
    row ends where a statement around it goes on. -/
theorem sameTrees_of_marks {items others : List Statement} {rest rest' : List (Nat × Kind)}
    (hitems : ∀ item ∈ items, ∀ (other : Statement) (rest rest' : List (Nat × Kind)),
      EndsAbove (depth + 1) rest → EndsAbove (depth + 1) rest' →
      (item.placed depth).map mark ++ rest = (other.placed depth).map mark ++ rest' →
      item.SameTree other ∧ rest = rest')
    (hrest : EndsAbove depth rest) (hrest' : EndsAbove depth rest')
    (hmarks : (itemsPlaced depth items).map mark ++ rest =
      (itemsPlaced depth others).map mark ++ rest') :
    List.Forall₂ SameTree items others ∧ rest = rest' := by
  induction items generalizing others with
  | nil =>
    cases others with
    | nil => exact ⟨.nil, hmarks⟩
    | cons other others =>
      have hfirst : rest = (itemsPlaced depth (other :: others)).map mark ++ rest' := hmarks
      exact absurd (hfirst ▸ hrest) (not_endsAbove_marks_cons other others rest')
  | cons item items ih =>
    obtain ⟨hitem, hlater⟩ := List.forall_mem_cons.1 hitems
    cases others with
    | nil =>
      have hfirst : (itemsPlaced depth (item :: items)).map mark ++ rest = rest' := hmarks
      exact absurd (hfirst ▸ hrest') (not_endsAbove_marks_cons item items rest)
    | cons other others =>
      rw [itemsPlaced, itemsPlaced, List.map_append, List.map_append, List.append_assoc,
        List.append_assoc] at hmarks
      obtain ⟨hsame, hmarks⟩ := hitem other _ _ (hrest.marks_append items)
        (hrest'.marks_append others) hmarks
      obtain ⟨hsames, hends⟩ := ih hlater hmarks
      exact ⟨.cons hsame hsames, hends⟩

/-- The marks of a statement and of those nested in it tell its tree. -/
theorem sameTree_of_marks (s : Statement) : ∀ (depth : Nat) (t : Statement)
    (rest rest' : List (Nat × Kind)), EndsAbove (depth + 1) rest → EndsAbove (depth + 1) rest' →
    (s.placed depth).map mark ++ rest = (t.placed depth).map mark ++ rest' →
    s.SameTree t ∧ rest = rest' := by
  induction s using Statement.induction with
  | mk kind fields body ih =>
    intro depth t rest rest' hrest hrest' hmarks
    obtain ⟨kind', fields', body'⟩ := t
    rw [placed, placed, List.map_cons, List.map_cons, List.cons_append, List.cons_append,
      bodyPlaced_eq, bodyPlaced_eq, List.cons.injEq] at hmarks
    obtain ⟨hmark, hmarks⟩ := hmarks
    obtain rfl : kind = kind' := congrArg Prod.snd hmark
    obtain ⟨hnested, hends⟩ :=
      sameTrees_of_marks (fun item hitem => ih item hitem (depth + 1)) hrest hrest' hmarks
    exact ⟨.mk hnested, hends⟩

end Statement

namespace Program

/-- The statements of a program at every depth, in the order in which a listing shows them, each
    with the number of statements around it. -/
def placed (program : Program) : List (Nat × Statement) := Statement.itemsPlaced 0 program

/-- Texts on one line each are found again between the line feeds. -/
theorem splitOn_join_lines {lines : List String} (hlines : ∀ line ∈ lines, OneLine line) :
    (String.join (lines.map (· ++ "\n"))).toList.splitOn '\n' =
      lines.map String.toList ++ [[]] := by
  induction lines with
  | nil => rfl
  | cons line lines ih =>
    obtain ⟨hline, hlines⟩ := List.forall_mem_cons.1 hlines
    have htext : (String.join ((line :: lines).map (· ++ "\n"))).toList =
        line.toList ++ '\n' :: (String.join (lines.map (· ++ "\n"))).toList := by
      simp [String.toList_join]
    rw [htext, List.splitOn_append_cons_self_of_not_mem hline, ih hlines, List.map_cons,
      List.cons_append]

/-- Between its line feeds, a listing has the lines of its statements. -/
theorem splitOn_listing (program : Program) : program.listing.toList.splitOn '\n' =
    (program.placed.map fun p => (p.2.line p.1).toList) ++ [[]] := by
  rw [listing, Statement.itemLines_eq_map_placed, splitOn_join_lines, List.map_map]
  · rfl
  · exact List.forall_mem_map.2 fun p _ => p.2.oneLine_line p.1

/-- Programs with the same listing have the same kinds at the same depths. -/
theorem marks_eq_of_listing {program other : Program} (hlisting : program.listing = other.listing) :
    program.placed.map Statement.mark = other.placed.map Statement.mark := by
  have hlines := splitOn_listing other
  rw [← hlisting, splitOn_listing, List.append_cancel_right_eq] at hlines
  rw [← List.forall₂_eq_eq_eq, List.forall₂_map_left_iff, List.forall₂_map_right_iff] at hlines ⊢
  refine hlines.imp fun p q hline => ?_
  obtain ⟨hdepth, hkind⟩ := Statement.depth_kind_of_line (String.toList_inj.1 hline)
  exact Prod.ext hdepth hkind

/-- Programs with the same listing have the same statements in the same places. -/
theorem sameTrees_of_listing {program other : Program}
    (hlisting : program.listing = other.listing) :
    List.Forall₂ Statement.SameTree program other := by
  have hmarks := congrArg (· ++ []) (marks_eq_of_listing hlisting)
  have hend : Statement.EndsAbove 0 [] := nofun
  exact (Statement.sameTrees_of_marks (fun item _ => item.sameTree_of_marks 0) hend hend hmarks).1

example : listing [.mk .ifThen [(.condition, .text "a\nb")]
      (some [.mk .captureImage [(.compress, .boolean true)] none]), .mk .waitSeconds [] none] =
    "if condition=\"a\\nb\"\n  capture-image compress=true\nwait-sec\n" := by decide

end Program

end CommandBlocks
