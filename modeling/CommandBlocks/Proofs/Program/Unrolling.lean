import CommandBlocks.Proofs.Program.Coverage

namespace CommandBlocks.Graph

variable {g : Graph} {options : Options}

/-- A program is what some blocks, one after the other, unroll to; the order names the blocks of its
    statements as a listing shows them. Identifiers of no block give nothing. -/
inductive Unrolls (g : Graph) (options : Options) :
    List BlockId → List BlockId → Program → Prop
  | nil : Unrolls g options [] [] []
  | pass {id ids order program} (hget : g.blocks.get? id = none)
      (hrest : Unrolls g options ids order program) : Unrolls g options (id :: ids) order program
  | block {id ids block fields inner body later rest} (hget : g.blocks.get? id = some block)
      (hfields : block.fields options id = .ok fields)
      (hbody : Unrolls g options (g.children id) inner body)
      (hrest : Unrolls g options ((g.successor? id).toList ++ ids) later rest) :
      Unrolls g options (id :: ids) (id :: inner ++ later)
        (.mk block.kind fields (if body.isEmpty then none else some body) :: rest)

/-- An unrolled program has the statements of the blocks that were taken, in their order. -/
theorem Unrolls.statements {starts order : List BlockId} {program : Program}
    (hunrolls : g.Unrolls options starts order program) :
    List.Forall₂ (g.IsStatementOf options) order program.statements := by
  induction hunrolls with
  | nil => exact .nil
  | pass _ _ ih => exact ih
  | @block id ids block fields inner body later rest hget hfields _ _ ihBody ihRest =>
    rw [Program.statements, Statement.itemStatements, Statement.withNested,
      Statement.bodyStatements_of_isEmpty, List.cons_append, List.cons_append]
    exact .cons ⟨block, hget, rfl, hfields⟩ (List.rel_append ihBody ihRest)

/-- From the statements complete on the innermost level, the open statements around it are finished
    to a program: what waits beside each of them is unrolled. -/
private inductive Finishes (g : Graph) (options : Options) :
    List Statement → List OpenStatement → List BlockId → Program → Prop
  | nil {complete} : Finishes g options complete [] [] complete.reverse
  | cons {complete o opened now part later program}
      (hnow : g.Unrolls options ((g.successor? o.id).toList ++ o.pending) now part)
      (hlater : Finishes g options (part.reverse ++ o.close complete :: o.complete) opened later
        program) :
      Finishes g options complete (o :: opened) (now ++ later) program

/-- What putting a program together gives is the graph unrolled, behind what was complete before. -/
private theorem finishes_of_build {fresh pending : List BlockId} {complete : List Statement}
    {opened : List OpenStatement} {program : Program} (hfresh : fresh.Nodup)
    (hok : g.build options fresh pending complete opened = .ok program) :
    ∃ now part later, g.Unrolls options pending now part ∧
      g.Finishes options (part.reverse ++ complete) opened later program ∧
      (now ++ later).Nodup ∧ now ++ later ⊆ fresh := by
  fun_induction build g options fresh pending complete opened with
  | case1 fresh complete id pending opened hget ih =>
    obtain ⟨now, part, later, hnow, hrest⟩ := ih hfresh hok
    exact ⟨now, part, later, .pass hget hnow, hrest⟩
  | case2 => cases hok
  | case3 fresh complete id pending opened block hget hmem fields hfields ih =>
    obtain ⟨inner, body, outer, hbody, hfinishes, hnodup, hsub⟩ := ih (hfresh.erase id) hok
    rw [List.append_nil] at hfinishes
    -- what was open around the block's body goes on with the block that runs next
    cases hfinishes with
    | @cons _ _ _ now part later _ hrest hlater =>
      rw [OpenStatement.close_reverse] at hlater
      have hid : id ∉ inner ++ (now ++ later) := fun hid => hfresh.not_mem_erase (hsub hid)
      refine ⟨id :: inner ++ now, _, later, .block hget hfields hbody hrest, ?_, ?_, ?_⟩
      · simpa using hlater
      · simpa using List.nodup_cons.2 ⟨hid, hnodup⟩
      · simpa using List.cons_subset.2 ⟨hmem, List.Subset.trans hsub List.erase_subset⟩
  | case4 => cases hok
  | case5 fresh complete =>
    cases hok
    exact ⟨[], [], [], .nil, .nil, .nil, List.nil_subset _⟩
  | case6 fresh complete o opened ih =>
    obtain ⟨now, part, later, hnow, hlater, hnodup, hsub⟩ := ih hfresh hok
    exact ⟨[], [], now ++ later, .nil, .cons hnow hlater, hnodup, hsub⟩

/-- What is put together from some blocks is what they unroll to, and takes no block twice. -/
theorem unrolls_of_build {fresh starts : List BlockId} {program : Program} (hfresh : fresh.Nodup)
    (hok : g.build options fresh starts [] [] = .ok program) :
    ∃ order, g.Unrolls options starts order program ∧ order.Nodup ∧ order ⊆ fresh := by
  obtain ⟨order, part, later, hunrolls, hfinishes, hnodup, hsub⟩ := finishes_of_build hfresh hok
  cases hfinishes
  rw [List.append_nil] at hnodup hsub
  rw [List.append_nil, List.reverse_reverse]
  exact ⟨order, hunrolls, hnodup, hsub⟩

end CommandBlocks.Graph
