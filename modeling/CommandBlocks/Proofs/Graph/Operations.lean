import CommandBlocks.Graph.Connecting
import CommandBlocks.Proofs.Graph.Counting

namespace CommandBlocks

/-- A block keeps values only for parameters that its kind declares. -/
def Block.Declared (block : Block) : Prop :=
  ∀ parameter value, block.values.get? parameter = some value →
    (block.kind.inputNamed? parameter.name).isSome = true

/-- A kind declares a parameter of a name. -/
def Kind.Declares (kind : Kind) (name : String) : Prop :=
  ∃ input ∈ kind.inputs, input.parameter.name = name

instance (kind : Kind) (name : String) : Decidable (kind.Declares name) :=
  inferInstanceAs (Decidable (∃ input ∈ kind.inputs, input.parameter.name = name))

/-- A kind has no input of a name exactly if it does not declare the name. -/
theorem Kind.inputNamed?_eq_none_iff {kind : Kind} {name : String} :
    kind.inputNamed? name = none ↔ ¬ kind.Declares name := by
  simp [inputNamed?, Declares]

theorem Parameter.ofName?_eq_some_iff {parameter : Parameter} {name : String} :
    ofName? name = some parameter ↔ parameter.name = name := by
  constructor
  · intro hsome
    have hfound := List.find?_some hsome
    exact eq_of_beq hfound
  · rintro rfl
    cases parameter <;> rfl

/-- What a kind declares under a name has that name. -/
theorem Kind.name_of_inputNamed? {kind : Kind} {name : String} {input : Input}
    (hinput : kind.inputNamed? name = some input) : input.parameter.name = name := by
  have hfound := List.find?_some hinput
  exact eq_of_beq hfound

/-- What comes next after all identifiers of a table is not one of them. -/
theorem Table.get?_eq_none_of_below {named : Named} {α : Type} {table : Table (Id named) α}
    {next : Id named} (hbelow : ∀ x ∈ table.entries, x.1.number < next.number) :
    table.get? next = none := by
  rw [Option.eq_none_iff_forall_ne_some]
  intro a hget
  exact absurd (hbelow (next, a) (mem_entries_iff.2 hget)) (UInt64.lt_irrefl _)

/-- A value under a declared name leaves a block with declared values only. -/
theorem Block.Declared.insert {block : Block} (hblock : block.Declared) {name : String}
    {input : Input} (hinput : block.kind.inputNamed? name = some input) (value : Value) :
    ({ block with values := block.values.insert input.parameter value } : Block).Declared := by
  intro parameter stored hget
  obtain ⟨rfl, -⟩ | ⟨-, hold⟩ := Table.get?_insert_eq_some.1 hget
  · rw [Kind.name_of_inputNamed? hinput, hinput]
    rfl
  · exact hblock parameter stored hold

theorem Block.Declared.erase {block : Block} (hblock : block.Declared) (erased : Parameter) :
    ({ block with values := block.values.erase erased } : Block).Declared := by
  intro parameter stored hget
  exact hblock parameter stored (Table.get?_erase_eq_some.1 hget).2

namespace Graph

variable {g h : Graph}

/-- One graph has other values than another for one block, which are declared if those were. -/
def Revalues (g h : Graph) : Prop :=
  ∃ id block values, g.blocks.get? id = some block ∧
    (block.Declared → ({ block with values } : Block).Declared) ∧
    h = { g with blocks := g.blocks.insert id { block with values } }

theorem Revalues.contains_eq (hvalues : g.Revalues h) (id : BlockId) :
    h.blocks.contains id = g.blocks.contains id := by
  obtain ⟨other, block, values, hget, -, rfl⟩ := hvalues
  rw [Bool.eq_iff_iff, Table.contains_insert, or_iff_right_of_imp]
  rintro rfl
  exact Table.contains_of_get? hget

/-- A value is set if the block is there and its kind has an input of the name. -/
theorem setValue_eq_ok_iff {id : BlockId} {name : String} {value : Value} :
    g.setValue id name value = .ok h ↔ ∃ block input,
      g.blocks.get? id = some block ∧ block.kind.inputNamed? name = some input ∧
        { g with
          blocks := g.blocks.insert id
            { block with values := block.values.insert input.parameter value } } = h := by
  unfold setValue
  cases g.blocks.get? id with
  | none => simp
  | some block =>
    cases hinput : block.kind.inputNamed? name with
    | none => simp [hinput]
    | some input => simp [hinput]

/-- Setting a value changes values only. -/
theorem revalues_of_setValue {id : BlockId} {name : String} {value : Value}
    (hset : g.setValue id name value = .ok h) : g.Revalues h := by
  obtain ⟨block, input, hget, hinput, rfl⟩ := setValue_eq_ok_iff.1 hset
  exact ⟨id, block, _, hget, fun hblock => hblock.insert hinput value, rfl⟩

theorem revalues_of_clearValue {id : BlockId} {name : String} {value : Option Value}
    (hclear : g.clearValue id name = .ok (value, h)) : g.Revalues h := by
  unfold clearValue at hclear
  cases hget : g.blocks.get? id with
  | none => simp [hget] at hclear
  | some block =>
    cases hname : Parameter.ofName? name with
    | none =>
      simp only [hget, hname, Except.ok.injEq, Prod.mk.injEq] at hclear
      obtain ⟨-, rfl⟩ := hclear
      refine ⟨id, block, block.values, hget, fun hblock => hblock, ?_⟩
      rw [Table.insert_eq_self hget]
    | some parameter =>
      simp only [hget, hname, Except.ok.injEq, Prod.mk.injEq] at hclear
      exact ⟨id, block, _, hget, fun hblock => hblock.erase parameter, hclear.2.symm⟩

/-- Removing a block takes away the links at it, and counts again at least the blocks that lose a
    nested one. -/
theorem of_removeBlock {id : BlockId} {block : Block}
    (hremove : g.removeBlock id = .ok (block, h)) :
    ∃ links lost,
      h = ⟨recountWhere (g.blocks.erase id) links lost, links, g.nextBlock, g.nextLink⟩ ∧
      (∀ k link, links.get? k = some link ↔
        g.links.get? k = some link ∧ link.source ≠ id ∧ link.target ≠ id) ∧
      ∀ k link, g.links.get? k = some link → (link.source = id ∨ link.target = id) →
        link.handle = .child → lost link.source = true := by
  unfold removeBlock at hremove
  cases hget : g.blocks.get? id with
  | none => simp [hget] at hremove
  | some found =>
    simp only [hget, Except.ok.injEq, Prod.mk.injEq] at hremove
    obtain ⟨-, rfl⟩ := hremove
    refine ⟨_, _, rfl, ?_, ?_⟩
    · intro k link
      simp [Table.get?_filter_eq_some]
    · intro k link hlink htouches hhandle
      rw [List.any_eq_true]
      exact ⟨link, Table.mem_values.2 ⟨k, hlink⟩, by simp [htouches, hhandle]⟩

theorem exists_removeBlock {id : BlockId} {block : Block} (hget : g.blocks.get? id = some block) :
    ∃ h, g.removeBlock id = .ok (block, h) := by
  unfold removeBlock
  rw [hget]
  exact ⟨_, rfl⟩

/-- Removing a block leaves a well-formed graph. -/
theorem WellFormed.removeBlock (hg : g.WellFormed) {id : BlockId} {block : Block}
    (hremove : g.removeBlock id = .ok (block, h)) : h.WellFormed := by
  obtain ⟨links, lost, rfl, hlinks, hlost⟩ := of_removeBlock hremove
  apply wellFormed_recountWhere
  · intro k link hlink
    obtain ⟨hold, hsource, htarget⟩ := (hlinks k link).1 hlink
    rw [Table.contains, Table.contains, Table.get?_erase_of_ne _ hsource,
      Table.get?_erase_of_ne _ htarget]
    exact ⟨hg.contains_source hold, hg.contains_target hold⟩
  · intro other block hother hnot
    rw [hg.childCount_eq (Table.get?_erase_eq_some.1 hother).2]
    apply nestedIn_congr
    rintro k link rfl hhandle
    rw [hlinks]
    refine ⟨fun hold => ⟨hold, ?_⟩, fun hnew => hnew.1⟩
    -- a link that was lost would have its source counted again
    by_contra hnone
    have htouches : link.source = id ∨ link.target = id := by
      by_contra hapart
      exact hnone (not_or.1 hapart)
    rw [hlost k link hold htouches hhandle] at hnot
    cases hnot

theorem drawLink_eq (g : Graph) (link : Link) :
    (g.drawLink link).2 =
      ⟨recountWhere g.blocks (g.links.insert g.nextLink link) fun id =>
          decide (link.handle = .child) && id == link.source,
        g.links.insert g.nextLink link, g.nextBlock, g.nextLink.next⟩ := by
  rw [drawLink, ite_recountWhere]

/-- Whatever the rules for links say, a link drawn between blocks fits them. -/
theorem WellFormed.drawLink (hg : g.WellFormed) (hfresh : g.links.get? g.nextLink = none)
    {link : Link} (hsource : g.blocks.contains link.source = true)
    (htarget : g.blocks.contains link.target = true) : (g.drawLink link).2.WellFormed := by
  rw [drawLink_eq]
  apply wellFormed_recountWhere
  · intro k other hget
    obtain ⟨-, rfl⟩ | ⟨-, hold⟩ := Table.get?_insert_eq_some.1 hget
    · exact ⟨hsource, htarget⟩
    · exact ⟨hg.contains_source hold, hg.contains_target hold⟩
  · intro id block hget hnot
    -- the new link adds to no count but that of its source, which is counted again
    rw [hg.childCount_eq hget, nestedIn_insert hfresh, if_neg, Nat.add_zero]
    rintro ⟨rfl, hhandle⟩
    simp [hhandle] at hnot

/-- A link that is drawn makes its source lead to its target, and nothing else. -/
theorem leads_drawLink_iff {link : Link} (hfresh : g.links.get? g.nextLink = none)
    {source target : BlockId} :
    (g.drawLink link).2.Leads source target ↔
      g.Leads source target ∨ (source = link.source ∧ target = link.target) := by
  have hlinks : (g.drawLink link).2.links = g.links.insert g.nextLink link := rfl
  simp only [Leads, hlinks, Table.get?_insert_eq_some]
  constructor
  · intro hleads
    obtain ⟨k, other, ⟨rfl, rfl⟩ | ⟨-, hget⟩, rfl, rfl⟩ := hleads
    · exact .inr ⟨rfl, rfl⟩
    · exact .inl ⟨k, other, hget, rfl, rfl⟩
  · intro hleads
    obtain ⟨k, other, hget, rfl, rfl⟩ | ⟨rfl, rfl⟩ := hleads
    · have hold : k ≠ g.nextLink := by
        rintro rfl
        rw [hfresh] at hget
        cases hget
      exact ⟨k, other, .inr ⟨hold, hget⟩, rfl, rfl⟩
    · exact ⟨g.nextLink, link, .inl ⟨rfl, rfl⟩, rfl, rfl⟩

/-- Removing a link takes it out of the table and counts the children of its source again. -/
theorem of_removeLink {id : LinkId} {link : Link} (hremove : g.removeLink id = .ok (link, h)) :
    g.links.get? id = some link ∧
      h = ⟨recountWhere g.blocks (g.links.erase id) fun other =>
          decide (link.handle = .child) && other == link.source,
        g.links.erase id, g.nextBlock, g.nextLink⟩ := by
  unfold removeLink at hremove
  cases hget : g.links.get? id with
  | none => simp [hget] at hremove
  | some found =>
    simp only [hget, ite_recountWhere, Except.ok.injEq, Prod.mk.injEq] at hremove
    obtain ⟨rfl, rfl⟩ := hremove
    exact ⟨rfl, rfl⟩

theorem exists_removeLink {id : LinkId} {link : Link} (hget : g.links.get? id = some link) :
    ∃ h, g.removeLink id = .ok (link, h) := by
  unfold removeLink
  rw [hget]
  exact ⟨_, rfl⟩

theorem WellFormed.removeLink (hg : g.WellFormed) {id : LinkId} {link : Link}
    (hremove : g.removeLink id = .ok (link, h)) : h.WellFormed := by
  obtain ⟨hremoved, rfl⟩ := of_removeLink hremove
  apply wellFormed_recountWhere
  · intro k other hget
    have hold := (Table.get?_erase_eq_some.1 hget).2
    exact ⟨hg.contains_source hold, hg.contains_target hold⟩
  · intro other block hget hnot
    rw [hg.childCount_eq hget]
    apply nestedIn_congr
    rintro k kept rfl hhandle
    rw [Table.get?_erase_eq_some]
    refine ⟨fun hold => ⟨?_, hold⟩, fun hnew => hnew.2⟩
    -- the removed link would have its source counted again
    rintro rfl
    obtain rfl : kept = link := Option.some_inj.1 (hold.symm.trans hremoved)
    simp [hhandle] at hnot

end Graph

end CommandBlocks
