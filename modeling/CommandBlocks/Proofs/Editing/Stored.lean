import CommandBlocks.Proofs.Editing.Saving

namespace CommandBlocks.Graph

variable {g h : Graph}

/-- A value is kept for some parameter of some block. -/
def Stores (g : Graph) (v : Value) : Prop :=
  ∃ id block parameter,
    g.blocks.get? id = some block ∧ block.values.get? parameter = some v

/-- A graph can be written if each of its values can. -/
theorem writable_iff : g.Writable ↔ ∀ v, g.Stores v → v.Writable := by
  constructor
  · rintro hg v ⟨id, block, parameter, hblock, hvalue⟩
    exact hg (id, block) (Table.mem_entries_iff.2 hblock) (parameter, v)
      (Table.mem_entries_iff.2 hvalue)
  · intro hg x hx y hy
    exact hg y.2 ⟨x.1, x.2, y.1, Table.mem_entries_iff.1 hx, Table.mem_entries_iff.1 hy⟩

/-- Counting again leaves the values. -/
theorem Stores.of_recountWhere {blocks : Table BlockId Block} {links : Table LinkId Link}
    {p : BlockId → Bool} {nextBlock : BlockId} {nextLink : LinkId}
    (hblocks : ∀ id block, blocks.get? id = some block → g.blocks.get? id = some block) {v : Value}
    (hv : Stores ⟨recountWhere blocks links p, links, nextBlock, nextLink⟩ v) : g.Stores v := by
  obtain ⟨id, block, parameter, hblock, hvalue⟩ := hv
  obtain ⟨old, hold, -, hvalues, -⟩ := of_get?_recountWhere hblock
  exact ⟨id, old, parameter, hblocks id old hold, hvalues ▸ hvalue⟩

/-- After a value was set, what is stored is that value or was stored before. -/
theorem stores_of_setValue {id : BlockId} {name : String} {value v : Value}
    (hset : g.setValue id name value = .ok h) (hv : h.Stores v) : g.Stores v ∨ v = value := by
  obtain ⟨block, input, hget, -, rfl⟩ := setValue_eq_ok_iff.1 hset
  obtain ⟨other, found, parameter, hfound, hvalue⟩ := hv
  obtain ⟨rfl, rfl⟩ | ⟨-, hold⟩ := Table.get?_insert_eq_some.1 hfound
  · obtain ⟨-, rfl⟩ | ⟨-, hkept⟩ := Table.get?_insert_eq_some.1 hvalue
    · exact .inr rfl
    · exact .inl ⟨_, block, parameter, hget, hkept⟩
  · exact .inl ⟨other, found, parameter, hold, hvalue⟩

/-- After a value was cleared, what is stored was stored before. -/
theorem stores_of_clearValue {id : BlockId} {name : String} {cleared : Option Value} {v : Value}
    (hclear : g.clearValue id name = .ok (cleared, h)) (hv : h.Stores v) : g.Stores v := by
  unfold clearValue at hclear
  cases hget : g.blocks.get? id with
  | none => simp [hget] at hclear
  | some block =>
    cases hname : Parameter.ofName? name with
    | none =>
      simp only [hget, hname, Except.ok.injEq, Prod.mk.injEq] at hclear
      rwa [hclear.2]
    | some erased =>
      simp only [hget, hname, Except.ok.injEq, Prod.mk.injEq] at hclear
      rw [← hclear.2] at hv
      obtain ⟨other, found, parameter, hfound, hvalue⟩ := hv
      obtain ⟨rfl, rfl⟩ | ⟨-, hold⟩ := Table.get?_insert_eq_some.1 hfound
      · exact ⟨_, block, parameter, hget, (Table.get?_erase_eq_some.1 hvalue).2⟩
      · exact ⟨other, found, parameter, hold, hvalue⟩

/-- After an edit, every value was there before or is the one that was entered. -/
theorem stores_of_makes {edit : Edit} (hg : g.Sound) (hmakes : g.Makes edit h) {v : Value}
    (hv : h.Stores v) : g.Stores v ∨ ∃ id name, edit = .setValue id name v := by
  cases hmakes with
  | addBlock kind =>
    obtain ⟨id, block, parameter, hblock, hvalue⟩ := hv
    obtain ⟨rfl, rfl⟩ | ⟨-, hold⟩ := Table.get?_insert_eq_some.1 hblock
    · cases hvalue
    · exact .inl ⟨id, block, parameter, hold, hvalue⟩
  | removeBlock hremove =>
    obtain ⟨links, lost, rfl, -⟩ := of_removeBlock hremove
    exact .inl (Stores.of_recountWhere (fun _ _ hget => (Table.get?_erase_eq_some.1 hget).2) hv)
  | setValue hset =>
    obtain hold | rfl := stores_of_setValue hset hv
    · exact .inl hold
    · exact .inr ⟨_, _, rfl⟩
  | clearValue hclear => exact .inl (stores_of_clearValue hclear hv)
  | addLink hfits =>
    rw [drawLink_eq] at hv
    exact .inl (Stores.of_recountWhere (fun _ _ hget => hget) hv)
  | removeLink hremove =>
    obtain ⟨-, rfl⟩ := of_removeLink hremove
    exact .inl (Stores.of_recountWhere (fun _ _ hget => hget) hv)
  | recount =>
    rw [hg.recount_eq] at hv
    exact .inl hv
  | reload hrestore =>
    rw [hg.eq_of_restore_snapshot hrestore] at hv
    exact .inl hv

end CommandBlocks.Graph
