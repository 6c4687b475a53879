namespace CommandBlocks

/-- What an identifier names. -/
inductive Named where
  | block
  | link

/-- An identifier, a number of 64 bits. Identifiers are handed out in ascending order, so their
    order is the order of creation. -/
structure Id (named : Named) where
  number : UInt64
  deriving DecidableEq, Repr, Inhabited

abbrev BlockId := Id .block
abbrev LinkId := Id .link

namespace Id

variable {named : Named}

theorem number_inj {i j : Id named} (h : i.number = j.number) : i = j := by
  cases i; cases j; cases h; rfl

/-- Identifiers are ordered by their numbers. -/
instance : Ord (Id named) := ⟨fun i j => compare i.number j.number⟩

instance : Std.TransOrd (Id named) where
  eq_swap := Std.OrientedOrd.eq_swap (α := UInt64)
  isLE_trans := Std.TransOrd.isLE_trans (α := UInt64)

instance : Std.LawfulEqOrd (Id named) where
  compare_self := Std.ReflOrd.compare_self (α := UInt64)
  eq_of_compare h := number_inj (Std.LawfulEqOrd.eq_of_compare (α := UInt64) h)

/-- The identifier handed out after this one. -/
def next (i : Id named) : Id named := ⟨i.number + 1⟩

end Id

/-- How messages name a block. -/
def Id.blockText (id : BlockId) : String := s!"#{id.number}"

/-- How messages name a link. -/
def Id.linkText (id : LinkId) : String := s!"e{id.number}"

end CommandBlocks
