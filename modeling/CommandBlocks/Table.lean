namespace CommandBlocks

/-- A finite table from keys to values, listed in strictly ascending key order. -/
structure Table (κ α : Type) [Ord κ] where
  entries : List (κ × α)
  ascending : entries.Pairwise fun x y => compare x.1 y.1 = .lt

namespace Table

variable {κ α β : Type} [Ord κ]

protected theorem eq_of_entries {s t : Table κ α} (h : s.entries = t.entries) : s = t := by
  cases s; cases t; cases h; rfl

instance [DecidableEq κ] [DecidableEq α] : DecidableEq (Table κ α) := fun s t =>
  decidable_of_iff (s.entries = t.entries) ⟨Table.eq_of_entries, fun h => h ▸ rfl⟩

/-- The table without entries. -/
def empty : Table κ α := ⟨[], .nil⟩

instance : EmptyCollection (Table κ α) := ⟨empty⟩
instance : Inhabited (Table κ α) := ⟨empty⟩

/-- The number of entries. -/
def size (t : Table κ α) : Nat := t.entries.length

/-- The keys in ascending order. -/
def keys (t : Table κ α) : List κ := t.entries.map (·.1)

/-- The values in the order of their keys. -/
def values (t : Table κ α) : List α := t.entries.map (·.2)

private def lookup (k : κ) : List (κ × α) → Option α
  | [] => none
  | (k', a) :: rest => if compare k k' = .eq then some a else lookup k rest

/-- The value stored under a key. -/
def get? (t : Table κ α) (k : κ) : Option α := lookup k t.entries

@[simp] theorem get?_empty (k : κ) : (∅ : Table κ α).get? k = none := rfl

/-- Whether a key has a value. -/
def contains (t : Table κ α) (k : κ) : Bool := (t.get? k).isSome

/-- The entries whose key and value pass a test. -/
def filter (t : Table κ α) (p : κ → α → Bool) : Table κ α where
  entries := t.entries.filter fun x => p x.1 x.2
  ascending := t.ascending.sublist List.filter_sublist

/-- The table without the entry of one key. -/
def erase (t : Table κ α) (k : κ) : Table κ α := t.filter fun k' _ => compare k k' != .eq

/-- Every value replaced by a function of its key and itself. -/
def map (t : Table κ α) (f : κ → α → β) : Table κ β where
  entries := t.entries.map fun x => (x.1, f x.1 x.2)
  ascending := by
    rw [List.pairwise_map]
    exact t.ascending

/-- One entry put in its place in an ascending listing, replacing the entry of an equal key. -/
private def place (k : κ) (a : α) : List (κ × α) → List (κ × α)
  | [] => [(k, a)]
  | (k', a') :: rest =>
    match compare k k' with
    | .lt => (k, a) :: (k', a') :: rest
    | .eq => (k, a) :: rest
    | .gt => (k', a') :: place k a rest

private theorem key_of_mem_place {k : κ} {a : α} {x : κ × α} {l : List (κ × α)}
    (h : x ∈ place k a l) : x.1 = k ∨ x ∈ l := by
  induction l with
  | nil =>
    rw [place, List.mem_singleton] at h
    exact .inl (congrArg Prod.fst h)
  | cons y rest ih =>
    rw [place] at h
    split at h
    next hlt =>
      obtain rfl | hold := List.mem_cons.1 h
      · exact .inl rfl
      · exact .inr hold
    next heq =>
      obtain rfl | hold := List.mem_cons.1 h
      · exact .inl rfl
      · exact .inr (List.mem_cons_of_mem _ hold)
    next hgt =>
      obtain rfl | hplaced := List.mem_cons.1 h
      · exact .inr List.mem_cons_self
      · exact (ih hplaced).imp_right (List.mem_cons_of_mem _)

section Lookup

variable [Std.LawfulEqOrd κ]

/-- In a list with keys in ascending order, what is found under a key is its entry. -/
private theorem lookup_eq_some_iff {k : κ} {a : α} {l : List (κ × α)}
    (h : l.Pairwise fun x y => compare x.1 y.1 = .lt) : lookup k l = some a ↔ (k, a) ∈ l := by
  induction l with
  | nil => simp [lookup]
  | cons y rest ih =>
    obtain ⟨k', b⟩ := y
    rw [List.pairwise_cons] at h
    rw [lookup, List.mem_cons]
    split
    next heq =>
      obtain rfl := Std.LawfulEqOrd.eq_of_compare heq
      constructor
      · rintro ⟨⟩
        exact .inl rfl
      · rintro (h' | h')
        · cases h'
          rfl
        · have := h.1 _ h'
          simp [Std.ReflOrd.compare_self] at this
    next hne =>
      rw [ih h.2]
      constructor
      · exact .inr
      · rintro (h' | h')
        · cases h'
          simp [Std.ReflOrd.compare_self] at hne
        · exact h'

/-- The entries are what looking up keys finds. -/
theorem mem_entries_iff {t : Table κ α} {k : κ} {a : α} :
    (k, a) ∈ t.entries ↔ t.get? k = some a :=
  (lookup_eq_some_iff t.ascending).symm

/-- Lists with keys in ascending order are equal if they have the same entries. -/
private theorem eq_of_mem_iff {l m : List (κ × α)}
    (hl : l.Pairwise fun x y => compare x.1 y.1 = .lt)
    (hm : m.Pairwise fun x y => compare x.1 y.1 = .lt) (hiff : ∀ x, x ∈ l ↔ x ∈ m)
    (hflip : ∀ x y : κ × α, compare x.1 y.1 = .lt → compare y.1 x.1 ≠ .lt) : l = m := by
  induction l generalizing m with
  | nil =>
    cases m with
    | nil => rfl
    | cons y _ => exact absurd ((hiff y).2 (by simp)) (by simp)
  | cons x l ih =>
    cases m with
    | nil => exact absurd ((hiff x).1 (by simp)) (by simp)
    | cons y m =>
      rw [List.pairwise_cons] at hl hm
      have hxy : x = y := by
        rcases List.mem_cons.1 ((hiff x).1 (by simp)) with h | h
        · exact h
        · rcases List.mem_cons.1 ((hiff y).2 (by simp)) with h' | h'
          · exact h'.symm
          · exact absurd (hl.1 y h') (hflip _ _ (hm.1 x h))
      subst hxy
      congr 1
      refine ih hl.2 hm.2 fun z => ⟨fun hz => ?_, fun hz => ?_⟩
      · rcases List.mem_cons.1 ((hiff z).1 (List.mem_cons_of_mem _ hz)) with rfl | h
        · have := hl.1 z hz
          simp [Std.ReflOrd.compare_self] at this
        · exact h
      · rcases List.mem_cons.1 ((hiff z).2 (List.mem_cons_of_mem _ hz)) with rfl | h
        · have := hm.1 z hz
          simp [Std.ReflOrd.compare_self] at this
        · exact h

theorem get?_filter (t : Table κ α) (p : κ → α → Bool) (k : κ) :
    (t.filter p).get? k = (t.get? k).filter (p k) := by
  ext a
  rw [← mem_entries_iff, Option.filter_eq_some_iff, ← mem_entries_iff]
  simp [filter]

theorem get?_map (t : Table κ α) (f : κ → α → β) (k : κ) :
    (t.map f).get? k = (t.get? k).map (f k) := by
  ext b
  rw [← mem_entries_iff, Option.map_eq_some_iff]
  constructor
  · intro h
    obtain ⟨x, hx, heq⟩ := List.mem_map.1 h
    cases heq
    exact ⟨x.2, mem_entries_iff.1 hx, rfl⟩
  · rintro ⟨a, ha, rfl⟩
    exact List.mem_map.2 ⟨(k, a), mem_entries_iff.2 ha, rfl⟩

theorem get?_erase_self (t : Table κ α) (k : κ) : (t.erase k).get? k = none := by
  rw [erase, get?_filter]
  cases t.get? k <;> simp [Option.filter, Std.ReflOrd.compare_self]

/-- Taking a key away leaves the other keys alone. -/
theorem get?_erase_of_ne (t : Table κ α) {k k' : κ} (h : k' ≠ k) :
    (t.erase k).get? k' = t.get? k' := by
  rw [erase, get?_filter]
  have hne : compare k k' ≠ .eq := fun heq => h (Std.LawfulEqOrd.eq_of_compare heq).symm
  cases t.get? k' <;> simp [Option.filter, hne]

end Lookup

variable [Std.TransOrd κ] [Std.LawfulEqOrd κ]

/-- Placing an entry keeps the keys of a list in ascending order. -/
private theorem place_ascending {k : κ} {a : α} {l : List (κ × α)}
    (h : l.Pairwise fun x y => compare x.1 y.1 = .lt) :
    (place k a l).Pairwise fun x y => compare x.1 y.1 = .lt := by
  induction l with
  | nil => simp [place]
  | cons y rest ih =>
    rw [List.pairwise_cons] at h
    rw [place]
    split
    next hlt =>
      refine List.pairwise_cons.2 ⟨fun z hz => ?_, List.pairwise_cons.2 h⟩
      rcases List.mem_cons.1 hz with rfl | hz
      · exact hlt
      · exact Std.TransCmp.lt_trans hlt (h.1 z hz)
    next heq =>
      refine List.pairwise_cons.2 ⟨fun z hz => ?_, h.2⟩
      rw [Std.LawfulEqCmp.eq_of_compare heq]
      exact h.1 z hz
    next hgt =>
      refine List.pairwise_cons.2 ⟨fun z hz => ?_, ih h.2⟩
      rcases key_of_mem_place hz with hk | hz
      · rw [hk]
        exact Std.OrientedCmp.lt_of_gt hgt
      · exact h.1 z hz

/-- The table with one key set to a value, whatever it held before. -/
def insert (t : Table κ α) (k : κ) (a : α) : Table κ α where
  entries := place k a t.entries
  ascending := place_ascending t.ascending

/-- Placing an entry replaces the one of its key and keeps all others. -/
private theorem mem_place_iff {k : κ} {a : α} {x : κ × α} {l : List (κ × α)}
    (h : l.Pairwise fun x y => compare x.1 y.1 = .lt) :
    x ∈ place k a l ↔ x = (k, a) ∨ (x ∈ l ∧ x.1 ≠ k) := by
  induction l with
  | nil => simp [place]
  | cons y rest ih =>
    rw [List.pairwise_cons] at h
    rw [place]
    split
    next hlt =>
      have hne : ∀ z ∈ y :: rest, z.1 ≠ k := by
        rintro z hz rfl
        rcases List.mem_cons.1 hz with rfl | hz
        · simp [Std.ReflOrd.compare_self] at hlt
        · have := Std.TransCmp.lt_trans hlt (h.1 z hz)
          simp [Std.ReflOrd.compare_self] at this
      rw [List.mem_cons]
      exact or_congr_right ⟨fun hx => ⟨hx, hne x hx⟩, And.left⟩
    next heq =>
      obtain rfl := Std.LawfulEqOrd.eq_of_compare heq
      have hne : ∀ z ∈ rest, z.1 ≠ y.1 := by
        intro z hz hzk
        have := h.1 z hz
        simp [hzk, Std.ReflOrd.compare_self] at this
      rw [List.mem_cons, List.mem_cons]
      constructor
      · rintro (h' | h')
        · exact .inl h'
        · exact .inr ⟨.inr h', hne x h'⟩
      · rintro (h' | ⟨rfl | h', hx⟩)
        · exact .inl h'
        · exact absurd rfl hx
        · exact .inr h'
    next hgt =>
      have hne : y.1 ≠ k := by
        rintro rfl
        simp [Std.ReflOrd.compare_self] at hgt
      rw [List.mem_cons, List.mem_cons, ih h.2]
      constructor
      · rintro (rfl | h' | ⟨h', hx⟩)
        · exact .inr ⟨.inl rfl, hne⟩
        · exact .inl h'
        · exact .inr ⟨.inr h', hx⟩
      · rintro (h' | ⟨h' | h', hx⟩)
        · exact .inr (.inl h')
        · exact .inl h'
        · exact .inr (.inr ⟨h', hx⟩)

theorem get?_insert_self (t : Table κ α) (k : κ) (a : α) : (t.insert k a).get? k = some a :=
  mem_entries_iff.1 ((mem_place_iff t.ascending).2 (.inl rfl))

/-- Inserting under a key leaves the other keys alone. -/
theorem get?_insert_of_ne (t : Table κ α) {k k' : κ} (a : α) (h : k' ≠ k) :
    (t.insert k a).get? k' = t.get? k' := by
  ext b
  rw [← mem_entries_iff, ← mem_entries_iff]
  refine (mem_place_iff t.ascending).trans ?_
  simp [h]

/-- Two tables in which every key has the same value are equal. -/
theorem eq_of_get? {s t : Table κ α} (h : ∀ k, s.get? k = t.get? k) : s = t := by
  refine Table.eq_of_entries (eq_of_mem_iff s.ascending t.ascending (fun x => ?_) fun x y hlt => ?_)
  · exact (mem_entries_iff (k := x.1)).trans (h x.1 ▸ mem_entries_iff.symm)
  · rw [Std.OrientedOrd.eq_swap, hlt]
    decide

/-- The table of a list of pairs; of two pairs with one key the later is kept. -/
def ofList (l : List (κ × α)) : Table κ α := l.foldl (fun t x => t.insert x.1 x.2) empty

end Table

end CommandBlocks
