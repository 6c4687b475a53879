import CommandBlocks.Table
import Mathlib.Data.List.Nodup
import Mathlib.Data.List.Perm.Subperm

namespace CommandBlocks.Table

variable {κ α β : Type} [Ord κ]

theorem contains_iff {t : Table κ α} {k : κ} : t.contains k = true ↔ ∃ a, t.get? k = some a := by
  rw [contains, Option.isSome_iff_exists]

theorem contains_of_get? {t : Table κ α} {k : κ} {a : α} (hget : t.get? k = some a) :
    t.contains k = true :=
  contains_iff.2 ⟨a, hget⟩

theorem get?_eq_none_iff {t : Table κ α} {k : κ} : t.get? k = none ↔ ¬ t.contains k = true := by
  simp [contains]

theorem keys_map (t : Table κ α) (f : κ → α → β) : (t.map f).keys = t.keys := by
  rw [keys, map, List.map_map]
  rfl

variable [Std.LawfulEqOrd κ]

theorem mem_keys {t : Table κ α} {k : κ} : k ∈ t.keys ↔ t.contains k = true := by
  rw [keys, List.mem_map, contains_iff]
  constructor
  · rintro ⟨⟨_, a⟩, hmem, rfl⟩
    exact ⟨a, mem_entries_iff.1 hmem⟩
  · rintro ⟨a, hget⟩
    exact ⟨(k, a), mem_entries_iff.2 hget, rfl⟩

theorem mem_values {t : Table κ α} {a : α} : a ∈ t.values ↔ ∃ k, t.get? k = some a := by
  rw [values, List.mem_map]
  constructor
  · rintro ⟨⟨k, _⟩, hmem, rfl⟩
    exact ⟨k, mem_entries_iff.1 hmem⟩
  · rintro ⟨k, hget⟩
    exact ⟨(k, a), mem_entries_iff.2 hget, rfl⟩

/-- No key is listed twice. -/
theorem nodup_keys (t : Table κ α) : t.keys.Nodup := by
  rw [keys, List.Nodup, List.pairwise_map]
  refine t.ascending.imp fun {x y} hlt heq => ?_
  rw [heq, Std.ReflOrd.compare_self] at hlt
  cases hlt

theorem nodup_entries (t : Table κ α) : t.entries.Nodup :=
  List.Nodup.of_map _ t.nodup_keys

/-- A table whose keys all have the same values in another one is a part of it. -/
theorem entries_subperm_of_get? {s t : Table κ α}
    (hsub : ∀ k a, s.get? k = some a → t.get? k = some a) : s.entries.Subperm t.entries := by
  apply s.nodup_entries.subperm
  rintro ⟨k, a⟩ hmem
  exact mem_entries_iff.2 (hsub k a (mem_entries_iff.1 hmem))

/-- A part of a table is no larger than the table. -/
theorem size_le_of_get? {s t : Table κ α}
    (hsub : ∀ k a, s.get? k = some a → t.get? k = some a) : s.size ≤ t.size :=
  (entries_subperm_of_get? hsub).length_le

/-- The values of a part of a table are among those of the table, as often as they occur. -/
theorem values_subperm_of_get? {s t : Table κ α}
    (hsub : ∀ k a, s.get? k = some a → t.get? k = some a) : s.values.Subperm t.values := by
  obtain ⟨part, hperm, hpart⟩ := entries_subperm_of_get? hsub
  exact ⟨part.map (·.2), hperm.map _, hpart.map _⟩

/-- What is found in a filtered table is found in the table and passes the test. -/
theorem get?_filter_eq_some {t : Table κ α} {p : κ → α → Bool} {k : κ} {a : α} :
    (t.filter p).get? k = some a ↔ t.get? k = some a ∧ p k a = true := by
  rw [get?_filter, Option.filter_eq_some_iff]

theorem contains_map {t : Table κ α} {f : κ → α → β} {k : κ} :
    (t.map f).contains k = t.contains k := by
  rw [contains, get?_map, Option.isSome_map, contains]

theorem get?_erase [DecidableEq κ] (t : Table κ α) (k k' : κ) :
    (t.erase k).get? k' = if k' = k then none else t.get? k' := by
  by_cases heq : k' = k
  · rw [if_pos heq, heq, get?_erase_self]
  · rw [if_neg heq, get?_erase_of_ne t heq]

theorem get?_erase_eq_some [DecidableEq κ] {t : Table κ α} {k k' : κ} {a : α} :
    (t.erase k).get? k' = some a ↔ k' ≠ k ∧ t.get? k' = some a := by
  rw [get?_erase]
  by_cases heq : k' = k
  · simp [heq]
  · simp [heq]

/-- Taking away a key that is not there changes nothing. -/
theorem erase_eq_self [DecidableEq κ] [Std.TransOrd κ] {t : Table κ α} {k : κ}
    (hget : t.get? k = none) : t.erase k = t := by
  apply eq_of_get?
  intro k'
  rw [get?_erase]
  by_cases heq : k' = k
  · rw [if_pos heq, heq, hget]
  · rw [if_neg heq]

/-- Without a key, the keys are one fewer. -/
theorem perm_keys_erase [DecidableEq κ] {t : Table κ α} {k : κ} (hk : t.contains k = true) :
    t.keys.Perm (k :: (t.erase k).keys) := by
  have hgone : k ∉ (t.erase k).keys := by
    rw [mem_keys, contains, get?_erase_self]
    simp
  rw [List.perm_ext_iff_of_nodup t.nodup_keys (List.nodup_cons.2 ⟨hgone, nodup_keys _⟩)]
  intro k'
  rw [List.mem_cons, mem_keys, mem_keys, contains, contains, get?_erase]
  by_cases heq : k' = k
  · simpa [heq, contains] using hk
  · simp [heq]

section Insert

variable [Std.TransOrd κ] [DecidableEq κ]

/-- Inserting under a key leaves what is found under all others. -/
theorem get?_insert (t : Table κ α) (k k' : κ) (a : α) :
    (t.insert k a).get? k' = if k' = k then some a else t.get? k' := by
  by_cases heq : k' = k
  · rw [if_pos heq, heq, get?_insert_self]
  · rw [if_neg heq, get?_insert_of_ne t a heq]

theorem get?_insert_eq_some {t : Table κ α} {k k' : κ} {a b : α} :
    (t.insert k a).get? k' = some b ↔ (k' = k ∧ b = a) ∨ (k' ≠ k ∧ t.get? k' = some b) := by
  rw [get?_insert]
  by_cases heq : k' = k
  · simp [heq, eq_comm]
  · simp [heq]

theorem contains_insert {t : Table κ α} {k k' : κ} {a : α} :
    (t.insert k a).contains k' = true ↔ k' = k ∨ t.contains k' = true := by
  simp only [contains, get?_insert]
  split <;> simp_all

/-- Inserting what is there already changes nothing. -/
theorem insert_eq_self {t : Table κ α} {k : κ} {a : α} (hget : t.get? k = some a) :
    t.insert k a = t := by
  apply eq_of_get?
  intro k'
  rw [get?_insert]
  by_cases heq : k' = k
  · rw [if_pos heq, heq, hget]
  · rw [if_neg heq]

theorem insert_insert (t : Table κ α) (k : κ) (a b : α) :
    (t.insert k a).insert k b = t.insert k b := by
  apply eq_of_get?
  intro k'
  rw [get?_insert, get?_insert, get?_insert]
  by_cases heq : k' = k
  · rw [if_pos heq, if_pos heq]
  · rw [if_neg heq, if_neg heq, if_neg heq]

/-- Inserting under a new key is undone by taking the key away. -/
theorem erase_insert_of_fresh {t : Table κ α} {k : κ} (hfresh : t.get? k = none) (a : α) :
    (t.insert k a).erase k = t := by
  apply eq_of_get?
  intro k'
  rw [get?_erase, get?_insert]
  by_cases heq : k' = k
  · rw [if_pos heq, heq, hfresh]
  · rw [if_neg heq, if_neg heq]

/-- A new key adds one entry to the listing. -/
theorem perm_entries_insert {t : Table κ α} {k : κ} (hfresh : t.get? k = none) (a : α) :
    (t.insert k a).entries.Perm ((k, a) :: t.entries) := by
  have hnew : (k, a) ∉ t.entries := by
    rw [mem_entries_iff, hfresh]
    simp
  rw [List.perm_ext_iff_of_nodup (nodup_entries _) (List.nodup_cons.2 ⟨hnew, nodup_entries t⟩)]
  rintro ⟨k', a'⟩
  rw [List.mem_cons, mem_entries_iff, mem_entries_iff, get?_insert]
  by_cases heq : k' = k
  · subst heq
    simp [hfresh, eq_comm]
  · simp [heq]

/-- A new key adds one value to the listing. -/
theorem perm_values_insert {t : Table κ α} {k : κ} (hfresh : t.get? k = none) (a : α) :
    (t.insert k a).values.Perm (a :: t.values) :=
  (perm_entries_insert hfresh a).map _

section OfList

/-- What is found after inserting the entries of a list is from the list, or was there before. -/
private theorem foldl_insert_eq_some {l : List (κ × α)} {t : Table κ α} {k : κ} {a : α}
    (hget : (l.foldl (fun t x => t.insert x.1 x.2) t).get? k = some a) :
    (k, a) ∈ l ∨ t.get? k = some a := by
  induction l generalizing t with
  | nil => exact .inr hget
  | cons x l ih =>
    rcases ih hget with hmem | hinsert
    · exact .inl (List.mem_cons_of_mem _ hmem)
    · rcases get?_insert_eq_some.1 hinsert with ⟨rfl, rfl⟩ | ⟨-, hold⟩
      · exact .inl List.mem_cons_self
      · exact .inr hold

/-- What is found in the table of a list is an entry of the list. -/
theorem mem_of_get?_ofList {l : List (κ × α)} {k : κ} {a : α}
    (hget : (ofList l).get? k = some a) : (k, a) ∈ l := by
  rcases foldl_insert_eq_some hget with hmem | hempty
  · exact hmem
  · cases hempty

omit [DecidableEq κ] in
/-- Inserting the entries of a list leaves alone what is under keys that the list does not have. -/
private theorem foldl_insert_of_fresh {l : List (κ × α)} {t : Table κ α} {k : κ}
    (hfresh : ∀ x ∈ l, x.1 ≠ k) :
    (l.foldl (fun t x => t.insert x.1 x.2) t).get? k = t.get? k := by
  induction l generalizing t with
  | nil => rfl
  | cons x l ih =>
    obtain ⟨hhead, htail⟩ := List.forall_mem_cons.1 hfresh
    rw [List.foldl_cons, ih htail, get?_insert_of_ne t x.2 hhead.symm]

/-- The table of a list without repeated keys holds the pairs of the list. -/
theorem get?_ofList_eq_some_iff {l : List (κ × α)} (hnodup : (l.map (·.1)).Nodup) {k : κ} {a : α} :
    (ofList l).get? k = some a ↔ (k, a) ∈ l := by
  refine ⟨mem_of_get?_ofList, fun hmem => ?_⟩
  obtain ⟨before, after, rfl⟩ := List.append_of_mem hmem
  rw [List.map_append, List.map_cons, List.nodup_append, List.nodup_cons] at hnodup
  have hfresh : ∀ x ∈ after, x.1 ≠ k := by
    rintro x hx rfl
    exact hnodup.2.1.1 (List.mem_map.2 ⟨x, hx, rfl⟩)
  rw [ofList, List.foldl_append, List.foldl_cons, foldl_insert_of_fresh hfresh, get?_insert_self]

/-- The table of a list without repeated keys contains the keys of the list. -/
theorem contains_ofList_iff {l : List (κ × α)} (hnodup : (l.map (·.1)).Nodup) {k : κ} :
    (ofList l).contains k = true ↔ k ∈ l.map (·.1) := by
  rw [contains_iff, List.mem_map]
  constructor
  · rintro ⟨a, hget⟩
    exact ⟨(k, a), mem_of_get?_ofList hget, rfl⟩
  · rintro ⟨⟨_, a⟩, hmem, rfl⟩
    exact ⟨a, (get?_ofList_eq_some_iff hnodup).2 hmem⟩

/-- The order of a list without repeated keys does not matter to its table. -/
theorem ofList_perm {l m : List (κ × α)} (hnodup : (l.map (·.1)).Nodup) (hperm : l.Perm m) :
    ofList l = ofList m := by
  apply eq_of_get?
  intro k
  ext a
  rw [get?_ofList_eq_some_iff hnodup,
    get?_ofList_eq_some_iff ((hperm.map (·.1)).nodup_iff.1 hnodup), hperm.mem_iff]

/-- The listing of the table of a list without repeated keys has what the list has. -/
theorem entries_ofList_perm {l : List (κ × α)} (hnodup : (l.map (·.1)).Nodup) :
    (ofList l).entries.Perm l := by
  rw [List.perm_ext_iff_of_nodup (nodup_entries _) hnodup.of_map]
  rintro ⟨k, a⟩
  rw [mem_entries_iff, get?_ofList_eq_some_iff hnodup]

/-- A table is the table of its own entries. -/
theorem ofList_entries (t : Table κ α) : ofList t.entries = t := by
  apply eq_of_get?
  intro k
  ext a
  rw [get?_ofList_eq_some_iff t.nodup_keys, mem_entries_iff]

end OfList

section Filling

variable {σ ε : Type} {t : Table κ α} {step : σ → κ × α → Except ε σ} (state : Table κ α → σ)

/-- The entries that are left can be entered one after the other, once those before them have
    been. -/
private theorem foldlM_rest
    (hstep : ∀ filled k a, t.get? k = some a → filled.get? k = none →
      step (state filled) (k, a) = .ok (state (filled.insert k a)))
    {rest : List (κ × α)} {filled : Table κ α} (hnodup : (rest.map (·.1)).Nodup)
    (hrest : ∀ x ∈ rest, t.get? x.1 = some x.2)
    (hleft : ∀ k ∈ rest.map (·.1), filled.get? k = none)
    (hdone : ∀ k, k ∉ rest.map (·.1) → filled.get? k = t.get? k) :
    rest.foldlM step (state filled) = .ok (state t) := by
  induction rest generalizing filled with
  | nil =>
    have heq : filled = t := eq_of_get? fun k => hdone k (by simp)
    rw [heq]
    rfl
  | cons x rest ih =>
    obtain ⟨k, a⟩ := x
    rw [List.map_cons, List.nodup_cons] at hnodup
    have hget : t.get? k = some a := hrest (k, a) List.mem_cons_self
    rw [List.foldlM_cons, hstep filled k a hget (hleft k (by simp))]
    apply ih hnodup.2
    · intro y hy
      exact hrest y (List.mem_cons_of_mem _ hy)
    · intro other hother
      have hne : other ≠ k := by
        rintro rfl
        exact hnodup.1 hother
      rw [get?_insert, if_neg hne]
      exact hleft other (List.mem_cons_of_mem _ hother)
    · intro other hother
      rw [get?_insert]
      by_cases heq : other = k
      · rw [if_pos heq, heq, hget]
      · rw [if_neg heq]
        apply hdone
        rw [List.map_cons, List.mem_cons]
        exact not_or.2 ⟨heq, hother⟩

/-- Entering the entries of a table one after the other fills an empty table to that table. The
    steps may go through states that hold more than the table filled so far. -/
theorem foldlM_entries
    (hstep : ∀ filled k a, t.get? k = some a → filled.get? k = none →
      step (state filled) (k, a) = .ok (state (filled.insert k a))) :
    t.entries.foldlM step (state ∅) = .ok (state t) := by
  apply foldlM_rest state hstep t.nodup_keys
  · intro x hx
    exact mem_entries_iff.1 hx
  · intro k _
    rfl
  · intro k hk
    rw [get?_empty, eq_comm, get?_eq_none_iff, ← mem_keys]
    exact hk

end Filling

end Insert

end CommandBlocks.Table
