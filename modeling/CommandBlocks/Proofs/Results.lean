namespace CommandBlocks

variable {ε ε' α β : Type}

theorem bind_eq_ok_iff {result : Except ε α} {next : α → Except ε β} {b : β} :
    (result >>= next) = .ok b ↔ ∃ a, result = .ok a ∧ next a = .ok b := by
  cases result <;> simp [bind, Except.bind]

theorem map_eq_ok_iff {result : Except ε α} {f : α → β} {b : β} :
    result.map f = .ok b ↔ ∃ a, result = .ok a ∧ f a = b := by
  cases result <;> simp [Except.map]

/-- Naming a fault anew does not change which values are given. -/
theorem mapError_eq_ok_iff {result : Except ε α} {f : ε → ε'} {a : α} :
    result.mapError f = .ok a ↔ result = .ok a := by
  cases result with
  | error fault => exact ⟨nofun, nofun⟩
  | ok value =>
    change (.ok value : Except ε' α) = .ok a ↔ (.ok value : Except ε α) = .ok a
    rw [Except.ok.injEq, Except.ok.injEq]

theorem mapError_bind {result : Except ε α} {next : α → Except ε β} {f : ε → ε'} :
    (result >>= next).mapError f = result.mapError f >>= fun a => (next a).mapError f := by
  cases result <;> rfl

theorem exists_of_mapError_eq_error {result : Except ε α} {f : ε → ε'} {fault : ε'}
    (herror : result.mapError f = .error fault) : ∃ cause, f cause = fault := by
  cases result with
  | error cause =>
    change (.error (f cause) : Except ε' α) = .error fault at herror
    rw [Except.error.injEq] at herror
    exact ⟨cause, herror⟩
  | ok value => cases herror

theorem ite_eq_ok_iff {c : Prop} [Decidable c] {a b : α} {fault : ε} :
    (if c then .ok a else .error fault) = (.ok b : Except ε α) ↔ c ∧ b = a := by
  by_cases hc : c
  · simp [hc, eq_comm]
  · simp [hc]

/-- Two steps fail if the first one does, or the second one does on what the first one gives. -/
theorem bind_eq_error_iff {result : Except ε α} {next : α → Except ε β} {fault : ε} :
    (result >>= next) = .error fault ↔
      result = .error fault ∨ ∃ a, result = .ok a ∧ next a = .error fault := by
  cases result <;> simp [bind, Except.bind]

theorem ite_eq_error_iff {c : Prop} [Decidable c] {a : α} {fault cause : ε} :
    (if c then .ok a else .error cause) = (.error fault : Except ε α) ↔ ¬ c ∧ fault = cause := by
  by_cases hc : c
  · simp [hc]
  · simp [hc, eq_comm]

/-- A computation goes on after a check exactly if the check finds no fault. -/
theorem throw_or_eq_ok_iff {c : Prop} [Decidable c] {fault : ε} {rest : PUnit → Except ε α}
    {a : α} :
    (if c then throw fault >>= rest else rest ⟨⟩) = .ok a ↔ ¬ c ∧ rest ⟨⟩ = .ok a := by
  by_cases hc : c
  · simp [hc, throw, throwThe, MonadExceptOf.throw, bind, Except.bind]
  · simp [hc]

/-- After a check, the fault is that of the check if it fails, and else that of the rest. -/
theorem throw_or_eq_error_iff {c : Prop} [Decidable c] {cause fault : ε}
    {rest : PUnit → Except ε α} :
    (if c then throw cause >>= rest else rest ⟨⟩) = .error fault ↔
      c ∧ fault = cause ∨ ¬ c ∧ rest ⟨⟩ = .error fault := by
  by_cases hc : c
  · simp [hc, throw, throwThe, MonadExceptOf.throw, bind, Except.bind, eq_comm]
  · simp [hc]

/-- What every step keeps holds in the end. The list that is still to come may be spoken of. -/
theorem foldlM_induction {step : β → α → Except ε β} {motive : List α → β → Prop}
    (hstep : ∀ a rest b next, motive (a :: rest) b → step b a = .ok next → motive rest next)
    {l : List α} {b last : β} (hinit : motive l b) (hok : l.foldlM step b = .ok last) :
    motive [] last := by
  induction l generalizing b with
  | nil =>
    cases hok
    exact hinit
  | cons a rest ih =>
    rw [List.foldlM_cons, bind_eq_ok_iff] at hok
    obtain ⟨next, hnext, hrest⟩ := hok
    exact ih (hstep a rest b next hinit hnext) hrest

/-- A fold of steps that ends in a fault ends at some step, after all steps before it. -/
theorem exists_of_foldlM_eq_error {step : β → α → Except ε β} {l : List α} {b : β} {fault : ε}
    (herror : l.foldlM step b = .error fault) :
    ∃ before a after reached, l = before ++ a :: after ∧ before.foldlM step b = .ok reached ∧
      step reached a = .error fault := by
  induction l generalizing b with
  | nil => cases herror
  | cons a rest ih =>
    rw [List.foldlM_cons, bind_eq_error_iff] at herror
    obtain hfirst | ⟨next, hnext, hrest⟩ := herror
    · exact ⟨[], a, rest, b, rfl, rfl, hfirst⟩
    · obtain ⟨before, failing, after, reached, rfl, hbefore, hfailing⟩ := ih hrest
      refine ⟨a :: before, failing, after, reached, rfl, ?_, hfailing⟩
      rw [List.foldlM_cons, hnext]
      exact hbefore

/-- Computations whose values have the same image may be followed by steps that make no more
    difference than the image. -/
theorem map_bind_congr {γ δ δ' : Type} {result result' : Except ε β} {f : β → γ}
    {next next' : β → Except ε δ} {f' : δ → δ'} (hresult : result.map f = result'.map f)
    (hnext : ∀ b b', result = .ok b → result' = .ok b' → f b = f b' →
      (next b).map f' = (next' b').map f') :
    (result >>= next).map f' = (result' >>= next').map f' := by
  cases result with
  | error fault =>
    cases result' with
    | error other =>
      obtain rfl := Except.error.inj hresult
      rfl
    | ok b => cases hresult
  | ok b =>
    cases result' with
    | error other => cases hresult
    | ok b' => exact hnext b b' rfl rfl (Except.ok.inj hresult)

/-- A fold of steps on images of states is the image of the fold, if every step is. -/
theorem foldlM_hom {γ : Type} {step : β → α → Except ε β} {step' : γ → α → Except ε γ} {f : β → γ}
    (hstep : ∀ b a, step' (f b) a = (step b a).map f) (l : List α) (b : β) :
    l.foldlM step' (f b) = (l.foldlM step b).map f := by
  induction l generalizing b with
  | nil => rfl
  | cons a rest ih =>
    rw [List.foldlM_cons, List.foldlM_cons, hstep]
    cases step b a with
    | error fault => rfl
    | ok next => exact ih next

/-- A fold of steps that do whatever other steps do gives what theirs gives. -/
theorem foldlM_mono {step step' : β → α → Except ε β}
    (hstep : ∀ b a next, step b a = .ok next → step' b a = .ok next) {l : List α} {b last : β}
    (hok : l.foldlM step b = .ok last) : l.foldlM step' b = .ok last := by
  induction l generalizing b with
  | nil => exact hok
  | cons a rest ih =>
    rw [List.foldlM_cons, bind_eq_ok_iff] at hok ⊢
    obtain ⟨next, hnext, hrest⟩ := hok
    exact ⟨next, hstep b a next hnext, ih hrest⟩

section FirstFault

variable {step : β → α → Except ε β} {l : List α} {b : β} {bad : Nat → ε → Prop}

/-- What is bad about the items of a list is what makes the steps for them fail, each after the
    steps for the items before it. -/
structure Blames (step : β → α → Except ε β) (b : β) (l : List α) (bad : Nat → ε → Prop) :
    Prop where
  inside : ∀ n fault, bad n fault → n < l.length
  fails : ∀ n a reached fault, l[n]? = some a → (l.take n).foldlM step b = .ok reached →
    (step reached a = .error fault ↔ bad n fault)

/-- It is enough to say what is bad about one item at a place. -/
theorem blames_of_getElem? {P : Nat → α → ε → Prop}
    (hfails : ∀ n a reached fault, l[n]? = some a → (l.take n).foldlM step b = .ok reached →
      (step reached a = .error fault ↔ P n a fault)) :
    Blames step b l fun n fault => ∃ a ∈ l[n]?, P n a fault where
  inside n fault := by
    rintro ⟨a, ha, -⟩
    exact (List.getElem?_eq_some_iff.1 ha).1
  fails n a reached fault ha hreached := by
    rw [hfails n a reached fault ha hreached]
    constructor
    · intro hbad
      exact ⟨a, ha, hbad⟩
    · rintro ⟨other, hother, hbad⟩
      obtain rfl := Option.some.inj (ha.symm.trans hother)
      exact hbad

namespace Blames

/-- The first steps of a fold succeed together just if no fault is blamed on any of them. -/
theorem exists_take_iff (hbad : Blames step b l bad) (n : Nat) :
    (∃ reached, (l.take n).foldlM step b = .ok reached) ↔ ∀ m < n, ∀ fault, ¬ bad m fault := by
  induction n with
  | zero => exact ⟨fun _ m hm => absurd hm (Nat.not_lt_zero m), fun _ => ⟨b, rfl⟩⟩
  | succ n ih =>
    rw [Nat.forall_lt_succ_right, ← ih]
    cases hitem : l[n]? with
    | none =>
      have hlength := List.getElem?_eq_none_iff.1 hitem
      have hnot : ∀ fault, ¬ bad n fault := fun fault hn =>
        absurd (hbad.inside n fault hn) (Nat.not_lt.2 hlength)
      rw [List.take_of_length_le hlength, List.take_of_length_le (by omega), and_iff_left hnot]
    | some a =>
      rw [List.take_add_one, hitem, Option.toList_some, List.foldlM_append]
      simp only [bind_eq_ok_iff, List.foldlM_cons, List.foldlM_nil]
      constructor
      · rintro ⟨_, reached, hreached, next, hnext, -⟩
        refine ⟨⟨reached, hreached⟩, fun fault hn => ?_⟩
        rw [← hbad.fails n a reached fault hitem hreached, hnext] at hn
        cases hn
      · rintro ⟨⟨reached, hreached⟩, hnone⟩
        cases hnext : step reached a with
        | ok next => exact ⟨next, reached, hreached, next, hnext, rfl⟩
        | error fault =>
          exact absurd ((hbad.fails n a reached fault hitem hreached).1 hnext) (hnone fault)

/-- A fold of steps succeeds exactly if no item is bad. -/
theorem exists_foldlM_iff (hbad : Blames step b l bad) :
    (∃ last, l.foldlM step b = .ok last) ↔ ∀ n fault, ¬ bad n fault := by
  have hall := hbad.exists_take_iff l.length
  rw [List.take_length] at hall
  rw [hall]
  exact ⟨fun hnone n fault hn => hnone n (hbad.inside n fault hn) fault hn,
    fun hnone n _ fault => hnone n fault⟩

/-- A fold of steps ends in the fault of the first bad item. -/
theorem foldlM_eq_error_iff (hbad : Blames step b l bad) {fault : ε} :
    l.foldlM step b = .error fault ↔
      ∃ n, bad n fault ∧ ∀ m < n, ∀ other, ¬ bad m other := by
  constructor
  · intro herror
    obtain ⟨before, a, after, reached, rfl, hreached, hfails⟩ := exists_of_foldlM_eq_error herror
    have htake : (before ++ a :: after).take before.length = before := List.take_left
    rw [← htake] at hreached
    refine ⟨before.length, ?_, (hbad.exists_take_iff _).1 ⟨reached, hreached⟩⟩
    exact (hbad.fails _ a reached fault (by simp) hreached).1 hfails
  · rintro ⟨n, hn, hfirst⟩
    obtain ⟨reached, hreached⟩ := (hbad.exists_take_iff n).2 hfirst
    have hinside := hbad.inside n fault hn
    have hitem : l[n]? = some l[n] := List.getElem?_eq_getElem hinside
    have hfails := (hbad.fails n l[n] reached fault hitem hreached).2 hn
    rw [← List.take_append_drop n l, List.drop_eq_getElem_cons hinside, List.foldlM_append,
      hreached]
    change ((l[n] :: l.drop (n + 1)).foldlM step reached) = _
    rw [List.foldlM_cons, hfails]
    rfl

/-- Two folds one after the other end in the fault of the first bad item, the items of the second
    counted on from those of the first. -/
theorem bind_foldlM_eq_error_iff {γ : Type} {step' : β → γ → Except ε β} {m : List γ}
    {bad' : Nat → ε → Prop} (hbad : Blames step b l bad)
    (hbad' : ∀ reached, l.foldlM step b = .ok reached → Blames step' reached m bad') {fault : ε} :
    (l.foldlM step b >>= fun reached => m.foldlM step' reached) = .error fault ↔
      ∃ n, (bad n fault ∨ ∃ k, n = l.length + k ∧ bad' k fault) ∧
        ∀ i < n, ∀ other, ¬ (bad i other ∨ ∃ k, i = l.length + k ∧ bad' k other) := by
  rw [bind_eq_error_iff, hbad.foldlM_eq_error_iff]
  constructor
  · rintro (⟨n, hn, hfirst⟩ | ⟨reached, hreached, herror⟩)
    · have hinside := hbad.inside n fault hn
      refine ⟨n, .inl hn, ?_⟩
      rintro i hi other (hother | ⟨k, rfl, -⟩)
      · exact hfirst i hi other hother
      · omega
    · obtain ⟨n, hn, hfirst⟩ := (hbad' reached hreached).foldlM_eq_error_iff.1 herror
      have hnone := hbad.exists_foldlM_iff.1 ⟨reached, hreached⟩
      refine ⟨l.length + n, .inr ⟨n, rfl, hn⟩, ?_⟩
      rintro i hi other (hother | ⟨k, rfl, hother⟩)
      · exact hnone i other hother
      · exact hfirst k (Nat.lt_of_add_lt_add_left hi) other hother
  · rintro ⟨n, hn | ⟨n, rfl, hn⟩, hfirst⟩
    · exact .inl ⟨n, hn, fun i hi other hother => hfirst i hi other (.inl hother)⟩
    · have hnone : ∀ i other, ¬ bad i other := by
        intro i other hother
        have hinside := hbad.inside i other hother
        exact hfirst i (by omega) other (.inl hother)
      obtain ⟨reached, hreached⟩ := hbad.exists_foldlM_iff.2 hnone
      refine .inr ⟨reached, hreached, (hbad' reached hreached).foldlM_eq_error_iff.2 ?_⟩
      exact ⟨n, hn, fun i hi other hother =>
        hfirst _ (Nat.add_lt_add_left hi _) other (.inr ⟨i, rfl, hother⟩)⟩

end Blames

end FirstFault

/-- What every step keeps holds in the end. The list that is done may be spoken of. -/
theorem foldlM_prefix_induction {step : β → α → Except ε β} {motive : List α → β → Prop}
    {l : List α}
    (hstep : ∀ done a rest b next, l = done ++ a :: rest → motive done b → step b a = .ok next →
      motive (done ++ [a]) next)
    {b last : β} (hinit : motive [] b) (hok : l.foldlM step b = .ok last) : motive l last := by
  have hdone : ∃ done, l = done ++ [] ∧ motive done last := by
    refine foldlM_induction (motive := fun rest b => ∃ done, l = done ++ rest ∧ motive done b) ?_
      ⟨[], rfl, hinit⟩ hok
    rintro a rest b next ⟨done, hl, hmotive⟩ hnext
    refine ⟨done ++ [a], ?_, hstep done a rest b next hl hmotive hnext⟩
    rw [hl, List.append_assoc, List.singleton_append]
  obtain ⟨done, hl, hmotive⟩ := hdone
  rw [List.append_nil] at hl
  rwa [hl]

/-- What every step keeps while it counts one more holds of the number of all steps in the end. -/
theorem foldlM_counting {step : β → α → Except ε β} {motive : Nat → β → Prop} {l : List α}
    (hstep : ∀ n a b next, n < l.length → motive n b → step b a = .ok next → motive (n + 1) next)
    {b last : β} (hinit : motive 0 b) (hok : l.foldlM step b = .ok last) :
    motive l.length last := by
  refine foldlM_prefix_induction (motive := fun done b => motive done.length b) ?_ hinit hok
  intro done a rest b next hl hmotive hnext
  have hn : done.length < l.length := by simp [hl]
  rw [List.length_append, List.length_singleton]
  exact hstep done.length a b next hn hmotive hnext

end CommandBlocks
