import Mathlib.Data.List.Forall2

/-!
# Computations that throw

A sequence of two returns exactly if both return.  With `bind_eq_ok_iff` and
`pure_eq_ok_iff` a `do` block that returned comes apart into its steps, with
`mapM_eq_ok_iff` a loop over a list.

    Agree R x y   both return, and `R` holds of the two values, or both throw the same

`Agree` passes through a sequence and a loop; so it compares two computations step by step.
-/

namespace Except

variable {ε α β : Type} {x : Except ε α} {f : α → Except ε β} {a : α} {b : β} {e : ε}

theorem bind_eq_ok_iff : x >>= f = .ok b ↔ ∃ a, x = .ok a ∧ f a = .ok b := by
  cases x with
  | error e =>
    constructor
    · intro h
      cases h
    · rintro ⟨a, ha, -⟩
      cases ha
  | ok a => exact ⟨fun h => ⟨a, rfl, h⟩, fun ⟨a', ha, h⟩ => by cases ha; exact h⟩

theorem pure_eq_ok_iff {b : α} : (pure a : Except ε α) = .ok b ↔ a = b :=
  ⟨fun h => by cases h; rfl, fun h => h ▸ rfl⟩

theorem map_eq_ok_iff {g : α → β} : x.map g = .ok b ↔ ∃ a, x = .ok a ∧ g a = b := by
  cases x with
  | error e =>
    constructor
    · intro h
      cases h
    · rintro ⟨a, ha, -⟩
      cases ha
  | ok a =>
    constructor
    · exact fun h => ⟨a, rfl, Except.ok.inj h⟩
    · rintro ⟨a', ha, h⟩
      cases ha
      rw [← h]
      rfl

theorem map_eq_error_iff {g : α → β} : x.map g = .error e ↔ x = .error e := by
  cases x with
  | error e' =>
    exact ⟨fun h => congrArg _ (Except.error.inj h), fun h => congrArg _ (Except.error.inj h)⟩
  | ok a => exact ⟨fun h => (by cases h), fun h => (by cases h)⟩

theorem mapError_eq_ok_iff {δ : Type} {g : ε → δ} : x.mapError g = .ok a ↔ x = .ok a := by
  cases x with
  | error e => exact ⟨fun h => (by cases h), fun h => (by cases h)⟩
  | ok a => exact ⟨fun h => congrArg _ (Except.ok.inj h), fun h => congrArg _ (Except.ok.inj h)⟩

@[simp] theorem ok_bind : (.ok a : Except ε α) >>= f = f a := rfl

@[simp] theorem error_bind : (.error e : Except ε α) >>= f = .error e := rfl

/-- A loop over a list returns exactly if it returns for each element. -/
theorem mapM_eq_ok_iff {l : List α} {bs : List β} :
    l.mapM f = .ok bs ↔ List.Forall₂ (fun a b => f a = .ok b) l bs := by
  induction l generalizing bs with
  | nil =>
    rw [List.mapM_nil, pure_eq_ok_iff, List.forall₂_nil_left_iff]
    exact eq_comm
  | cons a l ih =>
    rw [List.mapM_cons, bind_eq_ok_iff, List.forall₂_cons_left_iff]
    constructor
    · rintro ⟨b, hb, h⟩
      obtain ⟨bs', hbs, h⟩ := bind_eq_ok_iff.mp h
      exact ⟨b, bs', hb, ih.mp hbs, (pure_eq_ok_iff.mp h).symm⟩
    · rintro ⟨b, bs', hb, hbs, rfl⟩
      exact ⟨b, hb, bind_eq_ok_iff.mpr ⟨bs', ih.mpr hbs, rfl⟩⟩

/-- The exception of a loop is that of an element. -/
theorem exists_of_mapM_eq_error {l : List α} (h : l.mapM f = .error e) :
    ∃ a ∈ l, f a = .error e := by
  induction l with
  | nil => cases h
  | cons a l ih =>
    rw [List.mapM_cons] at h
    cases ha : f a with
    | error e' =>
      rw [ha] at h
      obtain rfl : e' = e := Except.error.inj h
      exact ⟨a, List.mem_cons_self, ha⟩
    | ok b =>
      rw [ha, ok_bind] at h
      cases hl : l.mapM f with
      | ok bs =>
        rw [hl] at h
        cases h
      | error e' =>
        rw [hl] at h
        obtain rfl : e' = e := Except.error.inj h
        obtain ⟨c, hc, hfc⟩ := ih hl
        exact ⟨c, List.mem_cons_of_mem _ hc, hfc⟩

/-- A loop ends with the exception of the first element that has one. -/
theorem mapM_eq_error_iff {l : List α} :
    l.mapM f = .error e ↔ ∃ pre a post, l = pre ++ a :: post ∧
      (∀ b ∈ pre, ∃ v, f b = .ok v) ∧ f a = .error e := by
  induction l with
  | nil =>
    constructor
    · intro h
      cases h
    · rintro ⟨pre, a, post, h, -⟩
      cases pre <;> cases h
  | cons a l ih =>
    rw [List.mapM_cons]
    cases ha : f a with
    | error e' =>
      rw [error_bind]
      constructor
      · intro h
        obtain rfl : e' = e := Except.error.inj h
        exact ⟨[], a, l, rfl, fun b hb => (by cases hb), ha⟩
      · rintro ⟨pre, b, post, hl, hpre, hb⟩
        cases pre with
        | nil =>
          obtain ⟨rfl, rfl⟩ := List.cons.inj hl
          exact congrArg Except.error (Except.error.inj (ha.symm.trans hb))
        | cons c pre =>
          obtain ⟨rfl, rfl⟩ := List.cons.inj hl
          obtain ⟨v, hv⟩ := hpre a List.mem_cons_self
          rw [ha] at hv
          cases hv
    | ok v =>
      rw [ok_bind]
      have hrest : (l.mapM f >>= fun vs => pure (v :: vs)) = .error e ↔ l.mapM f = .error e := by
        cases l.mapM f with
        | ok vs => exact ⟨fun h => (by cases h), fun h => (by cases h)⟩
        | error e' => exact Iff.rfl
      rw [hrest, ih]
      constructor
      · rintro ⟨pre, b, post, rfl, hpre, hb⟩
        refine ⟨a :: pre, b, post, rfl, fun c hc => ?_, hb⟩
        rcases List.mem_cons.mp hc with rfl | hc
        · exact ⟨v, ha⟩
        · exact hpre c hc
      · rintro ⟨pre, b, post, hl, hpre, hb⟩
        cases pre with
        | nil =>
          obtain ⟨rfl, rfl⟩ := List.cons.inj hl
          rw [ha] at hb
          cases hb
        | cons c pre =>
          obtain ⟨rfl, rfl⟩ := List.cons.inj hl
          exact ⟨pre, b, post, rfl, fun c hc => hpre c (List.mem_cons_of_mem a hc), hb⟩

/-! ## Two computations -/

section Agree

variable {γ δ : Type} {R : α → γ → Prop} {S : β → δ → Prop} {y : Except ε γ}

def Agree (R : α → γ → Prop) : Except ε α → Except ε γ → Prop
  | .ok a, .ok c => R a c
  | .error e, .error e' => e = e'
  | _, _ => False

theorem Agree.refl {R : α → α → Prop} (h : ∀ a, R a a) (x : Except ε α) : Agree R x x := by
  cases x with
  | ok a => exact h a
  | error e => exact (rfl : e = e)

theorem Agree.imp {R' : α → γ → Prop} (h : Agree R x y) (hR : ∀ a c, R a c → R' a c) :
    Agree R' x y := by
  cases x <;> cases y <;> first | exact hR _ _ h | exact h

theorem Agree.bind {g : γ → Except ε δ} (h : Agree R x y)
    (hf : ∀ a c, R a c → Agree S (f a) (g c)) : Agree S (x >>= f) (y >>= g) := by
  cases x with
  | ok a =>
    cases y with
    | ok c => exact hf a c h
    | error e => exact h.elim
  | error e =>
    cases y with
    | ok c => exact h.elim
    | error e' => exact h

theorem Agree.map {g : α → β} {k : γ → δ} (h : Agree R x y) (hg : ∀ a c, R a c → S (g a) (k c)) :
    Agree S (x.map g) (y.map k) :=
  h.bind fun a c hac => (hg a c hac : Agree S (.ok (g a)) (.ok (k c)))

theorem agree_eq_iff {y : Except ε α} : Agree Eq x y ↔ x = y := by
  cases x <;> cases y <;> simp [Agree]

theorem agree_mapM {l : List β} {f : β → Except ε α} {g : β → Except ε γ}
    (h : ∀ b ∈ l, Agree R (f b) (g b)) : Agree (List.Forall₂ R) (l.mapM f) (l.mapM g) := by
  induction l with
  | nil => exact List.Forall₂.nil
  | cons b l ih =>
    rw [List.mapM_cons, List.mapM_cons]
    refine (h b List.mem_cons_self).bind fun a c hac => ?_
    refine (ih fun b' hb' => h b' (List.mem_cons_of_mem b hb')).bind fun as cs hs => ?_
    exact List.Forall₂.cons hac hs

end Agree

end Except
