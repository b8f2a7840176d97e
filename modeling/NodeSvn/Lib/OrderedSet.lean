import Mathlib.Order.Lattice
import Mathlib.Data.List.Pairwise

/-!
# Sets kept in the order of a key

The set is the list of its elements, by increasing key, and two elements with one key are the
same to it:

    insert a     goes to its place, unless an element has its key
    erase a      takes the element with its key away
-/

namespace OrderedSet

variable {α κ : Type} [LinearOrder κ]

/-- The elements are in order, and no two have one key. -/
def Sorted (key : α → κ) (l : List α) : Prop := l.Pairwise fun a b => key a < key b

def insert (key : α → κ) (a : α) : List α → List α
  | [] => [a]
  | b :: l =>
    if key a < key b then a :: b :: l
    else if key b < key a then b :: insert key a l
    else b :: l

def erase (key : α → κ) (a : α) : List α → List α
  | [] => []
  | b :: l =>
    if key a < key b then b :: l
    else if key b < key a then b :: erase key a l
    else l

variable {key : α → κ} {a b : α} {l : List α}

theorem Sorted.tail (h : Sorted key (b :: l)) : Sorted key l := (List.pairwise_cons.mp h).2

theorem Sorted.head_lt (h : Sorted key (b :: l)) : ∀ c ∈ l, key b < key c :=
  (List.pairwise_cons.mp h).1

/-- Nothing in the list has a key below that of its first element. -/
theorem Sorted.ne_of_lt (h : Sorted key (b :: l)) (hlt : key a < key b) :
    ∀ c ∈ b :: l, key c ≠ key a := by
  intro c hc
  rcases List.mem_cons.mp hc with rfl | hc
  · exact ne_of_gt hlt
  · exact ne_of_gt (lt_trans hlt (h.head_lt c hc))

theorem mem_insert (h : Sorted key l) {c : α} :
    c ∈ insert key a l ↔ c ∈ l ∨ c = a ∧ ∀ d ∈ l, key d ≠ key a := by
  induction l with
  | nil => simp [insert]
  | cons b l ih =>
    unfold insert
    by_cases hab : key a < key b
    · rw [if_pos hab, List.mem_cons]
      constructor
      · rintro (rfl | hc)
        · exact .inr ⟨rfl, h.ne_of_lt hab⟩
        · exact .inl hc
      · rintro (hc | ⟨rfl, -⟩)
        · exact .inr hc
        · exact .inl rfl
    · rw [if_neg hab]
      by_cases hba : key b < key a
      · rw [if_pos hba, List.mem_cons, ih h.tail, List.mem_cons, List.forall_mem_cons, or_assoc]
        have hne : key b ≠ key a := ne_of_lt hba
        simp only [hne, ne_eq, not_false_eq_true, true_and]
      · rw [if_neg hba]
        have heq : key b = key a := le_antisymm (not_lt.mp hab) (not_lt.mp hba)
        constructor
        · exact .inl
        · rintro (hc | ⟨-, hall⟩)
          · exact hc
          · exact absurd heq (hall b List.mem_cons_self)

theorem Sorted.insert (h : Sorted key l) : Sorted key (insert key a l) := by
  induction l with
  | nil => exact List.pairwise_singleton _ _
  | cons b l ih =>
    unfold OrderedSet.insert
    by_cases hab : key a < key b
    · rw [if_pos hab]
      refine List.pairwise_cons.mpr ⟨?_, h⟩
      intro c hc
      rcases List.mem_cons.mp hc with rfl | hc
      · exact hab
      · exact lt_trans hab (h.head_lt c hc)
    · rw [if_neg hab]
      by_cases hba : key b < key a
      · rw [if_pos hba]
        refine List.pairwise_cons.mpr ⟨?_, ih h.tail⟩
        intro c hc
        rcases (mem_insert h.tail).mp hc with hc | ⟨rfl, -⟩
        · exact h.head_lt c hc
        · exact hba
      · rw [if_neg hba]
        exact h

theorem mem_erase (h : Sorted key l) {c : α} :
    c ∈ erase key a l ↔ c ∈ l ∧ key c ≠ key a := by
  induction l with
  | nil => simp [erase]
  | cons b l ih =>
    unfold erase
    by_cases hab : key a < key b
    · rw [if_pos hab]
      exact ⟨fun hc => ⟨hc, h.ne_of_lt hab c hc⟩, fun hc => hc.1⟩
    · rw [if_neg hab]
      by_cases hba : key b < key a
      · rw [if_pos hba, List.mem_cons, ih h.tail, List.mem_cons]
        constructor
        · rintro (rfl | ⟨hc, hne⟩)
          · exact ⟨.inl rfl, ne_of_lt hba⟩
          · exact ⟨.inr hc, hne⟩
        · rintro ⟨rfl | hc, hne⟩
          · exact .inl rfl
          · exact .inr ⟨hc, hne⟩
      · rw [if_neg hba]
        have heq : key b = key a := le_antisymm (not_lt.mp hab) (not_lt.mp hba)
        constructor
        · intro hc
          exact ⟨List.mem_cons_of_mem _ hc, heq ▸ ne_of_gt (h.head_lt c hc)⟩
        · rintro ⟨hc, hne⟩
          rcases List.mem_cons.mp hc with rfl | hc
          · exact absurd heq hne
          · exact hc

theorem Sorted.erase (h : Sorted key l) : Sorted key (erase key a l) := by
  induction l with
  | nil => exact h
  | cons b l ih =>
    unfold OrderedSet.erase
    by_cases hab : key a < key b
    · rw [if_pos hab]
      exact h
    · rw [if_neg hab]
      by_cases hba : key b < key a
      · rw [if_pos hba]
        refine List.pairwise_cons.mpr ⟨?_, ih h.tail⟩
        intro c hc
        exact h.head_lt c ((mem_erase h.tail).mp hc).1
      · rw [if_neg hba]
        exact h.tail

/-- The first element is the one with the least key. -/
theorem Sorted.eq_head (h : Sorted key (b :: l)) (ha : a ∈ b :: l) (hle : key a ≤ key b) :
    a = b := by
  rcases List.mem_cons.mp ha with rfl | ha
  · rfl
  · exact absurd hle (not_le.mpr (h.head_lt a ha))

theorem Sorted.nodup (h : Sorted key l) : l.Nodup := by
  refine h.imp ?_
  rintro a b hab rfl
  exact lt_irrefl _ hab

end OrderedSet
