import Mathlib.Data.List.Forall2
import Mathlib.Data.List.Nodup

/-!
# Facts about lists: counting, the first that fails, two lists side by side
-/

/-- Changing the predicate at one element of a list without duplicates adds one. -/
theorem countP_update {α : Type} {p q : α → Bool} {l : List α} {a : α} (hn : l.Nodup)
    (ha : a ∈ l) (hp : p a = false) (hq : q a = true) (h : ∀ b ∈ l, b ≠ a → q b = p b) :
    l.countP q = l.countP p + 1 := by
  induction l with
  | nil => cases ha
  | cons b l ih =>
    rw [List.nodup_cons] at hn
    rw [List.countP_cons, List.countP_cons]
    rcases List.mem_cons.mp ha with rfl | ha
    · have hl : l.countP q = l.countP p := by
        apply List.countP_congr
        intro c hc
        rw [h c (List.mem_cons_of_mem _ hc) (fun e => hn.1 (e ▸ hc))]
      simp [hp, hq, hl]
    · have hb : b ≠ a := fun e => hn.1 (e ▸ ha)
      rw [ih hn.2 ha (fun c hc => h c (List.mem_cons_of_mem _ hc)),
        h b List.mem_cons_self hb]
      omega

theorem nodup_snoc {α : Type} {l : List α} {a : α} (hl : l.Nodup) (ha : a ∉ l) :
    (l ++ [a]).Nodup := by
  rw [List.nodup_append]
  refine ⟨hl, List.nodup_singleton a, ?_⟩
  rintro b hb c hc rfl
  exact ha (List.mem_singleton.mp hc ▸ hb)

/-- The first element that fails a predicate: all before it are counted. -/
theorem exists_first_fail {α : Type} {p : α → Bool} {l : List α}
    (h : ¬ ∀ a ∈ l, p a = true) :
    ∃ (k : Nat) (a : α), l[k]? = some a ∧ p a = false ∧ k ≤ l.countP p := by
  induction l with
  | nil => simp at h
  | cons b l ih =>
    cases hb : p b with
    | false => exact ⟨0, b, rfl, hb, Nat.zero_le _⟩
    | true =>
      obtain ⟨k, a, hk, ha, hle⟩ := ih (fun hl => h (List.forall_mem_cons.mpr ⟨hb, hl⟩))
      refine ⟨k + 1, a, hk, ha, ?_⟩
      rw [List.countP_cons_of_pos hb]
      omega

theorem exists_succ_of_length_le {α : Type} {l : List α} {a : α} {n : Nat}
    (h : (a :: l).length ≤ n) : ∃ m, n = m + 1 ∧ l.length ≤ m := by
  rw [List.length_cons] at h
  exact ⟨n - 1, by omega, by omega⟩

theorem exists_of_forall₂ {α β : Type} {R : α → β → Prop} {l : List α} {bs : List β}
    (h : List.Forall₂ R l bs) {a : α} (ha : a ∈ l) : ∃ b ∈ bs, R a b := by
  induction h with
  | nil => cases ha
  | cons hab _ ih =>
    rcases List.mem_cons.mp ha with rfl | ha
    · exact ⟨_, List.mem_cons_self, hab⟩
    · obtain ⟨b, hb, hr⟩ := ih ha
      exact ⟨b, List.mem_cons_of_mem _ hb, hr⟩

/-! ## A list, its image, and the image of that -/

section Forall₂

variable {α β γ : Type} {A : α → β → Prop} {R : β → γ → Prop} {S : α → γ → Prop} {F : α → Prop}
  {l : List α} {bs : List β} {cs : List γ}

theorem exists_forall₂_iff (h : List.Forall₂ A l bs)
    (hF : ∀ a b, A a b → ((∃ c, R b c ∧ S a c) ↔ F a)) :
    (∃ cs, List.Forall₂ R bs cs ∧ List.Forall₂ S l cs) ↔ ∀ a ∈ l, F a := by
  induction h with
  | nil => exact ⟨fun _ _ ha => (by cases ha), fun _ => ⟨[], .nil, .nil⟩⟩
  | cons hab _ ih =>
    rw [List.forall_mem_cons, ← ih, ← hF _ _ hab]
    constructor
    · rintro ⟨_, _ | ⟨hR, hRs⟩, _ | ⟨hS, hSs⟩⟩
      exact ⟨⟨_, hR, hS⟩, _, hRs, hSs⟩
    · rintro ⟨⟨c, hR, hS⟩, cs, hRs, hSs⟩
      exact ⟨c :: cs, .cons hR hRs, .cons hS hSs⟩

theorem forall₂_append_left_iff {l' : List α} : List.Forall₂ A (l ++ l') bs ↔
    ∃ first rest, List.Forall₂ A l first ∧ List.Forall₂ A l' rest ∧ bs = first ++ rest := by
  induction l generalizing bs with
  | nil =>
    constructor
    · exact fun h => ⟨[], bs, .nil, h, rfl⟩
    · rintro ⟨first, rest, hfirst, hrest, rfl⟩
      cases hfirst
      exact hrest
  | cons a l ih =>
    rw [List.cons_append, List.forall₂_cons_left_iff]
    constructor
    · rintro ⟨b, bs, hb, h, rfl⟩
      obtain ⟨first, rest, hfirst, hrest, rfl⟩ := ih.mp h
      exact ⟨b :: first, rest, .cons hb hfirst, hrest, rfl⟩
    · rintro ⟨first, rest, hfirst, hrest, rfl⟩
      rcases hfirst with _ | ⟨hb, hfirst⟩
      exact ⟨_, _, hb, ih.mpr ⟨_, rest, hfirst, hrest, rfl⟩, rfl⟩

/-- Two steps for each element of a list, the first of all elements before the second of any. -/
theorem forall₂_comp_iff {δ : Type} {g : α → δ} {Q : δ → β → γ → Prop} :
    (∃ bs, List.Forall₂ A l bs ∧
      List.Forall₂ (fun (p : δ × β) c => Q p.1 p.2 c) ((l.map g).zip bs) cs) ↔
    List.Forall₂ (fun a c => ∃ b, A a b ∧ Q (g a) b c) l cs := by
  induction l generalizing cs with
  | nil =>
    constructor
    · rintro ⟨bs, -, h⟩
      cases h
      exact .nil
    · rintro ⟨⟩
      exact ⟨[], .nil, .nil⟩
  | cons a l ih =>
    rw [List.forall₂_cons_left_iff]
    constructor
    · rintro ⟨bs, hbs, h⟩
      obtain ⟨b, bs, hb, hrest, rfl⟩ := List.forall₂_cons_left_iff.mp hbs
      rw [List.map_cons, List.zip_cons_cons, List.forall₂_cons_left_iff] at h
      obtain ⟨c, cs, hc, hcs, rfl⟩ := h
      exact ⟨c, cs, ⟨b, hb, hc⟩, ih.mp ⟨bs, hrest, hcs⟩, rfl⟩
    · rintro ⟨c, cs, ⟨b, hb, hc⟩, h, rfl⟩
      obtain ⟨bs, hbs, hcs⟩ := ih.mpr h
      exact ⟨b :: bs, .cons hb hbs, .cons hc hcs⟩

theorem forall₂_iff (h : List.Forall₂ A l bs) (hR : List.Forall₂ R bs cs)
    (hF : ∀ a b c, A a b → R b c → (S a c ↔ F a)) :
    List.Forall₂ S l cs ↔ ∀ a ∈ l, F a := by
  induction h generalizing cs with
  | nil =>
    cases hR
    exact ⟨fun _ _ ha => (by cases ha), fun _ => .nil⟩
  | cons hab _ ih =>
    rcases hR with _ | ⟨hbc, hR⟩
    rw [List.forall_mem_cons, ← ih hR, ← hF _ _ _ hab hbc, List.forall₂_cons]

end Forall₂
