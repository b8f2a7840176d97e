import NodeSvn.Lib.Store

/-!
# Chains of blocks that own each other

A block has a content and may own one other block; roots from outside own blocks, too:

    Chain s p xs         addresses and contents found on the way from the pointer `p`
    OwnedOnce roots s    each block has exactly one owner, and no pointer dangles
    allocAll bs s        a new chain with the contents `bs`, its last block first
    releaseAll as s      the blocks `as` are gone, the last one first

`OwnedOnce` survives when a root takes a new chain (`OwnedOnce.allocAll`), gives its chain to
another one (`OwnedOnce.give`) or has it released (`OwnedOnce.releaseAll`), and the chains of
the other roots stay as they are.
-/

structure Linked (β : Type) where
  content : β
  child : Option Nat
  deriving DecidableEq, Repr

namespace Linked

variable {β ι : Type} {s t : Store (Linked β)} {p : Option Nat} {a c : Nat} {b : β}
  {xs ys : List (Nat × β)}

def Chain (s : Store (Linked β)) : Option Nat → List (Nat × β) → Prop
  | p, [] => p = none
  | p, (a, b) :: xs => p = some a ∧ ∃ child, s.read a = some ⟨b, child⟩ ∧ Chain s child xs

theorem Chain.keeps (h : Chain s p xs) (hk : s.Keeps t) : Chain t p xs := by
  induction xs generalizing p with
  | nil => exact h
  | cons x xs ih =>
    obtain ⟨hp, child, hread, hrest⟩ := h
    exact ⟨hp, child, hk.read_some hread, ih hrest⟩

theorem Chain.unique (h : Chain s p xs) (h' : Chain s p ys) : xs = ys := by
  induction xs generalizing p ys with
  | nil =>
    cases ys with
    | nil => rfl
    | cons y ys => cases h.symm.trans h'.1
  | cons x xs ih =>
    obtain ⟨hp, child, hread, hrest⟩ := h
    cases ys with
    | nil => cases hp.symm.trans h'
    | cons y ys =>
      obtain ⟨hp', child', hread', hrest'⟩ := h'
      have haddress : x.1 = y.1 := Option.some.inj (hp.symm.trans hp')
      rw [← haddress, hread, Option.some.injEq, Linked.mk.injEq] at hread'
      obtain ⟨hcontent, rfl⟩ := hread'
      rw [ih hrest hrest', Prod.ext haddress hcontent]

/-- A block that no pointer on the way leads to is not missed. -/
theorem Chain.release (h : Chain s p xs) (hp : p ≠ some a)
    (hs : ∀ c v, s.read c = some v → v.child ≠ some a) : Chain (s.release a) p xs := by
  induction xs generalizing p with
  | nil => exact h
  | cons x xs ih =>
    obtain ⟨rfl, child, hread, hrest⟩ := h
    have hne : x.1 ≠ a := fun heq => hp (congrArg some heq)
    refine ⟨rfl, child, ?_, ih hrest (hs _ _ hread)⟩
    rw [Store.read_release_of_ne hne, hread]

/-! ## Who owns a block -/

inductive Owner (ι : Type) where
  | root (i : ι)
  | block (c : Nat)

def Owns (roots : ι → Option Nat) (s : Store (Linked β)) : Owner ι → Nat → Prop
  | .root i, a => roots i = some a
  | .block c, a => ∃ b, s.read c = some ⟨b, some a⟩

structure OwnedOnce (roots : ι → Option Nat) (s : Store (Linked β)) : Prop where
  /-- No pointer dangles. -/
  live : ∀ o a, Owns roots s o a → ∃ v, s.read a = some v
  unique : ∀ o o' a, Owns roots s o a → Owns roots s o' a → o = o'
  owned : ∀ a v, s.read a = some v → ∃ o, Owns roots s o a
  /-- A block is younger than the one it owns, so there are no cycles. -/
  descends : ∀ c b a, s.read c = some ⟨b, some a⟩ → a < c

section Laws

variable {roots : ι → Option Nat} {roots' : ι → Option Nat} {o o' x y : Owner ι} {i j : ι}

theorem ownedOnce_empty : OwnedOnce (fun _ : ι => none) (Store.empty : Store (Linked β)) where
  live o a h := by
    rcases o with i | c
    · cases h
    · obtain ⟨_, h⟩ := h
      cases h
  unique o o' a h := by
    rcases o with i | c
    · cases h
    · obtain ⟨_, h⟩ := h
      cases h
  owned a v h := by cases h
  descends c b a h := by cases h

theorem OwnedOnce.lt_next (h : OwnedOnce roots s) (ho : Owns roots s o a) : a < s.next := by
  obtain ⟨v, hv⟩ := h.live o a ho
  exact Store.lt_next_of_read hv

/-- Each block of a chain has a lower address than the one before it. -/
theorem OwnedOnce.chain_le (h : OwnedOnce roots s) (hc : Chain s (some a) xs) :
    (∀ x ∈ xs, x.1 ≤ a) ∧ xs.length ≤ a + 1 := by
  induction xs generalizing a with
  | nil => cases hc
  | cons x xs ih =>
    obtain ⟨heq, child, hread, hrest⟩ := hc
    obtain rfl := Option.some.inj heq
    cases child with
    | none =>
      cases xs with
      | nil => simp
      | cons y ys => cases hrest.1
    | some c =>
      have hlt := h.descends _ _ _ hread
      obtain ⟨hle, hlength⟩ := ih hrest
      refine ⟨?_, by rw [List.length_cons]; omega⟩
      intro y hy
      rcases List.mem_cons.mp hy with rfl | hy
      · exact Nat.le_refl _
      · exact Nat.le_of_lt (Nat.lt_of_le_of_lt (hle y hy) hlt)

theorem OwnedOnce.length_le (h : OwnedOnce roots s) (hc : Chain s p xs) : xs.length ≤ s.next := by
  cases xs with
  | nil => exact Nat.zero_le _
  | cons x xs =>
    obtain ⟨rfl, child, hread, hrest⟩ := hc
    have hlt := Store.lt_next_of_read hread
    have hchain : Chain s (some x.1) (x :: xs) := ⟨rfl, child, hread, hrest⟩
    have hle := (h.chain_le hchain).2
    omega

/-- The addresses on the way from a pointer are those of blocks, each met once. -/
theorem OwnedOnce.chain_nodup (h : OwnedOnce roots s) (hc : Chain s p xs) :
    (xs.map Prod.fst).Nodup ∧ ∀ a ∈ xs.map Prod.fst, ∃ v, s.read a = some v := by
  induction xs generalizing p with
  | nil => exact ⟨List.nodup_nil, fun a ha => by cases ha⟩
  | cons x xs ih =>
    obtain ⟨-, child, hread, hrest⟩ := hc
    obtain ⟨hnodup, hlive⟩ := ih hrest
    rw [List.map_cons, List.nodup_cons]
    refine ⟨⟨?_, hnodup⟩, ?_⟩
    · intro hmem
      obtain ⟨y, hy, heq⟩ := List.mem_map.mp hmem
      cases child with
      | none =>
        cases xs with
        | nil => cases hy
        | cons z zs => cases hrest.1
      | some c =>
        have hle := (h.chain_le hrest).1 y hy
        have hlt := h.descends _ _ _ hread
        omega
    · intro a ha
      rcases List.mem_cons.mp ha with rfl | ha
      · exact ⟨_, hread⟩
      · exact hlive a ha

/-- The first block of a chain has no pointer to it but that of the root. -/
theorem OwnedOnce.child_ne (h : OwnedOnce roots s) (hi : roots i = some a) :
    ∀ c v, s.read c = some v → v.child ≠ some a := by
  rintro c ⟨b, child⟩ hread rfl
  cases h.unique (.root i) (.block c) a hi ⟨b, hread⟩

/-- From every pointer there is a chain. -/
theorem OwnedOnce.exists_chain (h : OwnedOnce roots s) (ho : ∀ a, p = some a → Owns roots s o a) :
    ∃ xs, Chain s p xs := by
  cases p with
  | none => exact ⟨[], rfl⟩
  | some a =>
    have howns := ho a rfl
    clear ho
    induction a using Nat.strongRecOn generalizing o with
    | ind a ih =>
      obtain ⟨⟨b, child⟩, hread⟩ := h.live o a howns
      cases child with
      | none => exact ⟨[(a, b)], rfl, none, hread, rfl⟩
      | some c =>
        obtain ⟨xs, hxs⟩ := ih c (h.descends _ _ _ hread) (o := .block a) ⟨b, hread⟩
        exact ⟨(a, b) :: xs, rfl, some c, hread, hxs⟩

/-- Without roots there are no blocks: the owner of a block would be a younger block. -/
theorem OwnedOnce.read_none (h : OwnedOnce roots s) (hnone : ∀ i, roots i = none) (a : Nat) :
    s.read a = none := by
  have hdown : ∀ d c, s.next ≤ c + d → ¬ ∃ o, Owns roots s o c := by
    intro d
    induction d with
    | zero =>
      rintro c hc ⟨o, ho⟩
      have hlt := h.lt_next ho
      omega
    | succ d ih =>
      rintro c hc ⟨o, ho⟩
      rcases o with i | b
      · cases (hnone i).symm.trans ho
      · obtain ⟨d, hb⟩ := ho
        have hlt := h.descends b d c hb
        exact ih b (by omega) (h.owned b _ hb)
  cases hread : s.read a with
  | none => rfl
  | some v => exact absurd (h.owned a v hread) (hdown s.next a (by omega))

/-! ## Moving a pointer

`x` has now what `y` had, what `x` had is gone, and the others have what they had. -/

theorem OwnedOnce.unique_of_moved (h : OwnedOnce roots s)
    (howns : ∀ o a, Owns roots' t o a ↔
      (o = x ∧ Owns roots s y a) ∨ (o ≠ x ∧ o ≠ y ∧ Owns roots s o a))
    (ho : Owns roots' t o a) (ho' : Owns roots' t o' a) : o = o' := by
  rcases (howns o a).mp ho with ⟨rfl, hy⟩ | ⟨-, hne, ha⟩
  · rcases (howns o' a).mp ho' with ⟨rfl, -⟩ | ⟨-, hne', ha'⟩
    · rfl
    · exact absurd (h.unique _ _ _ ha' hy) hne'
  · rcases (howns o' a).mp ho' with ⟨rfl, hy'⟩ | ⟨-, -, ha'⟩
    · exact absurd (h.unique _ _ _ ha hy') hne
    · exact h.unique _ _ _ ha ha'

theorem exists_owner_of_moved
    (howns : ∀ o a, Owns roots' t o a ↔
      (o = x ∧ Owns roots s y a) ∨ (o ≠ x ∧ o ≠ y ∧ Owns roots s o a))
    (ho : Owns roots s o a) (hx : ¬ Owns roots s x a) : ∃ o, Owns roots' t o a := by
  by_cases hy : o = y
  · exact ⟨x, (howns x a).mpr (.inl ⟨rfl, hy ▸ ho⟩)⟩
  · exact ⟨o, (howns o a).mpr (.inr ⟨fun heq => hx (heq ▸ ho), hy, ho⟩)⟩

variable [DecidableEq ι]

theorem owns_give (hij : i ≠ j) :
    Owns (Function.update (Function.update roots i none) j (roots i)) s o a ↔
      (o = .root j ∧ Owns roots s (.root i) a) ∨
        (o ≠ .root j ∧ o ≠ .root i ∧ Owns roots s o a) := by
  rcases o with k | c
  · by_cases hk : k = j
    · subst hk
      simp [Owns]
    · by_cases hki : k = i
      · subst hki
        simp [Owns, hij]
      · simp [Owns, hk, hki]
  · simp [Owns]

/-- The chain of one root becomes that of another one, which had none. -/
theorem OwnedOnce.give (h : OwnedOnce roots s) (hij : i ≠ j) (hj : roots j = none) :
    OwnedOnce (Function.update (Function.update roots i none) j (roots i)) s where
  live o a ho := by
    rcases (owns_give hij).mp ho with ⟨-, ho⟩ | ⟨-, -, ho⟩
    · exact h.live _ _ ho
    · exact h.live _ _ ho
  unique o o' a := h.unique_of_moved fun _ _ => owns_give hij
  owned a v hv := by
    obtain ⟨o, ho⟩ := h.owned a v hv
    refine exists_owner_of_moved (fun _ _ => owns_give hij) ho ?_
    intro hr
    cases hj.symm.trans hr
  descends := h.descends

theorem owns_pop (hread : s.read a = some ⟨b, p⟩) :
    Owns (Function.update roots i p) (s.release a) o c ↔
      (o = .root i ∧ Owns roots s (.block a) c) ∨
        (o ≠ .root i ∧ o ≠ .block a ∧ Owns roots s o c) := by
  rcases o with k | d
  · by_cases hk : k = i
    · subst hk
      simp [Owns, hread]
    · simp [Owns, hk]
  · by_cases hd : d = a
    · subst hd
      simp [Owns]
    · simp [Owns, Store.read_release_of_ne hd, hd]

/-- The first block of a chain is released. -/
theorem OwnedOnce.pop (h : OwnedOnce roots s) (hi : roots i = some a)
    (hread : s.read a = some ⟨b, p⟩) :
    OwnedOnce (Function.update roots i p) (s.release a) := by
  have hroot : Owns roots s (.root i) a := hi
  have hold : ∀ c v, (s.release a).read c = some v → c ≠ a ∧ s.read c = some v := by
    intro c v hv
    by_cases hc : c = a
    · rw [hc, Store.read_release_self] at hv
      cases hv
    · rw [Store.read_release_of_ne hc] at hv
      exact ⟨hc, hv⟩
  constructor
  · intro o c ho
    have hlive : ∃ v, s.read c = some v := by
      rcases (owns_pop hread).mp ho with ⟨-, ho⟩ | ⟨-, -, ho⟩
      · exact h.live _ _ ho
      · exact h.live _ _ ho
    have hne : c ≠ a := by
      rintro rfl
      rcases (owns_pop hread).mp ho with ⟨-, ho⟩ | ⟨hne, -, ho⟩
      · cases h.unique _ _ _ ho hroot
      · exact hne (h.unique _ _ _ ho hroot)
    rw [Store.read_release_of_ne hne]
    exact hlive
  · intro o o' c
    exact h.unique_of_moved fun _ _ => owns_pop hread
  · intro c v hv
    obtain ⟨hc, hv⟩ := hold c v hv
    obtain ⟨o, ho⟩ := h.owned c v hv
    refine exists_owner_of_moved (fun _ _ => owns_pop hread) ho ?_
    intro hr
    exact hc (Option.some.inj (hr.symm.trans hi))
  · intro c d e hc
    exact h.descends c d e (hold c _ hc).2

theorem owns_push (ho : Owns (Function.update roots i (some s.next)) (s.alloc ⟨b, roots i⟩).2 o a) :
    (o = .root i ∧ a = s.next) ∨ (o = .block s.next ∧ Owns roots s (.root i) a) ∨
      (o ≠ .root i ∧ o ≠ .block s.next ∧ Owns roots s o a) := by
  rcases o with k | c
  · by_cases hk : k = i
    · subst hk
      rw [Owns, Function.update_self, Option.some.injEq] at ho
      exact .inl ⟨rfl, ho.symm⟩
    · rw [Owns, Function.update_of_ne hk] at ho
      exact .inr (.inr ⟨by simpa using hk, by simp, ho⟩)
  · obtain ⟨d, hread⟩ := ho
    by_cases hc : c = s.next
    · rw [hc, Store.read_alloc_self, Option.some.injEq, Linked.mk.injEq] at hread
      exact .inr (.inl ⟨by rw [hc], hread.2⟩)
    · rw [Store.read_alloc_of_ne hc] at hread
      exact .inr (.inr ⟨by simp, by simpa using hc, d, hread⟩)

/-- A new block is put before the chain of a root. -/
theorem OwnedOnce.push (h : OwnedOnce roots s) (i : ι) (b : β) :
    OwnedOnce (Function.update roots i (some s.next)) (s.alloc ⟨b, roots i⟩).2 := by
  have hfresh : ∀ o, ¬ Owns roots s o s.next := by
    intro o ho
    exact Nat.lt_irrefl _ (h.lt_next ho)
  constructor
  · intro o a ho
    rcases owns_push ho with ⟨-, rfl⟩ | ⟨-, ho⟩ | ⟨-, -, ho⟩
    · exact ⟨_, Store.read_alloc_self⟩
    · obtain ⟨v, hv⟩ := h.live _ _ ho
      rw [Store.read_alloc_of_ne (Nat.ne_of_lt (h.lt_next ho))]
      exact ⟨v, hv⟩
    · obtain ⟨v, hv⟩ := h.live _ _ ho
      rw [Store.read_alloc_of_ne (Nat.ne_of_lt (h.lt_next ho))]
      exact ⟨v, hv⟩
  · intro o o' a ho ho'
    rcases owns_push ho with ⟨rfl, rfl⟩ | ⟨rfl, hr⟩ | ⟨hne, -, hr⟩
    · rcases owns_push ho' with ⟨rfl, -⟩ | ⟨-, hr'⟩ | ⟨-, -, hr'⟩
      · rfl
      · exact absurd hr' (hfresh _)
      · exact absurd hr' (hfresh _)
    · rcases owns_push ho' with ⟨-, rfl⟩ | ⟨rfl, -⟩ | ⟨hne', -, hr'⟩
      · exact absurd hr (hfresh _)
      · rfl
      · exact absurd (h.unique _ _ _ hr' hr) hne'
    · rcases owns_push ho' with ⟨-, rfl⟩ | ⟨-, hr'⟩ | ⟨-, -, hr'⟩
      · exact absurd hr (hfresh _)
      · exact absurd (h.unique _ _ _ hr hr') hne
      · exact h.unique _ _ _ hr hr'
  · intro a v hv
    by_cases ha : a = s.next
    · exact ⟨.root i, by rw [Owns, Function.update_self, ha]⟩
    · rw [Store.read_alloc_of_ne ha] at hv
      obtain ⟨o, ho⟩ := h.owned a v hv
      rcases o with k | c
      · by_cases hk : k = i
        · subst hk
          exact ⟨.block s.next, b, by rw [Store.read_alloc_self, show roots k = some a from ho]⟩
        · exact ⟨.root k, by rw [Owns, Function.update_of_ne hk]; exact ho⟩
      · obtain ⟨d, hread⟩ := ho
        refine ⟨.block c, d, ?_⟩
        have hc : c ≠ s.next := Nat.ne_of_lt (Store.lt_next_of_read hread)
        rw [Store.read_alloc_of_ne hc, hread]
  · intro c d a hread
    by_cases hc : c = s.next
    · rw [hc, Store.read_alloc_self, Option.some.injEq, Linked.mk.injEq] at hread
      rw [hc]
      exact h.lt_next (o := .root i) hread.2
    · rw [Store.read_alloc_of_ne hc] at hread
      exact h.descends c d a hread

/-! ## Whole chains -/

def allocAll : List β → Store (Linked β) → Option Nat × Store (Linked β)
  | [], s => (none, s)
  | b :: bs, s =>
    let (p, s) := allocAll bs s
    let (a, s) := s.alloc ⟨b, p⟩
    (some a, s)

def releaseAll (as : List Nat) (s : Store (Linked β)) : Store (Linked β) :=
  as.foldr Store.release s

theorem allocAll_keeps (bs : List β) (s : Store (Linked β)) : s.Keeps (allocAll bs s).2 := by
  induction bs with
  | nil => exact .refl s
  | cons b bs ih => exact ih.alloc _

theorem exists_chain_allocAll (bs : List β) (s : Store (Linked β)) :
    ∃ xs, Chain (allocAll bs s).2 (allocAll bs s).1 xs ∧ xs.map Prod.snd = bs := by
  induction bs with
  | nil => exact ⟨[], rfl, rfl⟩
  | cons b bs ih =>
    obtain ⟨xs, hxs, hbs⟩ := ih
    refine ⟨((allocAll bs s).2.next, b) :: xs, ⟨rfl, _, Store.read_alloc_self, ?_⟩, ?_⟩
    · exact hxs.keeps ((Store.Keeps.refl _).alloc _)
    · rw [List.map_cons, hbs]

theorem released_allocAll (bs : List β) :
    (allocAll bs s).2.Released a ↔ s.Released a := by
  induction bs with
  | nil => exact Iff.rfl
  | cons b bs ih => exact Store.released_alloc.trans ih

theorem OwnedOnce.allocAll (h : OwnedOnce roots s) (hi : roots i = none) (bs : List β) :
    OwnedOnce (Function.update roots i (allocAll bs s).1) (allocAll bs s).2 := by
  induction bs with
  | nil =>
    rw [Linked.allocAll, ← hi, Function.update_eq_self]
    exact h
  | cons b bs ih =>
    have hpush := ih.push i b
    rw [Function.update_self, Function.update_idem] at hpush
    exact hpush

theorem releaseAll_release (as : List Nat) :
    releaseAll as (s.release a) = (releaseAll as s).release a := by
  induction as with
  | nil => rfl
  | cons c as ih =>
    show (releaseAll as (s.release a)).release c = ((releaseAll as s).release c).release a
    rw [ih, Store.release_comm]

theorem released_releaseAll {as : List Nat} (has : ∀ c ∈ as, c < s.next) :
    (releaseAll as s).next = s.next ∧
      ∀ a, (releaseAll as s).Released a ↔ a ∈ as ∨ s.Released a := by
  induction as with
  | nil => exact ⟨rfl, fun a => by simp [releaseAll]⟩
  | cons c as ih =>
    obtain ⟨hnext, hrel⟩ := ih fun d hd => has d (List.mem_cons_of_mem _ hd)
    refine ⟨hnext, fun a => ?_⟩
    have hlt : c < (releaseAll as s).next := by
      rw [hnext]
      exact has c List.mem_cons_self
    show ((releaseAll as s).release c).Released a ↔ _
    rw [Store.released_release hlt, hrel, List.mem_cons, or_assoc]

theorem OwnedOnce.releaseAll (h : OwnedOnce roots s) (hi : Chain s (roots i) xs) :
    OwnedOnce (Function.update roots i none) (releaseAll (xs.map Prod.fst) s) ∧
      ∀ j ys, j ≠ i → Chain s (roots j) ys →
        Chain (releaseAll (xs.map Prod.fst) s) (roots j) ys := by
  induction xs generalizing roots s with
  | nil =>
    have hnone : roots i = none := hi
    refine ⟨?_, fun j ys _ hj => hj⟩
    rw [← hnone, Function.update_eq_self]
    exact h
  | cons x xs ih =>
    obtain ⟨hx, child, hread, hrest⟩ := hi
    have hne : child ≠ some x.1 := h.child_ne hx _ _ hread
    have hrest' := hrest.release hne (h.child_ne hx)
    obtain ⟨howned, hothers⟩ := ih (h.pop hx hread) (by rw [Function.update_self]; exact hrest')
    rw [Function.update_idem] at howned
    rw [releaseAll_release] at howned hothers
    refine ⟨howned, fun j ys hji hj => ?_⟩
    have hjx : roots j ≠ some x.1 := by
      intro heq
      cases h.unique (.root j) (.root i) x.1 heq hx
      exact hji rfl
    have hj' := hothers j ys hji
    rw [Function.update_of_ne hji] at hj'
    exact hj' (hj.release hjx (h.child_ne hx))

end Laws

end Linked
