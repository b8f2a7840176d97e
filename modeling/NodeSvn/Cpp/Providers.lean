import Mathlib.Data.List.Nodup
import Mathlib.Data.Nat.Basic
import Mathlib.Logic.Equiv.Basic
import NodeSvn.Cpp.Trampoline
import NodeSvn.Lib.Lists
import NodeSvn.Lib.OrderedSet

/-!
# The order of the authentication providers

`svn::client` keeps them in a `std::set` of shared pointers, which is ordered by the addresses
of the providers:

    add_simple_auth_provider       insert
    remove_simple_auth_provider    erase
    invoke_simple_auth_providers   asks from the lowest address on, until one answers

Objects that are live at one time have addresses of their own, and nothing else is known of
them.  So who is asked first is known only if there is no choice (`independent_iff`).
-/

namespace NodeSvn

/-! ## Registration -/

/-- A call on the client; a provider is named by a number that no other one ever has. -/
inductive RegistrationCall where
  | add (provider : Nat)
  | remove (provider : Nat)
  deriving DecidableEq, Repr

namespace RegistrationCall

def provider : RegistrationCall → Nat
  | add p => p
  | remove p => p

/-- What the call does to `_simple_auth_providers`. -/
def run (address : Nat → Nat) : RegistrationCall → List Nat → List Nat
  | add p, providers => OrderedSet.insert address p providers
  | remove p, providers => OrderedSet.erase address p providers

/-- Those registered, in the order in which they were. -/
def register : RegistrationCall → List Nat → List Nat
  | add p, l => if p ∈ l then l else l ++ [p]
  | remove p, l => l.erase p

end RegistrationCall

/-- `_simple_auth_providers` after the calls. -/
def simpleAuthProviders (address : Nat → Nat) (calls : List RegistrationCall) : List Nat :=
  calls.foldl (fun providers c => c.run address providers) []

def registeredProviders (calls : List RegistrationCall) : List Nat :=
  calls.foldl (fun l c => c.register l) []

/-- The argument of each call has an address that no other registered provider has.  One that
is gone may have had it. -/
def Distinct (address : Nat → Nat) : List Nat → List RegistrationCall → Prop
  | _, [] => True
  | l, c :: calls => (∀ q ∈ l, address q = address c.provider → q = c.provider) ∧
    Distinct address (c.register l) calls

/-! ## Asking -/

/-- `invoke_simple_auth_providers`: whom it asks, and what it returns. -/
def consult (answer : Nat → Except Exn (Option SimpleAuth)) :
    List Nat → List Nat × Except Exn (Option SimpleAuth)
  | [] => ([], .ok none)
  | p :: rest =>
    match answer p with
    | .ok none => (p :: (consult answer rest).1, (consult answer rest).2)
    | .ok (some auth) => ([p], .ok (some auth))
    | .error e => ([p], .error e)

/-- The credential is that of the function the trampoline calls. -/
theorem consult_snd
    (provider : Nat → List UInt8 → Option (List UInt8) → Bool → Except Exn (Option SimpleAuth))
    (realm : List UInt8) (username : Option (List UInt8)) (maySave : Bool) (l : List Nat) :
    (consult (fun p => provider p realm username maySave) l).2 =
      invokeSimpleAuthProviders realm username maySave (l.map provider) := by
  induction l with
  | nil => rfl
  | cons p rest ih =>
    rw [List.map_cons, invokeSimpleAuthProviders, consult]
    cases provider p realm username maySave with
    | error e => rfl
    | ok result =>
      cases result with
      | none => exact ih
      | some auth => rfl

section Laws

variable {address : Nat → Nat} {answer : Nat → Except Exn (Option SimpleAuth)}
  {s l : List Nat} {calls : List RegistrationCall} {c : RegistrationCall} {p : Nat}

theorem head?_consult (p : Nat) (rest : List Nat) :
    (consult answer (p :: rest)).1.head? = some p := by
  unfold consult
  split <;> rfl

/-! ## The set and those registered -/

/-- The set has those registered, by their addresses. -/
structure Agrees (address : Nat → Nat) (s l : List Nat) : Prop where
  sorted : OrderedSet.Sorted address s
  mem : ∀ p, p ∈ s ↔ p ∈ l
  nodup : l.Nodup

theorem Agrees.length (h : Agrees address s l) : s.length = l.length :=
  ((List.perm_ext_iff_of_nodup h.sorted.nodup h.nodup).mpr h.mem).length_eq

theorem Agrees.run (h : Agrees address s l)
    (hc : ∀ q ∈ l, address q = address c.provider → q = c.provider) :
    Agrees address (c.run address s) (c.register l) := by
  cases c with
  | add p =>
    refine ⟨h.sorted.insert, fun q => ?_, ?_⟩
    · show q ∈ OrderedSet.insert address p s ↔ q ∈ if p ∈ l then l else l ++ [p]
      rw [OrderedSet.mem_insert h.sorted, h.mem]
      by_cases hp : p ∈ l
      · rw [if_pos hp]
        constructor
        · rintro (hq | ⟨rfl, -⟩)
          · exact hq
          · exact hp
        · exact .inl
      · have hother : ∀ d ∈ s, address d ≠ address p := by
          intro d hd heq
          obtain rfl : d = p := hc d ((h.mem d).mp hd) heq
          exact hp ((h.mem d).mp hd)
        rw [if_neg hp, List.mem_append, List.mem_singleton, and_iff_left hother]
    · show (if p ∈ l then l else l ++ [p]).Nodup
      by_cases hp : p ∈ l
      · rw [if_pos hp]
        exact h.nodup
      · rw [if_neg hp]
        exact nodup_snoc h.nodup hp
  | remove p =>
    refine ⟨h.sorted.erase, fun q => ?_, h.nodup.erase p⟩
    show q ∈ OrderedSet.erase address p s ↔ q ∈ l.erase p
    rw [OrderedSet.mem_erase h.sorted, h.mem, h.nodup.mem_erase_iff, and_comm]
    refine and_congr_left fun hq => not_congr ?_
    exact ⟨hc q hq, fun heq => heq ▸ rfl⟩

/-- The calls keep the agreement. -/
theorem Agrees.runAll (h : Agrees address s l) (hd : Distinct address l calls) :
    Agrees address (calls.foldl (fun providers c => c.run address providers) s)
      (calls.foldl (fun l c => c.register l) l) := by
  induction calls generalizing s l with
  | nil => exact h
  | cons c calls ih => exact ih (h.run hd.1) hd.2

theorem agrees_registered (hd : Distinct address [] calls) :
    Agrees address (simpleAuthProviders address calls) (registeredProviders calls) :=
  Agrees.runAll ⟨.nil, fun _ => Iff.rfl, List.nodup_nil⟩ hd

theorem distinct_of_injective (calls : List RegistrationCall) (h : Function.Injective address)
    (l : List Nat) :
    Distinct address l calls := by
  induction calls generalizing l with
  | nil => trivial
  | cons c calls ih => exact ⟨fun q _ heq => h heq, ih _⟩

/-! ## Two runs -/

/-- Of two providers, the one that has the lower number is asked first if the numbers are the
addresses, and the other one if these two are swapped. -/
theorem head_of_swapped {m q : Nat} {rest : List Nat}
    (hid : simpleAuthProviders id calls = m :: q :: rest) :
    ∃ rest', simpleAuthProviders (Equiv.swap m q) calls = q :: rest' := by
  have hagrees := agrees_registered (distinct_of_injective calls
    Function.injective_id [])
  have hswapped := agrees_registered (distinct_of_injective calls
    (Equiv.swap m q).injective [])
  rw [hid] at hagrees
  have hsorted := hagrees.sorted
  have hmem : ∀ p, p ∈ simpleAuthProviders (Equiv.swap m q) calls ↔ p ∈ m :: q :: rest :=
    fun p => (hswapped.mem p).trans (hagrees.mem p).symm
  have hle : ∀ p ∈ m :: q :: rest, m ≤ p := by
    intro p hp
    rcases List.mem_cons.mp hp with rfl | hp
    · exact Nat.le_refl _
    · exact Nat.le_of_lt (hsorted.head_lt p hp)
  have hq : q ∈ simpleAuthProviders (Equiv.swap m q) calls :=
    (hmem q).mpr (List.mem_cons_of_mem _ List.mem_cons_self)
  cases hfirst : simpleAuthProviders (Equiv.swap m q) calls with
  | nil =>
    rw [hfirst] at hq
    cases hq
  | cons first rest' =>
    have hfirstMem : first ∈ m :: q :: rest :=
      (hmem first).mp (hfirst ▸ List.mem_cons_self)
    -- the address of `q` is now `m`, and none is below that
    have hlow : (Equiv.swap m q) q ≤ (Equiv.swap m q) first := by
      rw [Equiv.swap_apply_right]
      by_cases hm : first = m
      · rw [hm, Equiv.swap_apply_left]
        exact hle q (List.mem_cons_of_mem _ List.mem_cons_self)
      · by_cases hfq : first = q
        · rw [hfq, Equiv.swap_apply_right]
        · rw [Equiv.swap_apply_of_ne_of_ne hm hfq]
          exact hle first hfirstMem
    rw [hfirst] at hq
    have hs := hswapped.sorted
    rw [hfirst] at hs
    exact ⟨rest', by rw [hs.eq_head hq hlow]⟩

/-- **Who is asked, and what is returned, is the same for all addresses exactly if at most one
provider is registered.** -/
theorem independent_iff (calls : List RegistrationCall)
    (answer : Nat → Except Exn (Option SimpleAuth)) :
    (∀ address address' : Nat → Nat, Distinct address [] calls → Distinct address' [] calls →
      consult answer (simpleAuthProviders address calls) =
        consult answer (simpleAuthProviders address' calls)) ↔
      (registeredProviders calls).length ≤ 1 := by
  constructor
  · intro h
    have hid := agrees_registered (distinct_of_injective calls
      Function.injective_id [])
    rw [← hid.length]
    match hs : simpleAuthProviders id calls with
    | [] => exact Nat.zero_le _
    | [_] => exact Nat.le_refl _
    | m :: q :: rest =>
      exfalso
      obtain ⟨rest', hswapped⟩ := head_of_swapped hs
      have hsame := h id (Equiv.swap m q) (distinct_of_injective _ Function.injective_id [])
        (distinct_of_injective _ (Equiv.swap m q).injective [])
      rw [hs, hswapped] at hsame
      have hhead : some m = some q := by
        rw [← @head?_consult answer m (q :: rest), hsame, head?_consult]
      have hlt : m < q := by
        have hsorted := hid.sorted
        rw [hs] at hsorted
        exact hsorted.head_lt q List.mem_cons_self
      exact Nat.ne_of_lt hlt (Option.some.inj hhead)
  · intro hlength address address' hd hd'
    have ha := agrees_registered hd
    have ha' := agrees_registered hd'
    have hsame : simpleAuthProviders address calls = simpleAuthProviders address' calls := by
      have hl := ha.length
      have hl' := ha'.length
      match hs : simpleAuthProviders address calls, hs' : simpleAuthProviders address' calls with
      | [], [] => rfl
      | [p], [q] =>
        rw [hs] at ha
        rw [hs'] at ha'
        have hp : p ∈ [q] := (ha'.mem p).mpr ((ha.mem p).mp List.mem_cons_self)
        rw [List.mem_singleton.mp hp]
      | [], _ :: _ =>
        rw [hs] at hl
        rw [hs'] at hl'
        rw [List.length_cons] at hl'
        rw [List.length_nil] at hl
        omega
      | _ :: _, [] =>
        rw [hs] at hl
        rw [hs'] at hl'
        rw [List.length_cons] at hl
        rw [List.length_nil] at hl'
        omega
      | _ :: _ :: _, _ =>
        rw [hs, List.length_cons, List.length_cons] at hl
        omega
      | _, _ :: _ :: _ =>
        rw [hs', List.length_cons, List.length_cons] at hl'
        omega
    rw [hsame]

/-- Two providers that both answer. -/
theorem not_independent_two :
    ¬ ∀ (calls : List RegistrationCall) (answer : Nat → Except Exn (Option SimpleAuth))
      (address address' : Nat → Nat), Distinct address [] calls → Distinct address' [] calls →
      consult answer (simpleAuthProviders address calls) =
        consult answer (simpleAuthProviders address' calls) := by
  intro h
  have hsame := h [.add 0, .add 1] (fun p => .ok (some ⟨toString p, "", false⟩)) id
    (Equiv.swap 0 1) (distinct_of_injective _ Function.injective_id [])
    (distinct_of_injective _ (Equiv.swap 0 1).injective [])
  have hzero : [0] = [1] := congrArg Prod.fst hsame
  exact absurd hzero (by decide)

end Laws

end NodeSvn
