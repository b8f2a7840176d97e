import NodeSvn.Cpp.Providers
import NodeSvn.Lib.Machine
import NodeSvn.Lib.Slots

/-!
# Moving a `svn::client`

A client is at an address.  Its constructor makes a pool and, in the pool, a context that
refers back to the client twice:

    cancel_baton                                 for the abort function
    the baton of the simple prompt provider      for the authentication providers

Both moves hand the pool and the context over.  They leave the batons as they are, and the
registrations with the client that is moved from.  So no pool is destroyed twice, but a
context that moves still calls its first client: a run keeps what the class promises exactly
if it moves no client that has a context (`always_routed_iff`).
-/

namespace NodeSvn

/-! ## The objects -/

/-- `_abort_function` and `_simple_auth_providers` -/
structure Registrations where
  abortFunction : Option Nat
  providers : List Nat
  deriving DecidableEq, Repr

namespace Registrations

def empty : Registrations := ⟨none, []⟩

end Registrations

/-- A call that registers something, or takes it back. -/
inductive RegistrationChange where
  | setAbortFunction (function : Nat)
  | removeAbortFunction
  | provider (call : RegistrationCall)
  deriving DecidableEq, Repr

def RegistrationChange.apply : RegistrationChange → Registrations → Registrations
  | setAbortFunction function, r => { r with abortFunction := some function }
  | removeAbortFunction, r => { r with abortFunction := none }
  | provider call, r => { r with providers := call.register r.providers }

structure ClientObject where
  /-- `_pool` -/
  pool : Option Nat
  /-- `_context`, named by the pool that it is in -/
  context : Option Nat
  registrations : Registrations

/-- The clients whose member functions the context calls. -/
structure ClientContext where
  cancelBaton : Nat
  promptBaton : Nat
  deriving DecidableEq, Repr

/-- All clients of a program, by their addresses. -/
structure Clients where
  objects : Nat → Option ClientObject
  /-- so many pools were created -/
  pools : Nat
  /-- how often `apr_pool_destroy` was called for a pool -/
  destroyed : Nat → Nat
  contexts : Nat → Option ClientContext
  /-- what was registered with the client at an address, before and after it moved there -/
  inForce : Nat → Registrations

namespace Clients

def init : Clients := ⟨fun _ => none, 0, fun _ => 0, fun _ => none, fun _ => .empty⟩

/-- `if (_pool != nullptr) apr_pool_destroy(_pool)` -/
def destroyPool (pool : Option Nat) (s : Clients) : Clients :=
  match pool with
  | some p => { s with destroyed := Function.update s.destroyed p (s.destroyed p + 1) }
  | none => s

/-- `std::exchange` of both pointers of `a`, which `b` gets; the other members of `b` are those
of `this`. -/
def handOver (a b : Nat) (other this : ClientObject) (s : Clients) : Clients :=
  { s with
    objects := Function.update (Function.update s.objects a
      (some { other with pool := none, context := none })) b
      (some { this with pool := other.pool, context := other.context })
    inForce := Function.update s.inForce b (s.inForce a) }

end Clients

inductive ObjectLabel where
  /-- the constructor, at `a` -/
  | construct (a : Nat)
  /-- the constructor throws, after it created the pool or before -/
  | constructThrows (poolCreated : Bool)
  /-- `client b(std::move(a))` -/
  | moveConstruct (a b : Nat)
  /-- `b = std::move(a)` -/
  | moveAssign (a b : Nat)
  | register (a : Nat) (change : RegistrationChange)
  | destroy (a : Nat)
  deriving DecidableEq, Repr

def ObjectLabel.step (s : Clients) : ObjectLabel → Option Clients
  | construct a =>
    match s.objects a with
    | some _ => none
    | none => some
      { objects := Function.update s.objects a (some ⟨some s.pools, some s.pools, .empty⟩)
        pools := s.pools + 1
        destroyed := s.destroyed
        contexts := Function.update s.contexts s.pools (some ⟨a, a⟩)
        inForce := Function.update s.inForce a .empty }
  | constructThrows poolCreated =>
    some { s with pools := if poolCreated then s.pools + 1 else s.pools }
  | moveConstruct a b =>
    match s.objects a, s.objects b with
    | some other, none => some (s.handOver a b other ⟨none, none, .empty⟩)
    | _, _ => none
  | moveAssign a b =>
    match s.objects a, s.objects b with
    | some other, some this =>
      if a = b then some s else some ((s.destroyPool this.pool).handOver a b other this)
    | _, _ => none
  | register a change =>
    match s.objects a with
    | some this => some
      { s with
        objects := Function.update s.objects a
          (some { this with registrations := change.apply this.registrations })
        inForce := Function.update s.inForce a (change.apply (s.inForce a)) }
    | none => none
  | destroy a =>
    match s.objects a with
    | some this => some
      { s.destroyPool this.pool with objects := Function.update s.objects a none }
    | none => none

def clientsMachine : Machine Clients ObjectLabel := ⟨.init, ObjectLabel.step⟩

/-! ## What the class promises -/

namespace Clients

def Owns (s : Clients) (a p : Nat) : Prop := ∃ o, s.objects a = some o ∧ o.pool = some p

structure Routed (s : Clients) : Prop where
  once : ∀ p, s.destroyed p ≤ 1
  /-- a pool that is not destroyed has a client that will -/
  owned : ∀ p, p < s.pools → s.destroyed p = 0 → ∃ a, s.Owns a p
  /-- its context calls that client, with what was registered -/
  routed : ∀ a o p, s.objects a = some o → o.context = some p →
    s.contexts p = some ⟨a, a⟩ ∧ o.registrations = s.inForce a
  /-- no context calls a client that was moved from, or is gone -/
  live : ∀ p c, s.contexts p = some c → s.destroyed p = 0 →
    (∃ o, s.objects c.cancelBaton = some o ∧ o.context = some p) ∧
      ∃ o, s.objects c.promptBaton = some o ∧ o.context = some p

end Clients

/-- The step moves no client that has a context, and leaves no pool behind. -/
def ObjectLabel.Keeps (s : Clients) : ObjectLabel → Prop
  | constructThrows poolCreated => poolCreated = false
  | moveConstruct a _ => ∀ p, ¬ s.Owns a p
  | moveAssign a b => a = b ∨ ∀ p, ¬ s.Owns a p
  | _ => True

/-! ## The pools -/

/-- **Whatever is moved, no pool is destroyed twice, and none that a client has.** -/
structure Clients.WellOwned (s : Clients) : Prop where
  bound : ∀ a p, s.Owns a p → p < s.pools ∧ s.destroyed p = 0
  unique : ∀ a b p, s.Owns a p → s.Owns b p → a = b
  same : ∀ a o, s.objects a = some o → o.context = o.pool
  once : ∀ p, s.destroyed p ≤ 1
  fresh : ∀ p, s.pools ≤ p → s.destroyed p = 0 ∧ s.contexts p = none

section Laws

variable {s t : Clients} {l : ObjectLabel} {a b p : Nat} {o other this : ClientObject}
  {pool : Option Nat}

/-- What holds of each client after the hand-over holds of `b`, which has what `a` had, of `a`,
which has nothing, and of the others. -/
theorem objects_handOver {x : Nat} (hne : a ≠ b)
    (h : (s.handOver a b other this).objects x = some o) :
    (x = b ∧ o = { this with pool := other.pool, context := other.context }) ∨
      (x = a ∧ o = { other with pool := none, context := none }) ∨
      (x ≠ a ∧ x ≠ b ∧ s.objects x = some o) := by
  rcases update_eq_some_iff.mp h with ⟨rfl, hx⟩ | ⟨hb, h⟩
  · exact .inl ⟨rfl, (Option.some.inj hx).symm⟩
  · rcases update_eq_some_iff.mp h with ⟨rfl, hx⟩ | ⟨ha, h⟩
    · exact .inr (.inl ⟨rfl, (Option.some.inj hx).symm⟩)
    · exact .inr (.inr ⟨ha, hb, h⟩)

/-- After the hand-over `b` owns what `a` owned; `a` and the former `b` own nothing. -/
theorem owns_handOver {x : Nat} (hne : a ≠ b) (ha : s.objects a = some other) :
    (s.handOver a b other this).Owns x p ↔
      (x = b ∧ s.Owns a p) ∨ (x ≠ a ∧ x ≠ b ∧ s.Owns x p) := by
  constructor
  · rintro ⟨o, ho, hp⟩
    rcases objects_handOver hne ho with ⟨rfl, rfl⟩ | ⟨rfl, rfl⟩ | ⟨hxa, hxb, hx⟩
    · exact .inl ⟨rfl, other, ha, hp⟩
    · cases hp
    · exact .inr ⟨hxa, hxb, o, hx, hp⟩
  · rintro (⟨rfl, o, ho, hp⟩ | ⟨hxa, hxb, o, ho, hp⟩)
    · obtain rfl := Option.some.inj (ha.symm.trans ho)
      exact ⟨_, update_eq_some_iff.mpr (.inl ⟨rfl, rfl⟩), hp⟩
    · exact ⟨o, update_eq_some_iff.mpr (.inr ⟨hxb, update_eq_some_iff.mpr (.inr ⟨hxa, ho⟩)⟩), hp⟩

theorem objects_destroyPool : (s.destroyPool pool).objects = s.objects := by
  cases pool <;> rfl

theorem owns_destroyPool {x : Nat} : (s.destroyPool pool).Owns x p ↔ s.Owns x p := by
  unfold Clients.Owns
  rw [objects_destroyPool]

theorem contexts_destroyPool : (s.destroyPool pool).contexts = s.contexts := by
  cases pool <;> rfl

theorem pools_destroyPool : (s.destroyPool pool).pools = s.pools := by
  cases pool <;> rfl

theorem inForce_destroyPool : (s.destroyPool pool).inForce = s.inForce := by
  cases pool <;> rfl

theorem destroyed_destroyPool :
    (s.destroyPool pool).destroyed p =
      if pool = some p then s.destroyed p + 1 else s.destroyed p := by
  cases pool with
  | none =>
    rw [if_neg (by simp)]
    rfl
  | some q =>
    by_cases hq : q = p
    · subst hq
      rw [if_pos rfl]
      exact Function.update_self ..
    · rw [if_neg (fun h => hq (Option.some.inj h))]
      exact Function.update_of_ne (Ne.symm hq) ..

/-- The pool is that of `b`, if it has one. -/
theorem Clients.WellOwned.once_destroyPool (h : s.WellOwned)
    (hb : ∀ p, s.Owns b p ↔ pool = some p) (p : Nat) : (s.destroyPool pool).destroyed p ≤ 1 := by
  rw [destroyed_destroyPool]
  by_cases hp : pool = some p
  · rw [if_pos hp, (h.bound b p ((hb p).mpr hp)).2]
  · rw [if_neg hp]
    exact h.once p

theorem Clients.WellOwned.fresh_destroyPool (h : s.WellOwned)
    (hb : ∀ p, s.Owns b p ↔ pool = some p) (p : Nat) (hp : s.pools ≤ p) :
    (s.destroyPool pool).destroyed p = 0 ∧ (s.destroyPool pool).contexts p = none := by
  have hne : pool ≠ some p := by
    intro heq
    have := (h.bound b p ((hb p).mpr heq)).1
    omega
  rw [destroyed_destroyPool, if_neg hne, contexts_destroyPool]
  exact h.fresh p hp

/-- Another client's pool is not destroyed. -/
theorem Clients.WellOwned.destroyed_other (h : s.WellOwned)
    (hb : ∀ p, s.Owns b p ↔ pool = some p) (ha : s.Owns a p) (hne : a ≠ b) :
    (s.destroyPool pool).destroyed p = 0 := by
  have hpool : pool ≠ some p := fun heq => hne (h.unique a b p ha ((hb p).mpr heq))
  rw [destroyed_destroyPool, if_neg hpool]
  exact (h.bound a p ha).2

/-- A pool that is not destroyed is not the one of `b`. -/
theorem not_owns_of_destroyed (hb : ∀ p, s.Owns b p ↔ pool = some p)
    (hp : (s.destroyPool pool).destroyed p = 0) : s.destroyed p = 0 ∧ ¬ s.Owns b p := by
  rw [destroyed_destroyPool] at hp
  by_cases hpool : pool = some p
  · rw [if_pos hpool] at hp
    cases hp
  · rw [if_neg hpool] at hp
    exact ⟨hp, fun hown => hpool ((hb p).mp hown)⟩

theorem owns_iff_of_some (hb : s.objects b = some this) (p : Nat) :
    s.Owns b p ↔ this.pool = some p := by
  constructor
  · rintro ⟨o, ho, hp⟩
    obtain rfl := Option.some.inj (hb.symm.trans ho)
    exact hp
  · intro hp
    exact ⟨this, hb, hp⟩

theorem owns_iff_of_none (hb : s.objects b = none) (p : Nat) :
    s.Owns b p ↔ (none : Option Nat) = some p := by
  constructor
  · rintro ⟨o, ho, -⟩
    rw [hb] at ho
    cases ho
  · intro hp
    cases hp

theorem Clients.WellOwned.init : Clients.init.WellOwned where
  bound := by
    rintro a p ⟨o, ho, -⟩
    cases ho
  unique := by
    rintro a b p ⟨o, ho, -⟩
    cases ho
  same := by
    intro a o ho
    cases ho
  once _ := Nat.zero_le _
  fresh _ _ := ⟨rfl, rfl⟩

theorem Clients.WellOwned.construct (h : s.WellOwned) (ha : s.objects a = none) (c : ClientContext)
    (inForce : Nat → Registrations) :
    Clients.WellOwned
      { objects := Function.update s.objects a (some ⟨some s.pools, some s.pools, .empty⟩)
        pools := s.pools + 1
        destroyed := s.destroyed
        contexts := Function.update s.contexts s.pools (some c)
        inForce := inForce } := by
  have howns : ∀ x p, (∃ o, Function.update s.objects a
      (some ⟨some s.pools, some s.pools, .empty⟩) x = some o ∧ o.pool = some p) →
      (x = a ∧ p = s.pools) ∨ (x ≠ a ∧ s.Owns x p) := by
    rintro x p ⟨o, ho, hp⟩
    rcases update_eq_some_iff.mp ho with ⟨rfl, hx⟩ | ⟨hxa, hx⟩
    · obtain rfl := Option.some.inj hx
      exact .inl ⟨rfl, (Option.some.inj hp).symm⟩
    · exact .inr ⟨hxa, o, hx, hp⟩
  refine ⟨fun x p hx => ?_, fun x y p hx hy => ?_, fun x o ho => ?_, h.once, fun p hp => ?_⟩
  · rcases howns x p hx with ⟨-, rfl⟩ | ⟨-, hx⟩
    · exact ⟨Nat.lt_succ_self _, (h.fresh _ (Nat.le_refl _)).1⟩
    · exact ⟨Nat.lt_succ_of_lt (h.bound x p hx).1, (h.bound x p hx).2⟩
  · rcases howns x p hx with ⟨hxa, hxp⟩ | ⟨-, hxs⟩ <;>
      rcases howns y p hy with ⟨hya, hyp⟩ | ⟨-, hys⟩
    · exact hxa.trans hya.symm
    · exact absurd (h.bound y p hys).1 (by omega)
    · exact absurd (h.bound x p hxs).1 (by omega)
    · exact h.unique x y p hxs hys
  · rcases update_eq_some_iff.mp ho with ⟨-, hx⟩ | ⟨-, hx⟩
    · obtain rfl := Option.some.inj hx
      rfl
    · exact h.same x o hx
  · have hlt : s.pools < p := hp
    have hne : p ≠ s.pools := Nat.ne_of_gt hlt
    refine ⟨(h.fresh p (Nat.le_of_lt hlt)).1, ?_⟩
    show Function.update s.contexts s.pools (some c) p = none
    rw [Function.update_of_ne hne]
    exact (h.fresh p (Nat.le_of_lt hlt)).2

theorem Clients.WellOwned.handOver (h : s.WellOwned) (hne : a ≠ b) (ha : s.objects a = some other)
    (hb : ∀ p, s.Owns b p ↔ this.pool = some p) :
    ((s.destroyPool this.pool).handOver a b other this).WellOwned := by
  have ha' : (s.destroyPool this.pool).objects a = some other := by
    rw [objects_destroyPool]
    exact ha
  have howns : ∀ {x p}, ((s.destroyPool this.pool).handOver a b other this).Owns x p →
      (x = b ∧ s.Owns a p) ∨ (x ≠ a ∧ x ≠ b ∧ s.Owns x p) := by
    intro x p hx
    rw [owns_handOver hne ha'] at hx
    rwa [owns_destroyPool, owns_destroyPool] at hx
  refine ⟨fun x p hx => ?_, fun x y p hx hy => ?_, fun x o ho => ?_, h.once_destroyPool hb,
    fun p hp => ?_⟩
  · show p < (s.destroyPool this.pool).pools ∧ (s.destroyPool this.pool).destroyed p = 0
    rw [pools_destroyPool]
    rcases howns hx with ⟨-, hap⟩ | ⟨-, hxb, hxp⟩
    · exact ⟨(h.bound a p hap).1, h.destroyed_other hb hap hne⟩
    · exact ⟨(h.bound x p hxp).1, h.destroyed_other hb hxp hxb⟩
  · rcases howns hx with ⟨hxb, hap⟩ | ⟨hxa, -, hxp⟩ <;>
      rcases howns hy with ⟨hyb, hap'⟩ | ⟨hya, -, hyp⟩
    · exact hxb.trans hyb.symm
    · exact absurd (h.unique y a p hyp hap) hya
    · exact absurd (h.unique x a p hxp hap') hxa
    · exact h.unique x y p hxp hyp
  · rcases objects_handOver hne ho with ⟨-, rfl⟩ | ⟨-, rfl⟩ | ⟨-, -, hx⟩
    · exact h.same a other ha
    · rfl
    · rw [objects_destroyPool] at hx
      exact h.same x o hx
  · have hle : (s.destroyPool this.pool).pools ≤ p := hp
    rw [pools_destroyPool] at hle
    exact h.fresh_destroyPool hb p hle

theorem Clients.WellOwned.destroy (h : s.WellOwned) (ha : s.objects a = some this) :
    Clients.WellOwned
      { s.destroyPool this.pool with objects := Function.update s.objects a none } := by
  have hobjects : ∀ {x o}, Function.update s.objects a none x = some o →
      x ≠ a ∧ s.objects x = some o := by
    intro x o ho
    rcases update_eq_some_iff.mp ho with ⟨-, hx⟩ | hx
    · cases hx
    · exact hx
  refine ⟨?_, ?_, fun x o ho => h.same x o (hobjects ho).2,
    h.once_destroyPool (owns_iff_of_some ha), fun p hp => ?_⟩
  · rintro x p ⟨o, ho, hp⟩
    have hx : s.Owns x p := ⟨o, (hobjects ho).2, hp⟩
    show p < (s.destroyPool this.pool).pools ∧ (s.destroyPool this.pool).destroyed p = 0
    rw [pools_destroyPool]
    exact ⟨(h.bound x p hx).1, h.destroyed_other (owns_iff_of_some ha) hx (hobjects ho).1⟩
  · rintro x y p ⟨o, ho, hp⟩ ⟨o', ho', hp'⟩
    exact h.unique x y p ⟨o, (hobjects ho).2, hp⟩ ⟨o', (hobjects ho').2, hp'⟩
  · have hle : (s.destroyPool this.pool).pools ≤ p := hp
    rw [pools_destroyPool] at hle
    exact h.fresh_destroyPool (owns_iff_of_some ha) p hle

/-- A registration moves no pool. -/
theorem Clients.WellOwned.register (h : s.WellOwned) (ha : s.objects a = some this)
    (registrations : Registrations) (inForce : Nat → Registrations) :
    Clients.WellOwned
      { s with
        objects := Function.update s.objects a
          (some { this with registrations := registrations })
        inForce := inForce } := by
  have hobjects : ∀ {x o}, Function.update s.objects a
      (some { this with registrations := registrations }) x = some o →
      ∃ o', s.objects x = some o' ∧ o.pool = o'.pool ∧ o.context = o'.context := by
    intro x o ho
    rcases update_eq_some_iff.mp ho with ⟨rfl, hx⟩ | ⟨-, hx⟩
    · obtain rfl := Option.some.inj hx
      exact ⟨this, ha, rfl, rfl⟩
    · exact ⟨o, hx, rfl, rfl⟩
  have howns : ∀ {x p}, (∃ o, Function.update s.objects a
      (some { this with registrations := registrations }) x = some o ∧ o.pool = some p) →
      s.Owns x p := by
    rintro x p ⟨o, ho, hp⟩
    obtain ⟨o', ho', hpool, -⟩ := hobjects ho
    exact ⟨o', ho', hpool ▸ hp⟩
  refine ⟨fun x p hx => h.bound x p (howns hx), fun x y p hx hy => h.unique x y p (howns hx)
    (howns hy), fun x o ho => ?_, h.once, h.fresh⟩
  obtain ⟨o', ho', hpool, hcontext⟩ := hobjects ho
  rw [hcontext, hpool]
  exact h.same x o' ho'

/-! ## A step -/

/-- What a step does, by its label. -/
theorem ObjectLabel.step_cases (h : l.step s = some t) :
    (∃ a, l = .construct a ∧ s.objects a = none ∧ t =
      { objects := Function.update s.objects a (some ⟨some s.pools, some s.pools, .empty⟩)
        pools := s.pools + 1
        destroyed := s.destroyed
        contexts := Function.update s.contexts s.pools (some ⟨a, a⟩)
        inForce := Function.update s.inForce a .empty }) ∨
    (∃ poolCreated, l = .constructThrows poolCreated ∧
      t = { s with pools := if poolCreated then s.pools + 1 else s.pools }) ∨
    (∃ a b other this, (l = .moveConstruct a b ∨ l = .moveAssign a b) ∧ a ≠ b ∧
      s.objects a = some other ∧ (∀ p, s.Owns b p ↔ this.pool = some p) ∧
      t = (s.destroyPool this.pool).handOver a b other this) ∨
    (∃ a, l = .moveAssign a a ∧ t = s) ∨
    (∃ a change this, l = .register a change ∧ s.objects a = some this ∧ t =
      { s with
        objects := Function.update s.objects a
          (some { this with registrations := change.apply this.registrations })
        inForce := Function.update s.inForce a (change.apply (s.inForce a)) }) ∨
    ∃ a this, l = .destroy a ∧ s.objects a = some this ∧
      t = { s.destroyPool this.pool with objects := Function.update s.objects a none } := by
  cases l with
  | construct a =>
    left
    simp only [step] at h
    split at h
    · cases h
    · rename_i ha
      exact ⟨a, rfl, ha, (Option.some.inj h).symm⟩
  | constructThrows poolCreated =>
    right; left
    exact ⟨poolCreated, rfl, (Option.some.inj h).symm⟩
  | moveConstruct a b =>
    right; right; left
    simp only [step] at h
    split at h
    · rename_i other ha hb
      have hne : a ≠ b := by
        rintro rfl
        rw [ha] at hb
        cases hb
      exact ⟨a, b, other, ⟨none, none, .empty⟩, .inl rfl, hne, ha, owns_iff_of_none hb,
        (Option.some.inj h).symm⟩
    · cases h
  | moveAssign a b =>
    simp only [step] at h
    split at h
    · rename_i other this ha hb
      by_cases hab : a = b
      · rw [if_pos hab] at h
        right; right; right; left
        exact ⟨a, hab ▸ rfl, (Option.some.inj h).symm⟩
      · rw [if_neg hab] at h
        right; right; left
        exact ⟨a, b, other, this, .inr rfl, hab, ha, owns_iff_of_some hb,
          (Option.some.inj h).symm⟩
    · cases h
  | register a change =>
    right; right; right; right; left
    simp only [step] at h
    split at h
    · rename_i this ha
      exact ⟨a, change, this, rfl, ha, (Option.some.inj h).symm⟩
    · cases h
  | destroy a =>
    right; right; right; right; right
    simp only [step] at h
    split at h
    · rename_i this ha
      exact ⟨a, this, rfl, ha, (Option.some.inj h).symm⟩
    · cases h

theorem Clients.WellOwned.step (h : s.WellOwned) (hstep : l.step s = some t) : t.WellOwned := by
  rcases ObjectLabel.step_cases hstep with ⟨a, -, ha, rfl⟩ | ⟨poolCreated, -, rfl⟩ |
    ⟨a, b, other, this, -, hne, ha, hb, rfl⟩ | ⟨a, -, rfl⟩ | ⟨a, change, this, -, ha, rfl⟩ |
    ⟨a, this, -, ha, rfl⟩
  · exact h.construct ha _ _
  · have hle : s.pools ≤ if poolCreated then s.pools + 1 else s.pools := by
      split <;> omega
    exact ⟨fun x p hx => ⟨Nat.lt_of_lt_of_le (h.bound x p hx).1 hle, (h.bound x p hx).2⟩,
      h.unique, h.same, h.once, fun p hp => h.fresh p (Nat.le_trans hle hp)⟩
  · exact h.handOver hne ha hb
  · exact h
  · exact h.register ha _ _
  · exact h.destroy ha

/-- A client with a context owns the pool that the context is in. -/
theorem Clients.WellOwned.owns_of_context (h : s.WellOwned) (ha : s.objects a = some o)
    (hp : o.context = some p) : s.Owns a p :=
  ⟨o, ha, (h.same a o ha).symm.trans hp⟩

/-- The context that moved calls the client it was made for, and so the wrong one. -/
theorem not_routed_handOver (h : s.WellOwned) (hr : s.Routed) (hne : a ≠ b)
    (ha : s.objects a = some other) (hp : s.Owns a p) :
    ¬ ((s.destroyPool pool).handOver a b other this).Routed := by
  intro ht
  obtain ⟨o, ho, hpool⟩ := hp
  obtain rfl := Option.some.inj (ha.symm.trans ho)
  have hcontext : other.context = some p := (h.same a other ha).trans hpool
  have hnew : ((s.destroyPool pool).handOver a b other this).contexts p = some ⟨b, b⟩ :=
    (ht.routed b { this with pool := other.pool, context := other.context } p
      (update_eq_some_iff.mpr (.inl ⟨rfl, rfl⟩)) hcontext).1
  have hold : s.contexts p = some ⟨a, a⟩ := (hr.routed a other p ha hcontext).1
  have hsame : ((s.destroyPool pool).handOver a b other this).contexts p = s.contexts p :=
    congrFun contexts_destroyPool p
  rw [hsame, hold] at hnew
  exact hne (congrArg ClientContext.cancelBaton (Option.some.inj hnew))

/-- A client without a context may be moved. -/
theorem Clients.Routed.handOver (h : s.WellOwned) (hr : s.Routed) (hne : a ≠ b)
    (ha : s.objects a = some other) (hb : ∀ p, s.Owns b p ↔ this.pool = some p)
    (hnone : ∀ p, ¬ s.Owns a p) :
    ((s.destroyPool this.pool).handOver a b other this).Routed := by
  have hcontext : ∀ p, other.context ≠ some p :=
    fun p hp => hnone p (h.owns_of_context ha hp)
  have ha' : (s.destroyPool this.pool).objects a = some other := by
    rw [objects_destroyPool]
    exact ha
  -- a client with a pool that is left is neither of the two
  have hstays : ∀ {x o p}, s.objects x = some o → s.Owns x p →
      (s.destroyPool this.pool).destroyed p = 0 →
      ((s.destroyPool this.pool).handOver a b other this).objects x = some o := by
    intro x o p ho hown hp
    have hxa : x ≠ a := by
      rintro rfl
      exact hnone p hown
    have hxb : x ≠ b := by
      rintro rfl
      exact (not_owns_of_destroyed hb hp).2 hown
    refine update_eq_some_iff.mpr (.inr ⟨hxb, update_eq_some_iff.mpr (.inr ⟨hxa, ?_⟩)⟩)
    rw [objects_destroyPool]
    exact ho
  refine ⟨h.once_destroyPool hb, fun p hlt hp => ?_, fun x o p ho hp => ?_, fun p c hc hp => ?_⟩
  · have hlt : p < (s.destroyPool this.pool).pools := hlt
    rw [pools_destroyPool] at hlt
    obtain ⟨x, o, ho, hpool⟩ := hr.owned p hlt (not_owns_of_destroyed hb hp).1
    exact ⟨x, o, hstays ho ⟨o, ho, hpool⟩ hp, hpool⟩
  · rcases objects_handOver hne ho with ⟨-, rfl⟩ | ⟨-, rfl⟩ | ⟨-, hxb, hx⟩
    · exact absurd hp (hcontext p)
    · cases hp
    · rw [objects_destroyPool] at hx
      show (s.destroyPool this.pool).contexts p = _ ∧
        o.registrations = Function.update (s.destroyPool this.pool).inForce b _ x
      rw [contexts_destroyPool, inForce_destroyPool, Function.update_of_ne hxb]
      exact hr.routed x o p hx hp
  · have hc : (s.destroyPool this.pool).contexts p = some c := hc
    rw [contexts_destroyPool] at hc
    obtain ⟨⟨o, ho, hop⟩, o', ho', hop'⟩ := hr.live p c hc (not_owns_of_destroyed hb hp).1
    exact ⟨⟨o, hstays ho (h.owns_of_context ho hop) hp, hop⟩,
      o', hstays ho' (h.owns_of_context ho' hop') hp, hop'⟩

theorem Clients.Routed.construct (h : s.WellOwned) (hr : s.Routed) (ha : s.objects a = none) :
    Clients.Routed
      { objects := Function.update s.objects a (some ⟨some s.pools, some s.pools, .empty⟩)
        pools := s.pools + 1
        destroyed := s.destroyed
        contexts := Function.update s.contexts s.pools (some ⟨a, a⟩)
        inForce := Function.update s.inForce a .empty } := by
  have hnew : Function.update s.objects a (some ⟨some s.pools, some s.pools, .empty⟩) a =
      some ⟨some s.pools, some s.pools, .empty⟩ := Function.update_self ..
  have hold : ∀ {x o}, s.objects x = some o →
      Function.update s.objects a (some ⟨some s.pools, some s.pools, .empty⟩) x = some o := by
    intro x o ho
    refine update_eq_some_iff.mpr (.inr ⟨?_, ho⟩)
    rintro rfl
    rw [ha] at ho
    cases ho
  refine ⟨h.once, fun p hlt hp => ?_, fun x o p ho hp => ?_, fun p c hc hp => ?_⟩
  · by_cases hpools : p = s.pools
    · subst hpools
      exact ⟨a, _, hnew, rfl⟩
    · have hlt : p < s.pools + 1 := hlt
      obtain ⟨x, o, ho, hpool⟩ := hr.owned p (by omega) hp
      exact ⟨x, o, hold ho, hpool⟩
  · show Function.update s.contexts s.pools (some ⟨a, a⟩) p = _ ∧
      o.registrations = Function.update s.inForce a .empty x
    rcases update_eq_some_iff.mp ho with ⟨rfl, hx⟩ | ⟨hxa, hx⟩
    · obtain rfl := Option.some.inj hx
      obtain rfl := Option.some.inj hp
      rw [Function.update_self, Function.update_self]
      exact ⟨rfl, rfl⟩
    · have hlt := (h.bound x p (h.owns_of_context hx hp)).1
      rw [Function.update_of_ne (Nat.ne_of_lt hlt), Function.update_of_ne hxa]
      exact hr.routed x o p hx hp
  · rcases update_eq_some_iff.mp hc with ⟨rfl, hx⟩ | ⟨-, hx⟩
    · obtain rfl := Option.some.inj hx
      exact ⟨⟨_, hnew, rfl⟩, _, hnew, rfl⟩
    · obtain ⟨⟨o, ho, hop⟩, o', ho', hop'⟩ := hr.live p c hx hp
      exact ⟨⟨o, hold ho, hop⟩, o', hold ho', hop'⟩

theorem Clients.Routed.destroy (h : s.WellOwned) (hr : s.Routed) (ha : s.objects a = some this) :
    Clients.Routed
      { s.destroyPool this.pool with objects := Function.update s.objects a none } := by
  have hb := owns_iff_of_some ha
  have hstays : ∀ {x o p}, s.objects x = some o → s.Owns x p →
      (s.destroyPool this.pool).destroyed p = 0 → Function.update s.objects a none x = some o := by
    intro x o p ho hown hp
    refine update_eq_some_iff.mpr (.inr ⟨?_, ho⟩)
    rintro rfl
    exact (not_owns_of_destroyed hb hp).2 hown
  refine ⟨h.once_destroyPool hb, fun p hlt hp => ?_, fun x o p ho hp => ?_, fun p c hc hp => ?_⟩
  · have hlt : p < (s.destroyPool this.pool).pools := hlt
    rw [pools_destroyPool] at hlt
    obtain ⟨x, o, ho, hpool⟩ := hr.owned p hlt (not_owns_of_destroyed hb hp).1
    exact ⟨x, o, hstays ho ⟨o, ho, hpool⟩ hp, hpool⟩
  · rcases update_eq_some_iff.mp ho with ⟨-, hx⟩ | ⟨-, hx⟩
    · cases hx
    · show (s.destroyPool this.pool).contexts p = _ ∧
        o.registrations = (s.destroyPool this.pool).inForce x
      rw [contexts_destroyPool, inForce_destroyPool]
      exact hr.routed x o p hx hp
  · have hc : (s.destroyPool this.pool).contexts p = some c := hc
    rw [contexts_destroyPool] at hc
    obtain ⟨⟨o, ho, hop⟩, o', ho', hop'⟩ := hr.live p c hc (not_owns_of_destroyed hb hp).1
    exact ⟨⟨o, hstays ho (h.owns_of_context ho hop) hp, hop⟩,
      o', hstays ho' (h.owns_of_context ho' hop') hp, hop'⟩

/-- What is registered with a client is in force with it. -/
theorem Clients.Routed.register (hr : s.Routed) (ha : s.objects a = some this)
    (change : RegistrationChange) :
    Clients.Routed
      { s with
        objects := Function.update s.objects a
          (some { this with registrations := change.apply this.registrations })
        inForce := Function.update s.inForce a (change.apply (s.inForce a)) } := by
  have hstays : ∀ {x o}, s.objects x = some o → ∃ o', Function.update s.objects a
      (some { this with registrations := change.apply this.registrations }) x = some o' ∧
      o'.pool = o.pool ∧ o'.context = o.context := by
    intro x o ho
    by_cases hxa : x = a
    · subst hxa
      obtain rfl := Option.some.inj (ha.symm.trans ho)
      exact ⟨_, Function.update_self .., rfl, rfl⟩
    · exact ⟨o, update_eq_some_iff.mpr (.inr ⟨hxa, ho⟩), rfl, rfl⟩
  refine ⟨hr.once, fun p hlt hp => ?_, fun x o p ho hp => ?_, fun p c hc hp => ?_⟩
  · obtain ⟨x, o, ho, hpool⟩ := hr.owned p hlt hp
    obtain ⟨o', ho', hpool', -⟩ := hstays ho
    exact ⟨x, o', ho', hpool'.trans hpool⟩
  · rcases update_eq_some_iff.mp ho with ⟨rfl, hx⟩ | ⟨hxa, hx⟩
    · obtain rfl := Option.some.inj hx
      obtain ⟨hcontext, hforce⟩ := hr.routed x this p ha hp
      refine ⟨hcontext, ?_⟩
      show change.apply this.registrations = Function.update s.inForce x _ x
      rw [Function.update_self, hforce]
    · show _ ∧ o.registrations = Function.update s.inForce a _ x
      rw [Function.update_of_ne hxa]
      exact hr.routed x o p hx hp
  · obtain ⟨⟨o, ho, hop⟩, o', ho', hop'⟩ := hr.live p c hc hp
    obtain ⟨q, hq, -, hqc⟩ := hstays ho
    obtain ⟨q', hq', -, hqc'⟩ := hstays ho'
    exact ⟨⟨q, hq, hqc.trans hop⟩, q', hq', hqc'.trans hop'⟩

/-- A step keeps the promises exactly if it moves no context and leaves no pool behind. -/
theorem Clients.Routed.step_iff (h : s.WellOwned) (hr : s.Routed) (hstep : l.step s = some t) :
    t.Routed ↔ l.Keeps s := by
  rcases ObjectLabel.step_cases hstep with ⟨a, rfl, ha, rfl⟩ | ⟨poolCreated, rfl, rfl⟩ |
    ⟨a, b, other, this, hl, hne, ha, hb, rfl⟩ | ⟨a, rfl, rfl⟩ | ⟨a, change, this, rfl, ha, rfl⟩ |
    ⟨a, this, rfl, ha, rfl⟩
  · exact iff_of_true (Routed.construct h hr ha) trivial
  · cases poolCreated with
    | false => exact iff_of_true hr rfl
    | true =>
      refine iff_of_false (fun ht => ?_) (fun hkeeps => by cases hkeeps)
      obtain ⟨x, hx⟩ := ht.owned s.pools (Nat.lt_succ_self _) (h.fresh _ (Nat.le_refl _)).1
      exact absurd (h.bound x s.pools hx).1 (Nat.lt_irrefl _)
  · have hkeeps : l.Keeps s ↔ ∀ p, ¬ s.Owns a p := by
      rcases hl with rfl | rfl
      · exact Iff.rfl
      · exact or_iff_right hne
    rw [hkeeps]
    constructor
    · intro ht p hp
      exact not_routed_handOver h hr hne ha hp ht
    · exact Routed.handOver h hr hne ha hb
  · exact iff_of_true hr (.inl rfl)
  · exact iff_of_true (hr.register ha change) trivial
  · exact iff_of_true (Routed.destroy h hr ha) trivial

theorem Clients.Routed.init : Clients.init.Routed where
  once _ := Nat.zero_le _
  owned p hp := absurd hp (Nat.not_lt_zero p)
  routed a o p ho := by cases ho
  live p c hc := by cases hc

theorem Clients.WellOwned.reachable (h : clientsMachine.Reachable s) : s.WellOwned :=
  h.invariant .init fun _ _ _ hs hstep => hs.step hstep

/-- **A run keeps the promises of the class exactly if it moves no client that has a context,
and no constructor throws once it has created its pool.** -/
theorem always_routed_iff (ls : List ObjectLabel) (s : Clients)
    (h : clientsMachine.run .init ls = some s) :
    clientsMachine.Always Clients.Routed .init ls ↔
      clientsMachine.Meets (fun s l => l.Keeps s) .init ls :=
  Machine.always_iff_meets Clients.WellOwned.init Clients.Routed.init
    (fun _ _ _ hs hr hstep => ⟨hr.step_iff hs hstep, fun _ => hs.step hstep⟩) h

/-- One client gets a provider, is assigned to itself and destroyed beside another. -/
def assignedToItself : List ObjectLabel :=
  [.construct 0, .register 0 (.provider (.add 1)), .construct 1, .moveAssign 0 0, .destroy 0,
    .register 1 .removeAbortFunction, .destroy 1]

theorem always_routed_provider :
    clientsMachine.Always Clients.Routed .init assignedToItself ∧
      (clientsMachine.run .init assignedToItself).map (fun s => s.destroyed 0 + s.destroyed 1) =
        some 2 := by
  obtain ⟨s, hs⟩ := Option.isSome_iff_exists.mp
    (show (clientsMachine.run .init assignedToItself).isSome = true from rfl)
  refine ⟨(always_routed_iff _ s hs).mpr ?_, rfl⟩
  exact ⟨trivial, fun _ _ => ⟨trivial, fun _ _ => ⟨trivial, fun _ _ => ⟨.inl rfl, fun _ _ =>
    ⟨trivial, fun _ _ => ⟨trivial, fun _ _ => ⟨trivial, fun _ _ => trivial⟩⟩⟩⟩⟩⟩⟩

/-- A client is moved to another address. -/
theorem not_always_routed_move :
    ¬ ∀ ls s, clientsMachine.run .init ls = some s →
      clientsMachine.Always Clients.Routed .init ls := by
  intro h
  obtain ⟨s, hs⟩ := Option.isSome_iff_exists.mp
    (show (clientsMachine.run .init [.construct 0, .moveConstruct 0 1]).isSome = true from rfl)
  have hrouted := (((h _ s hs).2 _ rfl).2 _ rfl).routed 1 ⟨some 0, some 0, .empty⟩ 0 rfl rfl
  have hbaton : (some ⟨0, 0⟩ : Option ClientContext) = some ⟨1, 1⟩ := hrouted.1
  exact absurd hbaton (by decide)

end Laws

end NodeSvn
