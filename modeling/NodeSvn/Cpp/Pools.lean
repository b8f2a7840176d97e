import Mathlib.Algebra.GroupWithZero.Nat
import NodeSvn.Lib.Machine
import NodeSvn.Lib.Regions
import NodeSvn.Lib.Slots
import NodeSvn.Cpp.Trampoline

/-!
# The pools of `svn::client`

A client has a root pool, and each of its operations a child pool of that, of which `cat`
has two:

    child_pool pool(_pool);          destroyed at the end of the scope, in reverse order
    convert_from_map(.., _pool)      commit, remove: the copies stay in the root pool, and
                                     each svn_string_t is made with new and never deleted
    apr_hash_first(_pool, ..)        cat: so does the iterator
    client::client                   if it throws, no destructor runs

The operations find their pools as long as no client is destroyed under one of them
(`always_safe_iff`), and then the live pools are those that somebody holds (`live_iff`), and
those of constructors that threw.  A root pool only grows while its client is there, by these
blocks and by what libsvn keeps in the pool of the context (`blocks_law`).
-/

namespace NodeSvn

/-! ## The operations -/

/-- How many `child_pool`s it constructs. -/
def ClientOperation.childPools : ClientOperation → Nat
  | .cat => 2
  | _ => 1

/-- It calls `convert_from_map`. -/
def ClientOperation.hasTable : ClientOperation → Bool
  | .commit => true
  | .remove => true
  | _ => false

inductive OperationStage where
  /-- some `child_pool` is not constructed yet -/
  | opening
  | working
  /-- past `convert_from_map`, or `apr_hash_first` -/
  | kept
  deriving DecidableEq, Repr

structure PoolOp where
  method : ClientOperation
  /-- `_pool` -/
  root : Region
  /-- its `child_pool`s, the last one first -/
  pools : List Region
  stage : OperationStage

/-- The constructor of `child_pool`. -/
def PoolOp.opened (o : PoolOp) (p : Region) : PoolOp :=
  { o with
    pools := p :: o.pools
    stage := if o.pools.length + 1 < o.method.childPools then .opening else .working }

/-- The object of a client, and the thread that runs the operation. -/
abbrev Flight := Nat × Nat

structure Pools where
  regions : Regions
  /-- `_pool` of each client -/
  clients : Nat → Option Region
  ops : Flight → Option PoolOp
  /-- the root pools of the constructors that threw -/
  lost : List Region
  /-- how many `svn_string_t` there are -/
  strings : Nat

inductive PoolsLabel where
  /-- `client::client`; it may throw once it has its pool -/
  | construct (c : Nat) (throws : Bool)
  | enter (w : Flight) (m : ClientOperation)
  | child (w : Flight)
  /-- a conversion, or libsvn, takes `n` blocks of a pool of the operation; libsvn may also take
  them of the root pool, where the context and what it caches are -/
  | alloc (w : Flight) (p : Region) (n : Nat)
  /-- `convert_from_map` of a map with `n` entries -/
  | table (w : Flight) (n : Nat)
  | index (w : Flight)
  /-- it returns or throws -/
  | leave (w : Flight)
  /-- `client::~client` -/
  | destroy (c : Nat)

/-- What `convert_from_map` takes, where `hash` is what an `apr_hash_t` has for its entries. -/
def tableBlocks (hash : Nat → Nat) (n : Nat) : Nat := if n = 0 then 0 else hash n + 2 * n

namespace Pools

def init : Pools := ⟨.empty, fun _ => none, fun _ => none, [], 0⟩

def setOp (w : Flight) (o : Option PoolOp) (s : Pools) : Pools :=
  { s with ops := Function.update s.ops w o }

def step (hash : Nat → Nat) (s : Pools) : PoolsLabel → Option Pools
  | .construct c throws =>
    match s.clients c with
    | some _ => none
    | none =>
      let root := s.regions.fresh []
      let regions := s.regions.create []
      if throws then some { s with regions, lost := root :: s.lost }
      else some { s with regions, clients := Function.update s.clients c (some root) }
  | .enter w m =>
    match s.clients w.1, s.ops w with
    | some root, none => some (s.setOp w (some ⟨m, root, [], .opening⟩))
    | _, _ => none
  | .child w => do
    let o ← s.ops w
    if o.stage = .opening then
      return { s with regions := s.regions.create o.root }.setOp w
        (some (o.opened (s.regions.fresh o.root)))
    else none
  | .alloc w p n => do
    let o ← s.ops w
    if o.stage ≠ .opening ∧ (p = o.root ∨ p ∈ o.pools) then
      return { s with regions := s.regions.alloc n p }
    else none
  | .table w n => do
    let o ← s.ops w
    if o.stage = .working ∧ o.method.hasTable = true then
      return { s with
        regions := s.regions.alloc (tableBlocks hash n) o.root
        strings := s.strings + n }.setOp w (some { o with stage := .kept })
    else none
  | .index w => do
    let o ← s.ops w
    if o.stage = .working ∧ o.method = .cat then
      return { s with regions := s.regions.alloc 1 o.root }.setOp w
        (some { o with stage := .kept })
    else none
  | .leave w => do
    let o ← s.ops w
    return { s with regions := s.regions.destroyAll o.pools }.setOp w none
  | .destroy c => do
    let root ← s.clients c
    return { s with
      regions := s.regions.destroy root
      clients := Function.update s.clients c none }

end Pools

/-- A constructor that throws. -/
def PoolsLabel.loses : PoolsLabel → Bool
  | .construct _ throws => throws
  | _ => false

/-- What libsvn takes of the root pool. -/
def PoolsLabel.cached (root : Region) : PoolsLabel → Nat
  | .alloc _ p n => if p = root then n else 0
  | _ => 0

/-- What the addon leaves in the root pool of `c`. -/
def PoolsLabel.kept (hash : Nat → Nat) (c : Nat) : PoolsLabel → Nat
  | .table w n => if w.1 = c then tableBlocks hash n else 0
  | .index w => if w.1 = c then 1 else 0
  | _ => 0

def PoolsLabel.newStrings : PoolsLabel → Nat
  | .table _ n => n
  | _ => 0

def poolsMachine (hash : Nat → Nat) : Machine Pools PoolsLabel := ⟨.init, Pools.step hash⟩

namespace Pools

variable {hash : Nat → Nat} {s t : Pools} {l : PoolsLabel}

/-- What a step requires, and what it leads to. -/
inductive Moves (hash : Nat → Nat) (s : Pools) : PoolsLabel → Pools → Prop
  | construct (c : Nat) (hc : s.clients c = none) : Moves hash s (.construct c false)
      { s with
        regions := s.regions.create []
        clients := Function.update s.clients c (some (s.regions.fresh [])) }
  | lose (c : Nat) : Moves hash s (.construct c true)
      { s with regions := s.regions.create [], lost := s.regions.fresh [] :: s.lost }
  | enter (w : Flight) (m : ClientOperation) (root : Region) (hc : s.clients w.1 = some root)
      (hw : s.ops w = none) : Moves hash s (.enter w m) (s.setOp w (some ⟨m, root, [], .opening⟩))
  | child (w : Flight) (o : PoolOp) (hw : s.ops w = some o) : Moves hash s (.child w)
      ({ s with regions := s.regions.create o.root }.setOp w
        (some (o.opened (s.regions.fresh o.root))))
  | alloc (w : Flight) (o : PoolOp) (p : Region) (n : Nat) (hw : s.ops w = some o)
      (hp : p = o.root ∨ p ∈ o.pools) :
      Moves hash s (.alloc w p n) { s with regions := s.regions.alloc n p }
  | table (w : Flight) (o : PoolOp) (n : Nat) (hw : s.ops w = some o) : Moves hash s (.table w n)
      ({ s with
        regions := s.regions.alloc (tableBlocks hash n) o.root
        strings := s.strings + n }.setOp w (some { o with stage := .kept }))
  | index (w : Flight) (o : PoolOp) (hw : s.ops w = some o) : Moves hash s (.index w)
      ({ s with regions := s.regions.alloc 1 o.root }.setOp w (some { o with stage := .kept }))
  | leave (w : Flight) (o : PoolOp) (hw : s.ops w = some o) : Moves hash s (.leave w)
      ({ s with regions := s.regions.destroyAll o.pools }.setOp w none)
  | destroy (c : Nat) (root : Region) (hc : s.clients c = some root) : Moves hash s (.destroy c)
      { s with
        regions := s.regions.destroy root
        clients := Function.update s.clients c none }

theorem moves (h : step hash s l = some t) : Moves hash s l t := by
  cases l with
  | construct c throws =>
    simp only [step] at h
    split at h
    · cases h
    · rename_i hc
      split at h <;> obtain rfl := Option.some.inj h
      · rename_i hthrows
        rw [hthrows]
        exact .lose c
      · rename_i hthrows
        rw [Bool.not_eq_true] at hthrows
        rw [hthrows]
        exact .construct c hc
  | enter w m =>
    simp only [step] at h
    split at h
    · rename_i root hc hw
      obtain rfl := Option.some.inj h
      exact .enter w m root hc hw
    · cases h
  | child w =>
    obtain ⟨o, hw, h⟩ := Option.bind_eq_some_iff.mp h
    split at h
    · obtain rfl := Option.some.inj h
      exact .child w o hw
    · cases h
  | alloc w p n =>
    obtain ⟨o, hw, h⟩ := Option.bind_eq_some_iff.mp h
    split at h
    · rename_i hp
      obtain rfl := Option.some.inj h
      exact .alloc w o p n hw hp.2
    · cases h
  | table w n =>
    obtain ⟨o, hw, h⟩ := Option.bind_eq_some_iff.mp h
    split at h
    · obtain rfl := Option.some.inj h
      exact .table w o n hw
    · cases h
  | index w =>
    obtain ⟨o, hw, h⟩ := Option.bind_eq_some_iff.mp h
    split at h
    · obtain rfl := Option.some.inj h
      exact .index w o hw
    · cases h
  | leave w =>
    obtain ⟨o, hw, h⟩ := Option.bind_eq_some_iff.mp h
    obtain rfl := Option.some.inj h
    exact .leave w o hw
  | destroy c =>
    obtain ⟨root, hc, h⟩ := Option.bind_eq_some_iff.mp h
    obtain rfl := Option.some.inj h
    exact .destroy c root hc

/-! ## Who holds which pool -/

/-- Each operation has its root pool and its own pools, no pool twice. -/
def Safe (s : Pools) : Prop :=
  ∀ w o, s.ops w = some o →
    s.regions.live o.root = true ∧ (∀ p ∈ o.pools, s.regions.live p = true) ∧ o.pools.Nodup

/-- No client is destroyed under an operation of it. -/
def Guarded (s : Pools) : PoolsLabel → Prop
  | .destroy c => ∀ w : Flight, w.1 = c → s.ops w = none
  | _ => True

/-- Whose destructor will destroy a pool. -/
inductive Holder where
  | client (c : Nat)
  | op (w : Flight)
  | nobody
  deriving DecidableEq, Repr

def Holds (s : Pools) : Holder → Region → Prop
  | .client c, p => s.clients c = some p
  | .op w, p => ∃ o, s.ops w = some o ∧ p ∈ o.pools
  | .nobody, p => p ∈ s.lost

structure Sound (s : Pools) : Prop where
  made : s.regions.Made
  held : s.regions.Held s.Holds
  /-- the pools of clients, and those that are lost, are roots -/
  isRoot : ∀ h p, s.Holds h p → (∀ w, h ≠ .op w) → ∃ i, p = [i]
  /-- an operation has its client -/
  around : ∀ w o, s.ops w = some o → s.clients w.1 = some o.root
  isChild : ∀ w o, s.ops w = some o → ∀ p ∈ o.pools, ∃ i, p = o.root ++ [i]
  nodup : ∀ w o, s.ops w = some o → o.pools.Nodup

theorem Sound.root_live (h : s.Sound) {w : Flight} {o : PoolOp} (hw : s.ops w = some o) :
    s.regions.live o.root = true :=
  (h.held.live_iff _).mpr ⟨.client w.1, h.around w o hw⟩

theorem Sound.root_eq (h : s.Sound) {w : Flight} {o : PoolOp} (hw : s.ops w = some o) :
    ∃ i, o.root = [i] :=
  h.isRoot (.client w.1) o.root (h.around w o hw) (fun _ hc => (by cases hc))

theorem Sound.safe (h : s.Sound) : s.Safe := by
  intro w o hw
  exact ⟨h.root_live hw, fun p hp => (h.held.live_iff p).mpr ⟨.op w, o, hw, hp⟩, h.nodup w o hw⟩

theorem not_holds_init (h : Holder) (p : Region) : ¬ init.Holds h p := by
  intro hp
  cases h with
  | client c => cases hp
  | op w =>
    obtain ⟨o, hw, -⟩ := hp
    cases hw
  | nobody => cases hp

theorem init_sound : init.Sound where
  made := Regions.made_empty
  held := ⟨fun p => ⟨fun h => (by cases h), fun ⟨h, hp⟩ => absurd hp (not_holds_init h p)⟩,
    fun h _ p hp => absurd hp (not_holds_init h p)⟩
  isRoot h p hp := absurd hp (not_holds_init h p)
  around w o hw := by cases hw
  isChild w o hw := by cases hw
  nodup w o hw := by cases hw

theorem holds_setOp {w : Flight} {x : Option PoolOp} (h : Holder) (p : Region) :
    (s.setOp w x).Holds h p ↔
      (h = .op w ∧ ∃ o, x = some o ∧ p ∈ o.pools) ∨ (h ≠ .op w ∧ s.Holds h p) := by
  cases h with
  | client c => simp [Holds, setOp]
  | nobody => simp [Holds, setOp]
  | op v =>
    show (∃ o, Function.update s.ops w x v = some o ∧ p ∈ o.pools) ↔ _
    by_cases hv : v = w
    · subst hv
      rw [Function.update_self]
      simp
    · rw [Function.update_of_ne hv]
      simp [hv, Holds]

/-- An operation whose pools stay the same. -/
theorem holds_setOp_same {w : Flight} {o o' : PoolOp} (hw : s.ops w = some o)
    (hpools : o'.pools = o.pools) (r : Regions) (n : Nat) (h : Holder) (p : Region) :
    ({ s with regions := r, strings := n }.setOp w (some o')).Holds h p ↔ s.Holds h p := by
  rw [holds_setOp]
  by_cases hh : h = .op w
  · subst hh
    simp [Holds, hw, hpools]
  · simp only [hh, false_and, false_or, ne_eq, not_false_eq_true, true_and]
    cases h <;> exact Iff.rfl

theorem Sound.construct (h : s.Sound) {c : Nat} (hc : s.clients c = none) :
    Sound { s with
      regions := s.regions.create []
      clients := Function.update s.clients c (some (s.regions.fresh [])) } := by
  have hholds : ∀ j q, Holds { s with
      regions := s.regions.create []
      clients := Function.update s.clients c (some (s.regions.fresh [])) } j q ↔
      s.Holds j q ∨ (j = .client c ∧ q = s.regions.fresh []) := by
    intro j q
    cases j with
    | op w => simp [Holds]
    | nobody => simp [Holds]
    | client d =>
      show Function.update s.clients c _ d = some q ↔ _
      rw [update_eq_some_iff]
      by_cases hd : d = c
      · subst hd
        simp [Holds, hc, eq_comm]
      · simp [hd, Holds]
  constructor
  · exact h.made.create (.inl rfl)
  · exact h.held.create h.made hholds
  · intro j q hj hne
    rcases (hholds j q).mp hj with hold | ⟨-, rfl⟩
    · exact h.isRoot j q hold hne
    · exact ⟨_, rfl⟩
  · intro w o hw
    have hroot := h.around w o hw
    refine update_eq_some_iff.mpr (.inr ⟨fun hwc => ?_, hroot⟩)
    rw [hwc, hc] at hroot
    cases hroot
  · exact h.isChild
  · exact h.nodup

theorem Sound.lose (h : s.Sound) : Sound { s with
    regions := s.regions.create [], lost := s.regions.fresh [] :: s.lost } := by
  have hholds : ∀ j q, Holds { s with
      regions := s.regions.create [], lost := s.regions.fresh [] :: s.lost } j q ↔
      s.Holds j q ∨ (j = .nobody ∧ q = s.regions.fresh []) := by
    intro j q
    cases j with
    | op w => simp [Holds]
    | client d => simp [Holds]
    | nobody =>
      show q ∈ s.regions.fresh [] :: s.lost ↔ _
      rw [List.mem_cons, or_comm]
      simp [Holds]
  constructor
  · exact h.made.create (.inl rfl)
  · exact h.held.create h.made hholds
  · intro j q hj hne
    rcases (hholds j q).mp hj with hold | ⟨-, rfl⟩
    · exact h.isRoot j q hold hne
    · exact ⟨_, rfl⟩
  · exact h.around
  · exact h.isChild
  · exact h.nodup

theorem Sound.enter (h : s.Sound) {w : Flight} (m : ClientOperation) {root : Region}
    (hc : s.clients w.1 = some root) (hw : s.ops w = none) :
    (s.setOp w (some ⟨m, root, [], .opening⟩)).Sound := by
  have hholds : ∀ j q, (s.setOp w (some ⟨m, root, [], .opening⟩)).Holds j q ↔ s.Holds j q := by
    intro j q
    rw [holds_setOp]
    by_cases hj : j = .op w
    · subst hj
      simp [Holds, hw]
    · simp [hj]
  constructor
  · exact h.made
  · exact h.held.congr rfl hholds
  · intro j q hj
    exact h.isRoot j q ((hholds j q).mp hj)
  · refine forall_update_iff.mpr ⟨fun o ho => ?_, fun v o _ hv => h.around v o hv⟩
    obtain rfl := Option.some.inj ho
    exact hc
  · refine forall_update_iff.mpr ⟨fun o ho p hp => ?_, fun v o _ hv => h.isChild v o hv⟩
    obtain rfl := Option.some.inj ho
    cases hp
  · refine forall_update_iff.mpr ⟨fun o ho => ?_, fun v o _ hv => h.nodup v o hv⟩
    obtain rfl := Option.some.inj ho
    exact List.nodup_nil

theorem Sound.child (h : s.Sound) {w : Flight} {o : PoolOp} (hw : s.ops w = some o) :
    ({ s with regions := s.regions.create o.root }.setOp w
      (some (o.opened (s.regions.fresh o.root)))).Sound := by
  have hholds : ∀ j q, ({ s with regions := s.regions.create o.root }.setOp w
      (some (o.opened (s.regions.fresh o.root)))).Holds j q ↔
      s.Holds j q ∨ (j = .op w ∧ q = s.regions.fresh o.root) := by
    intro j q
    rw [holds_setOp]
    by_cases hj : j = .op w
    · subst hj
      simp [Holds, hw, PoolOp.opened, or_comm]
    · simp only [hj, false_and, false_or, or_false, ne_eq, not_false_eq_true, true_and]
      cases j <;> exact Iff.rfl
  have hfresh : s.regions.fresh o.root ∉ o.pools := by
    intro hmem
    have hlive := (h.held.live_iff _).mpr ⟨.op w, o, hw, hmem⟩
    rw [h.made.not_live_fresh] at hlive
    cases hlive
  constructor
  · exact h.made.create (.inr (h.root_live hw))
  · exact h.held.create h.made hholds
  · intro j q hj hne
    rcases (hholds j q).mp hj with hold | ⟨hop, -⟩
    · exact h.isRoot j q hold hne
    · exact absurd hop (hne w)
  · refine forall_update_iff.mpr ⟨fun o' ho => ?_, fun v o' _ hv => h.around v o' hv⟩
    obtain rfl := Option.some.inj ho
    exact h.around w o hw
  · refine forall_update_iff.mpr ⟨fun o' ho => ?_, fun v o' _ hv => h.isChild v o' hv⟩
    obtain rfl := Option.some.inj ho
    exact List.forall_mem_cons.mpr ⟨⟨_, rfl⟩, h.isChild w o hw⟩
  · refine forall_update_iff.mpr ⟨fun o' ho => ?_, fun v o' _ hv => h.nodup v o' hv⟩
    obtain rfl := Option.some.inj ho
    exact List.nodup_cons.mpr ⟨hfresh, h.nodup w o hw⟩

theorem Sound.alloc (h : s.Sound) (n : Nat) (p : Region) :
    Sound { s with regions := s.regions.alloc n p } where
  made := h.made.alloc
  held := h.held.congr rfl fun j q => by cases j <;> exact Iff.rfl
  isRoot j q hj := h.isRoot j q (by cases j <;> exact hj)
  around := h.around
  isChild := h.isChild
  nodup := h.nodup

/-- `convert_from_map` and `apr_hash_first` leave blocks in the root pool. -/
theorem Sound.keep (h : s.Sound) {w : Flight} {o : PoolOp} (hw : s.ops w = some o) (n m : Nat) :
    ({ s with regions := s.regions.alloc n o.root, strings := m }.setOp w
      (some { o with stage := .kept })).Sound := by
  have hholds : ∀ j q, ({ s with regions := s.regions.alloc n o.root, strings := m }.setOp w
      (some { o with stage := .kept })).Holds j q ↔ s.Holds j q := by
    intro j q
    exact holds_setOp_same hw (by rfl) _ m j q
  constructor
  · exact h.made.alloc
  · exact h.held.congr rfl hholds
  · intro j q hj
    exact h.isRoot j q ((hholds j q).mp hj)
  · refine forall_update_iff.mpr ⟨fun o' ho => ?_, fun v o' _ hv => h.around v o' hv⟩
    obtain rfl := Option.some.inj ho
    exact h.around w o hw
  · refine forall_update_iff.mpr ⟨fun o' ho => ?_, fun v o' _ hv => h.isChild v o' hv⟩
    obtain rfl := Option.some.inj ho
    exact h.isChild w o hw
  · refine forall_update_iff.mpr ⟨fun o' ho => ?_, fun v o' _ hv => h.nodup v o' hv⟩
    obtain rfl := Option.some.inj ho
    exact h.nodup w o hw

/-- A live pool is a root pool, or a child pool of an operation. -/
theorem Sound.shape (h : s.Sound) {q : Region} (hq : s.regions.live q = true) :
    (∃ i, q = [i]) ∨ ∃ v o i j, s.ops v = some o ∧ q ∈ o.pools ∧ o.root = [i] ∧ q = [i, j] := by
  obtain ⟨k, hk⟩ := (h.held.live_iff q).mp hq
  cases k with
  | client c => exact .inl (h.isRoot _ q hk (fun _ hc => (by cases hc)))
  | nobody => exact .inl (h.isRoot _ q hk (fun _ hc => (by cases hc)))
  | op v =>
    obtain ⟨o, hv, hmem⟩ := hk
    obtain ⟨i, hi⟩ := h.root_eq hv
    obtain ⟨j, hj⟩ := h.isChild v o hv q hmem
    rw [hi] at hj
    exact .inr ⟨v, o, i, j, hv, hmem, hi, hj⟩

/-- Below the pools of an operation there is nothing. -/
theorem Sound.below_child (h : s.Sound) {w : Flight} {o : PoolOp} (hw : s.ops w = some o)
    {q : Region} (hq : s.regions.live q = true) :
    (∃ p ∈ o.pools, p <+: q) ↔ s.Holds (.op w) q := by
  constructor
  · rintro ⟨p, hp, hpre⟩
    obtain ⟨i, hi⟩ := h.root_eq hw
    obtain ⟨j, rfl⟩ := h.isChild w o hw p hp
    rw [hi] at hp hpre
    rcases h.shape hq with ⟨k, rfl⟩ | ⟨_, _, k, l, _, _, _, rfl⟩
    · have hlen := hpre.length_le
      simp at hlen
    · have heq : [i] ++ [j] = [k, l] := hpre.eq_of_length rfl
      rw [← heq]
      exact ⟨o, hw, hp⟩
  · rintro ⟨o', hw', hmem⟩
    rw [hw, Option.some.injEq] at hw'
    exact ⟨q, hw' ▸ hmem, List.prefix_rfl⟩

theorem Sound.leave (h : s.Sound) {w : Flight} {o : PoolOp} (hw : s.ops w = some o) :
    ({ s with regions := s.regions.destroyAll o.pools }.setOp w none).Sound := by
  have hholds : ∀ j q,
      ({ s with regions := s.regions.destroyAll o.pools }.setOp w none).Holds j q ↔
        s.Holds j q ∧ j ≠ .op w := by
    intro j q
    rw [holds_setOp]
    simp only [reduceCtorEq, false_and, exists_false, false_or, and_comm]
    cases j <;> exact Iff.rfl
  constructor
  · exact h.made.destroyAll
  · refine h.held.drop (fun q => ?_) hholds
    show (s.regions.destroyAll o.pools).live q = true ↔ _
    rw [Regions.live_destroyAll]
    refine and_congr_right fun hq => ?_
    rw [← h.below_child hw hq]
    simp
  · intro j q hj
    exact h.isRoot j q ((hholds j q).mp hj).1
  · exact forall_update_iff.mpr ⟨fun _ ho => (by cases ho), fun v o' _ hv => h.around v o' hv⟩
  · exact forall_update_iff.mpr ⟨fun _ ho => (by cases ho), fun v o' _ hv => h.isChild v o' hv⟩
  · exact forall_update_iff.mpr ⟨fun _ ho => (by cases ho), fun v o' _ hv => h.nodup v o' hv⟩

theorem Sound.client_inj (h : s.Sound) {c d : Nat} {root : Region}
    (hc : s.clients c = some root) (hd : s.clients d = some root) : c = d := by
  have heq := h.held.once (.client c) (.client d) root hc hd
  injection heq

/-- In the root pool of a client without an operation there is no other pool. -/
theorem Sound.below_root (h : s.Sound) {c : Nat} {root : Region} (hc : s.clients c = some root)
    (hops : ∀ w : Flight, w.1 = c → s.ops w = none) {q : Region} (hq : s.regions.live q = true) :
    root <+: q ↔ s.Holds (.client c) q := by
  obtain ⟨i, rfl⟩ := h.isRoot (.client c) root hc (fun _ hc => (by cases hc))
  constructor
  · intro hpre
    rcases h.shape hq with ⟨k, rfl⟩ | ⟨v, o, k, l, hv, -, hroot, rfl⟩
    · rw [← hpre.eq_of_length rfl]
      exact hc
    · obtain ⟨rfl, -⟩ := List.cons_prefix_cons.mp hpre
      have hclient := h.around v o hv
      rw [hroot] at hclient
      rw [hops v (h.client_inj hclient hc)] at hv
      cases hv
  · intro hk
    have hk' : s.clients c = some q := hk
    rw [hc, Option.some.injEq] at hk'
    rw [hk']

theorem Sound.destroy (h : s.Sound) {c : Nat} {root : Region} (hc : s.clients c = some root)
    (hops : ∀ w : Flight, w.1 = c → s.ops w = none) :
    Sound { s with
      regions := s.regions.destroy root
      clients := Function.update s.clients c none } := by
  have hholds : ∀ j q, Holds { s with
      regions := s.regions.destroy root
      clients := Function.update s.clients c none } j q ↔ s.Holds j q ∧ j ≠ .client c := by
    intro j q
    cases j with
    | op w => simp [Holds]
    | nobody => simp [Holds]
    | client d =>
      show Function.update s.clients c none d = some q ↔ _
      rw [update_eq_some_iff]
      simp [Holds, and_comm]
  constructor
  · exact h.made.destroy
  · refine h.held.drop (fun q => ?_) hholds
    show (s.regions.destroy root).live q = true ↔ _
    rw [Regions.live_destroy]
    refine and_congr_right fun hq => ?_
    rw [h.below_root hc hops hq]
  · intro j q hj
    exact h.isRoot j q ((hholds j q).mp hj).1
  · intro w o hw
    refine update_eq_some_iff.mpr (.inr ⟨fun hwc => ?_, h.around w o hw⟩)
    rw [show s.ops w = none from hops w hwc] at hw
    cases hw
  · exact h.isChild
  · exact h.nodup

theorem Sound.step (h : s.Sound) (hg : s.Guarded l) (hs : Pools.step hash s l = some t) :
    t.Sound := by
  cases moves hs with
  | construct c hc => exact h.construct hc
  | lose c => exact h.lose
  | enter w m root hc hw => exact h.enter m hc hw
  | child w o hw => exact h.child hw
  | alloc w o p n hw hp => exact h.alloc n p
  | table w o n hw => exact h.keep hw _ _
  | index w o hw => exact h.keep hw 1 s.strings
  | leave w o hw => exact h.leave hw
  | destroy c root hc => exact h.destroy hc hg

/-- Where a step is not guarded, an operation loses its pools. -/
theorem Sound.guarded_of_safe (h : s.Sound) (hs : Pools.step hash s l = some t) (ht : t.Safe) :
    s.Guarded l := by
  cases moves hs with
  | construct | lose | enter | child | alloc | table | index | leave => trivial
  | destroy c root hc =>
    intro w hwc
    cases hw : s.ops w with
    | none => rfl
    | some o =>
      have hroot := h.around w o hw
      rw [hwc, hc, Option.some.injEq] at hroot
      have hlive := (Regions.live_destroy.mp (ht w o hw).1).2
      exact absurd (hroot ▸ List.prefix_rfl) hlive

/-- **Every operation keeps its pools**, in whatever order clients and operations take their
steps, exactly if no client is destroyed while an operation of it runs. -/
theorem always_safe_iff {ls : List PoolsLabel} (h : (poolsMachine hash).run init ls = some t) :
    (poolsMachine hash).Always Safe init ls ↔ (poolsMachine hash).Meets Guarded init ls := by
  refine Machine.always_iff_meets (I := Sound) init_sound init_sound.safe ?_ h
  intro s l t hi _ hs
  refine ⟨⟨hi.guarded_of_safe hs, fun hg => (hi.step hg hs).safe⟩, fun ht => ?_⟩
  exact hi.step (hi.guarded_of_safe hs ht) hs

/-- A client is made, runs `cat` and is destroyed. -/
theorem always_safe_cat : ∃ t,
    (poolsMachine id).run init [.construct 0 false, .enter (0, 7) .cat, .child (0, 7),
      .child (0, 7), .index (0, 7), .leave (0, 7), .destroy 0] = some t ∧
    ((poolsMachine id).Always Safe init [.construct 0 false, .enter (0, 7) .cat, .child (0, 7),
      .child (0, 7), .index (0, 7), .leave (0, 7), .destroy 0] ↔
    (poolsMachine id).Meets Guarded init [.construct 0 false, .enter (0, 7) .cat, .child (0, 7),
      .child (0, 7), .index (0, 7), .leave (0, 7), .destroy 0]) :=
  ⟨_, (Option.some_get rfl).symm, always_safe_iff (Option.some_get rfl).symm⟩

theorem guarded_of_not_destroy {ls : List PoolsLabel} (h : ∀ l ∈ ls, ∀ c, l ≠ .destroy c) :
    (poolsMachine hash).Meets Guarded s ls := by
  refine Machine.Meets.of_forall fun l hl s => ?_
  cases l with
  | destroy c => exact absurd rfl (h _ hl c)
  | construct | enter | child | alloc | table | index | leave => trivial

theorem Sound.of_meets {ls : List PoolsLabel} (hg : (poolsMachine hash).Meets Guarded init ls)
    (h : (poolsMachine hash).run init ls = some t) : t.Sound :=
  hg.invariant init_sound (fun _ _ _ hi hc hs => hi.step hc hs) h

/-- The pool that a constructor loses is a new one. -/
theorem Sound.lost_nodup (h : s.Sound) (hn : s.lost.Nodup)
    (hs : Pools.step hash s l = some t) : t.lost.Nodup := by
  cases moves hs with
  | lose c =>
    refine List.nodup_cons.mpr ⟨fun hmem => ?_, hn⟩
    have hlive := (h.held.live_iff _).mpr ⟨.nobody, hmem⟩
    rw [h.made.not_live_fresh] at hlive
    cases hlive
  | construct | enter | child | alloc | table | index | leave | destroy => exact hn

/-- **No pool is left behind**, but those of the constructors that threw: under guarded steps
the live pools are those that a client or an operation will destroy, each one of them, and one
more for each such constructor. -/
theorem released {ls : List PoolsLabel} (hg : (poolsMachine hash).Meets Guarded init ls)
    (h : (poolsMachine hash).run init ls = some t) :
    (∀ p, t.regions.live p = true ↔ (∃ c, t.clients c = some p) ∨
      (∃ w o, t.ops w = some o ∧ p ∈ o.pools) ∨ p ∈ t.lost) ∧
    (∀ p h h', t.Holds h p → t.Holds h' p → h = h') ∧
    t.lost.Nodup ∧ t.lost.length = ls.countP PoolsLabel.loses := by
  obtain ⟨hsound, hnodup⟩ := hg.invariant (I := fun s => s.Sound ∧ s.lost.Nodup)
    ⟨init_sound, List.nodup_nil⟩
    (fun _ _ _ hi hc hs => ⟨hi.1.step hc hs, hi.1.lost_nodup hi.2 hs⟩) h
  refine ⟨fun p => ?_, fun p k k' => hsound.held.once k k' p, hnodup, ?_⟩
  · rw [hsound.held.live_iff]
    constructor
    · rintro ⟨k, hk⟩
      cases k with
      | client c => exact .inl ⟨c, hk⟩
      | op w =>
        obtain ⟨o, hw, hp⟩ := hk
        exact .inr (.inl ⟨w, o, hw, hp⟩)
      | nobody => exact .inr (.inr hk)
    · rintro (⟨c, hc⟩ | ⟨w, o, hw, hp⟩ | hp)
      · exact ⟨.client c, hc⟩
      · exact ⟨.op w, o, hw, hp⟩
      · exact ⟨.nobody, hp⟩
  · refine Machine.run_induction (M := poolsMachine hash)
      (P := fun ls t => t.lost.length = ls.countP PoolsLabel.loses) rfl ?_ ls t h
    intro ls s l t _ ih hs
    rw [List.countP_append, List.countP_singleton]
    cases moves hs with
    | lose c => exact congrArg (· + 1) ih
    | construct | enter | child | alloc | table | index | leave | destroy => exact ih

/-- The first constructor throws; the client of the second runs a commit that throws at once. -/
theorem released_two_clients : ∃ t,
    (poolsMachine id).run init [.construct 0 true, .construct 0 false, .enter (0, 7) .commit,
      .child (0, 7), .leave (0, 7)] = some t ∧ t.lost.length = 1 :=
  ⟨_, (Option.some_get rfl).symm, (released (guarded_of_not_destroy (by simp))
    (Option.some_get (x := (poolsMachine id).run init [.construct 0 true, .construct 0 false,
      .enter (0, 7) .commit, .child (0, 7), .leave (0, 7)]) rfl).symm).2.2.2⟩

/-! ## What stays in a root pool -/

theorem Sound.root_ne_fresh (h : s.Sound) {c : Nat} {root : Region}
    (hc : s.clients c = some root) (p : Region) : root ≠ s.regions.fresh p := by
  intro heq
  have hlive := (h.held.live_iff root).mpr ⟨.client c, hc⟩
  rw [heq, h.made.not_live_fresh] at hlive
  cases hlive

theorem Sound.child_not_prefix (h : s.Sound) {c : Nat} {root p : Region}
    (hc : s.clients c = some root) {w : Flight} {o : PoolOp} (hw : s.ops w = some o)
    (hp : p ∈ o.pools) : ¬ p <+: root := by
  intro hpre
  obtain ⟨i, rfl⟩ := h.isRoot (.client c) root hc (fun _ hc => (by cases hc))
  obtain ⟨j, hj⟩ := h.root_eq hw
  obtain ⟨k, rfl⟩ := h.isChild w o hw p hp
  have hlen := hpre.length_le
  rw [hj] at hlen
  simp at hlen

theorem Sound.blocks_keep (h : s.Sound) {c : Nat} {root : Region}
    (hc : s.clients c = some root) {w : Flight} {o : PoolOp} (hw : s.ops w = some o) (n : Nat) :
    (s.regions.alloc n o.root).blocks root =
      s.regions.blocks root + if w.1 = c then n else 0 := by
  have haround := h.around w o hw
  by_cases hwc : w.1 = c
  · rw [hwc, hc, Option.some.injEq] at haround
    rw [if_pos hwc, haround, Regions.blocks_alloc_self]
  · rw [if_neg hwc, Regions.blocks_alloc_of_ne]
    · rfl
    · intro heq
      rw [← heq] at haround
      exact hwc (h.client_inj haround hc)

theorem Sound.blocks_step (h : s.Sound) {c : Nat} {root : Region}
    (hc : s.clients c = some root) (hl : l ≠ .destroy c) (hs : Pools.step hash s l = some t) :
    t.clients c = some root ∧
      t.regions.blocks root = s.regions.blocks root + (l.kept hash c + l.cached root) ∧
      t.strings = s.strings + l.newStrings := by
  cases moves hs with
  | construct d hd =>
    have hdc : c ≠ d := by
      rintro rfl
      rw [hc] at hd
      cases hd
    exact ⟨(Function.update_of_ne hdc ..).trans hc,
      Regions.blocks_create_of_ne (h.root_ne_fresh hc []), rfl⟩
  | lose d => exact ⟨hc, Regions.blocks_create_of_ne (h.root_ne_fresh hc []), rfl⟩
  | enter w m r hd hw => exact ⟨hc, rfl, rfl⟩
  | child w o hw => exact ⟨hc, Regions.blocks_create_of_ne (h.root_ne_fresh hc o.root), rfl⟩
  | alloc w o p n hw hp =>
    refine ⟨hc, ?_, rfl⟩
    show (s.regions.alloc n p).blocks root = _ + (0 + if p = root then n else 0)
    by_cases hroot : p = root
    · rw [if_pos hroot, hroot, Regions.blocks_alloc_self, Nat.zero_add]
    · rw [if_neg hroot, Regions.blocks_alloc_of_ne (Ne.symm hroot)]
      rfl
  | table w o n hw => exact ⟨hc, h.blocks_keep hc hw _, rfl⟩
  | index w o hw => exact ⟨hc, h.blocks_keep hc hw 1, rfl⟩
  | leave w o hw =>
    refine ⟨hc, Regions.blocks_destroyAll_of_not_prefix fun p hp => ?_, rfl⟩
    exact h.child_not_prefix hc hw hp
  | destroy d r hd =>
    have hcd : c ≠ d := fun he => hl (he ▸ rfl)
    refine ⟨(Function.update_of_ne hcd ..).trans hc,
      Regions.blocks_destroy_of_not_prefix fun hpre => ?_, rfl⟩
    obtain ⟨i, rfl⟩ := h.isRoot (.client c) root hc (fun _ hc => (by cases hc))
    obtain ⟨j, rfl⟩ := h.isRoot (.client d) r hd (fun _ hc => (by cases hc))
    rw [hpre.eq_of_length rfl] at hd
    exact hcd (h.client_inj hc hd)

/-- **A root pool only grows.**  While a client is there, each commit and each removal adds
what `convert_from_map` takes for its table, each `cat` an iterator, libsvn what it takes, and
nothing is given back; the `svn_string_t` stay even longer. -/
theorem blocks_law {ls ms : List PoolsLabel} (hg : (poolsMachine hash).Meets Guarded init ls)
    (h : (poolsMachine hash).run init ls = some s) {c : Nat} {root : Region}
    (hc : s.clients c = some root) (hgm : (poolsMachine hash).Meets Guarded s ms)
    (hm : (poolsMachine hash).run s ms = some t) (hnot : PoolsLabel.destroy c ∉ ms) :
    t.clients c = some root ∧
      t.regions.blocks root = s.regions.blocks root + (ms.map (PoolsLabel.kept hash c)).sum +
        (ms.map (PoolsLabel.cached root)).sum ∧
      t.strings = s.strings + (ms.map PoolsLabel.newStrings).sum := by
  have hsound := Sound.of_meets hg h
  refine (Machine.run_induction (M := poolsMachine hash) (P := fun ms t =>
    (poolsMachine hash).Meets Guarded s ms → PoolsLabel.destroy c ∉ ms → t.Sound ∧
      t.clients c = some root ∧
      t.regions.blocks root = s.regions.blocks root + (ms.map (PoolsLabel.kept hash c)).sum +
        (ms.map (PoolsLabel.cached root)).sum ∧
      t.strings = s.strings + (ms.map PoolsLabel.newStrings).sum)
    (fun _ _ => ⟨hsound, hc, rfl, rfl⟩) ?_ ms t hm hgm hnot).2
  intro ms u l u' hu ih hs hmeets hnot
  rw [Machine.meets_snoc hu] at hmeets
  rw [List.mem_append, not_or, List.mem_singleton] at hnot
  obtain ⟨hsu, hcu, hblocks, hstrings⟩ := ih hmeets.1 hnot.1
  obtain ⟨hcu', hblocks', hstrings'⟩ := hsu.blocks_step hcu (Ne.symm hnot.2) hs
  refine ⟨hsu.step hmeets.2 hs, hcu', ?_, ?_⟩
  · rw [hblocks', hblocks]
    simp only [List.map_append, List.sum_append, List.map_singleton, List.sum_singleton]
    omega
  · rw [hstrings', hstrings, List.map_append, List.sum_append, List.map_singleton,
      List.sum_singleton, Nat.add_assoc]

/-- A commit with two properties, and a `cat`; libsvn takes three blocks for the context. -/
def commitCat : List PoolsLabel :=
  [.enter (0, 7) .commit, .child (0, 7), .table (0, 7) 2, .alloc (0, 7) [0] 3, .leave (0, 7),
    .enter (0, 7) .cat, .child (0, 7), .child (0, 7), .alloc (0, 7) [0, 1] 5, .index (0, 7),
    .leave (0, 7)]

/-- They leave seven blocks and two strings, if the hash table has a block an entry. -/
theorem blocks_law_commit_cat : ∃ s, (poolsMachine id).run init [.construct 0 false] = some s ∧
    ∃ t, (poolsMachine id).run s commitCat = some t ∧
      t.regions.blocks [0] = s.regions.blocks [0] + 7 + 3 ∧ t.strings = s.strings + 2 := by
  refine ⟨_, (Option.some_get rfl).symm, _, (Option.some_get rfl).symm, ?_⟩
  exact (blocks_law (c := 0) (guarded_of_not_destroy (by simp))
    (Option.some_get (x := (poolsMachine id).run init [.construct 0 false]) rfl).symm rfl
    (guarded_of_not_destroy (by simp [commitCat])) (Option.some_get rfl).symm
    (by simp [commitCat])).2

end Pools

end NodeSvn
