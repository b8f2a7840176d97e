import Mathlib.Data.List.Basic
import NodeSvn.Lib.OneShot
import NodeSvn.Cpp.Exception

/-!
# `no::iterable`: the async iterator behind a streaming operation

The members that decide what happens, the V8 promises the iterable makes, and the
`std::promise` objects that `_consume_promise` holds over time.  `resolve` is cut at
`RunMicrotasks`, the one place where JS runs inside it: `resolveBegin` up to the call,
`getFuture` after it, and any number of `next` calls in between.

What the functions do is said once, for the three shapes of the slot:

    slot            next                         resolve
    empty           waiting for a new promise    stores a settled promise
    waiting r       waiting for a new promise    settles r, slot empty
    stored r        returns r, slot empty        throws

(`resolveBegin_empty`, `resolveBegin_waiting`, `resolveBegin_stored`, `next_stored`,
`next_not_stored`.)
-/

namespace NodeSvn

/-- A `v8::Local` of a resolver; `none` is the empty handle. -/
abbrev Handle := Option Nat

/-- How a promise of `next()` is settled.  A value `none` is `undefined`. -/
inductive Settlement (V : Type) where
  | fulfilled (value : Option V) (done : Bool)
  | rejected (reason : Option V)
  deriving DecidableEq, Repr

structure Iterable (V : Type) where
  /-- `_resolver` -/
  resolver : Handle
  /-- `_resolver_fulfilled` -/
  resolverFulfilled : Bool
  /-- `_iterator_released` -/
  iteratorReleased : Bool
  /-- `_consume_promise`: which of the promise objects below -/
  consumePromise : Nat
  shared : List (OneShot Exn Unit)
  /-- the V8 promises made so far, by resolver -/
  promises : List (Option (Settlement V))

/-- Code of the iterable: it may throw, and keeps what it did before. -/
abbrev IterM (V : Type) := EStateM Exn (Iterable V)

namespace Iterable

variable {V : Type} {it : Iterable V}

def create : Iterable V where
  resolver := none
  resolverFulfilled := false
  iteratorReleased := false
  consumePromise := 0
  shared := [.fresh]
  promises := []

/-! ## V8 and `std::promise` operations -/

/-- `no::check_result` on a `v8::Maybe<bool>` (`none` is nothing). -/
def checkResult : Option Bool → IterM V Unit
  | some true => pure ()
  | _ => throw (.runtimeError "")

/-- A new pending promise. -/
def newResolver : IterM V Nat := do
  let it ← get
  set { it with promises := it.promises ++ [none] }
  return it.promises.length

/-- `Resolve` and `Reject`: a promise that is settled stays as it is. -/
def settle (r : Nat) (x : Settlement V) : IterM V Unit :=
  modify fun it => { it with promises := it.promises.modify r fun p => some (p.getD x) }

/-- `_consume_promise = std::promise<void>()` -/
def assignConsumePromise : IterM V Unit :=
  modify fun it =>
    { it with
      shared := it.shared.modify it.consumePromise (·.abandon .futureError) ++ [.fresh]
      consumePromise := it.shared.length }

def modifyConsume (f : OneShot Exn Unit → Except FutureErrc (OneShot Exn Unit)) :
    IterM V Unit := do
  let it ← get
  match it.shared[it.consumePromise]? with
  | none => throw .futureError
  | some c =>
    match f c with
    | .error _ => throw .futureError
    | .ok c => set { it with shared := it.shared.set it.consumePromise c }

def consumeSetValue : IterM V Unit := modifyConsume (·.setResult (.ok ()))

def consumeSetException (e : Exn) : IterM V Unit := modifyConsume (·.setResult (.error e))

/-- `_consume_promise.get_future()`; the future is named by its promise object. -/
def getFuture : IterM V Nat := do
  modifyConsume (·.getFuture)
  return (← get).consumePromise

/-! ## The methods -/

/-- `resolve` up to `RunMicrotasks`; `v8` is what `Resolve` or `Reject` returns. -/
def resolveBegin (v8 : Option Bool) (success : Bool) (value : Option V) (done : Bool) :
    IterM V Unit := do
  -- already have a value waiting JS side to retrieve
  if (← get).resolverFulfilled then
    throw (.runtimeError "")
  -- JS side has released their handle, it's invalid now
  if (← get).iteratorReleased then
    throw (.runtimeError "")
  assignConsumePromise
  let resolver ← do
    match (← get).resolver with
    | none =>
      let r ← newResolver
      modify fun it => { it with resolver := some r }
      modify fun it => { it with resolverFulfilled := true }
      pure r
    | some r =>
      modify fun it => { it with resolver := none }
      consumeSetValue
      pure r
  checkResult v8
  if success then
    settle resolver (.fulfilled value done)
  else
    settle resolver (.rejected value)

/-- `iterable::resolve` with the JS that `RunMicrotasks` runs. -/
def resolve (v8 : Option Bool) (success : Bool) (value : Option V) (done : Bool)
    (runMicrotasks : IterM V Unit) : IterM V Nat := do
  resolveBegin v8 success value done
  runMicrotasks
  getFuture

def next : IterM V Handle := do
  if (← get).resolverFulfilled then
    let resolver := (← get).resolver
    modify fun it => { it with resolver := none }
    modify fun it => { it with resolverFulfilled := false }
    consumeSetValue
    return resolver
  else
    let r ← newResolver
    modify fun it => { it with resolver := some r }
    return some r

def destructor : IterM V Unit := do
  if (← get).resolverFulfilled then
    consumeSetException (.runtimeError "")
  modify fun it => { it with iteratorReleased := true }

/-! ## What the methods do -/

def renewed (it : Iterable V) (c : OneShot Exn Unit) : List (OneShot Exn Unit) :=
  it.shared.modify it.consumePromise (·.abandon .futureError) ++ [c]

/-- `resolve` found no request: the settled promise is stored. -/
def afterStore (it : Iterable V) (x : Settlement V) : Iterable V :=
  { it with
    resolver := some it.promises.length
    resolverFulfilled := true
    consumePromise := it.shared.length
    shared := it.renewed .fresh
    promises := it.promises ++ [some x] }

/-- `resolve` found the request `r`. -/
def afterHand (it : Iterable V) (r : Nat) (x : Settlement V) : Iterable V :=
  { it with
    resolver := none
    consumePromise := it.shared.length
    shared := it.renewed ⟨some (.ok ()), false⟩
    promises := it.promises.modify r fun p => some (p.getD x) }

/-- `next` found a stored promise. -/
def afterTake (it : Iterable V) : Iterable V :=
  { it with
    resolver := none
    resolverFulfilled := false
    shared := it.shared.modify it.consumePromise fun c => { c with result := some (.ok ()) } }

/-- `next` made a new request. -/
def afterAsk (it : Iterable V) : Iterable V :=
  { it with
    resolver := some it.promises.length
    promises := it.promises ++ [none] }

def afterFuture (it : Iterable V) : Iterable V :=
  { it with shared := it.shared.modify it.consumePromise fun c => { c with retrieved := true } }

def settlement (success : Bool) (value : Option V) (done : Bool) : Settlement V :=
  if success then .fulfilled value done else .rejected value

theorem resolveBegin_stored (h : it.resolverFulfilled = true) (v8 : Option Bool) (success : Bool)
    (value : Option V) (done : Bool) :
    (resolveBegin v8 success value done).run it = .error (.runtimeError "") it := by
  simp [resolveBegin, h]

theorem resolveBegin_released (h : it.resolverFulfilled = false) (hr : it.iteratorReleased = true)
    (v8 : Option Bool) (success : Bool) (value : Option V) (done : Bool) :
    (resolveBegin v8 success value done).run it = .error (.runtimeError "") it := by
  simp [resolveBegin, h, hr]

/-- V8 refuses the settlement. -/
theorem resolveBegin_refused (h : it.resolverFulfilled = false) (hr : it.iteratorReleased = false)
    {v8 : Option Bool} (hv : v8 ≠ some true) (success : Bool) (value : Option V) (done : Bool) :
    ∃ it', (resolveBegin v8 success value done).run it = .error (.runtimeError "") it' := by
  have hcheck : ∀ s : Iterable V, (checkResult v8).run s = .error (.runtimeError "") s := by
    intro s
    match v8 with
    | none => rfl
    | some false => rfl
    | some true => exact absurd rfl hv
  cases hs : it.resolver <;>
    simp [resolveBegin, assignConsumePromise, newResolver, consumeSetValue, modifyConsume, h, hr,
      hs, OneShot.setResult, hcheck]

theorem resolveBegin_empty (h : it.resolverFulfilled = false) (hr : it.iteratorReleased = false)
    (hs : it.resolver = none) (success : Bool) (value : Option V) (done : Bool) :
    (resolveBegin (some true) success value done).run it =
      .ok () (it.afterStore (settlement success value done)) := by
  have hm : ∀ x : Settlement V, (it.promises ++ [none]).modify it.promises.length
      (fun p => some (p.getD x)) = it.promises ++ [some x] := by
    intro x
    simp [List.modify_eq_set_getElem?]
  cases success <;>
    simp [resolveBegin, assignConsumePromise, newResolver, settle, checkResult, h, hr, hs, hm,
      afterStore, renewed, settlement]

theorem resolveBegin_waiting {r : Nat} (h : it.resolverFulfilled = false)
    (hr : it.iteratorReleased = false) (hs : it.resolver = some r) (success : Bool)
    (value : Option V) (done : Bool) :
    (resolveBegin (some true) success value done).run it =
      .ok () (it.afterHand r (settlement success value done)) := by
  cases success <;>
    simp [resolveBegin, assignConsumePromise, settle, checkResult, consumeSetValue, modifyConsume,
      h, hr, hs, afterHand, renewed, settlement, OneShot.setResult]

theorem next_stored {r : Nat} {c : OneShot Exn Unit} (h : it.resolverFulfilled = true)
    (hs : it.resolver = some r) (hc : it.shared[it.consumePromise]? = some c)
    (hn : c.result = none) : next.run it = .ok (some r) it.afterTake := by
  simp [-bind_pure_comp, next, consumeSetValue, modifyConsume, h, hs, hc,
    OneShot.setResult_of_none hn, afterTake, List.modify_eq_set_getElem?]

theorem next_not_stored (h : it.resolverFulfilled = false) :
    next.run it = .ok (some it.promises.length) it.afterAsk := by
  simp [-bind_pure_comp, next, newResolver, h, afterAsk]

theorem getFuture_ok {c : OneShot Exn Unit} (hc : it.shared[it.consumePromise]? = some c)
    (hn : c.retrieved = false) : getFuture.run it = .ok it.consumePromise it.afterFuture := by
  simp [-bind_pure_comp, getFuture, modifyConsume, hc, OneShot.getFuture_of_not_retrieved hn,
    afterFuture, List.modify_eq_set_getElem?]

/-! ## The representation invariant -/

def promiseAt (it : Iterable V) (r : Nat) : Option (Settlement V) := (it.promises[r]?).join

/-- The state of the promise a handle names. -/
def stateOf (it : Iterable V) (h : Handle) : Option (Settlement V) := h.bind it.promiseAt

/-- The handle names a promise that exists. -/
def Known (it : Iterable V) (h : Handle) : Prop := ∃ r, h = some r ∧ r < it.promises.length

/-- What the future of the promise object `f` holds. -/
def futureResult (it : Iterable V) (f : Nat) : Option (Except Exn Unit) :=
  it.shared[f]?.bind (·.result)

structure WF (it : Iterable V) : Prop where
  cell : ∃ c, it.shared[it.consumePromise]? = some c
  resolver_lt : ∀ r, it.resolver = some r → r < it.promises.length
  stored : it.resolverFulfilled = true →
    ∃ r x, it.resolver = some r ∧ it.promiseAt r = some x ∧
      it.futureResult it.consumePromise = none
  waiting : it.resolverFulfilled = false → ∀ r, it.resolver = some r → it.promiseAt r = none

theorem create_wf : WF (create : Iterable V) where
  cell := ⟨.fresh, rfl⟩
  resolver_lt := by simp [create]
  stored := by simp [create]
  waiting := by simp [create]

@[simp] theorem stateOf_some (it : Iterable V) (r : Nat) : it.stateOf (some r) = it.promiseAt r :=
  rfl

theorem lt_of_promiseAt {r : Nat} {x : Settlement V} (h : it.promiseAt r = some x) :
    r < it.promises.length := by
  by_contra hr
  simp [promiseAt, List.getElem?_eq_none (Nat.not_lt.mp hr)] at h

/-! The promises after each method: only the slot's promise and new ones change. -/

theorem promiseAt_of_le {r : Nat} (h : it.promises.length ≤ r) : it.promiseAt r = none := by
  rw [promiseAt, List.getElem?_eq_none h]
  rfl

theorem promiseAt_afterStore_self (x : Settlement V) :
    (it.afterStore x).promiseAt it.promises.length = some x := by
  simp [promiseAt, afterStore]

theorem promiseAt_afterStore_ne {r : Nat} (h : r ≠ it.promises.length) (x : Settlement V) :
    (it.afterStore x).promiseAt r = it.promiseAt r := by
  rcases Nat.lt_or_gt_of_ne h with hlt | hgt
  · simp [promiseAt, afterStore, List.getElem?_append_left hlt]
  · have hlen : (it.afterStore x).promises.length ≤ r := by
      simp only [afterStore, List.length_append, List.length_singleton]
      exact hgt
    rw [promiseAt_of_le hlen, promiseAt_of_le (Nat.le_of_lt hgt)]

theorem promiseAt_afterHand_self {r : Nat} (hr : r < it.promises.length)
    (h : it.promiseAt r = none) (x : Settlement V) : (it.afterHand r x).promiseAt r = some x := by
  simp only [promiseAt, afterHand, List.getElem?_modify_eq] at h ⊢
  rw [List.getElem?_eq_getElem hr] at h ⊢
  simp only [Option.join_some] at h
  simp [h]

theorem promiseAt_afterHand_ne {r r' : Nat} (h : r ≠ r') (x : Settlement V) :
    (it.afterHand r x).promiseAt r' = it.promiseAt r' := by
  simp [promiseAt, afterHand, List.getElem?_modify_ne _ _ h]

theorem promiseAt_afterTake (r : Nat) : it.afterTake.promiseAt r = it.promiseAt r := rfl

theorem promiseAt_afterAsk (r : Nat) : it.afterAsk.promiseAt r = it.promiseAt r := by
  rcases Nat.lt_or_ge r it.promises.length with hlt | hge
  · simp [promiseAt, afterAsk, List.getElem?_append_left hlt]
  · rw [promiseAt_of_le hge]
    rcases Nat.eq_or_lt_of_le hge with rfl | hgt
    · simp [promiseAt, afterAsk]
    · refine promiseAt_of_le ?_
      simp only [afterAsk, List.length_append, List.length_singleton]
      exact hgt

theorem promiseAt_afterFuture (r : Nat) : it.afterFuture.promiseAt r = it.promiseAt r := rfl

theorem stateOf_afterAsk (h : Handle) : it.afterAsk.stateOf h = it.stateOf h := by
  cases h with
  | none => rfl
  | some r => exact promiseAt_afterAsk r

theorem stateOf_afterStore {h : Handle} (hk : it.Known h) (x : Settlement V) :
    (it.afterStore x).stateOf h = it.stateOf h := by
  obtain ⟨r, rfl, hr⟩ := hk
  exact promiseAt_afterStore_ne (Nat.ne_of_lt hr) x

theorem stateOf_afterHand_ne {r : Nat} {h : Handle} (hk : it.Known h) (hne : h ≠ some r)
    (x : Settlement V) : (it.afterHand r x).stateOf h = it.stateOf h := by
  obtain ⟨r', rfl, hr⟩ := hk
  exact promiseAt_afterHand_ne (fun e => hne (by rw [e])) x

/-! The current future after each method. -/

theorem cell_append (it : Iterable V) (c : OneShot Exn Unit) :
    (it.renewed c)[it.shared.length]? = some c := by
  simp [renewed]

theorem futureResult_afterStore (x : Settlement V) :
    (it.afterStore x).futureResult (it.afterStore x).consumePromise = none := by
  simp [futureResult, afterStore, cell_append]

theorem futureResult_afterHand (r : Nat) (x : Settlement V) :
    (it.afterHand r x).futureResult (it.afterHand r x).consumePromise = some (.ok ()) := by
  simp [futureResult, afterHand, cell_append]

theorem futureResult_afterTake (h : ∃ c, it.shared[it.consumePromise]? = some c) :
    it.afterTake.futureResult it.consumePromise = some (.ok ()) := by
  obtain ⟨c, hc⟩ := h
  simp [futureResult, afterTake, hc]

theorem futureResult_afterFuture (f : Nat) :
    it.afterFuture.futureResult f = it.futureResult f := by
  simp only [futureResult, afterFuture, List.getElem?_modify]
  cases it.shared[f]? with
  | none => rfl
  | some c => by_cases h : it.consumePromise = f <;> simp [h]

/-! Every method keeps the invariant. -/

theorem afterStore_wf (it : Iterable V) (x : Settlement V) : (it.afterStore x).WF where
  cell := ⟨_, cell_append it .fresh⟩
  resolver_lt := by
    intro r hr
    obtain rfl : it.promises.length = r := Option.some.inj hr
    simp [Iterable.afterStore]
  stored := fun _ => ⟨_, x, rfl, promiseAt_afterStore_self x, futureResult_afterStore x⟩
  waiting := by simp [Iterable.afterStore]

theorem afterHand_wf (hf : it.resolverFulfilled = false) (r : Nat) (x : Settlement V) :
    (it.afterHand r x).WF where
  cell := ⟨_, cell_append it _⟩
  resolver_lt := by simp [Iterable.afterHand]
  stored := by simp [Iterable.afterHand, hf]
  waiting := by simp [Iterable.afterHand]

theorem WF.afterTake (h : it.WF) : it.afterTake.WF where
  cell := by
    obtain ⟨c, hc⟩ := h.cell
    exact ⟨{ c with result := some (.ok ()) }, by simp [Iterable.afterTake, hc]⟩
  resolver_lt := by simp [Iterable.afterTake]
  stored := by simp [Iterable.afterTake]
  waiting := by simp [Iterable.afterTake]

theorem WF.afterAsk (h : it.WF) (hf : it.resolverFulfilled = false) : it.afterAsk.WF where
  cell := h.cell
  resolver_lt := by
    intro r hr
    obtain rfl : it.promises.length = r := Option.some.inj hr
    simp [Iterable.afterAsk]
  stored := by simp [Iterable.afterAsk, hf]
  waiting := by
    intro _ r hr
    obtain rfl : it.promises.length = r := Option.some.inj hr
    exact (promiseAt_afterAsk _).trans (promiseAt_of_le (Nat.le_refl _))

theorem WF.afterFuture (h : it.WF) : it.afterFuture.WF where
  cell := by
    obtain ⟨c, hc⟩ := h.cell
    exact ⟨{ c with retrieved := true }, by simp [Iterable.afterFuture, hc]⟩
  resolver_lt := h.resolver_lt
  stored := by
    intro hf
    obtain ⟨r, x, hr, hx, hc⟩ := h.stored hf
    exact ⟨r, x, hr, hx, by rw [futureResult_afterFuture]; exact hc⟩
  waiting := h.waiting

end Iterable

end NodeSvn
