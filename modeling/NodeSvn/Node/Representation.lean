import NodeSvn.Lib.Lists
import NodeSvn.Lib.Machine
import NodeSvn.Lib.Probe
import NodeSvn.Node.Iterable

/-!
# What the four fields of an iterable mean together

The methods of `no::iterable` with a probe at each call that may be made once only:

    setResult p    `set_value` or `set_exception` on the promise object `p`
    getFuture p    `get_future` on it
    settle r       `Resolve` or `Reject` of the V8 promise `r`

Without the probes they are the methods (`erases_begin`, `erases_next`, `erases_future`,
`erases_destructor`).  `iterableMachine` calls them in any order, `next` also from within
`RunMicrotasks`, and the destructor at any time, but once, and then `next` no more.  In no run
is a call logged twice (`representation`).
-/

namespace NodeSvn

inductive IterableCall where
  | setResult (p : Nat)
  | getFuture (p : Nat)
  | settle (r : Nat)
  deriving DecidableEq, Repr

/-! ## The methods with their probes -/

namespace Iterable

open ProbeM

variable {V : Type}

abbrev ProbedM (V : Type) := ProbeM Exn (Iterable V) IterableCall

/-- `set_value` and `set_exception` on `_consume_promise`. -/
def probedSet (set : IterM V Unit) : ProbedM V Unit := do
  let it ← plain get
  note (.setResult it.consumePromise)
  plain set

/-- `resolve` up to `RunMicrotasks`. -/
def probedBegin (success : Bool) (value : Option V) (done : Bool) : ProbedM V Unit := do
  if (← plain get).resolverFulfilled then
    throw (.runtimeError "")
  if (← plain get).iteratorReleased then
    throw (.runtimeError "")
  plain assignConsumePromise
  let resolver ← do
    match (← plain get).resolver with
    | none =>
      let r ← plain newResolver
      plain (modify fun it => { it with resolver := some r })
      plain (modify fun it => { it with resolverFulfilled := true })
      pure r
    | some r =>
      plain (modify fun it => { it with resolver := none })
      probedSet consumeSetValue
      pure r
  plain (checkResult (some true))
  note (.settle resolver)
  if success then
    plain (settle resolver (.fulfilled value done))
  else
    plain (settle resolver (.rejected value))

/-- The rest of `resolve`. -/
def probedFuture : ProbedM V Nat := do
  let it ← plain get
  note (.getFuture it.consumePromise)
  plain getFuture

def probedNext : ProbedM V Handle := do
  if (← plain get).resolverFulfilled then
    let resolver := (← plain get).resolver
    plain (modify fun it => { it with resolver := none })
    plain (modify fun it => { it with resolverFulfilled := false })
    probedSet consumeSetValue
    return resolver
  else
    let r ← plain newResolver
    plain (modify fun it => { it with resolver := some r })
    return some r

def probedDestructor : ProbedM V Unit := do
  if (← plain get).resolverFulfilled then
    probedSet (consumeSetException (.runtimeError ""))
  plain (modify fun it => { it with iteratorReleased := true })

/-! The probes change nothing. -/

theorem erases_set (set : IterM V Unit) : Erases (probedSet set) set := by
  intro p
  exact Erases.plain set { p with calls := p.calls ++ [.setResult p.state.consumePromise] }

theorem erases_future : Erases (probedFuture (V := V)) getFuture := by
  intro p
  exact Erases.plain getFuture { p with calls := p.calls ++ [.getFuture p.state.consumePromise] }

theorem erases_next : Erases (probedNext (V := V)) next := by
  refine .bind (.plain _) fun it => .ite ?_ ?_
  · refine .bind (.plain _) fun it => .bind (.plain _) fun _ => .bind (.plain _) fun _ => ?_
    exact .bind (erases_set _) fun _ => .pure _
  · exact .bind (.plain _) fun r => .bind (.plain _) fun _ => .pure _

theorem erases_destructor : Erases (probedDestructor (V := V)) destructor := by
  refine .bind (.plain _) fun it => .ite ?_ ?_
  · exact .bind (erases_set _) fun _ => .plain _
  · exact .plain _

theorem erases_begin (success : Bool) (value : Option V) (done : Bool) :
    Erases (probedBegin success value done) (resolveBegin (some true) success value done) := by
  refine .bind (.plain _) fun it => .ite (.throw_bind _ _ _) ?_
  refine .bind (.plain _) fun it => .ite (.throw_bind _ _ _) ?_
  refine .bind (.plain _) fun _ => .bind (.plain _) fun it => ?_
  cases it.resolver with
  | none =>
    refine .bind (.plain _) fun r => .bind (.plain _) fun _ => .bind (.plain _) fun _ => ?_
    exact .bind (.pure _) fun r => .bind (.plain _) fun _ =>
      .note_bind _ (.ite (.plain _) (.plain _))
  | some r =>
    refine .bind (.plain _) fun _ => .bind (erases_set _) fun _ => ?_
    exact .bind (.pure _) fun r => .bind (.plain _) fun _ =>
      .note_bind _ (.ite (.plain _) (.plain _))

/-! ## What they log, by the shape of the slot -/

variable {p : Probed (Iterable V) IterableCall}

theorem probedBegin_stored (h : p.state.resolverFulfilled = true) (success : Bool)
    (value : Option V) (done : Bool) :
    (probedBegin success value done).run p = .error (.runtimeError "") p := by
  simp [probedBegin, h]

theorem probedBegin_released (h : p.state.resolverFulfilled = false)
    (hr : p.state.iteratorReleased = true) (success : Bool) (value : Option V) (done : Bool) :
    (probedBegin success value done).run p = .error (.runtimeError "") p := by
  simp [probedBegin, h, hr]

theorem probedBegin_empty (h : p.state.resolverFulfilled = false)
    (hr : p.state.iteratorReleased = false) (hs : p.state.resolver = none) (success : Bool)
    (value : Option V) (done : Bool) :
    (probedBegin success value done).run p =
      .ok () ⟨p.state.afterStore (settlement success value done),
        p.calls ++ [.settle p.state.promises.length]⟩ := by
  have hm : ∀ x : Settlement V, (p.state.promises ++ [none]).modify p.state.promises.length
      (fun p => some (p.getD x)) = p.state.promises ++ [some x] := by
    intro x
    simp [List.modify_eq_set_getElem?]
  cases success <;>
    simp [-bind_pure_comp, probedBegin, assignConsumePromise, newResolver, settle, checkResult, h,
      hr, hs, hm, afterStore, renewed, settlement]

theorem probedBegin_waiting {r : Nat} (h : p.state.resolverFulfilled = false)
    (hr : p.state.iteratorReleased = false) (hs : p.state.resolver = some r) (success : Bool)
    (value : Option V) (done : Bool) :
    (probedBegin success value done).run p =
      .ok () ⟨p.state.afterHand r (settlement success value done),
        p.calls ++ [.setResult p.state.shared.length, .settle r]⟩ := by
  cases success <;>
    simp [probedBegin, probedSet, assignConsumePromise, settle, checkResult, consumeSetValue,
      modifyConsume, h, hr, hs, afterHand, renewed, settlement, OneShot.setResult]

theorem probedNext_stored {r : Nat} {c : OneShot Exn Unit} (h : p.state.resolverFulfilled = true)
    (hs : p.state.resolver = some r) (hc : p.state.shared[p.state.consumePromise]? = some c)
    (hn : c.result = none) :
    probedNext.run p =
      .ok (some r) ⟨p.state.afterTake, p.calls ++ [.setResult p.state.consumePromise]⟩ := by
  simp [-bind_pure_comp, probedNext, probedSet, consumeSetValue, modifyConsume, h, hs, hc,
    OneShot.setResult_of_none hn, afterTake, List.modify_eq_set_getElem?]

theorem probedNext_not_stored (h : p.state.resolverFulfilled = false) :
    probedNext.run p =
      .ok (some p.state.promises.length) ⟨p.state.afterAsk, p.calls⟩ := by
  simp [-bind_pure_comp, probedNext, newResolver, h, afterAsk]

theorem probedFuture_ok {c : OneShot Exn Unit}
    (hc : p.state.shared[p.state.consumePromise]? = some c) (hn : c.retrieved = false) :
    probedFuture.run p = .ok p.state.consumePromise
      ⟨p.state.afterFuture, p.calls ++ [.getFuture p.state.consumePromise]⟩ := by
  simp [-bind_pure_comp, probedFuture, getFuture_ok hc hn]

/-- The destructor fails the promise object of a stored value. -/
def afterFail (it : Iterable V) : Iterable V :=
  { it with
    iteratorReleased := true
    shared := it.shared.modify it.consumePromise fun c =>
      { c with result := some (.error (.runtimeError "")) } }

theorem probedDestructor_stored {c : OneShot Exn Unit} (h : p.state.resolverFulfilled = true)
    (hc : p.state.shared[p.state.consumePromise]? = some c) (hn : c.result = none) :
    probedDestructor.run p =
      .ok () ⟨p.state.afterFail, p.calls ++ [.setResult p.state.consumePromise]⟩ := by
  simp [probedDestructor, probedSet, consumeSetException, modifyConsume, h, hc,
    OneShot.setResult_of_none hn, afterFail, List.modify_eq_set_getElem?]

theorem probedDestructor_not_stored (h : p.state.resolverFulfilled = false) :
    probedDestructor.run p = .ok () ⟨{ p.state with iteratorReleased := true }, p.calls⟩ := by
  simp [probedDestructor, h]

end Iterable

/-! ## Calls in any order -/

structure IterableRun (V : Type) where
  probed : Probed (Iterable V) IterableCall
  /-- what the calls of `next` returned -/
  returned : List Handle
  /-- what the methods threw -/
  thrown : List Exn
  /-- `resolve` is in `RunMicrotasks` -/
  active : Bool
  /-- the destructor was called -/
  destroyed : Bool

inductive IterableLabel (V : Type) where
  | yield (value : V)
  | end_
  | reject (exception : V)
  /-- `RunMicrotasks` is over -/
  | ret
  | next
  | destructor

variable {V : Type}

/-- What `yield`, `end` and `reject` give to `resolve`. -/
def IterableLabel.arguments : IterableLabel V → Option (Bool × Option V × Bool)
  | .yield value => some (true, some value, false)
  | .end_ => some (true, none, true)
  | .reject exception => some (false, some exception, false)
  | .ret | .next | .destructor => none

namespace IterableRun

abbrev it (s : IterableRun V) : Iterable V := s.probed.state

def create : IterableRun V := ⟨⟨.create, []⟩, [], [], false, false⟩

/-- Runs a method, and keeps what it throws. -/
def exec {α : Type} (s : IterableRun V) (method : Iterable.ProbedM V α)
    (ret : α → IterableRun V → IterableRun V) : IterableRun V :=
  match method.run s.probed with
  | .ok a p => ret a { s with probed := p }
  | .error e p => { s with probed := p, thrown := s.thrown ++ [e] }

/-- The producer calls while no call of its own is in `RunMicrotasks`. -/
def begin_ (s : IterableRun V) (success : Bool) (value : Option V) (done : Bool) :
    Option (IterableRun V) :=
  if s.active then none
  else some (s.exec (Iterable.probedBegin success value done) fun _ t => { t with active := true })

def step (s : IterableRun V) : IterableLabel V → Option (IterableRun V)
  | .yield value => s.begin_ true (some value) false
  | .end_ => s.begin_ true none true
  | .reject exception => s.begin_ false (some exception) false
  | .ret =>
    if s.active then some (exec { s with active := false } Iterable.probedFuture fun _ t => t)
    else none
  | .next =>
    if s.destroyed then none
    else some (s.exec Iterable.probedNext fun h t => { t with returned := t.returned ++ [h] })
  | .destructor =>
    if s.destroyed then none
    else some (exec { s with destroyed := true } Iterable.probedDestructor fun _ t => t)

end IterableRun

def iterableMachine (V : Type) : Machine (IterableRun V) (IterableLabel V) where
  init := .create
  step := IterableRun.step

namespace IterableRun

variable {s t : IterableRun V} {l : IterableLabel V}

/-! ## What the fields mean -/

/-- `_resolver` holds a settled resolver that `next` never returned. -/
def Stored (s : IterableRun V) : Prop :=
  s.it.resolverFulfilled = true →
    ∃ r x, s.it.resolver = some r ∧ s.it.promiseAt r = some x ∧ some r ∉ s.returned

/-- `_consume_promise` of a stored value is unsatisfied. -/
def Unsatisfied (s : IterableRun V) : Prop :=
  s.it.resolverFulfilled = true →
    s.it.futureResult s.it.consumePromise = none

/-- The destructor has failed `_consume_promise` of a stored value. -/
def Failed (s : IterableRun V) : Prop :=
  s.it.resolverFulfilled = true →
    s.it.futureResult s.it.consumePromise = some (.error (.runtimeError ""))

/-- A call that is refused throws, and leaves all else as it is. -/
def RefusesUnchanged (s : IterableRun V) : Prop :=
  ∀ l, l.arguments.isSome = true → s.active = false →
    (s.it.resolverFulfilled = true ∨ s.it.iteratorReleased = true) →
      s.step l = some { s with thrown := s.thrown ++ [.runtimeError ""] }

/-! ## What a step does -/

inductive Step (s : IterableRun V) : IterableLabel V → IterableRun V → Prop
  | ask (hd : s.destroyed = false) (h : s.it.resolverFulfilled = false) :
    Step s .next
      { s with
        probed := ⟨s.it.afterAsk, s.probed.calls⟩
        returned := s.returned ++ [some s.it.promises.length] }
  | take (r : Nat) (hd : s.destroyed = false) (h : s.it.resolverFulfilled = true)
      (hr : s.it.resolver = some r) :
    Step s .next
      { s with
        probed := ⟨s.it.afterTake, s.probed.calls ++ [.setResult s.it.consumePromise]⟩
        returned := s.returned ++ [some r] }
  | refuse (l : IterableLabel V) : Step s l { s with thrown := s.thrown ++ [.runtimeError ""] }
  | store (l : IterableLabel V) (x : Settlement V) (hd : s.destroyed = false)
      (ha : s.active = false) (h : s.it.resolverFulfilled = false) (hr : s.it.resolver = none) :
    Step s l
      { s with
        probed := ⟨s.it.afterStore x, s.probed.calls ++ [.settle s.it.promises.length]⟩
        active := true }
  | hand (l : IterableLabel V) (x : Settlement V) (r : Nat) (hd : s.destroyed = false)
      (ha : s.active = false) (h : s.it.resolverFulfilled = false) (hr : s.it.resolver = some r) :
    Step s l
      { s with
        probed := ⟨s.it.afterHand r x,
          s.probed.calls ++ [.setResult s.it.shared.length, .settle r]⟩
        active := true }
  | ret (ha : s.active = true) :
    Step s .ret
      { s with
        probed := ⟨s.it.afterFuture, s.probed.calls ++ [.getFuture s.it.consumePromise]⟩
        active := false }
  | fail (hd : s.destroyed = false) (h : s.it.resolverFulfilled = true) :
    Step s .destructor
      { s with
        probed := ⟨s.it.afterFail, s.probed.calls ++ [.setResult s.it.consumePromise]⟩
        destroyed := true }
  | release (hd : s.destroyed = false) (h : s.it.resolverFulfilled = false) :
    Step s .destructor
      { s with
        probed := ⟨{ s.it with iteratorReleased := true }, s.probed.calls⟩
        destroyed := true }

/-- What a call in the log says of the state. -/
def Logged (s : IterableRun V) : IterableCall → Prop
  | .setResult p => p < s.it.shared.length ∧
    (p = s.it.consumePromise → s.it.resolverFulfilled = true → s.destroyed = true)
  | .getFuture p => p < s.it.shared.length ∧ (p = s.it.consumePromise → s.active = false)
  | .settle r => ∃ x, s.it.promiseAt r = some x

structure Inv (s : IterableRun V) : Prop where
  wf : s.destroyed = false → s.it.WF
  released : s.it.iteratorReleased = s.destroyed
  stored : s.Stored
  failed : s.destroyed = true → s.Failed
  known : ∀ h ∈ s.returned, s.it.Known h
  future : s.active = true →
    ∃ c, s.it.shared[s.it.consumePromise]? = some c ∧ c.retrieved = false
  nodup : s.probed.calls.Nodup
  logged : ∀ c ∈ s.probed.calls, s.Logged c
  thrown : ∀ e ∈ s.thrown, e = .runtimeError ""

theorem Inv.unsatisfied (h : s.Inv) (hd : s.destroyed = false) : s.Unsatisfied := by
  intro hf
  obtain ⟨r, x, -, -, hresult⟩ := (h.wf hd).stored hf
  exact hresult

/-- So the promise object of a stored value may be satisfied. -/
theorem Inv.exists_cell (h : s.Inv) (hd : s.destroyed = false)
    (hf : s.it.resolverFulfilled = true) :
    ∃ c, s.it.shared[s.it.consumePromise]? = some c ∧ c.result = none := by
  obtain ⟨c, hc⟩ := (h.wf hd).cell
  have hresult := h.unsatisfied hd hf
  rw [Iterable.futureResult, hc] at hresult
  exact ⟨c, hc, hresult⟩

theorem Inv.step_begin (h : s.Inv) (ha : s.active = false) (success : Bool) (value : Option V)
    (done : Bool) (l : IterableLabel V) :
    Step s l
      (s.exec (Iterable.probedBegin success value done) fun _ t => { t with active := true }) := by
  unfold exec
  cases hf : s.it.resolverFulfilled with
  | true =>
    rw [Iterable.probedBegin_stored hf]
    exact .refuse l
  | false =>
    cases hr : s.it.iteratorReleased with
    | true =>
      rw [Iterable.probedBegin_released hf hr]
      exact .refuse l
    | false =>
      have hd : s.destroyed = false := h.released.symm.trans hr
      cases hs : s.it.resolver with
      | none =>
        rw [Iterable.probedBegin_empty hf hr hs]
        exact .store l _ hd ha hf hs
      | some r =>
        rw [Iterable.probedBegin_waiting hf hr hs]
        exact .hand l _ r hd ha hf hs

theorem Inv.step_next (h : s.Inv) (hd : s.destroyed = false) :
    Step s .next
      (s.exec Iterable.probedNext fun r t => { t with returned := t.returned ++ [r] }) := by
  unfold exec
  cases hf : s.it.resolverFulfilled with
  | true =>
    obtain ⟨r, x, hr, -, -⟩ := h.stored hf
    obtain ⟨c, hc, hn⟩ := h.exists_cell hd hf
    rw [Iterable.probedNext_stored hf hr hc hn]
    exact .take r hd hf hr
  | false =>
    rw [Iterable.probedNext_not_stored hf]
    exact .ask hd hf

theorem Inv.step_destructor (h : s.Inv) (hd : s.destroyed = false) :
    Step s .destructor
      (exec { s with destroyed := true } Iterable.probedDestructor fun _ t => t) := by
  unfold exec
  cases hf : s.it.resolverFulfilled with
  | true =>
    obtain ⟨c, hc, hn⟩ := h.exists_cell hd hf
    rw [Iterable.probedDestructor_stored hf hc hn]
    exact .fail hd hf
  | false =>
    rw [Iterable.probedDestructor_not_stored hf]
    exact .release hd hf

theorem Inv.step_ret (h : s.Inv) (ha : s.active = true) :
    Step s .ret (exec { s with active := false } Iterable.probedFuture fun _ t => t) := by
  obtain ⟨c, hc, hn⟩ := h.future ha
  unfold exec
  rw [Iterable.probedFuture_ok hc hn]
  exact .ret ha

theorem begin_eq_some {success : Bool} {value : Option V} {done : Bool}
    (hs : s.begin_ success value done = some t) :
    s.active = false ∧
      t = s.exec (Iterable.probedBegin success value done)
        fun _ t => { t with active := true } := by
  obtain ⟨ha, hs⟩ := Option.ite_none_left_eq_some.mp hs
  exact ⟨Bool.eq_false_iff.mpr ha, (Option.some.inj hs).symm⟩

theorem Inv.cases (h : s.Inv) (hs : s.step l = some t) : Step s l t := by
  cases l with
  | yield value =>
    obtain ⟨ha, rfl⟩ := begin_eq_some hs
    exact h.step_begin ha _ _ _ _
  | end_ =>
    obtain ⟨ha, rfl⟩ := begin_eq_some hs
    exact h.step_begin ha _ _ _ _
  | reject exception =>
    obtain ⟨ha, rfl⟩ := begin_eq_some hs
    exact h.step_begin ha _ _ _ _
  | ret =>
    obtain ⟨ha, hs⟩ := Option.ite_none_right_eq_some.mp hs
    obtain rfl := Option.some.inj hs
    exact h.step_ret ha
  | next =>
    obtain ⟨hd, hs⟩ := Option.ite_none_left_eq_some.mp hs
    obtain rfl := Option.some.inj hs
    exact h.step_next (Bool.eq_false_iff.mpr hd)
  | destructor =>
    obtain ⟨hd, hs⟩ := Option.ite_none_left_eq_some.mp hs
    obtain rfl := Option.some.inj hs
    exact h.step_destructor (Bool.eq_false_iff.mpr hd)

/-! ## The invariant -/

theorem Inv.lt_shared (h : s.Inv) (hd : s.destroyed = false) :
    s.it.consumePromise < s.it.shared.length := by
  obtain ⟨c, hc⟩ := (h.wf hd).cell
  exact (List.getElem?_eq_some_iff.mp hc).1

/-- The stored value was not consumed yet. -/
theorem Inv.setResult_not_mem (h : s.Inv) (hd : s.destroyed = false)
    (hf : s.it.resolverFulfilled = true) : .setResult s.it.consumePromise ∉ s.probed.calls := by
  intro hmem
  have hdestroyed := (h.logged _ hmem).2 rfl hf
  rw [hd] at hdestroyed
  cases hdestroyed

/-- The same promise objects, and no promise became pending. -/
theorem Logged.same {c : IterableCall} (h : s.Logged c)
    (hlength : t.it.shared.length = s.it.shared.length)
    (hconsume : t.it.consumePromise = s.it.consumePromise)
    (hstored : t.it.resolverFulfilled = true → t.destroyed = false →
      s.it.resolverFulfilled = true ∧ s.destroyed = false)
    (hactive : t.active = true → s.active = true)
    (hpromises : ∀ r x, s.it.promiseAt r = some x → t.it.promiseAt r = some x) : t.Logged c := by
  cases c with
  | setResult p =>
    refine ⟨Nat.lt_of_lt_of_eq h.1 hlength.symm, fun hp hf => ?_⟩
    cases hd : t.destroyed with
    | true => rfl
    | false =>
      obtain ⟨hf', hd'⟩ := hstored hf hd
      cases hd'.symm.trans (h.2 (hp.trans hconsume) hf')
  | getFuture p =>
    refine ⟨Nat.lt_of_lt_of_eq h.1 hlength.symm, fun hp => ?_⟩
    cases ha : t.active with
    | false => rfl
    | true => cases (h.2 (hp.trans hconsume)).symm.trans (hactive ha)
  | settle r =>
    obtain ⟨x, hx⟩ := h
    exact ⟨x, hpromises r x hx⟩

/-- `_consume_promise` is a new promise object. -/
theorem Logged.renewed {c : IterableCall} (h : s.Logged c)
    (hlength : t.it.shared.length = s.it.shared.length + 1)
    (hconsume : t.it.consumePromise = s.it.shared.length)
    (hpromises : ∀ r x, s.it.promiseAt r = some x → t.it.promiseAt r = some x) : t.Logged c := by
  cases c with
  | setResult p =>
    have hlt : p < s.it.shared.length := h.1
    exact ⟨by omega, fun hp => by omega⟩
  | getFuture p =>
    have hlt : p < s.it.shared.length := h.1
    exact ⟨by omega, fun hp => by omega⟩
  | settle r =>
    obtain ⟨x, hx⟩ := h
    exact ⟨x, hpromises r x hx⟩

theorem Inv.ask (h : s.Inv) (hd : s.destroyed = false) (hf : s.it.resolverFulfilled = false) :
    Inv { s with
      probed := ⟨s.it.afterAsk, s.probed.calls⟩
      returned := s.returned ++ [some s.it.promises.length] } where
  wf _ := (h.wf hd).afterAsk hf
  released := h.released
  stored hf' := by cases hf.symm.trans hf'
  failed hd' := by cases hd.symm.trans hd'
  known := by
    rw [List.forall_mem_append]
    constructor
    · intro r hr
      obtain ⟨r, rfl, hlt⟩ := h.known r hr
      exact ⟨r, rfl, by simp [Iterable.afterAsk]; omega⟩
    · rw [List.forall_mem_singleton]
      exact ⟨_, rfl, by simp [Iterable.afterAsk]⟩
  future := h.future
  nodup := h.nodup
  logged c hc :=
    (h.logged c hc).same rfl rfl (fun hf' _ => ⟨hf', hd⟩) id
      fun r _ hx => (Iterable.promiseAt_afterAsk r).trans hx
  thrown := h.thrown

theorem Inv.take {r : Nat} (h : s.Inv) (hd : s.destroyed = false)
    (hf : s.it.resolverFulfilled = true) (hr : s.it.resolver = some r) :
    Inv { s with
      probed := ⟨s.it.afterTake, s.probed.calls ++ [.setResult s.it.consumePromise]⟩
      returned := s.returned ++ [some r] } where
  wf _ := (h.wf hd).afterTake
  released := h.released
  stored hf' := by cases hf'
  failed hd' := by cases hd.symm.trans hd'
  known := by
    rw [List.forall_mem_append]
    constructor
    · exact h.known
    · rw [List.forall_mem_singleton]
      exact ⟨r, rfl, (h.wf hd).resolver_lt r hr⟩
  future ha := by
    obtain ⟨c, hc, hn⟩ := h.future ha
    exact ⟨{ c with result := some (.ok ()) }, by simp [Iterable.afterTake, hc], hn⟩
  nodup := nodup_snoc h.nodup (h.setResult_not_mem hd hf)
  logged := by
    have hlength : s.it.afterTake.shared.length = s.it.shared.length := List.length_modify _ _ _
    rw [List.forall_mem_append]
    constructor
    · intro c hc
      exact (h.logged c hc).same hlength rfl (fun hf' => by cases hf') id fun _ _ hx => hx
    · rw [List.forall_mem_singleton]
      exact ⟨Nat.lt_of_lt_of_eq (h.lt_shared hd) hlength.symm, fun _ hf' => by cases hf'⟩
  thrown := h.thrown

theorem Inv.lt_of_setResult {p : Nat} (h : s.Inv) (hmem : .setResult p ∈ s.probed.calls) :
    p < s.it.shared.length := (h.logged _ hmem).1

theorem Inv.settle_not_mem {r : Nat} (h : s.Inv) (hr : s.it.promiseAt r = none) :
    .settle r ∉ s.probed.calls := by
  intro hmem
  obtain ⟨x, hx⟩ := h.logged _ hmem
  cases hr.symm.trans hx

theorem length_renewed (it : Iterable V) (c : OneShot Exn Unit) :
    (it.renewed c).length = it.shared.length + 1 := by
  simp [Iterable.renewed]

theorem Inv.store (h : s.Inv) (hd : s.destroyed = false) (x : Settlement V) :
    Inv { s with
      probed := ⟨s.it.afterStore x, s.probed.calls ++ [.settle s.it.promises.length]⟩
      active := true } where
  wf _ := Iterable.afterStore_wf s.it x
  released := h.released
  stored _ := by
    refine ⟨s.it.promises.length, x, rfl, Iterable.promiseAt_afterStore_self x, ?_⟩
    intro hmem
    obtain ⟨r, hr, hlt⟩ := h.known _ hmem
    rw [Option.some.inj hr] at hlt
    exact Nat.lt_irrefl _ hlt
  failed hd' := by cases hd.symm.trans hd'
  known r hr := by
    obtain ⟨r, rfl, hlt⟩ := h.known r hr
    exact ⟨r, rfl, by simp [Iterable.afterStore]; omega⟩
  future _ := ⟨.fresh, Iterable.cell_append s.it .fresh, rfl⟩
  nodup := nodup_snoc h.nodup (h.settle_not_mem (Iterable.promiseAt_of_le (Nat.le_refl _)))
  logged := by
    rw [List.forall_mem_append]
    constructor
    · intro c hc
      refine (h.logged c hc).renewed (length_renewed _ _) rfl fun r y hy => ?_
      have hne := Nat.ne_of_lt (Iterable.lt_of_promiseAt hy)
      exact (Iterable.promiseAt_afterStore_ne hne x).trans hy
    · rw [List.forall_mem_singleton]
      exact ⟨x, Iterable.promiseAt_afterStore_self x⟩
  thrown := h.thrown

theorem Inv.hand {r : Nat} (h : s.Inv) (hd : s.destroyed = false)
    (hf : s.it.resolverFulfilled = false) (hr : s.it.resolver = some r) (x : Settlement V) :
    Inv { s with
      probed := ⟨s.it.afterHand r x,
        s.probed.calls ++ [.setResult s.it.shared.length, .settle r]⟩
      active := true } where
  wf _ := Iterable.afterHand_wf hf r x
  released := h.released
  stored hf' := by cases hf.symm.trans hf'
  failed hd' := by cases hd.symm.trans hd'
  known q hq := by
    obtain ⟨q, rfl, hlt⟩ := h.known q hq
    exact ⟨q, rfl, by simpa [Iterable.afterHand] using hlt⟩
  future _ := ⟨_, Iterable.cell_append s.it _, rfl⟩
  nodup := by
    have hnew : .setResult s.it.shared.length ∉ s.probed.calls :=
      fun hmem => Nat.lt_irrefl _ (h.lt_of_setResult hmem)
    have hsettle := h.settle_not_mem ((h.wf hd).waiting hf r hr)
    have hboth := nodup_snoc (a := .settle r) (nodup_snoc h.nodup hnew) (by simp [hsettle])
    rwa [List.append_assoc] at hboth
  logged := by
    have hlt := (h.wf hd).resolver_lt r hr
    have hnone := (h.wf hd).waiting hf r hr
    rw [List.forall_mem_append]
    constructor
    · intro c hc
      refine (h.logged c hc).renewed (length_renewed _ _) rfl fun q y hy => ?_
      have hne : r ≠ q := by
        rintro rfl
        cases hnone.symm.trans hy
      exact (Iterable.promiseAt_afterHand_ne hne x).trans hy
    · rw [List.forall_mem_cons, List.forall_mem_singleton]
      refine ⟨⟨?_, fun _ hf' => by cases hf.symm.trans hf'⟩, ?_⟩
      · exact Nat.lt_of_lt_of_eq (Nat.lt_succ_self _) (length_renewed _ _).symm
      · exact ⟨x, Iterable.promiseAt_afterHand_self hlt hnone x⟩
  thrown := h.thrown

theorem Inv.ret (h : s.Inv) (ha : s.active = true) :
    Inv { s with
      probed := ⟨s.it.afterFuture, s.probed.calls ++ [.getFuture s.it.consumePromise]⟩
      active := false } where
  wf hd := (h.wf hd).afterFuture
  released := h.released
  stored := h.stored
  failed hd hf := (Iterable.futureResult_afterFuture _).trans (h.failed hd hf)
  known := h.known
  future ha' := by cases ha'
  nodup := by
    refine nodup_snoc h.nodup fun hmem => ?_
    have hactive := (h.logged _ hmem).2 rfl
    rw [ha] at hactive
    cases hactive
  logged := by
    have hlength : s.it.afterFuture.shared.length = s.it.shared.length := List.length_modify _ _ _
    obtain ⟨c, hc, -⟩ := h.future ha
    have hlt := (List.getElem?_eq_some_iff.mp hc).1
    rw [List.forall_mem_append]
    constructor
    · intro c hc
      exact (h.logged c hc).same hlength rfl (fun hf hd => ⟨hf, hd⟩) (fun ha' => by cases ha')
        fun _ _ hx => hx
    · rw [List.forall_mem_singleton]
      exact ⟨Nat.lt_of_lt_of_eq hlt hlength.symm, fun _ => rfl⟩
  thrown := h.thrown

theorem Inv.fail (h : s.Inv) (hd : s.destroyed = false) (hf : s.it.resolverFulfilled = true) :
    Inv { s with
      probed := ⟨s.it.afterFail, s.probed.calls ++ [.setResult s.it.consumePromise]⟩
      destroyed := true } where
  wf hd' := by cases hd'
  released := rfl
  stored := h.stored
  failed _ _ := by
    obtain ⟨c, hc, -⟩ := h.exists_cell hd hf
    show (s.it.afterFail).futureResult s.it.consumePromise = _
    simp [Iterable.futureResult, Iterable.afterFail, hc]
  known := h.known
  future ha := by
    obtain ⟨c, hc, hn⟩ := h.future ha
    exact ⟨{ c with result := some (.error (.runtimeError "")) },
      by simp [Iterable.afterFail, hc], hn⟩
  nodup := nodup_snoc h.nodup (h.setResult_not_mem hd hf)
  logged := by
    have hlength : s.it.afterFail.shared.length = s.it.shared.length := List.length_modify _ _ _
    rw [List.forall_mem_append]
    constructor
    · intro c hc
      exact (h.logged c hc).same hlength rfl (fun _ hd' => by cases hd') id fun _ _ hx => hx
    · rw [List.forall_mem_singleton]
      exact ⟨Nat.lt_of_lt_of_eq (h.lt_shared hd) hlength.symm, fun _ _ => rfl⟩
  thrown := h.thrown

theorem Inv.release (h : s.Inv) (hf : s.it.resolverFulfilled = false) :
    Inv { s with
      probed := ⟨{ s.it with iteratorReleased := true }, s.probed.calls⟩
      destroyed := true } where
  wf hd' := by cases hd'
  released := rfl
  stored := h.stored
  failed _ hf' := by cases hf.symm.trans hf'
  known := h.known
  future := h.future
  nodup := h.nodup
  logged c hc :=
    (h.logged c hc).same rfl rfl (fun _ hd' => by cases hd') id fun _ _ hx => hx
  thrown := h.thrown

theorem Inv.refuse (h : s.Inv) : Inv { s with thrown := s.thrown ++ [.runtimeError ""] } where
  wf := h.wf
  released := h.released
  stored := h.stored
  failed := h.failed
  known := h.known
  future := h.future
  nodup := h.nodup
  logged := h.logged
  thrown := by
    rw [List.forall_mem_append]
    exact ⟨h.thrown, fun e he => List.mem_singleton.mp he⟩

theorem Inv.step (h : s.Inv) (hs : s.step l = some t) : t.Inv := by
  cases h.cases hs with
  | ask hd hf => exact h.ask hd hf
  | take r hd hf hr => exact h.take hd hf hr
  | refuse l => exact h.refuse
  | store l x hd ha hf hr => exact h.store hd x
  | hand l x r hd ha hf hr => exact h.hand hd hf hr x
  | ret ha => exact h.ret ha
  | fail hd hf => exact h.fail hd hf
  | release hd hf => exact h.release hf

theorem create_inv : Inv (create : IterableRun V) where
  wf _ := Iterable.create_wf
  released := rfl
  stored hf := by cases hf
  failed hd := by cases hd
  known r hr := by cases hr
  future ha := by cases ha
  nodup := List.nodup_nil
  logged c hc := by cases hc
  thrown e he := by cases he

theorem inv_of_reachable (h : (iterableMachine V).Reachable s) : s.Inv :=
  h.invariant create_inv fun _ _ _ hs hst => hs.step hst

theorem refusesUnchanged (s : IterableRun V) : s.RefusesUnchanged := by
  intro l hl ha hguard
  have hbegin : ∀ success value done, s.begin_ success value done =
      some { s with thrown := s.thrown ++ [.runtimeError ""] } := by
    intro success value done
    have hrun : (Iterable.probedBegin success value done).run s.probed =
        .error (.runtimeError "") s.probed := by
      cases hf : s.it.resolverFulfilled with
      | true => exact Iterable.probedBegin_stored hf success value done
      | false =>
        have hr := hguard.resolve_left (by simp [hf])
        exact Iterable.probedBegin_released hf hr success value done
    rw [begin_, exec, hrun, ha]
    rfl
  cases l with
  | yield value => exact hbegin _ _ _
  | end_ => exact hbegin _ _ _
  | reject exception => exact hbegin _ _ _
  | ret => cases hl
  | next => cases hl
  | destructor => cases hl

/-- **The representation invariant.**  A stored value is settled, was never returned, and its
promise object is unsatisfied until the destructor fails it; no call is made twice, none throws
`std::future_error`, and who is refused changes nothing. -/
theorem representation (V : Type) (s : IterableRun V) (h : (iterableMachine V).Reachable s) :
    s.Stored ∧ (s.destroyed = false → s.Unsatisfied) ∧ (s.destroyed = true → s.Failed) ∧
      s.probed.calls.Nodup ∧ Exn.futureError ∉ s.thrown ∧ s.RefusesUnchanged := by
  have hinv := inv_of_reachable h
  refine ⟨hinv.stored, hinv.unsatisfied, hinv.failed, hinv.nodup, ?_, refusesUnchanged s⟩
  intro hmem
  cases hinv.thrown _ hmem

/-- A value is stored and fetched from within `RunMicrotasks`, the next one is stored and the
iterator is released. -/
theorem representation_released :
    ∃ s, (iterableMachine Nat).run (iterableMachine Nat).init
        [.yield 1, .next, .ret, .yield 2, .ret, .yield 3, .destructor, .end_] = some s ∧
      s.Stored ∧ (s.destroyed = false → s.Unsatisfied) ∧ (s.destroyed = true → s.Failed) ∧
      s.probed.calls.Nodup ∧ Exn.futureError ∉ s.thrown ∧ s.RefusesUnchanged := by
  obtain ⟨s, hs⟩ := Option.isSome_iff_exists.mp (show ((iterableMachine Nat).run
    (iterableMachine Nat).init
    [.yield 1, .next, .ret, .yield 2, .ret, .yield 3, .destructor, .end_]).isSome = true from rfl)
  exact ⟨s, hs, representation Nat s ⟨_, hs⟩⟩

/-- The destructor satisfies the promise object of a stored value, which stays stored. -/
theorem not_unsatisfied_released :
    ¬ ∀ s, (iterableMachine Nat).Reachable s →
      s.Stored ∧ s.Unsatisfied ∧ s.probed.calls.Nodup ∧ Exn.futureError ∉ s.thrown ∧
        s.RefusesUnchanged := by
  intro h
  obtain ⟨s, hs⟩ := Option.isSome_iff_exists.mp (show ((iterableMachine Nat).run
    (iterableMachine Nat).init [.yield 1, .ret, .destructor]).isSome = true from rfl)
  have hunsatisfied := (h s ⟨_, hs⟩).2.1
  cases hs
  cases hunsatisfied rfl

end IterableRun

end NodeSvn
