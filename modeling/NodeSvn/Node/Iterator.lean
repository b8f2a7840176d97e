import NodeSvn.Lib.Lists
import NodeSvn.Lib.Machine
import NodeSvn.Node.Iterable

/-!
# Runs of one iterator

The machine `iterator` interleaves the calls of the two sides: JS calls `next`, the
producer calls `yield` any number of times and then `end` or `reject` once.  A call of
the producer runs `resolve` up to `RunMicrotasks` (the event itself) and then from there
(`ret`); a `next` between the two is one that JS makes re-entrantly.  The state keeps
what `next` returned and what the producer handed over, both in order.

`step_cases` says what a step does by the shape of the slot.  From it come the
invariant of every run (`Inv`) and, for the runs in which JS asks only when nothing
is outstanding, the order of the answers (`Linked`).
-/

namespace NodeSvn

structure Trace (V : Type) where
  it : Iterable V
  /-- what the calls of `next` returned -/
  returned : List Handle
  /-- the items of the calls of `yield` that were accepted -/
  yielded : List V
  /-- the marker of the accepted `end` or `reject` -/
  finished : Option (Settlement V)
  /-- `resolve` is in `RunMicrotasks` -/
  active : Bool

inductive Event (V : Type) where
  | next
  | yield (value : V)
  | end_
  | reject (exception : V)
  | ret
  deriving DecidableEq, Repr

variable {V : Type}

/-- The settlement that the producer's call asks for. -/
def Event.settlement : Event V → Option (Settlement V)
  | .yield value => some (.fulfilled (some value) false)
  | .end_ => some (.fulfilled none true)
  | .reject exception => some (.rejected (some exception))
  | .next => none
  | .ret => none

/-- `yield`, `end` and `reject` up to `RunMicrotasks`. -/
def Event.call : Event V → IterM V Unit
  | .yield value => Iterable.resolveBegin (some true) true (some value) false
  | .end_ => Iterable.resolveBegin (some true) true none true
  | .reject exception => Iterable.resolveBegin (some true) false (some exception) false
  | .next => pure ()
  | .ret => pure ()

namespace Trace

def init : Trace V := ⟨.create, [], [], none, false⟩

/-- Everything the producer handed over, in order. -/
def expected (t : Trace V) : List (Settlement V) :=
  t.yielded.map (fun v => .fulfilled (some v) false) ++ t.finished.toList

/-- The record of an accepted call. -/
def log (t : Trace V) : Event V → Trace V
  | .yield value => { t with yielded := t.yielded ++ [value] }
  | .end_ => { t with finished := some (.fulfilled none true) }
  | .reject exception => { t with finished := some (.rejected (some exception)) }
  | .next => t
  | .ret => t

/-- The producer's call up to `RunMicrotasks`, and what it throws. -/
def produce (t : Trace V) (e : Event V) : Except Exn Unit × Trace V :=
  match e.call.run t.it with
  | .ok () it => (.ok (), { t.log e with it := it, active := true })
  | .error x it => (.error x, { t with it := it })

/-- The rest of the call, with the future it returns. -/
def return_ (t : Trace V) : Except Exn Nat × Trace V :=
  match Iterable.getFuture.run t.it with
  | .ok f it => (.ok f, { t with it := it, active := false })
  | .error x it => (.error x, { t with it := it, active := false })

def next (t : Trace V) : Trace V :=
  match Iterable.next.run t.it with
  | .ok h it => { t with it := it, returned := t.returned ++ [h] }
  | .error _ it => { t with it := it }

/-- The producer calls only while it has not finished and no call of it is running. -/
def step (t : Trace V) : Event V → Option (Trace V)
  | .next => some t.next
  | .ret => if t.active then some t.return_.2 else none
  | e => if t.active || t.finished.isSome then none else some (t.produce e).2

end Trace

/-- The iterator, its producer and its JS side. -/
def iterator (V : Type) : Machine (Trace V) (Event V) where
  init := .init
  step := Trace.step

namespace Trace

variable {t t' : Trace V} {e : Event V}

/-! ## What a step does -/

/-- The steps by the shape of the slot. -/
inductive Step (t : Trace V) : Event V → Trace V → Prop
  | ask (h : t.it.resolverFulfilled = false) :
      Step t .next
        { t with it := t.it.afterAsk, returned := t.returned ++ [some t.it.promises.length] }
  | take (r : Nat) (x : Settlement V) (h : t.it.resolverFulfilled = true)
      (hr : t.it.resolver = some r) (hx : t.it.promiseAt r = some x) :
      Step t .next { t with it := t.it.afterTake, returned := t.returned ++ [some r] }
  | refuse (e : Event V) (h : t.it.resolverFulfilled = true) (ha : t.active = false)
      (he : e.settlement.isSome = true) : Step t e t
  | store (e : Event V) (x : Settlement V) (h : t.it.resolverFulfilled = false)
      (hr : t.it.resolver = none) (ha : t.active = false) (hf : t.finished = none)
      (he : e.settlement = some x) :
      Step t e { t.log e with it := t.it.afterStore x, active := true }
  | hand (e : Event V) (x : Settlement V) (r : Nat) (h : t.it.resolverFulfilled = false)
      (hr : t.it.resolver = some r) (ha : t.active = false) (hf : t.finished = none)
      (he : e.settlement = some x) :
      Step t e { t.log e with it := t.it.afterHand r x, active := true }
  | ret (h : t.active = true) : Step t .ret { t with it := t.it.afterFuture, active := false }

/-- What every step needs of the state it starts from. -/
structure Ready (t : Trace V) : Prop where
  wf : t.it.WF
  not_released : t.it.iteratorReleased = false
  future : t.active = true →
    ∃ c, t.it.shared[t.it.consumePromise]? = some c ∧ c.retrieved = false

theorem call_eq {x : Settlement V} (he : e.settlement = some x) :
    ∃ success value done, e.call = Iterable.resolveBegin (some true) success value done ∧
      Iterable.settlement success value done = x := by
  cases e with
  | yield value => exact ⟨true, some value, false, rfl, Option.some.inj he⟩
  | end_ => exact ⟨true, none, true, rfl, Option.some.inj he⟩
  | reject exception => exact ⟨false, some exception, false, rfl, Option.some.inj he⟩
  | next => cases he
  | ret => cases he

/-- A call is refused exactly if a promise is stored; else it is recorded. -/
theorem produce_stored {x : Settlement V} (he : e.settlement = some x)
    (hf : t.it.resolverFulfilled = true) : t.produce e = (.error (.runtimeError ""), t) := by
  obtain ⟨success, value, done, hcall, -⟩ := call_eq he
  unfold produce
  rw [hcall, Iterable.resolveBegin_stored hf]

theorem produce_empty {x : Settlement V} (h : t.Ready) (he : e.settlement = some x)
    (hf : t.it.resolverFulfilled = false) (hr : t.it.resolver = none) :
    t.produce e = (.ok (), { t.log e with it := t.it.afterStore x, active := true }) := by
  obtain ⟨success, value, done, hcall, rfl⟩ := call_eq he
  unfold produce
  rw [hcall, Iterable.resolveBegin_empty hf h.not_released hr]

theorem produce_waiting {x : Settlement V} {r : Nat} (h : t.Ready) (he : e.settlement = some x)
    (hf : t.it.resolverFulfilled = false) (hr : t.it.resolver = some r) :
    t.produce e = (.ok (), { t.log e with it := t.it.afterHand r x, active := true }) := by
  obtain ⟨success, value, done, hcall, rfl⟩ := call_eq he
  unfold produce
  rw [hcall, Iterable.resolveBegin_waiting hf h.not_released hr]

theorem return_eq (h : t.Ready) (ha : t.active = true) :
    t.return_ = (.ok t.it.consumePromise, { t with it := t.it.afterFuture, active := false }) := by
  obtain ⟨c, hc, hn⟩ := h.future ha
  unfold return_
  rw [Iterable.getFuture_ok hc hn]

theorem step_produce (h : t.Ready) (ha : t.active = false) (hf : t.finished = none)
    (he : e.settlement.isSome = true) : Step t e (t.produce e).2 := by
  obtain ⟨x, hx⟩ := Option.isSome_iff_exists.mp he
  cases hful : t.it.resolverFulfilled with
  | true =>
    rw [produce_stored hx hful]
    exact .refuse e hful ha he
  | false =>
    cases hr : t.it.resolver with
    | none =>
      rw [produce_empty h hx hful hr]
      exact .store e x hful hr ha hf hx
    | some r =>
      rw [produce_waiting h hx hful hr]
      exact .hand e x r hful hr ha hf hx

theorem step_next (h : t.Ready) : Step t .next t.next := by
  unfold next
  cases hful : t.it.resolverFulfilled with
  | true =>
    obtain ⟨r, x, hr, hx, hc⟩ := h.wf.stored hful
    obtain ⟨c, hcell⟩ := h.wf.cell
    rw [Iterable.futureResult, hcell, Option.bind_some] at hc
    rw [Iterable.next_stored hful hr hcell hc]
    exact .take r x hful hr hx
  | false =>
    rw [Iterable.next_not_stored hful]
    exact .ask hful

theorem step_return (h : t.Ready) (ha : t.active = true) : Step t .ret t.return_.2 := by
  rw [return_eq h ha]
  exact .ret ha

theorem step_cases (h : t.Ready) (hs : t.step e = some t') : Step t e t' := by
  have hproduce : (if t.active || t.finished.isSome then none else some (t.produce e).2) =
      some t' → e.settlement.isSome = true → Step t e t' := by
    intro hs he
    split at hs
    · cases hs
    · rename_i hcond
      simp only [Bool.or_eq_true, not_or, Bool.not_eq_true, Option.isSome_eq_false_iff,
        Option.isNone_iff_eq_none] at hcond
      obtain rfl := Option.some.inj hs
      exact step_produce h hcond.1 hcond.2 he
  cases e with
  | next => exact Option.some.inj hs ▸ step_next h
  | ret =>
    simp only [step] at hs
    split at hs
    · rename_i ha
      exact Option.some.inj hs ▸ step_return h ha
    · cases hs
  | yield value => exact hproduce hs rfl
  | end_ => exact hproduce hs rfl
  | reject exception => exact hproduce hs rfl

theorem log_returned (t : Trace V) (e : Event V) : (t.log e).returned = t.returned := by
  cases e <;> rfl

theorem log_expected {x : Settlement V} (hf : t.finished = none) (he : e.settlement = some x) :
    (t.log e).expected = t.expected ++ [x] := by
  cases e <;> simp_all [Event.settlement, log, expected]

/-! ## The invariant of every run -/

def settledCount (t : Trace V) : Nat := t.returned.countP fun h => (t.it.stateOf h).isSome

/-- **The invariant of every run.** -/
structure Inv (t : Trace V) : Prop extends Ready t where
  known : ∀ h ∈ t.returned, t.it.Known h
  nodup : t.returned.Nodup
  stored : t.it.resolverFulfilled = true → t.it.resolver ∉ t.returned
  waiting : t.it.resolverFulfilled = false → ∀ r, t.it.resolver = some r → some r ∈ t.returned
  /-- Each accepted call settled one promise; the last one may still be in the slot. -/
  count : t.settledCount + (if t.it.resolverFulfilled then 1 else 0) = t.expected.length

theorem inv_init : Inv (init : Trace V) where
  wf := Iterable.create_wf
  not_released := rfl
  future := by simp [init]
  known := by simp [init]
  nodup := by simp [init]
  stored := by simp [init]
  waiting := by simp [init, Iterable.create]
  count := by simp [init, Iterable.create, settledCount, expected]

theorem settledCount_congr {it : Iterable V} (h : ∀ h ∈ t.returned, it.stateOf h = t.it.stateOf h) :
    (t.returned.countP fun h => (it.stateOf h).isSome) = t.settledCount := by
  apply List.countP_congr
  intro a ha
  rw [h a ha]

theorem not_mem_of_known {it : Iterable V} {l : List Handle} (h : ∀ h ∈ l, it.Known h) :
    some it.promises.length ∉ l := by
  intro hm
  obtain ⟨r, hr, hlt⟩ := h _ hm
  rw [← Option.some.inj hr] at hlt
  omega

theorem inv_step (hi : Inv t) (h : Step t e t') : Inv t' := by
  cases h with
  | ask hful =>
    have hsame : ∀ h ∈ t.returned, t.it.afterAsk.stateOf h = t.it.stateOf h :=
      fun h _ => Iterable.stateOf_afterAsk h
    refine ⟨⟨hi.wf.afterAsk hful, hi.not_released, hi.future⟩, ?_, ?_, ?_, ?_, ?_⟩
    · intro h hh
      rcases List.mem_append.mp hh with hh | hh
      · obtain ⟨r, hr, hlt⟩ := hi.known h hh
        exact ⟨r, hr, by simp [Iterable.afterAsk]; omega⟩
      · exact ⟨_, List.mem_singleton.mp hh, by simp [Iterable.afterAsk]⟩
    · exact nodup_snoc hi.nodup (not_mem_of_known hi.known)
    · simp [Iterable.afterAsk, hful]
    · intro _ r hr
      rw [← show some t.it.promises.length = some r from hr]
      simp
    · have hnew : (t.it.afterAsk.stateOf (some t.it.promises.length)).isSome = false := by
        simp [Iterable.promiseAt_afterAsk, Iterable.promiseAt_of_le]
      have hc := hi.count
      simp only [settledCount, List.countP_append, List.countP_singleton, hnew] at hc ⊢
      rw [settledCount_congr hsame]
      exact hc
  | take r x hful hr hx =>
    refine ⟨⟨hi.wf.afterTake, hi.not_released, ?_⟩, ?_, ?_, ?_, ?_, ?_⟩
    · intro ha
      obtain ⟨c, hc, hn⟩ := hi.future ha
      exact ⟨{ c with result := some (.ok ()) }, by simp [Iterable.afterTake, hc], hn⟩
    · intro h hh
      rcases List.mem_append.mp hh with hh | hh
      · exact hi.known h hh
      · exact ⟨r, List.mem_singleton.mp hh, Iterable.lt_of_promiseAt hx⟩
    · exact nodup_snoc hi.nodup (hr ▸ hi.stored hful)
    · simp [Iterable.afterTake]
    · simp [Iterable.afterTake]
    · have hnew : (t.it.afterTake.stateOf (some r)).isSome = true := by
        simp [Iterable.promiseAt_afterTake, hx]
      have hc := hi.count
      rw [hful] at hc
      simp only [settledCount, List.countP_append, List.countP_singleton, hnew] at hc ⊢
      exact hc
  | refuse e hful ha he => exact hi
  | store e x hful hr ha hf he =>
    have hsame : ∀ h ∈ t.returned, (t.it.afterStore x).stateOf h = t.it.stateOf h :=
      fun h hh => Iterable.stateOf_afterStore (hi.known h hh) x
    have hret := log_returned t e
    refine ⟨⟨Iterable.afterStore_wf _ _, hi.not_released, ?_⟩, ?_, ?_, ?_, ?_, ?_⟩
    · exact fun _ => ⟨.fresh, Iterable.cell_append _ _, rfl⟩
    · intro h hh
      obtain ⟨r, hr, hlt⟩ := hi.known h (hret ▸ hh)
      exact ⟨r, hr, by simp [Iterable.afterStore]; omega⟩
    · exact hret ▸ hi.nodup
    · exact fun _ => hret ▸ not_mem_of_known hi.known
    · simp [Iterable.afterStore]
    · have hc := hi.count
      have hlen : (t.log e).expected.length = t.expected.length + 1 := by
        simp [log_expected hf he]
      rw [hful] at hc
      simp only [settledCount, hret] at hc ⊢
      rw [settledCount_congr hsame]
      exact (congrArg (· + 1) hc).trans hlen.symm
  | hand e x r hful hr ha hf he =>
    have hret := log_returned t e
    have hmem := hi.waiting hful r hr
    have hpend := hi.wf.waiting hful r hr
    have hself := Iterable.promiseAt_afterHand_self (hi.wf.resolver_lt r hr) hpend x
    refine ⟨⟨Iterable.afterHand_wf hful r x, hi.not_released, ?_⟩, ?_, ?_, ?_, ?_, ?_⟩
    · exact fun _ => ⟨_, Iterable.cell_append _ _, rfl⟩
    · intro h hh
      obtain ⟨r, hr, hlt⟩ := hi.known h (hret ▸ hh)
      exact ⟨r, hr, by simpa [Iterable.afterHand] using hlt⟩
    · exact hret ▸ hi.nodup
    · simp [Iterable.afterHand, hful]
    · simp [Iterable.afterHand]
    · have hc := hi.count
      have hlen : (t.log e).expected.length = t.expected.length + 1 := by
        simp [log_expected hf he]
      have hone := countP_update (p := fun h => (t.it.stateOf h).isSome)
        (q := fun h => ((t.it.afterHand r x).stateOf h).isSome) hi.nodup hmem
        (by simp [hpend]) (by simp [hself])
        (fun b hb hne => by rw [Iterable.stateOf_afterHand_ne (hi.known b hb) hne])
      rw [hful] at hc
      simp only [settledCount, hret, hone] at hc ⊢
      rw [show (t.it.afterHand r x).resolverFulfilled = false from hful]
      exact (congrArg (· + 1) hc).trans hlen.symm
  | ret ha =>
    refine ⟨⟨hi.wf.afterFuture, hi.not_released, by simp⟩, ?_, hi.nodup, ?_, ?_, ?_⟩
    · exact hi.known
    · exact hi.stored
    · exact hi.waiting
    · exact hi.count

theorem inv_reachable (h : (iterator V).Reachable t) : Inv t :=
  h.invariant inv_init fun _ _ _ hi hs => inv_step hi (step_cases hi.toReady hs)

/-! ## The runs in which JS asks in turn -/

/-- No promise that `next` returned is pending. -/
def InTurn (t : Trace V) : Prop := ∀ h ∈ t.returned, (t.it.stateOf h).isSome = true

/-- `next` is called only when nothing is outstanding. -/
def AsksInTurn (t : Trace V) (e : Event V) : Prop := e = .next → t.InTurn

/-- **The order of the answers**, by the shape of the slot. -/
inductive Linked (t : Trace V) : Prop
  | empty (h : t.it.resolverFulfilled = false) (hr : t.it.resolver = none)
      (heq : t.returned.map t.it.stateOf = t.expected.map some)
  | waiting (r : Nat) (hs : List Handle) (h : t.it.resolverFulfilled = false)
      (hr : t.it.resolver = some r) (hret : t.returned = hs ++ [some r])
      (heq : hs.map t.it.stateOf = t.expected.map some)
  | stored (r : Nat) (x : Settlement V) (es : List (Settlement V))
      (h : t.it.resolverFulfilled = true) (hr : t.it.resolver = some r)
      (hx : t.it.promiseAt r = some x) (hexp : t.expected = es ++ [x])
      (heq : t.returned.map t.it.stateOf = es.map some)

theorem linked_init : Linked (init : Trace V) := .empty rfl rfl rfl

theorem linked_step (hi : Inv t) (hl : Linked t) (hc : t.AsksInTurn e) (h : Step t e t') :
    Linked t' := by
  cases h with
  | ask hful =>
    have hsame : t.returned.map t.it.afterAsk.stateOf = t.returned.map t.it.stateOf :=
      List.map_congr_left fun h _ => Iterable.stateOf_afterAsk h
    cases hl with
    | empty _ hr heq => exact .waiting _ t.returned hful rfl rfl (hsame.trans heq)
    | waiting r hs _ hr hret heq =>
      have := hc rfl (some r) (by simp [hret])
      rw [Iterable.stateOf_some, hi.wf.waiting hful r hr] at this
      cases this
    | stored r x es hf => exact absurd (hful.symm.trans hf) (by simp)
  | take r x hful hr hx =>
    cases hl with
    | empty hf => exact absurd (hful.symm.trans hf) (by simp)
    | waiting r hs hf => exact absurd (hful.symm.trans hf) (by simp)
    | stored r' x' es _ hr' hx' hexp heq =>
      obtain rfl : r = r' := Option.some.inj (hr.symm.trans hr')
      obtain rfl : x = x' := Option.some.inj (hx.symm.trans hx')
      refine .empty rfl rfl ?_
      rw [List.map_append]
      change t.returned.map t.it.stateOf ++ [t.it.promiseAt r] = t.expected.map some
      rw [heq, hx, hexp, List.map_append]
      rfl
  | refuse e hful ha he => exact hl
  | store e x hful hr ha hf he =>
    have hret := log_returned t e
    have hsame : t.returned.map (t.it.afterStore x).stateOf = t.returned.map t.it.stateOf :=
      List.map_congr_left fun h hh => Iterable.stateOf_afterStore (hi.known h hh) x
    cases hl with
    | empty _ _ heq =>
      exact .stored _ x t.expected rfl rfl (Iterable.promiseAt_afterStore_self x)
        (log_expected hf he) (by simp only [hret]; exact hsame.trans heq)
    | waiting r hs _ hr' => exact absurd (hr.symm.trans hr') (by simp)
    | stored r x es hf => exact absurd (hful.symm.trans hf) (by simp)
  | hand e x r hful hr ha hf he =>
    have hexp := log_expected hf he
    cases hl with
    | empty _ hr' => exact absurd (hr.symm.trans hr') (by simp)
    | waiting r' hs _ hr' hret heq =>
      obtain rfl : r = r' := Option.some.inj (hr.symm.trans hr')
      have hn := hi.nodup
      rw [hret, List.nodup_append] at hn
      have hsame : hs.map (t.it.afterHand r x).stateOf = hs.map t.it.stateOf := by
        refine List.map_congr_left fun h hh => Iterable.stateOf_afterHand_ne ?_ ?_ x
        · exact hi.known h (by rw [hret]; exact List.mem_append_left _ hh)
        · exact hn.2.2 h hh _ (List.mem_singleton_self _)
      have hself := Iterable.promiseAt_afterHand_self (hi.wf.resolver_lt r hr)
        (hi.wf.waiting hful r hr) x
      refine .empty hful rfl ?_
      change (t.log e).returned.map (t.it.afterHand r x).stateOf = (t.log e).expected.map some
      rw [log_returned, hret, hexp, List.map_append, List.map_append, hsame, heq]
      simp [hself]
    | stored r x es hf => exact absurd (hful.symm.trans hf) (by simp)
  | ret ha =>
    cases hl with
    | empty hf hr heq => exact .empty hf hr heq
    | waiting r hs hf hr hret heq => exact .waiting r hs hf hr hret heq
    | stored r x es hf hr hx hexp heq => exact .stored r x es hf hr hx hexp heq

/-! ## What JS has received -/

/-- The settlements of the promises that `next` returned, in order. -/
def answers (t : Trace V) : List (Settlement V) := t.returned.filterMap t.it.stateOf

theorem filterMap_of_map_eq {l : List Handle} {f : Handle → Option (Settlement V)}
    {es : List (Settlement V)} (h : l.map f = es.map some) : l.filterMap f = es := by
  have : l.filterMap f = (l.map f).filterMap id := by rw [List.filterMap_map]; rfl
  rw [this, h, List.filterMap_map]
  exact List.filterMap_some

/-- Everything handed over was received, but for a stored promise. -/
theorem Linked.answers_eq (hi : Inv t) (hl : Linked t) :
    t.answers = if t.it.resolverFulfilled then t.expected.dropLast else t.expected := by
  unfold answers
  cases hl with
  | empty h hr heq => rw [h, filterMap_of_map_eq heq]; rfl
  | waiting r hs h hr hret heq =>
    have hp : t.it.stateOf (some r) = none := hi.wf.waiting h r hr
    rw [h, hret, List.filterMap_append, filterMap_of_map_eq heq]
    simp [hp]
  | stored r x es h hr hx hexp heq => rw [h, hexp, filterMap_of_map_eq heq]; simp

/-- At most the last promise is pending. -/
theorem Linked.returned_map (hi : Inv t) (hl : Linked t) :
    t.returned.map t.it.stateOf = t.answers.map some ∨
      t.returned.map t.it.stateOf = t.answers.map some ++ [none] := by
  have ha := hl.answers_eq hi
  cases hl with
  | empty h hr heq => left; rw [ha, h, heq]; rfl
  | waiting r hs h hr hret heq =>
    right
    have hp : t.it.stateOf (some r) = none := hi.wf.waiting h r hr
    rw [ha, h, hret, List.map_append, heq]
    simp [hp]
  | stored r x es h hr hx hexp heq => left; rw [ha, h, heq, hexp]; simp

/-- The consumer waits for its last promise only. -/
def LastSettled (t : Trace V) : Prop :=
  ∀ h, t.returned.getLast? = some h → (t.it.stateOf h).isSome = true

instance : Decidable t.LastSettled :=
  inferInstanceAs (Decidable (∀ h ∈ t.returned.getLast?, _ = true))

theorem Linked.inTurn_of_lastSettled (hi : Inv t) (hl : Linked t) (h : t.LastSettled) :
    t.InTurn := by
  have hmap := hl.returned_map hi
  rcases hmap with hmap | hmap
  · intro a ha
    have hm : t.it.stateOf a ∈ t.answers.map some := by
      rw [← hmap]
      exact List.mem_map_of_mem ha
    obtain ⟨x, -, hx⟩ := List.mem_map.mp hm
    rw [← hx]
    rfl
  · exfalso
    have hlast : (t.returned.map t.it.stateOf).getLast? = some none := by rw [hmap]; simp
    rw [List.getLast?_map] at hlast
    obtain ⟨a, ha, hn⟩ := Option.map_eq_some_iff.mp hlast
    have := h a ha
    rw [hn] at this
    cases this

/-- While something is stored JS has nothing outstanding. -/
theorem Linked.lastSettled_of_stored (hl : Linked t) (hf : t.it.resolverFulfilled = true) :
    t.LastSettled := by
  intro a ha
  cases hl with
  | empty h => exact absurd (hf.symm.trans h) (by simp)
  | waiting r hs h => exact absurd (hf.symm.trans h) (by simp)
  | stored r x es h hr hx hexp heq =>
    have hm : t.it.stateOf a ∈ es.map some := by
      rw [← heq]
      exact List.mem_map_of_mem (List.mem_of_getLast? ha)
    obtain ⟨y, -, hy⟩ := List.mem_map.mp hm
    rw [← hy]
    rfl

/-- The current `_consume_promise` is satisfied once nothing is stored. -/
def Consumed (t : Trace V) : Prop :=
  t.it.resolverFulfilled = false → t.it.futureResult t.it.consumePromise = some (.ok ())

theorem consumed_produce {x : Settlement V} (hr : Ready t) (he : e.settlement = some x)
    (hf : t.it.resolverFulfilled = false) : Consumed (t.produce e).2 := by
  cases hs : t.it.resolver with
  | none =>
    rw [produce_empty hr he hf hs]
    intro h
    cases h
  | some r =>
    rw [produce_waiting hr he hf hs]
    exact fun _ => Iterable.futureResult_afterHand r x

theorem consumed_next (hr : Ready t) (hc : Consumed t) :
    t.next.it.consumePromise = t.it.consumePromise ∧ Consumed t.next := by
  generalize hn : t.next = t'
  have hs := step_next hr
  rw [hn] at hs
  cases hs with
  | ask => exact ⟨rfl, hc⟩
  | take => exact ⟨rfl, fun _ => Iterable.futureResult_afterTake hr.wf.cell⟩
  | refuse _ _ _ he => cases he
  | store _ _ _ _ _ _ he => cases he
  | hand _ _ _ _ _ _ _ he => cases he

theorem consumed_return (hr : Ready t) (ha : t.active = true) (hc : Consumed t) :
    t.return_.2.it.consumePromise = t.it.consumePromise ∧ Consumed t.return_.2 := by
  rw [return_eq hr ha]
  refine ⟨rfl, fun hf => ?_⟩
  rw [← hc hf]
  exact Iterable.futureResult_afterFuture _

theorem linked_of_meets {ls : List (Event V)} (h : (iterator V).run init ls = some t)
    (hc : (iterator V).Meets AsksInTurn init ls) : Inv t ∧ Linked t :=
  hc.invariant (I := fun t => Inv t ∧ Linked t) ⟨inv_init, linked_init⟩
    (fun _ _ _ hi he hs =>
      have hstep := step_cases hi.1.toReady hs
      ⟨inv_step hi.1 hstep, linked_step hi.1 hi.2 he hstep⟩) h

end Trace

end NodeSvn
