import NodeSvn.Lib.Channel
import NodeSvn.Node.Stream

/-!
# The stream law

Where the consumer asks in turn, `stream c` refines the channel over `c.expected`
(`StreamState.refinement`): storing a settled promise offers its settlement, taking it
accepts, and answering a request passes.  So the consumer receives `c.expected` in order.

The invariant `Flow` says what worker, loop thread and handle are doing (`Phase`), and
`workLeft` bounds the steps of these two, so that a run ends only when everything was
received (`StreamState.progress`).
-/

namespace NodeSvn

namespace Trace

variable {V : Type} {t : Trace V} {e : Event V} {x : Settlement V}

/-! ## An iterator whose consumer asks in turn -/

structure Orderly (t : Trace V) : Prop extends Inv t where
  linked : Linked t

/-- The producer may call. -/
structure Open (t : Trace V) : Prop where
  idle : t.active = false
  unfinished : t.finished = none
  empty : t.it.resolverFulfilled = false

/-- The settlement that is stored. -/
def held (t : Trace V) : Option (Settlement V) :=
  if t.it.resolverFulfilled then t.expected.getLast? else none

/-- The iterator as a channel, with what the producer still has to send. -/
def toChannel (t : Trace V) (rest : List (Settlement V)) : Channel (Settlement V) :=
  ⟨t.answers, t.held, rest⟩

theorem Orderly.answers_of_empty (h : Orderly t) (hf : t.it.resolverFulfilled = false) :
    t.answers = t.expected := by
  simp [h.linked.answers_eq h.toInv, hf]

theorem Orderly.length_answers (h : Orderly t) :
    t.answers.length + (if t.it.resolverFulfilled then 1 else 0) = t.expected.length := by
  rw [h.linked.answers_eq h.toInv]
  cases hf : t.it.resolverFulfilled with
  | false => simp
  | true =>
    have := h.count
    rw [hf] at this
    simp only [if_true, List.length_dropLast] at this ⊢
    omega

theorem Orderly.length_returned (h : Orderly t) :
    t.returned.length ≤ t.answers.length + 1 := by
  rcases h.linked.returned_map h.toInv with hm | hm
  · have := congrArg List.length hm
    simp only [List.length_map] at this
    omega
  · have := congrArg List.length hm
    simp only [List.length_append, List.length_map, List.length_singleton] at this
    omega

theorem Orderly.toChannel_empty (h : Orderly t) (hf : t.it.resolverFulfilled = false)
    (rest : List (Settlement V)) : t.toChannel rest = ⟨t.expected, none, rest⟩ := by
  simp [toChannel, h.answers_of_empty hf, held, hf]

theorem Orderly.toChannel_stored (h : Orderly t) (hf : t.it.resolverFulfilled = true)
    {es : List (Settlement V)} (he : t.expected = es ++ [x]) (rest : List (Settlement V)) :
    t.toChannel rest = ⟨es, some x, rest⟩ := by
  simp [toChannel, h.linked.answers_eq h.toInv, held, hf, he]

/-- What an accepted call of the producer does. -/
structure Accepted (t : Trace V) (e : Event V) (x : Settlement V) (t' : Trace V) : Prop where
  orderly : Orderly t'
  consumed : Consumed t'
  active : t'.active = true
  finished : t'.finished = (t.log e).finished
  expected : t'.expected = t.expected ++ [x]
  returned : t'.returned = t.returned
  channel : ∀ rest, ∃ k, (t.toChannel (x :: rest)).step k = some (t'.toChannel rest)

theorem Orderly.produce (h : Orderly t) (ho : t.Open) (he : e.settlement = some x) :
    ∃ t', t.produce e = (.ok (), t') ∧ Accepted t e x t' := by
  have hcons := consumed_produce h.toReady he ho.empty
  have hstep := step_produce h.toReady ho.idle ho.unfinished (e := e) (by simp [he])
  have hexp := log_expected ho.unfinished he
  cases hs : t.it.resolver with
  | none =>
    have heq := produce_empty h.toReady he ho.empty hs
    rw [heq] at hcons hstep
    have hord : Orderly { t.log e with it := t.it.afterStore x, active := true } :=
      ⟨inv_step h.toInv hstep, linked_step h.toInv h.linked (by rintro rfl; cases he) hstep⟩
    refine ⟨_, heq, hord, hcons, rfl, rfl, hexp, log_returned t e, fun rest => ⟨.offer, ?_⟩⟩
    rw [h.toChannel_empty ho.empty, hord.toChannel_stored rfl hexp]
    rfl
  | some r =>
    have heq := produce_waiting h.toReady he ho.empty hs
    rw [heq] at hcons hstep
    have hord : Orderly { t.log e with it := t.it.afterHand r x, active := true } :=
      ⟨inv_step h.toInv hstep, linked_step h.toInv h.linked (by rintro rfl; cases he) hstep⟩
    refine ⟨_, heq, hord, hcons, rfl, rfl, hexp, log_returned t e, fun rest => ⟨.pass, ?_⟩⟩
    rw [h.toChannel_empty ho.empty, hord.toChannel_empty ho.empty]
    exact congrArg (fun l => some (Channel.mk l none rest)) hexp.symm

/-- What the return of the producer's call does. -/
structure Returned (t t' : Trace V) : Prop where
  orderly : Orderly t'
  consumed : Consumed t → Consumed t'
  consumePromise : t'.it.consumePromise = t.it.consumePromise
  fulfilled : t'.it.resolverFulfilled = t.it.resolverFulfilled
  active : t'.active = false
  finished : t'.finished = t.finished
  expected : t'.expected = t.expected
  returned : t'.returned = t.returned
  channel : ∀ rest, t'.toChannel rest = t.toChannel rest

theorem Orderly.return_ (h : Orderly t) (ha : t.active = true) :
    ∃ t', t.return_ = (.ok t.it.consumePromise, t') ∧ Returned t t' := by
  have hcons := fun hc => (consumed_return h.toReady ha hc).2
  have hstep := step_return h.toReady ha
  rw [return_eq h.toReady ha] at hcons hstep ⊢
  exact ⟨_, rfl,
    ⟨inv_step h.toInv hstep, linked_step h.toInv h.linked (by intro h; cases h) hstep⟩,
    hcons, rfl, rfl, rfl, rfl, rfl, rfl, fun rest => rfl⟩

/-- What a call of `next` does. -/
structure Asked (t t' : Trace V) : Prop where
  orderly : Orderly t'
  consumed : Consumed t → Consumed t'
  consumePromise : t'.it.consumePromise = t.it.consumePromise
  empty : t.it.resolverFulfilled = false → t'.it.resolverFulfilled = false
  active : t'.active = t.active
  finished : t'.finished = t.finished
  expected : t'.expected = t.expected
  returned : t'.returned.length = t.returned.length + 1
  channel : ∀ rest, t'.toChannel rest = t.toChannel rest ∨
    (t.toChannel rest).step .accept = some (t'.toChannel rest)

theorem Orderly.next (h : Orderly t) (hl : t.LastSettled) : Asked t t.next := by
  have hcons := fun hc => (consumed_next h.toReady hc).2
  have hstep := step_next h.toReady
  have hord : Orderly t.next := ⟨inv_step h.toInv hstep,
    linked_step h.toInv h.linked (fun _ => h.linked.inTurn_of_lastSettled h.toInv hl) hstep⟩
  generalize t.next = t' at hstep hord hcons
  cases hstep with
  | ask hf =>
    refine ⟨hord, hcons, rfl, fun _ => hf, rfl, rfl, rfl, by simp, fun rest => .inl ?_⟩
    rw [hord.toChannel_empty hf, h.toChannel_empty hf]
    rfl
  | take r x hf hr hx =>
    refine ⟨hord, hcons, rfl, fun _ => rfl, rfl, rfl, rfl, by simp, fun rest => .inr ?_⟩
    obtain ⟨es, y, hexp⟩ : ∃ es y, t.expected = es ++ [y] := by
      cases h.linked with
      | empty h' => exact absurd (hf.symm.trans h') (by simp)
      | waiting r hs h' => exact absurd (hf.symm.trans h') (by simp)
      | stored r x es h' hr hx hexp heq => exact ⟨es, x, hexp⟩
    rw [hord.toChannel_empty rfl, h.toChannel_stored hf hexp]
    exact congrArg (fun l => some (Channel.mk l none rest)) hexp.symm
  | refuse _ _ _ he => cases he
  | store _ _ _ _ _ _ he => cases he
  | hand _ _ _ _ _ _ _ he => cases he

end Trace

/-! ## Where worker and loop thread are -/

namespace StreamState

variable {α : Type} {c : StreamCall α} {s s' : StreamState α}

/-- The settlements for these items. -/
def itemsOf (c : StreamCall α) (items : List α) : List (Settlement (StreamValue α)) :=
  (c.delivered items).map StreamCall.itemSettlement

/-- Everything that reached the iterator, with the items still to come. -/
def Accounted (c : StreamCall α) (s : StreamState α)
    (inFlight : List (Settlement (StreamValue α))) : Prop :=
  s.tr.expected ++ inFlight ++ itemsOf c s.todo = itemsOf c c.items

/-- The worker is outside of the callback. -/
structure Between (c : StreamCall α) (s : StreamState α) : Prop where
  idle : s.async.Idle
  job : s.job = none
  free : s.tr.Open
  accounted : Accounted c s []
  completed : s.completed = s.tr.expected.length

/-- The signal is on its way. -/
structure Sent (c : StreamCall α) (s : StreamState α) : Prop where
  called : ∃ a, s.async.Called caller a ∧ Accounted c s [StreamCall.itemSettlement a]
  job : s.job = none
  free : s.tr.Open
  completed : s.completed = s.tr.expected.length

/-- `invoke_async` is in `RunMicrotasks`. -/
structure Yielding (c : StreamCall α) (s : StreamState α) : Prop where
  serving : s.async.Serving caller
  job : s.job = none
  active : s.tr.active = true
  unfinished : s.tr.finished = none
  consumed : s.tr.Consumed
  accounted : Accounted c s []
  completed : s.completed + 1 = s.tr.expected.length

/-- `invoke_async` is over, and the worker is on its way through the two futures. -/
structure Got (c : StreamCall α) (s : StreamState α) : Prop where
  answered : s.async.Answered caller (.ok s.tr.it.consumePromise)
  job : s.job = none
  idle : s.tr.active = false
  unfinished : s.tr.finished = none
  consumed : s.tr.Consumed
  accounted : Accounted c s []
  completed : s.completed + 1 = s.tr.expected.length

structure Finished (c : StreamCall α) (s : StreamState α) : Prop where
  idle : s.async.Idle
  job : s.job = some c.workResult
  free : s.tr.Open
  expected : s.tr.expected = itemsOf c c.items
  completed : s.completed = s.tr.expected.length

/-- `end` or `reject` was called; `active` tells whether it returned. -/
structure Ended (c : StreamCall α) (active : Bool) (s : StreamState α) : Prop where
  idle : s.async.Idle
  job : s.job = none
  active : s.tr.active = active
  expected : s.tr.expected = c.expected
  completed : s.completed + 1 = s.tr.expected.length

def Phase (c : StreamCall α) (s : StreamState α) : Prop :=
  match s.worker, s.loop with
  | .queued, .idle => Between c s
  | .libsvn, .idle => Between c s
  | .call, .idle => Sent c s ∨ Got c s
  | .call, .yielding => Yielding c s
  | .consume f, .idle => Got c s ∧ f = s.tr.it.consumePromise
  | .finished, .idle => Finished c s ∨ Ended c false s
  | .finished, .ending => Ended c true s
  | _, _ => False

/-- **The invariant of a stream.** -/
structure Flow (c : StreamCall α) (s : StreamState α) : Prop where
  orderly : s.tr.Orderly
  phase : Phase c s

/-- The channel that the iterator implements. -/
def toChannel (c : StreamCall α) (s : StreamState α) : Channel (Settlement (StreamValue α)) :=
  s.tr.toChannel (c.expected.drop s.tr.expected.length)

/-- A bound for the steps of worker and loop thread that are left. -/
def workLeft (s : StreamState α) : Nat :=
  5 * s.todo.length +
    match s.worker with
    | .queued => 4
    | .libsvn => 3
    | .call => if s.async.pending then 7 else if s.loop = .yielding then 6 else 5
    | .consume _ => 4
    | _ => if s.job.isSome then 2 else if s.loop = .ending then 1 else 0

/-- A step of the worker or the loop thread. -/
structure Advance (c : StreamCall α) (s s' : StreamState α) : Prop where
  flow : Flow c s'
  channel : toChannel c s' = toChannel c s ∨
    ∃ k, (toChannel c s).step k = some (toChannel c s')
  returned : s'.tr.returned = s.tr.returned
  less : s'.workLeft < s.workLeft

theorem flow_init (c : StreamCall α) : Flow c c.init where
  orderly := ⟨Trace.inv_init, Trace.linked_init⟩
  phase := ⟨⟨rfl, rfl⟩, rfl, ⟨rfl, rfl, rfl⟩, rfl, rfl⟩

theorem itemsOf_cons (c : StreamCall α) (a : α) (items : List α) :
    itemsOf c (a :: items) =
      if c.skips a then itemsOf c items else StreamCall.itemSettlement a :: itemsOf c items := by
  cases h : c.skips a <;> simp [itemsOf, StreamCall.delivered_eq_filter, h]

theorem drop_expected {es rest : List (Settlement (StreamValue α))}
    (h : es ++ rest = c.expected) : c.expected.drop es.length = rest := by
  rw [← h, List.drop_left]

/-- A step that does not touch the iterator. -/
theorem Flow.advance (h : Flow c s) (htr : s'.tr = s.tr) (hp : Phase c s')
    (hless : s'.workLeft < s.workLeft) : Advance c s s' where
  flow := ⟨htr ▸ h.orderly, hp⟩
  channel := .inl (by rw [toChannel, toChannel, htr])
  returned := congrArg Trace.returned htr
  less := hless

theorem Flow.start (h : Flow c s) (hs : step c s .start = some s') : Advance c s s' := by
  have hp := h.phase
  simp only [step] at hs
  split at hs
  · rename_i hw
    obtain rfl := Option.some.inj hs
    refine h.advance rfl ?_ (by simp [workLeft, hw])
    cases hl : s.loop <;> simp only [Phase, hw, hl] at hp ⊢
    exact ⟨hp.idle, hp.job, hp.free, hp.accounted, hp.completed⟩
  · cases hs

theorem Flow.report (h : Flow c s) (hs : s.report c = some s') : Advance c s s' := by
  have hp := h.phase
  simp only [StreamState.report] at hs
  split at hs
  · rename_i a todo hw ht
    cases hl : s.loop <;> simp only [Phase, hw, hl] at hp
    have hacc := hp.accounted
    rw [Accounted, ht, itemsOf_cons, List.append_nil] at hacc
    split at hs
    · rename_i hskip
      obtain rfl := Option.some.inj hs
      refine h.advance rfl ?_ (by simp [workLeft, hw, ht])
      simp only [Phase, hw, hl]
      rw [hskip, if_pos rfl] at hacc
      exact ⟨hp.idle, hp.job, hp.free, by rw [Accounted, List.append_nil]; exact hacc, hp.completed⟩
    · rename_i hskip
      obtain ⟨async, hcall, hcalled⟩ := hp.idle.call caller a
      rw [hcall] at hs
      obtain rfl := Option.some.inj hs
      refine h.advance rfl ?_ ?_
      · simp only [Phase, hl]
        rw [if_neg hskip] at hacc
        refine .inl ⟨⟨a, hcalled, ?_⟩, hp.job, hp.free, hp.completed⟩
        rw [Accounted, List.append_assoc]
        exact hacc
      · simp [workLeft, hw, ht, hcalled.2.1]
        omega
  · cases hs

/-- Only a worker in `uv::async` has a signal on its way. -/
theorem Flow.sent (h : Flow c s) {w : Nat} {a : α} {async : Async α Nat} (hl : s.loop = .idle)
    (hd : s.async.dispatch = some (w, a, async)) :
    s.worker = .call ∧ s.async.pending = true ∧ Sent c s := by
  have hp := h.phase
  have hpend : s.async.pending = true := by
    by_contra hn
    simp [Async.dispatch, hn] at hd
  cases hw : s.worker <;> simp only [Phase, hw, hl] at hp
  · exact absurd hpend (by simp [hp.idle.2])
  · exact absurd hpend (by simp [hp.idle.2])
  · rcases hp with hp | hp
    · exact ⟨rfl, hpend, hp⟩
    · exact absurd hpend (by simp [hp.answered.2.1])
  · exact absurd hpend (by simp [hp.1.answered.2.1])
  · rcases hp with hp | hp
    · exact absurd hpend (by simp [hp.idle.2])
    · exact absurd hpend (by simp [hp.idle.2])

theorem Flow.dispatch (h : Flow c s) (hs : s.dispatch = some s') : Advance c s s' := by
  simp only [StreamState.dispatch] at hs
  split at hs
  · rename_i w a async hl hd
    obtain ⟨hw, hpend, hsent⟩ := h.sent hl hd
    obtain ⟨b, hcalled, hacc⟩ := hsent.called
    obtain ⟨async', hd', hserving⟩ := hcalled.dispatch
    rw [hd] at hd'
    obtain ⟨rfl, rfl, rfl⟩ : w = caller ∧ a = b ∧ async = async' := by simpa using hd'
    obtain ⟨tr, hprod, hacc'⟩ := h.orderly.produce hsent.free
      (e := .yield (.item a)) (x := StreamCall.itemSettlement a) rfl
    rw [hprod] at hs
    obtain rfl := Option.some.inj hs
    have hexp : tr.expected ++ itemsOf c s.todo = itemsOf c c.items := by
      rw [hacc'.expected]
      exact hacc
    refine ⟨⟨hacc'.orderly, ?_⟩, .inr ?_, hacc'.returned, ?_⟩
    · simp only [Phase, hw]
      refine ⟨hserving, hsent.job, hacc'.active, hacc'.finished.trans hsent.free.unfinished,
        hacc'.consumed, by rw [Accounted, List.append_nil]; exact hexp, ?_⟩
      simp [hacc'.expected, hsent.completed]
    · have hrest : tr.expected ++ (itemsOf c s.todo ++ [c.marker]) = c.expected := by
        rw [← List.append_assoc, hexp]
        rfl
      have hrest' : s.tr.expected ++
          (StreamCall.itemSettlement a :: (itemsOf c s.todo ++ [c.marker])) = c.expected := by
        rw [← hrest, hacc'.expected]
        simp
      simp only [toChannel, drop_expected hrest, drop_expected hrest']
      exact hacc'.channel _
    · simp [workLeft, hw, hpend, hserving.2.1]
  · cases hs

theorem Flow.ret (h : Flow c s) (hs : s.ret = some s') : Advance c s s' := by
  have hp := h.phase
  simp only [StreamState.ret] at hs
  split at hs
  · rename_i hl
    have hw : s.worker = .call := by
      cases hw : s.worker <;> simp only [Phase, hw, hl] at hp
      rfl
    simp only [Phase, hw, hl] at hp
    obtain ⟨tr, hret, hr⟩ := h.orderly.return_ hp.active
    rw [hret] at hs
    obtain rfl := Option.some.inj hs
    refine ⟨⟨hr.orderly, ?_⟩, .inl ?_, hr.returned, ?_⟩
    · simp only [Phase, hw]
      refine .inr ⟨?_, hp.job, hr.active, hr.finished.trans hp.unfinished, hr.consumed hp.consumed,
        ?_, ?_⟩
      · simp only [hr.consumePromise]
        exact hp.serving.setResult _
      · simpa only [Accounted, hr.expected] using hp.accounted
      · simpa only [hr.expected] using hp.completed
    · simp only [toChannel, hr.channel, hr.expected]
    · simp [workLeft, hw, hl, (hp.serving.setResult _).2.1, hp.serving.2.1]
  · rename_i hl
    have hw : s.worker = .finished := by
      cases hw : s.worker <;> simp only [Phase, hw, hl] at hp
      rfl
    simp only [Phase, hw, hl] at hp
    obtain ⟨tr, hret, hr⟩ := h.orderly.return_ hp.active
    rw [hret] at hs
    obtain rfl := Option.some.inj hs
    refine ⟨⟨hr.orderly, ?_⟩, .inl ?_, hr.returned, ?_⟩
    · simp only [Phase, hw]
      exact .inr ⟨hp.idle, hp.job, hr.active, hr.expected.trans hp.expected,
        by simpa only [hr.expected] using hp.completed⟩
    · simp only [toChannel, hr.channel, hr.expected]
    · simp [workLeft, hw, hl, hp.job]
  · cases hs

/-- The worker in the callback has the future of the current item. -/
theorem Flow.got (h : Flow c s) {r : Except Exn Nat} (hw : s.worker = .call)
    (hres : s.async.result caller = some r) : s.loop = .idle ∧ Got c s := by
  have hp := h.phase
  cases hl : s.loop <;> simp only [Phase, hw, hl] at hp
  · rcases hp with hp | hp
    · obtain ⟨a, hcalled, -⟩ := hp.called
      simp [Async.result_waiting hcalled.2.2.2] at hres
    · exact ⟨rfl, hp⟩
  · obtain ⟨-, -, a, hf⟩ := hp.serving
    simp [Async.result_waiting hf] at hres

theorem Flow.future (h : Flow c s) (hs : s.future c = some s') : Advance c s s' := by
  simp only [StreamState.future] at hs
  split at hs
  · rename_i f hw hres
    obtain ⟨hl, hgot⟩ := h.got hw hres
    obtain rfl : s.tr.it.consumePromise = f := by
      have := hgot.answered.2.2
      rw [hres] at this
      simpa using this.symm
    obtain rfl := Option.some.inj hs
    refine h.advance rfl ?_ ?_
    · simp only [Phase, hl]
      exact ⟨⟨hgot.answered, hgot.job, hgot.idle, hgot.unfinished, hgot.consumed, hgot.accounted,
        hgot.completed⟩, trivial⟩
    · simp [workLeft, hw, hl, hgot.answered.2.1]
  · rename_i e hw hres
    obtain ⟨-, hgot⟩ := h.got hw hres
    have := hgot.answered.2.2
    rw [hres] at this
    cases this
  · cases hs

/-- What the worker waits for is satisfied exactly when nothing is stored. -/
theorem Got.futureResult (h : Flow c s) (hg : Got c s) :
    s.tr.it.futureResult s.tr.it.consumePromise =
      if s.tr.it.resolverFulfilled then none else some (.ok ()) := by
  cases hf : s.tr.it.resolverFulfilled with
  | true =>
    obtain ⟨r, x, -, -, hnone⟩ := h.orderly.wf.stored hf
    simp [hnone]
  | false => simp [hg.consumed hf]

theorem Flow.consumed (h : Flow c s) (hs : s.consumed c = some s') : Advance c s s' := by
  have hp := h.phase
  simp only [StreamState.consumed] at hs
  split at hs
  · rename_i f hw
    have hl : s.loop = .idle := by
      cases hl : s.loop <;> simp only [Phase, hw, hl] at hp
      rfl
    simp only [Phase, hw, hl] at hp
    obtain ⟨hgot, rfl⟩ := hp
    rw [hgot.futureResult h] at hs
    cases hf : s.tr.it.resolverFulfilled with
    | true => simp [hf] at hs
    | false =>
      simp only [hf, Bool.false_eq_true, if_false, Option.some.injEq] at hs
      subst hs
      refine h.advance rfl ?_ (by simp [workLeft, hw])
      simp only [Phase, hl]
      exact ⟨hgot.answered.leave, hgot.job, ⟨hgot.idle, hgot.unfinished, hf⟩, hgot.accounted,
        hgot.completed⟩
  · cases hs

theorem Flow.finish (h : Flow c s) (hs : s.finish c = some s') : Advance c s s' := by
  have hp := h.phase
  simp only [StreamState.finish] at hs
  split at hs
  · rename_i hw ht
    cases hl : s.loop <;> simp only [Phase, hw, hl] at hp
    obtain rfl := Option.some.inj hs
    refine h.advance rfl ?_ (by simp [workLeft, hw, ht])
    simp only [Phase, hl]
    have hacc := hp.accounted
    rw [Accounted, ht, List.append_nil] at hacc
    refine .inl ⟨hp.idle, rfl, hp.free, ?_, hp.completed⟩
    simpa [itemsOf, StreamCall.delivered_eq_filter] using hacc
  · rename_i hw
    cases hl : s.loop <;> simp only [Phase, hw, hl] at hp
  · cases hs

theorem afterWorkEvent_workResult (c : StreamCall α) :
    ∃ e, afterWorkEvent (α := α) c.workResult = some e ∧ e.settlement = some c.marker ∧
      ∀ t : Trace (StreamValue α), t.finished = none → (t.log e).finished = some c.marker := by
  cases h : c.outcome with
  | ok =>
    exact ⟨.end_, by simp [afterWorkEvent, StreamCall.workResult, h], by
      simp [Event.settlement, StreamCall.marker, h], fun t _ => by
      simp [Trace.log, StreamCall.marker, h]⟩
  | error e =>
    exact ⟨.reject (.error (copyError e)), by
      simp [afterWorkEvent, StreamCall.workResult, h, Exn.asSvnError], by
      simp [Event.settlement, StreamCall.marker, h], fun t _ => by
      simp [Trace.log, StreamCall.marker, h]⟩

/-- The after-work step finds the job finished. -/
theorem Flow.finished (h : Flow c s) {r : Except Exn Unit} (hl : s.loop = .idle)
    (hj : s.job = some r) : s.worker = .finished ∧ Finished c s := by
  have hp := h.phase
  cases hw : s.worker <;> simp only [Phase, hw, hl] at hp
  · exact absurd (hj.symm.trans hp.job) (by simp)
  · exact absurd (hj.symm.trans hp.job) (by simp)
  · rcases hp with hp | hp
    · exact absurd (hj.symm.trans hp.job) (by simp)
    · exact absurd (hj.symm.trans hp.job) (by simp)
  · exact absurd (hj.symm.trans hp.1.job) (by simp)
  · rcases hp with hp | hp
    · exact ⟨rfl, hp⟩
    · exact absurd (hj.symm.trans hp.job) (by simp)

theorem Flow.afterWork (h : Flow c s) (hs : s.afterWork = some s') : Advance c s s' := by
  simp only [StreamState.afterWork] at hs
  split at hs
  · rename_i r hl hj
    obtain ⟨hw, hfin⟩ := h.finished hl hj
    obtain rfl : c.workResult = r := Option.some.inj (hfin.job.symm.trans hj)
    obtain ⟨e, hev, he, hlog⟩ := afterWorkEvent_workResult c
    obtain ⟨tr, hprod, hacc⟩ := h.orderly.produce hfin.free he
    simp only [hev, hprod, Option.some.injEq] at hs
    subst hs
    have hexp : tr.expected = c.expected := by
      rw [hacc.expected, hfin.expected]
      rfl
    refine ⟨⟨hacc.orderly, ?_⟩, .inr ?_, hacc.returned, ?_⟩
    · simp only [Phase, hw]
      exact ⟨hfin.idle, rfl, hacc.active, hexp, by simp [hacc.expected, hfin.completed]⟩
    · have hrest : tr.expected ++ [] = c.expected := by rw [List.append_nil, hexp]
      have hrest' : s.tr.expected ++ [c.marker] = c.expected := by rw [← hacc.expected, hexp]
      simp only [toChannel, drop_expected hrest, drop_expected hrest']
      exact hacc.channel _
    · simp [workLeft, hw, hj]
  · cases hs

/-! `next` leaves worker and loop thread where they are. -/

section Asked

variable {tr : Trace (StreamValue α)}

theorem Free.asked (h : s.tr.Open) (ha : Trace.Asked s.tr tr) : tr.Open :=
  ⟨ha.active.trans h.idle, ha.finished.trans h.unfinished, ha.empty h.empty⟩

theorem Between.asked (h : Between c s) (ha : Trace.Asked s.tr tr) :
    Between c { s with tr := tr } :=
  ⟨h.idle, h.job, Free.asked h.free ha, by simpa only [Accounted, ha.expected] using h.accounted,
    by simpa only [ha.expected] using h.completed⟩

theorem Sent.asked (h : Sent c s) (ha : Trace.Asked s.tr tr) : Sent c { s with tr := tr } := by
  refine ⟨?_, h.job, Free.asked h.free ha, by simpa only [ha.expected] using h.completed⟩
  obtain ⟨a, hcalled, hacc⟩ := h.called
  exact ⟨a, hcalled, by simpa only [Accounted, ha.expected] using hacc⟩

theorem Yielding.asked (h : Yielding c s) (ha : Trace.Asked s.tr tr) :
    Yielding c { s with tr := tr } :=
  ⟨h.serving, h.job, ha.active.trans h.active, ha.finished.trans h.unfinished,
    ha.consumed h.consumed, by simpa only [Accounted, ha.expected] using h.accounted,
    by simpa only [ha.expected] using h.completed⟩

theorem Got.asked (h : Got c s) (ha : Trace.Asked s.tr tr) : Got c { s with tr := tr } :=
  ⟨by simpa only [ha.consumePromise] using h.answered, h.job, ha.active.trans h.idle,
    ha.finished.trans h.unfinished, ha.consumed h.consumed,
    by simpa only [Accounted, ha.expected] using h.accounted,
    by simpa only [ha.expected] using h.completed⟩

theorem Finished.asked (h : Finished c s) (ha : Trace.Asked s.tr tr) :
    Finished c { s with tr := tr } :=
  ⟨h.idle, h.job, Free.asked h.free ha, ha.expected.trans h.expected,
    by simpa only [ha.expected] using h.completed⟩

theorem Ended.asked {b : Bool} (h : Ended c b s) (ha : Trace.Asked s.tr tr) :
    Ended c b { s with tr := tr } :=
  ⟨h.idle, h.job, ha.active.trans h.active, ha.expected.trans h.expected,
    by simpa only [ha.expected] using h.completed⟩

theorem Phase.asked (h : Phase c s) (ha : Trace.Asked s.tr tr) : Phase c { s with tr := tr } := by
  cases s with
  | mk tr' async worker loop todo completed job deleted =>
    cases worker <;> cases loop <;> simp only [Phase] at h ⊢
    · exact h.asked ha
    · exact h.asked ha
    · exact h.imp (·.asked ha) (·.asked ha)
    · exact h.asked ha
    · exact ⟨h.1.asked ha, h.2.trans ha.consumePromise.symm⟩
    · exact h.imp (·.asked ha) (·.asked ha)
    · exact h.asked ha

end Asked

theorem Flow.next (h : Flow c s) (hs : s.next = some s') :
    Flow c s' ∧ s'.workLeft = s.workLeft ∧
      s'.tr.returned.length = s.tr.returned.length + 1 ∧
      (toChannel c s' = toChannel c s ∨
        (toChannel c s).step .accept = some (toChannel c s')) := by
  simp only [StreamState.next] at hs
  split at hs
  · rename_i hcond
    obtain rfl := Option.some.inj hs
    have ha := h.orderly.next hcond.2
    refine ⟨⟨ha.orderly, h.phase.asked ha⟩, rfl, ha.returned, ?_⟩
    simpa only [toChannel, ha.expected] using ha.channel _
  · cases hs

/-! ## Runs -/

/-- A step is one of the worker and the loop thread, or a call of `next`. -/
theorem Flow.step_cases (h : Flow c s) {l : StreamLabel} (hs : step c s l = some s') :
    (l ≠ .next ∧ Advance c s s') ∨ (l = .next ∧ s.next = some s') := by
  cases l with
  | start => exact .inl ⟨by simp, h.start hs⟩
  | report => exact .inl ⟨by simp, h.report hs⟩
  | dispatch => exact .inl ⟨by simp, h.dispatch hs⟩
  | ret => exact .inl ⟨by simp, h.ret hs⟩
  | future => exact .inl ⟨by simp, h.future hs⟩
  | consumed => exact .inl ⟨by simp, h.consumed hs⟩
  | finish => exact .inl ⟨by simp, h.finish hs⟩
  | afterWork => exact .inl ⟨by simp, h.afterWork hs⟩
  | next => exact .inr ⟨rfl, hs⟩

theorem Flow.step (h : Flow c s) {l : StreamLabel} (hs : StreamState.step c s l = some s') :
    Flow c s' := by
  rcases h.step_cases hs with ⟨-, ha⟩ | ⟨-, hn⟩
  · exact ha.flow
  · exact (h.next hn).1

theorem flow_reachable (h : (stream c).Reachable s) : Flow c s :=
  h.invariant (flow_init c) fun _ _ _ hi hs => hi.step hs

/-- **A stream is a channel for its items and the end marker.** -/
def refinement (c : StreamCall α) :
    Machine.Refinement (stream c) (channel c.expected) (Flow c) where
  abs := toChannel c
  init := rfl
  step := by
    intro s l s' h hs
    rcases h.step_cases hs with ⟨-, ha⟩ | ⟨-, hn⟩
    · exact ha.channel
    · exact (h.next hn).2.2.2.imp_right fun hk => ⟨.accept, hk⟩

theorem answers_isPrefix (h : (stream c).Reachable s) : s.tr.answers <+: c.expected :=
  Channel.received_prefix ((refinement c).reachable (fun _ => flow_reachable) h)

theorem Flow.completed_cases (h : Flow c s) :
    (s.completed = s.tr.expected.length ∧ s.tr.it.resolverFulfilled = false) ∨
      s.completed + 1 = s.tr.expected.length := by
  have hp := h.phase
  cases hw : s.worker <;> cases hl : s.loop <;> simp only [Phase, hw, hl] at hp
  · exact .inl ⟨hp.completed, hp.free.empty⟩
  · exact .inl ⟨hp.completed, hp.free.empty⟩
  · exact hp.imp (fun hp => ⟨hp.completed, hp.free.empty⟩) (·.completed)
  · exact .inr hp.completed
  · exact .inr hp.1.completed
  · exact hp.imp (fun hp => ⟨hp.completed, hp.free.empty⟩) (·.completed)
  · exact .inr hp.completed

/-- The worker has returned to libsvn only from items that were received. -/
theorem Flow.completed_le (h : Flow c s) : s.completed ≤ s.tr.answers.length := by
  have hlen := h.orderly.length_answers
  rcases h.completed_cases with ⟨hc, hf⟩ | hc
  · rw [hf] at hlen
    simp only [Bool.false_eq_true, if_false] at hlen
    omega
  · split at hlen <;> omega

/-- No call fails, and no exception leaves the after-work step. -/
theorem Flow.no_failure (h : Flow c s) :
    (∀ e, s.worker ≠ .failing e) ∧ (∀ e, s.worker ≠ .unwound e) ∧ s.loop ≠ .crashed := by
  have hp := h.phase
  cases hw : s.worker <;> cases hl : s.loop <;> simp only [Phase, hw, hl] at hp <;> simp

/-- Nothing is stored when `end` or `reject` is called. -/
theorem Flow.afterWork_empty (h : Flow c s) (he : (stream c).Enabled s .afterWork) :
    s.tr.it.resolverFulfilled = false := by
  obtain ⟨s', hs⟩ := Option.isSome_iff_exists.mp he
  change s.afterWork = some s' at hs
  simp only [StreamState.afterWork] at hs
  split at hs
  · rename_i r hl hj
    exact (h.finished hl hj).2.free.empty
  · cases hs

/-! ## Progress -/

/-- The job is done and `end` or `reject` has returned. -/
def Done (c : StreamCall α) (s : StreamState α) : Prop :=
  s.worker = .finished ∧ s.loop = .idle ∧ s.job = none ∧ s.tr.expected = c.expected

/-- The worker waits for the consumer to take the stored item. -/
def Waits (s : StreamState α) : Prop :=
  (∃ f, s.worker = .consume f) ∧ s.tr.it.resolverFulfilled = true

/-- Worker and loop thread can go on unless the consumer has to, or all is done. -/
theorem Flow.enabled (h : Flow c s) :
    (∃ l, l ≠ .next ∧ (stream c).Enabled s l) ∨ Waits s ∨ Done c s := by
  have hp := h.phase
  cases hw : s.worker <;> cases hl : s.loop <;> simp only [Phase, hw, hl] at hp
  · exact .inl ⟨.start, by simp, by simp [Machine.Enabled, stream, StreamState.step, hw]⟩
  · left
    cases ht : s.todo with
    | nil =>
      exact ⟨.finish, by simp, by
        simp [Machine.Enabled, stream, StreamState.step, StreamState.finish, hw, ht]⟩
    | cons a todo =>
      obtain ⟨async, hcall, -⟩ := hp.idle.call caller a
      refine ⟨.report, by simp, ?_⟩
      simp only [Machine.Enabled, stream, StreamState.step, StreamState.report, hw, ht, hcall]
      split <;> rfl
  · left
    rcases hp with hp | hp
    · obtain ⟨a, hcalled, -⟩ := hp.called
      obtain ⟨async, hd, -⟩ := hcalled.dispatch
      obtain ⟨tr, hprod, -⟩ := h.orderly.produce hp.free (e := .yield (.item a)) rfl
      exact ⟨.dispatch, by simp, by
        simp [Machine.Enabled, stream, StreamState.step, StreamState.dispatch, hl, hd, hprod]⟩
    · exact ⟨.future, by simp, by
        simp [Machine.Enabled, stream, StreamState.step, StreamState.future, hw,
          hp.answered.2.2]⟩
  · exact .inl ⟨.ret, by simp, by
      simp [Machine.Enabled, stream, StreamState.step, StreamState.ret, hl]⟩
  · obtain ⟨hgot, rfl⟩ := hp
    cases hf : s.tr.it.resolverFulfilled with
    | true => exact .inr (.inl ⟨⟨_, hw⟩, hf⟩)
    | false =>
      exact .inl ⟨.consumed, by simp, by
        simp [Machine.Enabled, stream, StreamState.step, StreamState.consumed, hw,
          hgot.futureResult h, hf]⟩
  · rcases hp with hp | hp
    · obtain ⟨e, hev, he, -⟩ := afterWorkEvent_workResult c
      obtain ⟨tr, hprod, -⟩ := h.orderly.produce hp.free he
      exact .inl ⟨.afterWork, by simp, by
        simp [Machine.Enabled, stream, StreamState.step, StreamState.afterWork, hl, hp.job, hev,
          hprod]⟩
    · exact .inr (.inr ⟨hw, hl, hp.job, hp.expected⟩)
  · left
    obtain ⟨tr, hret, -⟩ := h.orderly.return_ hp.active
    exact ⟨.ret, by simp, by
      simp [Machine.Enabled, stream, StreamState.step, StreamState.ret, hl, hret]⟩

/-- There is only `next` where the worker waits for the consumer, or all is done. -/
theorem Flow.next_of_rests (h : Flow c s) {l : StreamLabel}
    (hr : Waits s ∨ s.worker = .finished ∧ s.job = none ∧ s.loop = .idle)
    (hs : StreamState.step c s l = some s') : l = .next := by
  have hp := h.phase
  have hl : s.loop = .idle := by
    rcases hr with ⟨⟨f, hw⟩, -⟩ | ⟨-, -, hl⟩
    · cases hl : s.loop <;> simp only [Phase, hw, hl] at hp
      rfl
    · exact hl
  have hworker : (∃ f, s.worker = .consume f) ∨ s.worker = .finished := hr.imp (·.1) (·.1)
  cases l with
  | next => rfl
  | start =>
    rcases hworker with ⟨f, hw⟩ | hw <;> simp [StreamState.step, hw] at hs
  | report =>
    rcases hworker with ⟨f, hw⟩ | hw <;> simp [StreamState.step, StreamState.report, hw] at hs
  | future =>
    rcases hworker with ⟨f, hw⟩ | hw <;> simp [StreamState.step, StreamState.future, hw] at hs
  | finish =>
    rcases hworker with ⟨f, hw⟩ | hw <;> simp [StreamState.step, StreamState.finish, hw] at hs
  | ret => simp [StreamState.step, StreamState.ret, hl] at hs
  | dispatch =>
    change s.dispatch = some s' at hs
    simp only [StreamState.dispatch] at hs
    split at hs
    · rename_i hd
      have hcall := (h.sent hl hd).1
      rcases hworker with ⟨f, hw⟩ | hw <;> rw [hw] at hcall <;> cases hcall
    · cases hs
  | consumed =>
    change s.consumed c = some s' at hs
    rcases hr with ⟨⟨f, hw⟩, hf⟩ | ⟨hw, -, -⟩
    · simp only [Phase, hw, hl] at hp
      obtain ⟨hgot, rfl⟩ := hp
      simp [StreamState.consumed, hw, hgot.futureResult h, hf] at hs
    · simp [StreamState.consumed, hw] at hs
  | afterWork =>
    change s.afterWork = some s' at hs
    simp only [StreamState.afterWork] at hs
    split at hs
    · rename_i r _ hj
      have hfin := h.finished hl hj
      rcases hr with ⟨⟨f, hw⟩, -⟩ | ⟨-, hnone, -⟩
      · rw [hw] at hfin
        cases hfin.1
      · rw [hnone] at hj
        cases hj
    · cases hs

theorem Flow.next_enabled (h : Flow c s) (hf : s.tr.it.resolverFulfilled = true) :
    (stream c).Enabled s .next := by
  have hl := h.orderly.linked.lastSettled_of_stored hf
  simp [Machine.Enabled, stream, StreamState.step, StreamState.next, hl, h.no_failure.2.2]

/-- While something was not received, some step is enabled. -/
theorem Flow.progress (h : Flow c s) (hne : s.tr.answers ≠ c.expected) :
    ∃ l, (stream c).Enabled s l := by
  rcases h.enabled with ⟨l, -, hl⟩ | hw | hd
  · exact ⟨l, hl⟩
  · exact ⟨.next, h.next_enabled hw.2⟩
  · refine ⟨.next, h.next_enabled ?_⟩
    by_contra hf
    exact hne ((h.orderly.answers_of_empty (Bool.not_eq_true _ ▸ hf)).trans hd.2.2.2)

/-- A bound for the steps that are left. -/
def stepsLeft (c : StreamCall α) (s : StreamState α) : Nat :=
  s.workLeft + (c.expected.length + 1 - s.tr.returned.length)

theorem Flow.stepsLeft_lt (h : Flow c s) (hr : (stream c).Reachable s) {l : StreamLabel}
    (hs : StreamState.step c s l = some s') : stepsLeft c s' < stepsLeft c s := by
  unfold stepsLeft
  rcases h.step_cases hs with ⟨-, ha⟩ | ⟨-, hn⟩
  · rw [ha.returned]
    have := ha.less
    omega
  · obtain ⟨hflow, hwork, hret, -⟩ := h.next hn
    have hle := (answers_isPrefix (hr.step (l := l) hs)).length_le
    have := hflow.orderly.length_returned
    omega

theorem stepsLeft_init_le (c : StreamCall α) : stepsLeft c c.init ≤ 6 * c.items.length + 6 := by
  have hexp : c.expected.length ≤ c.items.length + 1 := by
    rw [StreamCall.expected, List.length_append, List.length_map]
    exact Nat.add_le_add_right (c.length_delivered_le c.items) 1
  show 5 * c.items.length + 4 + (c.expected.length + 1) ≤ _
  omega

theorem length_le {ls : List StreamLabel} (h : (stream c).run c.init ls = some s) :
    ls.length ≤ 6 * c.items.length + 6 := by
  have hle := Machine.run_length_le (M := stream c) (I := (stream c).Reachable) (stepsLeft c)
    (fun s l s' hr hs => ⟨hr.step hs, (flow_reachable hr).stepsLeft_lt hr hs⟩) .refl h
  have hinit : stepsLeft c (stream c).init ≤ 6 * c.items.length + 6 := stepsLeft_init_le c
  omega

/-- **The stream law.**  Whatever order worker, loop thread and consumer take their steps
in, the promises of `next` receive the items and then the end marker, each once and in
order; the worker returns from an item after it was received; nothing is stored when the
stream ends; no call fails; and a run, which is finite, stops only after the marker. -/
theorem stream_law (c : StreamCall α) {ls : List StreamLabel} {s : StreamState α}
    (h : (stream c).run c.init ls = some s) :
    s.tr.answers <+: c.expected ∧
      s.tr.returned.Nodup ∧
      (s.tr.returned.map s.tr.it.stateOf = s.tr.answers.map some ∨
        s.tr.returned.map s.tr.it.stateOf = s.tr.answers.map some ++ [none]) ∧
      s.completed ≤ s.tr.answers.length ∧
      ((stream c).Enabled s .afterWork → s.tr.it.resolverFulfilled = false) ∧
      ((∀ e, s.worker ≠ .failing e) ∧ (∀ e, s.worker ≠ .unwound e) ∧ s.loop ≠ .crashed) ∧
      (s.tr.answers ≠ c.expected → ∃ l, (stream c).Enabled s l) ∧
      ls.length ≤ 6 * c.items.length + 6 := by
  have hr : (stream c).Reachable s := ⟨ls, h⟩
  have hf := flow_reachable hr
  exact ⟨answers_isPrefix hr, hf.orderly.nodup, hf.orderly.linked.returned_map hf.orderly.toInv,
    hf.completed_le, hf.afterWork_empty, hf.no_failure, hf.progress, length_le h⟩

/-- `status` with one item. -/
def statusOfOne : StreamCall Nat := ⟨.status, fun _ => false, [7], .ok ()⟩

/-- The consumer takes the item within `RunMicrotasks`, asks again before the end, and has both. -/
theorem stream_law_one_item :
    ∃ s, (stream statusOfOne).run statusOfOne.init
        [.start, .report, .dispatch, .next, .ret, .future, .consumed, .finish, .next, .afterWork,
          .ret] = some s ∧
      s.tr.answers = [.fulfilled (some (.item 7)) false, .fulfilled none true] ∧
      s.tr.answers <+: statusOfOne.expected ∧ s.completed ≤ s.tr.answers.length := by
  refine ⟨_, (Option.some_get rfl).symm, rfl, ?_⟩
  obtain ⟨hpre, -, -, hcompleted, -⟩ := stream_law statusOfOne (Option.some_get (x :=
    (stream statusOfOne).run statusOfOne.init [.start, .report, .dispatch, .next, .ret, .future,
      .consumed, .finish, .next, .afterWork, .ret]) rfl).symm
  exact ⟨hpre, hcompleted⟩

end StreamState

end NodeSvn
