import Mathlib.Data.List.TakeWhile
import NodeSvn.Node.Delivery
import NodeSvn.Node.StreamLaw

/-!
# A stream with a report that cannot be delivered

A report may fail on its way to the iterator, and never with an `svn_error`:

    unwinds   the trampoline converts it outside of `callback_data::invoke`
    fails     the worker throws inside of it, before `uv::async`
    throws    the callback throws on the loop thread, and the worker gets that
    aborts    V8 ends the process

`reporting c` is `stream c` with these.  The consumer then receives what was reported before the
first such report, and neither an error nor the end marker (`reporting_law`).  For the
reports of libsvn this is what `Report.deliver` makes of the longest deliverable prefix
(`reported_law`).
-/

namespace NodeSvn

/-! ## The machine -/

/-- What becomes of a report on its way to the iterator. -/
inductive Fate where
  | item
  | unwinds (e : Exn)
  | fails (e : Exn)
  | throws (e : Exn)
  | aborts
  deriving DecidableEq, Repr

/-- The exceptions that it raises. -/
def Fate.raises : Fate → Option Exn
  | .unwinds e => some e
  | .fails e => some e
  | .throws e => some e
  | _ => none

structure ReportingCall (α : Type) extends StreamCall α where
  fate : α → Fate
  /-- no conversion throws an `svn_error` -/
  foreign : ∀ a e, (fate a).raises = some e → e.asSvnError = none

variable {α : Type}

namespace ReportingCall

/-- It is not to be delivered, or is. -/
def good (c : ReportingCall α) (a : α) : Bool := c.omits a || c.fate a = .item

/-- What the consumer is to receive. -/
def shown (c : ReportingCall α) : List (Settlement (StreamValue α)) :=
  StreamState.itemsOf c.toStreamCall (c.items.takeWhile c.good) ++
    if c.items.all c.good then [c.marker] else []

def report (c : ReportingCall α) (s : StreamState α) : Option (StreamState α) :=
  match s.worker, s.todo with
  | .libsvn, a :: todo =>
    if c.skips a then s.report c.toStreamCall
    else
      match c.fate a with
      | .unwinds e => some { s with worker := .unwound e, todo := todo }
      | .fails e => some { s with worker := c.op.threw e, todo := todo }
      | _ => s.report c.toStreamCall
  | _, _ => none

def dispatch (c : ReportingCall α) (s : StreamState α) : Option (StreamState α) :=
  match s.loop, s.async.dispatch with
  | .idle, some (w, a, async) =>
    match c.fate a with
    | .throws e => some { s with async := async.setResult w (.error e) }
    | .aborts => some { s with async := async, loop := .crashed }
    | _ => s.dispatch
  | _, _ => none

def step (c : ReportingCall α) (s : StreamState α) : StreamLabel → Option (StreamState α)
  | .report => c.report s
  | .dispatch => c.dispatch s
  | l => StreamState.step c.toStreamCall s l

end ReportingCall

def reporting (c : ReportingCall α) : Machine (StreamState α) StreamLabel where
  init := c.init
  step := c.step

namespace ReportingCall

open StreamState (caller itemsOf Flow)

variable {c : ReportingCall α} {s s' : StreamState α} {done : List α} {a : α} {l : StreamLabel}

/-! ## The reports so far -/

theorem good_iff (c : ReportingCall α) (a : α) :
    c.good a = true ↔ c.skips a = true ∨ c.fate a = .item := by
  simp [good, StreamCall.skips_eq_omits]

theorem itemsOf_append (c : StreamCall α) (xs ys : List α) :
    itemsOf c (xs ++ ys) = itemsOf c xs ++ itemsOf c ys := by
  simp [itemsOf, StreamCall.delivered_eq_filter]

theorem mem_itemsOf {c : StreamCall α} {xs : List α}
    (h : StreamCall.itemSettlement a ∈ itemsOf c xs) : a ∈ xs ∧ c.skips a = false := by
  obtain ⟨b, hb, hab⟩ := List.mem_map.mp h
  obtain rfl : b = a := by simpa [StreamCall.itemSettlement] using hab
  rw [StreamCall.delivered_eq_filter, List.mem_filter] at hb
  exact ⟨hb.1, by simpa using hb.2⟩

/-- The deliverable prefix ends before a report that is not. -/
theorem takeWhile_bad {rest : List α} (hitems : c.items = done ++ a :: rest)
    (hdone : ∀ b ∈ done, c.good b = true) (hbad : c.good a = false) :
    c.items.takeWhile c.good = done ∧ c.items.all c.good = false := by
  rw [hitems]
  constructor
  · rw [List.takeWhile_append_of_pos hdone, List.takeWhile_cons_of_neg (by simp [hbad]),
      List.append_nil]
  · simp [hbad]

theorem shown_of_bad {rest : List α} (hitems : c.items = done ++ a :: rest)
    (hdone : ∀ b ∈ done, c.good b = true) (hbad : c.good a = false) :
    c.shown = itemsOf c.toStreamCall done := by
  obtain ⟨htake, hall⟩ := takeWhile_bad hitems hdone hbad
  rw [shown, htake, hall]
  simp

theorem shown_of_all (h : ∀ b ∈ c.items, c.good b = true) : c.shown = c.expected := by
  rw [shown, List.takeWhile_eq_self_iff.mpr h, if_pos (List.all_eq_true.mpr h)]
  rfl

/-- What was reported is shown. -/
theorem itemsOf_isPrefix_shown {rest : List α} (hitems : c.items = done ++ rest)
    (hdone : ∀ b ∈ done, c.good b = true) : itemsOf c.toStreamCall done <+: c.shown := by
  refine List.IsPrefix.trans ?_ (List.prefix_append _ _)
  rw [hitems, List.takeWhile_append_of_pos hdone, itemsOf_append]
  exact List.prefix_append _ _

/-! ## Where a broken stream is -/

/-- From the report that is not delivered on. -/
inductive Stage (c : ReportingCall α) (s : StreamState α) : Prop
  | sent (a : α) (hw : s.worker = .call) (hl : s.loop = .idle) (hj : s.job = none)
      (hcalled : s.async.Called caller a)
      (hfate : (∃ e, c.fate a = .throws e) ∨ c.fate a = .aborts)
  | answered (e : Exn) (hw : s.worker = .call) (hl : s.loop = .idle) (hj : s.job = none)
      (hanswered : s.async.Answered caller (.error e)) (he : e.asSvnError = none)
  | failing (e : Exn) (hw : s.worker = .failing e) (hl : s.loop = .idle) (hj : s.job = none)
      (hquiet : s.async.pending = false) (he : e.asSvnError = none)
  /-- the exception is on its way through libsvn -/
  | unwound (e : Exn) (hw : s.worker = .unwound e) (hl : s.loop = .idle) (hj : s.job = none)
      (hquiet : s.async.pending = false)
  | finished (e : Exn) (hw : s.worker = .finished) (hl : s.loop = .idle)
      (hj : s.job = some (.error e)) (hquiet : s.async.pending = false) (he : e.asSvnError = none)
  /-- the process is gone -/
  | crashed (hw : s.worker = .finished ∨ s.worker = .call ∧ s.async.Serving caller)
      (hl : s.loop = .crashed)

structure Broken (c : ReportingCall α) (s : StreamState α) : Prop where
  orderly : s.tr.Orderly
  empty : s.tr.it.resolverFulfilled = false
  expected : s.tr.expected = c.shown
  bad : c.items.all c.good = false
  stage : c.Stage s

/-- The stream goes on, and `done` was delivered. -/
structure Flows (c : ReportingCall α) (done : List α) (s : StreamState α) : Prop where
  reachable : (stream c.toStreamCall).Reachable s
  items : c.items = done ++ s.todo
  good : ∀ b ∈ done, c.good b = true
  finished : s.worker = .finished → s.todo = []

def Course (c : ReportingCall α) (s : StreamState α) : Prop :=
  (∃ done, c.Flows done s) ∨ c.Broken s

/-- The steps of worker and loop thread that a broken stream has left. -/
def brokenLeft (s : StreamState α) : Nat :=
  match s.worker with
  | .call => if s.async.pending then 5 else 4
  | .failing _ => 3
  | .finished => if s.job.isSome then 2 else 1
  | _ => 0

/-- A step that does not touch the iterator. -/
theorem Broken.advance (h : c.Broken s) (htr : s'.tr = s.tr) (hstage : c.Stage s') :
    c.Broken s' :=
  ⟨htr ▸ h.orderly, htr ▸ h.empty, htr ▸ h.expected, h.bad, hstage⟩

theorem dispatch_of_quiet (h : s.async.pending = false) : s.async.dispatch = none := by
  simp [Async.dispatch, h]

theorem Broken.step (h : c.Broken s) (hs : c.step s l = some s') :
    (l = .next ∧ s.next = some s') ∨
      (c.Broken s' ∧ s'.tr = s.tr ∧ brokenLeft s' < brokenLeft s) := by
  cases h.stage with
  | sent a hw hl hj hcalled hfate =>
    have hres : s.async.result caller = none := Async.result_waiting hcalled.2.2.2
    cases l with
    | next => exact .inl ⟨rfl, hs⟩
    | dispatch =>
      obtain ⟨async, hd, hserving⟩ := hcalled.dispatch
      right
      rcases hfate with ⟨e, he⟩ | he
      · simp only [ReportingCall.step, ReportingCall.dispatch, hl, hd, he] at hs
        obtain rfl := Option.some.inj hs
        have hanswered := hserving.setResult (.error e)
        refine ⟨h.advance rfl (.answered e hw rfl hj hanswered (c.foreign a e (by rw [he]; rfl))),
          rfl, ?_⟩
        simp [brokenLeft, hw, hanswered.2.1, hcalled.2.1]
      · simp only [ReportingCall.step, ReportingCall.dispatch, hl, hd, he] at hs
        obtain rfl := Option.some.inj hs
        refine ⟨h.advance rfl (.crashed (.inr ⟨hw, hserving⟩) rfl), rfl, ?_⟩
        simp [brokenLeft, hw, hserving.2.1, hcalled.2.1]
    | start | report | ret | future | consumed | finish | afterWork =>
      simp [ReportingCall.step, ReportingCall.report, StreamState.step, StreamState.ret,
        StreamState.future, StreamState.consumed, StreamState.finish, StreamState.afterWork, hw, hl,
        hj, hres] at hs
  | answered e hw hl hj hanswered he =>
    have hd := dispatch_of_quiet hanswered.2.1
    cases l with
    | next => exact .inl ⟨rfl, hs⟩
    | future =>
      right
      simp only [ReportingCall.step, StreamState.step, StreamState.future, hw,
        hanswered.2.2] at hs
      obtain rfl := Option.some.inj hs
      have hquiet := hanswered.leave.2
      refine ⟨h.advance rfl ?_, rfl, ?_⟩
      · rcases Operation.threw_cases c.op e with ht | ht
        · exact .failing e ht hl hj hquiet he
        · exact .unwound e ht hl hj hquiet
      · rcases Operation.threw_cases c.op e with ht | ht <;>
          simp [brokenLeft, hw, ht, hanswered.2.1]
    | start | report | dispatch | ret | consumed | finish | afterWork =>
      simp [ReportingCall.step, ReportingCall.report, ReportingCall.dispatch, StreamState.step,
        StreamState.ret, StreamState.consumed, StreamState.finish, StreamState.afterWork, hw, hl,
        hj, hd] at hs
  | failing e hw hl hj hquiet he =>
    have hd := dispatch_of_quiet hquiet
    cases l with
    | next => exact .inl ⟨rfl, hs⟩
    | finish =>
      right
      simp only [ReportingCall.step, StreamState.step, StreamState.finish, hw] at hs
      obtain rfl := Option.some.inj hs
      refine ⟨h.advance rfl (.finished e rfl hl rfl hquiet he), rfl, ?_⟩
      simp [brokenLeft, hw]
    | start | report | dispatch | ret | future | consumed | afterWork =>
      simp [ReportingCall.step, ReportingCall.report, ReportingCall.dispatch, StreamState.step,
        StreamState.ret, StreamState.future, StreamState.consumed, StreamState.afterWork, hw, hl,
        hj, hd] at hs
  | unwound e hw hl hj hquiet =>
    have hd := dispatch_of_quiet hquiet
    cases l with
    | next => exact .inl ⟨rfl, hs⟩
    | start | report | dispatch | ret | future | consumed | finish | afterWork =>
      simp [ReportingCall.step, ReportingCall.report, ReportingCall.dispatch, StreamState.step,
        StreamState.ret, StreamState.future, StreamState.consumed, StreamState.finish,
        StreamState.afterWork, hw, hl, hj, hd] at hs
  | finished e hw hl hj hquiet he =>
    have hd := dispatch_of_quiet hquiet
    cases l with
    | next => exact .inl ⟨rfl, hs⟩
    | afterWork =>
      right
      simp only [ReportingCall.step, StreamState.step, StreamState.afterWork, hl, hj,
        afterWorkEvent, he, Option.map_none] at hs
      obtain rfl := Option.some.inj hs
      refine ⟨h.advance rfl (.crashed (.inl hw) rfl), rfl, ?_⟩
      simp [brokenLeft, hw, hj]
    | start | report | dispatch | ret | future | consumed | finish =>
      simp [ReportingCall.step, ReportingCall.report, ReportingCall.dispatch, StreamState.step,
        StreamState.ret, StreamState.future, StreamState.consumed, StreamState.finish, hw, hl,
        hd] at hs
  | crashed hw hl =>
    rcases hw with hw | ⟨hw, hserving⟩
    · cases l <;>
        simp [ReportingCall.step, ReportingCall.report, ReportingCall.dispatch, StreamState.step,
          StreamState.ret, StreamState.future, StreamState.consumed, StreamState.finish,
          StreamState.afterWork, StreamState.next, hw, hl] at hs
    · obtain ⟨-, -, arg, hframe⟩ := hserving
      have hres : s.async.result caller = none := Async.result_waiting hframe
      cases l <;>
        simp [ReportingCall.step, ReportingCall.report, ReportingCall.dispatch, StreamState.step,
          StreamState.ret, StreamState.future, StreamState.consumed, StreamState.finish,
          StreamState.afterWork, StreamState.next, hw, hl, hres] at hs

/-- A call of `next` finds nothing, and waits for good. -/
theorem Broken.next (h : c.Broken s) (hs : s.next = some s') :
    c.Broken s' ∧ s'.tr.returned.length = s.tr.returned.length + 1 ∧
      brokenLeft s' = brokenLeft s := by
  simp only [StreamState.next] at hs
  split at hs
  · rename_i hcond
    obtain rfl := Option.some.inj hs
    have ha := h.orderly.next hcond.2
    refine ⟨⟨ha.orderly, ha.empty h.empty, ha.expected.trans h.expected, h.bad, ?_⟩, ha.returned,
      rfl⟩
    cases h.stage with
    | sent a hw hl hj hcalled hfate => exact .sent a hw hl hj hcalled hfate
    | answered e hw hl hj hanswered he => exact .answered e hw hl hj hanswered he
    | failing e hw hl hj hquiet he => exact .failing e hw hl hj hquiet he
    | unwound e hw hl hj hquiet => exact .unwound e hw hl hj hquiet
    | finished e hw hl hj hquiet he => exact .finished e hw hl hj hquiet he
    | crashed hw hl => exact .crashed hw hl
  · cases hs

/-! ## Up to the first report that is not delivered -/

theorem threw_ne_finished (op : Operation) (e : Exn) : op.threw e ≠ .finished := by
  rcases Operation.threw_cases op e with h | h <;> simp [h]

/-- Only `report` takes a report, and only `finish` ends the work. -/
theorem kept_of_step (hl : l ≠ .report) (hl' : l ≠ .finish)
    (hs : StreamState.step c.toStreamCall s l = some s') :
    s'.todo = s.todo ∧ (s'.worker = .finished → s.worker = .finished) := by
  cases l with
  | report => exact absurd rfl hl
  | finish => exact absurd rfl hl'
  | start =>
    simp only [StreamState.step] at hs
    split at hs
    · obtain rfl := Option.some.inj hs
      exact ⟨rfl, fun h => (by cases h)⟩
    · cases hs
  | dispatch =>
    simp only [StreamState.step, StreamState.dispatch] at hs
    split at hs
    · split at hs <;> obtain rfl := Option.some.inj hs <;> exact ⟨rfl, id⟩
    · cases hs
  | ret =>
    simp only [StreamState.step, StreamState.ret] at hs
    split at hs
    · obtain rfl := Option.some.inj hs
      exact ⟨rfl, id⟩
    · split at hs <;> obtain rfl := Option.some.inj hs <;> exact ⟨rfl, id⟩
    · cases hs
  | future =>
    simp only [StreamState.step, StreamState.future] at hs
    split at hs
    · obtain rfl := Option.some.inj hs
      exact ⟨rfl, fun h => (by cases h)⟩
    · obtain rfl := Option.some.inj hs
      exact ⟨rfl, fun h => absurd h (threw_ne_finished c.op _)⟩
    · cases hs
  | consumed =>
    simp only [StreamState.step, StreamState.consumed] at hs
    split at hs
    · split at hs
      · obtain rfl := Option.some.inj hs
        exact ⟨rfl, fun h => (by cases h)⟩
      · obtain rfl := Option.some.inj hs
        exact ⟨rfl, fun h => absurd h (threw_ne_finished c.op _)⟩
      · cases hs
    · cases hs
  | afterWork =>
    simp only [StreamState.step, StreamState.afterWork] at hs
    split at hs
    · split at hs
      · obtain rfl := Option.some.inj hs
        exact ⟨rfl, id⟩
      · split at hs <;> obtain rfl := Option.some.inj hs <;> exact ⟨rfl, id⟩
    · cases hs
  | next =>
    simp only [StreamState.step, StreamState.next] at hs
    split at hs
    · obtain rfl := Option.some.inj hs
      exact ⟨rfl, id⟩
    · cases hs

theorem Flows.flow (h : c.Flows done s) : Flow c.toStreamCall s :=
  StreamState.flow_reachable h.reachable

/-- In libsvn the iterator has everything that was reported. -/
theorem Flows.libsvn (h : c.Flows done s) (hw : s.worker = .libsvn) :
    s.loop = .idle ∧ StreamState.Between c.toStreamCall s ∧
      s.tr.expected = itemsOf c.toStreamCall done := by
  have hp := h.flow.phase
  cases hl : s.loop <;> simp only [StreamState.Phase, hw, hl] at hp
  refine ⟨rfl, hp, ?_⟩
  have hacc := hp.accounted
  rw [StreamState.Accounted, List.append_nil, h.items, itemsOf_append] at hacc
  exact List.append_cancel_right hacc

/-- The item that was sent is one of those reported. -/
theorem Flows.sent (h : c.Flows done s) {w : Nat} {async : Async α Nat} (hl : s.loop = .idle)
    (hd : s.async.dispatch = some (w, a, async)) : c.fate a = .item := by
  obtain ⟨-, -, hsent⟩ := h.flow.sent hl hd
  obtain ⟨b, hcalled, hacc⟩ := hsent.called
  obtain ⟨async', hd', -⟩ := hcalled.dispatch
  rw [hd] at hd'
  obtain ⟨-, rfl, -⟩ : w = caller ∧ a = b ∧ async = async' := by simpa using hd'
  rw [StreamState.Accounted, h.items, itemsOf_append] at hacc
  have hsplit := List.append_cancel_right hacc
  have hmem : StreamCall.itemSettlement a ∈ itemsOf c.toStreamCall done := by
    rw [← hsplit]
    exact List.mem_append_right _ (List.mem_singleton_self _)
  obtain ⟨hdone', hskip⟩ := mem_itemsOf hmem
  rcases (c.good_iff a).mp (h.good a hdone') with hgood | hgood
  · rw [hskip] at hgood
    cases hgood
  · exact hgood

/-- What `report` of the stream does. -/
theorem report_cases {todo : List α} (hf : Flow c.toStreamCall s) (hw : s.worker = .libsvn)
    (ht : s.todo = a :: todo) (hs : s.report c.toStreamCall = some s') :
    s'.todo = todo ∧ s'.tr = s.tr ∧ s'.job = s.job ∧ s'.loop = s.loop ∧
      (c.skips a = true ∧ s'.worker = .libsvn ∨
        c.skips a = false ∧ s'.worker = .call ∧ s'.async.Called caller a) := by
  have hp := hf.phase
  cases hl : s.loop <;> simp only [StreamState.Phase, hw, hl] at hp
  simp only [StreamState.report, hw, ht] at hs
  split at hs
  · rename_i hskip
    obtain rfl := Option.some.inj hs
    exact ⟨rfl, rfl, rfl, hl, .inl ⟨hskip, rfl⟩⟩
  · rename_i hskip
    obtain ⟨async, hcall, hcalled⟩ := hp.idle.call caller a
    rw [hcall] at hs
    obtain rfl := Option.some.inj hs
    exact ⟨rfl, rfl, rfl, hl, .inr ⟨by simpa using hskip, rfl, hcalled⟩⟩

theorem Flows.report (h : c.Flows done s) (hs : c.report s = some s') :
    (s.report c.toStreamCall = some s' ∧ ∃ done', c.Flows done' s') ∨ c.Broken s' := by
  simp only [ReportingCall.report] at hs
  split at hs
  · rename_i a todo hw ht
    obtain ⟨hl, hbetween, hexp⟩ := h.libsvn hw
    have hitems := h.items
    rw [ht] at hitems
    have hflows : c.good a = true → s.report c.toStreamCall = some s' →
        s.report c.toStreamCall = some s' ∧ ∃ done', c.Flows done' s' := by
      intro hgood hs
      obtain ⟨htodo, -, -, -, hworker⟩ := report_cases h.flow hw ht hs
      refine ⟨hs, done ++ [a], h.reachable.step (l := .report) hs, ?_, ?_, fun hfin => ?_⟩
      · rw [htodo, List.append_assoc]
        exact hitems
      · exact List.forall_mem_append.mpr ⟨h.good, List.forall_mem_singleton.mpr hgood⟩
      · rcases hworker with ⟨-, hw'⟩ | ⟨-, hw', -⟩
        · rw [hw'] at hfin
          cases hfin
        · rw [hw'] at hfin
          cases hfin
    have hbroken : c.good a = false → s'.tr = s.tr → c.Stage s' → c.Broken s' := by
      intro hbad htr hstage
      refine ⟨htr ▸ h.flow.orderly, htr ▸ hbetween.free.empty, ?_,
        (takeWhile_bad hitems h.good hbad).2, hstage⟩
      rw [htr, hexp, shown_of_bad hitems h.good hbad]
    split at hs
    · rename_i hskip
      exact .inl (hflows ((c.good_iff a).mpr (.inl hskip)) hs)
    · rename_i hskip
      have hbad : c.fate a ≠ .item → c.good a = false := by
        intro hne
        simp [ReportingCall.good, ← StreamCall.skips_eq_omits, hskip, hne]
      cases hfate : c.fate a with
      | item =>
        rw [hfate] at hs
        exact .inl (hflows ((c.good_iff a).mpr (.inr hfate)) hs)
      | unwinds e =>
        rw [hfate] at hs
        obtain rfl := Option.some.inj hs
        exact .inr (hbroken (hbad (by simp [hfate])) rfl
          (.unwound e rfl hl hbetween.job hbetween.idle.2))
      | fails e =>
        rw [hfate] at hs
        obtain rfl := Option.some.inj hs
        refine .inr (hbroken (hbad (by simp [hfate])) rfl ?_)
        have he := c.foreign a e (by rw [hfate]; rfl)
        rcases Operation.threw_cases c.op e with hthrew | hthrew
        · exact .failing e hthrew hl hbetween.job hbetween.idle.2 he
        · exact .unwound e hthrew hl hbetween.job hbetween.idle.2
      | throws e =>
        rw [hfate] at hs
        obtain ⟨-, htr, hj, hl', hworker⟩ := report_cases h.flow hw ht hs
        rcases hworker with ⟨hskip', -⟩ | ⟨-, hw', hcalled⟩
        · exact absurd hskip' hskip
        · exact .inr (hbroken (hbad (by simp [hfate])) htr (.sent a hw' (hl'.trans hl)
            (hj.trans hbetween.job) hcalled (.inl ⟨e, hfate⟩)))
      | aborts =>
        rw [hfate] at hs
        obtain ⟨-, htr, hj, hl', hworker⟩ := report_cases h.flow hw ht hs
        rcases hworker with ⟨hskip', -⟩ | ⟨-, hw', hcalled⟩
        · exact absurd hskip' hskip
        · exact .inr (hbroken (hbad (by simp [hfate])) htr (.sent a hw' (hl'.trans hl)
            (hj.trans hbetween.job) hcalled (.inr hfate)))
  · cases hs

theorem Flows.dispatch (h : c.Flows done s) (hs : c.dispatch s = some s') :
    s.dispatch = some s' := by
  simp only [ReportingCall.dispatch] at hs
  split at hs
  · rename_i w a async hl hd
    rw [h.sent hl hd] at hs
    exact hs
  · cases hs

/-- It is a step of the stream, or a report was not delivered. -/
theorem Flows.step (h : c.Flows done s) (hs : c.step s l = some s') :
    (StreamState.step c.toStreamCall s l = some s' ∧ ∃ done', c.Flows done' s') ∨ c.Broken s' := by
  have hkeep : l ≠ .report → l ≠ .finish → StreamState.step c.toStreamCall s l = some s' →
      StreamState.step c.toStreamCall s l = some s' ∧ ∃ done', c.Flows done' s' := by
    intro hl hl' hs
    obtain ⟨htodo, hworker⟩ := kept_of_step hl hl' hs
    refine ⟨hs, done, h.reachable.step (l := l) hs, htodo ▸ h.items, h.good, fun hfin => ?_⟩
    rw [htodo]
    exact h.finished (hworker hfin)
  cases l with
  | report => exact h.report hs
  | dispatch => exact .inl (hkeep (by simp) (by simp) (h.dispatch hs))
  | start | ret | future | consumed | afterWork | next =>
    exact .inl (hkeep (by simp) (by simp) hs)
  | finish =>
    have hfinish : s.finish c.toStreamCall = some s' := hs
    have hreach : (stream c.toStreamCall).Reachable s' := h.reachable.step (l := .finish) hfinish
    simp only [StreamState.finish] at hfinish
    split at hfinish
    · rename_i hw ht
      obtain rfl := Option.some.inj hfinish
      exact .inl ⟨hs, done, hreach, h.items, h.good, fun _ => ht⟩
    · rename_i e hw
      exact absurd hw (h.flow.no_failure.1 e)
    · cases hfinish

/-! ## What the consumer receives -/

theorem Flows.expected (h : c.Flows done s) : s.tr.expected <+: c.shown := by
  have hshown := itemsOf_isPrefix_shown h.items h.good
  have hbetween : ∀ inFlight, StreamState.Accounted c.toStreamCall s inFlight →
      s.tr.expected <+: c.shown := by
    intro inFlight hacc
    rw [StreamState.Accounted, h.items, itemsOf_append] at hacc
    refine List.IsPrefix.trans ?_ hshown
    rw [← List.append_cancel_right hacc]
    exact List.prefix_append _ _
  have hall : s.worker = .finished → c.shown = c.expected := by
    intro hw
    refine shown_of_all fun b hb => h.good b ?_
    rw [h.items, h.finished hw, List.append_nil] at hb
    exact hb
  have hp := h.flow.phase
  cases hw : s.worker <;> cases hl : s.loop <;> simp only [StreamState.Phase, hw, hl] at hp
  · exact hbetween _ hp.accounted
  · exact hbetween _ hp.accounted
  · rcases hp with hp | hp
    · obtain ⟨a, -, hacc⟩ := hp.called
      exact hbetween _ hacc
    · exact hbetween _ hp.accounted
  · exact hbetween _ hp.accounted
  · exact hbetween _ hp.1.accounted
  · rw [hall hw]
    rcases hp with hp | hp
    · rw [hp.expected]
      exact List.prefix_append _ _
    · exact hp.expected ▸ List.prefix_refl _
  · exact hall hw ▸ hp.expected ▸ List.prefix_refl _

theorem isPrefix_expected {V : Type} {t : Trace V} (h : t.Orderly) : t.answers <+: t.expected := by
  rw [h.linked.answers_eq h.toInv]
  split
  · exact List.dropLast_prefix _
  · exact List.prefix_rfl

theorem Course.answers (h : c.Course s) : s.tr.answers <+: c.shown := by
  rcases h with ⟨done, h⟩ | h
  · exact (isPrefix_expected h.flow.orderly).trans h.expected
  · exact h.expected ▸ isPrefix_expected h.orderly

/-- What the stream can do, a stream with reports that fail can do, too. -/
theorem enabled_of_stream (h : (stream c.toStreamCall).Enabled s l) :
    (reporting c).Enabled s l := by
  obtain ⟨t, ht⟩ := Option.isSome_iff_exists.mp h
  cases l with
  | start | ret | future | consumed | finish | afterWork | next => exact h
  | report =>
    have hreport : s.report c.toStreamCall = some t := ht
    have hboth := hreport
    simp only [StreamState.report] at hreport
    split at hreport
    · rename_i a todo hw htodo
      show (c.report s).isSome = true
      simp only [ReportingCall.report, hw, htodo]
      split
      · rw [hboth]
        rfl
      · cases c.fate a with
        | unwinds e => rfl
        | fails e => rfl
        | item | throws e | aborts => exact hboth ▸ rfl
    · cases hreport
  | dispatch =>
    have hdispatch : s.dispatch = some t := ht
    have hboth := hdispatch
    simp only [StreamState.dispatch] at hdispatch
    split at hdispatch
    · rename_i w a async hl hd
      show (c.dispatch s).isSome = true
      simp only [ReportingCall.dispatch, hl, hd]
      cases c.fate a with
      | throws e => rfl
      | aborts => rfl
      | item | unwinds e | fails e => exact hboth ▸ rfl
    · cases hdispatch

/-- Without the end marker there are only items. -/
theorem item_of_mem_shown (hbad : c.items.all c.good = false)
    {x : Settlement (StreamValue α)} (hx : x ∈ c.shown) :
    ∃ a, x = StreamCall.itemSettlement a := by
  rw [shown, hbad] at hx
  simp only [Bool.false_eq_true, if_false, List.append_nil] at hx
  obtain ⟨a, -, rfl⟩ := List.mem_map.mp hx
  exact ⟨a, rfl⟩

theorem marker_ne (c : StreamCall α) (a : α) : c.marker ≠ StreamCall.itemSettlement a := by
  unfold StreamCall.marker
  split <;> simp [StreamCall.itemSettlement]

/-- An item that is shown was reported and delivered. -/
theorem item_of_shown (h : StreamCall.itemSettlement a ∈ c.shown) :
    a ∈ c.items ∧ c.skips a = false ∧ c.fate a = .item := by
  rw [shown, List.mem_append] at h
  rcases h with h | h
  · obtain ⟨hmem, hskip⟩ := mem_itemsOf h
    refine ⟨(List.takeWhile_prefix c.good).subset hmem, hskip, ?_⟩
    have hgood := List.mem_takeWhile_imp hmem
    rcases (c.good_iff a).mp hgood with hgood | hgood
    · rw [hskip] at hgood
      cases hgood
    · exact hgood
  · split at h
    · exact absurd (List.mem_singleton.mp h).symm (marker_ne _ a)
    · cases h

theorem Course.progress (h : c.Course s) (hne : s.tr.answers ≠ c.shown) :
    ∃ l, (reporting c).Enabled s l := by
  have hanswers := h.answers
  rcases h with ⟨done, h⟩ | h
  · have hne' : s.tr.answers ≠ c.expected := by
      intro heq
      cases hall : c.items.all c.good with
      | true =>
        rw [shown_of_all (List.all_eq_true.mp hall)] at hne
        exact hne heq
      | false =>
        -- the marker would be among the items
        rw [heq] at hanswers
        obtain ⟨a, ha⟩ := item_of_mem_shown hall (hanswers.subset
          (List.mem_append_right _ (List.mem_singleton_self c.marker)))
        exact marker_ne _ _ ha
    obtain ⟨l, hl⟩ := h.flow.progress hne'
    exact ⟨l, enabled_of_stream hl⟩
  · exact absurd ((h.orderly.answers_of_empty h.empty).trans h.expected) hne

/-! ## A run is finite -/

/-- What a broken stream has left, with the calls of `next`. -/
def stepsLeft (s : StreamState α) : Nat :=
  brokenLeft s + (s.tr.expected.length + 1 - s.tr.returned.length)

theorem brokenLeft_le (s : StreamState α) : brokenLeft s ≤ 5 := by
  unfold brokenLeft
  split
  · split <;> omega
  · omega
  · split <;> omega
  · omega

theorem Broken.stepsLeft_lt (h : c.Broken s) (hs : c.step s l = some s') :
    c.Broken s' ∧ stepsLeft s' < stepsLeft s := by
  unfold stepsLeft
  rcases h.step hs with ⟨-, hn⟩ | ⟨hb, htr, hless⟩
  · obtain ⟨hb, hret, hleft⟩ := h.next hn
    have hlen := hb.orderly.length_returned
    rw [hb.orderly.answers_of_empty hb.empty] at hlen
    rw [hleft, hb.expected, h.expected]
    rw [hb.expected] at hlen
    exact ⟨hb, by omega⟩
  · rw [htr]
    exact ⟨hb, by omega⟩

theorem shown_length_le (c : ReportingCall α) : c.shown.length ≤ c.items.length + 1 := by
  have htake := (List.takeWhile_prefix (l := c.items) c.good).length_le
  rw [shown, List.length_append, itemsOf, List.length_map]
  have hmarker : (if c.items.all c.good then [c.marker] else []).length ≤ 1 := by
    split
    · exact Nat.le_refl 1
    · exact Nat.zero_le 1
  have hdelivered := c.length_delivered_le (c.items.takeWhile c.good)
  omega

/-- The course of a run, and its length. -/
theorem course_run {ls : List StreamLabel} (h : (reporting c).run c.init ls = some s) :
    c.Course s ∧ ls.length ≤ 7 * c.items.length + 14 := by
  have hrun := Machine.run_induction (M := reporting c) (P := fun ls s =>
    ((stream c.toStreamCall).run c.init ls = some s ∧ ∃ done, c.Flows done s) ∨
      (c.Broken s ∧ ls.length + stepsLeft s ≤ 7 * c.items.length + 14)) ?_ ?_ ls s h
  · rcases hrun with ⟨hr, hflows⟩ | ⟨hb, hle⟩
    · have hlen := StreamState.length_le hr
      exact ⟨.inl hflows, by omega⟩
    · exact ⟨.inr hb, by omega⟩
  · refine .inl ⟨rfl, [], .refl, rfl, fun _ hb => (by cases hb), fun hw => (by cases hw)⟩
  · rintro ls s l s' - hs hstep
    rw [List.length_append, List.length_singleton]
    rcases hs with ⟨hr, done, hflows⟩ | ⟨hb, hle⟩
    · rcases hflows.step hstep with ⟨hstream, hflows'⟩ | hb
      · exact .inl ⟨Machine.run_snoc.mpr ⟨s, hr, hstream⟩, hflows'⟩
      · refine .inr ⟨hb, ?_⟩
        have hlen := StreamState.length_le hr
        have hleft := brokenLeft_le s'
        have hshown := shown_length_le c
        rw [stepsLeft, hb.expected]
        omega
    · obtain ⟨hb', hlt⟩ := hb.stepsLeft_lt hstep
      exact .inr ⟨hb', by omega⟩

/-- **The law of a stream with reports that may fail.**  In every run the promises of `next`
receive what was reported before the first report that is not delivered, and the end marker
if there is none such; after one nothing ends or rejects.  A run, which is finite, stops only
when all of it was received. -/
theorem reporting_law (c : ReportingCall α) {ls : List StreamLabel}
    (h : (reporting c).run c.init ls = some s) :
    s.tr.answers <+: c.shown ∧
      (c.items.all c.good = false → ∀ x ∈ s.tr.answers, ∃ a, x = StreamCall.itemSettlement a) ∧
      (s.tr.answers ≠ c.shown → ∃ l, (reporting c).Enabled s l) ∧
      ls.length ≤ 7 * c.items.length + 14 := by
  obtain ⟨hcourse, hlen⟩ := course_run h
  refine ⟨hcourse.answers, fun hbad x hx => ?_, hcourse.progress, hlen⟩
  exact item_of_mem_shown hbad (hcourse.answers.subset hx)

/-- Of the second item V8 cannot make a string. -/
def statusOfTwo : ReportingCall Nat where
  op := .status
  nullChangelist := fun _ => false
  items := [7, 8]
  outcome := .ok ()
  fate := fun a => if a = 8 then .throws (.runtimeError "") else .item
  foreign := by
    intro a e h
    split at h
    · obtain rfl := Option.some.inj h
      rfl
    · cases h

/-- The consumer has the first item and asks again, and the after-work step throws. -/
theorem reporting_law_two_items :
    ∃ s, (reporting statusOfTwo).run statusOfTwo.init [.start, .report, .dispatch, .next, .ret,
        .future, .consumed, .next, .report, .dispatch, .future, .finish, .afterWork] = some s ∧
      s.tr.answers = [.fulfilled (some (.item 7)) false] ∧
      ∀ x ∈ s.tr.answers, ∃ a, x = StreamCall.itemSettlement a := by
  refine ⟨_, (Option.some_get rfl).symm, rfl, ?_⟩
  exact (reporting_law statusOfTwo (Option.some_get (x := (reporting statusOfTwo).run
    statusOfTwo.init [.start, .report, .dispatch, .next, .ret, .future, .consumed, .next, .report,
      .dispatch, .future, .finish, .afterWork]) rfl).symm).2.1 rfl

end ReportingCall

end NodeSvn
