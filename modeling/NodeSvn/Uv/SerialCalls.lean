import NodeSvn.Uv.Calls

/-!
# A `uv::async` serves one call at a time

    free --began--> called --ran--> running --answered--> finished --ended--> free
                      |                                       ^
                      +--------------- unsent ----------------+

This is what a `uv::async` is for (`OneCall`): a call takes it, the loop thread runs the
callback for that call, the call ends with that result and gives it up; a call that comes
meanwhile is rejected.  The threads of `Calls` set its fields one at a time, in any order, and
share `handle->data`; what they show is a path of `OneCall` all the same (`calls_serial`).
-/

namespace NodeSvn

/-- What worker `w` and the loop thread do to each other. -/
inductive CallEvent (A R : Type) where
  /-- `running.exchange(true)` gave false -/
  | began (w : Nat) (arg : A)
  | rejected (w : Nat) (arg : A)
  /-- the loop thread runs the callback -/
  | ran (w : Nat) (arg : A)
  /-- the promise has its result, and the future that the callback returned too -/
  | answered (w : Nat) (result : Except Exn R)
  /-- `uv_async_send` failed -/
  | unsent (w : Nat) (what : String)
  /-- `running` is false again -/
  | ended (w : Nat) (result : Except Exn R)

inductive OneCall (A R : Type) where
  | free
  | called (w : Nat) (arg : A)
  | running (w : Nat)
  | finished (w : Nat) (result : Except Exn R)

/-- The specification. -/
inductive OneCall.Next {A R : Type} : OneCall A R → CallEvent A R → OneCall A R → Prop
  | began (w : Nat) (a : A) : Next .free (.began w a) (.called w a)
  | rejected {s : OneCall A R} (v : Nat) (b : A) (h : s ≠ .free) : Next s (.rejected v b) s
  | ran (w : Nat) (a : A) : Next (.called w a) (.ran w a) (.running w)
  | answered (w : Nat) (r : Except Exn R) : Next (.running w) (.answered w r) (.finished w r)
  | unsent (w : Nat) (a : A) (what : String) :
    Next (.called w a) (.unsent w what) (.finished w (.error (.runtimeError what)))
  | ended (w : Nat) (r : Except Exn R) : Next (.finished w r) (.ended w r) .free

variable {T A R : Type}

/-- What worker `w` shows when it goes on. -/
def WorkerCall.event (running : Bool) (w : Nat) (c : WorkerCall T A R) : Option (CallEvent A R) :=
  match c.phase with
  | .entering => if running then some (.rejected w c.arg) else some (.began w c.arg)
  | .releasing r => some (.ended w r)
  | _ => none

namespace Calls

/-- What a step shows. -/
def event (s : Calls T A R) : CallLabel T A R → Option (CallEvent A R)
  | .go w => (s.workers w).bind fun c => c.event s.running w
  | .send w (.error what) => some (.unsent w what)
  | .dispatch => s.data.bind fun w => (s.workers w).map fun c => .ran w c.arg
  | .respond (.error e) => s.serving.map fun w => .answered w (.error e)
  | .respond (.ok (.now r)) => s.serving.map fun w => .answered w (.ok r)
  | .fulfil w r => some (.answered w r)
  | _ => none

end Calls

/-! ## Where the call is -/

/-- The call, as the specification sees it. -/
def WorkerCall.view (w : Nat) (c : WorkerCall T A R) : OneCall A R :=
  match c.failed with
  | some what => .finished w (.error (.runtimeError what))
  | none =>
    match c.answer with
    | some r => .finished w r
    | none => if c.runs.isEmpty then .called w c.arg else .running w

namespace WorkerCall

variable {w : Nat} {c : WorkerCall T A R} {r : Except Exn R}

theorem view_ne_free (w : Nat) (c : WorkerCall T A R) : c.view w ≠ .free := by
  intro h
  unfold view at h
  split at h
  · cases h
  · split at h
    · cases h
    · split at h
      · cases h
      · cases h

theorem Fresh.view (h : c.Fresh) (w : Nat) : c.view w = .called w c.arg := by
  unfold WorkerCall.view answer
  rw [h.failed, h.outer, h.runs]
  rfl

theorem view_finished (hfailed : c.failed = none) (hanswer : c.answer = some r) :
    c.view w = .finished w r := by
  unfold view
  rw [hfailed, hanswer]

theorem Answered.view (h : c.Answered r) (w : Nat) : c.view w = .finished w r := by
  rcases h with ⟨hfailed, -, hanswer⟩ | ⟨what, hfailed, -, -, rfl⟩
  · exact view_finished hfailed hanswer
  · unfold WorkerCall.view
    rw [hfailed]

theorem view_running (hfailed : c.failed = none) (hruns : c.runs = [c.arg])
    (hanswer : c.answer = none) : c.view w = .running w := by
  unfold view
  rw [hfailed, hanswer, hruns]
  rfl

end WorkerCall

namespace Calls

variable {s u : Calls T A R} {t : OneCall A R} {w : Nat} {c d : WorkerCall T A R}

/-- The specification is where the call past the guard is, if there is one. -/
def Sees (s : Calls T A R) (t : OneCall A R) : Prop :=
  (s.running = false ∧ t = .free) ∨
    ∃ w c, s.workers w = some c ∧ c.passed = true ∧ t = c.view w

theorem Sees.eq_view (h : s.Sees t) (hi : s.Inv) (hc : s.workers w = some c)
    (hp : c.passed = true) : t = c.view w := by
  rcases h with ⟨hr, -⟩ | ⟨v, d, hd, hdp, rfl⟩
  · rw [hi.running hc hp] at hr
    cases hr
  · obtain rfl := hi.alone v w d c hd hc hdp hp
    obtain rfl := Option.some.inj (hd.symm.trans hc)
    rfl

/-- A step that shows nothing leaves the view of its call as it is. -/
theorem Sees.silent (h : s.Sees t) (hi : s.Inv) (hc : s.workers w = some c)
    (hp : c.passed = true) (hu : u.workers w = some d) (hd : d.passed = true)
    (hview : d.view w = c.view w) : u.Sees t :=
  .inr ⟨w, d, hu, hd, (h.eq_view hi hc hp).trans hview.symm⟩

/-- A step of another worker, or of none. -/
theorem Sees.other (h : s.Sees t) (hr : u.running = s.running)
    (hw : ∀ v d, s.workers v = some d → d.passed = true → u.workers v = some d) : u.Sees t := by
  rcases h with ⟨hrun, ht⟩ | ⟨v, d, hd, hdp, ht⟩
  · exact .inl ⟨hr.trans hrun, ht⟩
  · exact .inr ⟨v, d, hw v d hd hdp, hdp, ht⟩

theorem Sees.ne_free (h : s.Sees t) (hr : s.running = true) : t ≠ .free := by
  rcases h with ⟨hrun, -⟩ | ⟨v, d, -, -, rfl⟩
  · rw [hr] at hrun
    cases hrun
  · exact d.view_ne_free v

theorem Sees.free (h : s.Sees t) (hi : s.Inv) (hr : s.running = false) : t = .free := by
  rcases h with ⟨-, ht⟩ | ⟨v, d, hd, hdp, -⟩
  · exact ht
  · rw [hi.running hd hdp] at hr
    cases hr

/-! ## One step -/

/-- The specification does what a step shows. -/
def Follows (u : Calls T A R) (t : OneCall A R) (k : Option (CallEvent A R)) : Prop :=
  (k = none ∧ u.Sees t) ∨ ∃ k' t', k = some k' ∧ t.Next k' t' ∧ u.Sees t'

theorem Sees.enter (h : s.Sees t) (hw : s.workers w = none) (type : T) (a : A) :
    (s.set w (some (.fresh type a))).Sees t := by
  refine h.other rfl fun v d hd hdp => ?_
  have hne : v ≠ w := by
    rintro rfl
    rw [hw] at hd
    cases hd
  exact (Function.update_of_ne hne _ _).trans hd

theorem self_set (s : Calls T A R) (w : Nat) (d : WorkerCall T A R) :
    (s.set w (some d)).workers w = some d := by
  simp [set]

/-- A worker takes the guard, or finds it taken. -/
theorem Sees.entering (h : s.Sees t) (hi : s.Inv) (hc : s.workers w = some c)
    (hphase : c.phase = .entering) (hs : s.goWorker w c = some u) :
    Follows u t (c.event s.running w) := by
  have hstage := hi.stage w c hc
  simp only [Stage, hphase] at hstage
  simp only [goWorker, hphase] at hs
  right
  unfold WorkerCall.event
  rw [hphase]
  cases hr : s.running with
  | true =>
    rw [if_pos hr, Option.some.injEq] at hs
    subst hs
    refine ⟨_, t, rfl, .rejected w c.arg (h.ne_free hr), h.other rfl fun v d hd hdp => ?_⟩
    have hne : v ≠ w := by
      rintro rfl
      obtain rfl := Option.some.inj (hd.symm.trans hc)
      exact (passed_iff d).mp hdp hphase
    exact (Function.update_of_ne hne _ _).trans hd
  | false =>
    rw [if_neg (by simp [hr]), Option.some.injEq] at hs
    subst hs
    obtain rfl := h.free hi hr
    refine ⟨_, .called w c.arg, rfl, .began w c.arg, .inr ⟨w, _, self_set .., rfl, ?_⟩⟩
    exact (WorkerCall.Fresh.view (c := { c with phase := .guarded })
      ⟨hstage.outer, hstage.inner, hstage.failed, hstage.runs⟩ w).symm

/-- A worker gives the guard up. -/
theorem Sees.releasing (h : s.Sees t) (hi : s.Inv) (hc : s.workers w = some c)
    {r : Except Exn R} (hphase : c.phase = .releasing r) (hs : s.goWorker w c = some u) :
    Follows u t (c.event s.running w) := by
  have hstage := hi.stage w c hc
  simp only [Stage, hphase] at hstage
  simp only [goWorker, hphase, Option.some.injEq] at hs
  subst hs
  have hp : c.passed = true := (passed_iff c).mpr (by simp [hphase])
  obtain rfl := h.eq_view hi hc hp
  rw [hstage.1.view]
  right
  unfold WorkerCall.event
  rw [hphase]
  exact ⟨_, .free, rfl, .ended w r, .inl ⟨rfl, rfl⟩⟩

/-- Between the two, a worker only goes on. -/
theorem goWorker_between (hentering : c.phase ≠ .entering)
    (hreleasing : ∀ r, c.phase ≠ .releasing r) (hs : s.goWorker w c = some u) :
    ∃ phase, phase ≠ .entering ∧ u.workers w = some { c with phase } := by
  unfold goWorker at hs
  cases hphase : c.phase with
  | entering => exact absurd hphase hentering
  | releasing r => exact absurd hphase (hreleasing r)
  | aimed =>
    simp only [hphase] at hs
    cases hs
  | waiting =>
    simp only [hphase] at hs
    obtain ⟨o, -, rfl⟩ := Option.map_eq_some_iff.mp hs
    cases o with
    | error e => exact ⟨.unwinding (.error e), by simp, self_set ..⟩
    | ok a =>
      cases a with
      | now r => exact ⟨.unwinding (.ok r), by simp, self_set ..⟩
      | later => exact ⟨.waitingInner, by simp, self_set ..⟩
  | waitingInner =>
    simp only [hphase] at hs
    obtain ⟨r, -, rfl⟩ := Option.map_eq_some_iff.mp hs
    exact ⟨.unwinding r, by simp, self_set ..⟩
  | guarded =>
    simp only [hphase, Option.some.injEq] at hs
    subst hs
    exact ⟨.framed, by simp, self_set ..⟩
  | framed =>
    simp only [hphase, Option.some.injEq] at hs
    subst hs
    exact ⟨.pointed, by simp, self_set ..⟩
  | pointed =>
    simp only [hphase, Option.some.injEq] at hs
    subst hs
    exact ⟨.aimed, by simp, self_set ..⟩
  | unwinding r =>
    simp only [hphase, Option.some.injEq] at hs
    subst hs
    exact ⟨.releasing r, by simp, self_set ..⟩

theorem Sees.go (h : s.Sees t) (hi : s.Inv) (hc : s.workers w = some c)
    (hs : s.goWorker w c = some u) : Follows u t (c.event s.running w) := by
  by_cases hentering : c.phase = .entering
  · exact h.entering hi hc hentering hs
  · by_cases hreleasing : ∃ r, c.phase = .releasing r
    · obtain ⟨r, hphase⟩ := hreleasing
      exact h.releasing hi hc hphase hs
    · have hreleasing := not_exists.mp hreleasing
      obtain ⟨phase, hne, hu⟩ := goWorker_between hentering hreleasing hs
      left
      constructor
      · unfold WorkerCall.event
        split
        · exact absurd ‹_› hentering
        · exact absurd ‹_› (hreleasing _)
        · rfl
      · exact h.silent hi hc ((passed_iff c).mpr hentering) hu ((passed_iff _).mpr hne) rfl

/-- A step of the loop thread for a call that is past the guard. -/
theorem Sees.serve (h : s.Sees t) (hi : s.Inv) (hc : s.workers w = some c)
    (hp : c.passed = true) (hd : d.passed = true) (hu : u.workers w = some d)
    {k : CallEvent A R} {a b : OneCall A R} (ha : c.view w = a) (hb : d.view w = b)
    (hk : a.Next k b) : Follows u t (some k) := by
  have ht := (h.eq_view hi hc hp).trans ha
  exact .inr ⟨k, b, rfl, ht ▸ hk, .inr ⟨w, d, hu, hd, hb.symm⟩⟩

theorem Sees.send (h : s.Sees t) (hi : s.Inv) (hc : s.workers w = some c)
    (hphase : c.phase = .aimed) :
    Sees { s.goOn w c .waiting with pending := true } t ∧ ∀ what,
      Follows (s.goOn w { c with failed := some what } (.unwinding (.error (.runtimeError what)))) t
        (some (.unsent w what)) := by
  have hstage := hi.stage w c hc
  simp only [Stage, hphase] at hstage
  have hp : c.passed = true := (passed_iff c).mpr (by simp [hphase])
  constructor
  · exact h.silent hi hc hp (self_set ..) rfl rfl
  · intro what
    refine h.serve hi hc hp (d := { c with
      failed := some what, phase := .unwinding (.error (.runtimeError what)) }) rfl
      (self_set ..) (hstage.1.view w) rfl (.unsent w c.arg what)

theorem Sees.respond (h : s.Sees t) (hi : s.Inv) (hs : s.serving = some w)
    (o : Except Exn (Answer R)) :
    Follows (s.respond w o) t (s.event (.respond o)) := by
  obtain ⟨v, c, hc, hphase, hfailed, hw⟩ := hi.waiting fun hq => by
    rw [hq.2] at hs
    cases hs
  rcases hw with ⟨-, -, hnone, -⟩ | ⟨houter, hinner, hruns, -, hserving⟩
  · rw [hnone] at hs
    cases hs
  · obtain rfl := Option.some.inj (hserving.symm.trans hs)
    have hdata : c.hasData = true := by simp [WorkerCall.hasData, hphase]
    have hp : c.passed = true := (passed_iff c).mpr (by simp [hphase])
    have hview : c.view v = .running v :=
      WorkerCall.view_running hfailed hruns (by simp [WorkerCall.answer, houter])
    have hu : (s.respond v o).workers v = some { c with outer := some o } := by
      unfold Calls.respond
      simp only [hc, hdata, houter, Option.isNone_none, and_self, if_true]
      exact self_set ..
    cases o with
    | error e =>
      rw [event, hs]
      exact h.serve hi hc hp (d := { c with outer := some (.error e) }) hp hu hview
        (WorkerCall.view_finished (c := { c with outer := some (.error e) }) hfailed rfl)
        (.answered v (.error e))
    | ok a =>
      cases a with
      | now r =>
        rw [event, hs]
        exact h.serve hi hc hp (d := { c with outer := some (.ok (.now r)) }) hp hu hview
          (WorkerCall.view_finished (c := { c with outer := some (.ok (.now r)) }) hfailed rfl)
          (.answered v (.ok r))
      | later =>
        refine .inl ⟨rfl, h.silent hi hc hp hu hp ?_⟩
        rw [hview]
        exact WorkerCall.view_running hfailed hruns hinner

theorem Sees.fulfil (h : s.Sees t) (hi : s.Inv) (hc : s.workers w = some c)
    (houter : c.outer = some (.ok .later)) (hinner : c.inner = none) (r : Except Exn R) :
    Follows (s.set w (some { c with inner := some r })) t (some (.answered w r)) := by
  obtain ⟨hfailed, hruns, -, hphase⟩ := hi.later hc houter hinner
  have hp : c.passed = true := (passed_iff c).mpr (by rcases hphase with h | h <;> simp [h])
  have hview : c.view w = .running w :=
    WorkerCall.view_running hfailed hruns (by simp [WorkerCall.answer, houter, hinner])
  exact h.serve hi hc hp (d := { c with inner := some r }) hp (self_set ..) hview
    (WorkerCall.view_finished (c := { c with inner := some r }) hfailed
      (by simp [WorkerCall.answer, houter]))
    (.answered w r)

variable [DecidableEq T]

theorem Sees.dispatch (h : s.Sees t) (hi : s.Inv) (hs : s.pending = true) :
    Follows s.dispatch t (s.event .dispatch) := by
  obtain ⟨w, c, hc, hphase, hfailed, hw⟩ := hi.waiting fun hq => by
    rw [hq.1] at hs
    cases hs
  rcases hw with ⟨hfresh, -, -, hdata, hcb⟩ | ⟨-, -, -, hpending, -⟩
  · have hhas : c.hasData = true := by simp [WorkerCall.hasData, hphase]
    have hp : c.passed = true := (passed_iff c).mpr (by simp [hphase])
    have hu : s.dispatch.workers w = some { c with runs := c.runs ++ [c.arg] } := by
      unfold Calls.dispatch
      simp only [hdata, hcb, hc, hhas, and_self, if_true]
      exact self_set ..
    have hevent : s.event .dispatch = some (.ran w c.arg) := by
      simp only [event, hdata, hc, Option.bind_some, Option.map_some]
    rw [hevent]
    have hruns : c.runs ++ [c.arg] = [c.arg] := by rw [hfresh.runs, List.nil_append]
    have hrunning : WorkerCall.view w { c with runs := c.runs ++ [c.arg] } = .running w :=
      WorkerCall.view_running hfailed hruns (by simp [WorkerCall.answer, hfresh.outer])
    exact h.serve hi hc hp (d := { c with runs := c.runs ++ [c.arg] }) hp hu (hfresh.view w)
      hrunning (.ran w c.arg)
  · rw [hs] at hpending
    cases hpending

/-- One step of a worker, of the loop thread or of the future that it waits for. -/
theorem Sees.step (h : s.Sees t) (hi : s.Inv) {l : CallLabel T A R} (hs : s.step l = some u) :
    Follows u t (s.event l) := by
  cases l with
  | enter w type arg =>
    cases hc : s.workers w with
    | some c => simp [Calls.step, hc] at hs
    | none =>
      simp only [Calls.step, hc, Option.some.injEq] at hs
      subst hs
      exact .inl ⟨rfl, h.enter hc type arg⟩
  | go w =>
    obtain ⟨c, hc, hs⟩ := Option.bind_eq_some_iff.mp hs
    have hevent : s.event (.go w) = c.event s.running w := by
      simp only [event, hc, Option.bind_some]
    rw [hevent]
    exact h.go hi hc hs
  | send w result =>
    obtain ⟨c, hc, hs⟩ := Option.bind_eq_some_iff.mp hs
    cases hphase : c.phase with
    | aimed =>
      cases result with
      | ok value =>
        simp only [hphase, Option.some.injEq] at hs
        subst hs
        exact .inl ⟨rfl, (h.send hi hc hphase).1⟩
      | error what =>
        simp only [hphase, Option.some.injEq] at hs
        subst hs
        exact (h.send hi hc hphase).2 what
    | _ =>
      simp only [hphase] at hs
      cases hs
  | dispatch =>
    simp only [Calls.step, Option.ite_none_right_eq_some, Option.some.injEq] at hs
    obtain ⟨⟨hpending, -⟩, rfl⟩ := hs
    exact h.dispatch hi hpending
  | respond o =>
    obtain ⟨w, hw, rfl⟩ := Option.map_eq_some_iff.mp hs
    exact h.respond hi hw o
  | fulfil w r =>
    obtain ⟨c, hc, hs⟩ := Option.bind_eq_some_iff.mp hs
    have hopen : c.outer = some (.ok .later) ∧ c.inner = none := by
      split at hs
      · exact ⟨‹_›, ‹_›⟩
      · cases hs
    simp only [hopen.1, hopen.2, Option.some.injEq] at hs
    subst hs
    have hfollows := h.fulfil hi hc hopen.1 hopen.2 r
    rw [hopen.1] at hfollows
    exact hfollows

end Calls

/-- **Any number of threads, whatever they do and in whatever order, show the calls of one
`uv::async` one after another**: the callback runs for the call that has it, once and with its
arguments, the call ends with that result, and only a call that comes while another has it is
rejected. -/
theorem calls_serial (T A R : Type) [DecidableEq T] (ls : List (CallLabel T A R))
    (s : Calls T A R) (h : (callMachine T A R).run (callMachine T A R).init ls = some s) :
    ∃ t, Machine.Path OneCall.Next .free
      ((callMachine T A R).shows Calls.event (callMachine T A R).init ls) t ∧
      (t = .free ↔ s.running = false) := by
  have hinit : (callMachine T A R).init.Inv :=
    ⟨rfl, by simp [callMachine], by simp [callMachine], by simp [callMachine], fun _ => ⟨rfl, rfl⟩,
      by simp [callMachine], by simp [callMachine]⟩
  obtain ⟨t, hpath, hi, hsees⟩ := Machine.exists_path
    (R := fun (s : Calls T A R) t => s.Inv ∧ s.Sees t) ⟨hinit, .inl ⟨rfl, rfl⟩⟩ (by
      rintro s t l u ⟨hi, hsees⟩ hs
      have hi' := hi.step hs
      rcases hsees.step hi hs with ⟨hnone, hsees'⟩ | ⟨k, t', hk, hnext, hsees'⟩
      · exact .inl ⟨hnone, hi', hsees'⟩
      · exact .inr ⟨k, t', hk, hnext, hi', hsees'⟩) h
  refine ⟨t, hpath, ?_, hsees.free hi⟩
  intro ht
  by_contra hrun
  exact hsees.ne_free (by simpa using hrun) ht

/-- Two workers: the second comes while the first is served. -/
def twoWorkers : List (CallLabel Unit Nat Nat) :=
  [.enter 0 () 10, .go 0, .enter 1 () 11, .go 0, .go 1, .go 0, .go 0, .send 0 (.ok ()), .dispatch,
    .respond (.ok .later), .go 0, .fulfil 0 (.ok 20), .go 0, .go 0, .go 0]

theorem calls_serial_two :
    ((callMachine Unit Nat Nat).run (callMachine Unit Nat Nat).init twoWorkers).isSome = true ∧
      (callMachine Unit Nat Nat).shows Calls.event (callMachine Unit Nat Nat).init twoWorkers =
        [.began 0 10, .rejected 1 11, .ran 0 10, .answered 0 (.ok 20), .ended 0 (.ok 20)] ∧
      Machine.Path OneCall.Next .free
        ((callMachine Unit Nat Nat).shows Calls.event (callMachine Unit Nat Nat).init twoWorkers)
        .free := by
  have hrun : ((callMachine Unit Nat Nat).run (callMachine Unit Nat Nat).init
      twoWorkers).isSome = true := rfl
  refine ⟨hrun, rfl, ?_⟩
  obtain ⟨t, hpath, ht⟩ := calls_serial Unit Nat Nat twoWorkers _ (Option.some_get hrun).symm
  obtain rfl := ht.mpr rfl
  exact hpath

end NodeSvn
