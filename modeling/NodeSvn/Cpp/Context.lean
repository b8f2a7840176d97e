import NodeSvn.Lib.Machine
import NodeSvn.Lib.Slots
import NodeSvn.Cpp.Arguments
import NodeSvn.Cpp.Trampoline

/-!
# The slots of `svn_client_ctx_t` that operations borrow

    notify_func2, notify_baton2   set and set to NULL again by `notify_scope`
    log_msg_baton3                assigned by `commit`, right after it checked the message

`operate` is an operation run alone; `sharedMachine` has any number of threads that run
operations on one context, one access of a slot at a time.  A commit leaves its message
behind (`finalContext_eq_self_iff`), and a commit that comes to run beside another one takes the
other's message away, also if `notify_scope` then rejects it.
-/

namespace NodeSvn

/-- What a slot points to.  The objects of an operation are on the stack of its thread. -/
inductive Pointer where
  | null
  /-- `message_ref` of the commit that thread `w` runs -/
  | messageRef (w : Nat)
  /-- `scope` of the operation that thread `w` runs -/
  | scope (w : Nat)
  /-- `notify_scope::_invoke` -/
  | invoke
  | other (address : Nat)
  deriving DecidableEq, Repr

structure Context where
  notifyFunc2 : Pointer
  notifyBaton2 : Pointer
  logMsgBaton3 : Pointer
  deriving DecidableEq, Repr

/-- The operation has a `notify_scope`. -/
def ClientOperation.notifies : ClientOperation → Bool
  | .commit => true
  | .update => true
  | _ => false

/-- A call of an operation, with what its arguments, its callbacks and libsvn make of it. -/
structure ClientCall where
  operation : ClientOperation
  /-- the log message of a commit -/
  message : String
  /-- `child_pool` and the conversions of the arguments -/
  convert : Except Exn Unit
  invocations : List Invocation
  result : Option SvnError

/-- A commit whose message passes `check_string`. -/
def ClientCall.sends (call : ClientCall) : Prop :=
  call.operation = .commit ∧ checkString call.message = .ok ()

/-- The call of libsvn and the check of its result. -/
def ClientCall.finish (cancelled : SvnError) (call : ClientCall) : Except Exn Unit :=
  match libsvn cancelled call.result call.invocations .create with
  | .unwound e => .error e
  | .returned result d => call.operation.checkResult d result

/-! ## An operation alone -/

section Alone

abbrev ContextM := EStateM Exn Context

def throws (r : Except Exn Unit) : ContextM Unit := fun c =>
  match r with
  | .ok () => .ok () c
  | .error e => .error e c

/-- The constructor of `notify_scope`. -/
def notifyScope (w : Nat) : ContextM Unit := do
  if (← get).notifyFunc2 ≠ .null then
    throw (.svnError (.last ⟨-1, "", "", -1⟩))
  modify fun c => { c with notifyBaton2 := .scope w }
  modify fun c => { c with notifyFunc2 := .invoke }

/-- Its destructor. -/
def endNotifyScope : ContextM Unit := do
  modify fun c => { c with notifyFunc2 := .null }
  modify fun c => { c with notifyBaton2 := .null }

variable (cancelled : SvnError) (w : Nat) (call : ClientCall)

/-- The operation from `notify_scope` on.  The destructor runs before an exception gets out. -/
def libsvnPart : ContextM Unit := do
  if call.operation.notifies then
    notifyScope w
    let result := call.finish cancelled
    endNotifyScope
    throws result
  else
    throws (call.finish cancelled)

/-- The operation; what it does to its arguments is in `call`. -/
def operate : ContextM Unit := do
  if call.operation = .commit then
    throws (checkString call.message)
    modify fun c => { c with logMsgBaton3 := .messageRef w }
  throws call.convert
  libsvnPart cancelled w call

def contextOf : EStateM.Result Exn Context Unit → Context
  | .ok _ c => c
  | .error _ c => c

/-- The context when the operation returned or threw. -/
def finalContext (c : Context) : Context := contextOf ((operate cancelled w call).run c)

/-- What the slots must be for the operation to leave them so: it sets the log message of a
commit, and NULL where its `notify_scope` was. -/
def Restores (c : Context) : Prop :=
  (call.sends → c.logMsgBaton3 = .messageRef w) ∧
    (call.operation.notifies = true → (call.operation = .commit → call.sends) →
      call.convert = .ok () → c.notifyFunc2 = .null → c.notifyBaton2 = .null)

variable {cancelled w call} {c : Context}

@[simp] theorem run_throws (r : Except Exn Unit) :
    (throws r).run c = match r with
      | .ok () => .ok () c
      | .error e => .error e c := rfl

/-- Past the conversions: `notify_scope` is rejected, or it sets both slots to NULL. -/
theorem contextOf_libsvnPart :
    contextOf ((libsvnPart cancelled w call).run c) =
      if call.operation.notifies = true ∧ c.notifyFunc2 = .null then
        { c with notifyFunc2 := .null, notifyBaton2 := .null }
      else c := by
  unfold libsvnPart notifyScope endNotifyScope
  by_cases hn : call.operation.notifies = true
  · by_cases hf : c.notifyFunc2 = .null
    · rw [if_pos hn, if_pos ⟨hn, hf⟩]
      cases hr : call.finish cancelled <;> simp [hf, contextOf]
    · rw [if_pos hn, if_neg fun h => hf h.2]
      simp [hf, contextOf]
  · rw [if_neg hn, if_neg fun h => hn h.1]
    cases hr : call.finish cancelled <;> rfl

/-- The log message, as `commit` leaves it. -/
def assigned (w : Nat) (c : Context) : Context := { c with logMsgBaton3 := .messageRef w }

/-- Past the check of the message. -/
theorem contextOf_convert :
    contextOf ((throws call.convert >>= fun _ => libsvnPart cancelled w call).run c) =
      if call.convert = .ok () then contextOf ((libsvnPart cancelled w call).run c) else c := by
  cases hc : call.convert <;> simp [contextOf]

theorem finalContext_eq :
    finalContext cancelled w call c =
      if call.operation = .commit then
        if checkString call.message = .ok () then
          if call.convert = .ok () then contextOf ((libsvnPart cancelled w call).run (assigned w c))
          else assigned w c
        else c
      else if call.convert = .ok () then contextOf ((libsvnPart cancelled w call).run c)
      else c := by
  unfold finalContext operate
  by_cases ho : call.operation = .commit
  · rw [if_pos ho, if_pos ho, ← contextOf_convert]
    cases hm : checkString call.message <;> simp [contextOf, assigned]
  · rw [if_neg ho, if_neg ho, ← contextOf_convert]

theorem assigned_eq_iff : assigned w c = c ↔ c.logMsgBaton3 = .messageRef w := by
  obtain ⟨f, b, l⟩ := c
  simp only [assigned, Context.mk.injEq, true_and]
  exact eq_comm

/-- Closing the scope leaves the context only if `notify_baton2` was NULL as well. -/
theorem contextOf_libsvnPart_eq_iff {d : Context} (hf : d.notifyFunc2 = c.notifyFunc2)
    (hb : d.notifyBaton2 = c.notifyBaton2) :
    contextOf ((libsvnPart cancelled w call).run d) = c ↔
      d = c ∧ (call.operation.notifies = true → c.notifyFunc2 = .null →
        c.notifyBaton2 = .null) := by
  obtain ⟨f, b, l⟩ := c
  obtain ⟨f', b', l'⟩ := d
  obtain rfl : f' = f := hf
  obtain rfl : b' = b := hb
  rw [contextOf_libsvnPart]
  split
  · rename_i h
    obtain ⟨hn, hnull⟩ := h
    obtain rfl : f' = .null := hnull
    simp only [Context.mk.injEq, true_and, hn, forall_true_left]
    exact ⟨fun h => ⟨h.2, h.1.symm⟩, fun h => ⟨h.2.symm, h.1⟩⟩
  · rename_i h
    exact ⟨fun he => ⟨he, fun hn hnull => absurd ⟨hn, hnull⟩ h⟩, fun he => he.1⟩

/-- **An operation leaves the slots as they were exactly if it sets none to another value.** -/
theorem finalContext_eq_self_iff : finalContext cancelled w call c = c ↔ Restores w call c := by
  rw [finalContext_eq, Restores, ClientCall.sends]
  by_cases ho : call.operation = .commit
  · have hn : call.operation.notifies = true := by
      rw [ho]
      rfl
    by_cases hm : checkString call.message = .ok ()
    · by_cases hc : call.convert = .ok ()
      · rw [if_pos ho, if_pos hm, if_pos hc,
          contextOf_libsvnPart_eq_iff (c := c) (d := assigned w c) rfl rfl, assigned_eq_iff]
        simp [ho, hm, hc]
      · rw [if_pos ho, if_pos hm, if_neg hc, assigned_eq_iff]
        simp [ho, hm, hc]
    · simp [ho, hm]
  · by_cases hc : call.convert = .ok ()
    · rw [if_neg ho, if_pos hc, contextOf_libsvnPart_eq_iff (d := c) rfl rfl]
      simp [ho, hc]
    · simp [ho, hc]

end Alone

/-! ## Operations of many threads -/

/-- What the thread does next. -/
inductive OperationPhase where
  /-- `check_string(message)` -/
  | checking
  /-- the assignment to `log_msg_baton3` -/
  | assigning
  | converting
  /-- the test in `notify_scope` -/
  | testing
  | settingBaton
  | settingFunc
  | inLibsvn
  | clearingFunc
  | clearingBaton
  deriving DecidableEq, Repr

structure RunningCall where
  call : ClientCall
  phase : OperationPhase
  /-- it has changed the context -/
  changed : Bool

def RunningCall.fresh (call : ClientCall) : RunningCall :=
  ⟨call, if call.operation = .commit then .checking else .converting, false⟩

/-- The commit of the thread has its `message_ref` on the stack and in the context. -/
def RunningCall.holds (r : RunningCall) : Bool :=
  r.call.operation = .commit ∧ r.phase ≠ .checking ∧ r.phase ≠ .assigning

/-- A message that libsvn took for a commit. -/
structure SentMessage where
  message : String
  /-- what `invoke_log_message` read; `none` if there was no such object -/
  taken : Option String
  deriving DecidableEq, Repr

structure SharedContext where
  context : Context
  running : Nat → Option RunningCall
  sent : List SentMessage
  /-- for each operation that `notify_scope` rejected, whether it had changed the context -/
  rejected : List Bool

inductive ContextLabel where
  | enter (w : Nat) (call : ClientCall)
  /-- thread `w` goes on -/
  | go (w : Nat)
  /-- libsvn calls `invoke_log_message` for the commit of thread `w` -/
  | logMessage (w : Nat)

namespace SharedContext

def goOn (s : SharedContext) (w : Nat) (r : RunningCall) (phase : OperationPhase) :
    SharedContext :=
  { s with running := Function.update s.running w (some { r with phase }) }

def leave (s : SharedContext) (w : Nat) : SharedContext :=
  { s with running := Function.update s.running w none }

/-- Thread `w` writes the context. -/
def write (s : SharedContext) (w : Nat) (r : RunningCall) (c : Context)
    (phase : Option OperationPhase) : SharedContext :=
  { s with
    context := c
    running := Function.update s.running w
      (phase.map fun phase => ⟨r.call, phase, r.changed || c ≠ s.context⟩) }

/-- The string behind `log_msg_baton3`. -/
def message (s : SharedContext) : Option String :=
  match s.context.logMsgBaton3 with
  | .messageRef w => (s.running w).bind fun r => if r.holds then some r.call.message else none
  | _ => none

def go (s : SharedContext) (w : Nat) (r : RunningCall) : SharedContext :=
  let c := s.context
  match r.phase with
  | .checking =>
    match checkString r.call.message with
    | .ok () => s.goOn w r .assigning
    | .error _ => s.leave w
  | .assigning => s.write w r { c with logMsgBaton3 := .messageRef w } (some .converting)
  | .converting =>
    match r.call.convert with
    | .ok () => s.goOn w r (if r.call.operation.notifies then .testing else .inLibsvn)
    | .error _ => s.leave w
  | .testing =>
    if c.notifyFunc2 ≠ .null then { s.leave w with rejected := s.rejected ++ [r.changed] }
    else s.goOn w r .settingBaton
  | .settingBaton => s.write w r { c with notifyBaton2 := .scope w } (some .settingFunc)
  | .settingFunc => s.write w r { c with notifyFunc2 := .invoke } (some .inLibsvn)
  | .inLibsvn => if r.call.operation.notifies then s.goOn w r .clearingFunc else s.leave w
  | .clearingFunc => s.write w r { c with notifyFunc2 := .null } (some .clearingBaton)
  | .clearingBaton => s.write w r { c with notifyBaton2 := .null } none

def step (s : SharedContext) : ContextLabel → Option SharedContext
  | .enter w call =>
    match s.running w with
    | some _ => none
    | none =>
      some { s with running := Function.update s.running w (some (RunningCall.fresh call)) }
  | .go w => (s.running w).map (s.go w)
  | .logMessage w => do
    let r ← s.running w
    if r.call.operation = .commit ∧ r.phase = .inLibsvn then
      return { s with sent := s.sent ++ [⟨r.call.message, s.message⟩] }
    else none

end SharedContext

def sharedMachine (c : Context) : Machine SharedContext ContextLabel where
  init := ⟨c, fun _ => none, [], []⟩
  step := SharedContext.step

/-! ## What a run is to keep -/

/-- Each commit sent the message it was called with, and each rejected operation had left
the context as it was. -/
structure SharedContext.Kept (s : SharedContext) : Prop where
  sent : ∀ m ∈ s.sent, m.taken = some m.message
  rejected : ∀ changed ∈ s.rejected, changed = false

/-- A commit assigns its message while no other commit holds the slot, and comes to
`notify_scope` while no handler is installed. -/
def Apart (s : SharedContext) : ContextLabel → Prop
  | .go w => ∀ r, s.running w = some r →
    (r.phase = .assigning → ∀ v q, s.running v = some q → q.holds = false) ∧
      (r.phase = .testing → r.call.operation = .commit → s.context.notifyFunc2 = .null)
  | _ => True

/-- The invariant of thread `w`, where the slot of the log message holds `p`. -/
structure RunningCall.Fits (p : Pointer) (w : Nat) (r : RunningCall) : Prop where
  message : r.holds = true → p = .messageRef w
  unchanged : r.call.operation ≠ .commit → r.phase = .converting ∨ r.phase = .testing →
    r.changed = false
  commits : r.phase = .checking ∨ r.phase = .assigning → r.call.operation = .commit

structure SharedContext.Orderly (s : SharedContext) : Prop extends s.Kept where
  fits : ∀ w r, s.running w = some r → r.Fits s.context.logMsgBaton3 w

namespace SharedContext

variable {s t : SharedContext} {w : Nat} {r : RunningCall} {x : Option RunningCall}

/-- One thread goes on, and the log message stays. -/
theorem Orderly.update (h : s.Orderly) (hk : t.Kept)
    (hp : t.context.logMsgBaton3 = s.context.logMsgBaton3)
    (hr : t.running = Function.update s.running w x)
    (hx : ∀ r, x = some r → r.Fits s.context.logMsgBaton3 w) : t.Orderly := by
  refine ⟨hk, fun v q hq => ?_⟩
  rw [hr] at hq
  rw [hp]
  rcases update_eq_some_iff.mp hq with ⟨rfl, hnew⟩ | ⟨-, hold⟩
  · exact hx q hnew
  · exact h.fits v q hold

theorem Orderly.leave (h : s.Orderly) (w : Nat) : (s.leave w).Orderly :=
  h.update (w := w) (x := none) ⟨h.sent, h.rejected⟩ rfl rfl (by simp)

theorem Orderly.goOn (h : s.Orderly) {phase : OperationPhase}
    (hf : RunningCall.Fits s.context.logMsgBaton3 w { r with phase }) :
    (s.goOn w r phase).Orderly :=
  h.update (w := w) (x := some { r with phase }) ⟨h.sent, h.rejected⟩ rfl rfl (by simpa using hf)

/-- The thread goes on past the conversions. -/
theorem fits_later {p : Pointer} {phase : OperationPhase} {changed : Bool} (h : r.Fits p w)
    (hr : r.phase ≠ .checking ∧ r.phase ≠ .assigning)
    (hp : phase ≠ .checking ∧ phase ≠ .assigning ∧ phase ≠ .converting)
    (hc : phase = .testing → changed = r.changed ∧ r.phase = .converting) :
    RunningCall.Fits p w ⟨r.call, phase, changed⟩ where
  message hh := h.message (by simpa [RunningCall.holds, hr, hp] using hh)
  unchanged ho hphase := by
    have ht := hphase.resolve_left hp.2.2
    rw [(hc ht).1]
    exact h.unchanged ho (.inl (hc ht).2)
  commits hphase := (hphase.elim hp.1 hp.2.1).elim

theorem Orderly.write (h : s.Orderly) {c : Context} {phase : Option OperationPhase}
    (hr : s.running w = some r) (hphase : r.phase ≠ .checking ∧ r.phase ≠ .assigning)
    (hc : c.logMsgBaton3 = s.context.logMsgBaton3)
    (hlater : ∀ p ∈ phase, p ≠ .checking ∧ p ≠ .assigning ∧ p ≠ .converting ∧ p ≠ .testing) :
    (s.write w r c phase).Orderly := by
  refine h.update (w := w) ⟨h.sent, h.rejected⟩ hc rfl fun q hq => ?_
  obtain ⟨p, hp, rfl⟩ := Option.map_eq_some_iff.mp hq
  obtain ⟨h1, h2, h3, h4⟩ := hlater p hp
  exact fits_later (h.fits w r hr) hphase ⟨h1, h2, h3⟩ fun ht => absurd ht h4

/-- The assignment, while no other commit holds the slot. -/
theorem Orderly.assign (h : s.Orderly) (ho : r.call.operation = .commit)
    (hno : ∀ v q, s.running v = some q → q.holds = false) :
    (s.write w r { s.context with logMsgBaton3 := .messageRef w } (some .converting)).Orderly := by
  refine ⟨⟨h.sent, h.rejected⟩, fun v q hq => ?_⟩
  simp only [SharedContext.write, Option.map_some] at hq
  rcases update_eq_some_iff.mp hq with ⟨rfl, hnew⟩ | ⟨-, hold⟩
  · obtain rfl := Option.some.inj hnew
    exact ⟨fun _ => rfl, fun hne => absurd ho hne, fun _ => ho⟩
  · have hfree := hno v q hold
    exact ⟨fun hh => absurd (hfree.symm.trans hh) Bool.false_ne_true, (h.fits v q hold).unchanged,
      (h.fits v q hold).commits⟩

theorem Orderly.go (h : s.Orderly) (hr : s.running w = some r) (ha : Apart s (.go w)) :
    (s.go w r).Orderly := by
  have hfits := h.fits w r hr
  obtain ⟨hassign, htest⟩ := ha r hr
  unfold SharedContext.go
  cases hp : r.phase with
  | checking =>
    have ho := hfits.commits (.inl hp)
    cases hm : checkString r.call.message with
    | error e => exact h.leave w
    | ok _ =>
      refine h.goOn ⟨fun hh => ?_, fun hne => absurd ho hne, fun _ => ho⟩
      simp [RunningCall.holds] at hh
  | assigning => exact h.assign (hfits.commits (.inr hp)) (hassign hp)
  | converting =>
    cases hc : r.call.convert with
    | error e => exact h.leave w
    | ok _ =>
      refine h.goOn (fits_later hfits (by simp [hp]) ?_ fun _ => ⟨rfl, hp⟩)
      split <;> simp
  | testing =>
    by_cases hf : s.context.notifyFunc2 = .null
    · simp only [hf, ne_eq, not_true_eq_false, if_false]
      exact h.goOn (fits_later hfits (by simp [hp]) (by simp) (by simp))
    · have hupdate : r.call.operation ≠ .commit := fun ho => hf (htest hp ho)
      simp only [ne_eq, hf, not_false_eq_true, if_true]
      refine ⟨⟨h.sent, fun changed hc => ?_⟩, (h.leave w).fits⟩
      rcases List.mem_append.mp hc with hc | hc
      · exact h.rejected changed hc
      · rw [List.mem_singleton.mp hc]
        exact hfits.unchanged hupdate (.inr hp)
  | settingBaton => exact h.write hr (by simp [hp]) rfl (by simp)
  | settingFunc => exact h.write hr (by simp [hp]) rfl (by simp)
  | inLibsvn =>
    by_cases hn : r.call.operation.notifies = true
    · simp only [hn, if_true]
      exact h.goOn (fits_later hfits (by simp [hp]) (by simp) (by simp))
    · simp only [hn]
      exact h.leave w
  | clearingFunc => exact h.write hr (by simp [hp]) rfl (by simp)
  | clearingBaton => exact h.write hr (by simp [hp]) rfl (by simp)

theorem fits_fresh (p : Pointer) (w : Nat) (call : ClientCall) :
    (RunningCall.fresh call).Fits p w := by
  by_cases ho : call.operation = .commit
  · refine ⟨fun hh => ?_, fun hne => absurd ho hne, fun _ => ho⟩
    simp [RunningCall.holds, RunningCall.fresh, ho] at hh
  · refine ⟨fun hh => ?_, fun _ _ => rfl, fun hphase => ?_⟩
    · simp [RunningCall.holds, RunningCall.fresh, ho] at hh
    · simp [RunningCall.fresh, ho] at hphase

/-- libsvn takes the message of the commit that it runs. -/
theorem Orderly.message_eq (h : s.Orderly) (hr : s.running w = some r) (hh : r.holds = true) :
    s.message = some r.call.message := by
  unfold message
  rw [(h.fits w r hr).message hh]
  simp [hr, hh]

theorem Orderly.step (h : s.Orderly) {l : ContextLabel} (ha : Apart s l)
    (hs : s.step l = some t) : t.Orderly := by
  cases l with
  | enter w call =>
    unfold SharedContext.step at hs
    cases hr : s.running w with
    | some r => simp [hr] at hs
    | none =>
      simp only [hr, Option.some.injEq] at hs
      subst hs
      refine h.update (w := w) ⟨h.sent, h.rejected⟩ rfl rfl fun r hr => ?_
      obtain rfl := Option.some.inj hr
      exact fits_fresh _ w call
  | go w =>
    obtain ⟨r, hr, rfl⟩ := Option.map_eq_some_iff.mp hs
    exact h.go hr ha
  | logMessage w =>
    obtain ⟨r, hr, hs⟩ := Option.bind_eq_some_iff.mp hs
    split at hs
    · rename_i hcommit
      obtain rfl := Option.some.inj hs
      refine ⟨⟨fun m hm => ?_, h.rejected⟩, h.fits⟩
      rcases List.mem_append.mp hm with hm | hm
      · exact h.sent m hm
      · rw [List.mem_singleton.mp hm]
        exact h.message_eq hr (by simp [RunningCall.holds, hcommit.1, hcommit.2])
    · cases hs

end SharedContext

/-! ## One thread alone -/

section OneThread

variable {cancelled : SvnError} {i c : Context} {w : Nat} {s : SharedContext} {r : RunningCall}

/-- If only thread `w` goes on, its operation ends with the context `c`. -/
def EndsWith (i : Context) (w : Nat) (s : SharedContext) (c : Context) : Prop :=
  ∃ n t, (sharedMachine i).run s (List.replicate n (.go w)) = some t ∧ t.running w = none ∧
    t.context = c

theorem endsWith_here (hr : s.running w = none) : EndsWith i w s s.context := ⟨0, s, rfl, hr, rfl⟩

theorem endsWith_leave : EndsWith i w (s.leave w) s.context :=
  endsWith_here (Function.update_self ..)

theorem EndsWith.go (hr : s.running w = some r) (h : EndsWith i w (s.go w r) c) :
    EndsWith i w s c := by
  obtain ⟨n, t, hrun, hend⟩ := h
  have hstep : (sharedMachine i).step s (.go w) = some (s.go w r) := by
    show (s.running w).map (s.go w) = _
    rw [hr]
    rfl
  exact ⟨n + 1, t, by rw [List.replicate_succ, Machine.run_of_step hstep]; exact hrun, hend⟩

theorem endsWith_inLibsvn (hr : s.running w = some r) (hp : r.phase = .inLibsvn) :
    EndsWith i w s (if r.call.operation.notifies then
      { s.context with notifyFunc2 := .null, notifyBaton2 := .null } else s.context) := by
  refine .go hr ?_
  unfold SharedContext.go
  simp only [hp]
  split
  · refine .go (Function.update_self ..) (.go (Function.update_self ..) ?_)
    exact endsWith_here (Function.update_self ..)
  · exact endsWith_leave

theorem endsWith_testing (hr : s.running w = some r) (hp : r.phase = .testing)
    (hn : r.call.operation.notifies = true) :
    EndsWith i w s (contextOf ((libsvnPart cancelled w r.call).run s.context)) := by
  rw [contextOf_libsvnPart]
  refine .go hr ?_
  unfold SharedContext.go
  simp only [hp]
  by_cases hf : s.context.notifyFunc2 = .null
  · simp only [hf, ne_eq, not_true_eq_false, if_false, hn, and_self, if_true]
    refine .go (Function.update_self ..) (.go (Function.update_self ..) ?_)
    have hin := endsWith_inLibsvn (i := i) (w := w)
      (s := ((s.goOn w r .settingBaton).go w { r with phase := .settingBaton }).go w
        ⟨r.call, .settingFunc, r.changed || ({ s.context with notifyBaton2 := .scope w } : Context)
          ≠ s.context⟩) (Function.update_self ..) rfl
    rw [if_pos hn] at hin
    exact hin
  · simp only [ne_eq, hf, not_false_eq_true, if_true, and_false, if_false]
    exact endsWith_here (Function.update_self ..)

theorem endsWith_converting (hr : s.running w = some r) (hp : r.phase = .converting) :
    EndsWith i w s (if r.call.convert = .ok () then
      contextOf ((libsvnPart cancelled w r.call).run s.context) else s.context) := by
  refine .go hr ?_
  unfold SharedContext.go
  simp only [hp]
  cases hc : r.call.convert with
  | error e => exact endsWith_leave
  | ok _ =>
    rw [if_pos rfl]
    by_cases hn : r.call.operation.notifies = true
    · simp only [hn, if_true]
      exact endsWith_testing (r := { r with phase := .testing }) (Function.update_self ..) rfl hn
    · have hin := endsWith_inLibsvn (i := i) (s := s.goOn w r .inLibsvn)
        (Function.update_self ..) rfl
      rw [if_neg hn] at hin
      simp only [hn, contextOf_libsvnPart]
      exact hin

/-- **A thread that runs an operation alone ends with the context of `operate`.** -/
theorem enter_endsWith (cancelled : SvnError) (call : ClientCall) (hr : s.running w = none) :
    ∃ t, (sharedMachine i).step s (.enter w call) = some t ∧
      EndsWith i w t (finalContext cancelled w call s.context) := by
  have hstep : (sharedMachine i).step s (.enter w call) = some { s with
      running := Function.update s.running w (some (RunningCall.fresh call)) } := by
    simp only [sharedMachine, SharedContext.step, hr]
  refine ⟨_, hstep, ?_⟩
  rw [finalContext_eq]
  by_cases ho : call.operation = .commit
  · rw [if_pos ho]
    refine .go (r := ⟨call, .checking, false⟩) (by simp [RunningCall.fresh, ho]) ?_
    unfold SharedContext.go
    cases hm : checkString call.message with
    | error e => exact endsWith_leave
    | ok _ =>
      rw [if_pos rfl]
      refine .go (Function.update_self ..) ?_
      exact endsWith_converting (r := ⟨call, .converting, _⟩) (Function.update_self ..) rfl
  · rw [if_neg ho]
    have hfresh : RunningCall.fresh call = ⟨call, .converting, false⟩ := by
      simp [RunningCall.fresh, ho]
    rw [hfresh]
    exact endsWith_converting (r := ⟨call, .converting, false⟩) (Function.update_self ..) rfl

end OneThread

/-- **An operation alone leaves the context as it was exactly if `Restores`; and with the
commits apart, each sends its own message, whatever is rejected.** -/
theorem context_kept_iff (cancelled : SvnError) (c : Context) :
    (∀ (w : Nat) (call : ClientCall),
      finalContext cancelled w call c = c ↔ Restores w call c) ∧
    (∀ (ls : List ContextLabel) (s : SharedContext),
      (sharedMachine c).run (sharedMachine c).init ls = some s →
      (sharedMachine c).Meets Apart (sharedMachine c).init ls → s.Kept) := by
  refine ⟨fun w call => finalContext_eq_self_iff, fun ls s hrun hmeets => ?_⟩
  have hinit : (sharedMachine c).init.Orderly :=
    ⟨⟨by simp [sharedMachine], by simp [sharedMachine]⟩, by simp [sharedMachine]⟩
  exact (hmeets.invariant (I := SharedContext.Orderly) hinit
    (fun s l t h ha hs => h.step ha hs) hrun).toKept

/-! ## Two commits and an update -/

def plainCommit (message : String) : ClientCall := ⟨.commit, message, .ok (), [], none⟩

def plainUpdate : ClientCall := ⟨.update, "", .ok (), [], none⟩

def slotsNull : Context := ⟨.null, .null, .null⟩

section Meets

variable {c : Context} {s : SharedContext} {w : Nat} {r : RunningCall} {ls : List ContextLabel}

theorem meets_go (hr : s.running w = some r)
    (hassign : r.phase = .assigning → ∀ v q, s.running v = some q → q.holds = false)
    (htest : r.phase = .testing → r.call.operation = .commit → s.context.notifyFunc2 = .null)
    (h : (sharedMachine c).Meets Apart (s.go w r) ls) :
    (sharedMachine c).Meets Apart s (.go w :: ls) := by
  refine ⟨fun q hq => ?_, fun t ht => ?_⟩
  · obtain rfl := Option.some.inj (hr.symm.trans hq)
    exact ⟨hassign, htest⟩
  · obtain ⟨q, hq, rfl⟩ := Option.map_eq_some_iff.mp ht
    obtain rfl := Option.some.inj (hr.symm.trans hq)
    exact h

theorem meets_other {l : ContextLabel} {t : SharedContext} (hl : ∀ w, l ≠ .go w)
    (ht : s.step l = some t) (h : (sharedMachine c).Meets Apart t ls) :
    (sharedMachine c).Meets Apart s (l :: ls) := by
  refine ⟨?_, fun u hu => ?_⟩
  · cases l with
    | go w => exact absurd rfl (hl w)
    | enter w call => trivial
    | logMessage w => trivial
  · obtain rfl := Option.some.inj (ht.symm.trans hu)
    exact h

end Meets

def oneCommit : List ContextLabel :=
  .enter 0 (plainCommit "one") :: List.replicate 6 (.go 0)

/-- While the commit is in libsvn, an update is rejected and another commit gets its message
checked. -/
def besideOneCommit : List ContextLabel :=
  [.enter 1 plainUpdate, .enter 2 (plainCommit "two"), .go 1, .go 2, .go 1, .logMessage 0]

/-- The first commit ends, and the other goes on. -/
def nextCommit : List ContextLabel :=
  List.replicate 3 (.go 0) ++ List.replicate 5 (.go 2) ++ [.logMessage 2]

/-- A commit on a context where the last commit of the thread left its pointer; and two commits
that overlap, with an update that `notify_scope` rejects: each sends its own message. -/
theorem context_kept_iff_commit :
    finalContext (.last ⟨200015, "", "", -1⟩) 0 (plainCommit "one")
        ⟨.null, .null, .messageRef 0⟩ = ⟨.null, .null, .messageRef 0⟩ ∧
    ∃ s, (sharedMachine slotsNull).run (sharedMachine slotsNull).init
      (oneCommit ++ besideOneCommit ++ nextCommit) = some s ∧ s.Kept ∧
      s.sent = [⟨"one", some "one"⟩, ⟨"two", some "two"⟩] ∧ s.rejected = [false] := by
  have h := context_kept_iff (.last ⟨200015, "", "", -1⟩)
  refine ⟨((h ⟨.null, .null, .messageRef 0⟩).1 0 _).mpr ⟨fun _ => rfl, fun _ _ _ _ => rfl⟩, ?_⟩
  obtain ⟨s, hs⟩ := Option.isSome_iff_exists.mp
    (show ((sharedMachine slotsNull).run (sharedMachine slotsNull).init
      (oneCommit ++ besideOneCommit ++ nextCommit)).isSome = true from rfl)
  have hread := congrArg (Option.map fun t => (t.sent, t.rejected)) hs
  obtain ⟨hsent, hrejected⟩ := Prod.mk.inj (Option.some.inj hread)
  refine ⟨s, hs, (h slotsNull).2 _ _ hs ?_, hsent.symm, hrejected.symm⟩
  -- the first commit, up to libsvn
  refine meets_other (by simp) rfl (meets_go rfl (by nofun) (by nofun) ?_)
  refine meets_go rfl (fun _ => ?_) (by nofun) (meets_go rfl (by nofun) (by nofun) ?_)
  · rintro (_ | v) q ⟨⟩
    rfl
  iterate 3 refine meets_go rfl (by nofun) (fun _ _ => rfl) ?_
  -- the update and the second commit beside it
  refine meets_other (by simp) rfl (meets_other (by simp) rfl ?_)
  iterate 3 refine meets_go rfl (by nofun) (by nofun) ?_
  refine meets_other (by simp) rfl ?_
  -- the first commit leaves before the second assigns
  iterate 3 refine meets_go rfl (by nofun) (by nofun) ?_
  refine meets_go rfl (fun _ => ?_) (by nofun) (meets_go rfl (by nofun) (by nofun) ?_)
  · rintro (_ | _ | _ | v) q ⟨⟩
    rfl
  iterate 3 refine meets_go rfl (by nofun) (fun _ _ => rfl) ?_
  exact meets_other (by simp) rfl trivial

/-- One commit leaves its pointer behind.  Of two, the one that is rejected took the slot, and
the other sends its message. -/
theorem not_context_kept :
    (¬ ∀ (cancelled : SvnError) (w : Nat) (call : ClientCall) (c : Context),
      finalContext cancelled w call c = c) ∧
    ¬ ∀ (c : Context) (ls : List ContextLabel) (s : SharedContext),
      (sharedMachine c).run (sharedMachine c).init ls = some s → s.Kept := by
  constructor
  · intro h
    have hc := h (.last ⟨200015, "", "", -1⟩) 0 (plainCommit "one") slotsNull
    simp [finalContext_eq_self_iff, Restores, ClientCall.sends, plainCommit, slotsNull,
      checkString] at hc
  · intro h
    obtain ⟨s, hs⟩ := Option.isSome_iff_exists.mp
      (show ((sharedMachine slotsNull).run (sharedMachine slotsNull).init
        (oneCommit ++ [.enter 1 (plainCommit "two"), .go 1, .go 1, .logMessage 0])).isSome = true
        from rfl)
    have hsent : s.sent = [⟨"one", some "two"⟩] := by
      have hget := congrArg (Option.map SharedContext.sent) hs
      exact (Option.some.inj hget).symm
    have hm := (h slotsNull _ s hs).sent ⟨"one", some "two"⟩ (by simp [hsent])
    simp at hm

end NodeSvn
