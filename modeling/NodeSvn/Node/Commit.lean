import NodeSvn.Lib.Machine
import NodeSvn.Lib.Slots
import NodeSvn.Cpp.Records

/-!
# The path that a commit saves

`client::commit` has a local `notify_path`; two closures that outlive the call capture a
reference to it:

    notify      of a commit_finalizing notification: writes the path, yields nothing
                of any other: yields an item
    callback    reads the path, yields the item of action commit_finalizing

Both run when the event loop serves a `uv::async`, on an empty stack, and so never while
`client::commit` is on it.  The machine has the loop thread's stack, what its slots hold
after a return too, and any number of commits.  Each access of the saved path comes after
its scope, and a run keeps the law exactly if it comes to no such access
(`always_kept_iff`); what the item then shows is right only while nobody uses the slot
(`items_eq_of_undisturbed`).
-/

namespace NodeSvn

/-! ## The closures -/

/-- What a slot of the stack holds. -/
inductive Cell where
  | string (s : List UInt8)
  /-- Bytes that are no `std::string`. -/
  | other
  deriving DecidableEq, Repr

/-- `notify_action::commit_finalizing` -/
def commitFinalizing : Int := 79

structure CommitItem where
  action : Int
  path : Cell
  /-- `revision`, `date`, `author`, `post_commit_error` and `repos_root` -/
  info : Option CommitInfo

/-- A call of libsvn that a closure serves. -/
inductive CommitEvent where
  | notify (info : NotifyInfo)
  | commit (info : CommitInfo)

inductive Access where
  | read
  | write
  deriving DecidableEq, Repr

/-- `notify`: what `notify_path` then holds, and the item. -/
def notifyClosure (info : NotifyInfo) (notifyPath : Cell) : Cell × Option CommitItem :=
  if info.action = commitFinalizing then (.string info.path, none)
  else (notifyPath, some ⟨info.action, .string info.path, none⟩)

/-- `callback` -/
def callbackClosure (info : CommitInfo) (notifyPath : Cell) : CommitItem :=
  ⟨commitFinalizing, notifyPath, some info⟩

namespace CommitEvent

def serve (notifyPath : Cell) : CommitEvent → Cell × Option CommitItem
  | .notify info => notifyClosure info notifyPath
  | .commit info => (notifyPath, some (callbackClosure info notifyPath))

/-- The access of `notify_path`, if the closure makes one. -/
def access : CommitEvent → Option Access
  | .notify info => if info.action = commitFinalizing then some .write else none
  | .commit _ => some .read

end CommitEvent

/-! ## The loop thread -/

/-- A function on the stack of the loop thread. -/
inductive Frame where
  /-- `client::commit`, of the commit `i` -/
  | commit (i : Nat)
  | other
  deriving DecidableEq, Repr

structure CommitRun where
  /-- the address of `notify_path` -/
  slot : Nat
  /-- what the worker has sent and waits for -/
  pending : Option CommitEvent
  finished : Bool
  served : List CommitEvent
  items : List CommitItem
  /-- each access of `notify_path`, and whether it was in scope -/
  accesses : List (Access × Bool)

/-- The stack, the innermost function first.  Each function has one slot, and its address is
the number of the function's callers; a slot outlives its function. -/
structure LoopThread where
  frames : List Frame
  memory : Nat → Cell
  runs : Nat → Option CommitRun

inductive CommitLabel where
  /-- JS calls `client::commit` for the commit `i`. -/
  | commit (i : Nat)
  /-- Any other function is called. -/
  | call
  /-- The innermost function returns, and leaves `left` in its slot. -/
  | ret (left : Cell)
  /-- A function writes to a slot that is none of `client::commit`. -/
  | store (slot : Nat) (cell : Cell)
  /-- libsvn calls a callback of the commit `i`, and its worker sends it. -/
  | send (i : Nat) (event : CommitEvent)
  /-- The event loop serves what the commit `i` sent. -/
  | dispatch (i : Nat)
  | finish (i : Nat)

namespace LoopThread

def init : LoopThread := ⟨[], fun _ => .other, fun _ => none⟩

/-- The slot of a function on the stack; `below` are its callers. -/
def slotOf (below : List Frame) : Nat := below.length

/-- The slots of the calls of `client::commit` that have not returned. -/
def commitSlots : List Frame → List Nat
  | [] => []
  | .commit _ :: below => slotOf below :: commitSlots below
  | .other :: below => commitSlots below

def commit (s : LoopThread) (i : Nat) : LoopThread where
  frames := .commit i :: s.frames
  memory := Function.update s.memory (slotOf s.frames) (.string [])
  runs := Function.update s.runs i (some ⟨slotOf s.frames, none, false, [], [], []⟩)

/-- The closure of `event` runs; `notify_path` is in scope while `client::commit` is on the
stack. -/
def serve (s : LoopThread) (i : Nat) (r : CommitRun) (event : CommitEvent) : LoopThread where
  frames := s.frames
  memory := Function.update s.memory r.slot (event.serve (s.memory r.slot)).1
  runs := Function.update s.runs i (some { r with
    pending := none
    served := r.served ++ [event]
    items := r.items ++ (event.serve (s.memory r.slot)).2.toList
    accesses := r.accesses ++ event.access.toList.map (·, decide (.commit i ∈ s.frames)) })

def step (s : LoopThread) : CommitLabel → Option LoopThread
  | .commit i => if s.runs i = none then some (s.commit i) else none
  | .call => some { s with frames := .other :: s.frames }
  | .ret left =>
    match s.frames with
    | [] => none
    | _ :: below =>
      some { s with frames := below, memory := Function.update s.memory (slotOf below) left }
  | .store slot cell =>
    if slot ∈ commitSlots s.frames then none
    else some { s with memory := Function.update s.memory slot cell }
  | .send i event =>
    match s.runs i with
    | some r =>
      if r.finished = false ∧ r.pending.isNone then
        some { s with runs := Function.update s.runs i (some { r with pending := some event }) }
      else none
    | none => none
  | .dispatch i =>
    -- `uv_run` is the bottom of the stack: no function of JS or of C++ waits on it
    if s.frames = [] then
      match s.runs i with
      | some r => r.pending.map (s.serve i r)
      | none => none
    else none
  | .finish i =>
    match s.runs i with
    | some r =>
      if r.pending.isNone then
        some { s with runs := Function.update s.runs i (some { r with finished := true }) }
      else none
    | none => none

end LoopThread

def commitMachine : Machine LoopThread CommitLabel where
  init := .init
  step := LoopThread.step

/-! ## The law -/

/-- The path of the last `commit_finalizing` notification, or else `path`. -/
def savedPath (path : List UInt8) : List CommitEvent → List UInt8
  | [] => path
  | .notify info :: rest =>
    if info.action = commitFinalizing then savedPath info.path rest else savedPath path rest
  | .commit _ :: rest => savedPath path rest

/-- The items of a run that had saved `path` before: the final one shows what is saved. -/
def expectedItems (path : List UInt8) : List CommitEvent → List CommitItem
  | [] => []
  | .notify info :: rest =>
    if info.action = commitFinalizing then expectedItems info.path rest
    else ⟨info.action, .string info.path, none⟩ :: expectedItems path rest
  | .commit info :: rest =>
    ⟨commitFinalizing, .string path, some info⟩ :: expectedItems path rest

structure CommitRun.Kept (r : CommitRun) : Prop where
  items : r.items = expectedItems [] r.served
  scope : ∀ a ∈ r.accesses, a.2 = true

def LoopThread.Kept (s : LoopThread) : Prop := ∀ i r, s.runs i = some r → r.Kept

/-- The event loop serves no notification that saves the path, and no callback that reads
it. -/
def Untouched (s : LoopThread) : CommitLabel → Prop
  | .dispatch i => ∀ r event, s.runs i = some r → r.pending = some event → event.access = none
  | _ => True

section Law

variable {s t : LoopThread} {i : Nat} {r : CommitRun} {event : CommitEvent} {path : List UInt8}
  {events : List CommitEvent}

/-- The closure does to the saved path what it is for. -/
theorem serve_string (event : CommitEvent) (path : List UInt8) :
    (event.serve (.string path)).1 = .string (savedPath path [event]) ∧
      (event.serve (.string path)).2.toList = expectedItems path [event] := by
  cases event with
  | commit info => exact ⟨rfl, rfl⟩
  | notify info =>
    rw [CommitEvent.serve, notifyClosure, savedPath, expectedItems]
    by_cases hfinal : info.action = commitFinalizing
    · rw [if_pos hfinal, if_pos hfinal, if_pos hfinal]
      exact ⟨rfl, rfl⟩
    · rw [if_neg hfinal, if_neg hfinal, if_neg hfinal]
      exact ⟨rfl, rfl⟩

theorem savedPath_snoc :
    savedPath path (events ++ [event]) = savedPath (savedPath path events) [event] := by
  induction events generalizing path with
  | nil => rfl
  | cons e rest ih =>
    cases e with
    | commit info => exact ih
    | notify info =>
      rw [List.cons_append, savedPath, savedPath]
      by_cases hfinal : info.action = commitFinalizing
      · rw [if_pos hfinal, if_pos hfinal, ih]
      · rw [if_neg hfinal, if_neg hfinal, ih]

theorem expectedItems_snoc :
    expectedItems path (events ++ [event]) =
      expectedItems path events ++ expectedItems (savedPath path events) [event] := by
  induction events generalizing path with
  | nil => rfl
  | cons e rest ih =>
    cases e with
    | commit info =>
      rw [List.cons_append, expectedItems, expectedItems, ih]
      rfl
    | notify info =>
      rw [List.cons_append, expectedItems, expectedItems, savedPath]
      by_cases hfinal : info.action = commitFinalizing
      · rw [if_pos hfinal, if_pos hfinal, if_pos hfinal, ih]
      · rw [if_neg hfinal, if_neg hfinal, if_neg hfinal, ih]
        rfl

/-- A closure that does not use the path yields the same item whatever the slot holds. -/
theorem serve_untouched (h : event.access = none) (cell : Cell) (path : List UInt8) :
    (event.serve cell).2.toList = expectedItems path [event] := by
  cases event with
  | commit info => cases h
  | notify info =>
    have hfinal : info.action ≠ commitFinalizing := by
      intro hfinal
      rw [CommitEvent.access, if_pos hfinal] at h
      cases h
    rw [CommitEvent.serve, notifyClosure, expectedItems, if_neg hfinal, if_neg hfinal]
    rfl

/-- The law is about each commit by itself. -/
theorem kept_update (hs : s.Kept) (ht : t.runs = Function.update s.runs i (some r)) :
    t.Kept ↔ r.Kept := by
  rw [LoopThread.Kept, ht, forall_update_iff]
  constructor
  · rintro ⟨hnew, -⟩
    exact hnew r rfl
  · intro hr
    refine ⟨fun q hq => ?_, fun j q _ hq => hs j q hq⟩
    obtain rfl := Option.some.inj hq
    exact hr

theorem kept_serve (hs : s.Kept) (hframes : s.frames = []) (hr : s.runs i = some r) :
    (s.serve i r event).Kept ↔ event.access = none := by
  rw [kept_update hs rfl]
  have hrun := hs i r hr
  constructor
  · intro hkept
    cases haccess : event.access with
    | none => rfl
    | some access =>
      have hscope := hkept.scope (access, decide (.commit i ∈ s.frames))
        (List.mem_append_right _ (by rw [haccess]; exact List.mem_singleton.mpr rfl))
      rw [hframes] at hscope
      cases hscope
  · intro haccess
    constructor
    · show r.items ++ (event.serve (s.memory r.slot)).2.toList =
        expectedItems [] (r.served ++ [event])
      rw [expectedItems_snoc, ← hrun.items, serve_untouched haccess]
    · intro a ha
      rw [haccess] at ha
      refine hrun.scope a ?_
      simpa using ha

/-! ### What a step does -/

theorem step_ret {left : Cell} (h : s.step (.ret left) = some t) :
    ∃ f below, s.frames = f :: below ∧
      t = { s with
        frames := below, memory := Function.update s.memory (LoopThread.slotOf below) left } := by
  rw [LoopThread.step] at h
  split at h
  · cases h
  · rename_i f below hframes
    exact ⟨f, below, hframes, (Option.some.inj h).symm⟩

theorem step_send (h : s.step (.send i event) = some t) :
    ∃ r, s.runs i = some r ∧
      t = { s with runs := Function.update s.runs i (some { r with pending := some event }) } := by
  rw [LoopThread.step] at h
  cases hr : s.runs i with
  | none =>
    rw [hr] at h
    cases h
  | some r =>
    rw [hr] at h
    obtain ⟨-, ht⟩ := Option.ite_none_right_eq_some.mp h
    exact ⟨r, rfl, (Option.some.inj ht).symm⟩

theorem step_dispatch (h : s.step (.dispatch i) = some t) :
    s.frames = [] ∧ ∃ r event, s.runs i = some r ∧ r.pending = some event ∧
      t = s.serve i r event := by
  rw [LoopThread.step] at h
  obtain ⟨hframes, h⟩ := Option.ite_none_right_eq_some.mp h
  refine ⟨hframes, ?_⟩
  cases hr : s.runs i with
  | none =>
    rw [hr] at h
    cases h
  | some r =>
    rw [hr] at h
    obtain ⟨event, hevent, ht⟩ := Option.map_eq_some_iff.mp h
    exact ⟨r, event, rfl, hevent, ht.symm⟩

theorem step_finish (h : s.step (.finish i) = some t) :
    ∃ r, s.runs i = some r ∧
      t = { s with runs := Function.update s.runs i (some { r with finished := true }) } := by
  rw [LoopThread.step] at h
  cases hr : s.runs i with
  | none =>
    rw [hr] at h
    cases h
  | some r =>
    rw [hr] at h
    obtain ⟨-, ht⟩ := Option.ite_none_right_eq_some.mp h
    exact ⟨r, rfl, (Option.some.inj ht).symm⟩

/-- **A step keeps the law exactly if it is `Untouched`.** -/
theorem kept_step (hs : s.Kept) {l : CommitLabel} (h : s.step l = some t) :
    t.Kept ↔ Untouched s l := by
  cases l with
  | commit i =>
    obtain ⟨-, ht⟩ := Option.ite_none_right_eq_some.mp h
    obtain rfl := Option.some.inj ht
    rw [kept_update hs rfl]
    exact ⟨fun _ => trivial, fun _ => ⟨rfl, fun a ha => by cases ha⟩⟩
  | call =>
    obtain rfl := Option.some.inj h
    exact ⟨fun _ => trivial, fun _ => hs⟩
  | ret left =>
    obtain ⟨f, below, -, rfl⟩ := step_ret h
    exact ⟨fun _ => trivial, fun _ => hs⟩
  | store slot cell =>
    obtain ⟨-, ht⟩ := Option.ite_none_left_eq_some.mp h
    obtain rfl := Option.some.inj ht
    exact ⟨fun _ => trivial, fun _ => hs⟩
  | send i event =>
    obtain ⟨r, hr, rfl⟩ := step_send h
    rw [kept_update hs rfl]
    exact ⟨fun _ => trivial, fun _ => ⟨(hs i r hr).items, (hs i r hr).scope⟩⟩
  | dispatch i =>
    obtain ⟨hframes, r, event, hr, hpending, rfl⟩ := step_dispatch h
    rw [kept_serve hs hframes hr]
    constructor
    · intro haccess q e hq he
      obtain rfl := Option.some.inj (hr.symm.trans hq)
      obtain rfl := Option.some.inj (hpending.symm.trans he)
      exact haccess
    · intro h
      exact h r event hr hpending
  | finish i =>
    obtain ⟨r, hr, rfl⟩ := step_finish h
    rw [kept_update hs rfl]
    exact ⟨fun _ => trivial, fun _ => ⟨(hs i r hr).items, (hs i r hr).scope⟩⟩

theorem init_kept : LoopThread.init.Kept := by
  intro i r hr
  cases hr

/-! ### While nobody uses the slots -/

/-- The step leaves every saved path where it was. -/
def Undisturbed (s : LoopThread) : CommitLabel → Prop
  | .commit _ => ∀ i r, s.runs i = some r → r.slot ≠ LoopThread.slotOf s.frames
  | .ret left => ∀ f below, s.frames = f :: below → s.memory (LoopThread.slotOf below) = left
  | .store slot _ => ∀ i r, s.runs i = some r → r.slot ≠ slot
  | _ => True

/-- What luck has to keep. -/
structure Lucky (s : LoopThread) : Prop where
  items : ∀ i r, s.runs i = some r → r.items = expectedItems [] r.served
  saved : ∀ i r, s.runs i = some r → s.memory r.slot = .string (savedPath [] r.served)
  apart : ∀ i j r q, s.runs i = some r → s.runs j = some q → r.slot = q.slot → i = j

/-- The commit `i` changes, in place, to what is lucky too. -/
theorem Lucky.update (h : Lucky s) (ht : t.runs = Function.update s.runs i (some r))
    (hitems : r.items = expectedItems [] r.served)
    (hsaved : t.memory r.slot = .string (savedPath [] r.served))
    (hother : ∀ j q, j ≠ i → s.runs j = some q → q.slot ≠ r.slot ∧
      t.memory q.slot = s.memory q.slot) : Lucky t := by
  have hcases : ∀ j q, t.runs j = some q → (j = i ∧ q = r) ∨ (j ≠ i ∧ s.runs j = some q) := by
    intro j q hq
    rw [ht] at hq
    rcases update_eq_some_iff.mp hq with ⟨hj, hq⟩ | ⟨hj, hq⟩
    · exact .inl ⟨hj, (Option.some.inj hq).symm⟩
    · exact .inr ⟨hj, hq⟩
  constructor
  · intro j q hq
    rcases hcases j q hq with ⟨-, rfl⟩ | ⟨-, hq⟩
    · exact hitems
    · exact h.items j q hq
  · intro j q hq
    rcases hcases j q hq with ⟨-, rfl⟩ | ⟨hj, hq⟩
    · exact hsaved
    · rw [(hother j q hj hq).2]
      exact h.saved j q hq
  · intro j k q p hq hp hslot
    rcases hcases j q hq with ⟨rfl, rfl⟩ | ⟨hj, hq⟩
    · rcases hcases k p hp with ⟨rfl, -⟩ | ⟨hk, hp⟩
      · rfl
      · exact absurd hslot.symm (hother k p hk hp).1
    · rcases hcases k p hp with ⟨rfl, rfl⟩ | ⟨hk, hp⟩
      · exact absurd hslot (hother j q hj hq).1
      · exact h.apart j k q p hq hp hslot

theorem lucky_step {l : CommitLabel} (h : Lucky s) (hl : Undisturbed s l)
    (hstep : s.step l = some t) : Lucky t := by
  have hapart : ∀ {i r}, s.runs i = some r → ∀ j q, j ≠ i → s.runs j = some q → q.slot ≠ r.slot :=
    fun hr j q hj hq hslot => hj (h.apart j _ q _ hq hr hslot)
  cases l with
  | commit i =>
    obtain ⟨-, ht⟩ := Option.ite_none_right_eq_some.mp hstep
    obtain rfl := Option.some.inj ht
    refine h.update rfl rfl (Function.update_self ..) ?_
    rintro j q - hq
    have hslot := hl j q hq
    exact ⟨hslot, Function.update_of_ne hslot ..⟩
  | call =>
    obtain rfl := Option.some.inj hstep
    exact ⟨h.items, h.saved, h.apart⟩
  | ret left =>
    obtain ⟨f, below, hframes, rfl⟩ := step_ret hstep
    have hleft := hl f below hframes
    refine ⟨h.items, ?_, h.apart⟩
    intro i r hr
    show Function.update s.memory (LoopThread.slotOf below) left r.slot = _
    rw [← hleft, Function.update_eq_self]
    exact h.saved i r hr
  | store slot cell =>
    obtain ⟨-, ht⟩ := Option.ite_none_left_eq_some.mp hstep
    obtain rfl := Option.some.inj ht
    refine ⟨h.items, ?_, h.apart⟩
    intro i r hr
    show Function.update s.memory slot cell r.slot = _
    rw [Function.update_of_ne (hl i r hr)]
    exact h.saved i r hr
  | send i event =>
    obtain ⟨r, hr, rfl⟩ := step_send hstep
    exact h.update rfl (h.items i r hr) (h.saved i r hr)
      fun j q hj hq => ⟨hapart hr j q hj hq, rfl⟩
  | finish i =>
    obtain ⟨r, hr, rfl⟩ := step_finish hstep
    exact h.update rfl (h.items i r hr) (h.saved i r hr)
      fun j q hj hq => ⟨hapart hr j q hj hq, rfl⟩
  | dispatch i =>
    obtain ⟨-, r, event, hr, -, rfl⟩ := step_dispatch hstep
    have hsaved := h.saved i r hr
    obtain ⟨hpath, hitem⟩ := serve_string event (savedPath [] r.served)
    refine h.update rfl ?_ ?_ ?_
    · show r.items ++ (event.serve (s.memory r.slot)).2.toList =
        expectedItems [] (r.served ++ [event])
      rw [expectedItems_snoc, hsaved, hitem, h.items i r hr]
    · show Function.update s.memory r.slot (event.serve (s.memory r.slot)).1 r.slot =
        .string (savedPath [] (r.served ++ [event]))
      rw [Function.update_self, savedPath_snoc, hsaved, hpath]
    · intro j q hj hq
      have hslot := hapart hr j q hj hq
      exact ⟨hslot, Function.update_of_ne hslot ..⟩

/-- **The items are right as long as nobody uses the slot of a saved path**, in scope or
not. -/
theorem items_eq_of_undisturbed {ls : List CommitLabel} (h : commitMachine.run .init ls = some s)
    (hls : commitMachine.Meets Undisturbed .init ls) (hr : s.runs i = some r) :
    r.items = expectedItems [] r.served := by
  have hinit : Lucky .init := by
    constructor
    · intro i r hr
      cases hr
    · intro i r hr
      cases hr
    · intro i j r q hr
      cases hr
  have hlucky := Machine.Meets.invariant hinit (fun _ _ _ hs hl hstep => lucky_step hs hl hstep)
    hls h
  exact hlucky.items i r hr

end Law

/-! ## All runs -/

/-- **In a run with any commits and any other use of the stack, each commit keeps the law
exactly if the event loop comes to no access of a saved path.** -/
theorem always_kept_iff (ls : List CommitLabel) (s : LoopThread)
    (h : commitMachine.run .init ls = some s) :
    commitMachine.Always LoopThread.Kept .init ls ↔ commitMachine.Meets Untouched .init ls :=
  Machine.always_iff_meets (I := fun _ => True) trivial init_kept
    (fun _ _ _ _ hs hstep => ⟨kept_step hs hstep, fun _ => trivial⟩) h

/-- A commit of one file that libsvn notifies of, and that then fails. -/
theorem always_kept_iff_added :
    commitMachine.Always LoopThread.Kept .init
      [.call, .commit 0, .send 0 (.notify ⟨16, [97], none⟩), .ret .other, .ret .other, .dispatch 0,
        .finish 0] := by
  obtain ⟨s, hs⟩ := Option.isSome_iff_exists.mp
    (show (commitMachine.run .init
      [.call, .commit 0, .send 0 (.notify ⟨16, [97], none⟩), .ret .other, .ret .other, .dispatch 0,
        .finish 0]).isSome = true from rfl)
  refine (always_kept_iff _ s hs).mpr ⟨trivial, ?_⟩
  rintro _ ⟨rfl⟩
  refine ⟨trivial, ?_⟩
  rintro _ ⟨rfl⟩
  refine ⟨trivial, ?_⟩
  rintro _ ⟨rfl⟩
  refine ⟨trivial, ?_⟩
  rintro _ ⟨rfl⟩
  refine ⟨trivial, ?_⟩
  rintro _ ⟨rfl⟩
  refine ⟨?_, fun _ _ => ⟨trivial, fun _ _ => trivial⟩⟩
  intro r event hr hevent
  obtain rfl := Option.some.inj hr
  obtain rfl := Option.some.inj hevent
  rfl

/-- Two commits, one after the other at the same depth of the stack.  The path that the second
saves is the one that the first shows. -/
def twoCommits : List CommitLabel :=
  [.commit 0, .ret .other, .send 0 (.notify ⟨79, [97], none⟩), .dispatch 0, .commit 1, .ret .other,
    .send 1 (.notify ⟨79, [98], none⟩), .dispatch 1, .send 0 (.commit ⟨1, [], [], none, none⟩),
    .dispatch 0]

theorem not_always_kept :
    (¬ ∀ ls s i r, commitMachine.run .init ls = some s → s.runs i = some r →
        r.items = expectedItems [] r.served) ∧
      ¬ ∀ ls s i r, commitMachine.run .init ls = some s → s.runs i = some r →
        ∀ a ∈ r.accesses, a.2 = true := by
  obtain ⟨s, hs⟩ := Option.isSome_iff_exists.mp
    (show (commitMachine.run .init twoCommits).isSome = true from rfl)
  obtain ⟨r, hr, hitems, hexpected, haccesses⟩ : ∃ r, s.runs 0 = some r ∧
      r.items.map CommitItem.path = [.string [98]] ∧
      (expectedItems [] r.served).map CommitItem.path = [.string [97]] ∧
      r.accesses = [(.write, false), (.read, false)] := by
    obtain rfl := Option.some.inj hs
    exact ⟨_, rfl, rfl, rfl, rfl⟩
  constructor
  · intro h
    rw [h _ s 0 r hs hr, hexpected] at hitems
    exact absurd hitems (by decide)
  · intro h
    have hscope := h _ s 0 r hs hr (.write, false) (by rw [haccesses]; exact List.mem_cons_self)
    cases hscope

end NodeSvn
