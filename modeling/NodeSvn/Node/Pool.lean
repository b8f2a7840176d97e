import Mathlib.Data.Fintype.Fin
import NodeSvn.Node.StreamLaw

/-!
# Operations on the thread pool

`pool N calls` runs any number of operations on `N` pool threads: streaming ones, each with
its consumer, and ones that return a promise.  Jobs start in the order in which they were
queued; the loop thread serves one operation at a time; between two calls of `next` a
consumer may await the completion of another operation.

A worker keeps its thread while its item is not consumed, and what follows from this is in
`PoolDeadlock` and `PoolLaw`.  Here are the steps, what one of them can do (`moves`), and the
invariant of the queue (`Inv`).
-/

namespace NodeSvn

/-- An operation whose method returns a promise. -/
inductive PromiseOp where
  | queued
  | running
  | finished
  | settled
  deriving DecidableEq, Repr

inductive OpCall (α : Type) where
  | stream (c : StreamCall α)
  | promise

inductive Op (α : Type) where
  | stream (c : StreamCall α) (s : StreamState α)
  | promise (p : PromiseOp)

variable {α : Type}

def PromiseOp.step : PromiseOp → StreamLabel → Option PromiseOp
  | .queued, .start => some .running
  | .running, .finish => some .finished
  | .finished, .afterWork => some .settled
  | _, _ => none

/-- What ends an iteration: `{done: true}` or a rejection. -/
def Settlement.isEnd {V : Type} : Settlement V → Bool
  | .fulfilled _ done => done
  | .rejected _ => true

def OpCall.init : OpCall α → Op α
  | .stream c => .stream c c.init
  | .promise => .promise .queued

namespace Op

def step (o : Op α) (l : StreamLabel) : Option (Op α) :=
  match o with
  | .stream c s => (s.step c l).map (.stream c)
  | .promise p => (p.step l).map .promise

def queued : Op α → Bool
  | .stream _ s => s.worker = .queued
  | .promise p => p = .queued

/-- A pool thread executes the job. -/
def running : Op α → Bool
  | .stream _ s => s.worker ≠ .queued ∧ s.worker ≠ .finished
  | .promise p => p = .running

/-- The loop thread is in a call for this operation. -/
def busy : Op α → Bool
  | .stream _ s => s.loop ≠ .idle
  | .promise _ => false

/-- The job and its after-work step are done. -/
def finished : Op α → Bool
  | .stream _ s => s.worker = .finished ∧ s.job.isNone ∧ s.loop = .idle
  | .promise p => p = .settled

/-- JS has seen the end of the operation. -/
def complete : Op α → Bool
  | .stream _ s => s.tr.answers.any Settlement.isEnd
  | .promise p => p = .settled

/-- The worker waits for the consumer to take the stored item. -/
def waits : Op α → Bool
  | .stream _ s => match s.worker with
    | .consume _ => s.tr.it.resolverFulfilled
    | _ => false
  | .promise _ => false

/-- The consumer is between two calls of `next`. -/
def betweenAsks : Op α → Bool
  | .stream _ s => s.tr.LastSettled
  | .promise _ => false

end Op

structure PoolState (α : Type) (n : Nat) where
  ops : Fin n → Op α
  submitted : Fin n → Bool
  /-- the jobs that no thread has taken yet -/
  queue : List (Fin n)
  /-- the operation that a consumer awaits -/
  awaiting : Fin n → Option (Fin n)

inductive PoolLabel (n : Nat) where
  /-- JS calls the method -/
  | submit (i : Fin n)
  /-- a free thread takes the first job -/
  | start
  | op (i : Fin n) (l : StreamLabel)
  /-- the consumer of `i` awaits the completion of `j` -/
  | await (i j : Fin n)
  | resume (i : Fin n)
  deriving DecidableEq, Repr

namespace PoolState

variable {n : Nat}

def running (s : PoolState α n) : Nat := (Finset.univ.filter fun i => (s.ops i).running).card

/-- The loop thread serves one operation at a time, and a consumer that awaits, or has seen
the end, does not call `next`. -/
def allowed (s : PoolState α n) (i : Fin n) : StreamLabel → Bool
  | .start => false
  | .dispatch => ∀ k, (s.ops k).busy = false
  | .afterWork => ∀ k, (s.ops k).busy = false
  | .next => s.submitted i ∧ (s.awaiting i).isNone ∧ (s.ops i).complete = false
  | _ => true

def setOp (s : PoolState α n) (i : Fin n) (o : Op α) : PoolState α n :=
  { s with ops := Function.update s.ops i o }

def step (N : Nat) (s : PoolState α n) : PoolLabel n → Option (PoolState α n)
  | .submit i =>
    if s.submitted i then none
    else some { s with
      submitted := Function.update s.submitted i true, queue := s.queue ++ [i] }
  | .start =>
    match s.queue with
    | [] => none
    | i :: queue =>
      if s.running < N then
        ((s.ops i).step .start).map fun o => { s.setOp i o with queue := queue }
      else none
  | .op i l => if s.allowed i l then ((s.ops i).step l).map (s.setOp i) else none
  | .await i j =>
    if i ≠ j ∧ s.submitted i ∧ s.submitted j ∧ (s.awaiting i).isNone ∧ (s.ops i).betweenAsks then
      some { s with awaiting := Function.update s.awaiting i (some j) }
    else none
  | .resume i =>
    match s.awaiting i with
    | none => none
    | some j =>
      if (s.ops j).complete then some { s with awaiting := Function.update s.awaiting i none }
      else none

end PoolState

/-- `N` pool threads, the loop thread, and the JS that made the calls. -/
def pool (N : Nat) {n : Nat} (calls : Fin n → OpCall α) :
    Machine (PoolState α n) (PoolLabel n) where
  init := ⟨fun i => (calls i).init, fun _ => false, [], fun _ => none⟩
  step := PoolState.step N

/-- A step of a worker, the loop thread or a consumer that goes on with what was begun. -/
def PoolLabel.continues {n : Nat} : PoolLabel n → Bool
  | .submit _ => false
  | .await _ _ => false
  | _ => true

/-! ## One operation in the pool -/

namespace Op

variable {o o' : Op α} {l : StreamLabel}

def Sound : Op α → Prop
  | .stream c s => (NodeSvn.stream c).Reachable s
  | .promise _ => True

theorem Sound.step (h : o.Sound) (hs : o.step l = some o') : o'.Sound := by
  cases o with
  | stream c s =>
    obtain ⟨s', hs', rfl⟩ := Option.map_eq_some_iff.mp hs
    exact Machine.Reachable.step (M := NodeSvn.stream c) (l := l) h hs'
  | promise p =>
    obtain ⟨p', -, rfl⟩ := Option.map_eq_some_iff.mp hs
    trivial

theorem init_sound (call : OpCall α) : call.init.Sound := by
  cases call with
  | stream c => exact .refl
  | promise => trivial

theorem init_queued (call : OpCall α) : call.init.queued = true := by
  cases call <;> rfl

/-- Only `start` takes a job from the queue. -/
theorem worker_queued_step {c : StreamCall α} {s s' : StreamState α} (hs : s.step c l = some s')
    (hl : l ≠ .start) : s'.worker = .queued ↔ s.worker = .queued := by
  have hthrew : ∀ e, c.op.threw e ≠ .queued := by
    intro e
    rcases c.op.threw_cases e with he | he <;> simp [he]
  cases l with
  | start => exact absurd rfl hl
  | report =>
    simp only [StreamState.step, StreamState.report] at hs
    split at hs
    · rename_i a todo hw _
      split at hs
      · obtain rfl := Option.some.inj hs
        simp [hw]
      · split at hs
        · obtain rfl := Option.some.inj hs
          simp [hw]
        · obtain rfl := Option.some.inj hs
          simp [hw, hthrew]
    · cases hs
  | dispatch =>
    simp only [StreamState.step, StreamState.dispatch] at hs
    repeat' split at hs
    all_goals cases hs <;> rfl
  | ret =>
    simp only [StreamState.step, StreamState.ret] at hs
    repeat' split at hs
    all_goals cases hs <;> rfl
  | future =>
    simp only [StreamState.step, StreamState.future] at hs
    split at hs
    · rename_i hw _
      obtain rfl := Option.some.inj hs
      simp [hw]
    · rename_i hw _
      obtain rfl := Option.some.inj hs
      simp [hw, hthrew]
    · cases hs
  | consumed =>
    simp only [StreamState.step, StreamState.consumed] at hs
    split at hs
    · rename_i hw
      split at hs
      · obtain rfl := Option.some.inj hs
        simp [hw]
      · obtain rfl := Option.some.inj hs
        simp [hw, hthrew]
      · cases hs
    · cases hs
  | finish =>
    simp only [StreamState.step, StreamState.finish] at hs
    split at hs
    · rename_i hw _
      obtain rfl := Option.some.inj hs
      simp [hw]
    · rename_i hw
      obtain rfl := Option.some.inj hs
      simp [hw]
    · cases hs
  | afterWork =>
    simp only [StreamState.step, StreamState.afterWork] at hs
    repeat' split at hs
    all_goals cases hs <;> rfl
  | next =>
    simp only [StreamState.step, StreamState.next] at hs
    split at hs
    · obtain rfl := Option.some.inj hs
      rfl
    · cases hs

theorem queued_step (hs : o.step l = some o') (hl : l ≠ .start) : o'.queued = o.queued := by
  cases o with
  | stream c s =>
    obtain ⟨s', hs', rfl⟩ := Option.map_eq_some_iff.mp hs
    simp only [queued, worker_queued_step hs' hl]
  | promise p =>
    obtain ⟨p', hs', rfl⟩ := Option.map_eq_some_iff.mp hs
    cases p <;> cases l <;> simp [PromiseOp.step] at hs' hl ⊢ <;> subst hs' <;> rfl

theorem start_of_queued (h : o.queued = true) :
    ∃ o', o.step .start = some o' ∧ o'.queued = false := by
  cases o with
  | stream c s =>
    have hw : s.worker = .queued := by simpa [queued] using h
    exact ⟨.stream c { s with worker := .libsvn }, by simp [step, StreamState.step, hw], by
      simp [queued]⟩
  | promise p =>
    obtain rfl : p = .queued := by simpa [queued] using h
    exact ⟨.promise .running, rfl, rfl⟩

theorem ret_of_busy (h : o.Sound) (hb : o.busy = true) : (o.step .ret).isSome = true := by
  cases o with
  | stream c s =>
    have hcrash := (StreamState.flow_reachable h).no_failure.2.2
    cases hl : s.loop with
    | idle => simp [busy, hl] at hb
    | yielding => simp [step, StreamState.step, StreamState.ret, hl]
    | ending =>
      simp only [step, StreamState.step, StreamState.ret, hl, Option.isSome_map]
      split <;> rfl
    | crashed => exact absurd hl hcrash
  | promise p => simp [busy] at hb

/-- A job that a thread has taken goes on by itself, unless its consumer has to go on. -/
theorem Sound.goes_on (h : o.Sound) (hq : o.queued = false) :
    (∃ l, l ≠ .next ∧ l ≠ .start ∧ (o.step l).isSome = true) ∨ o.waits = true ∨
      o.finished = true := by
  cases o with
  | stream c s =>
    have hnot : s.worker ≠ .queued := by simpa [queued] using hq
    rcases (StreamState.flow_reachable h).enabled with ⟨l, hl, he⟩ | hw | hd
    · refine .inl ⟨l, hl, ?_, by rw [Op.step, Option.isSome_map]; exact he⟩
      rintro rfl
      simp [Machine.Enabled, NodeSvn.stream, StreamState.step] at he
    · obtain ⟨⟨f, hf⟩, hful⟩ := hw
      exact .inr (.inl (by simp [waits, hf, hful]))
    · obtain ⟨hw, hl, hj, -⟩ := hd
      exact .inr (.inr (by simp [finished, hw, hl, hj]))
  | promise p =>
    cases p with
    | queued => simp [queued] at hq
    | running => exact .inl ⟨.finish, by simp, by simp, rfl⟩
    | finished => exact .inl ⟨.afterWork, by simp, by simp, rfl⟩
    | settled => exact .inr (.inr rfl)

theorem not_running_of_finished (h : o.finished = true) : o.running = false := by
  cases o with
  | stream c s =>
    simp only [finished, decide_eq_true_eq] at h
    simp [running, h.1]
  | promise p =>
    simp only [finished, decide_eq_true_eq] at h
    simp [running, h]

theorem not_queued_of_running (h : o.running = true) : o.queued = false := by
  cases o with
  | stream c s =>
    simp only [running, decide_eq_true_eq] at h
    simp [queued, h.1]
  | promise p =>
    simp only [running, decide_eq_true_eq] at h
    simp [queued, h]

theorem running_of_waits (h : o.waits = true) : o.running = true := by
  cases o with
  | stream c s =>
    simp only [waits] at h
    split at h
    · rename_i f hw
      simp [running, hw]
    · cases h
  | promise p => cases h

theorem not_queued_of_waits (h : o.waits = true) : o.queued = false :=
  not_queued_of_running (running_of_waits h)

theorem isEnd_marker (c : StreamCall α) : c.marker.isEnd = true := by
  unfold StreamCall.marker
  split <;> rfl

/-- The end was not seen while there is more to come than was reported. -/
theorem not_complete_of_accounted {c : StreamCall α} {s : StreamState α} (h : s.Flow c)
    (hacc : s.Accounted c []) : (stream c s).complete = false := by
  rw [StreamState.Accounted, List.append_nil] at hacc
  have hsub : s.tr.answers ⊆ s.tr.expected := by
    rw [h.orderly.linked.answers_eq h.orderly.toInv]
    split
    · exact (List.dropLast_prefix _).subset
    · exact List.Subset.refl _
  simp only [complete, List.any_eq_false]
  intro x hx
  have hmem : x ∈ StreamState.itemsOf c c.items := hacc ▸ List.mem_append_left _ (hsub hx)
  obtain ⟨a, -, rfl⟩ := List.mem_map.mp hmem
  simp [StreamCall.itemSettlement, Settlement.isEnd]

theorem Sound.not_complete_of_waits (h : o.Sound) (hw : o.waits = true) : o.complete = false := by
  cases o with
  | stream c s =>
    have hflow := StreamState.flow_reachable h
    have hp := hflow.phase
    simp only [waits] at hw
    split at hw
    · rename_i f hf
      cases hl : s.loop <;> simp only [StreamState.Phase, hf, hl] at hp
      exact not_complete_of_accounted hflow hp.1.accounted
    · cases hw
  | promise p => cases hw

theorem Sound.not_complete_of_queued (h : o.Sound) (hq : o.queued = true) :
    o.complete = false := by
  cases o with
  | stream c s =>
    have hflow := StreamState.flow_reachable h
    have hp := hflow.phase
    have hw : s.worker = .queued := by simpa [queued] using hq
    cases hl : s.loop <;> simp only [StreamState.Phase, hw, hl] at hp
    exact not_complete_of_accounted hflow hp.accounted
  | promise p =>
    obtain rfl : p = .queued := by simpa [queued] using hq
    rfl

/-- Nothing but its consumer can go on with it. -/
def rests (o : Op α) : Bool := o.waits || o.finished

theorem Sound.next_of_rests (h : o.Sound) (hr : o.rests = true) (hs : o.step l = some o') :
    l = .next := by
  cases o with
  | stream c s =>
    obtain ⟨s', hs', rfl⟩ := Option.map_eq_some_iff.mp hs
    have hflow := StreamState.flow_reachable h
    have hrests : (∃ f, s.worker = .consume f) ∧ s.tr.it.resolverFulfilled = true ∨
        s.worker = .finished ∧ s.job = none ∧ s.loop = .idle := by
      rw [rests, Bool.or_eq_true] at hr
      rcases hr with hr | hr
      · simp only [waits] at hr
        split at hr
        · rename_i f hw
          exact .inl ⟨⟨f, hw⟩, hr⟩
        · cases hr
      · exact .inr (by simpa [finished] using hr)
    exact hflow.next_of_rests hrests hs'
  | promise p =>
    obtain ⟨p', hs', rfl⟩ := Option.map_eq_some_iff.mp hs
    have hp : p = .settled := by simpa [rests, waits, finished] using hr
    subst hp
    cases l <;> cases hs'

/-- The consumer can go on if an item is stored, or if the end is. -/
theorem Sound.next (h : o.Sound) (hw : o.waits = true ∨ o.finished = true)
    (hc : o.complete = false) : (o.step .next).isSome = true := by
  cases o with
  | stream c s =>
    have hflow := StreamState.flow_reachable h
    suffices hful : s.tr.it.resolverFulfilled = true by
      rw [Op.step, Option.isSome_map]
      exact hflow.next_enabled hful
    rcases hw with hw | hfin
    · simp only [waits] at hw
      split at hw
      · exact hw
      · cases hw
    · simp only [finished, decide_eq_true_eq] at hfin
      have hp := hflow.phase
      simp only [StreamState.Phase, hfin.1, hfin.2.2] at hp
      rcases hp with hp | hp
      · simp [hp.job] at hfin
      · by_contra hn
        have hans := hflow.orderly.answers_of_empty (Bool.not_eq_true _ ▸ hn)
        rw [hp.expected] at hans
        simp [complete, hans, StreamCall.expected, isEnd_marker] at hc
  | promise p =>
    rcases hw with hw | hfin
    · cases hw
    · simp only [finished, complete] at hfin hc
      rw [hfin] at hc
      cases hc

end Op

/-! ## The invariant of the pool -/

namespace PoolState

variable {n N : Nat} {calls : Fin n → OpCall α} {s s' : PoolState α n} {l : PoolLabel n}

/-- What a step of the pool does to each operation. -/
inductive Moves (N : Nat) (s s' : PoolState α n) : PoolLabel n → Prop
  | submit (i : Fin n) (hi : s.submitted i = false)
      (h : s'.submitted = Function.update s.submitted i true) (hops : s'.ops = s.ops)
      (hawaiting : s'.awaiting = s.awaiting) : Moves N s s' (.submit i)
  | start (i : Fin n) (o : Op α) (ho : (s.ops i).step .start = some o) (hrun : s.running < N)
      (h : s'.submitted = s.submitted) (hops : s'.ops = Function.update s.ops i o)
      (hawaiting : s'.awaiting = s.awaiting) : Moves N s s' .start
  | op (i : Fin n) (k : StreamLabel) (hk : s.allowed i k = true) (o : Op α)
      (ho : (s.ops i).step k = some o) (h : s'.submitted = s.submitted)
      (hops : s'.ops = Function.update s.ops i o) (hawaiting : s'.awaiting = s.awaiting) :
      Moves N s s' (.op i k)
  | await (i j : Fin n) (hnone : s.awaiting i = none) (h : s'.submitted = s.submitted)
      (hops : s'.ops = s.ops) (hawaiting : s'.awaiting = Function.update s.awaiting i (some j)) :
      Moves N s s' (.await i j)
  | resume (i j : Fin n) (hj : s.awaiting i = some j) (hc : (s.ops j).complete = true)
      (h : s'.submitted = s.submitted) (hops : s'.ops = s.ops)
      (hawaiting : s'.awaiting = Function.update s.awaiting i none) : Moves N s s' (.resume i)

theorem moves (hs : step N s l = some s') : Moves N s s' l := by
  cases l with
  | submit i =>
    simp only [step] at hs
    split at hs
    · cases hs
    · rename_i hi
      obtain rfl := Option.some.inj hs
      exact .submit i (by simpa using hi) rfl rfl rfl
  | start =>
    simp only [step] at hs
    split at hs
    · cases hs
    · split at hs
      · rename_i hrun
        obtain ⟨o, ho, rfl⟩ := Option.map_eq_some_iff.mp hs
        exact .start _ o ho hrun rfl rfl rfl
      · cases hs
  | op i k =>
    simp only [step] at hs
    split at hs
    · rename_i hallowed
      obtain ⟨o, ho, rfl⟩ := Option.map_eq_some_iff.mp hs
      exact .op i k hallowed o ho rfl rfl rfl
    · cases hs
  | await i j =>
    simp only [step] at hs
    split at hs
    · rename_i hc
      obtain rfl := Option.some.inj hs
      exact .await i j (Option.isNone_iff_eq_none.mp hc.2.2.2.1) rfl rfl rfl
    · cases hs
  | resume i =>
    simp only [step] at hs
    split at hs
    · cases hs
    · rename_i j hj
      split at hs
      · rename_i hc
        obtain rfl := Option.some.inj hs
        exact .resume i j hj hc rfl rfl rfl
      · cases hs

theorem ne_start_of_allowed {i : Fin n} {k : StreamLabel} (h : s.allowed i k = true) :
    k ≠ .start := by
  rintro rfl
  cases h

structure Inv (s : PoolState α n) : Prop where
  sound : ∀ i, (s.ops i).Sound
  nodup : s.queue.Nodup
  queue : ∀ i, i ∈ s.queue ↔ s.submitted i = true ∧ (s.ops i).queued = true
  fresh : ∀ i, s.submitted i = false → (s.ops i).queued = true
  awaiting : ∀ i j, s.awaiting i = some j → s.submitted j = true

theorem inv_init : Inv (pool N calls).init where
  sound := fun i => Op.init_sound (calls i)
  nodup := List.nodup_nil
  queue := by simp [pool]
  fresh := fun i _ => Op.init_queued (calls i)
  awaiting := by simp [pool]

theorem forall_setOp {P : Fin n → Op α → Prop} {i : Fin n} {o : Op α} (ho : P i o)
    (h : ∀ k, P k (s.ops k)) (k : Fin n) : P k ((s.setOp i o).ops k) := by
  by_cases hk : k = i
  · subst hk
    simpa [setOp] using ho
  · simpa [setOp, hk] using h k

theorem Inv.submit (h : Inv s) {i : Fin n} (hs : step N s (.submit i) = some s') : Inv s' := by
  simp only [step] at hs
  split at hs
  · cases hs
  · rename_i hi
    obtain rfl := Option.some.inj hs
    have hi' : s.submitted i = false := by simpa using hi
    refine ⟨h.sound, nodup_snoc h.nodup fun hm => hi ((h.queue i).mp hm).1, fun k => ?_,
      fun k hk => ?_, fun k j hk => ?_⟩
    · rw [List.mem_append, List.mem_singleton, h.queue k]
      by_cases hk : k = i
      · subst hk
        simp [h.fresh k hi']
      · simp [hk]
    · refine h.fresh k ?_
      by_cases hki : k = i
      · subst hki
        exact hi'
      · simpa [hki] using hk
    · by_cases hji : j = i
      · subst hji
        simp
      · simpa [hji] using h.awaiting k j hk

theorem Inv.start (h : Inv s) (hs : step N s .start = some s') : Inv s' := by
  simp only [step] at hs
  split at hs
  · cases hs
  · rename_i i queue hq
    split at hs
    · obtain ⟨o, ho, rfl⟩ := Option.map_eq_some_iff.mp hs
      have hi := (h.queue i).mp (by rw [hq]; exact List.mem_cons_self)
      obtain ⟨o', ho', hnot⟩ := Op.start_of_queued hi.2
      obtain rfl := Option.some.inj (ho.symm.trans ho')
      have hnd : i ∉ queue ∧ queue.Nodup := by simpa [hq] using h.nodup
      refine ⟨forall_setOp (P := fun _ o => o.Sound) ((h.sound i).step ho) h.sound, hnd.2,
        fun k => ?_, ?_, h.awaiting⟩
      · by_cases hk : k = i
        · subst hk
          simp [setOp, hnd.1, hnot]
        · have := h.queue k
          rw [hq] at this
          simpa [setOp, hk] using this
      · refine forall_setOp (P := fun k o => s.submitted k = false → o.queued = true) ?_ h.fresh
        exact fun hn => absurd (hi.1.symm.trans hn) (by simp)
    · cases hs

theorem Inv.op (h : Inv s) {i : Fin n} {k : StreamLabel} (hs : step N s (.op i k) = some s') :
    Inv s' := by
  simp only [step] at hs
  split at hs
  · rename_i ha
    obtain ⟨o, ho, rfl⟩ := Option.map_eq_some_iff.mp hs
    have hq : o.queued = (s.ops i).queued := Op.queued_step ho (ne_start_of_allowed ha)
    refine ⟨forall_setOp (P := fun _ o => o.Sound) ((h.sound i).step ho) h.sound, h.nodup, ?_, ?_,
      h.awaiting⟩
    · refine forall_setOp (P := fun k o => k ∈ s.queue ↔ s.submitted k = true ∧ o.queued = true)
        ?_ h.queue
      rw [hq]
      exact h.queue i
    · refine forall_setOp (P := fun k o => s.submitted k = false → o.queued = true) ?_ h.fresh
      rw [hq]
      exact h.fresh i
  · cases hs

theorem Inv.await (h : Inv s) {i j : Fin n} (hs : step N s (.await i j) = some s') : Inv s' := by
  simp only [step] at hs
  split at hs
  · rename_i hc
    obtain rfl := Option.some.inj hs
    refine ⟨h.sound, h.nodup, h.queue, h.fresh, fun k m hk => ?_⟩
    by_cases hki : k = i
    · subst hki
      obtain rfl : j = m := by simpa using hk
      exact hc.2.2.1
    · exact h.awaiting k m (by simpa [hki] using hk)
  · cases hs

theorem Inv.resume (h : Inv s) {i : Fin n} (hs : step N s (.resume i) = some s') : Inv s' := by
  simp only [step] at hs
  split at hs
  · cases hs
  · split at hs
    · obtain rfl := Option.some.inj hs
      refine ⟨h.sound, h.nodup, h.queue, h.fresh, fun k m hk => ?_⟩
      by_cases hki : k = i
      · subst hki
        simp at hk
      · exact h.awaiting k m (by simpa [hki] using hk)
    · cases hs

theorem Inv.step (h : Inv s) (hs : step N s l = some s') : Inv s' := by
  cases l with
  | submit i => exact h.submit hs
  | start => exact h.start hs
  | op i k => exact h.op hs
  | await i j => exact h.await hs
  | resume i => exact h.resume hs

theorem inv_reachable (h : (pool N calls).Reachable s) : Inv s :=
  h.invariant inv_init fun _ _ _ hi hs => hi.step hs

end PoolState

end NodeSvn
