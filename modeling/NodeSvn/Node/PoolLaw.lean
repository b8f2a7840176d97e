import Mathlib.Algebra.Order.BigOperators.Group.Finset
import NodeSvn.Node.PoolDeadlock

/-!
# What the thread pool owes its callers

The operations of `pool N calls` compose: each consumer gets what its own stream has for it
(`Op.Runs`), and a run has only so many steps of work (`countP_works_le`).  If nobody awaits,
all that was called comes to its end (`pool_law`).

    a worker is finished    its consumer asked for each item (`StreamState.asked_of_finished`)

So a loop that is left early, with items to come, keeps its thread.  After `N` of them no job
starts any more (`starved`).
-/

namespace NodeSvn

variable {α : Type}

/-! ## What each call is to bring -/

namespace OpCall

def expected : OpCall α → List (Settlement (StreamValue α))
  | .stream c => c.expected
  | .promise => []

/-- How many items its callback gets. -/
def items : OpCall α → Nat
  | .stream c => (c.delivered c.items).length
  | .promise => 0

/-- A bound for the steps of the operation. -/
def bound : OpCall α → Nat
  | .stream c => 6 * c.items.length + 6
  | .promise => 3

end OpCall

namespace Op

variable {o o' : Op α} {call : OpCall α} {l : StreamLabel}

/-- What the promises of `next` are settled with. -/
def received : Op α → List (Settlement (StreamValue α))
  | .stream _ s => s.tr.answers
  | .promise _ => []

/-- How often the consumer has called `next`. -/
def asks : Op α → Nat
  | .stream _ s => s.tr.returned.length
  | .promise _ => 0

/-- A bound for the steps that are left. -/
def left : Op α → Nat
  | .stream c s => s.stepsLeft c
  | .promise .queued => 3
  | .promise .running => 2
  | .promise .finished => 1
  | .promise .settled => 0

/-- The operation is a run of its call. -/
inductive Runs : OpCall α → Op α → Prop
  | stream {c : StreamCall α} {s : StreamState α} (h : (NodeSvn.stream c).Reachable s) :
      Runs (.stream c) (.stream c s)
  | promise (p : PromiseOp) : Runs .promise (.promise p)

theorem init_runs (call : OpCall α) : call.init.Runs call := by
  cases call with
  | stream c => exact .stream .refl
  | promise => exact .promise .queued

theorem Runs.step (h : o.Runs call) (hs : o.step l = some o') : o'.Runs call := by
  cases h with
  | stream hr =>
    obtain ⟨s', hs', rfl⟩ := Option.map_eq_some_iff.mp hs
    exact .stream (hr.step (l := l) hs')
  | promise p =>
    obtain ⟨p', -, rfl⟩ := Option.map_eq_some_iff.mp hs
    exact .promise p'

theorem Runs.received_isPrefix (h : o.Runs call) : o.received <+: call.expected := by
  cases h with
  | stream hr => exact StreamState.answers_isPrefix hr
  | promise p => exact List.prefix_rfl

/-- The end marker comes last, so who has seen it has received everything. -/
theorem Runs.received_of_complete (h : o.Runs call) (hc : o.complete = true) :
    o.received = call.expected := by
  cases h with
  | promise p => rfl
  | stream hr =>
    rename_i c s
    obtain ⟨x, hx, hend⟩ := List.any_eq_true.mp hc
    obtain ⟨rest, hrest⟩ := StreamState.answers_isPrefix hr
    show s.tr.answers = c.expected
    have hitems : ∀ y ∈ StreamState.itemsOf c c.items, y.isEnd = false := by
      intro y hy
      obtain ⟨a, -, rfl⟩ := List.mem_map.mp hy
      rfl
    cases hlast : rest.getLast? with
    | none =>
      rw [List.getLast?_eq_none_iff.mp hlast, List.append_nil] at hrest
      exact hrest
    | some z =>
      obtain ⟨rest', rfl⟩ := List.getLast?_eq_some_iff.mp hlast
      -- then the answers are among the items, which end nothing
      rw [StreamCall.expected, ← List.append_assoc] at hrest
      have hinit := (List.append_inj' hrest rfl).1
      have hmem : x ∈ s.tr.answers ++ rest' := List.mem_append_left _ hx
      rw [hinit] at hmem
      rw [hitems x hmem] at hend
      cases hend

theorem Runs.left_lt (h : o.Runs call) (hs : o.step l = some o') : o'.left < o.left := by
  cases h with
  | stream hr =>
    obtain ⟨s', hs', rfl⟩ := Option.map_eq_some_iff.mp hs
    exact (StreamState.flow_reachable hr).stepsLeft_lt hr hs'
  | promise p =>
    obtain ⟨p', hs', rfl⟩ := Option.map_eq_some_iff.mp hs
    cases p <;> cases l <;> simp [PromiseOp.step] at hs' <;> subst hs' <;> simp [left]

theorem init_left_le (call : OpCall α) : call.init.left ≤ call.bound := by
  cases call with
  | promise => exact Nat.le_refl 3
  | stream c => exact StreamState.stepsLeft_init_le c

/-- Only `next` asks. -/
theorem Runs.asks_step (h : o.Runs call) (hs : o.step l = some o') :
    o'.asks = o.asks + (if l = .next then 1 else 0) := by
  cases h with
  | stream hr =>
    obtain ⟨s', hs', rfl⟩ := Option.map_eq_some_iff.mp hs
    have hflow := StreamState.flow_reachable hr
    rcases hflow.step_cases hs' with ⟨hne, ha⟩ | ⟨rfl, hn⟩
    · rw [if_neg hne, Nat.add_zero]
      exact congrArg List.length ha.returned
    · exact (hflow.next hn).2.2.1
  | promise p =>
    obtain ⟨p', hs', rfl⟩ := Option.map_eq_some_iff.mp hs
    cases p <;> cases l <;> simp [PromiseOp.step] at hs' <;> rfl

end Op

/-- A worker that is finished saw each of its items asked for. -/
theorem StreamState.asked_of_finished {c : StreamCall α} {s : StreamState α}
    (h : (stream c).Reachable s) (hw : s.worker = .finished) :
    (c.delivered c.items).length ≤ s.tr.returned.length := by
  have hflow := flow_reachable h
  have hp := hflow.phase
  have hanswered : s.tr.answers.length ≤ s.tr.returned.length := by
    rcases hflow.orderly.linked.returned_map hflow.orderly.toInv with hm | hm
    · have := congrArg List.length hm
      simp only [List.length_map] at this
      omega
    · have := congrArg List.length hm
      simp only [List.length_append, List.length_map, List.length_singleton] at this
      omega
  have hitems : (itemsOf c c.items).length = (c.delivered c.items).length := List.length_map _
  have hcompleted := hflow.completed_le
  cases hl : s.loop with
  | yielding | crashed => simp only [Phase, hw, hl] at hp
  | idle =>
    simp only [Phase, hw, hl] at hp
    rcases hp with hfin | hended
    · rw [hfin.completed, hfin.expected] at hcompleted
      omega
    · have := hended.completed
      rw [hended.expected, StreamCall.expected, List.length_append, List.length_singleton,
        List.length_map] at this
      omega
  | ending =>
    simp only [Phase, hw, hl] at hp
    have := hp.completed
    rw [hp.expected, StreamCall.expected, List.length_append, List.length_singleton,
      List.length_map] at this
    omega

/-- A job that was started keeps its thread while its consumer asked for fewer items than there
are. -/
theorem Op.Runs.running_of_asks {o : Op α} {call : OpCall α} (h : o.Runs call)
    (hq : o.queued = false) (hfew : o.asks < call.items) : o.running = true := by
  cases h with
  | promise p => exact absurd hfew (Nat.not_lt_zero _)
  | stream hr =>
    rename_i c s
    have hnot : s.worker ≠ .queued := by simpa [Op.queued] using hq
    have hfin : s.worker ≠ .finished := by
      intro hw
      have := StreamState.asked_of_finished hr hw
      have hlt : s.tr.returned.length < (c.delivered c.items).length := hfew
      omega
    simp [Op.running, hnot, hfin]

/-- Everything but the two steps of a consumer that awaits. -/
def PoolLabel.works {n : Nat} : PoolLabel n → Bool
  | .await _ _ => false
  | .resume _ => false
  | _ => true

/-! ## What a step of the pool does to each operation -/

namespace PoolState

variable {n N : Nat} {calls : Fin n → OpCall α} {s s' t : PoolState α n} {l : PoolLabel n}
  {ls ms : List (PoolLabel n)}

def AllRun (calls : Fin n → OpCall α) (s : PoolState α n) : Prop :=
  ∀ i, (s.ops i).Runs (calls i)

theorem AllRun.update (h : AllRun calls s) {i : Fin n} {k : StreamLabel} {o : Op α}
    (ho : (s.ops i).step k = some o) (hops : s'.ops = Function.update s.ops i o) :
    AllRun calls s' := by
  intro j
  rw [hops]
  by_cases hj : j = i
  · subst hj
    rw [Function.update_self]
    exact (h j).step ho
  · rw [Function.update_of_ne hj]
    exact h j

theorem AllRun.step (h : AllRun calls s) (hs : PoolState.step N s l = some s') :
    AllRun calls s' := by
  cases moves hs with
  | submit _ _ _ hops | await _ _ _ _ hops | resume _ _ _ _ _ hops =>
    intro j
    rw [hops]
    exact h j
  | start i o ho _ _ hops => exact h.update ho hops
  | op i k _ o ho _ hops => exact h.update ho hops

theorem allRun_reachable (h : (pool N calls).Reachable s) : AllRun calls s :=
  h.invariant (fun i => Op.init_runs (calls i)) fun _ _ _ hi hs => hi.step hs

/-! ## A run of the pool is finite -/

/-- A bound for the steps that are left for each operation, its call included. -/
def leftOf (s : PoolState α n) (i : Fin n) : Nat :=
  (s.ops i).left + if s.submitted i then 0 else 1

def left (s : PoolState α n) : Nat := Finset.univ.sum s.leftOf

theorem left_lt (i : Fin n) (hi : s'.leftOf i < s.leftOf i)
    (hne : ∀ j, j ≠ i → s'.leftOf j = s.leftOf j) : s'.left < s.left := by
  refine Finset.sum_lt_sum (fun j _ => ?_) ⟨i, Finset.mem_univ i, hi⟩
  by_cases hj : j = i
  · subst hj
    exact Nat.le_of_lt hi
  · exact Nat.le_of_eq (hne j hj)

theorem AllRun.left_update (h : AllRun calls s) {i : Fin n} {k : StreamLabel} {o : Op α}
    (ho : (s.ops i).step k = some o) (hsub : s'.submitted = s.submitted)
    (hops : s'.ops = Function.update s.ops i o) : s'.left < s.left := by
  refine left_lt i ?_ fun j hj => ?_
  · have hlt := (h i).left_lt ho
    rw [leftOf, leftOf, hops, hsub, Function.update_self]
    omega
  · rw [leftOf, leftOf, hops, hsub, Function.update_of_ne hj]

theorem AllRun.left_step (h : AllRun calls s) (hs : PoolState.step N s l = some s') :
    s'.left + (if l.works then 1 else 0) ≤ s.left := by
  cases moves hs with
  | submit i hi hsub hops =>
    refine left_lt i ?_ fun j hj => ?_
    · rw [leftOf, leftOf, hops, hsub, Function.update_self, hi]
      simp
    · rw [leftOf, leftOf, hops, hsub, Function.update_of_ne hj]
  | start i o ho _ hsub hops => exact h.left_update ho hsub hops
  | op i k _ o ho hsub hops => exact h.left_update ho hsub hops
  | await _ _ _ hsub hops | resume _ _ _ _ hsub hops =>
    have hleft : s'.leftOf = s.leftOf := by
      funext j
      rw [leftOf, leftOf, hops, hsub]
    show s'.left + 0 ≤ s.left
    rw [left, left, hleft]
    exact Nat.le_refl _

theorem countP_works_le (h : (pool N calls).run (pool N calls).init ls = some s) :
    ls.countP PoolLabel.works ≤ Finset.univ.sum fun i => (calls i).bound + 1 := by
  have hle := Machine.run_countP_le (M := pool N calls) (I := AllRun calls) left PoolLabel.works
    (fun s l s' hi hs => ⟨hi.step hs, hi.left_step hs⟩) (fun i => Op.init_runs (calls i)) h
  have hinit : (pool N calls).init.left ≤ Finset.univ.sum fun i => (calls i).bound + 1 := by
    refine Finset.sum_le_sum fun i _ => ?_
    have := Op.init_left_le (calls i)
    show (calls i).init.left + 1 ≤ _
    omega
  omega

/-! ## Nobody awaits -/

theorem awaiting_none (h : (pool N calls).run (pool N calls).init ls = some s)
    (hls : ∀ i j, PoolLabel.await i j ∉ ls) (i : Fin n) : s.awaiting i = none := by
  refine Machine.run_induction (M := pool N calls)
    (P := fun ls s => (∀ i j, PoolLabel.await i j ∉ ls) → ∀ i, s.awaiting i = none)
    (fun _ _ => rfl) ?_ ls s h hls i
  intro ls s l s' hr ih hs hls k
  have hbefore := ih (fun i j hm => hls i j (List.mem_append_left _ hm))
  cases moves hs with
  | await i j => exact absurd (List.mem_append_right ls (List.mem_singleton.mpr rfl)) (hls i j)
  | resume i j hj => exact absurd hj (by simp [hbefore i])
  | submit _ _ _ _ hawaiting | start _ _ _ _ _ _ hawaiting | op _ _ _ _ _ _ _ hawaiting =>
    rw [hawaiting]
    exact hbefore k

/-- While an operation that was called is not complete, something goes on. -/
theorem goes_on (hN : 1 ≤ N) (h : (pool N calls).Reachable s)
    (hawaiting : ∀ i, s.awaiting i = none) {i : Fin n} (hsub : s.submitted i = true)
    (hc : (s.ops i).complete = false) :
    ∃ l : PoolLabel n, l.continues = true ∧ (pool N calls).Enabled s l := by
  by_contra hno
  have hi := inv_reachable h
  have hstuck : Stuck N s := stuck_of_not_enabled hno
  have hfree : ∀ j k, ¬ s.Blocks j k := by
    rintro j k ⟨-, hk, -⟩
    rw [hawaiting j] at hk
    cases hk
  have hclear : s.Clear N := by
    refine ⟨fun _ _ j _ hj => ?_, fun H hH => ?_⟩
    · obtain ⟨k, hk, -⟩ := Relation.TransGen.head'_iff.mp hj
      exact hfree j k hk
    · have hempty : H = ∅ := by
        refine Finset.eq_empty_of_forall_notMem fun j hj => ?_
        obtain ⟨-, k, -, hk⟩ := hH j hj
        obtain ⟨m, hm, -⟩ := Relation.TransGen.head'_iff.mp hk
        exact hfree j m hm
      rw [hempty, Finset.card_empty]
      exact hN
  obtain ⟨j, hj⟩ := hstuck.blocks hi (hstuck.not_queued hi hclear hsub) hc
  exact hfree i j hj

/-- **The law of the pool.**  Where no consumer awaits another operation, and in whatever order
threads, loop thread and consumers take their steps: each consumer receives a prefix of what its
operation has for it, and all of it when it sees the end; a run is finite; and it stops only
when every operation that was called is complete. -/
theorem pool_law (hN : 1 ≤ N) (h : (pool N calls).run (pool N calls).init ls = some s)
    (hls : ∀ i j, PoolLabel.await i j ∉ ls) :
    (∀ i, (s.ops i).received <+: (calls i).expected) ∧
      (∀ i, (s.ops i).complete = true → (s.ops i).received = (calls i).expected) ∧
      (∀ i, s.submitted i = true → (s.ops i).complete = false →
        ∃ l : PoolLabel n, l.continues = true ∧ (pool N calls).Enabled s l) ∧
      ls.length ≤ Finset.univ.sum fun i => (calls i).bound + 1 := by
  have hr : (pool N calls).Reachable s := ⟨ls, h⟩
  have hruns := allRun_reachable hr
  have hawaiting := awaiting_none h hls
  refine ⟨fun i => (hruns i).received_isPrefix, fun i => (hruns i).received_of_complete,
    fun i hsub hc => goes_on hN hr hawaiting hsub hc, ?_⟩
  have hle := countP_works_le h
  have hnone : ∀ i, PoolLabel.resume i ∉ ls := by
    intro i hm
    obtain ⟨before, after, rfl⟩ := List.append_of_mem hm
    rw [Machine.run_append] at h
    obtain ⟨t, ht, hrest⟩ := Option.bind_eq_some_iff.mp h
    have hbefore := awaiting_none ht (fun i j hm => hls i j (List.mem_append_left _ hm)) i
    rw [Machine.run_cons] at hrest
    obtain ⟨u, hu, -⟩ := Option.bind_eq_some_iff.mp hrest
    change step N t (.resume i) = some u at hu
    simp [step, hbefore] at hu
  have hall : ls.countP PoolLabel.works = ls.length := by
    rw [List.countP_eq_length]
    intro l hl
    cases l with
    | await i j => exact absurd hl (hls i j)
    | resume i => exact absurd hl (hnone i)
    | submit i | start | op i k => rfl
  omega

/-- On one thread the stream `i` gets done, its two items are received, and then the job `j` is
run. -/
def oneAfterTheOther (i j : Fin n) : List (PoolLabel n) :=
  [.submit i, .submit j, .start] ++ oneTaken i ++
    [.op i .next, .op i .consumed, .op i .finish, .op i .afterWork, .op i .ret, .op i .next, .start,
      .op j .finish, .op j .afterWork]

theorem pool_law_one_thread :
    ∃ s, (pool 1 statusAndAdd).run (pool 1 statusAndAdd).init (oneAfterTheOther 0 1) = some s ∧
      (s.ops 0).received = [.fulfilled (some (.item 7)) false, .fulfilled (some (.item 8)) false,
        .fulfilled none true] ∧
      (s.ops 1).complete = true := by
  have hrun : ((pool 1 statusAndAdd).run (pool 1 statusAndAdd).init
      (oneAfterTheOther 0 1)).isSome = true := rfl
  refine ⟨_, (Option.some_get hrun).symm, ?_, rfl⟩
  obtain ⟨-, hreceived, -⟩ := pool_law (Nat.le_refl 1) (Option.some_get hrun).symm (by decide)
  exact hreceived 0 rfl

/-! ## Loops that are left early -/

theorem asks_eq_count (h : (pool N calls).run (pool N calls).init ls = some s) (i : Fin n) :
    (s.ops i).asks = ls.count (.op i .next) := by
  refine Machine.run_induction (M := pool N calls)
    (P := fun ls s => (s.ops i).asks = ls.count (PoolLabel.op i .next)) ?_ ?_ ls s h
  · show ((calls i).init).asks = 0
    cases calls i <;> rfl
  · intro ls s l s' hr ih hs
    have hruns : AllRun calls s := allRun_reachable ⟨ls, hr⟩
    have hstep : ∀ {j : Fin n} {k : StreamLabel} {o : Op α}, (s.ops j).step k = some o →
        s'.ops = Function.update s.ops j o →
        (s'.ops i).asks = (s.ops i).asks + if j = i ∧ k = .next then 1 else 0 := by
      intro j k o ho hops
      rw [hops]
      by_cases hj : i = j
      · subst hj
        rw [Function.update_self, (hruns i).asks_step ho]
        simp
      · rw [Function.update_of_ne hj, if_neg fun hc => hj hc.1.symm, Nat.add_zero]
    rw [List.count_append, List.count_singleton, ← ih]
    cases moves hs with
    | submit _ _ _ hops | await _ _ _ _ hops | resume _ _ _ _ _ hops =>
      rw [hops]
      simp
    | start j o ho _ _ hops =>
      rw [hstep ho hops]
      simp
    | op j k _ o ho _ hops =>
      rw [hstep ho hops]
      simp [PoolLabel.op.injEq]

/-- No thread is free while `N` jobs were asked for fewer items than they have. -/
theorem no_start (h : (pool N calls).run (pool N calls).init ls = some s) {A : Finset (Fin n)}
    (hA : N ≤ A.card) (hstarted : ∀ i ∈ A, (s.ops i).queued = false)
    (hfew : ∀ i ∈ A, ls.count (.op i .next) < (calls i).items) : N ≤ s.running := by
  have hruns : AllRun calls s := allRun_reachable ⟨ls, h⟩
  refine Nat.le_trans hA (Finset.card_le_card fun i hi => ?_)
  rw [Finset.mem_filter]
  refine ⟨Finset.mem_univ i, (hruns i).running_of_asks (hstarted i hi) ?_⟩
  rw [asks_eq_count h i]
  exact hfew i hi

theorem queued_step (hs : step N s l = some s') (hrun : N ≤ s.running) (j : Fin n) :
    (s'.ops j).queued = (s.ops j).queued := by
  cases moves hs with
  | submit _ _ _ hops | await _ _ _ _ hops | resume _ _ _ _ _ hops => rw [hops]
  | start i o _ hlt => omega
  | op i k hk o ho _ hops =>
    rw [hops]
    by_cases hj : j = i
    · subst hj
      rw [Function.update_self]
      exact Op.queued_step ho (ne_start_of_allowed hk)
    · rw [Function.update_of_ne hj]

/-- **Loops that are left early keep the pool.**  Once `N` jobs have a thread and fewer calls of
`next` than items, and their consumers do not call it again, no job starts any more, whatever
else happens. -/
theorem starved (h : (pool N calls).run (pool N calls).init ls = some s) {A : Finset (Fin n)}
    (hA : N ≤ A.card) (hstarted : ∀ i ∈ A, (s.ops i).queued = false)
    (hfew : ∀ i ∈ A, ls.count (.op i .next) < (calls i).items)
    (hms : (pool N calls).run s ms = some t) (hleft : ∀ i ∈ A, PoolLabel.op i .next ∉ ms) :
    (∀ j, (t.ops j).queued = (s.ops j).queued) ∧ (pool N calls).step t .start = none := by
  have hcount : ∀ ks, (∀ i ∈ A, PoolLabel.op i .next ∉ ks) → ∀ i ∈ A,
      (ls ++ ks).count (.op i .next) < (calls i).items := by
    intro ks hks i hi
    rw [List.count_append, List.count_eq_zero.mpr (hks i hi)]
    exact hfew i hi
  have hrun : ∀ {ks u}, (pool N calls).run s ks = some u →
      (pool N calls).run (pool N calls).init (ls ++ ks) = some u := by
    intro ks u hu
    rw [Machine.run_append, h]
    exact hu
  have hqueued := Machine.run_induction (M := pool N calls)
    (P := fun ks u => (∀ i ∈ A, PoolLabel.op i .next ∉ ks) →
      ∀ j, (u.ops j).queued = (s.ops j).queued) (fun _ _ => rfl) (by
    intro ks u l u' hu ih hs hks j
    have hks' : ∀ i ∈ A, PoolLabel.op i .next ∉ ks :=
      fun i hi hm => hks i hi (List.mem_append_left _ hm)
    have hstarted' : ∀ i ∈ A, (u.ops i).queued = false := by
      intro i hi
      rw [ih hks' i]
      exact hstarted i hi
    rw [queued_step hs (no_start (hrun hu) hA hstarted' (hcount ks hks')) j, ih hks' j]) ms t hms
    hleft
  refine ⟨hqueued, ?_⟩
  have hfull := no_start (hrun hms) hA (fun i hi => (hqueued i).trans (hstarted i hi))
    (hcount ms hleft)
  show step N t .start = none
  simp only [step]
  split
  · rfl
  · rw [if_neg (Nat.not_lt.mpr hfull)]

/-- One loop over `status` is left before its first item, and the other job does not start. -/
theorem starved_one_thread :
    ∃ s, (pool 1 statusAndAdd).run (pool 1 statusAndAdd).init [.submit 0, .start] = some s ∧
      ∃ t, (pool 1 statusAndAdd).run s [.op 0 .report, .op 0 .dispatch, .submit 1] = some t ∧
        (∀ j, (t.ops j).queued = (s.ops j).queued) ∧
        (pool 1 statusAndAdd).step t .start = none := by
  refine ⟨_, (Option.some_get rfl).symm, _, (Option.some_get rfl).symm, ?_⟩
  exact starved (A := {0}) (Option.some_get (x := (pool 1 statusAndAdd).run
    (pool 1 statusAndAdd).init [.submit 0, .start]) rfl).symm (by decide) (by decide) (by decide)
    (Option.some_get rfl).symm (by decide)

end PoolState

end NodeSvn
