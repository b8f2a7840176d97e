import NodeSvn.Lib.WaitFor
import NodeSvn.Node.Pool

/-!
# Deadlocks of the thread pool

An operation rests when its worker waits for the consumer to take an item, or is finished.  If
its consumer awaits another operation that is not complete, the other blocks it (`Blocks`).

    a chain of such awaits runs into a cycle        nobody in it goes on
    `N` threads are held, their chains end in       the queue does not get a thread
    the queue (`Held`)

Where an operation with an item has no part in a cycle and some thread is not held, the pool goes
on; where one of them fails, an operation is never finished (`no_pool_deadlock`).
-/

namespace NodeSvn

variable {α : Type}

namespace PoolState

variable {n : Nat}

/-- Queued or running. -/
def Unfinished (s : PoolState α n) (i : Fin n) : Prop :=
  s.submitted i = true ∧ (s.ops i).finished = false

/-- The consumer of `i` awaits `j`, which is not complete. -/
def Awaits (s : PoolState α n) (i j : Fin n) : Prop :=
  s.awaiting i = some j ∧ (s.ops j).complete = false

def Blocks (s : PoolState α n) (i j : Fin n) : Prop :=
  (s.ops i).rests = true ∧ s.Awaits i j

/-- The worker of `i` keeps its thread for as long as a job is queued. -/
def Held (s : PoolState α n) (i : Fin n) : Prop :=
  (s.ops i).waits = true ∧ ∃ j ∈ s.queue, Relation.TransGen s.Blocks i j

/-- No operation with an item is blocked by a cycle, and some thread is not held. -/
structure Clear (N : Nat) (s : PoolState α n) : Prop where
  acyclic : ∀ i, (s.ops i).waits = true → ∀ j, Relation.ReflTransGen s.Blocks i j →
    ¬ Relation.TransGen s.Blocks j j
  free : ∀ H : Finset (Fin n), (∀ i ∈ H, s.Held i) → H.card < N

variable {N : Nat} {calls : Fin n → OpCall α} {s s' : PoolState α n} {l : PoolLabel n}

/-! ## The pool goes on -/

/-- No worker, not the loop thread and no consumer can go on. -/
def Stuck (N : Nat) (s : PoolState α n) : Prop :=
  ∀ l : PoolLabel n, l.continues = true → step N s l = none

theorem stuck_of_not_enabled
    (h : ¬ ∃ l : PoolLabel n, l.continues = true ∧ (pool N calls).Enabled s l) : Stuck N s := by
  intro l hl
  by_contra hn
  exact h ⟨l, hl, Option.isSome_iff_ne_none.mpr hn⟩

theorem Stuck.op_none (h : Stuck N s) {i : Fin n} {k : StreamLabel} (ha : s.allowed i k = true) :
    (s.ops i).step k = none := by
  have := h (.op i k) rfl
  simpa [step, ha] using this

theorem Stuck.not_busy (h : Stuck N s) (hi : Inv s) (i : Fin n) : (s.ops i).busy = false := by
  by_contra hb
  have hret := Op.ret_of_busy (hi.sound i) (by simpa using hb)
  rw [h.op_none rfl] at hret
  cases hret

/-- A job that a thread has taken rests. -/
theorem Stuck.rests (h : Stuck N s) (hi : Inv s) {i : Fin n} (hq : (s.ops i).queued = false) :
    (s.ops i).waits = true ∨ (s.ops i).finished = true := by
  rcases (hi.sound i).goes_on hq with ⟨k, hnext, hstart, hk⟩ | hw | hf
  · have ha : s.allowed i k = true := by
      cases k <;> simp_all [allowed, h.not_busy hi]
    rw [h.op_none ha] at hk
    cases hk
  · exact .inl hw
  · exact .inr hf

/-- Unless its consumer has seen the end, another operation blocks it. -/
theorem Stuck.blocks (h : Stuck N s) (hi : Inv s) {i : Fin n} (hq : (s.ops i).queued = false)
    (hc : (s.ops i).complete = false) : ∃ j, s.Blocks i j := by
  have hsub : s.submitted i = true := by
    by_contra hn
    rw [hi.fresh i (by simpa using hn)] at hq
    cases hq
  have hrests := h.rests hi hq
  have hrests' : (s.ops i).rests = true := by rw [Op.rests, Bool.or_eq_true]; exact hrests
  cases haw : s.awaiting i with
  | none =>
    have hnext := (hi.sound i).next hrests hc
    rw [h.op_none (by simp [allowed, hsub, haw, hc])] at hnext
    cases hnext
  | some j =>
    refine ⟨j, hrests', haw, ?_⟩
    have := h (.resume i) rfl
    simpa [step, haw] using this

theorem Stuck.waits_of_running (h : Stuck N s) (hi : Inv s) {i : Fin n}
    (hrun : (s.ops i).running = true) : (s.ops i).waits = true := by
  refine (h.rests hi (Op.not_queued_of_running hrun)).resolve_right fun hf => ?_
  rw [Op.not_running_of_finished hf] at hrun
  cases hrun

/-- The chain of an operation with an item ends in the queue. -/
theorem Stuck.held (h : Stuck N s) (hi : Inv s) {i : Fin n} (hw : (s.ops i).waits = true)
    (hac : ∀ j, Relation.ReflTransGen s.Blocks i j → ¬ Relation.TransGen s.Blocks j j) :
    s.Held i := by
  obtain ⟨k, hk, hlast⟩ := exists_last hac
  have hopen : s.submitted k = true ∧ (s.ops k).complete = false ∨ k = i := by
    rcases hk.cases_tail with rfl | ⟨m, -, hm⟩
    · exact .inr rfl
    · exact .inl ⟨hi.awaiting m k hm.2.1, hm.2.2⟩
  have hcomplete : (s.ops k).complete = false := by
    rcases hopen with hopen | rfl
    · exact hopen.2
    · exact (hi.sound k).not_complete_of_waits hw
  have hq : (s.ops k).queued = true := by
    by_contra hn
    obtain ⟨j, hj⟩ := h.blocks hi (by simpa using hn) hcomplete
    exact hlast j hj
  have hne : k ≠ i := by
    rintro rfl
    rw [Op.not_queued_of_waits hw] at hq
    cases hq
  have hsub := (hopen.resolve_right hne).1
  refine ⟨hw, k, (hi.queue k).mpr ⟨hsub, hq⟩, ?_⟩
  exact (Relation.reflTransGen_iff_eq_or_transGen.mp hk).resolve_left hne

/-- A thread is free for every job. -/
theorem Stuck.not_queued (h : Stuck N s) (hi : Inv s) (hclear : s.Clear N) {i : Fin n}
    (hsub : s.submitted i = true) : (s.ops i).queued = false := by
  by_contra hn
  have hm := (hi.queue i).mpr ⟨hsub, by simpa using hn⟩
  have hrunning : s.running < N := by
    refine hclear.free _ fun j hj => ?_
    have hw := h.waits_of_running hi (Finset.mem_filter.mp hj).2
    exact h.held hi hw (hclear.acyclic j hw)
  cases hq : s.queue with
  | nil => simp [hq] at hm
  | cons k queue =>
    obtain ⟨o, ho, -⟩ := Op.start_of_queued ((hi.queue k).mp (by simp [hq])).2
    have hstart := h .start rfl
    simp [step, hq, hrunning, ho] at hstart

theorem Clear.goes_on (hclear : s.Clear N) (hi : Inv s) (hu : ∃ i, s.Unfinished i) :
    ¬ Stuck N s := by
  intro h
  obtain ⟨i, hsub, hfin⟩ := hu
  have hw : (s.ops i).waits = true := by
    refine (h.rests hi (h.not_queued hi hclear hsub)).resolve_right ?_
    simp [hfin]
  obtain ⟨-, j, hj, -⟩ := h.held hi hw (hclear.acyclic i hw)
  obtain ⟨hsubj, hq⟩ := (hi.queue j).mp hj
  rw [h.not_queued hi hclear hsubj] at hq
  cases hq

/-! ## What is blocked stays blocked -/

/-- The operations in `S` wait for each other and for the jobs in `Q`, and those get no thread. -/
structure Closed (N : Nat) (S Q : Set (Fin n)) (s : PoolState α n) : Prop where
  rests : ∀ i ∈ S, (s.ops i).rests = true
  awaits : ∀ i ∈ S, ∃ j, s.awaiting i = some j ∧ (j ∈ S ∧ (s.ops j).complete = false ∨ j ∈ Q)
  queued : ∀ j ∈ Q, (s.ops j).queued = true
  full : Q.Nonempty → ∃ H : Finset (Fin n), N ≤ H.card ∧ ∀ i ∈ H, i ∈ S ∧ (s.ops i).waits = true

variable {S Q : Set (Fin n)}

theorem Closed.le_running (h : Closed N S Q s) (hQ : Q.Nonempty) : N ≤ s.running := by
  obtain ⟨H, hcard, hH⟩ := h.full hQ
  refine Nat.le_trans hcard (Finset.card_le_card fun i hi => ?_)
  exact Finset.mem_filter.mpr ⟨Finset.mem_univ i, Op.running_of_waits (hH i hi).2⟩

/-- A step that leaves the operations in `S` and the jobs in `Q` alone. -/
theorem Closed.of_same (h : Closed N S Q s) (hops : ∀ i ∈ S, s'.ops i = s.ops i)
    (hawaiting : ∀ i ∈ S, s'.awaiting i = s.awaiting i)
    (hqueued : ∀ j ∈ Q, (s'.ops j).queued = true) : Closed N S Q s' where
  rests i hi := by rw [hops i hi]; exact h.rests i hi
  awaits i hi := by
    obtain ⟨j, hj, hor⟩ := h.awaits i hi
    refine ⟨j, (hawaiting i hi).trans hj, hor.imp (fun ⟨hjS, hc⟩ => ⟨hjS, ?_⟩) id⟩
    rw [hops j hjS]
    exact hc
  queued := hqueued
  full hQ := by
    obtain ⟨H, hcard, hH⟩ := h.full hQ
    refine ⟨H, hcard, fun i hi => ⟨(hH i hi).1, ?_⟩⟩
    rw [hops i (hH i hi).1]
    exact (hH i hi).2

/-- No step of the pool is one of an operation in `S`. -/
theorem Closed.step (h : Closed N S Q s) (hi : Inv s) (hs : PoolState.step N s l = some s') :
    Closed N S Q s' ∧ ∀ i ∈ S, s'.ops i = s.ops i := by
  have hsame : (∀ i ∈ S, s'.ops i = s.ops i) → (∀ i ∈ S, s'.awaiting i = s.awaiting i) →
      (∀ j ∈ Q, (s'.ops j).queued = true) → Closed N S Q s' ∧ ∀ i ∈ S, s'.ops i = s.ops i :=
    fun hops hawaiting hqueued => ⟨h.of_same hops hawaiting hqueued, hops⟩
  have hupdate : ∀ {i o}, i ∉ S → s'.ops = Function.update s.ops i o → ∀ k ∈ S,
      s'.ops k = s.ops k := by
    intro i o hiS hops k hk
    rw [hops, Function.update_of_ne (ne_of_mem_of_not_mem hk hiS)]
  have hrest : ∀ {i}, i ∉ S → ∀ {v}, s'.awaiting = Function.update s.awaiting i v → ∀ k ∈ S,
      s'.awaiting k = s.awaiting k := by
    intro i hiS v hawaiting k hk
    rw [hawaiting, Function.update_of_ne (ne_of_mem_of_not_mem hk hiS)]
  cases moves hs with
  | submit _ _ _ hops hawaiting =>
    exact hsame (fun i _ => by rw [hops]) (fun i _ => by rw [hawaiting])
      fun j hj => by rw [hops]; exact h.queued j hj
  | start i o ho hrun _ hops hawaiting =>
    -- the thread was free, so there is no job to wait for
    have hQ : ∀ j, j ∉ Q := fun j hj => absurd (h.le_running ⟨j, hj⟩) (by omega)
    have hiS : i ∉ S := fun hiS => by
      cases Op.Sound.next_of_rests (hi.sound i) (h.rests i hiS) ho
    exact hsame (hupdate hiS hops) (fun i _ => by rw [hawaiting]) fun j hj => absurd hj (hQ j)
  | op i k hk o ho _ hops hawaiting =>
    have hiS : i ∉ S := by
      intro hiS
      obtain rfl := Op.Sound.next_of_rests (hi.sound i) (h.rests i hiS) ho
      obtain ⟨j, hj, -⟩ := h.awaits i hiS
      simp [allowed, hj] at hk
    refine hsame (hupdate hiS hops) (fun i _ => by rw [hawaiting]) fun j hj => ?_
    by_cases hji : j = i
    · subst hji
      rw [hops, Function.update_self, Op.queued_step ho (ne_start_of_allowed hk)]
      exact h.queued j hj
    · rw [hops, Function.update_of_ne hji]
      exact h.queued j hj
  | await i j hnone _ hops hawaiting =>
    have hiS : i ∉ S := by
      intro hiS
      obtain ⟨k, hk, -⟩ := h.awaits i hiS
      rw [hnone] at hk
      cases hk
    exact hsame (fun i _ => by rw [hops]) (hrest hiS hawaiting)
      fun j hj => by rw [hops]; exact h.queued j hj
  | resume i j hj hc _ hops hawaiting =>
    have hiS : i ∉ S := by
      intro hiS
      obtain ⟨k, hk, hor⟩ := h.awaits i hiS
      obtain rfl := Option.some.inj (hj.symm.trans hk)
      have hopen : (s.ops j).complete = false :=
        hor.elim (·.2) fun hjQ => (hi.sound j).not_complete_of_queued (h.queued j hjQ)
      rw [hopen] at hc
      cases hc
    exact hsame (fun i _ => by rw [hops]) (hrest hiS hawaiting)
      fun j hj => by rw [hops]; exact h.queued j hj

theorem Closed.run (h : Closed N S Q s) (hi : Inv s) {ls : List (PoolLabel n)} {t : PoolState α n}
    (hr : (pool N calls).run s ls = some t) : ∀ i ∈ S, t.ops i = s.ops i := by
  have hrun := Machine.run_induction (M := pool N calls)
    (P := fun _ t => Closed N S Q t ∧ Inv t ∧ ∀ i ∈ S, t.ops i = s.ops i)
    ⟨h, hi, fun _ _ => rfl⟩ (fun _ t l t' _ ⟨hclosed, hinv, hsame⟩ hs => by
      obtain ⟨hclosed', hsame'⟩ := hclosed.step hinv hs
      exact ⟨hclosed', hinv.step hs, fun i hiS => (hsame' i hiS).trans (hsame i hiS)⟩) ls t hr
  exact hrun.2.2

/-- The operations whose chains run into a cycle. -/
theorem closed_of_cycle {j : Fin n} (hj : Relation.TransGen s.Blocks j j) :
    Closed N { i | Relation.ReflTransGen s.Blocks i j } ∅ s where
  rests i hi := by
    obtain ⟨k, hk, -⟩ := exists_next_of_cycle hj hi
    exact hk.1
  awaits i hi := by
    obtain ⟨k, hk, hkj⟩ := exists_next_of_cycle hj hi
    exact ⟨k, hk.2.1, .inl ⟨hkj, hk.2.2⟩⟩
  queued j hj := absurd hj (Set.notMem_empty j)
  full hQ := absurd hQ Set.not_nonempty_empty

/-- The operations whose chains end in the queue. -/
theorem closed_of_held (hi : Inv s) {H : Finset (Fin n)} (hH : ∀ i ∈ H, s.Held i)
    (hN : N ≤ H.card) :
    Closed N { i | ∃ j ∈ s.queue, Relation.TransGen s.Blocks i j } { j | j ∈ s.queue } s where
  rests i := by
    rintro ⟨j, -, hj⟩
    obtain ⟨k, hk, -⟩ := Relation.TransGen.head'_iff.mp hj
    exact hk.1
  awaits i := by
    rintro ⟨j, hq, hj⟩
    obtain ⟨k, hk, hkj⟩ := Relation.TransGen.head'_iff.mp hj
    refine ⟨k, hk.2.1, ?_⟩
    rcases Relation.reflTransGen_iff_eq_or_transGen.mp hkj with rfl | hkj
    · exact .inr hq
    · exact .inl ⟨⟨j, hq, hkj⟩, hk.2.2⟩
  queued j hj := ((hi.queue j).mp hj).2
  full _ := ⟨H, hN, fun i hiH => ⟨(hH i hiH).2, (hH i hiH).1⟩⟩

/-- An operation with an item that does not go on is never finished. -/
theorem Closed.never_finished (h : Closed N S Q s) (hi : Inv s) {i : Fin n} (hiS : i ∈ S)
    (hw : (s.ops i).waits = true) : s.Unfinished i ∧
      ∀ ls t, (pool N calls).run s ls = some t → (t.ops i).finished = false := by
  have hfin : (s.ops i).finished = false := by
    by_contra hf
    have hrun := Op.running_of_waits hw
    rw [Op.not_running_of_finished (by simpa using hf)] at hrun
    cases hrun
  have hsub : s.submitted i = true := by
    by_contra hn
    have hq := hi.fresh i (by simpa using hn)
    rw [Op.not_queued_of_waits hw] at hq
    cases hq
  refine ⟨⟨hsub, hfin⟩, fun ls t hr => ?_⟩
  rw [h.run hi hr i hiS]
  exact hfin

/-- **The pool does not deadlock** while no operation with an item is blocked by a cycle, and some
thread is not held for the queue; where one of them fails, an operation is never finished,
whatever is done. -/
theorem no_pool_deadlock (hN : 1 ≤ N) (h : (pool N calls).Reachable s) :
    (s.Clear N → (∃ i, s.Unfinished i) →
      ∃ l : PoolLabel n, l.continues = true ∧ (pool N calls).Enabled s l) ∧
    (¬ s.Clear N → ∃ i, s.Unfinished i ∧
      ∀ ls t, (pool N calls).run s ls = some t → (t.ops i).finished = false) := by
  have hi := inv_reachable h
  refine ⟨fun hclear hu => ?_, fun hnot => ?_⟩
  · by_contra hno
    exact hclear.goes_on hi hu (stuck_of_not_enabled hno)
  · by_cases hac : ∀ i, (s.ops i).waits = true → ∀ j, Relation.ReflTransGen s.Blocks i j →
        ¬ Relation.TransGen s.Blocks j j
    · have hfree : ¬ ∀ H : Finset (Fin n), (∀ i ∈ H, s.Held i) → H.card < N :=
        fun hfree => hnot ⟨hac, hfree⟩
      push Not at hfree
      obtain ⟨H, hH, hcard⟩ := hfree
      obtain ⟨i, hiH⟩ := Finset.card_pos.mp (Nat.lt_of_lt_of_le hN hcard)
      exact ⟨i, (closed_of_held hi hH hcard).never_finished hi (hH i hiH).2 (hH i hiH).1⟩
    · push Not at hac
      obtain ⟨i, hw, j, hij, hj⟩ := hac
      exact ⟨i, (closed_of_cycle hj).never_finished hi hij hw⟩

/-- `status` with two items, and an operation with a promise. -/
def statusAndAdd : Fin 2 → OpCall Nat
  | 0 => .stream ⟨.status, fun _ => false, [7, 8], .ok ()⟩
  | 1 => .promise

/-- The consumer has the first item, and the worker holds the second. -/
def oneTaken (i : Fin n) : List (PoolLabel n) :=
  [.next, .report, .dispatch, .ret, .future, .consumed, .report, .dispatch, .ret, .future].map
    (.op i)

/-- Then the consumer calls the other method and awaits it. -/
def awaitAdd : List (PoolLabel 2) :=
  [.submit 0, .start] ++ oneTaken 0 ++ [.submit 1, .await 0 1]

/-- On two threads the pool goes on; on one the operation is never finished. -/
theorem no_pool_deadlock_two_threads :
    (∃ s, (pool 2 statusAndAdd).run (pool 2 statusAndAdd).init awaitAdd = some s ∧
      ∃ l : PoolLabel 2, l.continues = true ∧ (pool 2 statusAndAdd).Enabled s l) ∧
    ∃ s, (pool 1 statusAndAdd).run (pool 1 statusAndAdd).init awaitAdd = some s ∧
      ∃ i, s.Unfinished i ∧ ∀ ls t, (pool 1 statusAndAdd).run s ls = some t →
        (t.ops i).finished = false := by
  refine ⟨⟨_, (Option.some_get rfl).symm, ?_⟩, _, (Option.some_get rfl).symm, ?_⟩
  · refine (no_pool_deadlock (by decide) ⟨awaitAdd, (Option.some_get rfl).symm⟩).1 ?_
      ⟨0, rfl, rfl⟩
    refine ⟨fun _ _ j _ => Acyclic.of_lt ?_ j, fun H hH => ?_⟩
    · simp only [Blocks, Awaits]
      decide
    · have hsub : H ⊆ {0} := by
        intro i hi
        have hw := (hH i hi).1
        match i, hw with
        | 0, _ => exact Finset.mem_singleton_self 0
        | 1, hw => cases hw
      exact Nat.lt_of_le_of_lt (Finset.card_le_card hsub) (by decide)
  · refine (no_pool_deadlock (by decide) ⟨awaitAdd, (Option.some_get rfl).symm⟩).2 ?_
    rintro ⟨-, hfree⟩
    have hheld := hfree {0} fun i hi => ?_
    · exact absurd hheld (by decide)
    · obtain rfl := Finset.mem_singleton.mp hi
      exact ⟨rfl, 1, by decide, .single ⟨rfl, rfl, rfl⟩⟩

/-- With one thread `status` keeps it, and the other job does not start. -/
theorem pool_deadlock :
    ¬ ∀ (N n : Nat) (calls : Fin n → OpCall Nat) (s : PoolState Nat n), 1 ≤ N →
      (pool N calls).Reachable s → (∃ i, s.Unfinished i) →
        ∃ l, (pool N calls).Enabled s l := by
  intro h
  obtain ⟨l, hl⟩ := h 1 2 statusAndAdd _ (Nat.le_refl 1)
    ⟨awaitAdd, (Option.some_get rfl).symm⟩ ⟨0, rfl, rfl⟩
  revert hl
  cases l with
  | submit i => revert i; decide
  | start => decide
  | op i k => revert i; cases k <;> decide
  | await i j => revert i j; decide
  | resume i => revert i; decide

/-- Two consumers that await each other stop, however many threads there are. -/
theorem pool_deadlock_cycle :
    ¬ ∀ (N n : Nat) (calls : Fin n → OpCall Nat) (s : PoolState Nat n),
      (∀ H : Finset (Fin n), (∀ i ∈ H, s.Held i) → H.card < N) →
        (pool N calls).Reachable s → (∃ i, s.Unfinished i) →
          ∃ l, (pool N calls).Enabled s l := by
  intro h
  obtain ⟨l, hl⟩ := h 3 2 (fun _ => .stream ⟨.status, fun _ => false, [7, 8], .ok ()⟩) _
    (fun H _ => Nat.lt_of_le_of_lt (Finset.card_le_univ H) (by decide))
    ⟨[.submit 0, .submit 1, .start, .start] ++ oneTaken 0 ++ oneTaken 1 ++
      [.await 0 1, .await 1 0], (Option.some_get rfl).symm⟩ ⟨0, rfl, rfl⟩
  revert hl
  cases l with
  | submit i => revert i; decide
  | start => decide
  | op i k => revert i; cases k <;> decide
  | await i j => revert i j; decide
  | resume i => revert i; decide

end PoolState

end NodeSvn
