import NodeSvn.Node.StreamLaw

/-!
# `for await` over an iterator

What a streaming method returns is an `AsyncIterable`, which JS reads in loops
`for await (const x of iterable)`:

    iterable[Symbol.asyncIterator]()    get_async_iterator: the iterator, but only once
    await iterator.next()               {done: false}  the body, and again
                                        {done: true}   the end of the loop
                                        a rejection    the loop throws it
    break                               nothing, as the iterator has no method return

The machine `forAwait c` has any number of such loops over the iterator of one operation, beside
the worker and the loop thread.  The first loop gets the iterator and the others throw, so that
`next` is called in turn, as the stream law asks of a consumer (`forAwait_law`).  As `break` tells
the iterator nothing, a loop that is left before the last item keeps a pool thread for good
(`left_law`).
-/

namespace NodeSvn

variable {α : Type}

/-- `get_async_iterator`, by `_iterator_created`: it returns the iterator, or throws a string. -/
def getAsyncIterator (iteratorCreated : Bool) : Except String Unit × Bool :=
  if iteratorCreated then (.error "You can only get iterable once", iteratorCreated)
  else (.ok (), true)

inductive ForAwaitPhase (α : Type) where
  /-- about to call `next` -/
  | asks
  | awaits (promise : Handle)
  | body
  | done
  | failed (reason : Option (StreamValue α))
  /-- `break`, or an exception of the body -/
  | left
  /-- a method of the iterator threw -/
  | threw (message : String)

structure ForAwaitLoop (α : Type) where
  phase : ForAwaitPhase α
  /-- what its promises were settled with -/
  received : List (Settlement (StreamValue α))

inductive ForAwaitAction where
  | ask
  /-- the promise that the loop awaits is settled -/
  | resume
  | continue_
  | break_
  deriving DecidableEq, Repr

inductive ForAwaitLabel where
  /-- a step of the worker or the loop thread -/
  | thread (l : StreamLabel)
  /-- JS comes to a further loop -/
  | begin_
  | loop (w : Nat) (a : ForAwaitAction)
  deriving DecidableEq, Repr

structure ForAwait (α : Type) where
  stream : StreamState α
  /-- `_iterator_created` -/
  iteratorCreated : Bool
  /-- in the order in which JS came to them -/
  loops : List (ForAwaitLoop α)

/-- The loop is not over. -/
def ForAwaitPhase.Runs : ForAwaitPhase α → Prop
  | .asks | .awaits _ | .body => True
  | _ => False

/-- Neither a further loop, nor the exit from one. -/
def ForAwaitLabel.continues : ForAwaitLabel → Bool
  | .begin_ | .loop _ .break_ => false
  | _ => true

/-- How the loop goes on with a promise that is settled so. -/
def ForAwaitPhase.ofSettlement : Settlement (StreamValue α) → ForAwaitPhase α
  | .fulfilled _ false => .body
  | .fulfilled _ true => .done
  | .rejected reason => .failed reason

def ForAwaitLoop.act (L : ForAwaitLoop α) (stream : StreamState α) :
    ForAwaitAction → Option (ForAwaitLoop α × StreamState α)
  | .ask =>
    match L.phase with
    | .asks =>
      match Iterable.next.run stream.tr.it with
      | .ok promise _ =>
        some ({ L with phase := .awaits promise }, { stream with tr := stream.tr.next })
      | .error _ _ =>
        some ({ L with phase := .threw "error invoking method" },
          { stream with tr := stream.tr.next })
    | _ => none
  | .resume =>
    match L.phase with
    | .awaits promise => (stream.tr.it.stateOf promise).map fun x =>
        (⟨.ofSettlement x, L.received ++ [x]⟩, stream)
    | _ => none
  | .continue_ =>
    match L.phase with
    | .body => some ({ L with phase := .asks }, stream)
    | _ => none
  | .break_ =>
    match L.phase with
    | .body => some ({ L with phase := .left }, stream)
    | _ => none

namespace ForAwait

/-- JS comes to a loop. -/
def begin_ (s : ForAwait α) : ForAwait α :=
  match getAsyncIterator s.iteratorCreated with
  | (.ok (), iteratorCreated) => { s with iteratorCreated, loops := s.loops ++ [⟨.asks, []⟩] }
  | (.error message, iteratorCreated) =>
    { s with iteratorCreated, loops := s.loops ++ [⟨.threw message, []⟩] }

def step (c : StreamCall α) (s : ForAwait α) : ForAwaitLabel → Option (ForAwait α)
  | .thread l =>
    if l = .next then none
    else (s.stream.step c l).map fun stream => { s with stream }
  | .begin_ => if s.stream.loop = .crashed then none else some s.begin_
  | .loop w a =>
    if s.stream.loop = .crashed then none
    else
      s.loops[w]?.bind fun L => (L.act s.stream a).map fun p =>
        { s with stream := p.2, loops := s.loops.set w p.1 }

end ForAwait

/-- One streaming operation, with a program that reads its iterator in loops. -/
def forAwait (c : StreamCall α) : Machine (ForAwait α) ForAwaitLabel where
  init := ⟨c.init, false, []⟩
  step := ForAwait.step c

section Laws

variable {c : StreamCall α} {s s' : ForAwait α} {L : ForAwaitLoop α} {t t' : StreamState α}

/-! ## The loop that has the iterator -/

namespace ForAwaitLoop

/-- A loop that did not get the iterator. -/
def refused : ForAwaitLoop α := ⟨.threw "You can only get iterable once", []⟩

/-- The loop awaits nothing, and has all answers. -/
structure Took (L : ForAwaitLoop α) (tr : Trace (StreamValue α)) : Prop where
  answers : tr.answers = L.received
  returned : tr.returned.length = L.received.length

/-- `next` returned the promise last. -/
structure Asked (L : ForAwaitLoop α) (promise : Handle) (tr : Trace (StreamValue α)) : Prop where
  answers : L.received <+: tr.answers
  returned : tr.returned.length = L.received.length + 1
  last : tr.returned.getLast? = some promise

/-- So far the loop received items. -/
def GoesOn (L : ForAwaitLoop α) : Prop := ∀ x ∈ L.received, ∃ v, x = .fulfilled v false

/-- What the phase of the loop says of the iterator. -/
def Inside (L : ForAwaitLoop α) (tr : Trace (StreamValue α)) : Prop :=
  match L.phase with
  | .asks => L.Took tr ∧ L.GoesOn
  | .awaits promise => L.Asked promise tr ∧ L.GoesOn
  | .body => L.Took tr ∧ L.GoesOn
  | .done => L.Took tr ∧ ∃ v, L.received.getLast? = some (.fulfilled v true)
  | .failed reason => L.Took tr ∧ L.received.getLast? = some (.rejected reason)
  | .left => L.Took tr ∧ L.GoesOn
  | .threw _ => False

theorem Took.mono {tr tr' : Trace (StreamValue α)} (h : L.Took tr)
    (hanswers : tr.answers <+: tr'.answers) (hreturned : tr'.returned = tr.returned) :
    L.Took tr' := by
  have hlen : tr'.answers.length ≤ tr'.returned.length := List.length_filterMap_le _ _
  rw [hreturned, h.returned, ← h.answers] at hlen
  exact ⟨(hanswers.eq_of_length_le hlen).symm.trans h.answers, hreturned ▸ h.returned⟩

theorem Asked.mono {tr tr' : Trace (StreamValue α)} {promise : Handle} (h : L.Asked promise tr)
    (hanswers : tr.answers <+: tr'.answers) (hreturned : tr'.returned = tr.returned) :
    L.Asked promise tr' :=
  ⟨h.answers.trans hanswers, hreturned ▸ h.returned, hreturned ▸ h.last⟩

theorem Inside.mono {tr tr' : Trace (StreamValue α)} (h : L.Inside tr)
    (hanswers : tr.answers <+: tr'.answers) (hreturned : tr'.returned = tr.returned) :
    L.Inside tr' := by
  unfold Inside at h ⊢
  cases hphase : L.phase <;> rw [hphase] at h
  · exact ⟨h.1.mono hanswers hreturned, h.2⟩
  · exact ⟨h.1.mono hanswers hreturned, h.2⟩
  · exact ⟨h.1.mono hanswers hreturned, h.2⟩
  · exact ⟨h.1.mono hanswers hreturned, h.2⟩
  · exact ⟨h.1.mono hanswers hreturned, h.2⟩
  · exact ⟨h.1.mono hanswers hreturned, h.2⟩
  · exact h.elim

/-- The loop asks in turn. -/
theorem Took.lastSettled {tr : Trace (StreamValue α)} (h : L.Took tr) (ho : tr.Orderly) :
    tr.LastSettled := by
  have hlen : tr.returned.length = tr.answers.length := by rw [h.returned, h.answers]
  rcases ho.linked.returned_map ho.toInv with hmap | hmap
  · intro promise hlast
    have hmem : tr.it.stateOf promise ∈ tr.answers.map some := by
      rw [← hmap]
      exact List.mem_map_of_mem (List.mem_of_getLast? hlast)
    obtain ⟨x, -, hx⟩ := List.mem_map.mp hmem
    rw [← hx]
    rfl
  · have hlonger := congrArg List.length hmap
    rw [List.length_map, List.length_append, List.length_map, List.length_singleton] at hlonger
    omega

/-- Once the promise is settled, the loop has all answers. -/
theorem Asked.resume {tr : Trace (StreamValue α)} {promise : Handle}
    {x : Settlement (StreamValue α)} (h : L.Asked promise tr) (ho : tr.Orderly)
    (hx : tr.it.stateOf promise = some x) (phase : ForAwaitPhase α) :
    ForAwaitLoop.Took ⟨phase, L.received ++ [x]⟩ tr := by
  have hlast : (tr.returned.map tr.it.stateOf).getLast? = some (some x) := by
    rw [List.getLast?_map, h.last, Option.map_some, hx]
  rcases ho.linked.returned_map ho.toInv with hmap | hmap
  · have hlen := congrArg List.length hmap
    rw [List.length_map, List.length_map, h.returned] at hlen
    obtain ⟨more, hmore⟩ := h.answers
    rw [hmap, ← hmore, List.map_append] at hlast
    rw [← hmore, List.length_append] at hlen
    obtain ⟨y, rfl⟩ : ∃ y, more = [y] := List.length_eq_one_iff.mp (by omega)
    rw [List.map_singleton, List.getLast?_concat, Option.some.injEq, Option.some.injEq] at hlast
    refine ⟨?_, ?_⟩
    · rw [← hmore, hlast]
    · rw [h.returned, List.length_append, List.length_singleton]
  · rw [hmap, List.getLast?_concat] at hlast
    cases hlast

end ForAwaitLoop

/-- What is answered stays. -/
theorem StreamState.answers_of_channel {t t' : StreamState α}
    (h : toChannel c t' = toChannel c t ∨
      ∃ k, (toChannel c t).step k = some (toChannel c t')) : t.tr.answers <+: t'.tr.answers := by
  rcases h with heq | ⟨k, hk⟩
  · have hreceived : t'.tr.answers = t.tr.answers := congrArg Channel.received heq
    exact ⟨[], (List.append_nil _).trans hreceived.symm⟩
  · exact Channel.received_step hk

/-! ## Steps -/

/-- The steps of the loop until it asks again, or is over. -/
def ForAwaitPhase.rank : ForAwaitPhase α → Nat
  | .awaits _ => 2
  | .body => 1
  | _ => 0

/-- What remains for the stream and the loop. -/
def ForAwaitLoop.remaining (c : StreamCall α) (L : ForAwaitLoop α) (t : StreamState α) : Nat :=
  3 * StreamState.stepsLeft c t + L.phase.rank

/-- What a loop that has the iterator does. -/
structure ForAwaitLoop.Acted (c : StreamCall α) (L L' : ForAwaitLoop α) (t t' : StreamState α) :
    Prop where
  reachable : (stream c).Reachable t'
  inside : L'.Inside t'.tr
  less : L'.remaining c t' < L.remaining c t

theorem ForAwaitLoop.Inside.ask (h : L.Inside t.tr) (hr : (stream c).Reachable t)
    (hcrash : t.loop ≠ .crashed) (hphase : L.phase = .asks) :
    ∃ L' t', L.act t .ask = some (L', t') ∧ L.Acted c L' t t' := by
  unfold Inside at h
  rw [hphase] at h
  obtain ⟨htook, hgoes⟩ := h
  have hflow := StreamState.flow_reachable hr
  have hnext : t.next = some { t with tr := t.tr.next } :=
    if_pos ⟨hcrash, htook.lastSettled hflow.orderly⟩
  have hstep : t.step c .next = some { t with tr := t.tr.next } := hnext
  obtain ⟨-, -, hreturned, hchannel⟩ := hflow.next hnext
  have hanswers := StreamState.answers_of_channel (hchannel.imp_right fun hk => ⟨.accept, hk⟩)
  have hless := hflow.stepsLeft_lt hr hstep
  unfold act
  rw [hphase]
  cases hrun : Iterable.next.run t.tr.it with
  | ok promise it =>
    have htr : t.tr.next = { t.tr with it := it, returned := t.tr.returned ++ [promise] } := by
      unfold Trace.next
      rw [hrun]
    refine ⟨_, _, rfl, hr.step (l := .next) hnext, ⟨⟨?_, ?_, ?_⟩, hgoes⟩, ?_⟩
    · rw [← htook.answers]
      exact hanswers
    · rw [← htook.returned]
      exact hreturned
    · show t.tr.next.returned.getLast? = _
      rw [htr, List.getLast?_concat]
    · show 3 * StreamState.stepsLeft c _ + 2 < 3 * StreamState.stepsLeft c t + L.phase.rank
      omega
  | error e it =>
    have htr : t.tr.next = { t.tr with it := it } := by
      unfold Trace.next
      rw [hrun]
    have hsame : t.tr.next.returned.length = t.tr.returned.length := by rw [htr]
    exact absurd (hsame.symm.trans hreturned) (by omega)

theorem ForAwaitLoop.Asked.inside {promise : Handle} {x : Settlement (StreamValue α)}
    (h : L.Asked promise t.tr) (hgoes : L.GoesOn) (ho : t.tr.Orderly)
    (hx : t.tr.it.stateOf promise = some x) :
    ForAwaitLoop.Inside ⟨.ofSettlement x, L.received ++ [x]⟩ t.tr := by
  have htook := h.resume ho hx
  cases x with
  | rejected reason => exact ⟨htook _, List.getLast?_concat⟩
  | fulfilled v done =>
    cases done with
    | true => exact ⟨htook _, v, List.getLast?_concat⟩
    | false =>
      refine ⟨htook _, fun y hy => ?_⟩
      rcases List.mem_append.mp hy with hy | hy
      · exact hgoes y hy
      · exact ⟨v, List.mem_singleton.mp hy⟩

theorem ForAwaitPhase.rank_ofSettlement (x : Settlement (StreamValue α)) :
    (ForAwaitPhase.ofSettlement x).rank ≤ 1 := by
  cases x with
  | rejected reason => exact Nat.zero_le 1
  | fulfilled v done =>
    cases done with
    | true => exact Nat.zero_le 1
    | false => exact Nat.le_refl 1

/-- Each step of the loop keeps what its phase says. -/
theorem ForAwaitLoop.Inside.act (h : L.Inside t.tr) (hr : (stream c).Reachable t)
    (hcrash : t.loop ≠ .crashed) {a : ForAwaitAction} {L' : ForAwaitLoop α}
    (ha : L.act t a = some (L', t')) : L.Acted c L' t t' := by
  obtain ⟨phase, received⟩ := L
  cases a with
  | ask =>
    cases phase with
    | asks =>
      obtain ⟨L₁, t₁, hact, hacted⟩ := h.ask hr hcrash rfl
      obtain ⟨rfl, rfl⟩ := Prod.mk.inj (Option.some.inj (hact.symm.trans ha))
      exact hacted
    | _ => cases ha
  | resume =>
    cases phase with
    | awaits promise =>
      obtain ⟨x, hx, heq⟩ := Option.map_eq_some_iff.mp ha
      obtain ⟨rfl, rfl⟩ := Prod.mk.inj heq
      have hrank := ForAwaitPhase.rank_ofSettlement x
      refine ⟨hr, h.1.inside h.2 (StreamState.flow_reachable hr).orderly hx, ?_⟩
      show 3 * StreamState.stepsLeft c t + (ForAwaitPhase.ofSettlement x).rank <
        3 * StreamState.stepsLeft c t + 2
      omega
    | _ => cases ha
  | continue_ =>
    cases phase with
    | body =>
      obtain ⟨rfl, rfl⟩ := Prod.mk.inj (Option.some.inj ha)
      exact ⟨hr, ⟨⟨h.1.answers, h.1.returned⟩, h.2⟩, Nat.lt_succ_self _⟩
    | _ => cases ha
  | break_ =>
    cases phase with
    | body =>
      obtain ⟨rfl, rfl⟩ := Prod.mk.inj (Option.some.inj ha)
      exact ⟨hr, ⟨⟨h.1.answers, h.1.returned⟩, h.2⟩, Nat.lt_succ_self _⟩
    | _ => cases ha

namespace ForAwait

/-- The first loop has the iterator; the others were refused. -/
def Owned (s : ForAwait α) : Prop :=
  match s.loops with
  | [] => s.iteratorCreated = false ∧ s.stream.tr.returned = []
  | L :: others =>
    s.iteratorCreated = true ∧ L.Inside s.stream.tr ∧ ∀ L' ∈ others, L' = .refused

/-- **The invariant.** -/
structure Inv (c : StreamCall α) (s : ForAwait α) : Prop where
  reachable : (NodeSvn.stream c).Reachable s.stream
  owned : s.Owned

theorem Inv.flow (h : Inv c s) : StreamState.Flow c s.stream :=
  StreamState.flow_reachable h.reachable

theorem Inv.inside (h : Inv c s) (hL : s.loops[0]? = some L) : L.Inside s.stream.tr := by
  have howned := h.owned
  unfold Owned at howned
  cases hloops : s.loops with
  | nil =>
    rw [hloops] at hL
    cases hL
  | cons first others =>
    rw [hloops] at howned hL
    obtain rfl := Option.some.inj hL
    exact howned.2.1

theorem Inv.others (h : Inv c s) {w : Nat} (hL : s.loops[w]? = some L) (hw : w ≠ 0) :
    L = .refused := by
  have howned := h.owned
  unfold Owned at howned
  cases hloops : s.loops with
  | nil =>
    rw [hloops] at hL
    cases hL
  | cons first others =>
    rw [hloops] at howned hL
    obtain ⟨i, rfl⟩ := Nat.exists_eq_succ_of_ne_zero hw
    exact howned.2.2 L (List.mem_of_getElem? hL)

theorem inv_init (c : StreamCall α) : Inv c (forAwait c).init := ⟨.refl, rfl, rfl⟩

/-- A refused loop is over. -/
theorem act_refused (t : StreamState α) (a : ForAwaitAction) :
    ForAwaitLoop.refused.act t a = none := by
  cases a <;> rfl

/-- A step is one of the worker or the loop thread, a further loop, or one of the first loop. -/
theorem Inv.step_cases (h : Inv c s) {l : ForAwaitLabel} (hs : s.step c l = some s') :
    (∃ k t, l = .thread k ∧ k ≠ .next ∧ s.stream.step c k = some t ∧
        s' = { s with stream := t }) ∨
      (l = .begin_ ∧ s' = s.begin_) ∨
      ∃ a L L' t, l = .loop 0 a ∧ s.loops[0]? = some L ∧ L.act s.stream a = some (L', t) ∧
        s' = { s with stream := t, loops := s.loops.set 0 L' } := by
  have hcrash := h.flow.no_failure.2.2
  cases l with
  | thread k =>
    change (if k = .next then none
      else (s.stream.step c k).map fun stream => { s with stream }) = some s' at hs
    by_cases hk : k = .next
    · rw [if_pos hk] at hs
      cases hs
    · rw [if_neg hk] at hs
      obtain ⟨t, ht, rfl⟩ := Option.map_eq_some_iff.mp hs
      exact .inl ⟨k, t, rfl, hk, ht, rfl⟩
  | begin_ =>
    change (if s.stream.loop = .crashed then none else some s.begin_) = some s' at hs
    rw [if_neg hcrash] at hs
    exact .inr (.inl ⟨rfl, (Option.some.inj hs).symm⟩)
  | loop w a =>
    change (if s.stream.loop = .crashed then none
      else s.loops[w]?.bind fun L => (L.act s.stream a).map fun p =>
        { s with stream := p.2, loops := s.loops.set w p.1 }) = some s' at hs
    rw [if_neg hcrash] at hs
    obtain ⟨L, hL, hmap⟩ := Option.bind_eq_some_iff.mp hs
    obtain ⟨⟨L', t⟩, hact, rfl⟩ := Option.map_eq_some_iff.mp hmap
    by_cases hw : w = 0
    · subst hw
      exact .inr (.inr ⟨a, L, L', t, rfl, hL, hact, rfl⟩)
    · rw [h.others hL hw, act_refused] at hact
      cases hact

theorem begin_first (h : s.iteratorCreated = false) (hloops : s.loops = []) :
    s.begin_ = ⟨s.stream, true, [⟨.asks, []⟩]⟩ := by
  unfold begin_ getAsyncIterator
  rw [h, hloops]
  rfl

theorem begin_again (h : s.iteratorCreated = true) :
    s.begin_ = ⟨s.stream, true, s.loops ++ [.refused]⟩ := by
  unfold begin_ getAsyncIterator
  rw [h]
  rfl

/-- A further loop comes after the others. -/
theorem getElem?_begin {w : Nat} (hL : s.loops[w]? = some L) : s.begin_.loops[w]? = some L := by
  have hlt := (List.getElem?_eq_some_iff.mp hL).1
  unfold begin_ getAsyncIterator
  cases s.iteratorCreated with
  | false => exact (List.getElem?_append_left hlt).trans hL
  | true => exact (List.getElem?_append_left hlt).trans hL

/-- What remains for the stream and the first loop. -/
def remaining (c : StreamCall α) (s : ForAwait α) : Nat :=
  match s.loops with
  | [] => 3 * StreamState.stepsLeft c s.stream
  | L :: _ => L.remaining c s.stream

theorem Inv.thread (h : Inv c s) {k : StreamLabel} (hk : k ≠ .next)
    (ht : s.stream.step c k = some t) :
    Inv c { s with stream := t } ∧ remaining c { s with stream := t } < s.remaining c := by
  have hless := h.flow.stepsLeft_lt h.reachable ht
  rcases h.flow.step_cases ht with ⟨-, ha⟩ | ⟨hnext, -⟩
  · have hanswers := StreamState.answers_of_channel ha.channel
    have howned := h.owned
    unfold Owned at howned
    unfold remaining
    cases hloops : s.loops with
    | nil =>
      rw [hloops] at howned
      refine ⟨⟨h.reachable.step ht, howned.1, ha.returned.trans howned.2⟩, ?_⟩
      show 3 * StreamState.stepsLeft c t < 3 * StreamState.stepsLeft c s.stream
      omega
    | cons L others =>
      rw [hloops] at howned
      refine ⟨⟨h.reachable.step ht, howned.1, howned.2.1.mono hanswers ha.returned,
        howned.2.2⟩, ?_⟩
      show 3 * StreamState.stepsLeft c t + L.phase.rank <
        3 * StreamState.stepsLeft c s.stream + L.phase.rank
      omega
  · exact absurd hnext hk

theorem Inv.begin_ (h : Inv c s) : Inv c s.begin_ ∧ s.begin_.remaining c = s.remaining c := by
  have howned := h.owned
  unfold Owned at howned
  unfold remaining
  cases hloops : s.loops with
  | nil =>
    rw [hloops] at howned
    obtain ⟨hcreated, hreturned⟩ := howned
    rw [begin_first hcreated hloops]
    refine ⟨⟨h.reachable, rfl, ⟨⟨?_, ?_⟩, fun x hx => (by cases hx)⟩, fun L hL => (by cases hL)⟩,
      rfl⟩
    · show List.filterMap _ s.stream.tr.returned = []
      rw [hreturned]
      rfl
    · show s.stream.tr.returned.length = 0
      rw [hreturned]
      rfl
  | cons L others =>
    rw [hloops] at howned
    obtain ⟨hcreated, hinside, hothers⟩ := howned
    rw [begin_again hcreated, hloops]
    refine ⟨⟨h.reachable, rfl, hinside, fun L' hL' => ?_⟩, rfl⟩
    rcases List.mem_append.mp hL' with hL' | hL'
    · exact hothers L' hL'
    · exact List.mem_singleton.mp hL'

theorem Inv.loop (h : Inv c s) {a : ForAwaitAction} {L' : ForAwaitLoop α}
    (hL : s.loops[0]? = some L) (hact : L.act s.stream a = some (L', t)) :
    Inv c { s with stream := t, loops := s.loops.set 0 L' } ∧
      remaining c { s with stream := t, loops := s.loops.set 0 L' } < s.remaining c := by
  have hacted := (h.inside hL).act h.reachable h.flow.no_failure.2.2 hact
  have howned := h.owned
  unfold Owned at howned
  unfold remaining
  cases hloops : s.loops with
  | nil =>
    rw [hloops] at hL
    cases hL
  | cons first others =>
    rw [hloops] at howned hL
    obtain rfl := Option.some.inj hL
    exact ⟨⟨hacted.reachable, howned.1, hacted.inside, howned.2.2⟩, hacted.less⟩

theorem Inv.step (h : Inv c s) {l : ForAwaitLabel} (hs : s.step c l = some s') :
    Inv c s' ∧ s'.remaining c + (if l = .begin_ then 0 else 1) ≤ s.remaining c := by
  rcases h.step_cases hs with
    ⟨k, t, rfl, hk, ht, rfl⟩ | ⟨rfl, rfl⟩ | ⟨a, L, L', t, rfl, hL, hact, rfl⟩
  · exact h.thread hk ht
  · obtain ⟨hinv, heq⟩ := h.begin_
    exact ⟨hinv, Nat.le_of_eq heq⟩
  · exact h.loop hL hact

theorem inv_reachable (h : (forAwait c).Reachable s) : Inv c s :=
  h.invariant (inv_init c) fun _ _ _ hi hs => (hi.step hs).1

/-- The end of the iteration is the last thing that there is. -/
theorem received_of_last {received : List (Settlement (StreamValue α))}
    {x : Settlement (StreamValue α)} (h : received <+: c.expected)
    (hlast : received.getLast? = some x) (hx : ∀ v, x ≠ .fulfilled v false) :
    received = c.expected ∧ x = c.marker := by
  obtain ⟨first, rfl⟩ := List.getLast?_eq_some_iff.mp hlast
  obtain ⟨rest, hrest⟩ := h
  rcases List.eq_nil_or_concat rest with rfl | ⟨more, m, rfl⟩
  · rw [List.append_nil] at hrest
    have hend := List.append_inj' (hrest.trans rfl) rfl
    exact ⟨hrest, List.singleton_inj.mp hend.2⟩
  · rw [List.concat_eq_append, ← List.append_assoc] at hrest
    have hitems := (List.append_inj' (hrest.trans rfl) rfl).1
    have hmem : x ∈ (c.delivered c.items).map StreamCall.itemSettlement := by
      rw [← hitems]
      simp
    obtain ⟨a, -, ha⟩ := List.mem_map.mp hmem
    exact absurd ha.symm (hx _)

/-- The end is no item. -/
theorem not_goesOn_expected (h : L.received = c.expected) : ¬ L.GoesOn := by
  intro hgoes
  have hmarker : c.marker ∈ L.received := by
    rw [h]
    exact List.mem_append_right _ List.mem_cons_self
  obtain ⟨v, hv⟩ := hgoes _ hmarker
  unfold StreamCall.marker at hv
  cases houtcome : c.outcome <;> rw [houtcome] at hv <;> cases hv

theorem enabled_thread {l : StreamLabel} (hl : l ≠ .next)
    (h : (NodeSvn.stream c).Enabled s.stream l) : (forAwait c).Enabled s (.thread l) := by
  show (if l = .next then none
    else (s.stream.step c l).map fun stream => { s with stream }).isSome = true
  rw [if_neg hl, Option.isSome_map]
  exact h

/-- While a loop awaits, something can go on. -/
theorem Inv.resumes (h : Inv c s) {promise : Handle} (hL : L.Asked promise s.stream.tr)
    (hgoes : L.GoesOn) (hpending : s.stream.tr.it.stateOf promise = none) :
    ∃ l, l ≠ .next ∧ (NodeSvn.stream c).Enabled s.stream l := by
  have ho := h.flow.orderly
  have hempty : s.stream.tr.it.resolverFulfilled = false := by
    cases hful : s.stream.tr.it.resolverFulfilled with
    | false => rfl
    | true =>
      have hsettled := ho.linked.lastSettled_of_stored hful promise hL.last
      rw [hpending] at hsettled
      cases hsettled
  rcases h.flow.enabled with hen | hwaits | hdone
  · exact hen
  · exact absurd (hempty.symm.trans hwaits.2) Bool.false_ne_true
  · -- all is handed over, so the loop received the end
    have hanswers : s.stream.tr.answers = c.expected :=
      (ho.answers_of_empty hempty).trans hdone.2.2.2
    have hlen : s.stream.tr.returned.length = s.stream.tr.answers.length + 1 := by
      rcases ho.linked.returned_map ho.toInv with hmap | hmap
      · have hlast := congrArg List.getLast? hmap
        rw [List.getLast?_map, hL.last, Option.map_some, hpending, List.getLast?_map] at hlast
        cases hend : s.stream.tr.answers.getLast? <;> rw [hend] at hlast <;> cases hlast
      · simpa using congrArg List.length hmap
    have hreceived : L.received = c.expected := by
      rw [← hanswers]
      refine hL.answers.eq_of_length ?_
      have := hL.returned
      omega
    exact absurd hgoes (not_goesOn_expected hreceived)

theorem Inv.progress (h : Inv c s) (hL : s.loops[0]? = some L) (hin : L.Inside s.stream.tr)
    (hruns : L.phase.Runs) : ∃ l, l.continues = true ∧ (forAwait c).Enabled s l := by
  have hcrash := h.flow.no_failure.2.2
  have hact : ∀ a p, L.act s.stream a = some p → (forAwait c).Enabled s (.loop 0 a) := by
    intro a p hp
    show (if s.stream.loop = .crashed then none
      else s.loops[0]?.bind fun L => (L.act s.stream a).map fun p =>
        { s with stream := p.2, loops := s.loops.set 0 p.1 }).isSome = true
    rw [if_neg hcrash, hL, Option.bind_some, hp]
    rfl
  obtain ⟨phase, received⟩ := L
  cases phase with
  | asks =>
    obtain ⟨L', t', hask, -⟩ := hin.ask h.reachable hcrash rfl
    exact ⟨.loop 0 .ask, rfl, hact _ _ hask⟩
  | body => exact ⟨.loop 0 .continue_, rfl, hact _ _ rfl⟩
  | awaits promise =>
    cases hx : s.stream.tr.it.stateOf promise with
    | some x =>
      exact ⟨.loop 0 .resume, rfl, hact _ _ (Option.map_eq_some_iff.mpr ⟨x, hx, rfl⟩)⟩
    | none =>
      obtain ⟨l, hl, hen⟩ := h.resumes hin.1 hin.2 hx
      exact ⟨.thread l, rfl, enabled_thread hl hen⟩
  | done => exact hruns.elim
  | failed reason => exact hruns.elim
  | left => exact hruns.elim
  | threw message => exact hruns.elim

theorem received_prefix (hr : (NodeSvn.stream c).Reachable t) (hin : L.Inside t.tr) :
    L.received <+: c.expected := by
  have hanswers := StreamState.answers_isPrefix hr
  have htook : L.Took t.tr → L.received <+: c.expected := fun h => h.answers ▸ hanswers
  unfold ForAwaitLoop.Inside at hin
  cases hphase : L.phase <;> rw [hphase] at hin
  · exact htook hin.1
  · exact hin.1.answers.trans hanswers
  · exact htook hin.1
  · exact htook hin.1
  · exact htook hin.1
  · exact htook hin.1
  · exact hin.elim

theorem length_le {ls : List ForAwaitLabel} (h : (forAwait c).run (forAwait c).init ls = some s) :
    ls.countP (fun l => l ≠ .begin_) ≤ 18 * c.items.length + 18 := by
  have hle := Machine.run_countP_le (M := forAwait c) (I := Inv c) (remaining c)
    (fun l => l ≠ .begin_) (fun s l s' hi hs => ?_) (inv_init c) h
  · have hinit := StreamState.stepsLeft_init_le c
    have hstart : remaining c (forAwait c).init = 3 * StreamState.stepsLeft c c.init := rfl
    omega
  · obtain ⟨hinv, hless⟩ := hi.step hs
    refine ⟨hinv, ?_⟩
    by_cases hl : l = .begin_
    · rw [if_pos hl] at hless
      simpa [hl] using hless
    · rw [if_neg hl] at hless
      simpa [hl] using hless

end ForAwait

/-- **The law of `for await`.**  However many loops a program reads an iterator in, and whatever
order they, the worker and the loop thread take their steps in: the first loop gets the iterator,
and each other one throws.  The first receives the items in order, each once; it ends after the
last one, or throws the error of the operation; it goes on as long as it is not over.  No call
fails on the way, and the run is finite but for further loops. -/
theorem forAwait_law (c : StreamCall α) {ls : List ForAwaitLabel} {s : ForAwait α}
    (h : (forAwait c).run (forAwait c).init ls = some s) :
    (∀ w L, s.loops[w]? = some L → w ≠ 0 → L = .refused) ∧
      (∀ L, s.loops[0]? = some L →
        L.received <+: c.expected ∧
        (L.phase = .done → L.received = c.expected ∧ c.outcome = .ok ()) ∧
        (∀ reason, L.phase = .failed reason → L.received = c.expected ∧
          ∃ e, c.outcome = .error e ∧ reason = some (.error (copyError e))) ∧
        (∀ message, L.phase ≠ .threw message) ∧
        (L.phase.Runs → ∃ l, l.continues = true ∧ (forAwait c).Enabled s l)) ∧
      ((∀ e, s.stream.worker ≠ .failing e) ∧ (∀ e, s.stream.worker ≠ .unwound e) ∧
        s.stream.loop ≠ .crashed) ∧
      ls.countP (fun l => l ≠ .begin_) ≤ 18 * c.items.length + 18 := by
  have hinv : ForAwait.Inv c s := ForAwait.inv_reachable ⟨ls, h⟩
  refine ⟨fun w L hL hw => hinv.others hL hw, fun L hL => ?_, hinv.flow.no_failure,
    ForAwait.length_le h⟩
  have hin := hinv.inside hL
  have hreceived := ForAwait.received_prefix hinv.reachable hin
  refine ⟨hreceived, fun hphase => ?_, fun reason hphase => ?_, fun message hphase => ?_,
    hinv.progress hL hin⟩
  · unfold ForAwaitLoop.Inside at hin
    rw [hphase] at hin
    obtain ⟨-, v, hlast⟩ := hin
    obtain ⟨hall, hmarker⟩ := ForAwait.received_of_last hreceived hlast fun _ h => (by cases h)
    refine ⟨hall, ?_⟩
    unfold StreamCall.marker at hmarker
    cases houtcome : c.outcome with
    | ok => rfl
    | error e =>
      rw [houtcome] at hmarker
      cases hmarker
  · unfold ForAwaitLoop.Inside at hin
    rw [hphase] at hin
    obtain ⟨hall, hmarker⟩ := ForAwait.received_of_last hreceived hin.2 fun _ h => (by cases h)
    refine ⟨hall, ?_⟩
    unfold StreamCall.marker at hmarker
    cases houtcome : c.outcome with
    | ok =>
      rw [houtcome] at hmarker
      cases hmarker
    | error e =>
      rw [houtcome] at hmarker
      exact ⟨e, rfl, Settlement.rejected.inj hmarker⟩
  · unfold ForAwaitLoop.Inside at hin
    rw [hphase] at hin
    exact hin

/-- Both loops begin before the operation reports. -/
def twoLoops : List ForAwaitLabel :=
  [.begin_, .begin_, .thread .start, .loop 0 .ask, .thread .report, .thread .dispatch,
    .thread .ret, .thread .future, .thread .consumed, .loop 0 .resume, .loop 0 .continue_,
    .loop 0 .ask, .thread .finish, .thread .afterWork, .thread .ret, .loop 0 .resume]

/-- The first one gets the item and the end, the second one throws. -/
theorem forAwait_law_two_loops :
    ∃ s, (forAwait StreamState.statusOfOne).run (forAwait StreamState.statusOfOne).init twoLoops =
        some s ∧
      ∃ first, s.loops = [first, .refused] ∧
        first.received = [.fulfilled (some (.item 7)) false, .fulfilled none true] := by
  have hrun : ((forAwait StreamState.statusOfOne).run (forAwait StreamState.statusOfOne).init
      twoLoops).map ForAwait.loops =
        some [⟨.done, StreamState.statusOfOne.expected⟩, .refused] := rfl
  obtain ⟨s, hs, hloops⟩ := Option.map_eq_some_iff.mp hrun
  obtain ⟨-, hfirst, -⟩ := forAwait_law _ hs
  refine ⟨s, hs, _, hloops, ?_⟩
  exact ((hfirst _ (by rw [hloops]; rfl)).2.1 rfl).1

/-! ## A loop that is left -/

namespace StreamState

theorem length_expected (c : StreamCall α) :
    c.expected.length = (c.delivered c.items).length + 1 := by
  unfold StreamCall.expected
  rw [List.length_append, List.length_map, List.length_singleton]

/-- The worker is back from all items. -/
theorem Flow.completed_of_finished (h : Flow c t) (hw : t.worker = .finished) :
    t.completed = (c.delivered c.items).length := by
  have hended : ∀ active, Ended c active t → t.completed = (c.delivered c.items).length := by
    intro active he
    have hcompleted := he.completed
    rw [he.expected, length_expected] at hcompleted
    omega
  have hp := h.phase
  cases hl : t.loop <;> simp only [Phase, hw, hl] at hp
  · rcases hp with hp | hp
    · rw [hp.completed, hp.expected]
      exact List.length_map _
    · exact hended false hp
  · exact hended true hp

/-- The worker waits for an item that was not received. -/
theorem Flow.lt_of_waits (h : Flow c t) (hw : Waits t) :
    t.tr.answers.length < (c.delivered c.items).length := by
  obtain ⟨⟨f, hworker⟩, hful⟩ := hw
  have hp := h.phase
  have hlen := h.orderly.length_answers
  rw [hful, if_pos rfl] at hlen
  cases hl : t.loop <;> simp only [Phase, hworker, hl] at hp
  have hall := congrArg List.length hp.1.accounted
  rw [List.append_nil, List.length_append] at hall
  have hitems : (itemsOf c c.items).length = (c.delivered c.items).length := List.length_map _
  omega

end StreamState

namespace ForAwait

/-- Nobody asks again. -/
theorem Inv.stays_left (h : Inv c s) (hL : s.loops[0]? = some L) (hleft : L.phase = .left)
    {l : ForAwaitLabel} (hs : s.step c l = some s') : s'.loops[0]? = some L := by
  rcases h.step_cases hs with
    ⟨k, t, rfl, hk, ht, rfl⟩ | ⟨rfl, rfl⟩ | ⟨a, L₁, L', t, rfl, hL₁, hact, rfl⟩
  · exact hL
  · exact getElem?_begin hL
  · obtain rfl := Option.some.inj (hL.symm.trans hL₁)
    obtain ⟨phase, received⟩ := L
    obtain rfl : phase = .left := hleft
    cases a <;> cases hact

theorem Inv.stays_left_run (h : Inv c s) (hL : s.loops[0]? = some L) (hleft : L.phase = .left)
    {ms : List ForAwaitLabel} (hms : (forAwait c).run s ms = some s') :
    Inv c s' ∧ s'.loops[0]? = some L :=
  Machine.run_invariant (M := forAwait c) (I := fun s => Inv c s ∧ s.loops[0]? = some L) ⟨h, hL⟩
    (fun _ _ _ hi hs => ⟨(hi.1.step hs).1, hi.1.stays_left hi.2 hleft hs⟩) hms

/-- What a loop that was left has received. -/
theorem Inv.took_left (h : Inv c s) (hL : s.loops[0]? = some L) (hleft : L.phase = .left) :
    s.stream.tr.answers = L.received ∧ L.received.length ≤ (c.delivered c.items).length := by
  have hin := h.inside hL
  have hreceived := received_prefix h.reachable hin
  unfold ForAwaitLoop.Inside at hin
  rw [hleft] at hin
  refine ⟨hin.1.answers, ?_⟩
  by_contra hlonger
  have hall : L.received = c.expected := by
    refine hreceived.eq_of_length_le ?_
    rw [StreamState.length_expected]
    omega
  exact not_goesOn_expected hall hin.2

/-- The worker, the loop thread or the loop go on, the job is done, or the worker waits in vain. -/
theorem Inv.left_cases (h : Inv c s) (hL : s.loops[0]? = some L) (hleft : L.phase = .left) :
    (∃ l, l ≠ .next ∧ (NodeSvn.stream c).Enabled s.stream l) ∨
      (StreamState.Waits s.stream ∧ L.received.length < (c.delivered c.items).length) ∨
      StreamState.Done c s.stream := by
  refine h.flow.enabled.imp_right fun hor => hor.imp_left fun hwaits => ⟨hwaits, ?_⟩
  rw [← (h.took_left hL hleft).1]
  exact h.flow.lt_of_waits hwaits

end ForAwait

/-- **A loop that is left.**  After a `break` the job of the operation can get done exactly if the
loop had received the last item, and then it does; otherwise its worker ends up with an item that
nobody can take. -/
theorem left_law (c : StreamCall α) {ls : List ForAwaitLabel} {s : ForAwait α}
    {L : ForAwaitLoop α} (h : (forAwait c).run (forAwait c).init ls = some s)
    (hL : s.loops[0]? = some L) (hleft : L.phase = .left) :
    ((∃ ms s', (forAwait c).run s ms = some s' ∧ StreamState.Done c s'.stream) ↔
      L.received.length = (c.delivered c.items).length) ∧
    ∀ ms s', (forAwait c).run s ms = some s' →
      s'.loops[0]? = some L ∧
      ((∃ l, l.continues = true ∧ (forAwait c).Enabled s' l) ∨
        (StreamState.Waits s'.stream ∧ L.received.length < (c.delivered c.items).length) ∨
        StreamState.Done c s'.stream) := by
  have hinv : ForAwait.Inv c s := ForAwait.inv_reachable ⟨ls, h⟩
  refine ⟨⟨?_, fun hall => ?_⟩, fun ms s' hms => ?_⟩
  · rintro ⟨ms, s', hms, hdone⟩
    obtain ⟨hinv', hL'⟩ := hinv.stays_left_run hL hleft hms
    obtain ⟨hanswers, hle⟩ := hinv'.took_left hL' hleft
    have hcompleted := hinv'.flow.completed_le
    rw [hinv'.flow.completed_of_finished hdone.1, hanswers] at hcompleted
    omega
  · refine Machine.exists_run (M := forAwait c)
      (I := fun s => ForAwait.Inv c s ∧ s.loops[0]? = some L) (ForAwait.remaining c) ?_ ⟨hinv, hL⟩
    rintro s ⟨hi, hfirst⟩
    rcases hi.left_cases hfirst hleft with ⟨l, hl, hen⟩ | ⟨-, hlt⟩ | hdone
    · obtain ⟨s', hs⟩ := Option.isSome_iff_exists.mp (ForAwait.enabled_thread hl hen)
      obtain ⟨hi', hless⟩ := hi.step (l := .thread l) hs
      exact .inr ⟨.thread l, s', hs, ⟨hi', hi.stays_left hfirst hleft (l := .thread l) hs⟩,
        hless⟩
    · omega
    · exact .inl hdone
  · obtain ⟨hinv', hL'⟩ := hinv.stays_left_run hL hleft hms
    refine ⟨hL', (hinv'.left_cases hL' hleft).imp_left ?_⟩
    rintro ⟨l, hl, hen⟩
    exact ⟨.thread l, rfl, ForAwait.enabled_thread hl hen⟩

/-- `status` with two items. -/
def twoItems : StreamCall Nat := ⟨.status, fun _ => false, [7, 8], .ok ()⟩

/-- A loop that is left with the first one. -/
def leftEarly : List ForAwaitLabel :=
  [.begin_, .thread .start, .loop 0 .ask, .thread .report, .thread .dispatch, .thread .ret,
    .loop 0 .resume, .loop 0 .break_]

theorem left_law_two_items :
    ∃ s, (forAwait twoItems).run (forAwait twoItems).init leftEarly = some s ∧
      ¬ ∃ ms s', (forAwait twoItems).run s ms = some s' ∧ StreamState.Done twoItems s'.stream := by
  have hrun : ((forAwait twoItems).run (forAwait twoItems).init leftEarly).isSome = true := rfl
  refine ⟨_, (Option.some_get hrun).symm, fun hdone => ?_⟩
  have hlen := (left_law twoItems (Option.some_get hrun).symm
    (L := ⟨.left, [StreamCall.itemSettlement 7]⟩) rfl rfl).1.mp hdone
  exact absurd hlen (by decide)

end Laws

end NodeSvn
