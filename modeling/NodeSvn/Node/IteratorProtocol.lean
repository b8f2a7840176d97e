import NodeSvn.Node.Iterator

/-!
# The async-iterator protocol

What a consumer of an async iterator relies on, against the runs of `iterator`:

    PairedInOrder t    the k-th promise of `next` holds the k-th item
    BecomesSettled t   no promise of `next` stays pending forever

The iterable has one slot, and `next` writes a new resolver over a request that is
still waiting there.  So the first holds while JS asks in turn, and only then
(`paired_iff_asks_in_turn`); the second holds after the end exactly if JS never asks
more than once beyond the items (`settled_iff_asks_within_items`).
-/

namespace NodeSvn

namespace Trace

variable {V : Type} {t t' : Trace V} {e : Event V} {ls : List (Event V)}

def PairedInOrder (t : Trace V) : Prop :=
  ∀ (k : Nat) (h : Handle) (v : V), t.returned[k]? = some h → t.yielded[k]? = some v →
    t.it.stateOf h = some (.fulfilled (some v) false)

/-- Each promise of `next` is settled in some continuation of the run. -/
def BecomesSettled (t : Trace V) : Prop :=
  ∀ h ∈ t.returned, ∃ ls t', (iterator V).run t ls = some t' ∧ (t'.it.stateOf h).isSome = true

/-- `next` is called at most once more than items were yielded so far. -/
def AsksWithinItems (t : Trace V) (e : Event V) : Prop :=
  e = .next → t.returned.length ≤ t.yielded.length

/-! ## Answers come in order while JS asks in turn -/

theorem expected_of_yielded {k : Nat} {v : V} (h : t.yielded[k]? = some v) :
    t.expected[k]? = some (.fulfilled (some v) false) := by
  unfold expected
  rw [List.getElem?_append_left]
  · rw [List.getElem?_map, h]
    rfl
  · rw [List.length_map]
    exact (List.getElem?_eq_some_iff.mp h).1

theorem getElem?_of_map_eq {l : List Handle} {es : List (Settlement V)} {k : Nat} {h : Handle}
    (heq : l.map t.it.stateOf = es.map some) (hk : l[k]? = some h) :
    t.it.stateOf h = es[k]? := by
  have hget : (l.map t.it.stateOf)[k]? = some (t.it.stateOf h) := by
    rw [List.getElem?_map, hk]
    rfl
  rw [heq, List.getElem?_map] at hget
  cases hes : es[k]? with
  | none => simp [hes] at hget
  | some x =>
    rw [hes] at hget
    exact (Option.some.inj hget).symm

/-- The k-th promise holds the k-th settlement, and is pending if there is none. -/
theorem Linked.stateOf_returned {k : Nat} {h : Handle} (hi : Inv t) (hl : Linked t)
    (hk : t.returned[k]? = some h) : t.it.stateOf h = t.expected[k]? := by
  cases hl with
  | empty hf hr heq => exact getElem?_of_map_eq heq hk
  | waiting r hs hf hr hret heq =>
    have hlen : hs.length = t.expected.length := by simpa using congrArg List.length heq
    rw [hret] at hk
    rcases Nat.lt_or_ge k hs.length with hlt | hge
    · rw [List.getElem?_append_left hlt] at hk
      exact getElem?_of_map_eq heq hk
    · rw [List.getElem?_append_right hge, List.getElem?_singleton] at hk
      split at hk
      · obtain rfl := Option.some.inj hk
        rw [List.getElem?_eq_none (by omega)]
        exact hi.wf.waiting hf r hr
      · cases hk
  | stored r x es hf hr hx hexp heq =>
    have hlt : k < es.length := by
      have hlen : t.returned.length = es.length := by simpa using congrArg List.length heq
      have := (List.getElem?_eq_some_iff.mp hk).1
      omega
    rw [hexp, List.getElem?_append_left hlt]
    exact getElem?_of_map_eq heq hk

theorem Linked.paired (hi : Inv t) (hl : Linked t) : PairedInOrder t := by
  intro k h v hk hv
  rw [hl.stateOf_returned hi hk, expected_of_yielded hv]

/-! ## A request written over is lost -/

/-- A promise of `next` that is pending and no longer in the slot. -/
structure Dropped (t : Trace V) (r : Nat) : Prop where
  mem : some r ∈ t.returned
  pending : t.it.promiseAt r = none
  slot : t.it.resolver ≠ some r

theorem returned_prefix (h : Step t e t') : ∃ hs, t'.returned = t.returned ++ hs := by
  cases h with
  | ask => exact ⟨_, rfl⟩
  | take => exact ⟨_, rfl⟩
  | refuse => exact ⟨[], by simp⟩
  | store e => exact ⟨[], by simp [log_returned]⟩
  | hand e => exact ⟨[], by simp [log_returned]⟩
  | ret => exact ⟨[], by simp⟩

theorem getElem?_returned {k : Nat} {h : Handle} (hs : Step t e t')
    (hk : t.returned[k]? = some h) : t'.returned[k]? = some h := by
  obtain ⟨hs, heq⟩ := returned_prefix hs
  rw [heq, List.getElem?_append_left (List.getElem?_eq_some_iff.mp hk).1]
  exact hk

theorem Dropped.step {r : Nat} (hi : Inv t) (hd : Dropped t r) (h : Step t e t') :
    Dropped t' r := by
  have hlt : r < t.it.promises.length := by
    obtain ⟨r', hr', hlt⟩ := hi.known _ hd.mem
    exact Option.some.inj hr' ▸ hlt
  have hmem : some r ∈ t'.returned := by
    obtain ⟨hs, heq⟩ := returned_prefix h
    rw [heq]
    exact List.mem_append_left _ hd.mem
  refine ⟨hmem, ?_, ?_⟩
  · cases h with
    | ask => exact (Iterable.promiseAt_afterAsk _).trans hd.pending
    | take => exact hd.pending
    | refuse => exact hd.pending
    | store e x => exact (Iterable.promiseAt_afterStore_ne (Nat.ne_of_lt hlt) x).trans hd.pending
    | hand e x r' hf hr =>
      have hne : r' ≠ r := fun he => hd.slot (he ▸ hr)
      exact (Iterable.promiseAt_afterHand_ne hne x).trans hd.pending
    | ret => exact hd.pending
  · cases h with
    | ask => exact fun he => absurd (Option.some.inj he) (by omega)
    | take => simp [Iterable.afterTake]
    | refuse => exact hd.slot
    | store e x => exact fun he => absurd (Option.some.inj he) (by omega)
    | hand e x r' hf hr => simp [Iterable.afterHand]
    | ret => exact hd.slot

theorem Dropped.run {r : Nat} (hi : Inv t) (hd : Dropped t r)
    (h : (iterator V).run t ls = some t') : Dropped t' r :=
  (Machine.run_invariant (I := fun t => Inv t ∧ Dropped t r) ⟨hi, hd⟩
    (fun _ _ _ hi hs =>
      have hstep := step_cases hi.1.toReady hs
      ⟨inv_step hi.1 hstep, hi.2.step hi.1 hstep⟩) h).2

/-- After a `next`, every promise that was pending before is dropped. -/
theorem dropped_of_next {r : Nat} (hi : Inv t) (hmem : some r ∈ t.returned)
    (hp : t.it.promiseAt r = none) (h : Step t .next t') : Dropped t' r := by
  obtain ⟨r', hr', hlt⟩ := hi.known _ hmem
  obtain rfl := Option.some.inj hr'
  cases h with
  | ask => exact ⟨List.mem_append_left _ hmem, (Iterable.promiseAt_afterAsk _).trans hp,
      fun he => absurd (Option.some.inj he) (by omega)⟩
  | take => exact ⟨List.mem_append_left _ hmem, hp, by simp [Iterable.afterTake]⟩
  | refuse e _ _ he => cases he
  | store e x _ _ _ _ he => cases he
  | hand e x r _ _ _ _ he => cases he

/-- A promise that is settled stays as it is. -/
theorem stateOf_step {h : Handle} {x : Settlement V} (hi : Inv t) (hmem : h ∈ t.returned)
    (hx : t.it.stateOf h = some x) (hs : Step t e t') : t'.it.stateOf h = some x := by
  have hk := hi.known h hmem
  cases hs with
  | ask => exact (Iterable.stateOf_afterAsk h).trans hx
  | take => exact hx
  | refuse => exact hx
  | store e y => exact (Iterable.stateOf_afterStore hk y).trans hx
  | hand e y r hf hr =>
    refine (Iterable.stateOf_afterHand_ne hk ?_ y).trans hx
    rintro rfl
    rw [Iterable.stateOf_some, hi.wf.waiting hf r hr] at hx
    cases hx
  | ret => exact hx

theorem settledCount_mono (hi : Inv t) (h : Step t e t') : t.settledCount ≤ t'.settledCount := by
  obtain ⟨hs, heq⟩ := returned_prefix h
  unfold settledCount
  rw [heq, List.countP_append]
  refine Nat.le_trans (List.countP_mono_left ?_) (Nat.le_add_right _ _)
  intro a ha hsome
  obtain ⟨x, hx⟩ := Option.isSome_iff_exists.mp hsome
  rw [stateOf_step hi ha hx h]
  rfl

/-! ## Requests and items pair up exactly while JS asks in turn -/

/-- A dropped promise at a place that an item has reached or reaches next. -/
def Overtaken (t : Trace V) : Prop :=
  ∃ k r, t.returned[k]? = some (some r) ∧ Dropped t r ∧ k ≤ t.settledCount

theorem Overtaken.step (hi : Inv t) (ho : Overtaken t) (h : Step t e t') : Overtaken t' := by
  obtain ⟨k, r, hk, hd, hle⟩ := ho
  exact ⟨k, r, getElem?_returned h hk, hd.step hi h, Nat.le_trans hle (settledCount_mono hi h)⟩

theorem overtaken_of_next (hi : Inv t) (hn : ¬ t.InTurn) (h : Step t .next t') :
    Overtaken t' := by
  obtain ⟨k, a, hk, ha, hle⟩ := exists_first_fail hn
  have hmem := List.mem_of_getElem? hk
  obtain ⟨r, rfl, -⟩ := hi.known a hmem
  have hp : t.it.promiseAt r = none := by simpa using ha
  exact ⟨k, r, getElem?_returned h hk, dropped_of_next hi hmem hp h,
    Nat.le_trans hle (settledCount_mono hi h)⟩

theorem inTurn_or_overtaken (h : (iterator V).run init ls = some t) :
    (iterator V).Meets AsksInTurn init ls ∨ Overtaken t := by
  refine Machine.run_induction (M := iterator V)
    (P := fun ls t => (iterator V).Meets AsksInTurn init ls ∨ Overtaken t)
    (.inl trivial) ?_ ls t h
  intro ls t e t' hr ih hs
  have hi := inv_reachable ⟨ls, hr⟩
  have hstep := step_cases hi.toReady hs
  rcases ih with hm | ho
  · by_cases hc : t.AsksInTurn e
    · exact .inl ((Machine.meets_snoc hr).mpr ⟨hm, hc⟩)
    · unfold AsksInTurn at hc
      obtain ⟨rfl, hn⟩ := Classical.not_imp.mp hc
      exact .inr (overtaken_of_next hi hn hstep)
  · exact .inr (ho.step hi hstep)

/-- After one more call of `yield`, an overtaken request has missed its item. -/
theorem not_paired_of_overtaken {v : V} (hi : Inv t) (ho : Overtaken t)
    (h : t.step (.yield v) = some t') : ¬ PairedInOrder t' := by
  have hstep := step_cases hi.toReady h
  obtain ⟨k, r, hk, hd, hle⟩ := ho
  have hlt : k < t'.yielded.length := by
    have hc := hi.count
    cases hstep with
    | refuse _ hf =>
      -- an item is stored, so one more was yielded than settled promises were returned
      have hn : t.finished = none := by
        by_contra hne
        simp [step, Option.isSome_iff_ne_none.mpr hne] at h
      simp [hf, expected, hn] at hc
      omega
    | store _ x hf _ _ hn =>
      simp [hf, expected, hn] at hc
      simp [log]
      omega
    | hand _ x r hf _ _ hn =>
      simp [hf, expected, hn] at hc
      simp [log]
      omega
  intro hp
  have := hp k (some r) _ (getElem?_returned hstep hk) (List.getElem?_eq_getElem hlt)
  rw [Iterable.stateOf_some, (hd.step hi hstep).pending] at this
  cases this

/-- **Requests are paired with items first-in first-out if JS asks in turn**, and one
call of `yield` after a run in which it did not breaks the pairing. -/
theorem paired_iff_asks_in_turn (h : (iterator V).run init ls = some t) :
    ((iterator V).Meets AsksInTurn init ls → PairedInOrder t) ∧
      ∀ v t', t.step (.yield v) = some t' → PairedInOrder t' →
        (iterator V).Meets AsksInTurn init ls := by
  refine ⟨fun hm => ?_, fun v t' hs hp => ?_⟩
  · obtain ⟨hi, hl⟩ := linked_of_meets h hm
    exact hl.paired hi
  · rcases inTurn_or_overtaken h with hm | ho
    · exact hm
    · exact absurd hp (not_paired_of_overtaken (inv_reachable ⟨ls, h⟩) ho hs)

instance : Decidable (InTurn t) := inferInstanceAs (Decidable (∀ h ∈ t.returned, _ = true))

instance [DecidableEq V] : Decidable (AsksInTurn t e) :=
  inferInstanceAs (Decidable (e = .next → t.InTurn))

theorem paired_iff_asks_in_turn_two_items :
    ∃ t, (iterator Nat).run init [.next, .yield 5, .next, .ret, .yield 7] = some t ∧
      PairedInOrder t := by
  obtain ⟨t, ht⟩ := Option.isSome_iff_exists.mp
    (show ((iterator Nat).run init [.next, .yield 5, .next, .ret, .yield 7]).isSome = true from rfl)
  exact ⟨t, ht, (paired_iff_asks_in_turn ht).1 (by decide)⟩

/-- Two calls of `next` and one item: the first promise is lost. -/
theorem not_paired_with_backlog :
    ¬ ∀ (ls : List (Event Nat)) (t : Trace Nat), (iterator Nat).run init ls = some t →
      PairedInOrder t := by
  intro h
  have hp := h [.next, .next, .yield 7] _ (Option.some_get rfl).symm 0 (some 0) 7 rfl rfl
  exact absurd hp (by decide)

/-! ## After the end -/

/-- Once the producer has finished, a pending promise stays pending. -/
theorem pending_run {h : Handle} (hi : Inv t) (hf : t.finished.isSome = true)
    (hmem : h ∈ t.returned) (hp : t.it.stateOf h = none)
    (hr : (iterator V).run t ls = some t') : t'.it.stateOf h = none := by
  refine (Machine.run_invariant (M := iterator V) (I := fun t => Inv t ∧
    t.finished.isSome = true ∧ h ∈ t.returned ∧ t.it.stateOf h = none)
    ⟨hi, hf, hmem, hp⟩ ?_ hr).2.2.2
  rintro t e t' ⟨hi, hf, hmem, hp⟩ hs
  have hstep := step_cases hi.toReady hs
  refine ⟨inv_step hi hstep, ?_⟩
  cases hstep with
  | ask => exact ⟨hf, List.mem_append_left _ hmem,
      (Iterable.stateOf_afterAsk h).trans hp⟩
  | take => exact ⟨hf, List.mem_append_left _ hmem, hp⟩
  | refuse => exact ⟨hf, hmem, hp⟩
  | store _ _ _ _ _ hn => simp [hn] at hf
  | hand _ _ _ _ _ _ hn => simp [hn] at hf
  | ret => exact ⟨hf, hmem, hp⟩

/-- A promise of `next` is lost, or more were asked for than there will be answers. -/
def Lost (t : Trace V) : Prop :=
  (∃ r, Dropped t r) ∨ t.finished.isSome = true ∧ t.expected.length < t.returned.length

theorem Lost.step (hi : Inv t) (hl : Lost t) (h : Step t e t') : Lost t' := by
  rcases hl with ⟨r, hd⟩ | ⟨hf, hlt⟩
  · exact .inl ⟨r, hd.step hi h⟩
  · right
    cases h with
    | ask => exact ⟨hf, Nat.lt_of_lt_of_le hlt (by simp)⟩
    | take => exact ⟨hf, Nat.lt_of_lt_of_le hlt (by simp)⟩
    | refuse => exact ⟨hf, hlt⟩
    | store _ _ _ _ _ hn => simp [hn] at hf
    | hand _ _ _ _ _ _ hn => simp [hn] at hf
    | ret => exact ⟨hf, hlt⟩

theorem expected_length (t : Trace V) :
    t.expected.length = t.yielded.length + if t.finished.isSome then 1 else 0 := by
  unfold expected
  cases t.finished <;> simp

theorem lost_of_next (hi : Inv t) (hlt : t.yielded.length < t.returned.length)
    (h : Step t .next t') : Lost t' := by
  by_cases hin : t.InTurn
  · -- all promises are settled, so the last answer is the end marker
    right
    have hall : t.settledCount = t.returned.length := List.countP_eq_length.mpr hin
    have hc := hi.count
    have hlen := expected_length t
    have hf : t.finished.isSome = true := by
      by_contra hn
      simp only [hn, if_false] at hlen
      omega
    have hexp : t'.expected = t.expected ∧ t'.finished = t.finished ∧
        t'.returned.length = t.returned.length + 1 := by
      cases h with
      | ask => exact ⟨rfl, rfl, by simp⟩
      | take => exact ⟨rfl, rfl, by simp⟩
      | refuse _ _ _ he => cases he
      | store _ _ _ _ _ _ he => cases he
      | hand _ _ _ _ _ _ _ he => cases he
    rw [hf, if_pos rfl] at hlen
    rw [hexp.1, hexp.2.1, hexp.2.2]
    exact ⟨hf, by omega⟩
  · obtain ⟨k, a, hk, ha, -⟩ := exists_first_fail hin
    have hmem := List.mem_of_getElem? hk
    obtain ⟨r, rfl, -⟩ := hi.known a hmem
    exact .inl ⟨r, dropped_of_next hi hmem (by simpa using ha) h⟩

theorem within_or_lost (h : (iterator V).run init ls = some t) :
    (iterator V).Meets AsksWithinItems init ls ∨ Lost t := by
  refine Machine.run_induction (M := iterator V)
    (P := fun ls t => (iterator V).Meets AsksWithinItems init ls ∨ Lost t)
    (.inl trivial) ?_ ls t h
  intro ls t e t' hr ih hs
  have hi := inv_reachable ⟨ls, hr⟩
  have hstep := step_cases hi.toReady hs
  rcases ih with hm | hl
  · by_cases hc : t.AsksWithinItems e
    · exact .inl ((Machine.meets_snoc hr).mpr ⟨hm, hc⟩)
    · unfold AsksWithinItems at hc
      obtain ⟨rfl, hn⟩ := Classical.not_imp.mp hc
      exact .inr (lost_of_next hi (Nat.not_le.mp hn) hstep)
  · exact .inr (hl.step hi hstep)

theorem not_becomesSettled_of_lost (hi : Inv t) (hf : t.finished.isSome = true) (hl : Lost t) :
    ¬ BecomesSettled t := by
  intro hb
  rcases hl with ⟨r, hd⟩ | ⟨-, hlt⟩
  · obtain ⟨ls, t', hr, hs⟩ := hb _ hd.mem
    rw [pending_run hi hf hd.mem hd.pending hr] at hs
    cases hs
  · have hin : ¬ t.InTurn := by
      intro hin
      have hall : t.settledCount = t.returned.length := List.countP_eq_length.mpr hin
      have hc := hi.count
      omega
    obtain ⟨k, a, hk, ha, -⟩ := exists_first_fail hin
    have hmem := List.mem_of_getElem? hk
    obtain ⟨ls, t', hr, hs⟩ := hb _ hmem
    rw [pending_run hi hf hmem (by simpa using ha) hr] at hs
    cases hs

theorem Linked.inTurn (hi : Inv t) (hl : Linked t) (hle : t.returned.length ≤ t.expected.length) :
    t.InTurn := by
  intro h hmem
  obtain ⟨k, hlt, hk⟩ := List.mem_iff_getElem.mp hmem
  have hst := hl.stateOf_returned hi (List.getElem?_eq_some_iff.mpr ⟨hlt, hk⟩)
  rw [hst, List.getElem?_eq_getElem (by omega)]
  rfl

theorem linked_of_within (h : (iterator V).run init ls = some t)
    (hc : (iterator V).Meets AsksWithinItems init ls) :
    Inv t ∧ Linked t ∧ t.returned.length ≤ t.yielded.length + 1 := by
  refine hc.invariant (I := fun t => Inv t ∧ Linked t ∧ t.returned.length ≤ t.yielded.length + 1)
    ⟨inv_init, linked_init, by simp [init]⟩ ?_ h
  rintro t e t' ⟨hi, hl, hle⟩ he hs
  have hstep := step_cases hi.toReady hs
  have hturn : t.AsksInTurn e := by
    intro hn
    refine hl.inTurn hi (Nat.le_trans (he hn) ?_)
    rw [expected_length]
    omega
  refine ⟨inv_step hi hstep, linked_step hi hl hturn hstep, ?_⟩
  cases hstep with
  | ask => simpa using he rfl
  | take => simpa using he rfl
  | refuse => exact hle
  | store e x =>
    simp only [log_returned]
    cases e <;> simp [log] <;> omega
  | hand e x =>
    simp only [log_returned]
    cases e <;> simp [log] <;> omega
  | ret => exact hle

/-- The marker is that of `end` or of `reject`. -/
theorem finished_cases {x : Settlement V} (h : (iterator V).Reachable t)
    (hf : t.finished = some x) : x = .fulfilled none true ∨ ∃ v, x = .rejected (some v) := by
  refine h.strongInvariant (I := fun t => ∀ x, t.finished = some x →
    x = .fulfilled none true ∨ ∃ v, x = .rejected (some v)) (by simp [iterator, init]) ?_ x hf
  intro t e t' hr ih hs x hx
  cases step_cases (inv_reachable hr).toReady hs with
  | ask => exact ih x hx
  | take => exact ih x hx
  | refuse => exact ih x hx
  | store e y =>
    cases e with
    | end_ => exact .inl (Option.some.inj hx).symm
    | reject v => exact .inr ⟨v, (Option.some.inj hx).symm⟩
    | _ => exact ih x hx
  | hand e y =>
    cases e with
    | end_ => exact .inl (Option.some.inj hx).symm
    | reject v => exact .inr ⟨v, (Option.some.inj hx).symm⟩
    | _ => exact ih x hx
  | ret => exact ih x hx

/-- **After `end` or `reject` no promise of `next` stays pending exactly if JS asked at
most once beyond the items**; then the k-th promise holds the k-th item and the one
beyond the items holds `{done: true}` or the rejection. -/
theorem settled_iff_asks_within_items {x : Settlement V}
    (h : (iterator V).run init ls = some t) (hf : t.finished = some x) :
    (BecomesSettled t ↔ (iterator V).Meets AsksWithinItems init ls) ∧
      ((iterator V).Meets AsksWithinItems init ls →
        (∀ (k : Nat) (h : Handle), t.returned[k]? = some h → ∃ s, t.it.stateOf h = some s ∧
          (t.yielded.map (fun v => Settlement.fulfilled (some v) false) ++ [x])[k]? = some s) ∧
        (x = .fulfilled none true ∨ ∃ v, x = .rejected (some v))) := by
  have hexp : t.yielded.map (fun v => Settlement.fulfilled (some v) false) ++ [x] = t.expected := by
    simp [expected, hf]
  have hsome : t.finished.isSome = true := by rw [hf]; rfl
  have hlinked : (iterator V).Meets AsksWithinItems init ls → Inv t ∧ Linked t ∧ t.InTurn := by
    intro hm
    obtain ⟨hi, hl, hle⟩ := linked_of_within h hm
    exact ⟨hi, hl, hl.inTurn hi (by rw [expected_length, hsome]; exact hle)⟩
  refine ⟨⟨fun hb => ?_, fun hm => ?_⟩, fun hm => ?_⟩
  · rcases within_or_lost h with hm | hl
    · exact hm
    · exact absurd hb (not_becomesSettled_of_lost (inv_reachable ⟨ls, h⟩) hsome hl)
  · obtain ⟨-, -, hin⟩ := hlinked hm
    exact fun a ha => ⟨[], t, rfl, hin a ha⟩
  · obtain ⟨hi, hl, hin⟩ := hlinked hm
    refine ⟨fun k a hk => ?_, finished_cases ⟨ls, h⟩ hf⟩
    obtain ⟨s, hs⟩ := Option.isSome_iff_exists.mp (hin a (List.mem_of_getElem? hk))
    exact ⟨s, hs, by rw [hexp, ← hl.stateOf_returned hi hk, hs]⟩

instance [DecidableEq V] : Decidable (AsksWithinItems t e) :=
  inferInstanceAs (Decidable (e = .next → _ ≤ _))

theorem settled_iff_asks_within_items_one_item :
    ∃ t, (iterator Nat).run init [.next, .yield 5, .ret, .end_, .ret, .next] = some t ∧
      BecomesSettled t := by
  obtain ⟨t, ht⟩ := Option.isSome_iff_exists.mp
    (show ((iterator Nat).run init [.next, .yield 5, .ret, .end_, .ret, .next]).isSome = true
      from rfl)
  have hf : t.finished = some (.fulfilled none true) := by
    have : t = ((iterator Nat).run init [.next, .yield 5, .ret, .end_, .ret, .next]).get rfl := by
      simp [ht]
    rw [this]
    rfl
  exact ⟨t, ht, (settled_iff_asks_within_items ht hf).1.mpr (by decide)⟩

/-- The second `next` after the end stays pending. -/
theorem not_settled_after_end :
    ¬ ∀ (ls : List (Event Nat)) (t : Trace Nat), (iterator Nat).run init ls = some t →
      t.finished.isSome = true → BecomesSettled t := by
  intro h
  have hr : (iterator Nat).run init [.end_, .ret, .next, .next] =
      some (((iterator Nat).run init [.end_, .ret, .next, .next]).get rfl) :=
    (Option.some_get rfl).symm
  obtain ⟨ls, t', hr', hs⟩ := h _ _ hr rfl (some 1) (by decide)
  rw [pending_run (inv_reachable ⟨_, hr⟩) rfl (by decide) rfl hr'] at hs
  cases hs

end Trace

end NodeSvn
