import NodeSvn.Lib.Machine
import NodeSvn.Node.Method

/-!
# The lifetime of a client

JS calls methods on the wrapper of a `no::client`, disposes it and drops it; V8 collects
the wrapper; pool threads execute the work that was queued; the loop thread runs the
after-work steps and deletes the works.

The `shared_ptr`s of the client are `weak_data::instance`, until the wrapper is collected,
and the `keep_alive` of each hand-written work, until that is deleted.  A macro-written work
holds none, and `dispose` resets `_client` whatever is in flight.  So the works find their
client alive exactly in the runs whose steps meet `Client.Guarded`
(`always_safe_iff_guarded`).
-/

namespace NodeSvn

inductive JobPhase where
  | queued
  | running
  /-- the closure is done -/
  | finished
  /-- `delete _this` -/
  | deleted
  deriving DecidableEq, Repr

structure Job where
  method : Method
  phase : JobPhase
  deriving DecidableEq, Repr

/-- Between the method's call and the end of the closure. -/
def Job.inFlight (j : Job) : Bool := j.phase = .queued ∨ j.phase = .running

/-- The work holds a `shared_ptr` of the client. -/
def Job.owns (j : Job) : Bool := j.method.keepsAlive ∧ j.phase ≠ .deleted

structure Client where
  /-- JS holds the wrapper -/
  held : Bool
  /-- the wrapper was not collected -/
  wrapped : Bool
  /-- how many `shared_ptr`s there are -/
  refs : Nat
  destroyed : Bool
  /-- `_client` is not null -/
  client : Bool
  jobs : List Job
  deriving DecidableEq, Repr

inductive ClientLabel where
  | call (m : Method)
  | dispose
  /-- JS drops its last reference to the wrapper -/
  | drop
  /-- `weak_callback` -/
  | collect
  | start (i : Nat)
  | finish (i : Nat)
  | afterWork (i : Nat)
  deriving DecidableEq, Repr

namespace Client

/-- After `new Client()`. -/
def create : Client := ⟨true, true, 1, false, true, []⟩

/-- A `shared_ptr` goes away; with the last one the client is destroyed, and `_client`. -/
def release (s : Client) : Client :=
  if s.refs = 1 then { s with refs := 0, destroyed := true, client := false }
  else { s with refs := s.refs - 1 }

def setPhase (s : Client) (i : Nat) (j : Job) (phase : JobPhase) : Client :=
  { s with jobs := s.jobs.set i { j with phase := phase } }

def step (s : Client) : ClientLabel → Option Client
  | .call m =>
    if s.held then
      -- `check_disposed` throws if `_client` is null
      if s.client then
        some { s with
          refs := s.refs + if m.keepsAlive then 1 else 0, jobs := s.jobs ++ [⟨m, .queued⟩] }
      else some s
    else none
  | .dispose => if s.held then some { s with client := false } else none
  | .drop => if s.held then some { s with held := false } else none
  | .collect => if !s.held && s.wrapped then some { s with wrapped := false }.release else none
  | .start i =>
    match s.jobs[i]? with
    | some j => if j.phase = .queued then some (s.setPhase i j .running) else none
    | none => none
  | .finish i =>
    match s.jobs[i]? with
    | some j => if j.phase = .running then some (s.setPhase i j .finished) else none
    | none => none
  | .afterWork i =>
    match s.jobs[i]? with
    | some j =>
      if j.phase = .finished then
        some (if j.method.keepsAlive then (s.setPhase i j .deleted).release
          else s.setPhase i j .deleted)
      else none
    | none => none

end Client

/-- One client in the process. -/
def clientMachine : Machine Client ClientLabel where
  init := .create
  step := Client.step

namespace Client

/-- A work in flight finds its `no::client` and that object's `_client`. -/
def Safe (s : Client) : Prop :=
  ∀ j ∈ s.jobs, j.inFlight = true → s.destroyed = false ∧ s.client = true

def Idle (s : Client) : Prop := ∀ j ∈ s.jobs, j.inFlight = false

/-- `dispose` is called, and the last `shared_ptr` is dropped, only with no work in
flight. -/
def Guarded (s : Client) : ClientLabel → Prop
  | .dispose => s.Idle
  | .collect => s.refs = 1 → s.Idle
  | .afterWork i => s.refs = 1 → (∃ j, s.jobs[i]? = some j ∧ j.method.keepsAlive = true) → s.Idle
  | _ => True

instance (s : Client) : Decidable s.Safe := inferInstanceAs (Decidable (∀ j ∈ s.jobs, _))

instance (s : Client) : Decidable s.Idle := inferInstanceAs (Decidable (∀ j ∈ s.jobs, _))

instance (s : Client) (i : Nat) :
    Decidable (∃ j, s.jobs[i]? = some j ∧ j.method.keepsAlive = true) :=
  match h : s.jobs[i]? with
  | none => isFalse (by simp)
  | some j => decidable_of_iff (j.method.keepsAlive = true) (by simp)

instance (s : Client) : ∀ l, Decidable (s.Guarded l)
  | .call _ => isTrue trivial
  | .dispose => inferInstanceAs (Decidable s.Idle)
  | .drop => isTrue trivial
  | .collect => inferInstanceAs (Decidable (_ → s.Idle))
  | .start _ => isTrue trivial
  | .finish _ => isTrue trivial
  | .afterWork _ => inferInstanceAs (Decidable (_ → _ → s.Idle))

variable {s s' : Client} {l : ClientLabel} {i : Nat} {j : Job}

/-! ## What a step does -/

/-- The steps by what they change. -/
inductive Step (s : Client) : ClientLabel → Client → Prop
  | called (m : Method) (hheld : s.held = true) (hclient : s.client = true) :
      Step s (.call m) { s with
        refs := s.refs + if m.keepsAlive then 1 else 0, jobs := s.jobs ++ [⟨m, .queued⟩] }
  | refused (m : Method) (hclient : s.client = false) : Step s (.call m) s
  | disposed : Step s .dispose { s with client := false }
  | dropped : Step s .drop { s with held := false }
  | collected (hheld : s.held = false) (hwrapped : s.wrapped = true) :
      Step s .collect { s with wrapped := false }.release
  | started (i : Nat) (j : Job) (hj : s.jobs[i]? = some j) (hp : j.phase = .queued) :
      Step s (.start i) (s.setPhase i j .running)
  | finished (i : Nat) (j : Job) (hj : s.jobs[i]? = some j) (hp : j.phase = .running) :
      Step s (.finish i) (s.setPhase i j .finished)
  | released (i : Nat) (j : Job) (hj : s.jobs[i]? = some j) (hp : j.phase = .finished)
      (hk : j.method.keepsAlive = true) : Step s (.afterWork i) (s.setPhase i j .deleted).release
  | deleted (i : Nat) (j : Job) (hj : s.jobs[i]? = some j) (hp : j.phase = .finished)
      (hk : j.method.keepsAlive = false) : Step s (.afterWork i) (s.setPhase i j .deleted)

theorem step_cases (hs : s.step l = some s') : Step s l s' := by
  cases l with
  | call m =>
    simp only [step] at hs
    split at hs
    · rename_i hheld
      split at hs
      · rename_i hclient
        obtain rfl := Option.some.inj hs
        exact .called m hheld hclient
      · rename_i hclient
        obtain rfl := Option.some.inj hs
        exact .refused m (by simpa using hclient)
    · cases hs
  | dispose =>
    simp only [step] at hs
    split at hs
    · obtain rfl := Option.some.inj hs
      exact .disposed
    · cases hs
  | drop =>
    simp only [step] at hs
    split at hs
    · obtain rfl := Option.some.inj hs
      exact .dropped
    · cases hs
  | collect =>
    simp only [step] at hs
    split at hs
    · rename_i hc
      obtain rfl := Option.some.inj hs
      simp only [Bool.and_eq_true, Bool.not_eq_true'] at hc
      exact .collected hc.1 hc.2
    · cases hs
  | start i =>
    simp only [step] at hs
    split at hs
    · rename_i j hj
      split at hs
      · rename_i hp
        obtain rfl := Option.some.inj hs
        exact .started i j hj hp
      · cases hs
    · cases hs
  | finish i =>
    simp only [step] at hs
    split at hs
    · rename_i j hj
      split at hs
      · rename_i hp
        obtain rfl := Option.some.inj hs
        exact .finished i j hj hp
      · cases hs
    · cases hs
  | afterWork i =>
    simp only [step] at hs
    split at hs
    · rename_i j hj
      split at hs
      · rename_i hp
        obtain rfl := Option.some.inj hs
        cases hk : j.method.keepsAlive with
        | true => exact .released i j hj hp hk
        | false => exact .deleted i j hj hp hk
      · cases hs
    · cases hs

/-! ## The count of owners -/

structure Inv (s : Client) : Prop where
  refs : s.refs = (if s.wrapped then 1 else 0) + s.jobs.countP Job.owns
  destroyed : s.destroyed = true ↔ s.refs = 0
  client : s.destroyed = true → s.client = false
  held : s.held = true → s.wrapped = true

theorem inv_create : Inv create := ⟨rfl, by decide, by decide, by decide⟩

@[simp] theorem release_jobs : s.release.jobs = s.jobs := by
  unfold release
  split <;> rfl

@[simp] theorem release_wrapped : s.release.wrapped = s.wrapped := by
  unfold release
  split <;> rfl

@[simp] theorem release_held : s.release.held = s.held := by
  unfold release
  split <;> rfl

theorem release_refs : s.release.refs = s.refs - 1 := by
  unfold release
  split
  · rename_i h
    simp [h]
  · rfl

/-- With one owner less the counts agree again. -/
theorem inv_release (hrefs : s.refs = (if s.wrapped then 1 else 0) + s.jobs.countP Job.owns + 1)
    (hd : s.destroyed = false) (hheld : s.held = true → s.wrapped = true) : Inv s.release := by
  refine ⟨?_, ?_, ?_, by simpa using hheld⟩
  · rw [release_refs, release_jobs, release_wrapped]
    omega
  · unfold release
    split
    · simp
    · simp only [hd]
      constructor
      · simp
      · intro h
        omega
  · unfold release
    split
    · simp
    · simp [hd]

theorem countP_setPhase (hj : s.jobs[i]? = some j) (phase : JobPhase) :
    (s.setPhase i j phase).jobs.countP Job.owns + (if j.owns then 1 else 0) =
      s.jobs.countP Job.owns + if ({ j with phase := phase } : Job).owns then 1 else 0 := by
  obtain ⟨hlt, hget⟩ := List.getElem?_eq_some_iff.mp hj
  have hpos : (if j.owns then 1 else 0) ≤ s.jobs.countP Job.owns := by
    split
    · rename_i ho
      exact List.countP_pos_iff.mpr ⟨j, List.mem_of_getElem? hj, ho⟩
    · exact Nat.zero_le _
  simp only [setPhase, List.countP_set hlt, hget]
  omega

/-- The closure's progress changes no owner. -/
theorem inv_setPhase (hi : Inv s) (hj : s.jobs[i]? = some j) {phase : JobPhase}
    (howns : ({ j with phase := phase } : Job).owns = j.owns) : Inv (s.setPhase i j phase) := by
  have hc := countP_setPhase hj phase
  rw [howns] at hc
  exact ⟨by rw [show (s.setPhase i j phase).refs = s.refs from rfl, hi.refs,
    Nat.add_right_cancel hc]; rfl, hi.destroyed, hi.client, hi.held⟩

theorem Inv.not_destroyed (hi : Inv s) (h : 0 < s.refs) : s.destroyed = false := by
  by_contra hd
  have := hi.destroyed.mp (by simpa using hd)
  omega

theorem inv_step (hi : Inv s) (hs : Step s l s') : Inv s' := by
  cases hs with
  | called m hheld hclient =>
    have hrefs := hi.refs
    rw [hi.held hheld, if_pos rfl] at hrefs
    have hd := hi.not_destroyed (by omega)
    have hnew : (⟨m, .queued⟩ : Job).owns = m.keepsAlive := by simp [Job.owns]
    refine ⟨?_, ?_, hi.client, hi.held⟩
    · simp only [hi.refs, List.countP_append, List.countP_singleton, hnew]
      omega
    · simp only [hd]
      constructor
      · simp
      · intro h
        omega
  | refused => exact hi
  | disposed => exact ⟨hi.refs, hi.destroyed, fun _ => rfl, hi.held⟩
  | dropped => exact ⟨hi.refs, hi.destroyed, hi.client, by simp⟩
  | collected hheld hwrapped =>
    have hrefs := hi.refs
    rw [hwrapped, if_pos rfl] at hrefs
    refine inv_release ?_ (hi.not_destroyed (by omega)) (by simp [hheld])
    simp [hrefs]
    omega
  | started i j hj hp => exact inv_setPhase hi hj (by simp [Job.owns, hp])
  | finished i j hj hp => exact inv_setPhase hi hj (by simp [Job.owns, hp])
  | released i j hj hp hk =>
    have hc := countP_setPhase hj .deleted
    simp only [Job.owns, hk, hp] at hc
    simp at hc
    have hrefs := hi.refs
    refine inv_release ?_ (hi.not_destroyed (by omega)) hi.held
    rw [show (s.setPhase i j .deleted).refs = s.refs from rfl, hrefs]
    rw [show (s.setPhase i j .deleted).wrapped = s.wrapped from rfl]
    omega
  | deleted i j hj hp hk => exact inv_setPhase hi hj (by simp [Job.owns, hk])

/-! ## Works in flight find their client -/

theorem idle_of_dead (h : s.Safe) (hd : s.client = false) : s.Idle := by
  intro j hj
  by_contra hf
  exact absurd ((h j hj (by simpa using hf)).2.symm.trans hd) (by simp)

/-- A client that is destroyed or disposed is fit only for no work. -/
theorem safe_iff_idle (hd : s.client = false) : s.Safe ↔ s.Idle := by
  constructor
  · exact fun h => idle_of_dead h hd
  · exact fun h j hj hf => absurd (hf.symm.trans (h j hj)) (by simp)

theorem safe_release_iff (h : s.Safe) : s.release.Safe ↔ (s.refs = 1 → s.Idle) := by
  by_cases hr : s.refs = 1
  · have hrel : s.release = { s with refs := 0, destroyed := true, client := false } := by
      rw [release, if_pos hr]
    rw [hrel, safe_iff_idle rfl]
    exact ⟨fun hi _ => hi, fun hi => hi hr⟩
  · have hrel : s.release = { s with refs := s.refs - 1 } := by rw [release, if_neg hr]
    rw [hrel]
    exact ⟨fun _ hr' => absurd hr' hr, fun _ => h⟩

theorem mem_setPhase {phase : JobPhase} {k : Job} (hk : k ∈ (s.setPhase i j phase).jobs) :
    k ∈ s.jobs ∨ k = { j with phase := phase } :=
  List.mem_or_eq_of_mem_set hk

theorem safe_setPhase (h : s.Safe) (hj : s.jobs[i]? = some j) {phase : JobPhase}
    (hf : ({ j with phase := phase } : Job).inFlight = true → j.inFlight = true) :
    (s.setPhase i j phase).Safe := by
  intro k hk hflight
  rcases mem_setPhase hk with hk | rfl
  · exact h k hk hflight
  · exact h j (List.mem_of_getElem? hj) (hf hflight)

theorem idle_setPhase_iff (hj : s.jobs[i]? = some j) {phase : JobPhase}
    (hf : ({ j with phase := phase } : Job).inFlight = j.inFlight) :
    (s.setPhase i j phase).Idle ↔ s.Idle := by
  have hlt := (List.getElem?_eq_some_iff.mp hj).1
  constructor
  · intro h k hk
    obtain ⟨n, hn, rfl⟩ := List.mem_iff_getElem.mp hk
    by_cases hni : i = n
    · subst hni
      have := h _ (List.mem_set hlt { j with phase := phase })
      rw [hf] at this
      rwa [(List.getElem?_eq_some_iff.mp hj).2]
    · refine h _ (List.mem_iff_getElem.mpr ⟨n, by simpa [setPhase] using hn, ?_⟩)
      simp [setPhase, hni]
  · intro h k hk
    rcases mem_setPhase hk with hk | rfl
    · exact h k hk
    · exact hf.trans (h j (List.mem_of_getElem? hj))

/-- **A step keeps the works safe exactly if it is guarded.** -/
theorem safe_step_iff (hi : Inv s) (h : s.Safe) (hs : Step s l s') : s'.Safe ↔ s.Guarded l := by
  cases hs with
  | called m hheld hclient =>
    have hrefs := hi.refs
    rw [hi.held hheld, if_pos rfl] at hrefs
    have hd := hi.not_destroyed (by omega)
    exact iff_of_true (fun _ _ _ => ⟨hd, hclient⟩) trivial
  | refused => exact iff_of_true h trivial
  | disposed => exact safe_iff_idle rfl
  | dropped => exact iff_of_true h trivial
  | collected => exact safe_release_iff (s := { s with wrapped := false }) h
  | started i j hj hp =>
    exact iff_of_true (safe_setPhase h hj fun _ => by simp [Job.inFlight, hp]) trivial
  | finished i j hj hp =>
    exact iff_of_true (safe_setPhase h hj fun hf => by simp [Job.inFlight] at hf) trivial
  | released i j hj hp hk =>
    have hflight : ({ j with phase := .deleted } : Job).inFlight = j.inFlight := by
      simp [Job.inFlight, hp]
    rw [safe_release_iff (safe_setPhase h hj (hflight ▸ id)), idle_setPhase_iff hj hflight]
    simp [Guarded, hj, hk, setPhase]
  | deleted i j hj hp hk =>
    have hflight : ({ j with phase := .deleted } : Job).inFlight = j.inFlight := by
      simp [Job.inFlight, hp]
    refine iff_of_true (safe_setPhase h hj (hflight ▸ id)) ?_
    rintro - ⟨j', hj', hk'⟩
    obtain rfl : j = j' := Option.some.inj (hj.symm.trans hj')
    exact absurd (hk.symm.trans hk') (by simp)

theorem inv_reachable (h : clientMachine.Reachable s) : Inv s :=
  h.invariant inv_create fun _ _ _ hi hs => inv_step hi (step_cases hs)

theorem safe_create : create.Safe := by decide

/-- **In a run all works in flight find their client exactly if `dispose` and the drop of
the last `shared_ptr` wait for them.** -/
theorem always_safe_iff_guarded {ls : List ClientLabel} (h : clientMachine.run create ls = some s) :
    clientMachine.Always Safe create ls ↔ clientMachine.Meets Guarded create ls := by
  refine (Machine.run_induction (M := clientMachine) (s := create)
    (P := fun ls t => (clientMachine.Always Safe create ls ↔
      clientMachine.Meets Guarded create ls) ∧ (clientMachine.Always Safe create ls → t.Safe))
    ⟨iff_of_true safe_create trivial, fun _ => safe_create⟩ ?_ ls s h).1
  intro ls t l u hr ih hu
  rw [Machine.always_snoc hr hu, Machine.meets_snoc hr]
  refine ⟨?_, And.right⟩
  rw [ih.1]
  refine and_congr_right fun hm => ?_
  exact safe_step_iff (inv_reachable ⟨ls, hr⟩) (ih.2 (ih.1.mpr hm)) (step_cases hu)

/-- A macro-written work and a hand-written one: the wrapper is collected once the first is
done, and the client destroyed with the second work. -/
theorem always_safe_iff_guarded_collect :
    clientMachine.Always Safe create
      [.call .cat, .call .status, .start 0, .finish 0, .start 1, .drop, .collect, .finish 1,
        .afterWork 0, .afterWork 1] :=
  (always_safe_iff_guarded (Option.some_get rfl).symm).mpr (by decide)

/-- `cat` is queued, the wrapper is dropped and collected, and then a thread takes the
work. -/
theorem not_safe_collect :
    ¬ ∀ (ls : List ClientLabel) (s : Client), clientMachine.run create ls = some s →
      clientMachine.Always Safe create ls := by
  intro h
  have hs := h [.call .cat, .drop, .collect, .start 0] _ (Option.some_get rfl).symm
  obtain ⟨-, hs⟩ := hs
  obtain ⟨-, hs⟩ := hs _ rfl
  obtain ⟨-, hs⟩ := hs _ rfl
  obtain ⟨hs, -⟩ := hs _ rfl
  revert hs
  decide

/-- `dispose` while `status` runs. -/
theorem not_safe_dispose :
    ¬ ∀ (ls : List ClientLabel) (s : Client), clientMachine.run create ls = some s → s.Safe := by
  intro h
  have hs := h [.call .status, .start 0, .dispose] _ (Option.some_get rfl).symm
  revert hs
  decide

end Client

end NodeSvn
