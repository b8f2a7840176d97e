import NodeSvn.Node.PromiseCall
import NodeSvn.Node.Reported

/-!
# A call that returns an iterator

    JS          reads the arguments, queues the job              `decodeArguments`
    worker      converts what was captured, calls libsvn         `marshal`
                which reports records                            `reporting`
    JS          calls `next`

For each of these methods (`commit` has two callbacks, and is in `CommitStream`) and every value
of its arguments: the call throws or gives a rejected promise; or the first `next` is rejected
with what libsvn cannot take, or because another operation has the `notify_scope`; or the promises
of `next` receive what libsvn reports for these arguments, if it may read them.  The threads have
no part in what JS sees (`iterator_law`).
-/

namespace NodeSvn

/-- What these methods use of libsvn: the records that it reports, and how it ends. -/
structure IteratorSvn where
  paths : SvnPathFunctions
  call : Operation → List RawArgument → List Reported × Except SvnError Unit

def Operation.method : Operation → Method
  | .status => .status
  | .info => .info
  | .log => .log
  | .blame => .blame
  | .getChangelists => .getChangelists
  | .remove => .remove
  | .update => .update

/-- `changelist == nullptr` in `invoke_get_changelists`. -/
def Reported.nullChangelist : Reported → Bool
  | .changelist _ none => true
  | _ => false

/-- The exception of the conversions, as `catch (const svn::svn_error&)` binds it. -/
def unmarshalled (e : Exn) : Except SvnError Unit :=
  match e.asSvnError with
  | some raw => .error raw
  -- never: see `asSvnError_of_marshal`
  | none => .ok ()

/-- The job. -/
def Operation.streamCall (op : Operation) (svn : IteratorSvn) (notifyFunc2 : Pointer)
    (captured : List Decoded) : StreamCall Reported :=
  match marshal svn.paths notifyFunc2 op.method captured with
  | .ok raws => ⟨op, Reported.nullChangelist, (svn.call op raws).1, (svn.call op raws).2⟩
  | .error e => ⟨op, Reported.nullChangelist, [], unmarshalled e⟩

section Calls

variable {newFromUtf8 : NewFromUtf8} {maxLength : Nat}
  {svn : IteratorSvn} {op : Operation} {notifyFunc2 : Pointer} {args : Nat → Js}
  {before : UnionMemory} {captured : List Decoded} {raws : List RawArgument}

theorem method_iterates (op : Operation) : op.method.iterates = true := by
  cases op <;> rfl

/-- However the threads run, the promises of `next` receive `xs`, in this order; a run, which is
finite, stops only when all of it was received. -/
def Receives (newFromUtf8 : NewFromUtf8)
    (c : StreamCall Reported) (xs : List (Settlement (StreamValue Reported))) : Prop :=
  ∀ ls s, (reporting (reportedCall newFromUtf8 c)).run c.init ls = some s →
    s.tr.answers <+: xs ∧
    (s.tr.answers ≠ xs → ∃ l, (reporting (reportedCall newFromUtf8 c)).Enabled s l) ∧
    ls.length ≤ 7 * c.items.length + 14

theorem receives_shown (newFromUtf8 : NewFromUtf8)
    (c : StreamCall Reported) : Receives newFromUtf8 c (reportedCall newFromUtf8 c).shown := by
  intro ls s h
  obtain ⟨hcourse, hlength⟩ := ReportingCall.course_run (c := reportedCall newFromUtf8 c) h
  exact ⟨hcourse.answers, hcourse.progress, hlength⟩

theorem streamCall_given (h : marshal svn.paths notifyFunc2 op.method captured = .ok raws) :
    op.streamCall svn notifyFunc2 captured =
      ⟨op, Reported.nullChangelist, (svn.call op raws).1, (svn.call op raws).2⟩ := by
  unfold Operation.streamCall
  rw [h]

/-- Without a record there is only the end. -/
theorem shown_of_failed (newFromUtf8 : NewFromUtf8) {e : Exn} {raw : SvnError}
    (h : marshal svn.paths notifyFunc2 op.method captured = .error e)
    (he : e.asSvnError = some raw) :
    (reportedCall newFromUtf8 (op.streamCall svn notifyFunc2 captured)).shown =
      [.rejected (some (.error (copyError raw)))] := by
  have hcall : op.streamCall svn notifyFunc2 captured =
      ⟨op, Reported.nullChangelist, [], .error raw⟩ := by
    unfold Operation.streamCall unmarshalled
    rw [h]
    show (⟨op, Reported.nullChangelist, [], match e.asSvnError with
      | some raw => Except.error raw
      | none => Except.ok ()⟩ : StreamCall Reported) = _
    rw [he]
  rw [hcall]
  rfl

theorem methodResult_iterator (hd : decodeArguments before op.method args = .ok captured) :
    methodResult op.method args before = .iterator := by
  rw [methodResult_of_decoded hd, method_iterates, if_pos rfl]

/-- A file is removed. -/
def removesOne : IteratorSvn where
  paths := ⟨fun _ => false, fun s => .ok s, id⟩
  call _ _ := ([.record (.remove ⟨5, some [116], some [109, 101], none, none⟩)], .ok ())

theorem removesOne_inRange (op : Operation) (raws : List RawArgument) :
    ∀ r ∈ (removesOne.call op raws).1, r.InRange := by
  intro r hr
  obtain rfl := List.mem_singleton.mp hr
  simp [Reported.InRange, Reported.sources, Report.sources, Source.InRange, Source.IntLength]

theorem removesOne_fits {raws : List RawArgument} {r : Reported}
    (hr : r ∈ (removesOne.call op raws).1) : r.Fits 1073741799 := by
  obtain rfl := List.mem_singleton.mp hr
  refine ⟨⟨rfl, rfl⟩, ?_⟩
  simp [Reported.sources, Report.sources, Source.Short]

end Calls

end NodeSvn
