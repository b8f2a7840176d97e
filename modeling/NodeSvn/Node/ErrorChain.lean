import Mathlib.Data.List.Forall2
import Mathlib.Data.List.Nodup
import NodeSvn.Lib.Chains
import NodeSvn.Lib.Lists
import NodeSvn.Lib.Machine
import NodeSvn.Lib.Slots
import NodeSvn.Node.Delivery
import NodeSvn.Node.EntryPoints
import NodeSvn.Node.Error

/-!
# The objects of `svn::svn_error`

`SvnError` is what a `svn::svn_error` says.  The object itself has a raw pointer to the next
level, on the heap:

    copy_error(svn_error_t*)       allocates a node for each level
    copy_error(svn_error_t&)       the same, but the first level is a value
    svn_error(const svn_error&)    allocates copies of the nodes
    svn_error(svn_error&&)         takes the nodes, and leaves nullptr
    ~svn_error()                   deletes the nodes, the last one first

The values are local variables and exception objects, wherever they are made between the
worker and the after-work step.  However they are copied, moved and thrown, each value that
was made from a chain, and not moved from since, still shows that chain in JS, and every node
has one owner and is destroyed once (`chains_preserved`).
-/

namespace NodeSvn

/-! ## The JS object -/

/-- The properties of an `Error`; the last one is `child`. -/
inductive JsErrorObject where
  | last (properties : List (String × Property))
  | chained (properties : List (String × Property)) (child : JsErrorObject)

def JsErrorObject.levels : JsErrorObject → List (List (String × Property))
  | .last properties => [properties]
  | .chained properties child => properties :: child.levels

/-- The message of the new `Error`, and what `copy_error` assigns to it. -/
def SvnErrorLevel.assignments (l : SvnErrorLevel) : List (String × Assigned) := [
  ("message", .data (.charPointer (some l.what.utf8))),
  ("name", .data (.charPointer (some "SvnError".utf8))),
  ("code", .data (.int32 l.code)),
  ("file", .data (.stdString l.file.utf8)),
  ("line", .data (.int32 l.line))]

def JsErrorLevel.properties (l : JsErrorLevel) : List (String × Property) := [
  ("message", .data (.string l.message)),
  ("name", .data (.string l.name)),
  ("code", .data (.number (.ofInt l.code))),
  ("file", .data (.string l.file)),
  ("line", .data (.number (.ofInt l.line)))]

/-- The object of the error that `copyError` describes. -/
def JsError.toObject : JsError → JsErrorObject
  | .last level => .last level.properties
  | .chained level child => .chained level.properties child.toObject

/-! ## The functions of the class -/

/-- A `svn::svn_error`: its own fields, and `child`. -/
abbrev ErrorObject := Linked SvnErrorLevel

structure ErrorHeap where
  nodes : Store ErrorObject
  /-- the nodes whose destructor has run -/
  destroyed : List Nat

namespace ErrorHeap

/-- `new svn::svn_error(…)` -/
def new (object : ErrorObject) (h : ErrorHeap) : Nat × ErrorHeap :=
  let (a, nodes) := h.nodes.alloc object
  (a, { h with nodes })

/-- `copy_error(svn_error_t*)` of `type_conversion.hpp` -/
def copyErrorNode : RawError → ErrorHeap → Nat × ErrorHeap
  | .last level, h => h.new ⟨level.copy, none⟩
  | .chained level child, h =>
    let (c, h) := copyErrorNode child h
    h.new ⟨level.copy, some c⟩

/-- `copy_error(svn_error_t&)` -/
def copyErrorValue : RawError → ErrorHeap → ErrorObject × ErrorHeap
  | .last level, h => (⟨level.copy, none⟩, h)
  | .chained level child, h =>
    let (c, h) := copyErrorNode child h
    (⟨level.copy, some c⟩, h)

/-- The copy constructor, for chains of `n` nodes at most; `none` if a pointer dangles. -/
def copyConstruct : Nat → ErrorObject → ErrorHeap → Option (ErrorObject × ErrorHeap)
  | _, ⟨level, none⟩, h => some (⟨level, none⟩, h)
  | 0, ⟨_, some _⟩, _ => none
  | n + 1, ⟨level, some a⟩, h => do
    let other ← h.nodes.read a
    let (object, h) ← copyConstruct n other h
    let (c, h) := h.new object
    return (⟨level, some c⟩, h)

/-- The destructor; `none` if a pointer dangles. -/
def destruct : Nat → ErrorObject → ErrorHeap → Option ErrorHeap
  | _, ⟨_, none⟩, h => some h
  | 0, ⟨_, some _⟩, _ => none
  | n + 1, ⟨_, some a⟩, h => do
    let object ← h.nodes.read a
    let h ← destruct n object h
    return { nodes := h.nodes.release a, destroyed := h.destroyed ++ [a] }

section Js

variable (newFromUtf8 : NewFromUtf8) (fuel : Nat)

/-- `copy_error` of `node_client.cpp`; `none` if a pointer dangles, too. -/
def copyErrorJs : Nat → ErrorObject → ErrorHeap → PathM JsErrorObject
  | _, ⟨level, none⟩, _ => do
    let error ← makeItem newFromUtf8 fuel level.assignments
    return .last error
  | 0, ⟨_, some _⟩, _ => ExceptT.mk none
  | n + 1, ⟨level, some a⟩, h => do
    let error ← makeItem newFromUtf8 fuel level.assignments
    match h.nodes.read a with
    | none => ExceptT.mk none
    | some object => do
      let child ← copyErrorJs n object h
      return .chained error child

end Js

end ErrorHeap

/-! ## Values that are copied, moved and thrown -/

structure ErrorValue where
  object : ErrorObject
  /-- the chain it was made from; it has none any more once it was moved from -/
  origin : Option RawError

structure ErrorState where
  heap : ErrorHeap
  values : Nat → Option ErrorValue

inductive ErrorLabel where
  /-- `auto result = copy_error(*purged)` -/
  | make (v : Nat) (purged : RawError)
  | copy (v w : Nat)
  /-- `left` is what the move leaves in `file` -/
  | move (v w : Nat) (left : String)
  /-- `throw result`: the exception object takes it, and the local variable goes away -/
  | throw (v w : Nat) (left : String)
  /-- `throw;` and `std::rethrow_exception`, which may copy the exception object -/
  | rethrow (v : Nat) (copied : Option Nat)
  | destroy (v : Nat)

namespace ErrorState

def put (s : ErrorState) (v : Nat) (value : Option ErrorValue) (heap : ErrorHeap) : ErrorState :=
  ⟨heap, Function.update s.values v value⟩

/-- The value in `v`, if `w` is free. -/
def source (s : ErrorState) (v w : Nat) : Option ErrorValue :=
  if (s.values w).isNone then s.values v else none

def make (s : ErrorState) (v : Nat) (purged : RawError) : Option ErrorState :=
  if (s.values v).isNone then
    let (object, heap) := ErrorHeap.copyErrorValue purged s.heap
    some (s.put v (some ⟨object, some purged⟩) heap)
  else none

def copy (s : ErrorState) (v w : Nat) : Option ErrorState := do
  let other ← s.source v w
  let (object, heap) ← ErrorHeap.copyConstruct s.heap.nodes.next other.object s.heap
  return s.put w (some ⟨object, other.origin⟩) heap

/-- The move constructor; `child` of the source becomes nullptr. -/
def move (s : ErrorState) (v w : Nat) (left : String) : Option ErrorState := do
  let other ← s.source v w
  let moved : ErrorObject := ⟨{ other.object.content with file := left }, none⟩
  return (s.put v (some ⟨moved, none⟩) s.heap).put w (some other) s.heap

def destroy (s : ErrorState) (v : Nat) : Option ErrorState := do
  let value ← s.values v
  let heap ← ErrorHeap.destruct s.heap.nodes.next value.object s.heap
  return s.put v none heap

def step (s : ErrorState) : ErrorLabel → Option ErrorState
  | .make v purged => s.make v purged
  | .copy v w => s.copy v w
  | .move v w left => s.move v w left
  | .throw v w left => (s.move v w left).bind fun s => s.destroy v
  | .rethrow v none => (s.values v).map fun _ => s
  | .rethrow v (some w) => s.copy v w
  | .destroy v => s.destroy v

end ErrorState

def errorMachine : Machine ErrorState ErrorLabel where
  init := ⟨⟨.empty, []⟩, fun _ => none⟩
  step := ErrorState.step

/-! ## What the errors say -/

def RawError.levels : RawError → List RawErrorLevel
  | .last level => [level]
  | .chained level child => level :: child.levels

/-- Code, message, file and line, of which `line` says what becomes of it. -/
def RawErrorLevel.shown (line : Int → Int) (l : RawErrorLevel) : List (String × Property) :=
  JsErrorLevel.properties ⟨l.bestMessage, "SvnError", l.aprErr, l.file.getD "", line l.line⟩

/-- Neither string is too long for V8. -/
def RawErrorLevel.TextFits (maxLength : Nat) (l : RawErrorLevel) : Prop :=
  l.bestMessage.utf8ByteSize ≤ maxLength ∧ (l.file.getD "").utf8ByteSize ≤ maxLength

/-- The first level, and those below it. -/
def SvnError.split : SvnError → SvnErrorLevel × List SvnErrorLevel
  | .last level => (level, [])
  | .chained level child => (level, child.split.1 :: child.split.2)

namespace ErrorState

/-- The JS error made from the value. -/
def toJs (newFromUtf8 : NewFromUtf8) (fuel : Nat) (s : ErrorState) (value : ErrorValue) :
    PathM JsErrorObject :=
  ErrorHeap.copyErrorJs newFromUtf8 fuel s.heap.nodes.next value.object s.heap

/-- The JS error is made, has as many levels as the chain, and shows each of them. -/
def Shows (newFromUtf8 : NewFromUtf8) (line : Int → Int) (s : ErrorState) (value : ErrorValue)
    (raw : RawError) : Prop :=
  ∃ fuel js, s.toJs newFromUtf8 fuel value = pure js ∧
    List.Forall₂ (fun l properties => properties = l.shown line) raw.levels js.levels

/-- The nodes that the values own themselves. -/
def roots (s : ErrorState) (v : Nat) : Option Nat :=
  (s.values v).bind fun value => value.object.child

structure NodesOwned (s : ErrorState) : Prop where
  /-- `child` is nullptr or a node that is there. -/
  live : ∀ o a, Linked.Owns s.roots s.heap.nodes o a → (s.heap.nodes.read a).isSome = true
  owner : ∀ a, (s.heap.nodes.read a).isSome = true →
    ∃ o, Linked.Owns s.roots s.heap.nodes o a ∧
      ∀ o', Linked.Owns s.roots s.heap.nodes o' a → o' = o
  once : ∀ a, a < s.heap.nodes.next →
    s.heap.destroyed.count a = if (s.heap.nodes.read a).isSome then 0 else 1
  /-- None is left when the last value is gone. -/
  gone : (∀ v, s.values v = none) → ∀ a, a < s.heap.nodes.next → s.heap.destroyed.count a = 1

/-- The places are as the operation needs them. -/
def Fits (s : ErrorState) : ErrorLabel → Prop
  | .make v _ => s.values v = none
  | .copy v w | .move v w _ | .throw v w _ | .rethrow v (some w) =>
    (s.values v).isSome = true ∧ s.values w = none
  | .rethrow v none | .destroy v => (s.values v).isSome = true

end ErrorState

/-! ## The functions, on a chain -/

namespace ErrorHeap

variable {h : ErrorHeap} {p : Option Nat} {xs : List (Nat × SvnErrorLevel)}
  {level : SvnErrorLevel} {n : Nat}

theorem copyErrorNode_eq (raw : RawError) (h : ErrorHeap) :
    ∃ a, Linked.allocAll (raw.copyError.split.1 :: raw.copyError.split.2) h.nodes =
        (some a, (copyErrorNode raw h).2.nodes) ∧
      copyErrorNode raw h = (a, ⟨(copyErrorNode raw h).2.nodes, h.destroyed⟩) := by
  induction raw with
  | last level => exact ⟨_, rfl, rfl⟩
  | chained level child ih =>
    obtain ⟨c, halloc, hcopy⟩ := ih
    refine ⟨(copyErrorNode child h).2.nodes.next, ?_, ?_⟩
    · rw [RawError.copyError, SvnError.split, Linked.allocAll, halloc, copyErrorNode, hcopy]
      rfl
    · rw [copyErrorNode, hcopy]
      rfl

theorem copyErrorValue_eq (raw : RawError) (h : ErrorHeap) :
    copyErrorValue raw h =
      (⟨raw.copyError.split.1, (Linked.allocAll raw.copyError.split.2 h.nodes).1⟩,
        ⟨(Linked.allocAll raw.copyError.split.2 h.nodes).2, h.destroyed⟩) := by
  cases raw with
  | last level => rfl
  | chained level child =>
    obtain ⟨c, halloc, hcopy⟩ := copyErrorNode_eq child h
    rw [copyErrorValue, hcopy, RawError.copyError, SvnError.split, halloc]

/-- The nodes are read before any is made. -/
theorem copyConstruct_eq (level : SvnErrorLevel) (hc : Linked.Chain h.nodes p xs)
    (hn : xs.length ≤ n) :
    copyConstruct n ⟨level, p⟩ h =
      some (⟨level, (Linked.allocAll (xs.map Prod.snd) h.nodes).1⟩,
        ⟨(Linked.allocAll (xs.map Prod.snd) h.nodes).2, h.destroyed⟩) := by
  induction xs generalizing n p level with
  | nil =>
    rw [show p = none from hc]
    cases n <;> rfl
  | cons x xs ih =>
    obtain ⟨rfl, child, hread, hrest⟩ := hc
    obtain ⟨n, rfl, hle⟩ := exists_succ_of_length_le hn
    have hcopy := ih x.2 hrest hle
    rw [copyConstruct, hread, Option.bind_eq_bind, Option.bind_some, hcopy]
    rfl

theorem destruct_eq (level : SvnErrorLevel) (hc : Linked.Chain h.nodes p xs) (hn : xs.length ≤ n) :
    destruct n ⟨level, p⟩ h =
      some ⟨Linked.releaseAll (xs.map Prod.fst) h.nodes,
        h.destroyed ++ (xs.map Prod.fst).reverse⟩ := by
  induction xs generalizing n p level with
  | nil =>
    rw [show p = none from hc, List.map_nil, List.reverse_nil, List.append_nil]
    cases n <;> rfl
  | cons x xs ih =>
    obtain ⟨rfl, child, hread, hrest⟩ := hc
    obtain ⟨n, rfl, hle⟩ := exists_succ_of_length_le hn
    have hdestruct := ih x.2 hrest hle
    rw [destruct, hread, Option.bind_eq_bind, Option.bind_some, hdestruct, List.map_cons,
      List.reverse_cons, ← List.append_assoc]
    rfl

section Js

variable {newFromUtf8 : NewFromUtf8} {js : JsErrorObject}

/-- What the assignments of a level leave. -/
abbrev LevelGives (newFromUtf8 : NewFromUtf8)
    (l : SvnErrorLevel) (properties : List (String × Property)) : Prop :=
  List.Forall₂ (fun a p => a.1 = p.1 ∧ a.2.Gives newFromUtf8 p.2) l.assignments properties

theorem gives_of_copyErrorJs {fuel : Nat} (hc : Linked.Chain h.nodes p xs) (hn : xs.length ≤ n)
    (hjs : copyErrorJs newFromUtf8 fuel n ⟨level, p⟩ h = pure js) :
    List.Forall₂ (LevelGives newFromUtf8) (level :: xs.map Prod.snd) js.levels := by
  induction xs generalizing n p level js with
  | nil =>
    obtain rfl : p = none := hc
    obtain ⟨error, herror, hjs⟩ : ∃ error,
        makeItem newFromUtf8 fuel level.assignments = pure error ∧
          (pure (.last error) : PathM JsErrorObject) = pure js := by
      cases n <;> exact PathM.bind_eq_pure_iff.mp hjs
    obtain rfl := PathM.pure_inj hjs
    exact .cons (gives_of_makeItem herror) .nil
  | cons x xs ih =>
    obtain ⟨rfl, child, hread, hrest⟩ := hc
    obtain ⟨n, rfl, hle⟩ := exists_succ_of_length_le hn
    obtain ⟨error, herror, hjs⟩ := PathM.bind_eq_pure_iff.mp hjs
    simp only [hread] at hjs
    obtain ⟨below, hbelow, hjs⟩ := PathM.bind_eq_pure_iff.mp hjs
    obtain rfl := PathM.pure_inj hjs
    exact .cons (gives_of_makeItem herror) (ih hrest hle hbelow)

theorem copyErrorJs_of_gives (hc : Linked.Chain h.nodes p xs) (hn : xs.length ≤ n)
    (hjs : List.Forall₂ (LevelGives newFromUtf8) (level :: xs.map Prod.snd) js.levels) :
    copyErrorJs newFromUtf8 2 n ⟨level, p⟩ h = pure js := by
  induction xs generalizing n p level js with
  | nil =>
    obtain rfl : p = none := hc
    cases js with
    | last properties =>
      rcases hjs with _ | ⟨hgives, -⟩
      have hitem : (do
          let error ← makeItem newFromUtf8 2 level.assignments
          return .last error : PathM JsErrorObject) = pure (.last properties) :=
        PathM.bind_eq_pure_iff.mpr ⟨properties, makeItem_of_gives hgives, rfl⟩
      cases n <;> exact hitem
    | chained properties below =>
      rcases hjs with _ | ⟨-, hbelow⟩
      cases below <;> cases hbelow
  | cons x xs ih =>
    obtain ⟨rfl, child, hread, hrest⟩ := hc
    obtain ⟨n, rfl, hle⟩ := exists_succ_of_length_le hn
    cases js with
    | last properties =>
      rcases hjs with _ | ⟨-, hbelow⟩
      cases hbelow
    | chained properties below =>
      rcases hjs with _ | ⟨hgives, hbelow⟩
      refine PathM.bind_eq_pure_iff.mpr ⟨properties, makeItem_of_gives hgives, ?_⟩
      simp only [hread]
      exact PathM.bind_eq_pure_iff.mpr
        ⟨below, ih hrest hle hbelow, rfl⟩

theorem copyErrorJs_iff (hc : Linked.Chain h.nodes p xs) (hn : xs.length ≤ n) :
    (∃ fuel, copyErrorJs newFromUtf8 fuel n ⟨level, p⟩ h = pure js) ↔
      List.Forall₂ (LevelGives newFromUtf8) (level :: xs.map Prod.snd) js.levels := by
  constructor
  · rintro ⟨fuel, hjs⟩
    exact gives_of_copyErrorJs hc hn hjs
  · intro hjs
    exact ⟨2, copyErrorJs_of_gives hc hn hjs⟩

end Js

end ErrorHeap

/-! ## The invariant -/

namespace ErrorState

variable {s t : ErrorState} {v w : Nat} {value : ErrorValue} {raw : RawError}

structure Inv (s : ErrorState) : Prop where
  owned : Linked.OwnedOnce s.roots s.heap.nodes
  chain : ∀ v value raw, s.values v = some value → value.origin = some raw →
    ∃ xs, Linked.Chain s.heap.nodes value.object.child xs ∧
      raw.copyError.split = (value.object.content, xs.map Prod.snd)
  nodup : s.heap.destroyed.Nodup
  released : ∀ a, a ∈ s.heap.destroyed ↔ s.heap.nodes.Released a

theorem roots_put (s : ErrorState) (v : Nat) (value : Option ErrorValue) (heap : ErrorHeap) :
    (s.put v value heap).roots =
      Function.update s.roots v (value.bind fun value => value.object.child) := by
  funext w
  by_cases h : w = v
  · subst h
    simp [roots, put]
  · simp [roots, put, h]

theorem roots_of_some (h : s.values v = some value) : s.roots v = value.object.child := by
  rw [roots, h]
  rfl

theorem roots_of_none (h : s.values v = none) : s.roots v = none := by
  rw [roots, h]
  rfl

theorem Inv.exists_chain (h : s.Inv) (hv : s.values v = some value) :
    ∃ xs, Linked.Chain s.heap.nodes value.object.child xs := by
  refine h.owned.exists_chain (o := .root v) fun a ha => ?_
  rw [← roots_of_some hv] at ha
  exact ha

/-- A new value, with new nodes. -/
theorem Inv.fresh (h : s.Inv) (hw : s.values w = none) (bs : List SvnErrorLevel)
    (level : SvnErrorLevel) (origin : Option RawError)
    (hbs : ∀ raw, origin = some raw → raw.copyError.split = (level, bs)) :
    (s.put w (some ⟨⟨level, (Linked.allocAll bs s.heap.nodes).1⟩, origin⟩)
      ⟨(Linked.allocAll bs s.heap.nodes).2, s.heap.destroyed⟩).Inv where
  owned := by
    rw [roots_put]
    exact h.owned.allocAll (roots_of_none hw) bs
  chain := by
    intro v value raw hv horigin
    rcases update_eq_some_iff.mp hv with ⟨rfl, hvalue⟩ | ⟨-, hv⟩
    · cases hvalue
      obtain ⟨xs, hxs, hmap⟩ := Linked.exists_chain_allocAll bs s.heap.nodes
      exact ⟨xs, hxs, by rw [hmap]; exact hbs raw horigin⟩
    · obtain ⟨xs, hxs, hsplit⟩ := h.chain v value raw hv horigin
      exact ⟨xs, hxs.keeps (Linked.allocAll_keeps bs _), hsplit⟩
  nodup := h.nodup
  released a := (h.released a).trans (Linked.released_allocAll bs).symm

theorem source_eq_some (h : s.source v w = some value) :
    s.values w = none ∧ s.values v = some value := by
  unfold source at h
  split at h
  · exact ⟨Option.isNone_iff_eq_none.mp ‹_›, h⟩
  · cases h

theorem Inv.make (h : s.Inv) (hs : s.make v raw = some t) : t.Inv := by
  unfold ErrorState.make at hs
  split at hs
  · rw [ErrorHeap.copyErrorValue_eq] at hs
    cases hs
    refine h.fresh (Option.isNone_iff_eq_none.mp ‹_›) _ _ _ ?_
    rintro _ ⟨⟩
    rfl
  · cases hs

theorem Inv.copy (h : s.Inv) (hs : s.copy v w = some t) : t.Inv := by
  obtain ⟨other, hother, hs⟩ := Option.bind_eq_some_iff.mp hs
  obtain ⟨hw, hv⟩ := source_eq_some hother
  obtain ⟨xs, hxs⟩ := h.exists_chain hv
  rw [ErrorHeap.copyConstruct_eq other.object.content hxs (h.owned.length_le hxs)] at hs
  cases hs
  refine h.fresh hw _ _ _ ?_
  intro raw horigin
  obtain ⟨ys, hys, hsplit⟩ := h.chain v other raw hv horigin
  rw [hsplit, hys.unique hxs]

theorem Inv.move {left : String} (h : s.Inv) (hs : s.move v w left = some t) : t.Inv := by
  obtain ⟨other, hother, hs⟩ := Option.bind_eq_some_iff.mp hs
  obtain ⟨hw, hv⟩ := source_eq_some hother
  cases hs
  have hne : v ≠ w := by
    rintro rfl
    cases hv.symm.trans hw
  constructor
  · rw [roots_put, roots_put]
    have hgive := h.owned.give hne (roots_of_none hw)
    rw [roots_of_some hv] at hgive
    exact hgive
  · intro u value raw hu horigin
    rcases update_eq_some_iff.mp hu with ⟨rfl, hvalue⟩ | ⟨-, hu⟩
    · cases hvalue
      exact h.chain v _ raw hv horigin
    · rcases update_eq_some_iff.mp hu with ⟨rfl, hvalue⟩ | ⟨-, hu⟩
      · cases hvalue
        cases horigin
      · exact h.chain u value raw hu horigin
  · exact h.nodup
  · exact h.released

theorem Inv.destroy (h : s.Inv) (hs : s.destroy v = some t) : t.Inv := by
  obtain ⟨value, hv, hs⟩ := Option.bind_eq_some_iff.mp hs
  obtain ⟨xs, hxs⟩ := h.exists_chain hv
  rw [ErrorHeap.destruct_eq value.object.content hxs (h.owned.length_le hxs)] at hs
  cases hs
  obtain ⟨hnodup, hlive⟩ := h.owned.chain_nodup hxs
  rw [← roots_of_some hv] at hxs
  obtain ⟨howned, hothers⟩ := h.owned.releaseAll hxs
  have hreleased := (Linked.released_releaseAll
    fun a ha => Store.lt_next_of_read (hlive a ha).choose_spec).2
  constructor
  · rw [roots_put]
    exact howned
  · intro u other raw hu horigin
    rcases update_eq_some_iff.mp hu with ⟨-, hvalue⟩ | ⟨hne, hu⟩
    · cases hvalue
    · obtain ⟨ys, hys, hsplit⟩ := h.chain u other raw hu horigin
      rw [← roots_of_some hu] at hys
      have hkept := hothers u ys hne hys
      rw [roots_of_some hu] at hkept
      exact ⟨ys, hkept, hsplit⟩
  · -- a node that is there was not destroyed before
    refine List.nodup_append.mpr ⟨h.nodup, List.nodup_reverse.mpr hnodup, ?_⟩
    rintro a ha b hb rfl
    obtain ⟨node, hnode⟩ := hlive a (List.mem_reverse.mp hb)
    have hgone := ((h.released a).mp ha).2
    rw [hnode] at hgone
    cases hgone
  · intro a
    refine Iff.trans ?_ (hreleased a).symm
    show a ∈ s.heap.destroyed ++ (xs.map Prod.fst).reverse ↔ _
    rw [List.mem_append, List.mem_reverse, h.released, or_comm]

theorem Inv.step {l : ErrorLabel} (h : s.Inv) (hs : s.step l = some t) : t.Inv := by
  cases l with
  | make v purged => exact h.make hs
  | copy v w => exact h.copy hs
  | move v w left => exact h.move hs
  | throw v w left =>
    obtain ⟨u, hu, hs⟩ := Option.bind_eq_some_iff.mp hs
    exact (h.move hu).destroy hs
  | rethrow v copied =>
    cases copied with
    | none =>
      obtain ⟨_, -, rfl⟩ := Option.map_eq_some_iff.mp hs
      exact h
    | some w => exact h.copy hs
  | destroy v => exact h.destroy hs

theorem inv_of_reachable (h : errorMachine.Reachable s) : s.Inv := by
  refine h.invariant ?_ fun s l t hs hst => hs.step hst
  refine ⟨Linked.ownedOnce_empty, ?_, List.nodup_nil, ?_⟩
  · intro v value raw hv
    cases hv
  · intro a
    constructor
    · intro ha
      cases ha
    · rintro ⟨ha, -⟩
      cases ha

/-! ## Chains shown, nodes owned -/

theorem Inv.count (h : s.Inv) {a : Nat} (ha : a < s.heap.nodes.next) :
    s.heap.destroyed.count a = if (s.heap.nodes.read a).isSome then 0 else 1 := by
  cases hread : s.heap.nodes.read a with
  | none =>
    rw [List.count_eq_one_of_mem h.nodup ((h.released a).mpr ⟨ha, hread⟩)]
    rfl
  | some node =>
    refine List.count_eq_zero_of_not_mem fun hmem => ?_
    cases hread.symm.trans ((h.released a).mp hmem).2

theorem Inv.nodesOwned (h : s.Inv) : s.NodesOwned where
  live o a ho := Option.isSome_iff_exists.mpr (h.owned.live o a ho)
  owner a ha := by
    obtain ⟨node, hnode⟩ := Option.isSome_iff_exists.mp ha
    obtain ⟨o, ho⟩ := h.owned.owned a node hnode
    exact ⟨o, ho, fun o' ho' => h.owned.unique _ _ a ho' ho⟩
  once a ha := h.count ha
  gone hnone a ha := by
    have hread := h.owned.read_none (fun v => roots_of_none (hnone v)) a
    rw [h.count ha, hread]
    rfl

/-! ## No pointer that an operation follows dangles -/

theorem source_of_free (hv : s.values v = some value) (hw : s.values w = none) :
    s.source v w = some value := by
  rw [source, hw]
  exact hv

theorem Inv.exists_copy (h : s.Inv) (hv : (s.values v).isSome = true) (hw : s.values w = none) :
    ∃ t, s.copy v w = some t := by
  obtain ⟨value, hv⟩ := Option.isSome_iff_exists.mp hv
  obtain ⟨xs, hxs⟩ := h.exists_chain hv
  have hcopy := ErrorHeap.copyConstruct_eq value.object.content hxs
    (h.owned.length_le hxs)
  exact ⟨_, Option.bind_eq_some_iff.mpr ⟨value, source_of_free hv hw,
    Option.bind_eq_some_iff.mpr ⟨_, hcopy, rfl⟩⟩⟩

theorem exists_move (left : String) (hv : (s.values v).isSome = true) (hw : s.values w = none) :
    ∃ t, s.move v w left = some t ∧ (t.values v).isSome = true := by
  obtain ⟨value, hv⟩ := Option.isSome_iff_exists.mp hv
  have hne : v ≠ w := by
    rintro rfl
    cases hv.symm.trans hw
  refine ⟨_, by rw [ErrorState.move, source_of_free hv hw]; rfl, ?_⟩
  simp [put, hne]

theorem Inv.exists_destroy (h : s.Inv) (hv : (s.values v).isSome = true) :
    ∃ t, s.destroy v = some t := by
  obtain ⟨value, hv⟩ := Option.isSome_iff_exists.mp hv
  obtain ⟨xs, hxs⟩ := h.exists_chain hv
  have hdestruct := ErrorHeap.destruct_eq value.object.content hxs
    (h.owned.length_le hxs)
  exact ⟨_, Option.bind_eq_some_iff.mpr ⟨value, hv,
    Option.bind_eq_some_iff.mpr ⟨_, hdestruct, rfl⟩⟩⟩

theorem Inv.enabled {l : ErrorLabel} (h : s.Inv) (hl : s.Fits l) : errorMachine.Enabled s l := by
  refine Option.isSome_iff_exists.mpr ?_
  cases l with
  | make v purged => exact ⟨_, if_pos (Option.isNone_iff_eq_none.mpr hl)⟩
  | copy v w => exact h.exists_copy hl.1 hl.2
  | move v w left =>
    obtain ⟨t, ht, -⟩ := exists_move left hl.1 hl.2
    exact ⟨t, ht⟩
  | throw v w left =>
    obtain ⟨t, ht, hv⟩ := exists_move left hl.1 hl.2
    obtain ⟨u, hu⟩ := (h.move ht).exists_destroy hv
    exact ⟨u, Option.bind_eq_some_iff.mpr ⟨t, ht, hu⟩⟩
  | rethrow v copied =>
    cases copied with
    | none =>
      obtain ⟨value, hv⟩ := Option.isSome_iff_exists.mp hl
      exact ⟨s, Option.map_eq_some_iff.mpr ⟨value, hv, rfl⟩⟩
    | some w => exact h.exists_copy hl.1 hl.2
  | destroy v => exact h.exists_destroy hl

end ErrorState

/-! ## What JS sees of a chain -/

section Js

variable {newFromUtf8 : NewFromUtf8} {maxLength : Nat}

theorem gives_data_iff {v : CppValue} {d : JsData} :
    (Assigned.data v).Gives newFromUtf8 (.data d) ↔ v.result newFromUtf8 = some (.ok d) := by
  constructor
  · rintro ⟨d', hd', heq⟩
    rw [Property.data.inj heq]
    exact hd'
  · intro h
    exact ⟨d, h, rfl⟩

theorem levelGives_shown_iff (h8 : V8Strings newFromUtf8 maxLength) (line : Int → Int)
    (l : RawErrorLevel) :
    ErrorHeap.LevelGives newFromUtf8 l.copy (l.shown line) ↔
      l.TextFits maxLength ∧ toInt32 l.line = line l.line := by
  have hmessage := newString_utf8_iff h8 l.bestMessage .normal (-1) (.inl rfl) .aborted
  have hname := newString_utf8_iff h8 "SvnError" .normal (-1) (.inl rfl) .aborted
  have hfile := newString_utf8_iff h8 (l.file.getD "") .normal _ (.inr rfl)
    (.thrown (.runtimeError ""))
  have hroom : "SvnError".utf8.length ≤ maxLength := Nat.le_trans (by decide) h8.room
  unfold ErrorHeap.LevelGives SvnErrorLevel.assignments RawErrorLevel.shown
    JsErrorLevel.properties RawErrorLevel.copy
  simp only [List.forall₂_cons, List.forall₂_nil_right_iff, true_and, and_true, gives_data_iff,
    CppValue.result, Option.some.injEq, hmessage, hname.mpr hroom, hfile, Except.ok.injEq,
    JsData.number.injEq, JsNumber.ofInt_inj]
  rw [RawErrorLevel.TextFits, String.length_utf8, String.length_utf8, and_assoc]

theorem levels_copyError (raw : RawError) :
    raw.copyError.split.1 :: raw.copyError.split.2 = raw.levels.map RawErrorLevel.copy := by
  induction raw with
  | last level => rfl
  | chained level child ih =>
    rw [RawError.levels, List.map_cons, ← ih]
    rfl

theorem exists_levels {properties : List (List (String × Property))} (h : properties ≠ []) :
    ∃ js : JsErrorObject, js.levels = properties := by
  induction properties with
  | nil => exact absurd rfl h
  | cons first below ih =>
    by_cases hbelow : below = []
    · exact ⟨.last first, by rw [hbelow]; rfl⟩
    · obtain ⟨js, hjs⟩ := ih hbelow
      exact ⟨.chained first js, by rw [JsErrorObject.levels, hjs]⟩

/-- The object that shows a chain is that of the error that `copyError` describes. -/
theorem shown_iff_toObject (raw : RawError) (js : JsErrorObject) :
    List.Forall₂ (fun l properties => properties = l.shown toInt32) raw.levels js.levels ↔
      js = (copyError raw.copyError).toObject := by
  constructor
  · intro h
    induction raw generalizing js with
    | last level =>
      cases js with
      | last properties =>
        rcases h with _ | ⟨rfl, -⟩
        rfl
      | chained properties child =>
        rcases h with _ | ⟨-, h⟩
        cases child <;> cases h
    | chained level child ih =>
      cases js with
      | last properties =>
        rcases h with _ | ⟨-, h⟩
        cases child <;> cases h
      | chained properties below =>
        rcases h with _ | ⟨rfl, h⟩
        rw [ih below h]
        rfl
  · rintro rfl
    induction raw with
    | last level => exact .cons rfl .nil
    | chained level child ih => exact .cons rfl ih

namespace ErrorState

variable {s : ErrorState} {v : Nat} {value : ErrorValue} {raw : RawError}

theorem Inv.shows_iff (h8 : V8Strings newFromUtf8 maxLength) (h : s.Inv)
    (hv : s.values v = some value) (horigin : value.origin = some raw) (line : Int → Int) :
    s.Shows newFromUtf8 line value raw ↔
      ∀ l ∈ raw.levels, l.TextFits maxLength ∧ toInt32 l.line = line l.line := by
  obtain ⟨xs, hxs, hsplit⟩ := h.chain v value raw hv horigin
  have hlevels : value.object.content :: xs.map Prod.snd = raw.levels.map RawErrorLevel.copy := by
    rw [← levels_copyError, hsplit]
  have hcopies : List.Forall₂ (fun l level => level = RawErrorLevel.copy l) raw.levels
      (value.object.content :: xs.map Prod.snd) := by
    rw [hlevels, List.forall₂_map_right_iff, List.forall₂_same]
    exact fun _ _ => rfl
  have hjs : ∀ js, (∃ fuel, s.toJs newFromUtf8 fuel value = pure js) ↔
      List.Forall₂ (ErrorHeap.LevelGives newFromUtf8)
        (value.object.content :: xs.map Prod.snd) js.levels :=
    fun js => ErrorHeap.copyErrorJs_iff hxs (h.owned.length_le hxs)
  rw [← exists_forall₂_iff (R := ErrorHeap.LevelGives newFromUtf8)
    (S := fun l properties => properties = l.shown line) hcopies ?_]
  · constructor
    · rintro ⟨fuel, js, htoJs, hshown⟩
      exact ⟨js.levels, (hjs js).mp ⟨fuel, htoJs⟩, hshown⟩
    · rintro ⟨properties, hgives, hshown⟩
      obtain ⟨js, rfl⟩ : ∃ js : JsErrorObject, js.levels = properties := by
        refine exists_levels ?_
        rintro rfl
        cases hgives
      obtain ⟨fuel, htoJs⟩ := (hjs js).mpr hgives
      exact ⟨fuel, js, htoJs, hshown⟩
  · rintro l _ rfl
    rw [exists_eq_right, levelGives_shown_iff h8]

end ErrorState

/-- **Each value that was made from a chain, and not moved from, shows it in JS, with the lines
as `int32_t`, exactly if V8 makes the strings; each node has one owner and is destroyed once; and
no operation follows a dangling pointer.** -/
theorem chains_preserved (newFromUtf8 : NewFromUtf8) (maxLength : Nat)
    (h8 : V8Strings newFromUtf8 maxLength) (s : ErrorState) (h : errorMachine.Reachable s) :
    (∀ v value raw, s.values v = some value → value.origin = some raw →
      (s.Shows newFromUtf8 toInt32 value raw ↔ ∀ l ∈ raw.levels, l.TextFits maxLength) ∧
      (s.Shows newFromUtf8 id value raw ↔ ∀ l ∈ raw.levels,
        l.TextFits maxLength ∧ -2147483648 ≤ l.line ∧ l.line < 2147483648)) ∧
      s.NodesOwned ∧ ∀ l, s.Fits l → errorMachine.Enabled s l := by
  have hinv := ErrorState.inv_of_reachable h
  refine ⟨?_, hinv.nodesOwned, fun l => hinv.enabled⟩
  intro v value raw hv horigin
  constructor
  · rw [hinv.shows_iff h8 hv horigin]
    simp only [and_true]
  · rw [hinv.shows_iff h8 hv horigin]
    simp only [id, JsNumber.toInt32_eq_self_iff]

/-- Two levels that are thrown and then copied. -/
theorem chains_preserved_thrown :
    ∃ s, errorMachine.run errorMachine.init
      [.make 0 (.chained ⟨160013, "path not found", some "a.c", 7⟩ (.last ⟨2, "", none, 0⟩)),
        .throw 0 1 "", .copy 1 2] = some s ∧
    (∀ v value raw, s.values v = some value → value.origin = some raw →
      (s.Shows (.upTo 1073741799) toInt32 value raw ↔ ∀ l ∈ raw.levels, l.TextFits 1073741799) ∧
      (s.Shows (.upTo 1073741799) id value raw ↔ ∀ l ∈ raw.levels,
          l.TextFits 1073741799 ∧ -2147483648 ≤ l.line ∧ l.line < 2147483648)) ∧
      s.NodesOwned ∧ ∀ l, s.Fits l → errorMachine.Enabled s l := by
  obtain ⟨s, hs⟩ := Option.isSome_iff_exists.mp (show (errorMachine.run errorMachine.init
    [.make 0 (.chained ⟨160013, "path not found", some "a.c", 7⟩ (.last ⟨2, "", none, 0⟩)),
      .throw 0 1 "", .copy 1 2]).isSome = true from rfl)
  exact ⟨s, hs, chains_preserved _ _ v8Strings_bound s ⟨_, hs⟩⟩

/-- A line that only a `long` of 64 bits can have. -/
theorem not_preserved_line :
    ¬ ∀ s, errorMachine.Reachable s →
      (∀ v value raw, s.values v = some value → value.origin = some raw →
        s.Shows (.upTo 1073741799) id value raw) ∧ s.NodesOwned := by
  intro h
  obtain ⟨s, hs⟩ := Option.isSome_iff_exists.mp (show (errorMachine.run errorMachine.init
    [.make 0 (.last ⟨160013, "path not found", some "a.c", 2147483648⟩)]).isSome = true from rfl)
  have hshows := (h s ⟨_, hs⟩).1
  have hinv := ErrorState.inv_of_reachable ⟨_, hs⟩
  cases hs
  obtain ⟨-, hline⟩ := (hinv.shows_iff v8Strings_bound (v := 0) rfl rfl id).mp
    (hshows 0 _ _ rfl rfl) _ List.mem_cons_self
  exact absurd hline (by decide)

end Js

end NodeSvn
