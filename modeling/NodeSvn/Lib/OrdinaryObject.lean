import Mathlib.Logic.Function.Basic

/-!
# Ordinary objects: own properties and what can become of them

The internal methods of an ordinary object, for keys `K`, values `V` and functions `F`; the
defaults of `V` and `F` stand for `undefined`.

    defineOwnProperty     ValidateAndApplyPropertyDescriptor
    delete, set           OrdinaryDelete, OrdinarySet
    preventExtensions     OrdinaryPreventExtensions

A data property that is neither writable nor configurable stays as it is in every run of them
(`getOwn_run_of_fixed`), and one that is only not writable changes by definition and deletion
alone (`getOwn_apply_of_readOnly`).  A list of values defines fixed properties one after the
other exactly if it is a function of the key (`defineAll_iff`).
-/

namespace OrdinaryObject

variable {K V F : Type}

inductive Slot (V F : Type) where
  | data (value : V) (writable : Bool)
  | accessor (get set : F)
  deriving DecidableEq

structure Property (V F : Type) where
  slot : Slot V F
  enumerable : Bool
  configurable : Bool
  deriving DecidableEq

/-- The fields of a descriptor that tell data from accessors; absent ones are `none`. -/
inductive Change (V F : Type) where
  | generic
  | data (value : Option V) (writable : Option Bool)
  | accessor (get set : Option F)

structure Descriptor (V F : Type) where
  change : Change V F
  enumerable : Option Bool
  configurable : Option Bool

/-- An object, by its own properties. -/
structure Object (K V F : Type) where
  getOwn : K → Option (Property V F)
  extensible : Bool

namespace Object

def empty : Object K V F := ⟨fun _ => none, true⟩

section Put

variable [DecidableEq K] {o : Object K V F} {k k' : K}

def put (o : Object K V F) (k : K) (p : Option (Property V F)) : Object K V F :=
  { o with getOwn := Function.update o.getOwn k p }

@[simp] theorem getOwn_put (o : Object K V F) (k : K) (p : Option (Property V F)) :
    (o.put k p).getOwn k = p := Function.update_self ..

theorem getOwn_put_of_ne (h : k' ≠ k) (p : Option (Property V F)) :
    (o.put k p).getOwn k' = o.getOwn k' := Function.update_of_ne h ..

end Put

end Object

/-! ## The internal methods -/

section Methods

variable [DecidableEq K] [DecidableEq V] [DecidableEq F] [Inhabited V] [Inhabited F]

/-- Whether a slot that is not configurable can be changed so. -/
def Slot.allows : Slot V F → Change V F → Bool
  | _, .generic => true
  | .data value writable, .data value' writable' =>
    writable || (writable' ≠ some true && value'.all (· = value))
  | .accessor get set, .accessor get' set' => get'.all (· = get) && set'.all (· = set)
  | _, _ => false

def Slot.apply : Slot V F → Change V F → Slot V F
  | slot, .generic => slot
  | .data value writable, .data value' writable' =>
    .data (value'.getD value) (writable'.getD writable)
  | .accessor .., .data value' writable' => .data (value'.getD default) (writable'.getD false)
  | .accessor get set, .accessor get' set' => .accessor (get'.getD get) (set'.getD set)
  | .data .., .accessor get' set' => .accessor (get'.getD default) (set'.getD default)

namespace Property

def allows (p : Property V F) (d : Descriptor V F) : Bool :=
  p.configurable ||
    (d.configurable ≠ some true && d.enumerable.all (· = p.enumerable) && p.slot.allows d.change)

def apply (p : Property V F) (d : Descriptor V F) : Property V F where
  slot := p.slot.apply d.change
  enumerable := d.enumerable.getD p.enumerable
  configurable := d.configurable.getD p.configurable

/-- What a new property is made of. -/
def absent : Property V F := ⟨.data default false, false, false⟩

end Property

namespace Object

/-- `none` where it is rejected. -/
def defineOwnProperty (o : Object K V F) (k : K) (d : Descriptor V F) : Option (Object K V F) :=
  match o.getOwn k with
  | none => if o.extensible then some (o.put k (some (Property.absent.apply d))) else none
  | some p => if p.allows d then some (o.put k (some (p.apply d))) else none

def delete (o : Object K V F) (k : K) : Option (Object K V F) :=
  match o.getOwn k with
  | none => some o
  | some p => if p.configurable then some (o.put k none) else none

/-- `chain`: no prototype has a property of the key that is not writable, or a setter. -/
def set (o : Object K V F) (k : K) (value : V) (chain : Bool) : Option (Object K V F) :=
  match o.getOwn k with
  | none =>
    if chain then
      o.defineOwnProperty k ⟨.data (some value) (some true), some true, some true⟩
    else none
  | some p =>
    match p.slot with
    | .data _ true => o.defineOwnProperty k ⟨.data (some value) none, none, none⟩
    | .data _ false => none
    -- the setter is called with the object, and may go on from there
    | .accessor .. => some o

def preventExtensions (o : Object K V F) : Object K V F := { o with extensible := false }

end Object

/-- What a program can do to an object. -/
inductive Op (K V F : Type) where
  | define (k : K) (d : Descriptor V F)
  | delete (k : K)
  | set (k : K) (value : V) (chain : Bool)
  | preventExtensions

/-- A definition or a deletion of the key. -/
def Op.Redefines (k : K) : Op K V F → Prop
  | .define k' _ => k' = k
  | .delete k' => k' = k
  | _ => False

namespace Object

/-- What is rejected changes nothing. -/
def apply (o : Object K V F) : Op K V F → Object K V F
  | .define k d => (o.defineOwnProperty k d).getD o
  | .delete k => (o.delete k).getD o
  | .set k value chain => (o.set k value chain).getD o
  | .preventExtensions => o.preventExtensions

def run (o : Object K V F) (ops : List (Op K V F)) : Object K V F := ops.foldl apply o

/-- Each value becomes a property that is enumerable and nothing else. -/
def defineAll (o : Object K V F) (entries : List (K × V)) : Option (Object K V F) :=
  entries.foldlM
    (fun o e => o.defineOwnProperty e.1 ⟨.data (some e.2) (some false), some true, some false⟩) o

end Object

end Methods

/-! ## What stays -/

namespace Property

/-- A data property that cannot be written. -/
def ReadOnly (p : Property V F) : Prop := ∃ value, p.slot = .data value false

/-- Nor can it be defined again in another way, or deleted. -/
def Fixed (p : Property V F) : Prop := p.ReadOnly ∧ p.configurable = false

/-- What `defineAll` makes of a value. -/
def fixed (value : V) : Property V F := ⟨.data value false, true, false⟩

theorem fixed_fixed (value : V) : (fixed value : Property V F).Fixed := ⟨⟨value, rfl⟩, rfl⟩

end Property

/-- A deletion takes only what is configurable. -/
theorem Object.getOwn_delete [DecidableEq K] {o o' : Object K V F} {p : Property V F} {k : K}
    (hk : o.getOwn k = some p) {k' : K} (h : o.delete k' = some o')
    (hp : k' = k → p.configurable = false) : o'.getOwn k = some p := by
  unfold delete at h
  split at h
  · obtain rfl := Option.some.inj h
    exact hk
  · rename_i q hq
    split at h
    · rename_i hconfigurable
      obtain rfl := Option.some.inj h
      by_cases hne : k = k'
      · subst hne
        rw [hk] at hq
        obtain rfl := Option.some.inj hq
        rw [hp rfl] at hconfigurable
        cases hconfigurable
      · rw [getOwn_put_of_ne hne, hk]
    · cases h

section Laws

variable [DecidableEq K] [DecidableEq V] [DecidableEq F] [Inhabited V] [Inhabited F]
  {o o' : Object K V F} {p : Property V F} {d : Descriptor V F} {k : K} {v : V} {op : Op K V F}

namespace Property

theorem apply_of_fixed (hp : p.Fixed) (h : p.allows d = true) : p.apply d = p := by
  obtain ⟨slot, enumerable, configurable⟩ := p
  obtain ⟨⟨value, hslot⟩, hconfigurable⟩ := hp
  obtain rfl : slot = .data value false := hslot
  obtain rfl : configurable = false := hconfigurable
  obtain ⟨change, enumerable', configurable'⟩ := d
  simp only [allows, Bool.false_or, Bool.and_eq_true, decide_eq_true_eq] at h
  obtain ⟨⟨hc, he⟩, hs⟩ := h
  have hslot : (Slot.data value false : Slot V F).apply change = .data value false := by
    cases change with
    | generic => rfl
    | data value' writable' =>
      simp only [Slot.allows, Bool.false_or, Bool.and_eq_true, decide_eq_true_eq] at hs
      obtain ⟨hw, hv⟩ := hs
      have hvalue : value'.getD value = value := by
        cases value' with
        | none => rfl
        | some w => exact of_decide_eq_true hv
      have hwritable : writable'.getD false = false := by
        match writable', hw with
        | none, _ => rfl
        | some false, _ => rfl
      show Slot.data (value'.getD value) (writable'.getD false) = _
      rw [hvalue, hwritable]
    | accessor get' set' => cases hs
  have henumerable : enumerable'.getD enumerable = enumerable := by
    cases enumerable' with
    | none => rfl
    | some e => exact of_decide_eq_true he
  have hconfigurable : configurable'.getD false = false := by
    match configurable', hc with
    | none, _ => rfl
    | some false, _ => rfl
  show Property.mk _ _ _ = _
  rw [hslot, henumerable, hconfigurable]

end Property

namespace Object

theorem defineOwnProperty_of_some (hk : o.getOwn k = some p) :
    o.defineOwnProperty k d = if p.allows d then some (o.put k (some (p.apply d))) else none := by
  unfold defineOwnProperty
  rw [hk]

theorem defineOwnProperty_of_none (hk : o.getOwn k = none) :
    o.defineOwnProperty k d =
      if o.extensible then some (o.put k (some (Property.absent.apply d))) else none := by
  unfold defineOwnProperty
  rw [hk]

/-- A definition changes no other property. -/
theorem getOwn_define_of_ne {k' : K} (hne : k' ≠ k) (h : o.defineOwnProperty k d = some o') :
    o'.getOwn k' = o.getOwn k' := by
  unfold defineOwnProperty at h
  split at h
  · split at h
    · obtain rfl := Option.some.inj h
      exact getOwn_put_of_ne hne _
    · cases h
  · split at h
    · obtain rfl := Option.some.inj h
      exact getOwn_put_of_ne hne _
    · cases h

theorem getOwn_define_of_fixed (hk : o.getOwn k = some p) (hp : p.Fixed) {k' : K}
    (h : o.defineOwnProperty k' d = some o') : o'.getOwn k = some p := by
  by_cases hne : k = k'
  · subst hne
    rw [defineOwnProperty_of_some hk] at h
    split at h
    · rename_i hallows
      obtain rfl := Option.some.inj h
      rw [getOwn_put, Property.apply_of_fixed hp hallows]
    · cases h
  · rw [getOwn_define_of_ne hne h, hk]

theorem getOwn_set_of_readOnly (hk : o.getOwn k = some p) (hp : p.ReadOnly) {k' : K} {chain : Bool}
    (h : o.set k' v chain = some o') : o'.getOwn k = some p := by
  by_cases hne : k = k'
  · subst hne
    obtain ⟨value, hslot⟩ := hp
    unfold set at h
    rw [hk] at h
    simp only [hslot] at h
    cases h
  · unfold set at h
    split at h
    · split at h
      · rw [getOwn_define_of_ne hne h, hk]
      · cases h
    · split at h
      · rw [getOwn_define_of_ne hne h, hk]
      · cases h
      · obtain rfl := Option.some.inj h
        exact hk

/-- What is not writable changes by a definition or a deletion alone. -/
theorem getOwn_apply_of_readOnly (hk : o.getOwn k = some p) (hp : p.ReadOnly)
    (hop : ¬ op.Redefines k) : (o.apply op).getOwn k = some p := by
  cases op with
  | define k' d =>
    show ((o.defineOwnProperty k' d).getD o).getOwn k = _
    cases h : o.defineOwnProperty k' d with
    | none => exact hk
    | some o' => exact (getOwn_define_of_ne (fun hne => hop hne.symm) h).trans hk
  | delete k' =>
    show ((o.delete k').getD o).getOwn k = _
    cases h : o.delete k' with
    | none => exact hk
    | some o' => exact getOwn_delete hk h fun hne => absurd hne hop
  | set k' value chain =>
    show ((o.set k' value chain).getD o).getOwn k = _
    cases h : o.set k' value chain with
    | none => exact hk
    | some o' => exact getOwn_set_of_readOnly hk hp h
  | preventExtensions => exact hk

theorem getOwn_apply_of_fixed (hk : o.getOwn k = some p) (hp : p.Fixed) (op : Op K V F) :
    (o.apply op).getOwn k = some p := by
  by_cases hop : op.Redefines k
  · cases op with
    | define k' d =>
      show ((o.defineOwnProperty k' d).getD o).getOwn k = _
      cases h : o.defineOwnProperty k' d with
      | none => exact hk
      | some o' => exact getOwn_define_of_fixed hk hp h
    | delete k' =>
      show ((o.delete k').getD o).getOwn k = _
      cases h : o.delete k' with
      | none => exact hk
      | some o' => exact getOwn_delete hk h fun _ => hp.2
    | set k' value chain => exact hop.elim
    | preventExtensions => exact hop.elim
  · exact getOwn_apply_of_readOnly hk hp.1 hop

/-- **A fixed property stays as it is.** -/
theorem getOwn_run_of_fixed (hk : o.getOwn k = some p) (hp : p.Fixed) (ops : List (Op K V F)) :
    (o.run ops).getOwn k = some p := by
  induction ops generalizing o with
  | nil => exact hk
  | cons op ops ih => exact ih (getOwn_apply_of_fixed hk hp op)

end Object

end Laws

/-! ## Tables of fixed properties -/

theorem Property.allows_fixed_iff [DecidableEq V] [DecidableEq F] {v w : V} :
    (Property.fixed v : Property V F).allows ⟨.data (some w) (some false), some true, some false⟩ =
      true ↔ w = v := by
  show (false || ((true && true) && (false || (true && decide (w = v))))) = true ↔ _
  simp

namespace Object

/-- The own properties are the fixed ones of a table. -/
structure IsTable (o : Object K V F) (table : K → Option V) : Prop where
  extensible : o.extensible = true
  getOwn : ∀ k, o.getOwn k = (table k).map Property.fixed

theorem isTable_empty : (empty : Object K V F).IsTable fun _ => none := ⟨rfl, fun _ => rfl⟩

namespace IsTable

theorem put [DecidableEq K] {o : Object K V F} {table : K → Option V} (h : o.IsTable table)
    (k : K) (v : V) :
    (o.put k (some (.fixed v))).IsTable (Function.update table k (some v)) := by
  refine ⟨h.extensible, fun k' => ?_⟩
  by_cases hne : k' = k
  · subst hne
    rw [getOwn_put, Function.update_self]
    rfl
  · rw [getOwn_put_of_ne hne, Function.update_of_ne hne, h.getOwn]

variable [DecidableEq K] [DecidableEq V] [DecidableEq F] [Inhabited V] [Inhabited F]
  {o o' : Object K V F} {table : K → Option V} {k : K} {v : V}

/-- A further entry is defined unless the key has another value. -/
theorem define (h : o.IsTable table) :
    o.defineOwnProperty k ⟨.data (some v) (some false), some true, some false⟩ = some o' ↔
      (∀ w, table k = some w → w = v) ∧ o' = o.put k (some (.fixed v)) := by
  have hk := h.getOwn k
  cases hw : table k with
  | none =>
    rw [hw] at hk
    rw [defineOwnProperty_of_none hk, if_pos h.extensible, Option.some.injEq]
    constructor
    · intro ho
      exact ⟨fun w hw => (by cases hw), ho.symm⟩
    · intro ho
      exact ho.2.symm
  | some w =>
    rw [hw] at hk
    rw [defineOwnProperty_of_some hk]
    by_cases hv : v = w
    · subst hv
      rw [if_pos (Property.allows_fixed_iff.mpr rfl), Option.some.injEq]
      constructor
      · intro ho
        exact ⟨fun w hw => (Option.some.inj hw).symm, ho.symm⟩
      · intro ho
        exact ho.2.symm
    · rw [if_neg (mt Property.allows_fixed_iff.mp hv)]
      constructor
      · intro ho
        cases ho
      · intro ho
        exact absurd (ho.1 w rfl).symm hv

/-- The table after the entries has what it had, and them. -/
theorem of_defineAll (h : o.IsTable table) {entries : List (K × V)}
    (ho : o.defineAll entries = some o') :
    ∃ table', o'.IsTable table' ∧
      ∀ k v, table' k = some v ↔ table k = some v ∨ (k, v) ∈ entries := by
  induction entries generalizing o table with
  | nil =>
    obtain rfl := Option.some.inj ho
    refine ⟨table, h, fun k v => ?_⟩
    rw [or_iff_left (List.not_mem_nil)]
  | cons e entries ih =>
    obtain ⟨o₁, ho₁, hrest⟩ := Option.bind_eq_some_iff.mp ho
    obtain ⟨hfits, rfl⟩ := h.define.mp ho₁
    obtain ⟨table', htable', hiff⟩ := ih (h.put e.1 e.2) hrest
    refine ⟨table', htable', fun k v => ?_⟩
    rw [hiff, List.mem_cons, ← or_assoc]
    refine or_congr_left ?_
    by_cases hkey : k = e.1
    · subst hkey
      rw [Function.update_self, Option.some.injEq]
      constructor
      · rintro rfl
        exact .inr rfl
      · rintro (hw | he)
        · exact (hfits v hw).symm
        · exact (congrArg Prod.snd he).symm
    · rw [Function.update_of_ne hkey, or_iff_left]
      rintro rfl
      exact hkey rfl

/-- **What is defined, and when.** -/
theorem defineAll_iff (h : o.IsTable table) (entries : List (K × V)) :
    (∃ o', o.defineAll entries = some o') ↔
      (∀ e ∈ entries, ∀ w, table e.1 = some w → w = e.2) ∧
      ∀ e ∈ entries, ∀ e' ∈ entries, e.1 = e'.1 → e.2 = e'.2 := by
  constructor
  · rintro ⟨o', ho'⟩
    obtain ⟨table', -, hiff⟩ := h.of_defineAll ho'
    have hentry : ∀ e ∈ entries, table' e.1 = some e.2 := fun e he => (hiff e.1 e.2).mpr (.inr he)
    constructor
    · intro e he w hw
      have hold := (hiff e.1 w).mpr (.inl hw)
      exact Option.some.inj (hold.symm.trans (hentry e he))
    · intro e he e' he' hkey
      have hsame := hentry e' he'
      rw [← hkey] at hsame
      exact Option.some.inj ((hentry e he).symm.trans hsame)
  · rintro ⟨htable, hfun⟩
    induction entries generalizing o table with
    | nil => exact ⟨o, rfl⟩
    | cons e entries ih =>
      have hdefine : o.defineOwnProperty e.1
          ⟨.data (some e.2) (some false), some true, some false⟩ =
            some (o.put e.1 (some (.fixed e.2))) :=
        h.define.mpr ⟨htable e List.mem_cons_self, rfl⟩
      have hrest : ∀ e' ∈ entries, ∀ w, Function.update table e.1 (some e.2) e'.1 = some w →
          w = e'.2 := by
        intro e' he' w hw
        by_cases hkey : e'.1 = e.1
        · rw [hkey, Function.update_self] at hw
          obtain rfl := Option.some.inj hw
          exact hfun e List.mem_cons_self e' (List.mem_cons_of_mem e he') hkey.symm
        · rw [Function.update_of_ne hkey] at hw
          exact htable e' (List.mem_cons_of_mem e he') w hw
      obtain ⟨o', ho'⟩ := ih (h.put e.1 e.2) hrest fun a ha b hb =>
        hfun a (List.mem_cons_of_mem e ha) b (List.mem_cons_of_mem e hb)
      exact ⟨o', Option.bind_eq_some_iff.mpr ⟨_, hdefine, ho'⟩⟩

end IsTable

end Object

end OrdinaryObject
