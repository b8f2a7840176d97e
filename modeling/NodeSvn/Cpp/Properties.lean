import Mathlib.Data.List.Perm.Basic
import NodeSvn.Lib.Lists
import NodeSvn.Lib.Store

/-!
# Property tables

    convert_from_map     string_map -> apr_hash_t: the bytes of each key and value are copied
                         to the pool, each with a NUL behind
    client::cat          apr_hash_t -> string_map: reads them again, by their lengths

Both containers are iterated in an order of their own.  What comes back is the map that was
given (`roundTrip`).
-/

namespace NodeSvn

/-! ## Memory -/

/-- A block of the pool or of the heap. -/
inductive MemoryBlock where
  | bytes (b : List UInt8)
  /-- `svn_string_t` -/
  | svnString (data len : Nat)

/-- `n` bytes from `p` on. -/
def readBytes (s : Store MemoryBlock) (p n : Nat) : Option (List UInt8) :=
  match s.read p with
  | some (.bytes b) => if n ≤ b.length then some (b.take n) else none
  | _ => none

/-- `duplicate_string` -/
def duplicateString (string : List UInt8) (s : Store MemoryBlock) : Nat × Store MemoryBlock :=
  s.alloc (.bytes (string ++ [0]))

/-! ## The containers -/

structure HashEntry where
  key : Nat
  klen : Nat
  value : Nat

/-- The hash tables of apr. -/
structure AprHash (H : Type) where
  /-- `apr_hash_make` -/
  make : H
  /-- `apr_hash_set` -/
  set : Store MemoryBlock → H → HashEntry → H
  /-- in the order of `apr_hash_first` and `apr_hash_next` -/
  entries : H → List HashEntry

/-- Keys are compared by their bytes, up to their lengths: another key is another entry. -/
structure AprHash.Lawful {H : Type} (apr : AprHash H) : Prop where
  entries_make : apr.entries apr.make = []
  entries_set : ∀ (s : Store MemoryBlock) (h : H) (e : HashEntry),
    readBytes s e.key e.klen ≠ none →
    (∀ e' ∈ apr.entries h, readBytes s e'.key e'.klen ≠ none ∧
      readBytes s e'.key e'.klen ≠ readBytes s e.key e.klen) →
    (apr.entries (apr.set s h e)).Perm (e :: apr.entries h)

/-- `string_map`, in the order of its iteration. -/
structure StringMap where
  pairs : List (List UInt8 × List UInt8)
  nodup : (pairs.map Prod.fst).Nodup

namespace StringMap

def empty : StringMap := ⟨[], List.nodup_nil⟩

/-- `emplace` leaves a key alone that is there. -/
def emplace (m : StringMap) (key value : List UInt8) : StringMap :=
  if h : key ∈ m.pairs.map Prod.fst then m
  else ⟨(key, value) :: m.pairs, by
    rw [List.map_cons, List.nodup_cons]
    exact ⟨h, m.nodup⟩⟩

/-- `operator==`, which does not see the order. -/
def Equal (m m' : StringMap) : Prop := m.pairs.Perm m'.pairs

end StringMap

/-! ## There and back -/

section Code

variable {H : Type} (apr : AprHash H)

/-- The loop of `convert_from_map`. -/
def setAll : List (List UInt8 × List UInt8) → H → Store MemoryBlock → H × Store MemoryBlock
  | [], result, s => (result, s)
  | (key, value) :: rest, result, s =>
    let (rawKey, s) := duplicateString key s
    let (duplicate, s) := duplicateString value s
    let (rawValue, s) := s.alloc (.svnString duplicate value.length)
    setAll rest (apr.set s result ⟨rawKey, key.length, rawValue⟩) s

/-- `convert_from_map`; `none` is `NULL`. -/
def convertFromMap (map : StringMap) (s : Store MemoryBlock) : Option H × Store MemoryBlock :=
  if map.pairs.length = 0 then (none, s)
  else
    let (result, s) := setAll apr map.pairs apr.make s
    (some result, s)

/-- The loop of `client::cat`; it reads through no pointer that is not valid. -/
def readAll (s : Store MemoryBlock) : List HashEntry → StringMap → Option StringMap
  | [], result => some result
  | index :: rest, result =>
    match readBytes s index.key index.klen, s.read index.value with
    | some key, some (.svnString data len) =>
      match readBytes s data len with
      | some value => readAll s rest (result.emplace key value)
      | none => none
    | _, _ => none

/-- The table, read by `client::cat`. -/
def catProperties (rawProperties : H) (s : Store MemoryBlock) : Option StringMap :=
  readAll s (apr.entries rawProperties) .empty

end Code

/-! ## What the table holds -/

/-- The entry is of this key and this value. -/
def HashEntry.Holds (s : Store MemoryBlock) (e : HashEntry) (p : List UInt8 × List UInt8) : Prop :=
  readBytes s e.key e.klen = some p.1 ∧
    ∃ data, s.read e.value = some (.svnString data p.2.length) ∧
      readBytes s data p.2.length = some p.2

section Laws

variable {H : Type} {apr : AprHash H} {s t : Store MemoryBlock} {h : H} {e : HashEntry}
  {p : List UInt8 × List UInt8} {pairs done : List (List UInt8 × List UInt8)}
  {entries : List HashEntry} {a n : Nat} {b : List UInt8}

theorem readBytes_keeps (hst : s.Keeps t) (hb : readBytes s a n = some b) :
    readBytes t a n = some b := by
  unfold readBytes at hb ⊢
  cases hread : s.read a with
  | none =>
    rw [hread] at hb
    cases hb
  | some block =>
    rw [hread] at hb
    rw [hst.read_some hread]
    exact hb

theorem HashEntry.Holds.keeps (hst : s.Keeps t) (he : e.Holds s p) : e.Holds t p := by
  obtain ⟨hkey, data, hvalue, hdata⟩ := he
  exact ⟨readBytes_keeps hst hkey, data, hst.read_some hvalue, readBytes_keeps hst hdata⟩

/-- The NUL behind is not read. -/
theorem readBytes_duplicate (string : List UInt8)
    (hst : (duplicateString string s).2.Keeps t) :
    readBytes t s.next string.length = some string := by
  refine readBytes_keeps hst ?_
  unfold readBytes duplicateString
  rw [Store.read_alloc_self]
  show (if string.length ≤ (string ++ [0]).length then
    some ((string ++ [0]).take string.length) else none) = _
  rw [List.length_append, if_pos (Nat.le_add_right _ _), List.take_left]

/-- One turn of the loop: the entry holds what was copied. -/
theorem holds_duplicates (key value : List UInt8) (s : Store MemoryBlock) :
    HashEntry.Holds
      ((duplicateString value (duplicateString key s).2).2.alloc
        (.svnString (duplicateString key s).2.next value.length)).2
      ⟨s.next, key.length, (duplicateString value (duplicateString key s).2).2.next⟩
      (key, value) := by
  have hvalue := (Store.Keeps.refl (duplicateString value (duplicateString key s).2).2).alloc
    (.svnString (duplicateString key s).2.next value.length)
  have hkey : (duplicateString key s).2.Keeps _ :=
    (((Store.Keeps.refl (duplicateString key s).2).alloc (.bytes (value ++ [0]))).alloc
      (.svnString (duplicateString key s).2.next value.length))
  exact ⟨readBytes_duplicate key hkey, _, Store.read_alloc_self, readBytes_duplicate value hvalue⟩

/-- In `s` the table has these keys with these values, in some order. -/
def Tabulates (apr : AprHash H) (s : Store MemoryBlock) (h : H)
    (pairs : List (List UInt8 × List UInt8)) : Prop :=
  ∃ w, List.Forall₂ (HashEntry.Holds s) (apr.entries h) w ∧ w.Perm pairs

theorem Tabulates.keeps (hst : s.Keeps t) (ht : Tabulates apr s h pairs) :
    Tabulates apr t h pairs := by
  obtain ⟨w, hw, hperm⟩ := ht
  exact ⟨w, hw.imp fun _ _ => HashEntry.Holds.keeps hst, hperm⟩

/-- A key that the table does not have yet. -/
theorem Tabulates.set (laws : apr.Lawful) (ht : Tabulates apr s h done) (he : e.Holds s p)
    (hp : p.1 ∉ done.map Prod.fst) : Tabulates apr s (apr.set s h e) (p :: done) := by
  obtain ⟨w, hw, hperm⟩ := ht
  have hset : (apr.entries (apr.set s h e)).Perm (e :: apr.entries h) := by
    refine laws.entries_set s h e ?_ ?_
    · rw [he.1]
      exact Option.some_ne_none _
    · intro e' he'
      obtain ⟨p', hp', hholds⟩ := exists_of_forall₂ hw he'
      rw [he.1, hholds.1]
      refine ⟨Option.some_ne_none _, fun heq => hp ?_⟩
      rw [← Option.some.inj heq]
      exact List.mem_map.mpr ⟨p', hperm.subset hp', rfl⟩
  obtain ⟨w', hw', hperm'⟩ := List.perm_comp_forall₂ hset (.cons he hw)
  exact ⟨w', hw', hperm'.trans (hperm.cons p)⟩

/-- The loop adds what is left of the map, and releases nothing. -/
theorem setAll_tabulates (laws : apr.Lawful) (ht : Tabulates apr s h done)
    (hnodup : ((pairs ++ done).map Prod.fst).Nodup) :
    Tabulates apr (setAll apr pairs h s).2 (setAll apr pairs h s).1 (pairs ++ done) := by
  induction pairs generalizing s h done with
  | nil => exact ht
  | cons p rest ih =>
    obtain ⟨key, value⟩ := p
    have hmiddle : (rest ++ (key, value) :: done).Perm ((key, value) :: rest ++ done) :=
      List.perm_middle
    have hkeys : ((rest ++ (key, value) :: done).map Prod.fst).Nodup :=
      (hmiddle.map Prod.fst).nodup_iff.mpr hnodup
    have hnew : key ∉ done.map Prod.fst := by
      intro hmem
      rw [List.cons_append, List.map_cons, List.nodup_cons, List.map_append] at hnodup
      exact hnodup.1 (List.mem_append_right _ hmem)
    have hkeeps := ((((Store.Keeps.refl s).alloc (.bytes (key ++ [0]))).alloc
      (.bytes (value ++ [0]))).alloc (.svnString (duplicateString key s).2.next value.length))
    obtain ⟨w, hw, hperm⟩ :=
      ih ((ht.keeps hkeeps).set laws (holds_duplicates key value s) hnew) hkeys
    exact ⟨w, hw, hperm.trans hmiddle⟩

/-- The loop of `client::cat` adds each entry. -/
theorem readAll_holds {result : StringMap} (hw : List.Forall₂ (HashEntry.Holds t) entries pairs)
    (hnodup : ((pairs ++ result.pairs).map Prod.fst).Nodup) :
    ∃ r, readAll t entries result = some r ∧ r.pairs.Perm (pairs ++ result.pairs) := by
  induction hw generalizing result with
  | nil => exact ⟨result, rfl, .refl _⟩
  | @cons e p entries rest he _ ih =>
    obtain ⟨key, value⟩ := p
    obtain ⟨hkey, data, hvalue, hdata⟩ := he
    have hmiddle : (rest ++ (key, value) :: result.pairs).Perm
        ((key, value) :: rest ++ result.pairs) := List.perm_middle
    have hnew : key ∉ result.pairs.map Prod.fst := by
      intro hmem
      rw [List.cons_append, List.map_cons, List.nodup_cons, List.map_append] at hnodup
      exact hnodup.1 (List.mem_append_right _ hmem)
    have hemplace : (result.emplace key value).pairs = (key, value) :: result.pairs := by
      rw [StringMap.emplace, dif_neg hnew]
    obtain ⟨r, hr, hperm⟩ := @ih (result.emplace key value) (by
      rw [hemplace]
      exact (hmiddle.map Prod.fst).nodup_iff.mpr hnodup)
    rw [hemplace] at hperm
    refine ⟨r, ?_, hperm.trans hmiddle⟩
    rw [readAll, hkey, hvalue]
    show (match readBytes t data value.length with
      | some value => readAll t entries (result.emplace key value)
      | none => none) = some r
    rw [hdata]
    exact hr

/-- What the loop makes of an empty table. -/
theorem AprHash.Lawful.tabulates_setAll {H : Type} {apr : AprHash H} (laws : apr.Lawful)
    (map : StringMap) (s : Store MemoryBlock) :
    Tabulates apr (setAll apr map.pairs apr.make s).2 (setAll apr map.pairs apr.make s).1
      map.pairs := by
  have hempty : Tabulates apr s apr.make [] := by
    refine ⟨[], ?_, .refl _⟩
    rw [laws.entries_make]
    exact .nil
  have hnodup : ((map.pairs ++ []).map Prod.fst).Nodup := by
    rw [List.append_nil]
    exact map.nodup
  have hset := setAll_tabulates laws hempty hnodup
  rwa [List.append_nil] at hset

/-- **A map that is not empty comes back as it was**, from any order of either container. -/
theorem roundTrip {H : Type} (apr : AprHash H) (laws : apr.Lawful) (map : StringMap)
    (hne : map.pairs ≠ []) (s t : Store MemoryBlock)
    (ht : (convertFromMap apr map s).2.Keeps t) :
    ∃ rawProperties result, (convertFromMap apr map s).1 = some rawProperties ∧
      catProperties apr rawProperties t = some result ∧ result.Equal map := by
  have hlength : map.pairs.length ≠ 0 := fun he => hne (List.eq_nil_of_length_eq_zero he)
  have hconvert : convertFromMap apr map s =
      (some (setAll apr map.pairs apr.make s).1, (setAll apr map.pairs apr.make s).2) := by
    unfold convertFromMap
    rw [if_neg hlength]
  rw [hconvert] at ht ⊢
  obtain ⟨w, hw, hperm⟩ := (laws.tabulates_setAll map s).keeps ht
  have hkeys : ((w ++ StringMap.empty.pairs).map Prod.fst).Nodup := by
    show ((w ++ []).map Prod.fst).Nodup
    rw [List.append_nil]
    exact (hperm.map Prod.fst).nodup_iff.mpr map.nodup
  obtain ⟨result, hresult, hequal⟩ := readAll_holds hw hkeys
  refine ⟨_, result, rfl, hresult, hequal.trans ?_⟩
  show (w ++ []).Perm map.pairs
  rw [List.append_nil]
  exact hperm

/-- A table as a list, the newest entry first. -/
def AprHash.list : AprHash (List HashEntry) where
  make := []
  set s h e :=
    if h.any fun e' => readBytes s e'.key e'.klen = readBytes s e.key e.klen then
      h.map fun e' =>
        if readBytes s e'.key e'.klen = readBytes s e.key e.klen then
          { e' with value := e.value }
        else e'
    else e :: h
  entries h := h

theorem AprHash.list_lawful : AprHash.list.Lawful where
  entries_make := rfl
  entries_set s h e _ hother := by
    have hnone : ¬ (h.any fun e' => readBytes s e'.key e'.klen = readBytes s e.key e.klen) := by
      rw [List.any_eq_true]
      rintro ⟨e', he', heq⟩
      exact (hother e' he').2 (of_decide_eq_true heq)
    show (if _ then _ else e :: h : List HashEntry).Perm _
    rw [if_neg hnone]
    exact .refl _

/-- Two keys, one of them empty, and a value with a NUL. -/
def twoProperties : StringMap := ⟨[([], [97, 0, 98]), ([97], [])], by decide⟩

theorem roundTrip_two :
    ∃ rawProperties result,
      (convertFromMap AprHash.list twoProperties Store.empty).1 = some rawProperties ∧
      catProperties AprHash.list rawProperties
        (convertFromMap AprHash.list twoProperties Store.empty).2 = some result ∧
      result.Equal twoProperties :=
  roundTrip AprHash.list AprHash.list_lawful twoProperties (List.cons_ne_nil _ _) Store.empty _
    (.refl _)

end Laws

end NodeSvn
