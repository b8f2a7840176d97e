import NodeSvn.Lib.Except
import NodeSvn.Lib.Store
import NodeSvn.Cpp.Records

/-!
# String arguments on their way to libsvn

`check_string`, `convert_from_string`, `convert_from_path` and both overloads of
`convert_from_vector`, over a store in which each turn of the loop allocates the copy of
its string (`auto item`) and releases it at the end.  What libsvn allocates is in the
pool, and nothing here releases that.

    path = true     the array points to what `svn_dirent_get_absolute` put into the pool
    path = false    the array points into the copies, and all of them are gone

So the array reads as the strings exactly if `path` is true, or if there are none
(`reads_iff_path`).
-/

namespace NodeSvn

/-- `check_string` -/
def checkString (value : String) : Except Exn Unit :=
  if value.length = 0 then .error (.svnTypeError "")
  else if Char.ofNat 0 ∈ value.toList then .error (.svnTypeError "")
  else .ok ()

/-- What the conversions use of libsvn. -/
structure SvnPaths where
  /-- `svn_path_is_url` -/
  isUrl : String → Bool
  /-- `svn_dirent_get_absolute`: the path that it puts into the pool, or its error. -/
  getAbsolute : String → Except SvnError String

/-- A `std::string`: its characters, and the block that they are in. -/
structure StdString where
  chars : String
  data : Nat

/-- `std::string` copied; its characters are in a block of their own. -/
def StdString.copy (chars : String) (s : Store String) : StdString × Store String :=
  (⟨chars, (s.alloc chars).1⟩, (s.alloc chars).2)

/-- `convert_from_string`: the pointer is `value.c_str()`. -/
def convertFromString (value : StdString) : Except Exn Nat := do
  checkString value.chars
  return value.data

variable (paths : SvnPaths)

/-- `convert_from_path` -/
def convertFromPath (value : StdString) (s : Store String) : Except Exn (Nat × Store String) := do
  let _raw ← convertFromString value
  if paths.isUrl value.chars then .error (.svnTypeError "")
  else
    match paths.getAbsolute value.chars with
    | .ok absolute => .ok (s.alloc absolute)
    | .error e => .error (.svnError e)

variable (path : Bool)

/-- `path ? convert_from_path(item, pool) : convert_from_string(item)` -/
def convertCopy (item : StdString) (s : Store String) : Except Exn (Nat × Store String) :=
  if path then convertFromPath paths item s
  else (convertFromString item).map fun raw => (raw, s)

/-- One turn of the loop of `convert_from_vector`. -/
def convertItem (item : String) (s : Store String) : Except Exn (Nat × Store String) := do
  let (copy, s) := StdString.copy item s
  let (converted, s) ← convertCopy paths path copy s
  return (converted, s.release copy.data)

/-- The loop of `convert_from_vector`: the elements of the array. -/
def convertItems : List String → Store String → Except Exn (List Nat × Store String)
  | [], s => return ([], s)
  | item :: rest, s => do
    let (converted, s) ← convertItem paths path item s
    let (more, s) ← convertItems rest s
    return (converted :: more, s)

/-- `convert_from_vector` of a vector. -/
def convertFromVector (value : List String) (s : Store String) :
    Except Exn (Option (List Nat) × Store String) :=
  if value.length = 0 then throw (.svnTypeError "")
  else do
    let (array, s) ← convertItems paths path value s
    return (some array, s)

/-- `convert_from_vector` of an optional vector; `none` is `NULL`. -/
def convertFromVectorOptional (value : Option (List String)) (s : Store String) :
    Except Exn (Option (List Nat) × Store String) :=
  match value with
  | none => return (none, s)
  | some value =>
    if value.length = 0 then return (none, s)
    else do
      let (array, s) ← convertItems paths path value s
      return (some array, s)

/-! ## What libsvn reads -/

/-- How the argument is meant: as it is, or in its absolute form. -/
def meant (value : String) : Option String :=
  if path then (paths.getAbsolute value).toOption else some value

/-- In `s` the array, `NULL` for none, has the strings `value`, one for one. -/
def Reads (s : Store String) (array : Option (List Nat)) (value : List String) : Prop :=
  (array.getD []).map s.read = value.map (meant paths path)

/-! ## One turn of the loop -/

section Items

variable {paths path} {s t : Store String} {item : String} {p : Nat}

theorem convertFromString_ok {value : StdString} (h : convertFromString value = .ok p) :
    p = value.data := by
  unfold convertFromString at h
  obtain ⟨_, -, h⟩ := Except.bind_eq_ok_iff.mp h
  exact (Except.pure_eq_ok_iff.mp h).symm

theorem convertFromPath_ok {value : StdString}
    (h : convertFromPath paths value s = .ok (p, t)) :
    ∃ absolute, paths.getAbsolute value.chars = .ok absolute ∧ s.alloc absolute = (p, t) := by
  unfold convertFromPath at h
  obtain ⟨_, -, h⟩ := Except.bind_eq_ok_iff.mp h
  split at h
  · cases h
  · cases ha : paths.getAbsolute value.chars with
    | error e =>
      rw [ha] at h
      cases h
    | ok absolute =>
      rw [ha] at h
      exact ⟨absolute, rfl, Except.ok.inj h⟩

/-- What the pointer of one turn reads as, once the turn is over: with `path` it is to the
absolute path in the pool, without to the copy, and that is gone. -/
def stored (paths : SvnPaths) (path : Bool) (item : String) : Option String :=
  if path then meant paths path item else none

theorem convertItem_ok (h : convertItem paths path item s = .ok (p, t)) :
    s.Keeps t ∧ p < t.next ∧ t.read p = stored paths path item := by
  unfold convertItem at h
  obtain ⟨⟨q, u⟩, hq, h⟩ := Except.bind_eq_ok_iff.mp h
  obtain ⟨rfl, rfl⟩ := Prod.mk.inj (Except.pure_eq_ok_iff.mp h)
  have hcopy := (Store.Keeps.refl s).alloc item
  unfold convertCopy at hq
  cases path with
  | true =>
    obtain ⟨absolute, ha, hu⟩ := convertFromPath_ok hq
    obtain ⟨rfl, rfl⟩ := Prod.mk.inj hu
    refine ⟨(hcopy.alloc absolute).release (Nat.le_refl _), Nat.lt_succ_self _, ?_⟩
    have hne : (s.alloc item).2.next ≠ s.next := Nat.succ_ne_self _
    have ha : paths.getAbsolute item = .ok absolute := ha
    rw [stored, if_pos rfl, meant, if_pos rfl, ha]
    exact (Store.read_release_of_ne hne).trans Store.read_alloc_self
  | false =>
    obtain ⟨raw, hraw, hu⟩ := Except.map_eq_ok_iff.mp hq
    obtain rfl := convertFromString_ok hraw
    obtain ⟨rfl, rfl⟩ := Prod.mk.inj hu
    exact ⟨hcopy.release (Nat.le_refl _), Nat.lt_succ_self _, Store.read_release_self⟩

/-! ## The loop -/

/-- What the array reads as, at the end of the loop and while nothing of the pool is
released. -/
theorem convertItems_ok {value : List String} {array : List Nat}
    (h : convertItems paths path value s = .ok (array, t)) :
    s.Keeps t ∧ ∀ u, t.Keeps u → array.map u.read = value.map (stored paths path) := by
  induction value generalizing s array with
  | nil =>
    obtain ⟨rfl, rfl⟩ := Prod.mk.inj (Except.pure_eq_ok_iff.mp h)
    exact ⟨.refl _, fun _ _ => rfl⟩
  | cons item rest ih =>
    rw [convertItems] at h
    obtain ⟨⟨p, v⟩, hp, h⟩ := Except.bind_eq_ok_iff.mp h
    obtain ⟨⟨more, w⟩, hmore, h⟩ := Except.bind_eq_ok_iff.mp h
    obtain ⟨rfl, rfl⟩ := Prod.mk.inj (Except.pure_eq_ok_iff.mp h)
    obtain ⟨hsv, hlt, hread⟩ := convertItem_ok hp
    obtain ⟨hvt, hmap⟩ := ih hmore
    refine ⟨hsv.trans hvt, fun u hu => ?_⟩
    -- the later turns leave what this one stored
    rw [List.map_cons, List.map_cons, (hvt.trans hu).read p hlt, hread, hmap u hu]

theorem stored_eq_meant_iff {value : List String} :
    value.map (stored paths path) = value.map (meant paths path) ↔ path = true ∨ value = [] := by
  cases path with
  | true => exact ⟨fun _ => .inl rfl, fun _ => rfl⟩
  | false =>
    cases value with
    | nil => exact ⟨fun _ => .inr rfl, fun _ => rfl⟩
    | cons item rest => simp [stored, meant]

end Items

/-- **Where libsvn reads the array, it has the strings exactly with `path`, or if there are
none.** -/
theorem reads_iff_path (paths : SvnPaths) (path : Bool) (s t u : Store String)
    (array : Option (List Nat)) (hu : t.Keeps u) :
    (∀ value, convertFromVector paths path value s = .ok (array, t) →
      (Reads paths path u array value ↔ path = true)) ∧
    (∀ value, convertFromVectorOptional paths path value s = .ok (array, t) →
      (Reads paths path u array (value.getD []) ↔ path = true ∨ value.getD [] = [])) := by
  constructor
  · intro value h
    unfold convertFromVector at h
    split at h
    · cases h
    · rename_i hne
      obtain ⟨⟨items, v⟩, hitems, h⟩ := Except.bind_eq_ok_iff.mp h
      obtain ⟨rfl, rfl⟩ := Prod.mk.inj (Except.pure_eq_ok_iff.mp h)
      have hvalue : value ≠ [] := fun he => hne (he ▸ rfl)
      rw [Reads, Option.getD_some, (convertItems_ok hitems).2 u hu, stored_eq_meant_iff]
      exact or_iff_left hvalue
  · intro value h
    unfold convertFromVectorOptional at h
    split at h
    · obtain ⟨rfl, rfl⟩ := Prod.mk.inj (Except.pure_eq_ok_iff.mp h)
      exact ⟨fun _ => .inr rfl, fun _ => rfl⟩
    · rename_i value
      split at h
      · rename_i hnil
        obtain rfl : value = [] := List.eq_nil_of_length_eq_zero hnil
        obtain ⟨rfl, rfl⟩ := Prod.mk.inj (Except.pure_eq_ok_iff.mp h)
        exact ⟨fun _ => .inr rfl, fun _ => rfl⟩
      · obtain ⟨⟨items, v⟩, hitems, h⟩ := Except.bind_eq_ok_iff.mp h
        obtain ⟨rfl, rfl⟩ := Prod.mk.inj (Except.pure_eq_ok_iff.mp h)
        rw [Reads, Option.getD_some, Option.getD_some, (convertItems_ok hitems).2 u hu]
        exact stored_eq_meant_iff

/-- No URLs, and each path relative to `/`. -/
def rootPaths : SvnPaths := ⟨fun _ => false, fun path => .ok ("/" ++ path)⟩

/-- Two paths. -/
theorem reads_iff_path_two :
    ∃ array t, convertFromVector rootPaths true ["a", "b"] Store.empty = .ok (some array, t) ∧
      Reads rootPaths true t (some array) ["a", "b"] :=
  ⟨_, _, rfl, ((reads_iff_path rootPaths true Store.empty _ _ _ (.refl _)).1 _ rfl).mpr rfl⟩

/-- One changelist: the array has one element, and that cannot be read. -/
theorem not_reads_changelists :
    ¬ ∀ (paths : SvnPaths) (path : Bool) (s t u : Store String) (array : Option (List Nat)),
        t.Keeps u →
      (∀ value, convertFromVector paths path value s = .ok (array, t) →
        Reads paths path u array value) ∧
      (∀ value, convertFromVectorOptional paths path value s = .ok (array, t) →
        Reads paths path u array (value.getD [])) := by
  intro h
  have hr := (h rootPaths false Store.empty _ _ _ (.refl _)).2 (some ["a"]) rfl
  cases hr

end NodeSvn
