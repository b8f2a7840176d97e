import NodeSvn.Cpp.Properties
import NodeSvn.Cpp.Trampoline

/-!
# `client::cat`

    svn_client_cat3        writes the file to a stream, chunk by chunk, and makes a table of its
                           properties
    invoke_cat_callback    inserts the chunk at the end of a vector
    client::cat            copies the table

The result is the file, wherever libsvn cuts it (`CatRun.cat_ok`).  A vector that cannot grow
ends the writes; its exception is thrown in place of libsvn's error (`CatRun.cat_throws`).
-/

namespace NodeSvn

/-- A table that libsvn made, with the pairs that are in it. -/
structure PropertyTable {H : Type} (apr : AprHash H) where
  memory : Store MemoryBlock
  table : H
  pairs : List (List UInt8 × List UInt8)
  tabulates : Tabulates apr memory table pairs
  nodup : (pairs.map Prod.fst).Nodup

/-- The table that `convert_from_map` makes. -/
def PropertyTable.ofMap {H : Type} {apr : AprHash H} (laws : apr.Lawful) (map : StringMap) :
    PropertyTable apr where
  memory := (setAll apr map.pairs apr.make Store.empty).2
  table := (setAll apr map.pairs apr.make Store.empty).1
  pairs := map.pairs
  tabulates := laws.tabulates_setAll map Store.empty
  nodup := map.nodup

/-- What `svn_client_cat3` writes, and how it ends if no write fails. -/
structure CatRun {H : Type} (apr : AprHash H) where
  chunks : List (List UInt8)
  result : Except SvnError (PropertyTable apr)

section Code

-- `cancelled` is `SVN_ERR_CANCELLED`; `grows i` tells if there is memory at the i-th write.
variable {H : Type} {apr : AprHash H} (cancelled : SvnError) (grows : Nat → Bool)

/-- `content.insert(content.end(), data, end)` -/
def insertEnd (i : Nat) (data content : List UInt8) : Except Exn (List UInt8) :=
  if grows i then .ok (content ++ data) else .error (.other "std::bad_alloc")

/-- The writes from the i-th on, each of which calls `invoke_cat_callback`. -/
def catWrites (i : Nat) (chunks : List (List UInt8)) (content : List UInt8) (d : CallbackData) :
    Option SvnError × List UInt8 × CallbackData :=
  match chunks with
  | [] => (none, content, d)
  | data :: rest =>
    match insertEnd grows i data content with
    | .ok content => catWrites (i + 1) rest content (d.invoke cancelled (.ok ())).2
    | .error e =>
      let (error, d) := d.invoke cancelled (.error e)
      (error, content, d)

/-- `svn_client_cat3` returns the error of a write. -/
def svnClientCat (c : CatRun apr) :
    Except SvnError (PropertyTable apr) × List UInt8 × CallbackData :=
  match catWrites cancelled grows 0 c.chunks [] .create with
  | (some error, content, d) => (.error error, content, d)
  | (none, content, d) => (c.result, content, d)

/-- `client::cat`, both of them. -/
def CatRun.cat (c : CatRun apr) : Except Exn (List UInt8 × StringMap) := do
  let (result, content, d) := svnClientCat cancelled grows c
  d.checkResult (match result with
    | .error raw => some raw
    | .ok _ => none)
  let raw ← result.mapError .svnError
  match catProperties apr raw.table raw.memory with
  | some properties => return (content, properties)
  -- never: see `PropertyTable.catProperties_eq`
  | none => .error (.logicError "")

end Code

/-! ## The file -/

section File

variable {H : Type} {apr : AprHash H} {cancelled : SvnError} {grows : Nat → Bool}

/-- All of the table is read, in some order. -/
theorem PropertyTable.catProperties_eq (p : PropertyTable apr) :
    ∃ properties, catProperties apr p.table p.memory = some properties ∧
      properties.pairs.Perm p.pairs := by
  obtain ⟨w, hw, hperm⟩ := p.tabulates
  have hkeys : ((w ++ StringMap.empty.pairs).map Prod.fst).Nodup := by
    show ((w ++ []).map Prod.fst).Nodup
    rw [List.append_nil]
    exact (hperm.map Prod.fst).nodup_iff.mpr p.nodup
  obtain ⟨properties, hread, hequal⟩ := readAll_holds hw hkeys
  refine ⟨properties, hread, hequal.trans ?_⟩
  show (w ++ []).Perm p.pairs
  rw [List.append_nil]
  exact hperm

theorem catWrites_ok {i : Nat} {chunks : List (List UInt8)} (content : List UInt8)
    (d : CallbackData) (h : ∀ j, i ≤ j → j < i + chunks.length → grows j = true) :
    catWrites cancelled grows i chunks content d = (none, content ++ chunks.flatten, d) := by
  induction chunks generalizing i content with
  | nil => rw [catWrites, List.flatten_nil, List.append_nil]
  | cons data rest ih =>
    rw [List.length_cons] at h
    have hgrows : grows i = true := h i (Nat.le_refl i) (by omega)
    have hrest := ih (i := i + 1) (content ++ data)
      fun j hle hlt => h j (by omega) (by omega)
    rw [catWrites, insertEnd, if_pos hgrows]
    show catWrites cancelled grows (i + 1) rest (content ++ data) d = _
    rw [hrest, List.flatten_cons, List.append_assoc]

/-- The first write that finds no memory is the last. -/
theorem catWrites_fails (cancelled : SvnError) {i j : Nat} {chunks : List (List UInt8)}
    (content : List UInt8) (d : CallbackData) (hle : i ≤ j) (hlt : j < i + chunks.length)
    (hj : grows j = false) :
    ∃ content', catWrites cancelled grows i chunks content d =
      (some cancelled, content', ⟨some (.other "std::bad_alloc")⟩) := by
  induction chunks generalizing i content with
  | nil =>
    rw [List.length_nil] at hlt
    omega
  | cons data rest ih =>
    rw [List.length_cons] at hlt
    by_cases hgrows : grows i = true
    · have hne : i ≠ j := by
        rintro rfl
        rw [hj] at hgrows
        cases hgrows
      obtain ⟨content', hrest⟩ := ih (i := i + 1) (content ++ data) (by omega) (by omega)
      refine ⟨content', ?_⟩
      rw [catWrites, insertEnd, if_pos hgrows]
      exact hrest
    · refine ⟨content, ?_⟩
      rw [catWrites, insertEnd, if_neg hgrows]
      rfl

/-- **Where libsvn cuts the file does not matter.** -/
theorem CatRun.cat_ok (cancelled : SvnError) (c : CatRun apr)
    (h : ∀ i < c.chunks.length, grows i = true) :
    match c.result with
    | .error raw => c.cat cancelled grows = .error (.svnError raw)
    | .ok table => ∃ properties, properties.pairs.Perm table.pairs ∧
        c.cat cancelled grows = .ok (c.chunks.flatten, properties) := by
  have hwrites : svnClientCat cancelled grows c = (c.result, c.chunks.flatten, .create) := by
    unfold svnClientCat
    rw [catWrites_ok [] .create fun j _ hj => h j (by omega)]
    rfl
  unfold CatRun.cat
  rw [hwrites]
  cases c.result with
  | error raw => rfl
  | ok table =>
    obtain ⟨properties, hread, hperm⟩ := table.catProperties_eq
    refine ⟨properties, hperm, ?_⟩
    show (match catProperties apr table.table table.memory with
      | some properties => Except.ok (c.chunks.flatten, properties)
      | none => Except.error (Exn.logicError "")) = _
    rw [hread]

/-- The exception of the vector, whatever libsvn would have returned. -/
theorem CatRun.cat_throws (c : CatRun apr) {i : Nat} (hi : i < c.chunks.length)
    (h : grows i = false) : c.cat cancelled grows = .error (.other "std::bad_alloc") := by
  obtain ⟨content, hwrites⟩ := catWrites_fails cancelled [] CallbackData.create (Nat.zero_le i)
    (show i < 0 + c.chunks.length by omega) h
  unfold CatRun.cat svnClientCat
  rw [hwrites]
  rfl

end File

end NodeSvn
