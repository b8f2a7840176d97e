import NodeSvn.Cpp.Exception

/-!
# The records of libsvn and their conversions

`convert_to_*` of `type_conversion.hpp`.  A `const char*` is the bytes before the NUL, in
whatever encoding they are, or `none` for `NULL`; a pointer to a record is an `Option` of it;
enumerators are cast as numbers.  A `std::string` made of `NULL` throws `std::logic_error`, as
with libstdc++.
-/

namespace NodeSvn

abbrev CStr := Option (List UInt8)

/-- The bits of a type of which platforms have two: `size_t`, `long`. -/
inductive Width where
  | w32
  | w64
  deriving DecidableEq, Repr

/-- `static_cast<int32_t>`, to the range of 2^32 numbers around 0. -/
def toInt32 (n : Int) : Int := Int.bmod n 4294967296

/-- `std::string(const char*)` -/
def stdString : CStr → Except Exn (List UInt8)
  | some s => .ok s
  | none => .error (.logicError "basic_string: construction from null is not valid")

/-- `convert_to_revision_number`; `SVN_INVALID_REVNUM` is -1. -/
def convertToRevisionNumber (value : Int) : Option Int :=
  if value ≠ -1 then some (toInt32 value) else none

structure RawLock where
  path : CStr
  token : CStr
  owner : CStr
  comment : CStr
  isDavComment : Bool
  creationDate : Int
  expirationDate : Int

structure Lock where
  path : CStr
  token : CStr
  owner : CStr
  comment : CStr
  isDavComment : Bool
  creationDate : Int
  expirationDate : Int

def convertToLock (raw : Option RawLock) : Option Lock :=
  raw.map fun raw => {
    comment := raw.comment
    creationDate := raw.creationDate
    expirationDate := raw.expirationDate
    isDavComment := raw.isDavComment
    owner := raw.owner
    path := raw.path
    token := raw.token }

structure RawStatus where
  kind : Int
  localAbspath : CStr
  filesize : Int
  versioned : Bool
  conflicted : Bool
  nodeStatus : Int
  textStatus : Int
  propStatus : Int
  wcIsLocked : Bool
  copied : Bool
  reposRootUrl : CStr
  reposUuid : CStr
  reposRelpath : CStr
  revision : Int
  changedRev : Int
  changedDate : Int
  changedAuthor : CStr
  switched : Bool
  fileExternal : Bool
  lock : Option RawLock
  changelist : CStr
  depth : Int
  oodKind : Int
  reposNodeStatus : Int
  reposTextStatus : Int
  reposPropStatus : Int
  reposLock : Option RawLock
  oodChangedRev : Int
  oodChangedDate : Int
  oodChangedAuthor : CStr
  movedFromAbspath : CStr
  movedToAbspath : CStr

structure Status where
  kind : Int
  localAbspath : CStr
  filesize : Int
  versioned : Bool
  conflicted : Bool
  nodeStatus : Int
  textStatus : Int
  propStatus : Int
  wcIsLocked : Bool
  copied : Bool
  reposRootUrl : CStr
  reposUuid : CStr
  reposRelpath : CStr
  revision : Option Int
  changedRev : Option Int
  changedDate : Int
  changedAuthor : CStr
  switched : Bool
  fileExternal : Bool
  localLock : Option Lock
  changelist : CStr
  nodeDepth : Int
  oodKind : Int
  reposNodeStatus : Int
  reposTextStatus : Int
  reposPropStatus : Int
  reposLock : Option Lock
  oodChangedRev : Int
  oodChangedDate : Int
  oodChangedAuthor : CStr
  movedFromAbspath : CStr
  movedToAbspath : CStr

def convertToStatus : Option RawStatus → Except Exn Status
  | none => .error (.svnTypeError "")
  | some raw => .ok {
      kind := raw.kind
      localAbspath := raw.localAbspath
      filesize := raw.filesize
      versioned := raw.versioned
      conflicted := raw.conflicted
      nodeStatus := raw.nodeStatus
      textStatus := raw.textStatus
      propStatus := raw.propStatus
      wcIsLocked := raw.wcIsLocked
      copied := raw.copied
      reposRootUrl := raw.reposRootUrl
      reposUuid := raw.reposUuid
      reposRelpath := raw.reposRelpath
      revision := convertToRevisionNumber raw.revision
      changedRev := convertToRevisionNumber raw.changedRev
      changedDate := raw.changedDate
      changedAuthor := raw.changedAuthor
      switched := raw.switched
      fileExternal := raw.fileExternal
      localLock := convertToLock raw.lock
      changelist := raw.changelist
      nodeDepth := raw.depth
      oodKind := raw.oodKind
      reposNodeStatus := raw.reposNodeStatus
      reposTextStatus := raw.reposTextStatus
      reposPropStatus := raw.reposPropStatus
      reposLock := convertToLock raw.reposLock
      oodChangedRev := toInt32 raw.oodChangedRev
      oodChangedDate := raw.oodChangedDate
      oodChangedAuthor := raw.oodChangedAuthor
      movedFromAbspath := raw.movedFromAbspath
      movedToAbspath := raw.movedToAbspath }

/-- `svn_checksum_t`; the digest is copied as a pointer. -/
structure Checksum where
  digest : List UInt8
  kind : Int

structure RawWcInfo where
  copyfromUrl : CStr
  copyfromRev : Int
  checksum : Option Checksum
  changelist : CStr
  depth : Int
  recordedSize : Int
  recordedTime : Int
  wcrootAbspath : CStr
  movedFromAbspath : CStr
  movedToAbspath : CStr

structure WorkingCopyInfo where
  copyfromUrl : CStr
  copyfromRev : Int
  nodeChecksum : Option Checksum
  changelist : CStr
  nodeDepth : Int
  recordedSize : Int
  recordedTime : Int
  wcrootAbspath : CStr
  movedFromAbspath : CStr
  movedToAbspath : CStr

def convertToWorkingCopyInfo (raw : Option RawWcInfo) : Option WorkingCopyInfo :=
  raw.map fun raw => {
    copyfromUrl := raw.copyfromUrl
    copyfromRev := toInt32 raw.copyfromRev
    nodeChecksum := raw.checksum
    changelist := raw.changelist
    nodeDepth := raw.depth
    recordedSize := raw.recordedSize
    recordedTime := raw.recordedTime
    wcrootAbspath := raw.wcrootAbspath
    movedFromAbspath := raw.movedFromAbspath
    movedToAbspath := raw.movedToAbspath }

structure RawInfo where
  url : CStr
  rev : Int
  reposRootUrl : CStr
  reposUuid : CStr
  kind : Int
  size : Int
  lastChangedRev : Int
  lastChangedDate : Int
  lastChangedAuthor : CStr
  lock : Option RawLock
  wcInfo : Option RawWcInfo

structure Info where
  url : CStr
  revision : Int
  reposRootUrl : CStr
  reposUuid : CStr
  kind : Int
  size : Int
  lastChangedRevision : Int
  lastChangedDate : Int
  lastChangedAuthor : CStr
  nodeLock : Option Lock
  wcInfo : Option WorkingCopyInfo

def convertToInfo : Option RawInfo → Except Exn Info
  | none => .error (.svnTypeError "")
  | some raw => .ok {
      url := raw.url
      revision := toInt32 raw.rev
      reposRootUrl := raw.reposRootUrl
      reposUuid := raw.reposUuid
      kind := raw.kind
      size := raw.size
      lastChangedRevision := toInt32 raw.lastChangedRev
      lastChangedDate := raw.lastChangedDate
      lastChangedAuthor := raw.lastChangedAuthor
      nodeLock := convertToLock raw.lock
      wcInfo := convertToWorkingCopyInfo raw.wcInfo }

structure RawCommitInfo where
  revision : Int
  date : CStr
  author : CStr
  postCommitErr : CStr
  reposRoot : CStr

/-- `date` and `author` are `std::string`s here. -/
structure CommitInfo where
  revision : Int
  date : List UInt8
  author : List UInt8
  postCommitError : CStr
  reposRoot : CStr

def convertToCommitInfo : Option RawCommitInfo → Except Exn CommitInfo
  | none => .error (.svnTypeError "")
  | some raw => do
    let date ← stdString raw.date
    let author ← stdString raw.author
    return ⟨toInt32 raw.revision, date, author, raw.postCommitErr, raw.reposRoot⟩

structure RawNotify where
  action : Int
  path : List UInt8
  revision : Int

structure NotifyInfo where
  action : Int
  path : List UInt8
  revision : Option Int

/-- `svn_log_entry_t`, with what `svn_compat_log_revprops_out` finds in its `revprops`. -/
structure RawLogEntry where
  revision : Int
  author : CStr
  date : CStr
  message : CStr
  hasChildren : Bool
  nonInheritable : Bool
  subtractiveMerge : Bool

/-- `svn::log_entry`; `invoke_log` leaves `revprops` and `changed_paths` empty. -/
structure LogEntry where
  revision : Int
  author : CStr
  date : CStr
  message : CStr
  hasChildren : Bool
  nonInheritable : Bool
  subtractiveMerge : Bool

structure RawBlame where
  startRevnum : Int
  endRevnum : Int
  lineNo : Int
  revision : Int
  mergedRevision : Int
  mergedPath : CStr
  line : CStr
  localChange : Bool

/-- The arguments of `svn::client::blame_callback`. -/
structure BlameLine where
  startRevision : Int
  endRevision : Int
  lineNumber : Int
  revision : Option Int
  mergedRevision : Option Int
  mergedPath : CStr
  line : CStr
  localChange : Bool

structure SimpleAuth where
  username : String
  password : String
  maySave : Bool
  deriving DecidableEq, Repr

/-- The record reaches the callback: it is there, with its date and its author. -/
theorem convertToCommitInfo_ok_iff (raw : Option RawCommitInfo) :
    (∃ info, convertToCommitInfo raw = .ok info) ↔
      ∃ r, raw = some r ∧ r.date.isSome = true ∧ r.author.isSome = true := by
  constructor
  · rintro ⟨info, h⟩
    match raw with
    | none => cases h
    | some r =>
      refine ⟨r, rfl, ?_⟩
      cases hd : r.date <;> cases ha : r.author <;>
        simp [convertToCommitInfo, stdString, hd, ha, bind, Except.bind] at h ⊢
  · rintro ⟨r, rfl, hd, ha⟩
    obtain ⟨date, hd⟩ := Option.isSome_iff_exists.mp hd
    obtain ⟨author, ha⟩ := Option.isSome_iff_exists.mp ha
    exact ⟨⟨toInt32 r.revision, date, author, r.postCommitErr, r.reposRoot⟩, by
      simp [convertToCommitInfo, stdString, hd, ha, bind, Except.bind, pure, Except.pure]⟩

theorem convertToStatus_ok_iff (raw : Option RawStatus) :
    (∃ status, convertToStatus raw = .ok status) ↔ raw.isSome = true := by
  cases raw <;> simp [convertToStatus]

theorem convertToInfo_ok_iff (raw : Option RawInfo) :
    (∃ info, convertToInfo raw = .ok info) ↔ raw.isSome = true := by
  cases raw <;> simp [convertToInfo]

end NodeSvn
