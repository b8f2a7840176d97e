import Mathlib.Data.List.Forall2
import NodeSvn.Cpp.Trampoline
import NodeSvn.Lib.Lists
import NodeSvn.Node.Data
import NodeSvn.Node.Dates

/-!
# What libsvn reports, and the items made of it

    trampoline      raw record -> svn:: struct, or the arguments of a callback
    callback        result[name] = value, for each property of the item
    operator=       no::data(value), for what is no v8::Local
    checkout        no::data(revision), which is no item

`Report.sources` says, in the order of the properties, what libsvn reported for each;
`Report.carries` that the callback assigns just that, narrowed to the types on the way.
-/

namespace NodeSvn

/-! ## Items -/

/-- The value of a property. -/
inductive Property where
  | data (d : JsData)
  /-- a `Date`, by its `valueOf` -/
  | date (ms : JsNumber)
  deriving DecidableEq

/-- The right side of `result[name] = value`. -/
inductive Assigned where
  /-- goes through `no::data` -/
  | data (v : CppValue)
  /-- `convert_to_date(context, value)` -/
  | date (value : Int)

section Items

variable (newFromUtf8 : NewFromUtf8) (fuel : Nat)

/-- `result[name] = value`; `DefineOwnProperty` succeeds on a new object. -/
def assign (a : String × Assigned) : PathM (String × Property) :=
  match a.2 with
  | .data v => do
    let d ← noData newFromUtf8 fuel v
    return (a.1, .data d)
  | .date value => pure (a.1, .date (convertToDate value))

def makeItem (assignments : List (String × Assigned)) : PathM (List (String × Property)) :=
  assignments.mapM (assign newFromUtf8 fuel)

end Items

/-! ## The callbacks -/

/-- The `callback` of `client::status`. -/
def statusItem (path : List UInt8) (rawStatus : Status) : List (String × Assigned) := [
  ("path", .data (.stdString path)),
  ("changelist", .data (.charPointer rawStatus.changelist)),
  ("changed_author", .data (.charPointer rawStatus.changedAuthor)),
  ("changed_date", .date rawStatus.changedDate),
  ("changed_rev", .data (.optionalInt32 rawStatus.changedRev)),
  ("conflicted", .data (.bool rawStatus.conflicted)),
  ("copied", .data (.bool rawStatus.copied)),
  ("depth", .data (.int32 rawStatus.nodeDepth)),
  ("file_external", .data (.bool rawStatus.fileExternal)),
  ("kind", .data (.int32 rawStatus.kind)),
  ("node_status", .data (.int32 rawStatus.nodeStatus)),
  ("prop_status", .data (.int32 rawStatus.propStatus)),
  ("revision", .data (.optionalInt32 rawStatus.revision)),
  ("text_status", .data (.int32 rawStatus.textStatus)),
  ("versioned", .data (.bool rawStatus.versioned))]

/-- The `callback` of `client::info`. -/
def infoItem (path : CStr) (rawInfo : Info) : List (String × Assigned) := [
  ("path", .data (.charPointer path)),
  ("kind", .data (.int32 rawInfo.kind)),
  ("last_changed_author", .data (.charPointer rawInfo.lastChangedAuthor)),
  ("last_changed_date", .date rawInfo.lastChangedDate),
  ("last_changed_revision", .data (.int32 rawInfo.lastChangedRevision)),
  ("repos_root_url", .data (.charPointer rawInfo.reposRootUrl)),
  ("repos_root_uuid", .data (.charPointer rawInfo.reposUuid)),
  ("url", .data (.charPointer rawInfo.url))]

/-- The `callback` of `client::commit`; `notifyPath` is what the read of `notify_path` gives. -/
def commitItem (notifyPath : List UInt8) (info : CommitInfo) : List (String × Assigned) := [
  ("action", .data (.int32 79)),
  ("path", .data (.stdString notifyPath)),
  ("revision", .data (.int32 info.revision)),
  ("date", .data (.stdString info.date)),
  ("author", .data (.stdString info.author)),
  ("post_commit_error", .data (.charPointer info.postCommitError)),
  ("repos_root", .data (.charPointer info.reposRoot))]

/-- `convert_commit_callback`, for `client::remove`. -/
def removeItem (rawCommit : CommitInfo) : List (String × Assigned) := [
  ("author", .data (.stdString rawCommit.author)),
  ("date", .data (.stdString rawCommit.date)),
  ("repos_root", .data (.charPointer rawCommit.reposRoot)),
  ("revision", .data (.int32 rawCommit.revision)),
  ("post_commit_error", .data (.charPointer rawCommit.postCommitError))]

/-- The `callback` of `client::log`. -/
def logItem (entry : LogEntry) : List (String × Assigned) := [
  ("revision", .data (.int32 entry.revision)),
  ("non_inheritable", .data (.bool entry.nonInheritable)),
  ("subtractive_merge", .data (.bool entry.subtractiveMerge)),
  ("author", .data (.charPointer entry.author)),
  ("date", .data (.charPointer entry.date)),
  ("message", .data (.charPointer entry.message))]

/-- The `callback` of `client::blame`. -/
def blameItem (l : BlameLine) : List (String × Assigned) := [
  ("start_revision", .data (.int32 l.startRevision)),
  ("end_revision", .data (.int32 l.endRevision)),
  ("line_number", .data (.int64 l.lineNumber)),
  ("revision", .data (.optionalInt32 l.revision)),
  ("merged_revision", .data (.optionalInt32 l.mergedRevision)),
  ("merged_path", .data (.charPointer l.mergedPath)),
  ("line", .data (.charPointer l.line)),
  ("local_change", .data (.bool l.localChange))]

/-- `notify` of `client::update`. -/
def updateItem (info : NotifyInfo) : List (String × Assigned) := [
  ("action", .data (.int32 info.action)),
  ("path", .data (.stringView info.path)),
  ("revision", .data (.optionalInt32 info.revision))]

/-! ## The reports -/

/-- A call by libsvn of which an item is made. -/
inductive Report where
  | status (path : CStr) (raw : RawStatus)
  | info (path : CStr) (raw : RawInfo)
  | commit (notifyPath : List UInt8) (raw : RawCommitInfo)
  | remove (raw : RawCommitInfo)
  | log (raw : RawLogEntry)
  | blame (raw : RawBlame)
  | update (raw : RawNotify)

namespace Report

/-- The trampoline and the callback.  That of `client::status` takes a `std::string`. -/
def assigned : Report → Except Exn (List (String × Assigned))
  | status path raw => do
    let rawStatus ← convertToStatus (some raw)
    let path ← stdString path
    return statusItem path rawStatus
  | info path raw => (convertToInfo (some raw)).map (infoItem path)
  | commit notifyPath raw => (convertToCommitInfo (some raw)).map (commitItem notifyPath)
  | remove raw => (convertToCommitInfo (some raw)).map removeItem
  | log raw => .ok (logItem (.ofRaw raw))
  | blame raw => .ok (blameItem (.ofRaw raw))
  | update raw =>
    .ok (updateItem ⟨raw.action, raw.path, convertToRevisionNumber raw.revision⟩)

/-- Up to the `yield` of the item. -/
def deliver (newFromUtf8 : NewFromUtf8) (fuel : Nat) (r : Report) :
    PathM (List (String × Property)) :=
  match r.assigned with
  | .ok assignments => makeItem newFromUtf8 fuel assignments
  | .error e => ExceptT.mk (some (.error (.thrown e)))

end Report

/-- What `client::checkout` resolves with; `client.cpp` casts the revision. -/
def checkoutResult (newFromUtf8 : NewFromUtf8) (fuel : Nat)
    (resultRev : Int) : PathM JsData :=
  noData newFromUtf8 fuel (.int32 (toInt32 resultRev))

/-- What libsvn reports for a property. -/
inductive Source where
  | text (raw : CStr)
  | flag (b : Bool)
  | enumerator (n : Int)
  | time (t : Int)
  | revision (n : Int)
  /-- `SVN_INVALID_REVNUM` is that there is none -/
  | optionalRevision (n : Int)
  | line (n : Int)

def Report.sources : Report → List (String × Source)
  | .status path raw => [
    ("path", .text path),
    ("changelist", .text raw.changelist),
    ("changed_author", .text raw.changedAuthor),
    ("changed_date", .time raw.changedDate),
    ("changed_rev", .optionalRevision raw.changedRev),
    ("conflicted", .flag raw.conflicted),
    ("copied", .flag raw.copied),
    ("depth", .enumerator raw.depth),
    ("file_external", .flag raw.fileExternal),
    ("kind", .enumerator raw.kind),
    ("node_status", .enumerator raw.nodeStatus),
    ("prop_status", .enumerator raw.propStatus),
    ("revision", .optionalRevision raw.revision),
    ("text_status", .enumerator raw.textStatus),
    ("versioned", .flag raw.versioned)]
  | .info path raw => [
    ("path", .text path),
    ("kind", .enumerator raw.kind),
    ("last_changed_author", .text raw.lastChangedAuthor),
    ("last_changed_date", .time raw.lastChangedDate),
    ("last_changed_revision", .revision raw.lastChangedRev),
    ("repos_root_url", .text raw.reposRootUrl),
    ("repos_root_uuid", .text raw.reposUuid),
    ("url", .text raw.url)]
  | .commit notifyPath raw => [
    ("action", .enumerator 79),
    ("path", .text (some notifyPath)),
    ("revision", .revision raw.revision),
    ("date", .text raw.date),
    ("author", .text raw.author),
    ("post_commit_error", .text raw.postCommitErr),
    ("repos_root", .text raw.reposRoot)]
  | .remove raw => [
    ("author", .text raw.author),
    ("date", .text raw.date),
    ("repos_root", .text raw.reposRoot),
    ("revision", .revision raw.revision),
    ("post_commit_error", .text raw.postCommitErr)]
  | .log raw => [
    ("revision", .revision raw.revision),
    ("non_inheritable", .flag raw.nonInheritable),
    ("subtractive_merge", .flag raw.subtractiveMerge),
    ("author", .text raw.author),
    ("date", .text raw.date),
    ("message", .text raw.message)]
  | .blame raw => [
    ("start_revision", .revision raw.startRevnum),
    ("end_revision", .revision raw.endRevnum),
    ("line_number", .line raw.lineNo),
    ("revision", .optionalRevision raw.revision),
    ("merged_revision", .optionalRevision raw.mergedRevision),
    ("merged_path", .text raw.mergedPath),
    ("line", .text raw.line),
    ("local_change", .flag raw.localChange)]
  | .update raw => [
    ("action", .enumerator raw.action),
    ("path", .text (some raw.path)),
    ("revision", .optionalRevision raw.revision)]

end NodeSvn
