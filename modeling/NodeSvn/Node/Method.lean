import NodeSvn.Cpp.Trampoline

/-!
# The methods of `no::client` that queue work

Each runs the operation of `svn::client` of its name.  They are written in two ways: with
the macros (`METHOD_BEGIN`, `ASYNC_BEGIN`), whose closures capture `this`, and by hand,
with closures that also capture `keep_alive`, a `shared_ptr` of the client.
-/

namespace NodeSvn

abbrev Method := ClientOperation

/-- The method returns `iterable->get()`; the others return a promise. -/
def Method.iterates : Method → Bool
  | .getChangelists => true
  | .blame => true
  | .commit => true
  | .info => true
  | .log => true
  | .remove => true
  | .status => true
  | .update => true
  | _ => false

/-- The work's closure captures `keep_alive`. -/
def Method.keepsAlive : Method → Bool
  | .addToChangelist => true
  | .removeFromChangelists => false
  | .add => false
  | .cat => false
  | .checkout => false
  | .cleanup => false
  | .resolve => false
  | .revert => false
  | .getWorkingCopyRoot => false
  | .getChangelists => true
  | .blame => true
  | .commit => true
  | .info => true
  | .log => true
  | .remove => true
  | .status => true
  | .update => true

end NodeSvn
