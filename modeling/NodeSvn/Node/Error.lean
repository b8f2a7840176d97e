import NodeSvn.Cpp.Exception

/-!
# The JS error made from a `svn::svn_error`

`copy_error` of `node_client.cpp`: an `Error` named `SvnError` for each level.
-/

namespace NodeSvn

structure JsErrorLevel where
  message : String
  name : String
  code : Int
  file : String
  line : Int
  deriving DecidableEq, Repr

inductive JsError where
  | last (level : JsErrorLevel)
  | chained (level : JsErrorLevel) (child : JsError)
  deriving DecidableEq, Repr

def SvnErrorLevel.toJs (l : SvnErrorLevel) : JsErrorLevel :=
  ⟨l.what, "SvnError", l.code, l.file, l.line⟩

def copyError : SvnError → JsError
  | .last level => .last level.toJs
  | .chained level child => .chained level.toJs (copyError child)

end NodeSvn
