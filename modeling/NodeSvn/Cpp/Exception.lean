/-!
# The exceptions of the C++ code

`SvnError` is the value of `svn::svn_error`: one level for each error of the chain.
`Exn` lists the exceptions by what a `catch` clause can tell apart.
`svn_type_error` derives from `svn_error`, so `catch (const svn::svn_error&)` takes both
(`Exn.asSvnError`).
-/

namespace NodeSvn

structure SvnErrorLevel where
  code : Int
  what : String
  file : String
  line : Int
  deriving DecidableEq, Repr

inductive SvnError where
  | last (level : SvnErrorLevel)
  | chained (level : SvnErrorLevel) (child : SvnError)
  deriving DecidableEq, Repr

inductive Exn where
  | svnError (error : SvnError)
  | svnTypeError (what : String)
  /-- `no::type_error`, a `std::runtime_error`. -/
  | typeError (what : String)
  | runtimeError (what : String)
  | futureError
  | logicError (what : String)
  /-- Any other class. -/
  | other (what : String)
  deriving DecidableEq, Repr

/-- `catch (const svn::svn_error&)`: what the clause binds, if it takes the exception. -/
def Exn.asSvnError : Exn → Option SvnError
  | .svnError e => some e
  | .svnTypeError what => some (.last ⟨-1, what, "", -1⟩)
  | _ => none

end NodeSvn
