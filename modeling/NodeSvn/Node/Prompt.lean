import NodeSvn.Cpp.Trampoline
import NodeSvn.Node.Auth

/-!
# The arguments of the simple prompt

    invoke_get_simple_prompt_provider     std::string of the realm and of the username
    client::invoke_simple_auth_providers  asks the one provider that no::client adds
    simple_auth_provider                  comes to the loop thread, through uv::async
    no::data                              of the realm, the username and may_save

libsvn may have no username; then the second `std::string` throws.  If there is one it
arrives as a present `optional<string>`, of which `no::data` never returns.  So no prompt
gets to the functions of JS (`never_marshalled`).
-/

namespace NodeSvn

/-- Code that may stop or never end, with the arrays `argv` of its calls of JS. -/
abbrev PromptM := StateT (List (List JsData)) PathM

def PromptM.stop {α : Type} (s : Stop) : PromptM α := fun _ => ExceptT.mk (some (.error s))

def PromptM.ofExcept {α : Type} : Except Exn α → PromptM α
  | .ok a => pure a
  | .error e => stop (.thrown e)

/-! ## The path -/

namespace PromptM

/-- `client::invoke_simple_auth_providers` -/
def invokeSimpleAuthProviders (realm : List UInt8) (username : Option (List UInt8))
    (maySave : Bool) :
    List (List UInt8 → Option (List UInt8) → Bool → PromptM (Option SimpleAuth)) →
      PromptM (Option SimpleAuth)
  | [] => pure none
  | provider :: rest => do
    match ← provider realm username maySave with
    | some auth => return some auth
    | none => invokeSimpleAuthProviders realm username maySave rest

/-- `invoke_get_simple_prompt_provider` -/
def invokeGetSimplePromptProvider (rawRealm rawUsername : CStr) (maySave : Bool)
    (providers : List (List UInt8 → Option (List UInt8) → Bool → PromptM (Option SimpleAuth))) :
    PromptM (Option SimpleAuth) := do
  let realm ← ofExcept (stdString rawRealm)
  let username ← ofExcept (stdString rawUsername)
  invokeSimpleAuthProviders realm (some username) maySave providers

/-- With providers that return or throw this is the path as `client.cpp` sees it. -/
theorem invokeSimpleAuthProviders_ofExcept (realm : List UInt8)
    (username : Option (List UInt8)) (maySave : Bool) (providers : List SimpleAuthProvider) :
    invokeSimpleAuthProviders realm username maySave
        (providers.map fun p realm username maySave => ofExcept (p realm username maySave)) =
      ofExcept (NodeSvn.invokeSimpleAuthProviders realm username maySave providers) := by
  induction providers with
  | nil => rfl
  | cons provider rest ih =>
    rw [List.map_cons, invokeSimpleAuthProviders, NodeSvn.invokeSimpleAuthProviders]
    cases provider realm username maySave with
    | error e => rfl
    | ok result =>
      cases result with
      | none => exact ih
      | some auth => rfl

theorem invokeGetSimplePromptProvider_ofExcept (rawRealm rawUsername : CStr) (maySave : Bool)
    (providers : List SimpleAuthProvider) :
    invokeGetSimplePromptProvider rawRealm rawUsername maySave
        (providers.map fun p realm username maySave => ofExcept (p realm username maySave)) =
      ofExcept (NodeSvn.invokeGetSimplePromptProvider rawRealm rawUsername maySave providers) := by
  cases rawRealm with
  | none => rfl
  | some realm =>
    cases rawUsername with
    | none => rfl
    | some username => exact invokeSimpleAuthProviders_ofExcept realm (some username) maySave _

end PromptM

section Marshal

variable {F : Type}

/-- `simple_auth_provider::operator()` and `_invoke_implement`; `uv::async` rethrows on the
worker what the loop thread throws. -/
def simpleAuthProvider (newFromUtf8 : NewFromUtf8) (fuel : Nat)
    (behaviour : F → List JsData → AuthProviderResult) (functions : List F) (realm : List UInt8)
    (username : Option (List UInt8)) (maySave : Bool) : PromptM (Option SimpleAuth) := do
  let argv ← AuthRequest.argv newFromUtf8 fuel ⟨realm, username, maySave⟩
  modify (· ++ [argv])
  invokeFunctions behaviour argv functions

/-- With the record of its calls left out it is `_invoke_implement`. -/
theorem simpleAuthProvider_eq (newFromUtf8 : NewFromUtf8) (fuel : Nat)
    (behaviour : F → List JsData → AuthProviderResult) (functions : List F) (realm : List UInt8)
    (username : Option (List UInt8)) (maySave : Bool) (calls : List (List JsData)) :
    Prod.fst <$> (simpleAuthProvider newFromUtf8 fuel behaviour functions realm username
        maySave).run calls =
      invokeImplement newFromUtf8 fuel behaviour ⟨realm, username, maySave⟩ functions := by
  simp [simpleAuthProvider, invokeImplement]

/-- What libsvn asks; it may have no username. -/
structure Prompt where
  realm : List UInt8
  username : CStr
  maySave : Bool
  deriving DecidableEq, Repr

namespace Prompt

/-- The prompt of a `no::client` in which `functions` are registered. -/
def run (newFromUtf8 : NewFromUtf8) (fuel : Nat)
    (behaviour : F → List JsData → AuthProviderResult) (functions : List F) (p : Prompt) :
    Option (Except Stop (Option SimpleAuth × List (List JsData))) :=
  (PromptM.invokeGetSimplePromptProvider (some p.realm) p.username p.maySave
    [simpleAuthProvider newFromUtf8 fuel behaviour functions]).run []

/-- The arguments that a `SimpleAuthProvider` is promised. -/
def Shows (p : Prompt) (argv : List JsData) : Prop :=
  ∃ (realm : String) (username : JsData),
    argv = [.string realm, username, .boolean p.maySave] ∧ realm.utf8 = p.realm ∧
    match p.username with
    | some bytes => ∃ s : String, username = .string s ∧ s.utf8 = bytes
    | none => username = .undefined

/-- The prompt returns, and has called the functions with these arguments. -/
def Marshalled (newFromUtf8 : NewFromUtf8) (behaviour : F → List JsData → AuthProviderResult)
    (functions : List F) (p : Prompt) : Prop :=
  ∃ fuel auth argv,
    p.run newFromUtf8 fuel behaviour functions = some (.ok (auth, [argv])) ∧ p.Shows argv

end Prompt

/-! ## No prompt gets through -/

section Laws

variable {newFromUtf8 : NewFromUtf8} {fuel : Nat}
  {behaviour : F → List JsData → AuthProviderResult} {functions : List F} {p : Prompt}

theorem PromptM.bind_eq_ok {α β : Type} {m : PromptM α} {f : α → PromptM β}
    {calls : List (List JsData)} {x : β × List (List JsData)}
    (h : (m >>= f) calls = ExceptT.mk (some (.ok x))) :
    ∃ a calls', m calls = ExceptT.mk (some (.ok (a, calls'))) ∧
      f a calls' = ExceptT.mk (some (.ok x)) := by
  have hbind : (m >>= f) calls = (m calls).bind fun r => f r.1 r.2 := rfl
  rw [hbind] at h
  generalize m calls = r at h
  match r, h with
  | some (.ok (a, calls')), h => exact ⟨a, calls', rfl, h⟩

theorem simpleAuthProvider_present (realm username : List UInt8) (maySave : Bool)
    (calls : List (List JsData)) (x : Option SimpleAuth × List (List JsData)) :
    simpleAuthProvider newFromUtf8 fuel behaviour functions realm (some username) maySave calls ≠
      ExceptT.mk (some (.ok x)) := by
  intro h
  have himplement := simpleAuthProvider_eq newFromUtf8 fuel behaviour functions realm
    (some username) maySave calls
  rw [StateT.run, h] at himplement
  obtain ⟨-, -, hnone, -⟩ := invokeImplement_returns_iff.mp ⟨fuel, himplement.symm⟩
  cases hnone

/-- Without a username the prompt throws through libsvn. -/
theorem Prompt.run_absent (h : p.username = none) :
    p.run newFromUtf8 fuel behaviour functions =
      some (.error (.thrown
        (.logicError "basic_string: construction from null is not valid"))) := by
  rw [Prompt.run, h]
  rfl

/-- The username that libsvn gives reaches the provider. -/
theorem Prompt.run_eq {username : List UInt8} (h : p.username = some username) :
    p.run newFromUtf8 fuel behaviour functions =
      (simpleAuthProvider newFromUtf8 fuel behaviour functions p.realm (some username)
          p.maySave >>= fun auth =>
        match auth with
        | some auth => pure (some auth)
        | none => pure none) [] := by
  rw [Prompt.run, h]
  rfl

/-- With a username, and a realm that V8 takes, it never ends. -/
theorem Prompt.run_diverges {username : List UInt8} {realm : String}
    (h : p.username = some username)
    (hrealm : newFromUtf8 p.realm .normal (toInt32 p.realm.length) = some realm)
    (fuel : Nat) : p.run newFromUtf8 (fuel + 2) behaviour functions = none := by
  have hargv : AuthRequest.argv newFromUtf8 (fuel + 2) ⟨p.realm, some username, p.maySave⟩ =
      ExceptT.mk none := by
    rw [AuthRequest.argv_eq, AuthRequest.marshalled, AuthRequest.jsRealm, hrealm]
  rw [Prompt.run_eq h, simpleAuthProvider, hargv]
  rfl

/-- With a username it does not return. -/
theorem Prompt.run_present {username : List UInt8} (h : p.username = some username)
    (x : Option SimpleAuth × List (List JsData)) :
    p.run newFromUtf8 fuel behaviour functions ≠ some (.ok x) := by
  intro hrun
  rw [Prompt.run_eq h] at hrun
  obtain ⟨auth, calls, hprovider, -⟩ := PromptM.bind_eq_ok hrun
  exact simpleAuthProvider_present _ _ _ _ _ hprovider

/-- **No prompt of libsvn gets its arguments to JS.** -/
theorem never_marshalled (newFromUtf8 : NewFromUtf8)
    (behaviour : F → List JsData → AuthProviderResult) (functions : List F) (p : Prompt) :
    ¬ p.Marshalled newFromUtf8 behaviour functions := by
  rintro ⟨fuel, auth, argv, hrun, -⟩
  cases husername : p.username with
  | none =>
    rw [Prompt.run_absent husername] at hrun
    cases hrun
  | some username => exact Prompt.run_present husername _ hrun

/-- One function, and the two kinds of prompt. -/
theorem not_marshalled :
    ¬ (⟨[114], some [117], false⟩ : Prompt).Marshalled (fun s _ _ => some (decodeUtf8 s))
        (fun (_ : Unit) _ => .value .undefined) [()] ∧
      ¬ (⟨[114], none, false⟩ : Prompt).Marshalled (fun s _ _ => some (decodeUtf8 s))
        (fun (_ : Unit) _ => .value .undefined) [()] := by
  constructor
  · rintro ⟨fuel, auth, argv, hrun, -⟩
    exact Prompt.run_present rfl _ hrun
  · rintro ⟨fuel, auth, argv, hrun, -⟩
    rw [Prompt.run_absent rfl] at hrun
    cases hrun

end Laws

end Marshal

end NodeSvn
