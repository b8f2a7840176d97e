import Mathlib.Data.List.Induction
import Mathlib.Data.List.Nodup
import NodeSvn.Lib.OneShot
import NodeSvn.Node.Data

/-!
# Simple auth providers: which credential is chosen

JS registers functions in a set that keeps the order of insertion.  When libsvn asks for a
credential, `invokeImplement` first makes the arguments of JS, and of a present username
`no::data` never returns.  Then it calls the functions in that order on the loop thread:

    a value     is dropped, whatever it is
    a promise   is waited for, on the thread that would run its reactions
    a throw     ends the process (`ToLocalChecked` of an empty handle)

`index.d.ts` promises the credential of the first function that supplies one
(`chosenCredential`).  The code gives that answer exactly if it is asked without a username,
V8 takes the realm, and every registered function returns a value that is no credential
(`invokeImplement_eq_chosen_iff`).
-/

namespace NodeSvn

/-! ## The values of JS -/

/-- What reading a property gives. -/
inductive JsField where
  | string (value : String)
  /-- Not a string; `undefined` if there is no such property. -/
  | other (truthy : Bool)
  /-- The getter throws. -/
  | throws
  deriving DecidableEq, Repr

inductive AuthValue where
  | undefined
  | object (username password maySave : JsField)
  /-- Neither `undefined` nor an object. -/
  | other
  deriving DecidableEq, Repr

/-- `AuthProviderResult`, and a throw.  A promise is fulfilled or rejected at some time. -/
inductive AuthProviderResult where
  | value (v : AuthValue)
  | promise (outcome : Except AuthValue AuthValue)
  | throws

/-- The arguments of `simple_auth_provider::operator()`. -/
structure AuthRequest where
  realm : List UInt8
  username : Option (List UInt8)
  maySave : Bool
  deriving DecidableEq, Repr

/-! ## Conversion -/

/-- `convert_string(object[name])`; a string with a NUL is refused. -/
def convertString : JsField → Except Exn String
  | .throws => .error (.runtimeError "")
  | .other _ => .error (.svnTypeError "")
  | .string value =>
    if Char.ofNat 0 ∈ value.toList then .error (.svnTypeError "") else .ok value

/-- `object[name]->BooleanValue()` -/
def booleanValue : JsField → Except Exn Bool
  | .throws => .error (.runtimeError "")
  | .other truthy => .ok truthy
  | .string value => .ok (value ≠ "")

def convertSimpleAuth : AuthValue → Except Exn (Option SimpleAuth)
  | .undefined => .ok none
  | .object username password maySave =>
    let auth : Except Exn SimpleAuth := do
      let username ← convertString username
      let password ← convertString password
      let maySave ← booleanValue maySave
      return ⟨username, password, maySave⟩
    match auth with
    | .ok auth => .ok (some auth)
    | .error (.svnTypeError _) => .ok none
    | .error e => .error e
  | .other => .ok none

/-! ## `promise::then` -/

abbrev AuthCell := OneShot Exn (Option SimpleAuth)

/-- The `std::promise` that `then` shares with both reactions; its future was taken. -/
def thenCell : AuthCell := { OneShot.fresh with retrieved := true }

/-- `invoke_callback`, as the reaction to `outcome`.  Both reactions have
`convert_simple_auth` for a callback. -/
def invokeCallback (outcome : Except AuthValue AuthValue) (cell : AuthCell) :
    Except FutureErrc AuthCell :=
  match outcome with
  | .ok value => cell.setResult (convertSimpleAuth value)
  | .error reason => cell.setResult (convertSimpleAuth reason)

/-! ## The registered functions -/

section Registry

variable {F : Type} [DecidableEq F]

/-- A call of JS; the argument is `none` if it is not a function. -/
inductive RegistryCall (F : Type) where
  | addSimpleAuthProvider (f : Option F)
  | removeSimpleAuthProvider (f : Option F)
  deriving DecidableEq

/-- `Set.prototype.add` -/
def addFunction (f : F) (functions : List F) : List F :=
  if f ∈ functions then functions else functions ++ [f]

/-- `no::check_result(functions->Delete(..))` -/
def removeFunction (f : F) (functions : List F) : Except Exn (List F) :=
  if f ∈ functions then .ok (functions.filter (· ≠ f)) else .error (.runtimeError "")

def RegistryCall.apply (functions : List F) : RegistryCall F → Except Exn (List F)
  | .addSimpleAuthProvider (some f) => .ok (addFunction f functions)
  | .removeSimpleAuthProvider (some f) => removeFunction f functions
  | _ => .error (.typeError "")

/-- The functions after a history of calls; one that throws changes nothing. -/
def registered (calls : List (RegistryCall F)) : List F :=
  calls.foldl (fun functions call => (call.apply functions).toOption.getD functions) []

variable {f g : F} {functions : List F} {calls : List (RegistryCall F)} {call : RegistryCall F}

theorem registered_snoc :
    registered (calls ++ [call]) =
      (call.apply (registered calls)).toOption.getD (registered calls) :=
  List.foldl_append

theorem apply_add : (RegistryCall.addSimpleAuthProvider (some f)).apply functions =
    .ok (addFunction f functions) := rfl

/-- Whether it throws or not, a removal leaves the others. -/
theorem getD_remove :
    ((RegistryCall.removeSimpleAuthProvider (some f)).apply functions).toOption.getD functions =
      functions.filter (· ≠ f) := by
  simp only [RegistryCall.apply]
  unfold removeFunction
  split
  · rfl
  · rename_i h
    refine (List.filter_eq_self.mpr fun g hg => ?_).symm
    simp only [decide_eq_true_eq]
    rintro rfl
    exact h hg

theorem mem_addFunction : g ∈ addFunction f functions ↔ g = f ∨ g ∈ functions := by
  unfold addFunction
  split
  · rename_i h
    exact ⟨.inr, fun hg => hg.elim (fun he => he ▸ h) id⟩
  · rw [List.mem_append, List.mem_singleton, or_comm]

theorem registered_nodup (calls : List (RegistryCall F)) : (registered calls).Nodup := by
  induction calls using List.reverseRecOn with
  | nil => exact List.nodup_nil
  | append_singleton calls call ih =>
    rw [registered_snoc]
    match call with
    | .addSimpleAuthProvider none => exact ih
    | .removeSimpleAuthProvider none => exact ih
    | .addSimpleAuthProvider (some f) =>
      show (addFunction f (registered calls)).Nodup
      unfold addFunction
      split
      · exact ih
      · rename_i h
        exact List.nodup_append.mpr ⟨ih, List.nodup_singleton f, fun a ha b hb => by
          rintro rfl
          exact h (List.mem_singleton.mp hb ▸ ha)⟩
    | .removeSimpleAuthProvider (some f) =>
      rw [getD_remove]
      exact ih.filter _

/-- The call is about `f`. -/
def RegistryCall.names (f : F) : RegistryCall F → Bool
  | .addSimpleAuthProvider g => g = some f
  | .removeSimpleAuthProvider g => g = some f

/-- A function is registered if the last call about it added it. -/
theorem mem_registered_iff (f : F) (calls : List (RegistryCall F)) :
    f ∈ registered calls ↔
      (calls.filter (·.names f)).getLast? = some (.addSimpleAuthProvider (some f)) := by
  induction calls using List.reverseRecOn with
  | nil => simp [registered]
  | append_singleton calls call ih =>
    rw [registered_snoc, List.filter_append]
    match call with
    | .addSimpleAuthProvider none =>
      simpa [RegistryCall.names, RegistryCall.apply, Except.toOption] using ih
    | .removeSimpleAuthProvider none =>
      simpa [RegistryCall.names, RegistryCall.apply, Except.toOption] using ih
    | .addSimpleAuthProvider (some g) =>
      by_cases hg : g = f
      · subst hg
        simp [RegistryCall.names, apply_add, Except.toOption, mem_addFunction]
      · simpa [RegistryCall.names, apply_add, Except.toOption, mem_addFunction, hg, Ne.symm hg]
          using ih
    | .removeSimpleAuthProvider (some g) =>
      rw [getD_remove]
      by_cases hg : g = f
      · subst hg
        simp [RegistryCall.names]
      · simpa [RegistryCall.names, hg, Ne.symm hg] using ih

end Registry

/-! ## The arguments of JS -/

section Arguments

variable {newFromUtf8 : NewFromUtf8} {fuel : Nat} {request : AuthRequest} {made : List JsData}

/-- `no::data` of the realm, the username and `may_save`. -/
def AuthRequest.argv (newFromUtf8 : NewFromUtf8) (fuel : Nat) (request : AuthRequest) :
    PathM (List JsData) :=
  return [
    ← noData newFromUtf8 fuel (.stdString request.realm),
    ← noData newFromUtf8 fuel (.optionalString request.username),
    ← noData newFromUtf8 fuel (.bool request.maySave)]

/-- What V8 makes of the realm. -/
def AuthRequest.jsRealm (newFromUtf8 : NewFromUtf8) (request : AuthRequest) : Option String :=
  newFromUtf8 request.realm .normal (toInt32 request.realm.length)

/-- What the arguments of JS come to. -/
def AuthRequest.marshalled (newFromUtf8 : NewFromUtf8) (request : AuthRequest) :
    PathM (List JsData) :=
  match request.jsRealm newFromUtf8 with
  | none => .stop (.thrown (.runtimeError ""))
  | some realm =>
    match request.username with
    | some _ => ExceptT.mk none
    | none => pure [.string realm, .undefined, .boolean request.maySave]

/-- No call of `no::data` that returns takes more than two steps. -/
theorem AuthRequest.argv_eq (newFromUtf8 : NewFromUtf8) (request : AuthRequest) (fuel : Nat) :
    request.argv newFromUtf8 (fuel + 2) = request.marshalled newFromUtf8 := by
  have hrealm : noData newFromUtf8 (fuel + 2) (.stdString request.realm) =
      (request.jsRealm newFromUtf8).elim (.stop (.thrown (.runtimeError "")))
        fun realm => pure (.string realm) := by
    rw [noData_of_result rfl fuel, newString]
    unfold AuthRequest.jsRealm
    cases newFromUtf8 request.realm .normal (toInt32 request.realm.length) <;> rfl
  rw [argv, marshalled, hrealm]
  cases request.jsRealm newFromUtf8 with
  | none => rfl
  | some realm =>
    cases hu : request.username with
    | some username =>
      have hdiverges : noData newFromUtf8 (fuel + 2) (.optionalString (some username)) =
          ExceptT.mk none := data_optionalString_diverges username (fuel + 2)
      simp only [hdiverges]
      rfl
    | none =>
      have hundefined : noData newFromUtf8 (fuel + 2) (.optionalString none) =
          pure .undefined := noData_of_result rfl fuel
      have hsave : noData newFromUtf8 (fuel + 2) (.bool request.maySave) =
          pure (.boolean request.maySave) := noData_of_result rfl fuel
      simp only [hundefined, hsave]
      rfl

/-- The arguments are made exactly if there is no username and V8 takes the realm. -/
theorem AuthRequest.marshalled_eq_pure_iff : request.marshalled newFromUtf8 = pure made ↔
    ∃ realm, request.jsRealm newFromUtf8 = some realm ∧ request.username = none ∧
      made = [.string realm, .undefined, .boolean request.maySave] := by
  unfold marshalled
  cases request.jsRealm newFromUtf8 with
  | none => exact ⟨fun h => (by cases h), fun ⟨_, h, _⟩ => (by cases h)⟩
  | some realm =>
    cases request.username with
    | some username => exact ⟨fun h => (by cases h), fun ⟨_, _, h, _⟩ => (by cases h)⟩
    | none =>
      constructor
      · intro h
        exact ⟨realm, rfl, rfl, (PathM.pure_inj h).symm⟩
      · rintro ⟨_, ⟨rfl⟩, -, rfl⟩
        rfl

/-- With more steps it is the same. -/
theorem AuthRequest.argv_eq_pure (h : request.argv newFromUtf8 fuel = pure made) :
    request.marshalled newFromUtf8 = pure made := by
  obtain ⟨realm, hrealm, h⟩ := PathM.bind_eq_pure_iff.mp h
  obtain ⟨username, husername, h⟩ := PathM.bind_eq_pure_iff.mp h
  obtain ⟨maySave, hsave, h⟩ := PathM.bind_eq_pure_iff.mp h
  have hmore : ∀ {v d}, noData newFromUtf8 fuel v = pure d →
      noData newFromUtf8 (fuel + 2) v = pure d :=
    fun h => runFor_mono h (Nat.le_add_right fuel 2)
  rw [← argv_eq newFromUtf8 request fuel, argv]
  rw [hmore hrealm, hmore husername, hmore hsave]
  exact h

end Arguments

/-! ## The loop over the functions -/

section Implement

variable {F : Type} {behaviour : F → List JsData → AuthProviderResult} {argv : List JsData}
  {newFromUtf8 : NewFromUtf8} {request : AuthRequest} {functions : List F}

/-- The loop of `_invoke_implement`, from one element of `array` on. -/
def invokeFunctions (behaviour : F → List JsData → AuthProviderResult) (argv : List JsData) :
    List F → PathM (Option SimpleAuth)
  | [] => pure none
  | f :: rest =>
    match behaviour f argv with
    | .throws => .stop .aborted
    | .value _ => invokeFunctions behaviour argv rest
    | .promise _ =>
      -- `then(..).get()`: no checkpoint is reached in between, so neither reaction has run
      match thenCell.result with
      | none => .stop .blocked
      | some (.error e) => .stop (.thrown e)
      | some (.ok (some auth)) => pure (some auth)
      | some (.ok none) => invokeFunctions behaviour argv rest

/-- `_invoke_implement` -/
def invokeImplement (newFromUtf8 : NewFromUtf8) (fuel : Nat)
    (behaviour : F → List JsData → AuthProviderResult) (request : AuthRequest)
    (functions : List F) : PathM (Option SimpleAuth) := do
  let argv ← request.argv newFromUtf8 fuel
  invokeFunctions behaviour argv functions

/-! ## The contract -/

/-- The credential in an awaited value: an object with string `username` and `password`. -/
def AuthValue.credential : AuthValue → Option SimpleAuth
  | .object (.string username) (.string password) maySave =>
    some ⟨username, password, (booleanValue maySave).toOption.getD false⟩
  | _ => none

/-- What `await` gives, if it does not throw. -/
def AuthProviderResult.awaited : AuthProviderResult → Option AuthValue
  | .value v => some v
  | .promise (.ok v) => some v
  | .promise (.error _) => none
  | .throws => none

def AuthProviderResult.credential (r : AuthProviderResult) : Option SimpleAuth :=
  r.awaited.bind AuthValue.credential

/-- The credential of the first function that supplies one. -/
def chosenCredential (behaviour : F → List JsData → AuthProviderResult) (argv : List JsData)
    (functions : List F) : Option SimpleAuth :=
  functions.findSome? fun f => (behaviour f argv).credential

/-- What a `SimpleAuthProvider` is promised: `realm: string, username: string | undefined,
may_save: boolean`. -/
def AuthRequest.promised (newFromUtf8 : NewFromUtf8) (request : AuthRequest) : List JsData :=
  let string := fun bytes : List UInt8 =>
    ((newFromUtf8 bytes .normal (toInt32 bytes.length)).map JsData.string).getD .undefined
  [string request.realm, (request.username.map string).getD .undefined,
    .boolean request.maySave]

/-- The loop gets through exactly if no function returns a promise or throws, and then it has
found nothing. -/
theorem invokeFunctions_eq_pure_iff {auth : Option SimpleAuth} :
    invokeFunctions behaviour argv functions = pure auth ↔
      auth = none ∧ ∀ f ∈ functions, ∃ v, behaviour f argv = .value v := by
  induction functions with
  | nil =>
    rw [invokeFunctions]
    exact ⟨fun h => ⟨(PathM.pure_inj h).symm, fun _ hf => (by cases hf)⟩, fun h => h.1 ▸ rfl⟩
  | cons f rest ih =>
    rw [invokeFunctions, List.forall_mem_cons]
    cases behaviour f argv with
    | value v => simp [ih]
    | promise outcome =>
      refine ⟨fun h => (by cases h), ?_⟩
      rintro ⟨-, ⟨v, hv⟩, -⟩
      cases hv
    | throws =>
      refine ⟨fun h => (by cases h), ?_⟩
      rintro ⟨-, ⟨v, hv⟩, -⟩
      cases hv

/-- It returns exactly if the arguments can be made and the loop gets through. -/
theorem invokeImplement_returns_iff {auth : Option SimpleAuth} :
    (∃ fuel, invokeImplement newFromUtf8 fuel behaviour request functions = pure auth) ↔
      ∃ realm, request.jsRealm newFromUtf8 = some realm ∧ request.username = none ∧
        auth = none ∧ ∀ f ∈ functions, ∃ v,
          behaviour f [.string realm, .undefined, .boolean request.maySave] = .value v := by
  constructor
  · rintro ⟨fuel, h⟩
    obtain ⟨argv, hargv, h⟩ := PathM.bind_eq_pure_iff.mp h
    obtain ⟨realm, hrealm, hnone, rfl⟩ :=
      AuthRequest.marshalled_eq_pure_iff.mp (AuthRequest.argv_eq_pure hargv)
    exact ⟨realm, hrealm, hnone, invokeFunctions_eq_pure_iff.mp h⟩
  · rintro ⟨realm, hrealm, hnone, h⟩
    refine ⟨2, PathM.bind_eq_pure_iff.mpr ⟨_, ?_, invokeFunctions_eq_pure_iff.mpr h⟩⟩
    rw [AuthRequest.argv_eq newFromUtf8 request 0]
    exact AuthRequest.marshalled_eq_pure_iff.mpr ⟨realm, hrealm, hnone, rfl⟩

/-- **The code chooses as promised exactly if it is asked without a username, V8 takes the realm,
and each registered function returns a value that is no credential.** -/
theorem invokeImplement_eq_chosen_iff [DecidableEq F] (newFromUtf8 : NewFromUtf8)
    (calls : List (RegistryCall F)) (behaviour : F → List JsData → AuthProviderResult)
    (request : AuthRequest) :
    (∃ fuel, invokeImplement newFromUtf8 fuel behaviour request (registered calls) =
        pure (chosenCredential behaviour (request.promised newFromUtf8) (registered calls))) ↔
      request.username = none ∧ (request.jsRealm newFromUtf8).isSome = true ∧
        ∀ f ∈ registered calls, ∃ v,
          behaviour f (request.promised newFromUtf8) = .value v ∧ v.credential = none := by
  have hpromised : ∀ realm, request.jsRealm newFromUtf8 = some realm → request.username = none →
      request.promised newFromUtf8 = [.string realm, .undefined, .boolean request.maySave] := by
    intro realm hrealm hnone
    rw [AuthRequest.jsRealm] at hrealm
    rw [AuthRequest.promised]
    simp only [hrealm, hnone]
    rfl
  rw [invokeImplement_returns_iff, chosenCredential, List.findSome?_eq_none_iff]
  constructor
  · rintro ⟨realm, hrealm, hnone, hchosen, hvalues⟩
    refine ⟨hnone, hrealm ▸ rfl, fun f hf => ?_⟩
    obtain ⟨v, hv⟩ := hvalues f hf
    have hcredential := hchosen f hf
    rw [hpromised realm hrealm hnone, hv] at hcredential
    exact ⟨v, hpromised realm hrealm hnone ▸ hv, hcredential⟩
  · rintro ⟨hnone, hrealm, hvalues⟩
    obtain ⟨realm, hrealm⟩ := Option.isSome_iff_exists.mp hrealm
    refine ⟨realm, hrealm, hnone, fun f hf => ?_, fun f hf => ?_⟩
    · obtain ⟨v, hv, hcredential⟩ := hvalues f hf
      rw [hv]
      exact hcredential
    · obtain ⟨v, hv, -⟩ := hvalues f hf
      exact ⟨v, hpromised realm hrealm hnone ▸ hv⟩

/-- One function that returns a credential.  Asked with a username, as libsvn asks, the code does
not answer; asked without one, it answers that there is none. -/
theorem not_invokeImplement_eq_chosen :
    (∀ fuel, invokeImplement (fun s _ _ => some (decodeUtf8 s)) fuel
        (fun _ _ => .value (.object (.string "u") (.string "p") (.other false)))
        ⟨[114], some [117], false⟩ (registered [.addSimpleAuthProvider (some 0)]) ≠
      pure (some ⟨"u", "p", false⟩)) ∧
    invokeImplement (fun s _ _ => some (decodeUtf8 s)) 2
        (fun _ _ => .value (.object (.string "u") (.string "p") (.other false)))
        ⟨[114], none, false⟩ (registered [.addSimpleAuthProvider (some 0)]) = pure none ∧
    chosenCredential (fun _ _ => .value (.object (.string "u") (.string "p") (.other false))) []
        (registered [.addSimpleAuthProvider (some 0)]) = some ⟨"u", "p", false⟩ := by
  refine ⟨fun fuel h => ?_, ?_, rfl⟩
  · obtain ⟨-, -, hnone, -⟩ := invokeImplement_returns_iff.mp ⟨fuel, h⟩
    cases hnone
  · rw [invokeImplement, AuthRequest.argv_eq _ _ 0]
    rfl

end Implement

end NodeSvn
