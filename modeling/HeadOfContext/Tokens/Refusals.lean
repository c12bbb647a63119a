import HeadOfContext.Tokens.Service

/-!
# What `load` refuses with

Reading a token raises `TokenInvalid`, or an `InvariantViolation` of the chain it describes, and
`load` turns the latter into the former: whatever is wrong with a token, `load` says that the
token is invalid (`raisesOnly_load`).
-/

namespace HeadOfContext

open Except

/-- An exception of the values a token describes. -/
def BreaksInvariant (e : HocError) : Prop := e.cls.isInvariantViolation = true

/-- A refusal of the token. -/
def SaysTokenInvalid (e : HocError) : Prop := e.cls.isTokenInvalid = true

/-- An exception that reading a token may raise. -/
def RefusesToken (e : HocError) : Prop := SaysTokenInvalid e ∨ BreaksInvariant e

/-! ### Chains -/

theorem raisesOnly_validateRef {value expectedType : String} :
    RaisesOnly BreaksInvariant (validateRef value expectedType) := by
  unfold validateRef
  split_ifs
  · exact raisesOnly_ok
  · exact raisesOnly_error rfl

theorem raisesOnly_makeDelegation {fromActor toActor : String} {scope : Scope} :
    RaisesOnly BreaksInvariant (Delegation.make fromActor toActor scope) := by
  unfold Delegation.make
  split_ifs
  · exact raisesOnly_error rfl
  · exact raisesOnly_ok
  · exact raisesOnly_error rfl
  · exact raisesOnly_error rfl

theorem raisesOnly_checkLinks {first : Delegation} {rest : List Delegation} :
    RaisesOnly BreaksInvariant (checkLinks first rest) := by
  induction rest generalizing first with
  | nil => exact raisesOnly_ok
  | cons link rest ih =>
    unfold checkLinks
    split_ifs
    · exact raisesOnly_error rfl
    · exact raisesOnly_error rfl
    · exact ih

theorem raisesOnly_postInit {subject actor : String} {delegation : List Delegation}
    {scope : Scope} : RaisesOnly BreaksInvariant (postInit subject actor delegation scope) := by
  refine .bind raisesOnly_validateRef fun _ => .bind raisesOnly_validateRef fun _ => ?_
  refine .bind (raisesOnly_raiseIf rfl) fun _ => ?_
  cases delegation with
  | nil => exact raisesOnly_ok
  | cons first rest =>
    exact .bind (raisesOnly_raiseIf rfl) fun _ => .bind (raisesOnly_raiseIf rfl) fun _ =>
      raisesOnly_checkLinks

theorem raisesOnly_makeChain {subject actor : String} {delegation : List Delegation} {scope : Scope}
    {knownRootScope : Option Scope} :
    RaisesOnly BreaksInvariant
      (PrincipalChain.make subject actor delegation scope knownRootScope) := by
  unfold PrincipalChain.make
  split
  · exact raisesOnly_ok
  · next e heq => exact raisesOnly_error (raisesOnly_postInit e heq)

theorem raisesOnly_delegate {c : PrincipalChain} {toActor : String} {scope : Scope} :
    RaisesOnly BreaksInvariant (c.delegate toActor scope) :=
  .bind (raisesOnly_raiseIf rfl) fun _ => .bind raisesOnly_makeDelegation fun _ =>
    raisesOnly_makeChain

/-! ### The trail -/

theorem raisesOnly_capability {kind resource : String} :
    RaisesOnly RefusesToken (capability kind resource) := by
  unfold capability
  split
  · exact raisesOnly_error (.inl rfl)
  · unfold Capability.make
    split_ifs
    · exact raisesOnly_ok
    · exact raisesOnly_error (.inr rfl)

theorem raisesOnly_readTrailLine {trail : Trail} {line : List Char} :
    RaisesOnly RefusesToken (readTrailLine trail line) := by
  unfold readTrailLine
  split
  · exact .bind (raisesOnly_raiseIf (.inl rfl)) fun _ => raisesOnly_ok
  · split
    · exact .bind raisesOnly_capability fun _ => raisesOnly_ok
    · exact raisesOnly_ok

theorem raisesOnly_readTrailLines {trail : Trail} {lines : List (List Char)} :
    RaisesOnly RefusesToken (readTrailLines trail lines) := by
  induction lines generalizing trail with
  | nil => exact raisesOnly_ok
  | cons line rest ih => exact .bind raisesOnly_readTrailLine fun _ => ih

theorem raisesOnly_parseTrailBlock {source : String} :
    RaisesOnly RefusesToken (parseTrailBlock source) := by
  refine .bind raisesOnly_readTrailLines fun trail => ?_
  match trail.delegation with
  | none => exact raisesOnly_ok
  | some hop => exact raisesOnly_ok

theorem raisesOnly_followTrail {c : PrincipalChain} {blocks : List Biscuit.Block} :
    RaisesOnly RefusesToken (followTrail c blocks) := by
  induction blocks generalizing c with
  | nil => exact raisesOnly_ok
  | cons block rest ih =>
    refine .bind raisesOnly_parseTrailBlock fun parsed => ?_
    match parsed with
    | none => exact ih
    | some ((fromActor, toActor), declared) =>
      refine .bind (raisesOnly_raiseIf (.inl rfl)) fun _ => ?_
      exact .bind (raisesOnly_delegate.mono fun _ => .inr) fun _ => ih

/-! ### The token -/

section Load

variable {Text : Type} {lib : BiscuitLib Text}

theorem saysTokenInvalid_factsError {e : HocError} : SaysTokenInvalid (factsError e) := by
  unfold factsError
  split_ifs with h
  · exact h
  · rfl

theorem saysTokenInvalid_trailError {e : HocError} (h : RefusesToken e) :
    SaysTokenInvalid (trailError e) := by
  unfold trailError
  split_ifs with hinv
  · rfl
  · exact h.resolve_right hinv

theorem raisesOnly_loadBiscuit {b : Biscuit} : RaisesOnly SaysTokenInvalid (loadBiscuit lib b) := by
  refine .bind (raisesOnly_raiseIf rfl) fun _ => ?_
  refine .bind (RaisesOnly.mapError (P := fun _ => True) (fun _ _ => trivial)
    fun _ _ => saysTokenInvalid_factsError) fun _ => ?_
  refine .bind (RaisesOnly.mapError (P := RefusesToken) ?_ fun _ => saysTokenInvalid_trailError)
    fun _ => raisesOnly_ok
  exact .bind (raisesOnly_makeChain.mono fun _ => .inr) fun _ => raisesOnly_followTrail

/-- **Whatever is wrong with a token, `load` says that it is invalid.** -/
theorem raisesOnly_load {keyring : KeyRing} {token : Text} :
    RaisesOnly SaysTokenInvalid (load lib keyring token) := by
  unfold load
  split
  · exact raisesOnly_error rfl
  · refine .bind ?_ fun key => ?_
    · unfold KeyRing.publicKey
      split
      · exact raisesOnly_ok
      · exact raisesOnly_error rfl
    · split
      · exact raisesOnly_error rfl
      · exact raisesOnly_loadBiscuit

end Load

end HeadOfContext
