import HeadOfContext.Identity.Oidc
import HeadOfContext.Tokens.PostgresMandates

/-!
# Callers

A verified identity is an agent's or a human's. `AgentDetection` says which claim marks an agent
(client credentials) and which one names it. An identity that is marked and has no usable name is
refused, so it is never taken for a human's; a Keycloak service account counts as an agent only
where `azp` names the same client, since a human may choose a user name.
-/

namespace HeadOfContext

open Except

inductive CallerKind where
  | agent | user
  deriving DecidableEq, Repr

/-- `Caller`. -/
structure Caller where
  kind : CallerKind
  ref : String
  deriving DecidableEq, Repr

/-- `SERVICE_ACCOUNT_PREFIX`. -/
def SERVICE_ACCOUNT_PREFIX : String := "service-account-"

/-- `AgentDetection`. -/
structure AgentDetection where
  markerClaim : String := "clientId"
  markerValue : Option String := none
  idClaim : String := "clientId"
  keycloakFallback : Bool := true
  deriving DecidableEq

/-- `claims.get(key)`. -/
def VerifiedIdentity.claim (identity : VerifiedIdentity) (key : String) : Json :=
  (identity.claims.item key).getD .null

/-- `value is not None and value != ""`. -/
def isPresent : Json → Bool
  | .null | .str [] => false
  | _ => true

/-- `_agent`. -/
def agentCaller (clientId : PyStr) : Except HocError Caller :=
  match (PyStr.text clientId).map fun id => validateRef ("agent:" ++ id) "agent" with
  | some (.ok ref) => .ok ⟨.agent, ref⟩
  | _ => .error (HocClass.identityError.error "client id cannot be an agent reference")

namespace AgentDetection

/-- `DEFAULT_DETECTION`. -/
def default : AgentDetection := {}

/-- `text.strip() or "clientId"`. -/
def nameOr (text : String) : String :=
  let name := String.ofList (PyText.strip text.toList)
  if name = "" then "clientId" else name

/-- `from_settings`. -/
def fromSettings (marker idClaim : String) (keycloakFallback : Bool) : AgentDetection :=
  let (claim, value) := PyText.partition marker '='
  { markerClaim := nameOr claim
    markerValue := if '=' ∈ marker.toList then some (String.ofList (PyText.strip value.toList))
      else none
    idClaim := nameOr idClaim
    keycloakFallback := keycloakFallback }

variable (d : AgentDetection) (repr : Json → PyStr) (identity : VerifiedIdentity)

/-- `marked`: the marker is there, with the value that was asked for, if any. -/
def marked : Bool :=
  let marker := identity.claim d.markerClaim
  isPresent marker && d.markerValue.all fun value => Scope.strOf repr marker = .ofString value

/-- `raw_id`. -/
def rawId : Json :=
  let raw := identity.claim d.idClaim
  if isFalsy raw then identity.claim "azp" else raw

/-- `username`. -/
def username : PyStr :=
  let name := identity.claim "preferred_username"
  if isFalsy name then [] else Scope.strOf repr name

/-- The branch of `caller_from_identity` for an identity that is marked. -/
def markedCaller : Except HocError Caller :=
  match d.rawId identity with
  | .str raw =>
    if raw = [] then .error (HocClass.identityError.error "agent token without a client id")
    else agentCaller raw
  | _ => .error (HocClass.identityError.error "agent token without a client id")

/-- The rest of `caller_from_identity`: the service accounts of Keycloak, and the humans. -/
def unmarkedCaller : Except HocError Caller :=
  let human : Caller := ⟨.user, identity.subject⟩
  let username := username repr identity
  let servicePrefix := PyStr.ofString SERVICE_ACCOUNT_PREFIX
  if d.keycloakFallback = true ∧ servicePrefix <+: username then
    let name := username.drop servicePrefix.length
    if name = [] then
      .error (HocClass.identityError.error "service account token without a client id")
    else match identity.claim "azp" with
      | .str azp => if azp = name then agentCaller name else .ok human
      | _ => .ok human
  else .ok human

/-- `caller_from_identity`. -/
def callerFromIdentity : Except HocError Caller :=
  if d.marked repr identity then d.markedCaller identity else d.unmarkedCaller repr identity

/-- `require_human`. -/
def requireHuman : Except HocError String := do
  let caller ← d.callerFromIdentity repr identity
  raiseIf (caller.kind ≠ .user) (HocClass.tokenInvalid.errorWith
    "user_token belongs to an agent, not a human" "user_token_not_human")
  return caller.ref

end AgentDetection

/-! ### Who a caller is -/

variable {d : AgentDetection} {repr : Json → PyStr} {identity : VerifiedIdentity} {c : Caller}

theorem agentCaller_eq_ok {clientId : PyStr} (h : agentCaller clientId = .ok c) :
    c.kind = .agent ∧ isRef c.ref "agent" = true := by
  unfold agentCaller at h
  split at h
  · next ref hvalid =>
    obtain rfl := Except.ok.inj h
    obtain ⟨id, -, hid⟩ := Option.map_eq_some_iff.mp hvalid
    obtain ⟨href, rfl⟩ := validateRef_eq_ok.mp hid
    exact ⟨rfl, href⟩
  · exact absurd h (by simp)

namespace AgentDetection

/-- **Agent or human.** An agent is named by a valid reference; a human is the subject of the
identity, which no marker marks as an agent's. -/
theorem callerFromIdentity_eq_ok (h : d.callerFromIdentity repr identity = .ok c) :
    (c.kind = .agent ∧ isRef c.ref "agent" = true) ∨
      (c = ⟨.user, identity.subject⟩ ∧ d.marked repr identity = false) := by
  unfold callerFromIdentity at h
  split_ifs at h with hmarked
  · -- a marked identity is an agent's, or refused
    left
    unfold markedCaller at h
    split at h
    · next raw hraw =>
      split_ifs at h with hempty
      exact agentCaller_eq_ok h
    · exact absurd h (by simp)
  · -- what is not marked is an agent's only as a service account that `azp` names too
    have hunmarked : d.marked repr identity = false := by simpa using hmarked
    unfold unmarkedCaller at h
    simp only at h
    split_ifs at h with hservice hname
    · split at h
      · next azp hazp =>
        split_ifs at h with hsame
        · exact .inl (agentCaller_eq_ok h)
        · exact .inr ⟨(Except.ok.inj h).symm, hunmarked⟩
      · exact .inr ⟨(Except.ok.inj h).symm, hunmarked⟩
    · exact .inr ⟨(Except.ok.inj h).symm, hunmarked⟩

/-- A caller that is an agent has the reference of one. -/
theorem isRef_of_agent (h : d.callerFromIdentity repr identity = .ok c) (hagent : c.kind = .agent) :
    isRef c.ref "agent" = true := by
  rcases callerFromIdentity_eq_ok h with ⟨-, href⟩ | ⟨rfl, -⟩
  · exact href
  · exact absurd hagent (by simp)

/-- A human is required, and nobody else passes. -/
theorem requireHuman_eq_ok {subject : String} :
    d.requireHuman repr identity = .ok subject ↔
      d.callerFromIdentity repr identity = .ok ⟨.user, subject⟩ := by
  simp only [requireHuman, bind_eq_ok, raiseIf_eq_ok, pure_eq_ok, Except.ok.injEq]
  constructor
  · rintro ⟨⟨kind, ref⟩, hcaller, _, hkind, rfl⟩
    obtain rfl : kind = .user := not_not.mp hkind
    exact hcaller
  · intro hcaller
    exact ⟨_, hcaller, (), by simp, rfl⟩

/-- An identity that is marked as an agent's is no human's, whatever else it says. -/
theorem requireHuman_marked (h : d.marked repr identity = true) (subject : String) :
    d.requireHuman repr identity ≠ .ok subject := by
  intro hok
  rcases callerFromIdentity_eq_ok (requireHuman_eq_ok.mp hok) with ⟨hagent, -⟩ | ⟨-, hunmarked⟩
  · exact absurd hagent (by simp)
  · exact absurd (h.symm.trans hunmarked) (by simp)

end AgentDetection

end HeadOfContext
