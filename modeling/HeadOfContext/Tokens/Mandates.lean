import HeadOfContext.Tokens.Service

/-!
# Standing mandates

A human authorizes an agent once, and the agent asks for short tokens under the mandate.
Revoking a mandate revokes one id that every derived token carries. A mandate is read
through `fresh`, which turns an ACTIVE mandate past its date into an EXPIRED one, and one
whose id is revoked into a REVOKED one, before anything is issued under it.
-/

namespace HeadOfContext

open Effects Except

namespace Mandate

/-- `revocation_id`. -/
def revocationId (m : Mandate) : String := mandateRevocationId m.mandateId

end Mandate

/-- `BINDING_RELATION`. -/
def BINDING_RELATION : String := "can_act_on_behalf_of"

/-- The microseconds of a day. -/
def DAY : ℤ := 86400000000

/-- `MandateService`: the token service it issues with, and its configuration. -/
structure MandateService (Text : Type) where
  tokens : TokenService Text
  hasEngine : Bool
  maxDays : ℤ
  defaultMaxTokenTtl : ℤ

/-- An `except HocError` that maps the error. -/
def mapHoc {S : Sig} {α : Type} (f : HocError → HocError) (p : Raises S Exn α) :
    Raises S Exn α := do
  let answer ← p.attempt
  match answer with
  | .ok a => return a
  | .error (.hoc exc) => .raise (.hoc (f exc))
  | .error (.other name) => .raise (.other name)

namespace MandateService

variable {Text : Type} (svc : MandateService Text)

/-- `_event`, at the reading `at_` of the clock, with the event id drawn for it. -/
def event (kind : EventKind) (m : Mandate) (outcome reason : String) (at_ : ℤ)
    (eventId : String) : AuditEvent where
  kind := kind
  timestamp := .utc at_
  subject := m.subject
  actor := m.agent
  delegationDepth := 0
  action := "mandate"
  resource := ("mandate:" ++ m.mandateId : String)
  outcome := outcome
  reason := if reason = "" then outcome else reason
  engineLatencyMs := zeroMs
  tokenFingerprint := .null
  argsHash := .null
  decisionId := .null
  eventId := eventId

/-- Build an event and journal it. -/
def recordEvent (kind : EventKind) (m : Mandate) (outcome reason : String) : Tokens Unit := do
  let at_ ← Tokens.now
  let eventId ← Tokens.uuid4
  Tokens.record (event kind m outcome reason at_ eventId)

/-- `_require_binding`: an unreachable engine is a refusal. -/
def requireBinding (subject agent : String) : Tokens Unit := do
  if svc.hasEngine = false then
    .raise (.hoc (HocClass.mandateDenied.errorWith "no engine to check the binding"
      "engine_unavailable"))
  else
    let answer ← (Tokens.check subject BINDING_RELATION agent).attempt
    match answer with
    | .error (.hoc exc) => .raise (.hoc exc)
    | .error (.other _) =>
      .raise (.hoc (HocClass.mandateDenied.errorWith "engine unavailable" "engine_unavailable"))
    | .ok bound =>
      if bound = false then
        .raise (.hoc (HocClass.mandateDenied.errorWith "agent is not bound to this user"
          "not_related"))
      else
        return ()

/-- The references of a mandate. -/
def validateParties (subject agent : String) : Except HocError Unit :=
  (do
    let _ ← validateRef subject "user"
    let _ ← validateRef agent "agent"
    return () : Except HocError Unit).mapError fun exc =>
      HocClass.mandateDenied.errorWith exc.message "invalid_reference"

/-- `create`: the human mandates `agent` to act for them until `expiresAt`. -/
def create (subject agent : String) (scope : Scope) (expiresAt : ℤ) (createdBy : String)
    (maxTokenTtl : Option ℤ) : Tokens Mandate := do
  Core.ofHoc (validateParties subject agent)
  Core.ofHoc (raiseIf (createdBy ≠ subject)
    (HocClass.mandateDenied.errorWith "only the subject can mandate an agent" "not_subject"))
  let now ← Tokens.now
  Core.ofHoc (raiseIf (expiresAt ≤ now)
    (HocClass.mandateDenied.errorWith "mandate already expired" "mandate_expired"))
  Core.ofHoc (raiseIf (expiresAt > now + svc.maxDays * DAY)
    (HocClass.mandateDenied.errorWith ("mandate exceeds the " ++
      String.ofList (Decimal.intText svc.maxDays) ++ "-day maximum") "mandate_too_long"))
  Core.ofHoc (raiseIf (scope.sorted = [])
    (HocClass.mandateDenied.errorWith "mandate scope is empty" "scope_empty"))
  let ttl := TokenService.ttlOr maxTokenTtl svc.defaultMaxTokenTtl
  Core.ofHoc (raiseIf (ttl ≤ 0)
    (HocClass.mandateDenied.errorWith "max_token_ttl must be positive" "invalid_ttl"))
  svc.requireBinding subject agent
  let mandateId ← Tokens.uuid4
  let mandate : Mandate :=
    { mandateId := mandateId
      subject := subject
      agent := agent
      scope := scope
      createdAt := now
      expiresAt := expiresAt
      maxTokenTtl := ttl
      createdBy := createdBy
      status := .active
      revokedAt := none
      revocationReason := none }
  Tokens.createMandate mandate
  recordEvent .mandateCreated mandate "created" "created"
  return mandate

/-- `_fresh` for a stored mandate. -/
def fresh (m : Mandate) : Tokens Mandate := do
  if m.status ≠ .active then
    return m
  else
    let now ← Tokens.now
    if m.expiresAt ≤ now then
      let expired := { m with status := .expired }
      Tokens.updateMandate expired
      recordEvent .mandateExpired expired "expired" "expired"
      return expired
    else
      let idRevoked ← mapHoc (fun _ => HocClass.mandateDenied.errorWith
        "revocation store unavailable" "revocation_store_unavailable")
        (TokenService.isRevoked [m.revocationId])
      if idRevoked = true then
        let reason := "revocation_id_revoked"
        let revoked := { m with
          status := .revoked, revokedAt := some now, revocationReason := some reason }
        Tokens.updateMandate revoked
        recordEvent .mandateRevoked revoked "revoked" reason
        return revoked
      else
        return m

/-- `get`. -/
def get (mandateId : String) : Tokens (Option Mandate) := do
  let stored ← Tokens.getMandate mandateId
  match stored with
  | none => return none
  | some m => do
    let m ← fresh m
    return some m

/-- The loop of `_list_fresh`. -/
def freshAll : List Mandate → Tokens (List Mandate)
  | [] => return []
  | m :: rest => do
    let m ← fresh m
    let rest ← freshAll rest
    return m :: rest

/-- `list_for`. -/
def listFor (subject : String) : Tokens (List Mandate) := do
  let stored ← Tokens.listMandates subject
  freshAll stored

/-- `revoke`. The id is revoked first: even if the store write fails, no token under the
mandate works anymore. -/
def revoke (mandateId by_ reason : String) : Tokens Mandate := do
  let stored ← Tokens.getMandate mandateId
  match stored with
  | none =>
    .raise (.hoc (HocClass.mandateDenied.errorWith "unknown mandate" "mandate_unknown"))
  | some m => do
    Core.ofHoc (raiseIf (by_ ≠ m.subject)
      (HocClass.mandateDenied.errorWith "only the subject can revoke a mandate" "not_subject"))
    let now ← Tokens.now
    TokenService.revokeId m.revocationId (if reason = "" then "mandate revoked" else reason)
    let revoked := { m with
      status := .revoked
      revokedAt := some now
      revocationReason := if reason = "" then none else some reason }
    Tokens.updateMandate revoked
    recordEvent .mandateRevoked revoked "revoked" reason
    return revoked

/-- The loop of `_expire`. -/
def recordExpired : List Mandate → Tokens Unit
  | [] => return ()
  | m :: rest => do
    recordEvent .mandateExpired m "expired" "expired"
    recordExpired rest

/-- `expire`: the sweeper. -/
def expire : Tokens ℕ := do
  let now ← Tokens.now
  let expired ← Tokens.expireActive now
  recordExpired expired
  return expired.length

/-- The refusals of `issue`, for a mandate read through `fresh`. -/
def refusals (m : Mandate) (caller : String) (scope : Scope) : Except HocError Unit := do
  raiseIf (m.status = .revoked)
    (HocClass.mandateDenied.errorWith "mandate revoked" "mandate_revoked")
  raiseIf (m.status = .expired)
    (HocClass.mandateDenied.errorWith "mandate expired" "mandate_expired")
  raiseIf (caller ≠ m.agent)
    (HocClass.mandateDenied.errorWith "mandate belongs to another agent" "mandate_wrong_agent")
  raiseIf (scope.isSubsetOf m.scope = false)
    (HocClass.mandateDenied.errorWith "requested scope exceeds the mandate" "scope_escalation")

/-- The lifetime that `issue` asks for, at the reading `now` of the clock. -/
def effectiveTtl (m : Mandate) (ttl : Option ℤ) (now : ℤ) : ℤ :=
  min (min (TokenService.ttlOr ttl m.maxTokenTtl) m.maxTokenTtl) (m.expiresAt - now)

/-- `issue`: a short token for `caller` under an active mandate. -/
def issue (mandateId caller : String) (scope : Scope) (ttl : Option ℤ) :
    Tokens (IssuedToken Text) := do
  let found ← get mandateId
  match found with
  | none =>
    .raise (.hoc (HocClass.mandateDenied.errorWith "unknown mandate" "mandate_unknown"))
  | some m => do
    Core.ofHoc (refusals m caller scope)
    svc.requireBinding m.subject m.agent
    let now ← Tokens.now
    let chain ← Core.ofHoc (PrincipalChain.root m.subject m.agent scope)
    svc.tokens.issue chain (some (effectiveTtl m ttl now)) (some m.mandateId)

end MandateService

end HeadOfContext
