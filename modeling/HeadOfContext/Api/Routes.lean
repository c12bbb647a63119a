import HeadOfContext.Api.Schemas
import HeadOfContext.Framework.Pool
import HeadOfContext.Identity.Callers
import HeadOfContext.Integrations.Session

/-!
# The routes

A request carries a bearer in its `Authorization` header. The dependencies `require_agent` and
`require_user` verify it before anything else, and the route then works for the caller that it
names: the agent whose token it is, or the human. The routes for tokens, mandates, approvals and
actions are here; the bodies are those that their schemas accept.
-/

namespace HeadOfContext

open Effects Except

/-! ### The collaborators -/

/-- A call of the routes: one of a session, or of the identity provider. -/
inductive ApiOp where
  | session (o : SessionOp)
  /-- `identity.verify_user_token(token)`. -/
  | verifyUserToken (token : String)

/-- The answer to each call. -/
abbrev ApiOp.Res : ApiOp → Type
  | session o => SessionOp.Res o
  | verifyUserToken _ => Except Exn VerifiedIdentity

/-- The interface of the routes. -/
abbrev ApiSig : Sig := ⟨ApiOp, ApiOp.Res⟩

/-- A route. -/
abbrev Routed := Raises ApiSig Exn

namespace Routed

variable {α : Type}

/-- The token layer, as the routes see it. -/
def tokenEmbeds : Prog.Embeds TokenSig ApiSig := ⟨fun o => .session (.token o), fun _ r => r⟩

/-- The gate, as the routes see it. -/
def gateEmbeds : Prog.Embeds GateSig ApiSig := ⟨fun o => .session (.gate o), fun _ r => r⟩

/-- A session, as the routes see it. -/
def sessionEmbeds : Prog.Embeds SessionSig ApiSig := ⟨.session, fun _ r => r⟩

/-- Run a method of the token layer. -/
def tokens (p : Tokens α) : Routed α := p.embed tokenEmbeds

/-- Run a method of the gate. -/
def gated (p : Gated α) : Routed α := p.embed gateEmbeds

/-- Run a method of a session. -/
def session (p : Sessions α) : Routed α := p.embed sessionEmbeds

def verifyUserToken (token : String) : Routed VerifiedIdentity :=
  ⟨.invoke (S := ApiSig) (.verifyUserToken token)⟩

end Routed

/-! ### Callers -/

/-- `CallerMismatch(message, reason=reason)`. No handler tells its class from `HocError`. -/
def callerMismatch (message reason : String) : HocError :=
  HocClass.hocError.errorWith message reason

/-- The token of an `Authorization` header. -/
def bearerToken (authorization : Option String) : Except HocError String :=
  let missing := HocClass.identityError.errorWith "missing bearer token" "missing_bearer"
  match authorization with
  | none => .error missing
  | some header =>
    if "bearer ".toList <+: header.toList.map Char.toLower then
      .ok (String.ofList (PyText.strip (PyText.partition header ' ').2.toList))
    else .error missing

/-- `Services`: what the routes read of it. `repr` is the `str()` of a claim that is no string. -/
structure Services (Text : Type) where
  agentDetection : AgentDetection
  repr : Json → PyStr
  mandates : MandateService Text
  gate : ActionGate

namespace Services

variable {Text : Type} (s : Services Text)

/-- `tokens`, which the mandate service issues with too. -/
def tokens : TokenService Text := s.mandates.tokens

/-- `caller_from_identity(identity, svc(request).agent_detection)`. -/
def callerOf (identity : VerifiedIdentity) : Except HocError Caller :=
  s.agentDetection.callerFromIdentity s.repr identity

/-- `identity_of`. -/
def identityOf (authorization : Option String) : Routed Caller := do
  let token ← Core.ofHoc (bearerToken authorization)
  let identity ← Routed.verifyUserToken token
  Core.ofHoc (s.callerOf identity)

/-- `require_agent`. -/
def requireAgent (authorization : Option String) : Routed Caller := do
  let caller ← s.identityOf authorization
  Core.ofHoc (raiseIf (caller.kind ≠ .agent)
    (callerMismatch "this endpoint is for agents" "caller_not_agent"))
  return caller

/-- `require_user`. -/
def requireUser (authorization : Option String) : Routed Caller := do
  let caller ← s.identityOf authorization
  Core.ofHoc (raiseIf (caller.kind ≠ .user)
    (callerMismatch "this endpoint is for humans" "caller_not_user"))
  return caller

/-! ### Tokens -/

/-- The event of `_deny_issue`. -/
def denyIssueEvent (subject actor reason : String) (at_ : ℤ) (eventId : String) : AuditEvent where
  kind := .tokenIssued
  timestamp := .utc at_
  subject := subject
  actor := actor
  delegationDepth := 0
  action := "token:issue"
  resource := actor
  outcome := "DENY"
  reason := reason
  engineLatencyMs := zeroMs
  tokenFingerprint := .null
  argsHash := .null
  decisionId := .null
  eventId := eventId

/-- `_deny_issue`. -/
def denyIssue (subject actor reason : String) : Tokens Unit := do
  let at_ ← Tokens.now
  let eventId ← Tokens.uuid4
  Tokens.record (denyIssueEvent subject actor reason at_ eventId)

/-- `require_human` in `issue`: a token that is an agent's is refused, and the refusal journaled. -/
def humanOf (identity : VerifiedIdentity) (caller : Caller) : Tokens String :=
  match s.agentDetection.requireHuman s.repr identity with
  | .ok subject => return subject
  | .error exc =>
    if exc.cls.isTokenInvalid then do
      denyIssue identity.subject caller.ref exc.reason
      .raise (.hoc exc)
    else .raise (.hoc exc)

/-- The branch of `issue` for a human who is present. -/
def issuePresent (caller : Caller) (userToken : String) (scope : ScopeModel) (ttl : Option ℤ) :
    Routed (IssuedToken Text) := do
  let identity ← Routed.verifyUserToken userToken
  let subject ← Routed.tokens (s.humanOf identity caller)
  let bound ← Routed.tokens (Tokens.check subject "can_act_on_behalf_of" caller.ref)
  if bound = false then do
    Routed.tokens (denyIssue subject caller.ref "not_related")
    .raise (.hoc (HocClass.tokenInvalid.errorWith "agent is not bound to this user" "not_related"))
  else do
    let chain ← Core.ofHoc (PrincipalChain.root subject caller.ref scope.toCore)
    Routed.tokens (s.tokens.issue chain ttl none)

/-- The two branches of `issue`: a mandate, or a human who is present. -/
def issued (caller : Caller) (body : IssueRequest) : Routed (IssuedToken Text) :=
  let ttl := minutesOrNone body.ttlMinutes
  match body.mandateId with
  | some mandateId => Routed.tokens (s.mandates.issue mandateId caller.ref body.scope.toCore ttl)
  | none =>
    match body.userToken with
    | none => .raise (.hoc (HocClass.tokenInvalid.errorWith "user_token or mandate_id is required"
        "token_invalid"))
    | some userToken => s.issuePresent caller userToken body.scope ttl

/-- `POST /v1/tokens/issue`. -/
def issue (authorization : Option String) (body : IssueRequest) : Routed (TokenResponse Text) := do
  let caller ← s.requireAgent authorization
  let issued ← s.issued caller body
  return .fromIssued issued

/-- `POST /v1/tokens/attenuate`: the holder binding first. -/
def attenuate (authorization : Option String) (token : Text) (toActor : String)
    (scope : ScopeModel) : Routed (TokenResponse Text) := do
  let caller ← s.requireAgent authorization
  let _ ← Core.ofHoc (validateRef toActor "agent")
  let _ ← Routed.tokens (s.tokens.inspect token caller.ref)
  let issued ← Routed.tokens (s.tokens.attenuate token toActor scope.toCore)
  return .fromIssued issued

/-- `POST /v1/tokens/inspect`. -/
def inspect (authorization : Option String) (token : Text) : Routed InspectResponse := do
  let caller ← s.requireAgent authorization
  let verified ← Routed.tokens (s.tokens.inspect token caller.ref)
  return .fromVerified verified

/-- `POST /v1/tokens/revoke`. -/
def revoke (authorization : Option String) (token : Text) (reason : String) :
    Routed InspectResponse := do
  let caller ← s.requireAgent authorization
  let verified ← Routed.tokens (s.tokens.inspect token caller.ref)
  let _ ← Routed.tokens (s.tokens.revoke token caller.ref reason)
  return .fromVerified verified

/-! ### Mandates -/

/-- `POST /v1/mandates`. -/
def mandatesCreate (authorization : Option String) (body : MandateCreateRequest) :
    Routed MandateModel := do
  let caller ← s.requireUser authorization
  let now ← Routed.tokens Tokens.now
  let mandate ← Routed.tokens (s.mandates.create caller.ref body.agent body.scope.toCore
    (now + body.expiresInHours * HOUR) caller.ref (minutesOrNone body.maxTokenTtlMinutes))
  return .fromCore mandate

/-- `GET /v1/mandates`. -/
def mandatesList (authorization : Option String) : Routed (List MandateModel) := do
  let caller ← s.requireUser authorization
  let mandates ← Routed.tokens (MandateService.listFor caller.ref)
  return mandates.map .fromCore

/-- `DELETE /v1/mandates/{mandate_id}`. -/
def mandatesRevoke (authorization : Option String) (mandateId : String) (reason : Option String) :
    Routed MandateModel := do
  let caller ← s.requireUser authorization
  let revoked ← Routed.tokens
    (MandateService.revoke mandateId caller.ref (reason.getD "revoked by subject"))
  return .fromCore revoked

/-! ### Approvals and actions -/

/-- `GET /v1/approvals`. -/
def approvalsList (authorization : Option String) : Routed (List ApprovalModel) := do
  let caller ← s.requireUser authorization
  let pending ← Routed.gated (ActionGate.pendingFor caller.ref)
  return pending.map .fromCore

/-- `POST /v1/approvals/{request_id}/resolve`. -/
def approvalsResolve (authorization : Option String) (requestId : String) (approved : Bool)
    (reason : String) : Routed ApprovalModel := do
  let caller ← s.requireUser authorization
  let resolved ← Routed.gated (s.gate.resolve requestId caller.ref approved reason)
  return .fromCore resolved

/-- `session`: the token, held by the caller. -/
def sessionOf (caller : Caller) (token : Text) : Routed (AgentSession Text) :=
  Core.ofHoc (AgentSession.make token caller.ref s.tokens s.gate [])

/-- `POST /v1/actions/gate`. -/
def actionsGate (authorization : Option String) (token : Text) (tool : String) (args : Args) :
    Routed GateResponse := do
  let caller ← s.requireAgent authorization
  let session ← s.sessionOf caller token
  let result ← Routed.session (session.authorize tool (some args))
  return .fromCore result

/-- `POST /v1/actions/redeem`. -/
def actionsRedeem (authorization : Option String) (token : Text) (requestId tool : String)
    (args : Args) : Routed DecisionModel := do
  let caller ← s.requireAgent authorization
  let session ← s.sessionOf caller token
  let decision ← Routed.session (session.redeem requestId tool (some args))
  return .fromCore decision

end Services

/-! ### Status codes -/

/-- `isinstance(exc, Unavailable)`. -/
def HocClass.isUnavailable : HocClass → Bool
  | unavailable | engineUnavailable | auditUnavailable | approvalStoreUnavailable
  | mandateStoreUnavailable | ledgerUnavailable | connectorStateUnavailable
  | revocationStoreUnavailable => true
  | _ => false

/-- `status_for`: the first entry of `_STATUS` that the error is an instance of. -/
def statusFor (exc : HocError) : ℕ :=
  if exc.cls = .identityError then 401
  else if exc.cls.isUnavailable = true ∨ exc.cls = .connectorStale then 503
  else 403

/-! ### The service -/

/-- The requests of clients, and the sweepers, which work on the same stores. -/
inductive ApiCall (Text : Type) where
  | issue (authorization : Option String) (body : IssueRequest)
  | attenuate (authorization : Option String) (token : Text) (toActor : String) (scope : ScopeModel)
  | inspect (authorization : Option String) (token : Text)
  | revoke (authorization : Option String) (token : Text) (reason : String)
  | mandatesCreate (authorization : Option String) (body : MandateCreateRequest)
  | mandatesList (authorization : Option String)
  | mandatesRevoke (authorization : Option String) (mandateId : String) (reason : Option String)
  | approvalsList (authorization : Option String)
  | approvalsResolve (authorization : Option String) (requestId : String) (approved : Bool)
      (reason : String)
  | actionsGate (authorization : Option String) (token : Text) (tool : String) (args : Args)
  | actionsRedeem (authorization : Option String) (token : Text) (requestId tool : String)
      (args : Args)
  /-- `mandates.expire()`. -/
  | sweepMandates
  /-- `gate.sweep()`. -/
  | sweepApprovals

/-- The answer to each call, where it succeeds. -/
abbrev ApiCall.Answer {Text : Type} : ApiCall Text → Type
  | issue _ _ => TokenResponse Text
  | attenuate _ _ _ _ => TokenResponse Text
  | inspect _ _ => InspectResponse
  | revoke _ _ _ => InspectResponse
  | mandatesCreate _ _ => MandateModel
  | mandatesList _ => List MandateModel
  | mandatesRevoke _ _ _ => MandateModel
  | approvalsList _ => List ApprovalModel
  | approvalsResolve _ _ _ _ => ApprovalModel
  | actionsGate _ _ _ _ => GateResponse
  | actionsRedeem _ _ _ _ _ => DecisionModel
  | sweepMandates => ℕ
  | sweepApprovals => ℕ

/-- What each call returns. -/
abbrev ApiCall.Out {Text : Type} (c : ApiCall Text) : Type := Except Exn c.Answer

/-- The programs of the calls. -/
def Services.api {Text : Type} (s : Services Text) : Service ApiSig where
  Call := ApiCall Text
  Out := ApiCall.Out
  body
    | .issue authorization body => (s.issue authorization body).run
    | .attenuate authorization token toActor scope =>
      (s.attenuate authorization token toActor scope).run
    | .inspect authorization token => (s.inspect authorization token).run
    | .revoke authorization token reason => (s.revoke authorization token reason).run
    | .mandatesCreate authorization body => (s.mandatesCreate authorization body).run
    | .mandatesList authorization => (s.mandatesList authorization).run
    | .mandatesRevoke authorization mandateId reason =>
      (s.mandatesRevoke authorization mandateId reason).run
    | .approvalsList authorization => (s.approvalsList authorization).run
    | .approvalsResolve authorization requestId approved reason =>
      (s.approvalsResolve authorization requestId approved reason).run
    | .actionsGate authorization token tool args =>
      (s.actionsGate authorization token tool args).run
    | .actionsRedeem authorization token requestId tool args =>
      (s.actionsRedeem authorization token requestId tool args).run
    | .sweepMandates => (Routed.tokens MandateService.expire).run
    | .sweepApprovals => (Routed.gated ActionGate.sweep).run

end HeadOfContext
