import HeadOfContext.Actions.Approvals
import HeadOfContext.Core.Decider

/-!
# The action gate

`gate` authorizes a tool call and parks it for approval when a policy asks for one, `resolve`
records what a human decided, and `redeem` turns an approved request into a fresh decision,
once. The gate talks to the store one atomic call at a time; between two calls anything may
happen to the rows.
-/

namespace HeadOfContext

open Effects Except

/-! ### The collaborators -/

/-- A call of the gate: the calls of the decision path, and the approval store and the
channels. -/
inductive GateOp where
  | core (o : CoreOp)
  /-- `approvals.create(request)`. -/
  | create (request : ApprovalRequest)
  /-- `approvals.get(request_id)`. -/
  | get (requestId : String)
  /-- `approvals.update(request)`. -/
  | update (request : ApprovalRequest)
  /-- `approvals.transition(request_id, from_statuses, to_status, **fields)`. -/
  | transition (requestId : String) (fromStatuses : List ApprovalStatus)
      (toStatus : ApprovalStatus) (changes : Changes)
  /-- `approvals.consume(request_id, now)`. -/
  | consume (requestId : String) (now : ℤ)
  /-- `approvals.list_pending(subject=subject)`. -/
  | listPending (subject : Option String)
  /-- `approvals.expire_pending(now)`. -/
  | expirePending (now : ℤ)
  /-- `channel.notify(request)`. -/
  | notify (channel : String) (request : ApprovalRequest)

/-- The answer to each call. -/
abbrev GateOp.Res : GateOp → Type
  | core o => CoreOp.Res o
  | create _ => Except Exn Unit
  | get _ => Except Exn (Option ApprovalRequest)
  | update _ => Except Exn Unit
  | transition _ _ _ _ => Except Exn (Option ApprovalRequest)
  | consume _ _ => Except Exn (Option ApprovalRequest)
  | listPending _ => Except Exn (List ApprovalRequest)
  | expirePending _ => Except Exn ℕ
  | notify _ _ => Except Exn Unit

/-- The interface of the gate. -/
abbrev GateSig : Sig := ⟨GateOp, GateOp.Res⟩

/-- A method of the gate. -/
abbrev Gated := Raises GateSig Exn

namespace Gated

/-- The decision path inside the gate. -/
def coreEmbeds : Prog.Embeds CoreSig GateSig := ⟨.core, fun _ r => r⟩

/-- Run a method of the core. -/
def core {α : Type} (p : Core α) : Gated α := p.embed coreEmbeds

/-- A call of the core, as the gate sees it. -/
def ofCore (e : Event CoreSig) : Event GateSig := ⟨.core e.op, e.res⟩

theorem run_core {α : Type} {p : Core α} {tr : Trace GateSig} {r : Except Exn α} :
    Raises.Run (core p) tr r ↔ ∃ tr₀ : Trace CoreSig, tr = tr₀.map ofCore ∧ Raises.Run p tr₀ r :=
  Prog.run_embed_iff (fun _ => rfl) fun e => ⟨⟨e.op, e.res⟩, rfl⟩

def now : Gated ℤ := .lift (.invoke (S := GateSig) (.core .now))

def uuid4 : Gated String := .lift (.invoke (S := GateSig) (.core .uuid4))

def check (subject relation obj : String) : Gated Bool :=
  ⟨.invoke (S := GateSig) (.core (.check subject relation obj))⟩

def batchCheck (subject : String) (items : List (String × String)) : Gated (List Bool) :=
  ⟨.invoke (S := GateSig) (.core (.batchCheck subject items))⟩

def record (event : AuditEvent) : Gated Unit :=
  ⟨.invoke (S := GateSig) (.core (.record event))⟩

def create (request : ApprovalRequest) : Gated Unit := ⟨.invoke (S := GateSig) (.create request)⟩

def get (requestId : String) : Gated (Option ApprovalRequest) :=
  ⟨.invoke (S := GateSig) (.get requestId)⟩

def update (request : ApprovalRequest) : Gated Unit := ⟨.invoke (S := GateSig) (.update request)⟩

def transition (requestId : String) (fromStatuses : List ApprovalStatus)
    (toStatus : ApprovalStatus) (changes : Changes) : Gated (Option ApprovalRequest) :=
  ⟨.invoke (S := GateSig) (.transition requestId fromStatuses toStatus changes)⟩

def consume (requestId : String) (now : ℤ) : Gated (Option ApprovalRequest) :=
  ⟨.invoke (S := GateSig) (.consume requestId now)⟩

def listPending (subject : Option String) : Gated (List ApprovalRequest) :=
  ⟨.invoke (S := GateSig) (.listPending subject)⟩

def expirePending (now : ℤ) : Gated ℕ := ⟨.invoke (S := GateSig) (.expirePending now)⟩

def notify (channel : String) (request : ApprovalRequest) : Gated Unit :=
  ⟨.invoke (S := GateSig) (.notify channel request)⟩

end Gated

/-! ### Resolving a request -/

/-- `APPROVER_RELATION`. -/
def APPROVER_RELATION : String := "approver"

/-- An approver is a user. -/
def validateApprover (approver : String) : Except HocError String :=
  (validateRef approver "user").mapError fun _ =>
    HocClass.approvalError.error "approver must be a user"

/-- The event of a resolution, or of a refusal to let `approver` resolve. -/
def resolvedEvent (request : ApprovalRequest) (approver : String) (now : ℤ)
    (outcome reason : String) (eventId : String) : AuditEvent where
  kind := .approvalResolved
  timestamp := .utc now
  subject := request.subject
  actor := approver
  delegationDepth := request.delegationDepth
  action := ("approval:" ++ request.requestId : String)
  resource := request.tool
  outcome := outcome
  reason := reason
  engineLatencyMs := zeroMs
  tokenFingerprint := .null
  argsHash := request.argsHash
  decisionId := request.decisionId
  eventId := eventId

/-- Why `approver` may not resolve the request, if so: an unreachable or missing engine
refuses. -/
def approverRefusal (hasEngine : Bool) (request : ApprovalRequest) (approver : String)
    (allowSelfApproval : Bool) : Gated (Option String) := do
  if approver = request.subject then
    if allowSelfApproval then
      return none
    else
      return some "self_approval_disabled"
  else if hasEngine = false then
    return some "engine_unavailable"
  else
    let answer ← (Gated.check approver APPROVER_RELATION request.tool).attempt
    match answer with
    | .error (.hoc exc) => return some exc.reason
    | .error (.other _) => return some "engine_unavailable"
    | .ok allowed =>
      if allowed then
        return none
      else
        return some "approver_not_authorized"

/-- `authorize_approver`: refusals are journaled. -/
def authorizeApprover (hasEngine : Bool) (now : ℤ) (request : ApprovalRequest) (approver : String)
    (allowSelfApproval : Bool) : Gated Unit := do
  let _ ← Core.ofHoc (validateApprover approver)
  let refusal ← approverRefusal hasEngine request approver allowSelfApproval
  match refusal with
  | none => return ()
  | some reason => do
    let eventId ← Gated.uuid4
    Gated.record (resolvedEvent request approver now "REFUSED" reason eventId)
    .raise (.hoc (HocClass.approvalError.errorWith ("approver refused: " ++ reason) reason))

/-- The status that a resolution moves to. -/
def resolvedStatus (approved : Bool) : ApprovalStatus := if approved then .approved else .rejected

/-- The first half of `resolve_request`: an overdue request is expired by an unconditional
write, and only a PENDING one goes on. -/
def refuseUnlessPending (now : ℤ) (request : ApprovalRequest) : Gated Unit := do
  if request.status = .pending ∧ now > request.expiresAt then
    let request := request.withStatus .expired {}
    Gated.update request
    .raise (.hoc (HocClass.approvalError.error
      ("request is " ++ request.status.str ++ ", not pending")))
  else if request.status ≠ .pending then
    .raise (.hoc (HocClass.approvalError.error
      ("request is " ++ request.status.str ++ ", not pending")))
  else
    return ()

/-- `resolve_request`. -/
def resolveRequest (now : ℤ) (requestId approver : String) (approved : Bool) (reason : String)
    (allowSelfApproval : Bool) : Gated ApprovalRequest := do
  let _ ← Core.ofHoc (validateApprover approver)
  let found ← Gated.get requestId
  match found with
  | none => .raise (.hoc (HocClass.approvalError.error "unknown approval request"))
  | some request => do
    refuseUnlessPending now request
    Core.ofHoc (raiseIf (approver = request.subject ∧ allowSelfApproval = false)
      (HocClass.approvalError.error "the subject cannot approve their own request"))
    let resolved ← Gated.transition requestId [.pending] (resolvedStatus approved)
      { resolvedBy := some (some approver)
        resolvedAt := some (some now)
        resolutionReason := some (some reason) }
    match resolved with
    | none => .raise (.hoc (HocClass.approvalError.errorWith "request is no longer pending"
        "approval_not_pending"))
    | some resolved => do
      let eventId ← Gated.uuid4
      Gated.record (resolvedEvent request approver now (resolvedStatus approved).upper
        (if reason = "" then (resolvedStatus approved).str else reason) eventId)
      return resolved

/-! ### The gate -/

/-- `GateResult`. -/
structure GateResult where
  decision : Decision
  approval : Option ApprovalRequest

/-- `allowed`. -/
def GateResult.allowed (r : GateResult) : Bool := r.decision.outcome = .allow

/-- `ActionGate`: its decision path and its configuration. The channels are kept by name. -/
structure ActionGate where
  decider : Decider
  ttl : ℤ
  allowSelfApproval : Bool
  channels : List String

namespace ActionGate

variable (G : ActionGate)

/-- `_event`, at the reading `at_` of the clock, with the event id drawn for it. -/
def event (kind : EventKind) (request : ApprovalRequest) (outcome reason : String) (at_ : ℤ)
    (eventId : String) : AuditEvent where
  kind := kind
  timestamp := .utc at_
  subject := request.subject
  actor := request.actor
  delegationDepth := request.delegationDepth
  action := ("approval:" ++ request.requestId : String)
  resource := request.tool
  outcome := outcome
  reason := reason
  engineLatencyMs := zeroMs
  tokenFingerprint := .null
  argsHash := request.argsHash
  decisionId := request.decisionId
  eventId := eventId

/-- Build an event and journal it. -/
def recordEvent (kind : EventKind) (request : ApprovalRequest) (outcome reason : String) :
    Gated Unit := do
  let at_ ← Gated.now
  let eventId ← Gated.uuid4
  Gated.record (event kind request outcome reason at_ eventId)

/-- `hash_args(args) or ""`. -/
def argsHash (args : Args) : String := (hashArgs G.decider.rt (some args)).getD ""

/-- `_notify`: a failing channel is recorded and skipped. -/
def notify (request : ApprovalRequest) : List String → Gated Unit
  | [] => return ()
  | channel :: rest => do
    let answer ← (Gated.notify channel request).attempt
    match answer with
    | .ok () => notify request rest
    | .error (.hoc exc) =>
      if exc.cls = .approvalChannelError then
        recordEvent .approvalNotifyFailed request "PENDING" exc.reason
        notify request rest
      else
        .raise (.hoc exc)
    | .error (.other name) => .raise (.other name)

/-- The request that `gate` parks. -/
def newRequest (chain : PrincipalChain) (tool : String) (args : Args) (decision : Decision)
    (now : ℤ) (requestId : String) : ApprovalRequest where
  requestId := requestId
  subject := chain.subject
  actor := chain.actor
  delegationDepth := chain.depth
  tool := tool
  argsHash := G.argsHash args
  decisionId := decision.decisionId
  createdAt := now
  expiresAt := now + G.ttl
  approvalReason := decision.reason

/-- `gate`: authorize `tool` for the chain. Never executes anything. -/
def gate (chain : PrincipalChain) (tool : String) (args : Option Args) : Gated GateResult := do
  let _ ← Core.ofHoc (validateRef tool "tool")
  let args := args.getD []
  let decision ← Gated.core (G.decider.decide chain .invoke tool (some args) none)
  if decision.outcome ≠ .requireApproval then
    return ⟨decision, none⟩
  else
    let now ← Gated.now
    let requestId ← Gated.uuid4
    let request := G.newRequest chain tool args decision now requestId
    Gated.create request
    recordEvent .approvalRequested request "PENDING" decision.reason
    notify request G.channels
    return ⟨decision, some request⟩

/-- `resolve`: the tool's approver decides, or the subject with self-approval. -/
def resolve (requestId approver : String) (approved : Bool) (reason : String) :
    Gated ApprovalRequest := do
  let now ← Gated.now
  let found ← Gated.get requestId
  match found with
  | none => .raise (.hoc (HocClass.approvalError.error "unknown approval request"))
  | some request => do
    authorizeApprover true now request approver G.allowSelfApproval
    resolveRequest now requestId approver approved reason G.allowSelfApproval

/-- `pending_for`: the pending requests that `user` may approve, and their own. -/
def pendingFor (user : String) : Gated (List ApprovalRequest) := do
  let _ ← Core.ofHoc (validateRef user "user")
  let pending ← Gated.listPending none
  if pending = [] then
    return []
  else
    let answer ← (Gated.batchCheck user (pending.map fun r => (APPROVER_RELATION, r.tool))).attempt
    match answer with
    | .error (.hoc exc) => .raise (.hoc exc)
    | .error (.other _) =>
      .raise (.hoc (HocClass.engineUnavailable.error "approver check failed"))
    | .ok related =>
      if related.length ≠ pending.length then
        .raise (.other "ValueError")
      else
        return ((pending.zip related).filter fun (r, allowed) =>
          allowed ∨ r.subject = user).map Prod.fst

/-- `_mismatch`. -/
def mismatch (request : ApprovalRequest) (chain : PrincipalChain) (tool : String) (args : Args) :
    Option String :=
  if request.status = .consumed then some "approval_consumed"
  else if request.status = .expired then some "approval_expired"
  else if request.status ≠ .approved then some "approval_not_approved"
  else if request.tool ≠ tool then some "approval_tool_mismatch"
  else if (request.subject, request.actor, request.delegationDepth) ≠
      (chain.subject, chain.actor, chain.depth) then some "approval_chain_mismatch"
  else if request.argsHash ≠ G.argsHash args then some "approval_args_mismatch"
  else none

/-- `_expire_if_needed`. -/
def expireIfNeeded (request : ApprovalRequest) : Gated ApprovalRequest := do
  if request.status = .pending ∨ request.status = .approved then
    let now ← Gated.now
    if now > request.expiresAt then
      let expired ← Gated.transition request.requestId [.pending, .approved] .expired {}
      match expired with
      | some expired => return expired
      | none => do
        let again ← Gated.get request.requestId
        return again.getD request
    else
      return request
  else
    return request

/-- `_deny`: a denial that still goes through the audit path. -/
def deny (chain : PrincipalChain) (tool : String) (args : Args) (reason : String) :
    Gated Decision := do
  let now ← Gated.now
  let decisionId ← Gated.uuid4
  let decision : Decision :=
    { outcome := .deny
      reason := reason
      chain := chain
      resource := tool
      action := .invoke
      timestamp := now
      engineLatencyMs := zeroMs
      decisionId := decisionId
      resources := [] }
  let eventId ← Gated.uuid4
  Gated.record (AuditEvent.fromDecision decision (hashArgs G.decider.rt (some args)) eventId)
  return decision

/-- `x or y` for a string: an empty string is false. -/
def strOr (x : Option String) (y : String) : String :=
  match x with
  | none => y
  | some t => if t = "" then y else t

/-- `redeem`: turn an approved request into a fresh ALLOW decision, once, for the same
call. -/
def redeem (chain : PrincipalChain) (requestId : String) (args : Option Args)
    (tool : Option String) : Gated Decision := do
  let args := args.getD []
  let found ← Gated.get requestId
  match found with
  | none => G.deny chain (strOr tool "tool:unknown") args "approval_unknown"
  | some request => do
    let target := strOr tool request.tool
    let _ ← Core.ofHoc (validateResourcePattern target)
    let request ← expireIfNeeded request
    match G.mismatch request chain target args with
    | some reason => G.deny chain target args reason
    | none => do
      -- concurrent redeems race on this compare-and-set, and a DENY afterwards leaves the
      -- request consumed
      let now ← Gated.now
      let consumed ← Gated.consume request.requestId now
      match consumed with
      | none => G.deny chain target args "approval_consumed"
      | some consumed => do
        let decision ← Gated.core (G.decider.decide chain .invoke target (some args)
          (some ⟨some request.requestId⟩))
        recordEvent .approvalConsumed consumed "CONSUMED"
          (if decision.outcome = .allow then "redeemed" else decision.reason)
        return decision

/-- The sweeper: `expire_pending` at the current reading of the clock. -/
def sweep : Gated ℕ := do
  let now ← Gated.now
  Gated.expirePending now

end ActionGate

end HeadOfContext
