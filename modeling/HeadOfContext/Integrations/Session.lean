import HeadOfContext.Actions.Gate
import HeadOfContext.Tokens.Service

/-!
# Agent sessions

`AgentSession` is the unit every integration uses: a token and its holder, the token service and
the gate. Every tool call verifies the token for the tool, takes the chain that the token proves
and runs the gate. Nothing is cached between calls.
-/

namespace HeadOfContext

open Effects Except PyText

/-! ### The collaborators -/

/-- A call of a session: one of its token service, or one of its gate. -/
inductive SessionOp where
  | token (o : TokenOp)
  | gate (o : GateOp)

/-- The answer to each call. -/
abbrev SessionOp.Res : SessionOp → Type
  | token o => TokenOp.Res o
  | gate o => GateOp.Res o

/-- The interface of a session. -/
abbrev SessionSig : Sig := ⟨SessionOp, SessionOp.Res⟩

/-- A method of a session. -/
abbrev Sessions := Raises SessionSig Exn

namespace Sessions

/-- The token service inside a session. -/
def tokenEmbeds : Prog.Embeds TokenSig SessionSig := ⟨.token, fun _ r => r⟩

/-- The gate inside a session. -/
def gateEmbeds : Prog.Embeds GateSig SessionSig := ⟨.gate, fun _ r => r⟩

/-- Run a method of the token service. -/
def tokens {α : Type} (p : Tokens α) : Sessions α := p.embed tokenEmbeds

/-- Run a method of the gate. -/
def gated {α : Type} (p : Gated α) : Sessions α := p.embed gateEmbeds

/-- A call of the token service, as the session sees it. -/
def ofToken (e : Event TokenSig) : Event SessionSig := ⟨.token e.op, e.res⟩

/-- A call of the gate, as the session sees it. -/
def ofGate (e : Event GateSig) : Event SessionSig := ⟨.gate e.op, e.res⟩

section Runs

variable {α : Type} {tr : Trace SessionSig} {r : Except Exn α}

theorem run_tokens {p : Tokens α} :
    Raises.Run (tokens p) tr r ↔
      ∃ tr₀ : Trace TokenSig, tr = tr₀.map ofToken ∧ Raises.Run p tr₀ r :=
  Prog.run_embed_iff (fun _ => rfl) fun e => ⟨⟨e.op, e.res⟩, rfl⟩

theorem run_gated {p : Gated α} :
    Raises.Run (gated p) tr r ↔
      ∃ tr₀ : Trace GateSig, tr = tr₀.map ofGate ∧ Raises.Run p tr₀ r :=
  Prog.run_embed_iff (fun _ => rfl) fun e => ⟨⟨e.op, e.res⟩, rfl⟩

end Runs

end Sessions

/-! ### Tool names -/

/-- `TOOL_PREFIX`. -/
def TOOL_PREFIX : String := "tool:"

/-- The name with the prefix, if it is not there yet. -/
def prefixedTool (tool : String) : String :=
  if startsWith tool TOOL_PREFIX then tool else TOOL_PREFIX ++ tool

/-- `tool_resource`: invalid names are refused, never sanitized. -/
def toolResource (tool : String) : Except HocError String :=
  (validateRef (prefixedTool tool) "tool").mapError fun exc =>
    if exc.cls.isInvariantViolation then
      HocClass.actionDenied.errorWith ("invalid tool name " ++ quoted tool) "invalid_tool"
    else exc

theorem toolResource_eq_ok {tool resource : String} :
    toolResource tool = .ok resource ↔
      isRef (prefixedTool tool) "tool" = true ∧ resource = prefixedTool tool := by
  rw [toolResource, mapError_eq_ok, validateRef_eq_ok]

/-! ### Sessions -/

/-- `AgentSession`. The constructor has checked the caller. -/
structure AgentSession (Text : Type) where
  token : Text
  caller : String
  tokens : TokenService Text
  gate : ActionGate
  revocationIds : List String
  caller_isRef : isRef caller "agent" = true

namespace AgentSession

variable {Text : Type}

/-- `AgentSession(…)`. -/
def make (token : Text) (caller : String) (tokens : TokenService Text) (gate : ActionGate)
    (revocationIds : List String) : Except HocError (AgentSession Text) :=
  if h : isRef caller "agent" = true then .ok ⟨token, caller, tokens, gate, revocationIds, h⟩
  else .error (HocClass.invariantViolation.error
    ("expected a " ++ quoted "agent" ++ " reference, got " ++ quoted caller))

variable (s : AgentSession Text)

/-- `chain`: the chain proven by the token. -/
def chain : Sessions PrincipalChain := do
  let verified ← Sessions.tokens (s.tokens.inspect s.token s.caller)
  return verified.chain

/-- `permits`: the answer of the token's checks for each resource. -/
def permits (operation : Kind) (resources : List String) : Sessions (List (String × Bool)) := do
  let answer ← Sessions.tokens (s.tokens.verifyMany s.token s.caller operation resources)
  return answer.2

/-- The event of a tool call that the token refused. There is no chain to attach. -/
def refusedEvent (resource reason : String) (at_ : ℤ) (eventId : String) : AuditEvent where
  kind := .decision
  timestamp := .utc at_
  subject := "-"
  actor := s.caller
  delegationDepth := 0
  action := "act:can_invoke"
  resource := resource
  outcome := "DENY"
  reason := reason
  engineLatencyMs := zeroMs
  tokenFingerprint := s.tokens.fingerprint s.token
  argsHash := .null
  decisionId := .null
  eventId := eventId

/-- The handler of `_verify`: journal the refusal, and deny. -/
def refuse {α : Type} (resource : String) (exc : HocError) : Gated α := do
  let at_ ← Gated.now
  let eventId ← Gated.uuid4
  Gated.record (s.refusedEvent resource exc.reason at_ eventId)
  .raise (.hoc (HocClass.actionDenied.errorWith ("tool call refused: " ++ exc.reason) exc.reason))

/-- `_verify`. -/
def verify (resource : String) : Sessions PrincipalChain := do
  let answer ← (Sessions.tokens (s.tokens.verify s.token s.caller .act resource)).attempt
  match answer with
  | .ok verified => return verified.chain
  | .error (.hoc exc) =>
    if exc.cls.isTokenInvalid then Sessions.gated (s.refuse resource exc)
    else .raise (.hoc exc)
  | .error (.other name) => .raise (.other name)

/-- `authorize`: verify the token for this tool, then run the gate. -/
def authorize (tool : String) (args : Option Args) : Sessions GateResult := do
  let resource ← Core.ofHoc (toolResource tool)
  let chain ← s.verify resource
  Sessions.gated (s.gate.gate chain resource args)

/-- `redeem`. -/
def redeem (requestId tool : String) (args : Option Args) : Sessions Decision := do
  let resource ← Core.ofHoc (toolResource tool)
  let chain ← s.verify resource
  Sessions.gated (s.gate.redeem chain requestId args (some resource))

/-- `delegate`: an attenuated token for a sub-agent. -/
def delegate (toActor : String) (scope : Scope) : Sessions (AgentSession Text) := do
  let issued ← Sessions.tokens (s.tokens.attenuate s.token toActor scope)
  Core.ofHoc (make issued.token toActor s.tokens s.gate issued.revocationIds)

end AgentSession

end HeadOfContext
