import HeadOfContext.Core.Events

/-!
# Actions, decisions and policy verdicts

The value objects of `core/decision.py` and `core/policy.py`. A policy can only lower
an outcome; `mostRestrictive` compares two verdicts by severity.
-/

namespace HeadOfContext

inductive Outcome where
  | allow | deny | requireApproval
  deriving DecidableEq, Repr

/-- `str(outcome)`. -/
def Outcome.str : Outcome → String
  | allow => "ALLOW"
  | deny => "DENY"
  | requireApproval => "REQUIRE_APPROVAL"

/-- What the actor wants to do, and the relation that grants it to the subject. -/
structure Action where
  kind : Kind
  relation : String
  deriving DecidableEq

namespace Action

def read : Action := ⟨.read, "viewer"⟩
def edit : Action := ⟨.act, "editor"⟩
def invoke : Action := ⟨.act, "can_invoke"⟩

/-- Create a memory derived from documents the subject can view. -/
def remember : Action := ⟨.remember, "viewer"⟩

/-- Recall a memory: READ scope on the memory, viewer on every source document. -/
def readMemory : Action := ⟨.read, "viewer"⟩

end Action

/-- `Decision`. -/
structure Decision where
  outcome : Outcome
  reason : String
  chain : PrincipalChain
  resource : String
  action : Action
  timestamp : ℤ
  engineLatencyMs : PyFloat
  decisionId : String
  /-- Every resource the engine was asked about; `resource` is the one named in the
  audit. -/
  resources : List String

/-- `AuditEvent.from_decision`, with the event id drawn for it. -/
def AuditEvent.fromDecision (d : Decision) (argsHash : Option String) (eventId : String) :
    AuditEvent where
  kind := .decision
  timestamp := .utc d.timestamp
  subject := d.chain.subject
  actor := d.chain.actor
  delegationDepth := d.chain.depth
  action := (d.action.kind.str ++ ":" ++ d.action.relation : String)
  resource := d.resource
  outcome := d.outcome.str
  reason := d.reason
  engineLatencyMs := d.engineLatencyMs
  tokenFingerprint := .null
  argsHash := .ofOption argsHash
  decisionId := d.decisionId
  eventId := eventId

/-- What a policy says. -/
structure Verdict where
  outcome : Outcome
  reason : String
  deriving DecidableEq

/-- `policy.ALLOW`. -/
def Verdict.policyAllowed : Verdict := ⟨.allow, "policy_allowed"⟩

/-- `_SEVERITY`. -/
def Outcome.severity : Outcome → ℕ
  | allow => 0
  | requireApproval => 1
  | deny => 2

/-- `most_restrictive`. -/
def mostRestrictive (a b : Verdict) : Verdict :=
  if b.outcome.severity > a.outcome.severity then b else a

/-- What the caller can legitimately assert about this call. Set by the gate. -/
structure DecisionContext where
  approvalId : Option String
  deriving DecidableEq

/-- `_NO_CONTEXT`. -/
def DecisionContext.none : DecisionContext := ⟨.none⟩

end HeadOfContext
