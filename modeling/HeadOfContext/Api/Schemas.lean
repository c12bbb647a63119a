import HeadOfContext.Actions.Gate
import HeadOfContext.Tokens.PostgresMandates

/-!
# Bodies and answers

The request bodies that were accepted, with the facts that the validators have established, and
the answers, which are made of the values of the core. The limits on the lengths of texts and lists
are not modelled.
-/

namespace HeadOfContext

/-! ### Scopes and chains -/

/-- `CapabilityModel`: its validator has made a `Capability` of the resource. -/
structure CapabilityModel where
  kind : Kind
  resource : String
  valid : isResourcePattern resource = true

namespace CapabilityModel

/-- `to_core`. -/
def toCore (c : CapabilityModel) : Capability := ⟨c.kind, c.resource, c.valid⟩

/-- A capability as it is printed. -/
def fromCore (c : Capability) : CapabilityModel := ⟨c.kind, c.resource, c.valid⟩

end CapabilityModel

/-- `ScopeModel`. -/
structure ScopeModel where
  capabilities : List CapabilityModel

namespace ScopeModel

/-- `to_core`. -/
def toCore (s : ScopeModel) : Scope := .fromIterable (s.capabilities.map CapabilityModel.toCore)

/-- `from_core`. -/
def fromCore (s : Scope) : ScopeModel := ⟨s.sorted.map CapabilityModel.fromCore⟩

/-- What was printed of a scope is that scope. -/
theorem toCore_fromCore (s : Scope) : (fromCore s).toCore = s := by
  have hcap : CapabilityModel.toCore ∘ CapabilityModel.fromCore = id := rfl
  rw [toCore, fromCore, List.map_map, hcap, List.map_id, Scope.fromIterable_sorted]

end ScopeModel

/-- `DelegationModel`. -/
structure DelegationModel where
  fromActor : String
  toActor : String
  scope : ScopeModel

/-- `ChainModel`. -/
structure ChainModel where
  subject : String
  actor : String
  rootActor : String
  depth : ℕ
  scope : ScopeModel
  delegation : List DelegationModel

/-- `ChainModel.from_core`. -/
def ChainModel.fromCore (chain : PrincipalChain) : ChainModel where
  subject := chain.subject
  actor := chain.actor
  rootActor := chain.rootActor
  depth := chain.depth
  scope := .fromCore chain.scope
  delegation := chain.delegation.map fun d => ⟨d.fromActor, d.toActor, .fromCore d.scope⟩

/-! ### Tokens -/

/-- The microseconds of a minute. -/
def MINUTE : ℤ := 60000000

/-- `timedelta(minutes=minutes) if minutes else None`. -/
def minutesOrNone : Option ℤ → Option ℤ
  | none => none
  | some minutes => if minutes = 0 then none else some (minutes * MINUTE)

/-- `IssueRequest`: either the human is present, or a mandate stands for them. -/
structure IssueRequest where
  userToken : Option String
  mandateId : Option String
  scope : ScopeModel
  ttlMinutes : Option ℤ
  oneSource : userToken.isNone ≠ mandateId.isNone
  ttl_range : ∀ minutes ∈ ttlMinutes, 1 ≤ minutes ∧ minutes ≤ 24 * 60

/-- `TokenResponse`. -/
structure TokenResponse (Text : Type) where
  token : Text
  chain : ChainModel
  expiresAt : ℤ
  revocationIds : List String

/-- `TokenResponse.from_issued`. -/
def TokenResponse.fromIssued {Text : Type} (issued : IssuedToken Text) : TokenResponse Text where
  token := issued.token
  chain := .fromCore issued.chain
  expiresAt := issued.expiresAt
  revocationIds := issued.revocationIds

/-- `InspectResponse`. -/
structure InspectResponse where
  chain : ChainModel
  expiresAt : ℤ
  revocationIds : List String

/-- `InspectResponse.from_verified`. -/
def InspectResponse.fromVerified (verified : VerifiedToken) : InspectResponse where
  chain := .fromCore verified.chain
  expiresAt := verified.expiresAt
  revocationIds := verified.revocationIds

/-! ### Mandates -/

/-- The microseconds of an hour. -/
def HOUR : ℤ := 3600000000

/-- `MandateCreateRequest`. -/
structure MandateCreateRequest where
  agent : String
  scope : ScopeModel
  expiresInHours : ℤ
  maxTokenTtlMinutes : Option ℤ
  hours_range : 1 ≤ expiresInHours ∧ expiresInHours ≤ 24 * 366
  ttl_range : ∀ minutes ∈ maxTokenTtlMinutes, 1 ≤ minutes ∧ minutes ≤ 24 * 60

/-- `MandateModel`. -/
structure MandateModel where
  mandateId : String
  subject : String
  agent : String
  scope : ScopeModel
  status : String
  createdAt : ℤ
  expiresAt : ℤ
  maxTokenTtlMinutes : ℤ
  createdBy : String
  revokedAt : Option ℤ
  revocationReason : Option String

/-- `MandateModel.from_core`. -/
def MandateModel.fromCore (m : Mandate) : MandateModel where
  mandateId := m.mandateId
  subject := m.subject
  agent := m.agent
  scope := .fromCore m.scope
  status := m.status.str
  createdAt := m.createdAt
  expiresAt := m.expiresAt
  maxTokenTtlMinutes := m.maxTokenTtl / MINUTE
  createdBy := m.createdBy
  revokedAt := m.revokedAt
  revocationReason := m.revocationReason

/-! ### Decisions and approvals -/

/-- `DecisionModel`. -/
structure DecisionModel where
  outcome : String
  reason : String
  decisionId : String
  resource : String
  timestamp : ℤ
  engineLatencyMs : PyFloat

/-- `DecisionModel.from_core`. -/
def DecisionModel.fromCore (d : Decision) : DecisionModel where
  outcome := d.outcome.str
  reason := d.reason
  decisionId := d.decisionId
  resource := d.resource
  timestamp := d.timestamp
  engineLatencyMs := d.engineLatencyMs

/-- `ApprovalModel`. -/
structure ApprovalModel where
  requestId : String
  subject : String
  actor : String
  delegationDepth : ℕ
  tool : String
  argsHash : String
  status : String
  createdAt : ℤ
  expiresAt : ℤ
  resolvedBy : Option String
  resolvedAt : Option ℤ
  resolutionReason : Option String
  approvalReason : String

/-- `ApprovalModel.from_core`. -/
def ApprovalModel.fromCore (r : ApprovalRequest) : ApprovalModel where
  requestId := r.requestId
  subject := r.subject
  actor := r.actor
  delegationDepth := r.delegationDepth
  tool := r.tool
  argsHash := r.argsHash
  status := r.status.str
  createdAt := r.createdAt
  expiresAt := r.expiresAt
  resolvedBy := r.resolvedBy
  resolvedAt := r.resolvedAt
  resolutionReason := r.resolutionReason
  approvalReason := r.approvalReason

/-- `GateResponse`. -/
structure GateResponse where
  decision : DecisionModel
  approval : Option ApprovalModel

/-- The answer to a gate call. -/
def GateResponse.fromCore (result : GateResult) : GateResponse where
  decision := .fromCore result.decision
  approval := result.approval.map ApprovalModel.fromCore

end HeadOfContext
