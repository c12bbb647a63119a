import HeadOfContext.Core.Effects
import HeadOfContext.Framework.Chunks

/-!
# The decision path

`Decider` is the one path shared by READ, ACT and REMEMBER. The order is deliberate:
the actor's scope must cover the request, the engine must relate the subject to the
resource, a policy may downgrade an ALLOW, and the audit sink must accept the event
before the decision is returned.

The three entry points are `decide`, `decideAll` and `decideEach`. The metrics sink is
left out: it is told about decisions that are already journaled.
-/

namespace HeadOfContext

open Effects

/-- `BatchCheck` accepts at most 50 checks per call. -/
def BATCH_LIMIT : ℕ := 50

/-- The configuration of a decider: whether a policy is configured, and the printing
used by the fingerprints of arguments. -/
structure Decider where
  rt : Runtime
  hasPolicy : Bool

/-- An outcome with its reason and the engine latency. -/
structure Judged where
  outcome : Outcome
  reason : String
  latencyMs : PyFloat

namespace Decider

variable (D : Decider)

/-- `BatchCheck` with every failure mapped to a denial reason: the answers, or no
answers and the reason. -/
def batch (subject relation : String) (resources : List String) :
    Core (List Bool × Option String) := do
  let answer ← (Core.batchCheck subject (resources.map fun r => (relation, r))).attempt
  match answer with
  | .error (.hoc exc) => return ([], some exc.reason)
  | .error (.other _) => return ([], some "engine_error")
  | .ok related =>
    if related.length ≠ resources.length then
      return ([], some "engine_error")
    else
      return (related, none)

/-- Policies run after scope and engine; a failing policy is a denial, never a pass. -/
def policyVerdict (chain : PrincipalChain) (action : Action) (resource : String) (args : Args)
    (context : DecisionContext) : Core Verdict := do
  if D.hasPolicy then
    let answer ← (Core.policy chain action resource args context).attempt
    match answer with
    | .error _ => return ⟨.deny, "policy_error"⟩
    | .ok verdict =>
      if verdict.outcome = .allow then
        return ⟨.allow, "allowed"⟩
      else
        return verdict
  else
    return ⟨.allow, "allowed"⟩

/-- The target of a scope question: the resource was validated by the caller. -/
def scopeCovers (chain : PrincipalChain) (kind : Kind) (resource : String) : Bool :=
  match Capability.make kind resource with
  | .ok cap => chain.scope.covers cap
  | .error _ => false

/-- `_evaluate`. -/
def evaluate (chain : PrincipalChain) (action : Action) (resource : String) (args : Args)
    (context : DecisionContext) : Core Judged := do
  if scopeCovers chain action.kind resource = false then
    return ⟨.deny, "scope_excluded", zeroMs⟩
  else
    let answer ← (Core.check chain.subject action.relation resource).attempt
    let latencyMs ← Core.elapsedMs
    match answer with
    | .error (.hoc exc) => return ⟨.deny, exc.reason, latencyMs⟩
    | .error (.other _) => return ⟨.deny, "engine_error", latencyMs⟩
    | .ok related =>
      if related = false then
        return ⟨.deny, "not_related", latencyMs⟩
      else
        let verdict ← D.policyVerdict chain action resource args context
        return ⟨verdict.outcome, verdict.reason, latencyMs⟩

/-- Build the decision and journal it: an unlogged decision never reaches the caller. -/
def conclude (judged : Judged) (chain : PrincipalChain) (action : Action) (resource : String)
    (timestamp : ℤ) (resources : List String) (args : Option Args) (audited : Bool) :
    Core Decision := do
  let decisionId ← Core.uuid4
  let decision : Decision :=
    { outcome := judged.outcome
      reason := judged.reason
      chain := chain
      resource := resource
      action := action
      timestamp := timestamp
      engineLatencyMs := judged.latencyMs
      decisionId := decisionId
      resources := resources }
  if audited then
    let eventId ← Core.uuid4
    Core.record (AuditEvent.fromDecision decision (hashArgs D.rt args) eventId)
    return decision
  else
    return decision

/-- `decide`. -/
def decide (chain : PrincipalChain) (action : Action) (resource : String)
    (args : Option Args) (context : Option DecisionContext) : Core Decision := do
  let _ ← Core.ofHoc (validateResourcePattern resource)
  let _ ← Core.ofHoc (validateRef chain.subject "user")
  let judged ← D.evaluate chain action resource (args.getD []) (context.getD .none)
  let timestamp ← Core.now
  D.conclude judged chain action resource timestamp [] args true

/-! ### Every resource at once -/

/-- The policy loop of `_evaluate_all`: the first verdict that is not ALLOW wins. -/
def policyLoop (chain : PrincipalChain) (action : Action) (args : Args)
    (context : DecisionContext) (latencyMs : PyFloat) : List String → Core Judged
  | [] => return ⟨.allow, "allowed", latencyMs⟩
  | item :: rest => do
    let verdict ← D.policyVerdict chain action item args context
    if verdict.outcome ≠ .allow then
      return ⟨verdict.outcome, verdict.reason, latencyMs⟩
    else
      policyLoop chain action args context latencyMs rest

/-- `_evaluate_all`. -/
def evaluateAll (chain : PrincipalChain) (action : Action) (resources scopeTargets : List String)
    (explicitScope : Bool) (args : Args) (context : DecisionContext) : Core Judged := do
  if resources = [] ∧ explicitScope = false then
    return ⟨.deny, "no_resource", zeroMs⟩
  else if scopeTargets.any (fun t => !scopeCovers chain action.kind t) then
    return ⟨.deny, "scope_excluded", zeroMs⟩
  else if resources = [] then
    -- nothing to relate (a memory with no source): the scope alone was the question
    return ⟨.allow, "scope_only", zeroMs⟩
  else
    let (related, failure) ← batch chain.subject action.relation resources
    let latencyMs ← Core.elapsedMs
    match failure with
    | some reason => return ⟨.deny, reason, latencyMs⟩
    | none =>
      if related.all id = false then
        return ⟨.deny, "not_related", latencyMs⟩
      else
        D.policyLoop chain action args context latencyMs resources

/-- Validate a list of resource patterns in order. -/
def validateAll : List String → Except HocError Unit
  | [] => .ok ()
  | item :: rest => do
    let _ ← validateResourcePattern item
    validateAll rest

/-- `decide_all`: ALLOW only if every resource is allowed. `scopeResources` are what the
actor's scope must cover (defaults to `resources`), `resource` names the decision in the
audit (defaults to the first resource). -/
def decideAll (chain : PrincipalChain) (action : Action) (resources : List String)
    (scopeResources : Option (List String)) (resource : Option String)
    (args : Option Args) (context : Option DecisionContext) : Core Decision := do
  let _ ← Core.ofHoc (validateRef chain.subject "user")
  let scopeTargets := scopeResources.getD resources
  Core.ofHoc (validateAll (resources ++ scopeTargets))
  let named := resource.getD (resources.headD "")
  let judged ← D.evaluateAll chain action resources scopeTargets scopeResources.isSome
    (args.getD []) (context.getD .none)
  let timestamp ← Core.now
  D.conclude judged chain action named timestamp resources args true

/-! ### One decision per resource -/

/-- The outcomes decided so far, by the position of the resource. -/
abbrev Outcomes := List (ℕ × Judged)

/-- The branch taken for one position of a chunk, given the answer of its batch. -/
def judgeItem (chain : PrincipalChain) (action : Action) (item : String) (args : Args)
    (context : DecisionContext) (failure : Option String) (related : Option Bool)
    (latencyMs : PyFloat) : Core Judged := do
  match failure with
  | some reason => return ⟨.deny, reason, latencyMs⟩
  | none =>
    if related ≠ some true then
      return ⟨.deny, "not_related", latencyMs⟩
    else
      let verdict ← D.policyVerdict chain action item args context
      return ⟨verdict.outcome, verdict.reason, latencyMs⟩

/-- The inner loop: the positions of one chunk. -/
def judgeChunk (chain : PrincipalChain) (action : Action) (targets : List String) (args : Args)
    (context : DecisionContext) (failure : Option String) (related : List Bool)
    (latencyMs : PyFloat) : ℕ → List ℕ → Outcomes → Core Outcomes
  | _, [], outcomes => return outcomes
  | position, index :: chunk, outcomes => do
    let judged ← D.judgeItem chain action (targets.getD index "") args context failure
      related[position]? latencyMs
    judgeChunk chain action targets args context failure related latencyMs (position + 1) chunk
      (outcomes ++ [(index, judged)])

/-- The outer loop: one `BatchCheck` per chunk. -/
def judgeChunks (chain : PrincipalChain) (action : Action) (targets : List String) (args : Args)
    (context : DecisionContext) : List (List ℕ) → Outcomes → Core Outcomes
  | [], outcomes => return outcomes
  | chunk :: rest, outcomes => do
    let (related, failure) ← batch chain.subject action.relation
      (chunk.map fun i => targets.getD i "")
    let latencyMs ← Core.elapsedMs
    let outcomes ← D.judgeChunk chain action targets args context failure related latencyMs 0
      chunk outcomes
    judgeChunks chain action targets args context rest outcomes

/-- The last loop: one decision per position, in input order. -/
def concludeEach (chain : PrincipalChain) (action : Action) (outcomes : Outcomes) (now : ℤ)
    (args : Option Args) (auditEach : Bool) : ℕ → List String → Core (List Decision)
  | _, [] => return []
  | index, item :: rest => do
    match outcomes.lookup index with
    | none => .raise (.other "KeyError")
    | some judged =>
      let decision ← D.conclude judged chain action item now [] args auditEach
      let decisions ← concludeEach chain action outcomes now args auditEach (index + 1) rest
      return decision :: decisions

/-- The positions whose resource the scope covers: the ones the engine is asked about. -/
def toCheck (chain : PrincipalChain) (kind : Kind) (targets : List String) : List ℕ :=
  (List.range targets.length).filter fun i => scopeCovers chain kind (targets.getD i "")

/-- The positions whose resource the scope does not cover, already denied. -/
def scopeExcluded (chain : PrincipalChain) (kind : Kind) (targets : List String) : Outcomes :=
  ((List.range targets.length).filter fun i => !scopeCovers chain kind (targets.getD i "")).map
    fun i => (i, ⟨.deny, "scope_excluded", zeroMs⟩)

/-- `decide_each`: one decision per resource from batched engine calls. With
`auditEach = false` the caller is responsible for journaling the set decision. -/
def decideEach (chain : PrincipalChain) (action : Action) (targets : List String)
    (auditEach : Bool) (args : Option Args) (context : Option DecisionContext) :
    Core (List Decision) := do
  let _ ← Core.ofHoc (validateRef chain.subject "user")
  Core.ofHoc (validateAll targets)
  if targets = [] then
    return []
  else
    let outcomes ← D.judgeChunks chain action targets (args.getD []) (context.getD .none)
      ((toCheck chain action.kind targets).chunksOf BATCH_LIMIT)
      (scopeExcluded chain action.kind targets)
    let now ← Core.now
    D.concludeEach chain action outcomes now args auditEach 0 targets

end Decider

end HeadOfContext
