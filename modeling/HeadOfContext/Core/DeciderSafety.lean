import HeadOfContext.Core.Decider
import Mathlib.Data.List.Nodup

/-!
# What an ALLOW takes

The engine, the policy and the audit sink answer as they like; the theorem reads the
run of a decision method and says what must have happened in it. An ALLOW takes a scope
that covers the resource, an engine that answered True for it, and a policy, when one is
configured, that allowed it. A failure of the engine or of the policy denies, and only
what it was asked about. Every decision that is returned has been accepted by the sink.

`decideEach` keeps its outcomes by position while it asks the engine in slices, so its
law (`DecidesEach`) is stated by position too: slice by slice for the engine
(`BatchJudges`) and call by call for the policy (`PolicyJudges`). The proof follows the
loops: one lemma for a position, one for a slice, one for all slices, one for the
journal, each an induction over the list its loop runs through.
-/

namespace HeadOfContext

open Effects

/-! ### Reading a run -/

/-- The event is a call of `engine.batch_check`. -/
def isBatchCheck : Event CoreSig → Bool
  | ⟨.batchCheck _ _, _⟩ => true
  | _ => false

/-- The event is a call of `policy.evaluate`. -/
def isPolicy : Event CoreSig → Bool
  | ⟨.policy _ _ _ _ _, _⟩ => true
  | _ => false

/-- The event is a call of the engine, by either of its methods. -/
def isEngine : Event CoreSig → Bool
  | ⟨.check _ _ _, _⟩ => true
  | ⟨.batchCheck _ _, _⟩ => true
  | _ => false

/-- The audit event handed to the sink, with the answer of the sink. -/
def recorded : Event CoreSig → Option (AuditEvent × Except Exn Unit)
  | ⟨.record event, answer⟩ => some (event, answer)
  | _ => none

/-- What the sink was given in a run, in order. -/
def recordings (tr : Trace CoreSig) : List (AuditEvent × Except Exn Unit) :=
  tr.filterMap recorded

/-- The event is a failure of the engine or of the policy: an exception, or a batch
answer of the wrong length. -/
def Failure : Event CoreSig → Prop
  | ⟨.check _ _ _, answer⟩ => ∃ exc, answer = .error exc
  | ⟨.batchCheck _ items, answer⟩ => ∀ related, answer = .ok related →
      related.length ≠ items.length
  | ⟨.policy _ _ _ _ _, answer⟩ => ∃ exc, answer = .error exc
  | _ => False

/-- The engine answered True for the triple, in a single check or at its position of a
batch whose answer has the right length. -/
def Related (tr : Trace CoreSig) (subject relation resource : String) : Prop :=
  ⟨.check subject relation resource, .ok true⟩ ∈ tr ∨
    ∃ (items : List (String × String)) (related : List Bool),
      ⟨.batchCheck subject items, .ok related⟩ ∈ tr ∧
      related.length = items.length ∧
      ∃ p : ℕ, items[p]? = some (relation, resource) ∧ related[p]? = some true

/-- The scope of the chain covers the operation on the resource. -/
def Covered (chain : PrincipalChain) (kind : Kind) (resource : String) : Prop :=
  ∃ cap : Capability, cap.kind = kind ∧ cap.resource = resource ∧ chain.scope.covers cap = true

/-- The outcome of `_policy_verdict` when the policy answers so. -/
def policyOutcome : Except Exn Verdict → Outcome
  | .error _ => .deny
  | .ok verdict => verdict.outcome

/-- The journal entry of a decision, accepted by the sink. -/
structure Journals (d : Decision) (entry : AuditEvent × Except Exn Unit) : Prop where
  accepted : entry.2 = .ok ()
  kind : entry.1.kind = .decision
  decisionId : entry.1.decisionId = d.decisionId
  outcome : entry.1.outcome = d.outcome.str
  reason : entry.1.reason = d.reason

/-! ### Events that ask nothing -/

/-- The event asks the engine or the policy. -/
def Asks (e : Event CoreSig) : Prop := isEngine e = true ∨ isPolicy e = true

/-- The run asks neither the engine nor the policy. -/
def Quiet (tr : Trace CoreSig) : Prop := ∀ e ∈ tr, ¬ Asks e

theorem Failure.asks {e : Event CoreSig} (h : Failure e) : Asks e := by
  obtain ⟨op, answer⟩ := e
  cases op with
  | check => exact .inl rfl
  | batchCheck => exact .inl rfl
  | policy => exact .inr rfl
  | now => exact absurd h id
  | uuid4 => exact absurd h id
  | elapsedMs => exact absurd h id
  | record => exact absurd h id

theorem quiet_nil : Quiet [] := fun _ he => absurd he List.not_mem_nil

theorem quiet_append {tr₁ tr₂ : Trace CoreSig} : Quiet (tr₁ ++ tr₂) ↔ Quiet tr₁ ∧ Quiet tr₂ :=
  List.forall_mem_append

theorem quiet_singleton {e : Event CoreSig} (he : ¬ Asks e) : Quiet [e] := by
  intro e' he'
  rwa [List.mem_singleton.mp he']

theorem Quiet.filter_isPolicy {tr : Trace CoreSig} (h : Quiet tr) : tr.filter isPolicy = [] :=
  List.filter_eq_nil_iff.mpr fun e he hp => h e he (.inr hp)

theorem isEngine_of_isBatchCheck {e : Event CoreSig} (h : isBatchCheck e = true) :
    isEngine e = true := by
  obtain ⟨op, answer⟩ := e
  cases op <;> simp_all [isBatchCheck, isEngine]

theorem Quiet.filter_isBatchCheck {tr : Trace CoreSig} (h : Quiet tr) :
    tr.filter isBatchCheck = [] :=
  List.filter_eq_nil_iff.mpr fun e he hp => h e he (.inl (isEngine_of_isBatchCheck hp))

@[simp] theorem recordings_append (tr₁ tr₂ : Trace CoreSig) :
    recordings (tr₁ ++ tr₂) = recordings tr₁ ++ recordings tr₂ :=
  List.filterMap_append

theorem Related.mono {tr tr' : Trace CoreSig} {subject relation resource : String}
    (h : Related tr subject relation resource) (hsub : tr ⊆ tr') :
    Related tr' subject relation resource := by
  rcases h with h | ⟨items, related, hmem, hlen, p, hp⟩
  · exact .inl (hsub h)
  · exact .inr ⟨items, related, hsub hmem, hlen, p, hp⟩

namespace Decider

variable (D : Decider) (chain : PrincipalChain) (action : Action) (args : Args)
  (context : DecisionContext)

/-- What the engine and the policy must have said about a resource in the run. -/
structure Earned (tr : Trace CoreSig) (resource : String) : Prop where
  related : Related tr chain.subject action.relation resource
  permitted : D.hasPolicy = true → ∃ answer,
    ⟨.policy chain action resource args context, answer⟩ ∈ tr ∧ policyOutcome answer = .allow

/-- The run `tr` of `decide` may return `d`. -/
structure Decides (resource : String) (tr : Trace CoreSig) (d : Decision) : Prop where
  allow : d.outcome = .allow →
    Covered chain action.kind resource ∧ D.Earned chain action args context tr resource
  failure : (∃ e ∈ tr, Failure e) → d.outcome = .deny
  journal : List.Forall₂ Journals [d] (recordings tr)

/-- The run `tr` of `decideAll` may return `d`. -/
structure DecidesAll (resources scopeTargets : List String) (tr : Trace CoreSig)
    (d : Decision) : Prop where
  allow : d.outcome = .allow →
    (∀ target ∈ scopeTargets, Covered chain action.kind target) ∧
      ∀ resource ∈ resources, D.Earned chain action args context tr resource
  /-- With no resources the scope alone is the question. -/
  asksNone : resources = [] → ∀ e ∈ tr, isEngine e = false
  failure : (∃ e ∈ tr, Failure e) → d.outcome = .deny
  journal : List.Forall₂ Journals [d] (recordings tr)

/-- The event is the `BatchCheck` for the slice, and it denies every position of it
except those it answered True for. -/
def BatchJudges (targets : List String) (outcome : ℕ → Outcome → Prop) (slice : List ℕ)
    (e : Event CoreSig) : Prop :=
  ∃ answer, e = ⟨.batchCheck chain.subject
      (slice.map fun i => (action.relation, targets.getD i "")), answer⟩ ∧
    ∀ p i : ℕ, slice[p]? = some i → outcome i .deny ∨
      ∃ related : List Bool, answer = .ok related ∧ related.length = slice.length ∧
        related[p]? = some true

/-- The event is the policy call for the position, and it decides its outcome. -/
def PolicyJudges (targets : List String) (outcome : ℕ → Outcome → Prop) (i : ℕ)
    (e : Event CoreSig) : Prop :=
  ∃ answer, e = ⟨.policy chain action (targets.getD i "") args context, answer⟩ ∧
    outcome i (policyOutcome answer)

/-- The run `tr` of `decideEach` may return `ds`. -/
structure DecidesEach (targets : List String) (auditEach : Bool) (tr : Trace CoreSig)
    (ds : List Decision) : Prop where
  resources : ds.map Decision.resource = targets
  allow : ∀ d ∈ ds, d.outcome = .allow →
    Covered chain action.kind d.resource ∧ D.Earned chain action args context tr d.resource
  /-- Each slice is asked about once, and a failure denies that slice. -/
  batches : List.Forall₂
    (BatchJudges chain action targets fun i o => (ds[i]?.map Decision.outcome) = some o)
    ((toCheck chain action.kind targets).chunksOf BATCH_LIMIT) (tr.filter isBatchCheck)
  /-- The policy is asked at most once about a position, and a failure denies it. -/
  policies : ∃ asked : List ℕ, asked.Sublist (toCheck chain action.kind targets) ∧
    List.Forall₂
      (PolicyJudges chain action args context targets
        fun i o => (ds[i]?.map Decision.outcome) = some o)
      asked (tr.filter isPolicy)
  journal : auditEach = true → List.Forall₂ Journals ds (recordings tr)

/-! ### The calls of each method -/

variable {D chain action args context}

theorem policyVerdict_run {resource : String} {tr : Trace CoreSig} {v : Verdict}
    (h : Raises.Run (D.policyVerdict chain action resource args context) tr (.ok v)) :
    (D.hasPolicy = false ∧ tr = [] ∧ v.outcome = .allow) ∨
      (D.hasPolicy = true ∧ ∃ answer,
        tr = [⟨.policy chain action resource args context, answer⟩] ∧
        v.outcome = policyOutcome answer) := by
  unfold policyVerdict at h
  by_cases hp : D.hasPolicy = true
  · rw [if_pos hp] at h
    obtain ⟨answer, tr₁, tr₂, rfl, h₁, h₂⟩ := Raises.run_bind_ok.mp h
    obtain rfl := Raises.run_invoke.mp (Raises.run_attempt_ok.mp h₁)
    refine .inr ⟨hp, answer, ?_⟩
    -- a policy that raises denies, and a verdict other than ALLOW is passed on
    cases answer with
    | error exc =>
      obtain ⟨rfl, rfl⟩ := Raises.run_pure_ok.mp h₂
      exact ⟨rfl, rfl⟩
    | ok verdict =>
      by_cases ha : verdict.outcome = .allow
      · simp only [if_pos ha] at h₂
        obtain ⟨rfl, rfl⟩ := Raises.run_pure_ok.mp h₂
        exact ⟨rfl, ha.symm⟩
      · simp only [if_neg ha] at h₂
        obtain ⟨rfl, rfl⟩ := Raises.run_pure_ok.mp h₂
        exact ⟨rfl, rfl⟩
  · rw [if_neg hp] at h
    obtain ⟨rfl, rfl⟩ := Raises.run_pure_ok.mp h
    exact .inl ⟨by simpa using hp, rfl, rfl⟩

/-- A run of `conclude` draws identifiers and journals; it never asks anything. -/
theorem conclude_run {judged : Judged} {resource : String} {timestamp : ℤ}
    {resources : List String} {args : Option Args} {audited : Bool} {tr : Trace CoreSig}
    {d : Decision}
    (h : Raises.Run (D.conclude judged chain action resource timestamp resources args audited) tr
      (.ok d)) :
    d.outcome = judged.outcome ∧ d.resource = resource ∧ Quiet tr ∧
      (audited = true → List.Forall₂ Journals [d] (recordings tr)) := by
  unfold conclude at h
  obtain ⟨decisionId, tr₁, tr₂, rfl, h₁, h₂⟩ := Raises.run_bind_ok.mp h
  obtain rfl := Raises.run_lift_invoke_ok.mp h₁
  have hid : Quiet [⟨.uuid4, decisionId⟩] := quiet_singleton (by simp [Asks, isEngine, isPolicy])
  -- a decision that is not journaled only draws its identifier
  cases audited with
  | false =>
    obtain ⟨rfl, rfl⟩ := Raises.run_pure_ok.mp h₂
    rw [List.append_nil]
    exact ⟨rfl, rfl, hid, fun ha => absurd ha (by decide)⟩
  | true =>
    obtain ⟨eventId, tr₃, tr₄, rfl, h₃, h₄⟩ := Raises.run_bind_ok.mp h₂
    obtain rfl := Raises.run_lift_invoke_ok.mp h₃
    obtain ⟨_, tr₅, tr₆, rfl, h₅, h₆⟩ := Raises.run_bind_ok.mp h₄
    obtain rfl := Raises.run_invoke.mp h₅
    obtain ⟨rfl, rfl⟩ := Raises.run_pure_ok.mp h₆
    refine ⟨rfl, rfl, ?_, fun _ => .cons ⟨rfl, rfl, rfl, rfl, rfl⟩ .nil⟩
    refine quiet_append.mpr ⟨hid, quiet_append.mpr ⟨?_, quiet_append.mpr ⟨?_, quiet_nil⟩⟩⟩
    · exact quiet_singleton (by simp [Asks, isEngine, isPolicy])
    · exact quiet_singleton (by simp [Asks, isEngine, isPolicy])

theorem batch_run {subject relation : String} {resources : List String} {tr : Trace CoreSig}
    {r : List Bool × Option String}
    (h : Raises.Run (batch subject relation resources) tr (.ok r)) :
    ∃ answer, tr = [⟨.batchCheck subject (resources.map fun r => (relation, r)), answer⟩] ∧
      (r.2 = none → answer = .ok r.1 ∧ r.1.length = resources.length) ∧
      (Failure ⟨.batchCheck subject (resources.map fun r => (relation, r)), answer⟩ →
        r.2 ≠ none) := by
  unfold batch at h
  obtain ⟨answer, tr₁, tr₂, rfl, h₁, h₂⟩ := Raises.run_bind_ok.mp h
  obtain rfl := Raises.run_invoke.mp (Raises.run_attempt_ok.mp h₁)
  refine ⟨answer, ?_⟩
  -- what does not answer for every resource is a failure
  match answer with
  | .error (.hoc exc) =>
    obtain ⟨rfl, rfl⟩ := Raises.run_pure_ok.mp h₂
    exact ⟨rfl, fun hn => absurd hn (by simp), fun _ => by simp⟩
  | .error (.other _) =>
    obtain ⟨rfl, rfl⟩ := Raises.run_pure_ok.mp h₂
    exact ⟨rfl, fun hn => absurd hn (by simp), fun _ => by simp⟩
  | .ok related =>
    by_cases hlen : related.length = resources.length
    · simp only [if_neg (not_not.mpr hlen)] at h₂
      obtain ⟨rfl, rfl⟩ := Raises.run_pure_ok.mp h₂
      refine ⟨rfl, fun _ => ⟨rfl, hlen⟩, fun hf => ?_⟩
      exact absurd (hlen.trans (List.length_map _).symm) (hf related rfl)
    · simp only [if_pos hlen] at h₂
      obtain ⟨rfl, rfl⟩ := Raises.run_pure_ok.mp h₂
      exact ⟨rfl, fun hn => absurd hn (by simp), fun _ => by simp⟩

theorem covered_of_scopeCovers {kind : Kind} {resource : String}
    (h : scopeCovers chain kind resource = true) : Covered chain kind resource := by
  unfold scopeCovers at h
  split at h
  · next cap hcap =>
    obtain ⟨hk, hr⟩ := Capability.make_ok hcap
    exact ⟨cap, hk, hr, h⟩
  · exact absurd h (by decide)

theorem Earned.mono {tr tr' : Trace CoreSig} {resource : String}
    (h : D.Earned chain action args context tr resource) (hsub : tr ⊆ tr') :
    D.Earned chain action args context tr' resource := by
  refine ⟨h.related.mono hsub, fun hp => ?_⟩
  obtain ⟨answer, hmem, hallow⟩ := h.permitted hp
  exact ⟨answer, hsub hmem, hallow⟩

/-! ### One resource -/

/-- The law of `decide`, before the decision is journaled. -/
structure Judges (D : Decider) (chain : PrincipalChain) (action : Action) (args : Args)
    (context : DecisionContext) (resource : String) (tr : Trace CoreSig) (judged : Judged) :
    Prop where
  allow : judged.outcome = .allow →
    Covered chain action.kind resource ∧ D.Earned chain action args context tr resource
  failure : (∃ e ∈ tr, Failure e) → judged.outcome = .deny
  unlogged : recordings tr = []

/-- An ALLOW verdict of a configured policy is an answer in the run. -/
theorem policyVerdict_allow {resource : String} {tr : Trace CoreSig} {v : Verdict}
    (h : Raises.Run (D.policyVerdict chain action resource args context) tr (.ok v))
    (hallow : v.outcome = .allow) (hp : D.hasPolicy = true) :
    ∃ answer, ⟨.policy chain action resource args context, answer⟩ ∈ tr ∧
      policyOutcome answer = .allow := by
  rcases policyVerdict_run h with ⟨hno, -, -⟩ | ⟨-, answer, rfl, hv⟩
  · rw [hp] at hno
    exact absurd hno (by decide)
  · exact ⟨answer, List.mem_singleton.mpr rfl, by rw [← hv, hallow]⟩

/-- A failing policy denies. -/
theorem policyVerdict_failure {resource : String} {tr : Trace CoreSig} {v : Verdict}
    (h : Raises.Run (D.policyVerdict chain action resource args context) tr (.ok v))
    (hf : ∃ e ∈ tr, Failure e) : v.outcome = .deny := by
  obtain ⟨e, hmem, hfail⟩ := hf
  rcases policyVerdict_run h with ⟨-, rfl, -⟩ | ⟨-, answer, rfl, hv⟩
  · exact absurd hmem List.not_mem_nil
  · rw [List.mem_singleton.mp hmem] at hfail
    obtain ⟨exc, rfl⟩ := hfail
    exact hv

theorem policyVerdict_unlogged {resource : String} {tr : Trace CoreSig} {v : Verdict}
    (h : Raises.Run (D.policyVerdict chain action resource args context) tr (.ok v)) :
    recordings tr = [] := by
  rcases policyVerdict_run h with ⟨-, rfl, -⟩ | ⟨-, answer, rfl, -⟩
  · rfl
  · rfl

/-- A denial meets the law, whatever was asked on the way. -/
theorem Judges.of_deny {resource : String} {tr : Trace CoreSig} {judged : Judged}
    (h : judged.outcome = .deny) (hlog : recordings tr = []) :
    D.Judges chain action args context resource tr judged where
  allow ha := by
    rw [h] at ha
    exact absurd ha (by decide)
  failure _ := h
  unlogged := hlog

theorem evaluate_run {resource : String} {tr : Trace CoreSig} {judged : Judged}
    (h : Raises.Run (D.evaluate chain action resource args context) tr (.ok judged)) :
    D.Judges chain action args context resource tr judged := by
  unfold evaluate at h
  by_cases hscope : scopeCovers chain action.kind resource = false
  · rw [if_pos hscope] at h
    obtain ⟨rfl, rfl⟩ := Raises.run_pure_ok.mp h
    exact .of_deny rfl rfl
  · rw [if_neg hscope] at h
    obtain ⟨answer, tr₁, tr₂, rfl, h₁, h₂⟩ := Raises.run_bind_ok.mp h
    obtain rfl := Raises.run_invoke.mp (Raises.run_attempt_ok.mp h₁)
    obtain ⟨latencyMs, tr₃, tr₄, rfl, h₃, h₄⟩ := Raises.run_bind_ok.mp h₂
    obtain rfl := Raises.run_lift_invoke_ok.mp h₃
    -- only a check that answers True reaches the policies, and nothing else can allow
    match answer with
    | .error (.hoc exc) =>
      obtain ⟨rfl, rfl⟩ := Raises.run_pure_ok.mp h₄
      exact .of_deny rfl rfl
    | .error (.other _) =>
      obtain ⟨rfl, rfl⟩ := Raises.run_pure_ok.mp h₄
      exact .of_deny rfl rfl
    | .ok false =>
      obtain ⟨rfl, rfl⟩ := Raises.run_pure_ok.mp h₄
      exact .of_deny rfl rfl
    | .ok true =>
      obtain ⟨v, tr₅, tr₆, rfl, h₅, h₆⟩ := Raises.run_bind_ok.mp h₄
      obtain ⟨rfl, rfl⟩ := Raises.run_pure_ok.mp h₆
      rw [List.append_nil]
      refine ⟨fun hallow => ⟨?_, .inl ?_, fun hp => ?_⟩, ?_, ?_⟩
      · exact covered_of_scopeCovers (by simpa using hscope)
      · exact List.mem_cons_self
      · obtain ⟨answer, hmem, ha⟩ := policyVerdict_allow h₅ hallow hp
        exact ⟨answer, List.mem_append_right _ (List.mem_append_right _ hmem), ha⟩
      · -- neither the check nor the clock failed, so the failure is the policy's
        rintro ⟨e, hmem, hfail⟩
        rcases List.mem_append.mp hmem with hmem | hmem
        · rw [List.mem_singleton.mp hmem] at hfail
          obtain ⟨exc, hexc⟩ := hfail
          exact absurd hexc (by simp)
        · rcases List.mem_append.mp hmem with hmem | hmem
          · rw [List.mem_singleton.mp hmem] at hfail
            exact absurd hfail id
          · exact policyVerdict_failure h₅ ⟨e, hmem, hfail⟩
      · rw [recordings_append, recordings_append, policyVerdict_unlogged h₅]
        rfl

theorem not_asks_now {t : ℤ} : ¬ Asks ⟨.now, t⟩ := by
  simp [Asks, isEngine, isPolicy]

/-- Quiet events after a judgement do not add a failure. -/
theorem failure_append_quiet {tr tr' : Trace CoreSig} (hq : Quiet tr')
    (h : ∃ e ∈ tr ++ tr', Failure e) : ∃ e ∈ tr, Failure e := by
  obtain ⟨e, hmem, hfail⟩ := h
  rcases List.mem_append.mp hmem with hmem | hmem
  · exact ⟨e, hmem, hfail⟩
  · exact absurd hfail.asks (hq e hmem)

theorem decide_run {resource : String} {args : Option Args} {context : Option DecisionContext}
    {tr : Trace CoreSig} {d : Decision}
    (h : Raises.Run (D.decide chain action resource args context) tr (.ok d)) :
    D.Decides chain action (args.getD []) (context.getD .none) resource tr d := by
  unfold decide at h
  obtain ⟨_, tr₁, tr₂, rfl, hpattern, h₂⟩ := Raises.run_bind_ok.mp h
  obtain ⟨rfl, -⟩ := Core.run_ofHoc_ok.mp hpattern
  obtain ⟨_, tr₁, tr₃, rfl, hsubject, h₃⟩ := Raises.run_bind_ok.mp h₂
  obtain ⟨rfl, -⟩ := Core.run_ofHoc_ok.mp hsubject
  obtain ⟨judged, tr₁, tr₄, rfl, hjudged, h₄⟩ := Raises.run_bind_ok.mp h₃
  obtain ⟨timestamp, tr₂, tr₃, rfl, hnow, hconclude⟩ := Raises.run_bind_ok.mp h₄
  obtain rfl := Raises.run_lift_invoke_ok.mp hnow
  obtain ⟨houtcome, -, hquiet, hjournal⟩ := conclude_run hconclude
  -- what the run asks, it asks while it evaluates; the rest is quiet
  have hlaw := evaluate_run hjudged
  have hq : Quiet ([⟨.now, timestamp⟩] ++ tr₃) :=
    quiet_append.mpr ⟨quiet_singleton not_asks_now, hquiet⟩
  rw [List.nil_append, List.nil_append]
  refine ⟨fun hallow => ?_, fun hfail => ?_, ?_⟩
  · rw [houtcome] at hallow
    obtain ⟨hcov, hearned⟩ := hlaw.allow hallow
    exact ⟨hcov, hearned.mono (List.subset_append_left _ _)⟩
  · rw [houtcome]
    exact hlaw.failure (failure_append_quiet hq hfail)
  · rw [recordings_append, recordings_append, hlaw.unlogged]
    exact hjournal rfl

/-! ### Every resource at once -/

/-- The law of `decideAll`, before the decision is journaled. -/
structure JudgesAll (D : Decider) (chain : PrincipalChain) (action : Action) (args : Args)
    (context : DecisionContext) (resources scopeTargets : List String) (tr : Trace CoreSig)
    (judged : Judged) : Prop where
  allow : judged.outcome = .allow →
    (∀ target ∈ scopeTargets, Covered chain action.kind target) ∧
      ∀ resource ∈ resources, D.Earned chain action args context tr resource
  asksNone : resources = [] → ∀ e ∈ tr, isEngine e = false
  failure : (∃ e ∈ tr, Failure e) → judged.outcome = .deny
  unlogged : recordings tr = []

theorem JudgesAll.of_deny {resources scopeTargets : List String} {tr : Trace CoreSig}
    {judged : Judged} (h : judged.outcome = .deny) (hlog : recordings tr = [])
    (hnone : resources = [] → ∀ e ∈ tr, isEngine e = false) :
    D.JudgesAll chain action args context resources scopeTargets tr judged where
  allow ha := by
    rw [h] at ha
    exact absurd ha (by decide)
  asksNone := hnone
  failure _ := h
  unlogged := hlog

theorem policyVerdict_not_engine {resource : String} {tr : Trace CoreSig} {v : Verdict}
    (h : Raises.Run (D.policyVerdict chain action resource args context) tr (.ok v)) :
    ∀ e ∈ tr, isEngine e = false := by
  rcases policyVerdict_run h with ⟨-, rfl, -⟩ | ⟨-, answer, rfl, -⟩
  · exact fun _ he => absurd he List.not_mem_nil
  · intro e he
    rw [List.mem_singleton.mp he]
    rfl

/-- The policy loop: ALLOW needs every policy call to allow, and a failing call denies. -/
theorem policyLoop_run {latencyMs : PyFloat} {resources : List String} {tr : Trace CoreSig}
    {judged : Judged}
    (h : Raises.Run (D.policyLoop chain action args context latencyMs resources) tr
      (.ok judged)) :
    (judged.outcome = .allow → D.hasPolicy = true → ∀ resource ∈ resources, ∃ answer,
        ⟨.policy chain action resource args context, answer⟩ ∈ tr ∧
          policyOutcome answer = .allow) ∧
      ((∃ e ∈ tr, Failure e) → judged.outcome = .deny) ∧
      recordings tr = [] ∧ ∀ e ∈ tr, isEngine e = false := by
  -- the induction is on the resources that the loop has not come to
  induction resources generalizing tr with
  | nil =>
    obtain ⟨rfl, rfl⟩ := Raises.run_pure_ok.mp h
    exact ⟨fun _ _ _ hr => absurd hr List.not_mem_nil, fun ⟨_, he, _⟩ => absurd he List.not_mem_nil,
      rfl, fun _ he => absurd he List.not_mem_nil⟩
  | cons item rest ih =>
    rw [policyLoop] at h
    obtain ⟨v, tr₁, tr₂, rfl, h₁, h₂⟩ := Raises.run_bind_ok.mp h
    have hengine := policyVerdict_not_engine h₁
    by_cases hv : v.outcome = .allow
    · -- the loop goes on: this call did not fail, so a failure is one of the rest
      rw [if_neg (not_not.mpr hv)] at h₂
      obtain ⟨hallow, hfail, hlog, heng⟩ := ih h₂
      refine ⟨fun ha hp resource hr => ?_, ?_, ?_, List.forall_mem_append.mpr ⟨hengine, heng⟩⟩
      · rcases List.mem_cons.mp hr with rfl | hr
        · obtain ⟨answer, hmem, hans⟩ := policyVerdict_allow h₁ hv hp
          exact ⟨answer, List.mem_append_left _ hmem, hans⟩
        · obtain ⟨answer, hmem, hans⟩ := hallow ha hp resource hr
          exact ⟨answer, List.mem_append_right _ hmem, hans⟩
      · rintro ⟨e, hmem, he⟩
        rcases List.mem_append.mp hmem with hmem | hmem
        · have hdeny := policyVerdict_failure h₁ ⟨e, hmem, he⟩
          rw [hv] at hdeny
          exact absurd hdeny (by decide)
        · exact hfail ⟨e, hmem, he⟩
      · rw [recordings_append, policyVerdict_unlogged h₁, hlog, List.append_nil]
    · -- the first verdict that does not allow ends the loop
      rw [if_pos hv] at h₂
      obtain ⟨rfl, rfl⟩ := Raises.run_pure_ok.mp h₂
      rw [List.append_nil]
      exact ⟨fun ha => absurd ha hv, policyVerdict_failure h₁, policyVerdict_unlogged h₁, hengine⟩

theorem evaluateAll_run {resources scopeTargets : List String} {explicitScope : Bool}
    {tr : Trace CoreSig} {judged : Judged}
    (h : Raises.Run (D.evaluateAll chain action resources scopeTargets explicitScope args context)
      tr (.ok judged)) :
    D.JudgesAll chain action args context resources scopeTargets tr judged := by
  unfold evaluateAll at h
  -- the exits before the batch deny, except for an empty list with an explicit scope
  by_cases hnone : resources = [] ∧ explicitScope = false
  · rw [if_pos hnone] at h
    obtain ⟨rfl, rfl⟩ := Raises.run_pure_ok.mp h
    exact .of_deny rfl rfl fun _ _ he => absurd he List.not_mem_nil
  rw [if_neg hnone] at h
  by_cases hscope : scopeTargets.any (fun t => !scopeCovers chain action.kind t) = true
  · rw [if_pos hscope] at h
    obtain ⟨rfl, rfl⟩ := Raises.run_pure_ok.mp h
    exact .of_deny rfl rfl fun _ _ he => absurd he List.not_mem_nil
  rw [if_neg hscope] at h
  have hcovered : ∀ target ∈ scopeTargets, Covered chain action.kind target := by
    intro target ht
    refine covered_of_scopeCovers ?_
    by_contra hc
    exact hscope (List.any_eq_true.mpr ⟨target, ht, by simpa using hc⟩)
  by_cases hempty : resources = []
  · rw [if_pos hempty] at h
    obtain ⟨rfl, rfl⟩ := Raises.run_pure_ok.mp h
    refine ⟨fun _ => ⟨hcovered, ?_⟩, fun _ _ he => absurd he List.not_mem_nil,
      fun ⟨_, he, _⟩ => absurd he List.not_mem_nil, rfl⟩
    rw [hempty]
    exact fun _ hr => absurd hr List.not_mem_nil
  rw [if_neg hempty] at h
  -- from here on the batch is asked
  obtain ⟨⟨related, failure⟩, tr₁, tr₂, rfl, h₁, h₂⟩ := Raises.run_bind_ok.mp h
  obtain ⟨answer, rfl, hok, hbad⟩ := batch_run h₁
  obtain ⟨latencyMs, tr₃, tr₄, rfl, h₃, h₄⟩ := Raises.run_bind_ok.mp h₂
  obtain rfl := Raises.run_lift_invoke_ok.mp h₃
  cases failure with
  | some reason =>
    obtain ⟨rfl, rfl⟩ := Raises.run_pure_ok.mp h₄
    exact .of_deny rfl rfl fun hn => absurd hn hempty
  | none =>
    obtain ⟨rfl, hlen⟩ := hok rfl
    by_cases hall : related.all id = false
    · simp only [if_pos hall] at h₄
      obtain ⟨rfl, rfl⟩ := Raises.run_pure_ok.mp h₄
      exact .of_deny rfl rfl fun hn => absurd hn hempty
    · simp only [if_neg hall] at h₄
      -- the batch holds for every resource, and the policies are asked about each
      obtain ⟨hallow, hfail, hlog, -⟩ := policyLoop_run h₄
      refine ⟨fun ha => ⟨hcovered, fun resource hr => ⟨.inr ?_, fun hp => ?_⟩⟩,
        fun hn => absurd hn hempty, ?_, ?_⟩
      · -- every answer of the batch is True, so the one at the position of the resource is
        obtain ⟨p, hp, rfl⟩ := List.getElem_of_mem hr
        refine ⟨_, related, List.mem_cons_self, ?_, p, ?_, ?_⟩
        · rw [hlen, List.length_map]
        · rw [List.getElem?_map, List.getElem?_eq_getElem hp]
          rfl
        · have hp' : p < related.length := hlen ▸ hp
          rw [List.getElem?_eq_getElem hp']
          have htrue : related.all id = true := by
            rw [← Bool.not_eq_false]
            exact hall
          exact congrArg some (List.all_eq_true.mp htrue _ (List.getElem_mem hp'))
      · obtain ⟨answer, hmem, hans⟩ := hallow ha hp resource hr
        exact ⟨answer, List.mem_append_right _ (List.mem_append_right _ hmem), hans⟩
      · -- an engine call that failed is neither the batch nor the clock, so a policy raised
        rintro ⟨e, hmem, he⟩
        rcases List.mem_append.mp hmem with hmem | hmem
        · rw [List.mem_singleton.mp hmem] at he
          exact absurd rfl (hbad he)
        · rcases List.mem_append.mp hmem with hmem | hmem
          · rw [List.mem_singleton.mp hmem] at he
            exact absurd he id
          · exact hfail ⟨e, hmem, he⟩
      · rw [recordings_append, recordings_append, hlog]
        rfl

theorem decideAll_run {resources : List String} {scopeResources : Option (List String)}
    {resource : Option String} {args : Option Args} {context : Option DecisionContext}
    {tr : Trace CoreSig} {d : Decision}
    (h : Raises.Run (D.decideAll chain action resources scopeResources resource args context) tr
      (.ok d)) :
    D.DecidesAll chain action (args.getD []) (context.getD .none) resources
      (scopeResources.getD resources) tr d := by
  unfold decideAll at h
  obtain ⟨_, tr₁, tr₂, rfl, hsubject, h₂⟩ := Raises.run_bind_ok.mp h
  obtain ⟨rfl, -⟩ := Core.run_ofHoc_ok.mp hsubject
  obtain ⟨_, tr₁, tr₃, rfl, hpatterns, h₃⟩ := Raises.run_bind_ok.mp h₂
  obtain ⟨rfl, -⟩ := Core.run_ofHoc_ok.mp hpatterns
  obtain ⟨judged, tr₁, tr₄, rfl, hjudged, h₄⟩ := Raises.run_bind_ok.mp h₃
  obtain ⟨timestamp, tr₂, tr₃, rfl, hnow, hconclude⟩ := Raises.run_bind_ok.mp h₄
  obtain rfl := Raises.run_lift_invoke_ok.mp hnow
  obtain ⟨houtcome, -, hquiet, hjournal⟩ := conclude_run hconclude
  have hlaw := evaluateAll_run hjudged
  have hq : Quiet ([⟨.now, timestamp⟩] ++ tr₃) :=
    quiet_append.mpr ⟨quiet_singleton not_asks_now, hquiet⟩
  rw [List.nil_append, List.nil_append]
  -- what follows the verdict asks nothing and journals the decision
  refine ⟨fun hallow => ?_, fun hn => ?_, fun hfail => ?_, ?_⟩
  · rw [houtcome] at hallow
    obtain ⟨hcov, hearned⟩ := hlaw.allow hallow
    exact ⟨hcov, fun r hr => (hearned r hr).mono (List.subset_append_left _ _)⟩
  · refine List.forall_mem_append.mpr ⟨hlaw.asksNone hn, fun e he => ?_⟩
    rw [Bool.eq_false_iff]
    exact fun heng => hq e he (.inl heng)
  · rw [houtcome]
    exact hlaw.failure (failure_append_quiet hq hfail)
  · rw [recordings_append, recordings_append, hlaw.unlogged]
    exact hjournal rfl

/-! ### One decision per resource -/

/-- Some judgement of the position has the outcome. -/
def JudgedAs (outcomes : Outcomes) (i : ℕ) (o : Outcome) : Prop :=
  ∃ judged, (i, judged) ∈ outcomes ∧ judged.outcome = o

theorem JudgedAs.mono {outcomes outcomes' : Outcomes} {i : ℕ} {o : Outcome}
    (h : JudgedAs outcomes i o) (hsub : outcomes ⊆ outcomes') : JudgedAs outcomes' i o := by
  obtain ⟨judged, hmem, ho⟩ := h
  exact ⟨judged, hsub hmem, ho⟩

theorem judgeItem_run {item : String} {failure : Option String} {related : Option Bool}
    {latencyMs : PyFloat} {tr : Trace CoreSig} {judged : Judged}
    (h : Raises.Run (D.judgeItem chain action item args context failure related latencyMs) tr
      (.ok judged)) :
    (tr = [] ∧ judged.outcome = .deny) ∨
      (failure = none ∧ related = some true ∧ ∃ v,
        Raises.Run (D.policyVerdict chain action item args context) tr (.ok v) ∧
          judged.outcome = v.outcome) := by
  unfold judgeItem at h
  cases failure with
  | some reason =>
    obtain ⟨rfl, rfl⟩ := Raises.run_pure_ok.mp h
    exact .inl ⟨rfl, rfl⟩
  | none =>
    by_cases hrel : related = some true
    · simp only [if_neg (not_not.mpr hrel)] at h
      obtain ⟨v, tr₁, tr₂, rfl, h₁, h₂⟩ := Raises.run_bind_ok.mp h
      obtain ⟨rfl, rfl⟩ := Raises.run_pure_ok.mp h₂
      rw [List.append_nil]
      exact .inr ⟨rfl, hrel, v, h₁, rfl⟩
    · simp only [if_pos hrel] at h
      obtain ⟨rfl, rfl⟩ := Raises.run_pure_ok.mp h
      exact .inl ⟨rfl, rfl⟩

/-- What a loop of `decideEach` adds to the outcomes, and the policy calls it makes. -/
structure Adds (D : Decider) (chain : PrincipalChain) (action : Action) (args : Args)
    (context : DecisionContext) (targets : List String) (positions : List ℕ)
    (added : Outcomes) (tr : Trace CoreSig) : Prop where
  keys : added.map Prod.fst = positions
  /-- An ALLOW is permitted by the policy. -/
  permitted : ∀ i judged, (i, judged) ∈ added → judged.outcome = .allow → D.hasPolicy = true →
    ∃ answer, ⟨.policy chain action (targets.getD i "") args context, answer⟩ ∈ tr ∧
      policyOutcome answer = .allow
  policies : ∃ asked : List ℕ, asked.Sublist positions ∧
    List.Forall₂ (PolicyJudges chain action args context targets (JudgedAs added)) asked
      (tr.filter isPolicy)
  unlogged : recordings tr = []

theorem Adds.nil {targets : List String} :
    D.Adds chain action args context targets [] [] [] where
  keys := rfl
  permitted _ _ h := absurd h List.not_mem_nil
  policies := ⟨[], .refl _, .nil⟩
  unlogged := rfl

/-- Two loops one after the other. -/
theorem Adds.append {targets : List String} {positions positions' : List ℕ}
    {added added' : Outcomes} {tr tr' : Trace CoreSig}
    (h : D.Adds chain action args context targets positions added tr)
    (h' : D.Adds chain action args context targets positions' added' tr') :
    D.Adds chain action args context targets (positions ++ positions') (added ++ added')
      (tr ++ tr') where
  keys := by rw [List.map_append, h.keys, h'.keys]
  permitted i judged hmem ha hp := by
    rcases List.mem_append.mp hmem with hmem | hmem
    · obtain ⟨answer, hin, hans⟩ := h.permitted i judged hmem ha hp
      exact ⟨answer, List.mem_append_left _ hin, hans⟩
    · obtain ⟨answer, hin, hans⟩ := h'.permitted i judged hmem ha hp
      exact ⟨answer, List.mem_append_right _ hin, hans⟩
  policies := by
    obtain ⟨asked, hsub, hall⟩ := h.policies
    obtain ⟨asked', hsub', hall'⟩ := h'.policies
    refine ⟨asked ++ asked', hsub.append hsub', ?_⟩
    rw [List.filter_append]
    refine List.rel_append (hall.imp ?_) (hall'.imp ?_)
    · rintro i e ⟨answer, he, ho⟩
      exact ⟨answer, he, ho.mono (List.subset_append_left _ _)⟩
    · rintro i e ⟨answer, he, ho⟩
      exact ⟨answer, he, ho.mono (List.subset_append_right _ _)⟩
  unlogged := by rw [recordings_append, h.unlogged, h'.unlogged, List.append_nil]

/-- Events that are neither policy calls nor recordings change nothing. -/
theorem Adds.quiet {targets : List String} {positions : List ℕ} {added : Outcomes}
    {tr tr' : Trace CoreSig} (h : D.Adds chain action args context targets positions added tr)
    (hpolicy : tr'.filter isPolicy = []) (hlog : recordings tr' = []) :
    D.Adds chain action args context targets positions added (tr' ++ tr) where
  keys := h.keys
  permitted i judged hmem ha hp := by
    obtain ⟨answer, hin, hans⟩ := h.permitted i judged hmem ha hp
    exact ⟨answer, List.mem_append_right _ hin, hans⟩
  policies := by
    rw [List.filter_append, hpolicy, List.nil_append]
    exact h.policies
  unlogged := by rw [recordings_append, hlog, h.unlogged, List.append_nil]

theorem judgeItem_adds {targets : List String} {i : ℕ} {failure : Option String}
    {related : Option Bool} {latencyMs : PyFloat} {tr : Trace CoreSig} {judged : Judged}
    (h : Raises.Run (D.judgeItem chain action (targets.getD i "") args context failure related
      latencyMs) tr (.ok judged)) :
    D.Adds chain action args context targets [i] [(i, judged)] tr := by
  rcases judgeItem_run h with ⟨rfl, hdeny⟩ | ⟨-, -, v, hv, hout⟩
  · refine ⟨rfl, fun j judged' hmem ha => ?_, ⟨[], List.nil_sublist _, .nil⟩, rfl⟩
    obtain ⟨-, rfl⟩ := Prod.mk.inj (List.mem_singleton.mp hmem)
    rw [hdeny] at ha
    exact absurd ha (by decide)
  · refine ⟨rfl, fun j judged' hmem ha hp => ?_, ?_, policyVerdict_unlogged hv⟩
    · obtain ⟨rfl, rfl⟩ := Prod.mk.inj (List.mem_singleton.mp hmem)
      exact policyVerdict_allow hv (hout ▸ ha) hp
    · rcases policyVerdict_run hv with ⟨-, rfl, -⟩ | ⟨-, answer, rfl, hans⟩
      · exact ⟨[], List.nil_sublist _, .nil⟩
      · refine ⟨[i], .refl _, .cons ⟨answer, rfl, judged, List.mem_singleton.mpr rfl, ?_⟩ .nil⟩
        rw [hout, hans]

/-- The inner loop. A position is denied unless its slice was answered and the answer at
the position is True; the loop counts positions from `position`. -/
theorem judgeChunk_run {targets : List String} {failure : Option String} {related : List Bool}
    {latencyMs : PyFloat} {position : ℕ} {slice : List ℕ} {outcomes outcomes' : Outcomes}
    {tr : Trace CoreSig}
    (h : Raises.Run (D.judgeChunk chain action targets args context failure related latencyMs
      position slice outcomes) tr (.ok outcomes')) :
    ∃ added, outcomes' = outcomes ++ added ∧
      D.Adds chain action args context targets slice added tr ∧
      (∀ e ∈ tr, isBatchCheck e = false) ∧
      ∀ p x, added[p]? = some x →
        x.2.outcome = .deny ∨ (failure = none ∧ related[position + p]? = some true) := by
  -- the induction is on the slice; the position counts along the answers of the batch
  induction slice generalizing position outcomes tr with
  | nil =>
    obtain ⟨rfl, rfl⟩ := Raises.run_pure_ok.mp h
    exact ⟨[], (List.append_nil _).symm, .nil, fun _ he => absurd he List.not_mem_nil, by simp⟩
  | cons i slice ih =>
    rw [judgeChunk] at h
    obtain ⟨judged, tr₁, tr₂, rfl, h₁, h₂⟩ := Raises.run_bind_ok.mp h
    obtain ⟨added, rfl, hadds, hbatch, hpos⟩ := ih h₂
    refine ⟨(i, judged) :: added, by simp, (judgeItem_adds h₁).append hadds, ?_, ?_⟩
    · refine List.forall_mem_append.mpr ⟨fun e he => ?_, hbatch⟩
      rcases judgeItem_run h₁ with ⟨rfl, -⟩ | ⟨-, -, v, hv, -⟩
      · exact absurd he List.not_mem_nil
      · have heng := policyVerdict_not_engine hv e he
        rw [Bool.eq_false_iff] at heng ⊢
        exact fun hb => heng (isEngine_of_isBatchCheck hb)
    · rintro (_ | p) x hx
      · obtain rfl := Option.some.inj hx
        rcases judgeItem_run h₁ with ⟨-, hdeny⟩ | ⟨hf, hrel, -, -, -⟩
        · exact .inl hdeny
        · exact .inr ⟨hf, hrel⟩
      · rw [show position + (p + 1) = position + 1 + p by omega]
        exact hpos p x hx

/-- The outer loop: one `BatchCheck` for each slice, in order. -/
theorem judgeChunks_run {targets : List String} {slices : List (List ℕ)}
    {outcomes outcomes' : Outcomes} {tr : Trace CoreSig}
    (h : Raises.Run (D.judgeChunks chain action targets args context slices outcomes) tr
      (.ok outcomes')) :
    ∃ added, outcomes' = outcomes ++ added ∧
      D.Adds chain action args context targets slices.flatten added tr ∧
      List.Forall₂ (BatchJudges chain action targets (JudgedAs added)) slices
        (tr.filter isBatchCheck) ∧
      ∀ i judged, (i, judged) ∈ added → judged.outcome = .allow →
        Related tr chain.subject action.relation (targets.getD i "") := by
  induction slices generalizing outcomes tr with
  | nil =>
    obtain ⟨rfl, rfl⟩ := Raises.run_pure_ok.mp h
    exact ⟨[], (List.append_nil _).symm, .nil, .nil, fun _ _ hmem => absurd hmem List.not_mem_nil⟩
  | cons slice rest ih =>
    rw [judgeChunks] at h
    obtain ⟨⟨related, failure⟩, tr₁, tr₂, rfl, h₁, h₂⟩ := Raises.run_bind_ok.mp h
    obtain ⟨latencyMs, tr₃, tr₄, rfl, h₃, h₄⟩ := Raises.run_bind_ok.mp h₂
    obtain ⟨outcomes₁, tr₅, tr₆, rfl, h₅, h₆⟩ := Raises.run_bind_ok.mp h₄
    obtain ⟨answer, rfl, hok, -⟩ := batch_run h₁
    obtain rfl := Raises.run_lift_invoke_ok.mp h₃
    obtain ⟨added, rfl, hadds, hnobatch, hpos⟩ := judgeChunk_run h₅
    obtain ⟨added', rfl, hadds', hbatches, hrelated⟩ := ih h₆
    rw [List.map_map] at hok ⊢
    -- the answer that lets a position of this slice through
    have hanswer : ∀ (p : ℕ) (x : ℕ × Judged), added[p]? = some x → x.2.outcome = .deny ∨
        (answer = .ok related ∧ related.length = slice.length ∧ related[p]? = some true) := by
      intro p x hx
      rcases hpos p x hx with hdeny | ⟨hf, htrue⟩
      · exact .inl hdeny
      · obtain ⟨hans, hlen⟩ := hok hf
        exact .inr ⟨hans, by rw [hlen, List.length_map], by rwa [Nat.zero_add] at htrue⟩
    refine ⟨added ++ added', (List.append_assoc _ _ _), ?_, ?_, ?_⟩
    · have happ := hadds.append hadds'
      have hlatency : ([⟨.elapsedMs, latencyMs⟩] : Trace CoreSig).filter isPolicy = [] := rfl
      exact (happ.quiet hlatency rfl).quiet rfl rfl
    · rw [List.filter_append, List.filter_append, List.filter_append,
        List.filter_eq_nil_iff.mpr fun e he => Bool.eq_false_iff.mp (hnobatch e he)]
      refine .cons ⟨answer, rfl, fun p i hi => ?_⟩ (hbatches.imp ?_)
      · rw [← hadds.keys, List.getElem?_map] at hi
        obtain ⟨x, hx, rfl⟩ := Option.map_eq_some_iff.mp hi
        rcases hanswer p x hx with hdeny | ⟨hans, hlen, htrue⟩
        · exact .inl ⟨x.2, List.mem_append_left _ (List.mem_of_getElem? hx), hdeny⟩
        · exact .inr ⟨related, hans, hlen, htrue⟩
      · rintro c e ⟨answer', he, hall⟩
        refine ⟨answer', he, fun p i hi => ?_⟩
        rcases hall p i hi with hdeny | hrel
        · exact .inl (hdeny.mono (List.subset_append_right _ _))
        · exact .inr hrel
    · intro i judged hmem hallow
      rcases List.mem_append.mp hmem with hmem | hmem
      · obtain ⟨p, hp⟩ := List.mem_iff_getElem?.mp hmem
        rcases hanswer p _ hp with hdeny | ⟨hans, hlen, htrue⟩
        · rw [hallow] at hdeny
          exact absurd hdeny (by decide)
        · have hi : slice[p]? = some i := by
            rw [← hadds.keys, List.getElem?_map, hp]
            rfl
          subst hans
          refine .inr ⟨slice.map fun i => (action.relation, targets.getD i ""), related,
            List.mem_append_left _ (List.mem_singleton.mpr rfl), ?_, p, ?_, htrue⟩
          · rw [List.length_map, hlen]
          · rw [List.getElem?_map, hi]
            rfl
      · refine (hrelated i judged hmem hallow).mono ?_
        intro e he
        exact List.mem_append_right _ (List.mem_append_right _ (List.mem_append_right _ he))

/-- The last loop looks each position up and journals it. -/
theorem concludeEach_run {outcomes : Outcomes} {now : ℤ} {args : Option Args} {auditEach : Bool}
    {index : ℕ} {items : List String} {tr : Trace CoreSig} {ds : List Decision}
    (h : Raises.Run (D.concludeEach chain action outcomes now args auditEach index items) tr
      (.ok ds)) :
    ds.map Decision.resource = items ∧ Quiet tr ∧
      (auditEach = true → List.Forall₂ Journals ds (recordings tr)) ∧
      ∀ k d, ds[k]? = some d → ∃ judged, outcomes.lookup (index + k) = some judged ∧
        d.outcome = judged.outcome := by
  -- the induction is on the items; the index says where the rest starts
  induction items generalizing index tr ds with
  | nil =>
    obtain ⟨rfl, rfl⟩ := Raises.run_pure_ok.mp h
    exact ⟨rfl, quiet_nil, fun _ => .nil, by simp⟩
  | cons item rest ih =>
    rw [concludeEach] at h
    cases hl : outcomes.lookup index with
    | none =>
      rw [hl] at h
      exact absurd (Raises.run_raise.mp h).2 (by simp)
    | some judged =>
      simp only [hl] at h
      obtain ⟨d, tr₁, tr₂, rfl, h₁, h₂⟩ := Raises.run_bind_ok.mp h
      obtain ⟨ds', tr₃, tr₄, rfl, h₃, h₄⟩ := Raises.run_bind_ok.mp h₂
      obtain ⟨rfl, rfl⟩ := Raises.run_pure_ok.mp h₄
      obtain ⟨hout, hres, hquiet, hjournal⟩ := conclude_run h₁
      obtain ⟨hres', hquiet', hjournal', hlookup⟩ := ih h₃
      rw [List.append_nil]
      refine ⟨?_, quiet_append.mpr ⟨hquiet, hquiet'⟩, fun ha => ?_, ?_⟩
      · rw [List.map_cons, hres, hres']
      · rw [recordings_append]
        exact List.rel_append (hjournal ha) (hjournal' ha)
      · rintro (_ | k) d' hd
        · obtain rfl := Option.some.inj hd
          exact ⟨judged, hl, hout⟩
        · rw [show index + (k + 1) = index + 1 + k by omega]
          exact hlookup k d' hd

/-- In an association list without repeated keys every entry is found. -/
theorem lookup_of_mem {β : Type} {l : List (ℕ × β)} {k : ℕ} {b : β}
    (hl : (l.map Prod.fst).Nodup) (hmem : (k, b) ∈ l) : l.lookup k = some b := by
  induction l with
  | nil => exact absurd hmem List.not_mem_nil
  | cons x l ih =>
    obtain ⟨hx, hl⟩ := List.nodup_cons.mp hl
    rcases List.mem_cons.mp hmem with rfl | hmem
    · exact List.lookup_cons_self
    · have hne : k ≠ x.1 := by
        rintro rfl
        exact hx (List.mem_map.mpr ⟨_, hmem, rfl⟩)
      rw [List.lookup_cons, beq_false_of_ne hne]
      exact ih hl hmem

theorem mem_of_lookup {β : Type} {l : List (ℕ × β)} {k : ℕ} {b : β} (h : l.lookup k = some b) :
    (k, b) ∈ l := by
  obtain ⟨l₁, l₂, rfl, -⟩ := List.lookup_eq_some_iff.mp h
  exact List.mem_append_right _ List.mem_cons_self

/-- The positions decided without the engine and those decided with it are disjoint. -/
theorem nodup_positions (kind : Kind) (targets : List String) :
    ((scopeExcluded chain kind targets).map Prod.fst ++ toCheck chain kind targets).Nodup := by
  have hrange : (List.range targets.length).Nodup := List.nodup_range
  rw [scopeExcluded, List.map_map]
  refine List.nodup_append'.mpr ⟨?_, hrange.filter _, ?_⟩
  · exact List.Nodup.map (fun _ _ heq => heq) (hrange.filter _)
  · intro i hi hi'
    obtain ⟨j, hj, rfl⟩ := List.mem_map.mp hi
    have hno := (List.mem_filter.mp hj).2
    have hyes : scopeCovers chain kind (targets.getD j "") = true := (List.mem_filter.mp hi').2
    rw [hyes] at hno
    exact absurd hno (by decide)

theorem nodup_keys {kind : Kind} {targets : List String} {added : Outcomes}
    (h : added.map Prod.fst = toCheck chain kind targets) :
    ((scopeExcluded chain kind targets ++ added).map Prod.fst).Nodup := by
  rw [List.map_append, h]
  exact nodup_positions kind targets

theorem decideEach_run {targets : List String} {auditEach : Bool} {args : Option Args}
    {context : Option DecisionContext} {tr : Trace CoreSig} {ds : List Decision}
    (h : Raises.Run (D.decideEach chain action targets auditEach args context) tr (.ok ds)) :
    D.DecidesEach chain action (args.getD []) (context.getD .none) targets auditEach tr ds := by
  unfold decideEach at h
  obtain ⟨_, tr₁, tr₂, rfl, hsubject, h₂⟩ := Raises.run_bind_ok.mp h
  obtain ⟨rfl, -⟩ := Core.run_ofHoc_ok.mp hsubject
  obtain ⟨_, tr₁, tr₃, rfl, hpatterns, h₃⟩ := Raises.run_bind_ok.mp h₂
  obtain ⟨rfl, -⟩ := Core.run_ofHoc_ok.mp hpatterns
  rw [List.nil_append, List.nil_append]
  by_cases hempty : targets = []
  · rw [if_pos hempty] at h₃
    obtain ⟨rfl, rfl⟩ := Raises.run_pure_ok.mp h₃
    subst hempty
    exact ⟨rfl, fun _ hd => absurd hd List.not_mem_nil, .nil, ⟨[], .refl _, .nil⟩, fun _ => .nil⟩
  rw [if_neg hempty] at h₃
  obtain ⟨outcomes, tr₁, tr₂, rfl, hloops, h₄⟩ := Raises.run_bind_ok.mp h₃
  obtain ⟨now, tr₄, tr₅, rfl, hnow, hconclude⟩ := Raises.run_bind_ok.mp h₄
  obtain rfl := Raises.run_lift_invoke_ok.mp hnow
  obtain ⟨added, rfl, hadds, hbatches, hrelated⟩ := judgeChunks_run hloops
  rw [List.flatten_chunksOf (by decide)] at hadds
  obtain ⟨hres, hquiet, hjournal, hlookup⟩ := concludeEach_run hconclude
  have hq : Quiet ([⟨.now, now⟩] ++ tr₅) :=
    quiet_append.mpr ⟨quiet_singleton not_asks_now, hquiet⟩
  have hlen : ds.length = targets.length := by rw [← hres, List.length_map]
  have hnodup : ((scopeExcluded chain action.kind targets ++ added).map Prod.fst).Nodup :=
    nodup_keys hadds.keys
  -- what the loops added to a position is what the caller gets for it
  have hout : ∀ i o, JudgedAs added i o → ds[i]?.map Decision.outcome = some o := by
    rintro i o ⟨judged, hmem, rfl⟩
    have hi : i < ds.length := by
      have hkey : i ∈ toCheck chain action.kind targets := by
        rw [← hadds.keys]
        exact List.mem_map.mpr ⟨_, hmem, rfl⟩
      rw [hlen]
      exact List.mem_range.mp (List.mem_filter.mp hkey).1
    obtain ⟨judged', hl, hd⟩ := hlookup i ds[i] (List.getElem?_eq_getElem hi)
    rw [Nat.zero_add, lookup_of_mem hnodup (List.mem_append_right _ hmem)] at hl
    obtain rfl := Option.some.inj hl
    rw [List.getElem?_eq_getElem hi, Option.map_some, hd]
  refine ⟨hres, fun d hd hallow => ?_, ?_, ?_, fun ha => ?_⟩
  · obtain ⟨i, hi⟩ := List.mem_iff_getElem?.mp hd
    obtain ⟨judged, hl, hjudged⟩ := hlookup i d hi
    rw [Nat.zero_add] at hl
    have htarget : targets.getD i "" = d.resource := by
      rw [List.getD_eq_getElem?_getD, ← hres, List.getElem?_map, hi]
      rfl
    rw [hjudged] at hallow
    rcases List.mem_append.mp (mem_of_lookup hl) with hmem | hmem
    · -- a position the scope excludes was denied before the loops
      obtain ⟨j, -, hj⟩ := List.mem_map.mp hmem
      obtain ⟨-, rfl⟩ := Prod.mk.inj hj
      exact absurd hallow (by decide)
    · have hkey : i ∈ toCheck chain action.kind targets := by
        rw [← hadds.keys]
        exact List.mem_map.mpr ⟨_, hmem, rfl⟩
      have hrel := hrelated i judged hmem hallow
      rw [htarget] at hrel
      refine ⟨?_, hrel.mono (List.subset_append_left _ _), fun hp => ?_⟩
      · rw [← htarget]
        exact covered_of_scopeCovers (List.mem_filter.mp hkey).2
      · obtain ⟨answer, hin, hans⟩ := hadds.permitted i judged hmem hallow hp
        rw [htarget] at hin
        exact ⟨answer, List.mem_append_left _ hin, hans⟩
  · rw [List.filter_append, hq.filter_isBatchCheck, List.append_nil]
    refine hbatches.imp ?_
    rintro slice e ⟨answer, he, hall⟩
    refine ⟨answer, he, fun p i hi => ?_⟩
    rcases hall p i hi with hdeny | hrel
    · exact .inl (hout i _ hdeny)
    · exact .inr hrel
  · obtain ⟨asked, hsub, hall⟩ := hadds.policies
    refine ⟨asked, hsub, ?_⟩
    rw [List.filter_append, hq.filter_isPolicy, List.append_nil]
    refine hall.imp ?_
    rintro i e ⟨answer, he, ho⟩
    exact ⟨answer, he, hout i _ ho⟩
  · rw [recordings_append, recordings_append, hadds.unlogged]
    exact hjournal ha

/-- Collaborators that answer True, allow and accept. -/
def agreeable : ∀ o, CoreOp.Res o
  | .now => 0
  | .uuid4 => "id"
  | .elapsedMs => zeroMs
  | .check _ _ _ => .ok true
  | .batchCheck _ items => .ok (items.map fun _ => true)
  | .policy _ _ _ _ _ => .ok .policyAllowed
  | .record _ => .ok ()

/-- A decider with a policy. -/
def guarded : Decider := ⟨⟨Json.FloatText.ofBits, fun _ => [], fun _ => ""⟩, true⟩

end Decider

end HeadOfContext
