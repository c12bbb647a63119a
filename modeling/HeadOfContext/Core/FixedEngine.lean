import HeadOfContext.Core.DeciderSafety

/-!
# The decision path of a fixed engine

Where the engine answers each question by a fixed function, and the policy too, a decision is a
function of the chain, the action and the resource: `FixedAnswers.judge`, its outcome and its
reason.
-/

namespace HeadOfContext

open Effects Raises

/-- An engine and a policy that answer each question by a fixed function. -/
structure FixedAnswers where
  engine : String → String → String → Bool
  policy : PrincipalChain → Action → String → Args → DecisionContext → Except Exn Verdict

namespace FixedAnswers

variable (w : FixedAnswers)

/-- The answers of the core's collaborators: by the functions, and the audit sink accepts. -/
def Gives : Event CoreSig → Prop
  | ⟨.check subject relation obj, answer⟩ => answer = .ok (w.engine subject relation obj)
  | ⟨.batchCheck subject items, answer⟩ =>
    answer = .ok (items.map fun item => w.engine subject item.1 item.2)
  | ⟨.policy chain action resource args context, answer⟩ =>
    answer = w.policy chain action resource args context
  | ⟨.record _, answer⟩ => answer = .ok ()
  | _ => True

/-- Collaborators that give these answers, at the instant 0. -/
def answer : ∀ o, CoreSig.Res o
  | .now => (0 : ℤ)
  | .uuid4 => ""
  | .elapsedMs => zeroMs
  | .check subject relation obj => .ok (w.engine subject relation obj)
  | .batchCheck subject items => .ok (items.map fun item => w.engine subject item.1 item.2)
  | .policy chain action resource args context => w.policy chain action resource args context
  | .record _ => .ok ()

theorem gives_answer (o : CoreOp) : w.Gives ⟨o, w.answer o⟩ := by
  cases o <;> first | rfl | trivial

/-- What the policy makes of an ALLOW. -/
def permitted (D : Decider) (chain : PrincipalChain) (action : Action) (resource : String)
    (args : Args) (context : DecisionContext) : Outcome :=
  if D.hasPolicy then policyOutcome (w.policy chain action resource args context) else .allow

/-- **The outcome for a resource.** -/
def outcome (D : Decider) (chain : PrincipalChain) (action : Action) (resource : String)
    (args : Args) (context : DecisionContext) : Outcome :=
  if Decider.scopeCovers chain action.kind resource then
    if w.engine chain.subject action.relation resource then
      w.permitted D chain action resource args context
    else .deny
  else .deny

/-- What `_policy_verdict` makes of an ALLOW. -/
def verdict (D : Decider) (chain : PrincipalChain) (action : Action) (resource : String)
    (args : Args) (context : DecisionContext) : Verdict :=
  if D.hasPolicy then
    match w.policy chain action resource args context with
    | .error _ => ⟨.deny, "policy_error"⟩
    | .ok verdict => if verdict.outcome = .allow then ⟨.allow, "allowed"⟩ else verdict
  else ⟨.allow, "allowed"⟩

/-- **The outcome for a resource, and its reason.** -/
def judge (D : Decider) (chain : PrincipalChain) (action : Action) (resource : String)
    (args : Args) (context : DecisionContext) : Verdict :=
  if Decider.scopeCovers chain action.kind resource then
    if w.engine chain.subject action.relation resource then
      w.verdict D chain action resource args context
    else ⟨.deny, "not_related"⟩
  else ⟨.deny, "scope_excluded"⟩

variable {w} {D : Decider} {chain : PrincipalChain} {action : Action} {resource : String}
  {args : Args} {context : DecisionContext}

theorem verdict_outcome : (w.verdict D chain action resource args context).outcome =
    w.permitted D chain action resource args context := by
  rw [verdict, permitted]
  by_cases hpolicy : D.hasPolicy = true
  · rw [if_pos hpolicy, if_pos hpolicy]
    cases w.policy chain action resource args context with
    | error exc => rfl
    | ok verdict =>
      by_cases hallow : verdict.outcome = .allow
      · exact (congrArg Verdict.outcome (if_pos hallow)).trans hallow.symm
      · exact congrArg Verdict.outcome (if_neg hallow)
  · rw [if_neg hpolicy, if_neg hpolicy]

theorem judge_outcome : (w.judge D chain action resource args context).outcome =
    w.outcome D chain action resource args context := by
  rw [judge, outcome]
  cases Decider.scopeCovers chain action.kind resource with
  | false => rfl
  | true =>
    cases w.engine chain.subject action.relation resource with
    | false => rfl
    | true => exact verdict_outcome

end FixedAnswers

/-- The outcome and the reason. -/
def Judged.verdict (judged : Judged) : Verdict := ⟨judged.outcome, judged.reason⟩

/-- The outcome and the reason. -/
def Decision.verdict (decision : Decision) : Verdict := ⟨decision.outcome, decision.reason⟩

namespace Decider

variable {w : FixedAnswers} {D : Decider} {chain : PrincipalChain} {action : Action}
  {args : Args} {context : DecisionContext}

/-! ### One resource -/

theorem under_policyVerdict (resource : String) :
    Under w.Gives (fun x => x = .ok (w.verdict D chain action resource args context))
      (D.policyVerdict chain action resource args context) := by
  rw [policyVerdict, FixedAnswers.verdict]
  by_cases hpolicy : D.hasPolicy = true
  · rw [if_pos hpolicy, if_pos hpolicy]
    intro answer hanswer
    obtain rfl : answer = w.policy chain action resource args context := hanswer
    cases w.policy chain action resource args context with
    | error exc => rfl
    | ok verdict =>
      change ProgUnder _ _ (if verdict.outcome = .allow then _ else _ : Core Verdict).run
      by_cases hallow : verdict.outcome = .allow
      · rw [if_pos hallow]
        exact congrArg Except.ok (if_pos hallow).symm
      · rw [if_neg hallow]
        exact congrArg Except.ok (if_neg hallow).symm
  · rw [if_neg hpolicy, if_neg hpolicy]
    exact under_pure rfl

/-- The same, as the verdict that goes into a judgement. -/
theorem under_policyVerdict_bind {α : Type} {f : Verdict → Core α} {Q : Except Exn α → Prop}
    (resource : String)
    (hf : Under w.Gives Q (f (w.verdict D chain action resource args context))) :
    Under w.Gives Q (D.policyVerdict chain action resource args context >>= f) := by
  refine (under_policyVerdict resource).bind (fun e he => nomatch he) fun v hv => ?_
  obtain rfl := Except.ok.inj hv
  exact hf

theorem under_evaluate (resource : String) :
    Under w.Gives (fun x => ∃ j, x = .ok j ∧
      j.verdict = w.judge D chain action resource args context)
      (D.evaluate chain action resource args context) := by
  rw [evaluate, FixedAnswers.judge]
  by_cases hscope : scopeCovers chain action.kind resource = true
  · have hcovered : ¬ scopeCovers chain action.kind resource = false := by
      rw [hscope]
      exact Bool.noConfusion
    rw [if_neg hcovered, if_pos hscope]
    intro answer hanswer latencyMs _
    obtain rfl : answer = .ok (w.engine chain.subject action.relation resource) := hanswer
    cases w.engine chain.subject action.relation resource with
    | false => exact under_pure ⟨_, rfl, rfl⟩
    | true => exact under_policyVerdict_bind resource (under_pure ⟨_, rfl, rfl⟩)
  · rw [if_neg hscope, if_pos (Bool.eq_false_iff.mpr hscope)]
    exact under_pure ⟨_, rfl, rfl⟩

theorem under_conclude (judged : Judged) (resource : String) (timestamp : ℤ)
    (resources : List String) (callArgs : Option Args) (audited : Bool) :
    Under w.Gives (fun x => ∃ d, x = .ok d ∧ d.verdict = judged.verdict ∧ d.resource = resource)
      (D.conclude judged chain action resource timestamp resources callArgs audited) := by
  rw [conclude]
  intro decisionId _
  change Under _ _ (if audited = true then _ else _)
  by_cases haudit : audited = true
  · rw [if_pos haudit]
    intro eventId _ answer hanswer
    obtain rfl : answer = .ok () := hanswer
    exact ⟨_, rfl, rfl, rfl⟩
  · rw [if_neg haudit]
    exact under_pure ⟨_, rfl, rfl, rfl⟩

/-- **One decision** is what its resource is judged to be. -/
theorem under_decide_verdict {resource : String} (hvalid : isResourcePattern resource = true)
    (callArgs : Option Args) (callContext : Option DecisionContext) :
    Under w.Gives (fun x => ∃ d, x = .ok d ∧
      d.verdict = w.judge D chain action resource (callArgs.getD []) (callContext.getD .none))
      (D.decide chain action resource callArgs callContext) := by
  rw [decide, validateResourcePattern_eq_ok.mpr ⟨hvalid, rfl⟩,
    validateRef_eq_ok.mpr ⟨chain.subject_isRef, rfl⟩]
  refine (under_evaluate resource).bind_ok fun judged hjudged => ?_
  intro timestamp _
  refine (under_conclude judged resource timestamp [] callArgs true).mono ?_
  rintro x ⟨d, rfl, hverdict, -⟩
  exact ⟨d, rfl, hverdict.trans hjudged⟩

/-- One decision has the outcome of its resource. -/
theorem under_decide {resource : String} (hvalid : isResourcePattern resource = true)
    (callArgs : Option Args) (callContext : Option DecisionContext) :
    Under w.Gives (fun x => ∃ d, x = .ok d ∧
      d.outcome = w.outcome D chain action resource (callArgs.getD []) (callContext.getD .none))
      (D.decide chain action resource callArgs callContext) := by
  refine (under_decide_verdict hvalid callArgs callContext).mono ?_
  rintro x ⟨d, rfl, hverdict⟩
  refine ⟨d, rfl, ?_⟩
  rw [← FixedAnswers.judge_outcome, ← hverdict]
  rfl

end Decider

end HeadOfContext
