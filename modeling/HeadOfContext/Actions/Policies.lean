import HeadOfContext.Core.DeciderSafety
import Mathlib.Data.Multiset.Lattice
import Mathlib.Order.Bounds.Basic

/-!
# Decision policies

The built-in policies, and what a list of policies makes of a decision.

The outcomes are ordered by severity, ALLOW at the bottom and DENY at the top, and a policy that
raises counts as one that denies. A `CompositePolicy` keeps the first of its most severe verdicts
and stops at the first exception; its outcome is all the same the supremum of the outcomes of its
policies (`CompositePolicy.outcome_eq`), which knows of no order, no ties and no position of a
failure. `decide` applies one monotone function to it (`Decider.outcomeWith`), so that policies
only lower what it returns (`Decider.policies_only_lower`). An approval lifts the requests for one
and nothing else (`Builtin.mostSevere_approved`).
-/

namespace HeadOfContext

open Effects Raises

/-! ### The order of the outcomes -/

theorem Outcome.severity_injective : Function.Injective Outcome.severity := by
  intro a b h
  cases a <;> cases b <;> first | rfl | exact absurd h (by decide)

/-- Outcomes by severity: a greater one is more restrictive. -/
instance : LinearOrder Outcome := LinearOrder.lift' Outcome.severity Outcome.severity_injective

theorem Outcome.le_iff {a b : Outcome} : a ≤ b ↔ a.severity ≤ b.severity := Iff.rfl

instance : BoundedOrder Outcome where
  bot := .allow
  bot_le a := Nat.zero_le a.severity
  top := .deny
  le_top a := Outcome.le_iff.mpr (by cases a <;> decide)

/-- The more restrictive of two verdicts has the greater outcome. -/
theorem mostRestrictive_outcome (a b : Verdict) :
    (mostRestrictive a b).outcome = a.outcome ⊔ b.outcome := by
  rw [mostRestrictive]
  split_ifs with h
  · exact (sup_eq_right.mpr (Outcome.le_iff.mpr h.le)).symm
  · exact (sup_eq_left.mpr (Outcome.le_iff.mpr (not_lt.mp h))).symm

/-! ### Policies -/

/-- `DecisionPolicy.evaluate`, which may raise. -/
abbrev DecisionPolicy :=
  PrincipalChain → Action → String → Args → DecisionContext → Except Exn Verdict

/-- A predicate over the arguments. -/
abbrev Predicate := Args → Except Exn Bool

/-- `_matches`. -/
def matchesAny (patterns : List Capability) (resource : String) : Except Exn Bool :=
  match patterns with
  | [] => .ok false
  | pattern :: rest =>
    match Capability.make .act resource with
    | .error exc => .error (.hoc exc)
    | .ok cap => if pattern.covers cap then .ok true else matchesAny rest resource

/-- `RequireApproval`. The constructor has made the patterns. -/
structure RequireApproval where
  patterns : List Capability
  when? : Option Predicate
  reason : String

namespace RequireApproval

variable (self : RequireApproval)

/-- What is left once the tool matches and the predicate holds. -/
def ask (context : DecisionContext) : Verdict :=
  if context.approvalId.isSome then .policyAllowed else ⟨.requireApproval, self.reason⟩

/-- `evaluate`. -/
def evaluate : DecisionPolicy := fun _ action resource args context => do
  if action.kind ≠ .act then return .policyAllowed
  else if ← matchesAny self.patterns resource then
    match self.when? with
    | none => return self.ask context
    | some predicate =>
      match predicate args with
      | .error _ => return ⟨.deny, "policy_error"⟩
      | .ok false => return .policyAllowed
      | .ok true => return self.ask context
  else return .policyAllowed

end RequireApproval

/-- `DenyWhen`. The constructor has made the patterns. -/
structure DenyWhen where
  patterns : List Capability
  predicate : Predicate
  reason : String

/-- `DenyWhen.evaluate`. -/
def DenyWhen.evaluate (self : DenyWhen) : DecisionPolicy := fun _ action resource args _ => do
  if action.kind ≠ .act then return .policyAllowed
  else if ← matchesAny self.patterns resource then
    match self.predicate args with
    | .error _ => return ⟨.deny, "policy_error"⟩
    | .ok hit => return if hit then ⟨.deny, self.reason⟩ else .policyAllowed
  else return .policyAllowed

/-- `CompositePolicy.evaluate`, from the verdict so far on. -/
def CompositePolicy.fold (chain : PrincipalChain) (action : Action) (resource : String)
    (args : Args) (context : DecisionContext) :
    Verdict → List DecisionPolicy → Except Exn Verdict
  | verdict, [] => .ok verdict
  | verdict, policy :: rest => do
    let next ← policy chain action resource args context
    fold chain action resource args context (mostRestrictive verdict next) rest

/-- `CompositePolicy.evaluate`. -/
def CompositePolicy.evaluate (policies : List DecisionPolicy) : DecisionPolicy :=
  fun chain action resource args context =>
    fold chain action resource args context .policyAllowed policies

/-! ### What a list of policies comes to -/

namespace CompositePolicy

variable {chain : PrincipalChain} {action : Action} {resource : String} {args : Args}
  {context : DecisionContext}

/-- The outcome of a policy, a failure being a denial. -/
def outcomeOf (chain : PrincipalChain) (action : Action) (resource : String) (args : Args)
    (context : DecisionContext) (policy : DecisionPolicy) : Outcome :=
  policyOutcome (policy chain action resource args context)

/-- The most restrictive outcome of the policies. -/
def mostSevere (chain : PrincipalChain) (action : Action) (resource : String) (args : Args)
    (context : DecisionContext) (policies : List DecisionPolicy) : Outcome :=
  (Multiset.ofList (policies.map (outcomeOf chain action resource args context))).sup

@[simp] theorem mostSevere_nil : mostSevere chain action resource args context [] = ⊥ :=
  Multiset.sup_zero

theorem mostSevere_cons (policy : DecisionPolicy) (rest : List DecisionPolicy) :
    mostSevere chain action resource args context (policy :: rest) =
      outcomeOf chain action resource args context policy ⊔
        mostSevere chain action resource args context rest := by
  rw [mostSevere, List.map_cons, ← Multiset.cons_coe, Multiset.sup_cons]
  rfl

/-- The fold, from any verdict on. An exception is above whatever else there is. -/
theorem outcome_fold (verdict : Verdict) (policies : List DecisionPolicy) :
    policyOutcome (fold chain action resource args context verdict policies) =
      verdict.outcome ⊔ mostSevere chain action resource args context policies := by
  induction policies generalizing verdict with
  | nil =>
    rw [mostSevere_nil, sup_bot_eq]
    rfl
  | cons policy rest ih =>
    rw [mostSevere_cons, outcomeOf, fold]
    cases policy chain action resource args context with
    | error exc =>
      calc Outcome.deny = verdict.outcome ⊔ ⊤ := (sup_top_eq _).symm
        _ = verdict.outcome ⊔ (⊤ ⊔ mostSevere chain action resource args context rest) := by
          rw [top_sup_eq]
    | ok next =>
      refine (ih (mostRestrictive verdict next)).trans ?_
      rw [mostRestrictive_outcome, sup_assoc]
      rfl

/-- **A list of policies is as restrictive as its most restrictive policy.** -/
theorem outcome_eq (policies : List DecisionPolicy) :
    outcomeOf chain action resource args context (evaluate policies) =
      mostSevere chain action resource args context policies := by
  rw [outcomeOf, evaluate, outcome_fold]
  exact bot_sup_eq _

/-- Every policy may lower the outcome. -/
theorem outcomeOf_le {policies : List DecisionPolicy} {policy : DecisionPolicy}
    (h : policy ∈ policies) :
    outcomeOf chain action resource args context policy ≤
      mostSevere chain action resource args context policies :=
  Multiset.le_sup (Multiset.mem_coe.mpr (List.mem_map_of_mem h))

/-- The outcome of the list is that of one of its policies. -/
theorem exists_outcomeOf {policies : List DecisionPolicy} (h : policies ≠ []) :
    ∃ policy ∈ policies, outcomeOf chain action resource args context policy =
      mostSevere chain action resource args context policies := by
  induction policies with
  | nil => exact absurd rfl h
  | cons policy rest ih =>
    rw [mostSevere_cons]
    rcases le_total (mostSevere chain action resource args context rest)
      (outcomeOf chain action resource args context policy) with hle | hle
    · exact ⟨policy, List.mem_cons_self, (sup_eq_left.mpr hle).symm⟩
    · rw [sup_eq_right.mpr hle]
      by_cases hrest : rest = []
      · subst hrest
        rw [mostSevere_nil] at hle ⊢
        exact ⟨policy, List.mem_cons_self, le_bot_iff.mp hle⟩
      · obtain ⟨policy', hmem, heq⟩ := ih hrest
        exact ⟨policy', List.mem_cons_of_mem _ hmem, heq⟩

/-- More policies are more restrictive. -/
theorem mostSevere_mono {policies policies' : List DecisionPolicy} (h : policies ⊆ policies') :
    mostSevere chain action resource args context policies ≤
      mostSevere chain action resource args context policies' :=
  Multiset.sup_mono (List.map_subset _ h)

end CompositePolicy

/-! ### What an approval lifts -/

/-- A `RequireApproval` or a `DenyWhen`. -/
inductive Builtin : DecisionPolicy → Prop
  | requireApproval (policy : RequireApproval) : Builtin policy.evaluate
  | denyWhen (policy : DenyWhen) : Builtin policy.evaluate

/-- The outcome once the call carries an approval: only the request for one is lifted. -/
def Outcome.lifted (outcome : Outcome) : Outcome := if outcome = .deny then .deny else .allow

theorem Outcome.lifted_sup (a b : Outcome) : (a ⊔ b).lifted = a.lifted ⊔ b.lifted := by
  cases a <;> cases b <;> decide

theorem Builtin.outcomeOf_approved {policy : DecisionPolicy} (h : Builtin policy)
    (chain : PrincipalChain) (action : Action) (resource : String) (args : Args) (id : String) :
    CompositePolicy.outcomeOf chain action resource args ⟨some id⟩ policy =
      (CompositePolicy.outcomeOf chain action resource args .none policy).lifted := by
  cases h with
  | requireApproval policy =>
    simp only [CompositePolicy.outcomeOf, RequireApproval.evaluate]
    by_cases hkind : action.kind ≠ .act
    · rw [if_pos hkind, if_pos hkind]
      rfl
    · rw [if_neg hkind, if_neg hkind]
      cases matchesAny policy.patterns resource with
      | error exc => rfl
      | ok matched =>
        cases matched with
        | false => rfl
        | true =>
          cases policy.when? with
          | none => rfl
          | some predicate =>
            generalize hpredicate : predicate args = hit
            cases hit with
            | error exc =>
              dsimp only
              rw [hpredicate]
              rfl
            | ok hit =>
              dsimp only
              rw [hpredicate]
              cases hit <;> rfl
  | denyWhen policy =>
    -- the context is not read, and the outcome is never a request for approval
    simp only [CompositePolicy.outcomeOf, DenyWhen.evaluate]
    by_cases hkind : action.kind ≠ .act
    · rw [if_pos hkind]
      rfl
    · rw [if_neg hkind]
      cases matchesAny policy.patterns resource with
      | error exc => rfl
      | ok matched =>
        cases matched with
        | false => rfl
        | true =>
          cases policy.predicate args with
          | error exc => rfl
          | ok hit => cases hit <;> rfl

/-- **An approval lifts the requests for one**, and no denial. -/
theorem Builtin.mostSevere_approved {policies : List DecisionPolicy}
    (h : ∀ policy ∈ policies, Builtin policy) (chain : PrincipalChain) (action : Action)
    (resource : String) (args : Args) (id : String) :
    CompositePolicy.mostSevere chain action resource args ⟨some id⟩ policies =
      (CompositePolicy.mostSevere chain action resource args .none policies).lifted := by
  induction policies with
  | nil => rfl
  | cons policy rest ih =>
    obtain ⟨hpolicy, hrest⟩ := List.forall_mem_cons.mp h
    rw [CompositePolicy.mostSevere_cons, CompositePolicy.mostSevere_cons, Outcome.lifted_sup,
      hpolicy.outcomeOf_approved, ih hrest]

/-! ### The decision -/

/-- The engine is a function of its question, it may raise, and the policy is the given one. The
audit sink may answer what `Sink` says; the clock and the identifiers are free. -/
def Answered (engine : String → String → String → Except Exn Bool)
    (policy? : Option DecisionPolicy) (Sink : Except Exn Unit → Prop) : Event CoreSig → Prop
  | ⟨.check subject relation obj, answer⟩ => answer = engine subject relation obj
  | ⟨.policy chain action resource args context, answer⟩ =>
    ∀ policy, policy? = some policy → answer = policy chain action resource args context
  | ⟨.record _, answer⟩ => Sink answer
  | _ => True

namespace Decider

variable (engine : String → String → String → Except Exn Bool)

/-- The outcome of `_policy_verdict`. -/
def permitted (policy? : Option DecisionPolicy) (chain : PrincipalChain) (action : Action)
    (resource : String) (args : Args) (context : DecisionContext) : Outcome :=
  match policy? with
  | none => .allow
  | some policy => CompositePolicy.outcomeOf chain action resource args context policy

/-- **The outcome of `decide`.** -/
def outcomeWith (policy? : Option DecisionPolicy) (chain : PrincipalChain) (action : Action)
    (resource : String) (args : Args) (context : DecisionContext) : Outcome :=
  if scopeCovers chain action.kind resource then
    match engine chain.subject action.relation resource with
    | .ok true => permitted policy? chain action resource args context
    | _ => .deny
  else .deny

/-- The scope or the engine refuses: the engine answers False, or it raises. -/
def Refuses (chain : PrincipalChain) (action : Action) (resource : String) : Prop :=
  scopeCovers chain action.kind resource = false ∨
    engine chain.subject action.relation resource ≠ .ok true

/-- With this policy, `decide` may return this outcome. -/
def Reaches (rt : Runtime) (policy? : Option DecisionPolicy) (chain : PrincipalChain)
    (action : Action) (resource : String) (args : Option Args)
    (context : Option DecisionContext) (outcome : Outcome) : Prop :=
  ∃ tr d, Run (decide ⟨rt, policy?.isSome⟩ chain action resource args context) tr (.ok d) ∧
    (∀ e ∈ tr, Answered engine policy? (fun _ => True) e) ∧ d.outcome = outcome

variable {engine} {rt : Runtime} {policy? : Option DecisionPolicy} {Sink : Except Exn Unit → Prop}
  {chain : PrincipalChain} {action : Action} {resource : String} {args : Args}
  {context : DecisionContext}

/-- What comes after scope and engine has been refused does not matter. -/
theorem Refuses.outcome (h : Refuses engine chain action resource) :
    outcomeWith engine policy? chain action resource args context = .deny := by
  rw [outcomeWith]
  split_ifs with hscope
  · have hengine := h.resolve_left (by rw [hscope]; exact Bool.noConfusion)
    split
    · next heq => exact absurd heq hengine
    · rfl
  · rfl

/-- What scope and engine pass on, the policy decides. -/
theorem outcome_of_not_refuses (h : ¬ Refuses engine chain action resource) :
    outcomeWith engine policy? chain action resource args context =
      permitted policy? chain action resource args context := by
  obtain ⟨hscope, hengine⟩ := not_or.mp h
  rw [outcomeWith, if_pos (Bool.not_eq_false _ ▸ hscope), not_not.mp hengine]

theorem under_policyVerdict_outcome :
    Under (Answered engine policy? Sink) (fun x => ∃ v, x = .ok v ∧
      v.outcome = permitted policy? chain action resource args context)
      (policyVerdict ⟨rt, policy?.isSome⟩ chain action resource args context) := by
  cases policy? with
  | none => exact under_pure ⟨_, rfl, rfl⟩
  | some policy =>
    intro answer hanswer
    obtain rfl := hanswer policy rfl
    rw [permitted, CompositePolicy.outcomeOf]
    cases policy chain action resource args context with
    | error exc => exact under_pure ⟨_, rfl, rfl⟩
    | ok verdict =>
      change ProgUnder _ _ (if verdict.outcome = .allow then _ else _ : Core Verdict).run
      by_cases hallow : verdict.outcome = .allow
      · rw [if_pos hallow]
        exact under_pure ⟨_, rfl, hallow.symm⟩
      · rw [if_neg hallow]
        exact under_pure ⟨_, rfl, rfl⟩

theorem under_evaluate_outcome :
    Under (Answered engine policy? Sink) (fun x => ∃ j, x = .ok j ∧
      j.outcome = outcomeWith engine policy? chain action resource args context)
      (evaluate ⟨rt, policy?.isSome⟩ chain action resource args context) := by
  rw [evaluate, outcomeWith]
  by_cases hscope : scopeCovers chain action.kind resource = true
  · rw [if_pos hscope, if_neg (by rw [hscope]; exact Bool.noConfusion)]
    intro answer hanswer latencyMs _
    obtain rfl : answer = engine chain.subject action.relation resource := hanswer
    cases engine chain.subject action.relation resource with
    | error exc =>
      cases exc with
      | hoc exc => exact under_pure ⟨_, rfl, rfl⟩
      | other name => exact under_pure ⟨_, rfl, rfl⟩
    | ok related =>
      cases related with
      | false => exact under_pure ⟨_, rfl, rfl⟩
      | true =>
        refine under_policyVerdict_outcome.bind_ok fun v hv => ?_
        exact under_pure ⟨_, rfl, hv⟩
  · rw [if_neg hscope, if_pos (Bool.eq_false_iff.mpr hscope)]
    exact under_pure ⟨_, rfl, rfl⟩

/-- The decision is returned, unless the sink raises. -/
theorem under_conclude_outcome (D : Decider) (judged : Judged) (timestamp : ℤ)
    (resources : List String) (callArgs : Option Args) :
    Under (Answered engine policy? Sink)
      (fun x => (∃ d, x = .ok d ∧ d.outcome = judged.outcome) ∨
        ∃ exc, x = .error exc ∧ Sink (.error exc))
      (D.conclude judged chain action resource timestamp resources callArgs true) := by
  intro decisionId _ eventId _ answer hanswer
  cases answer with
  | error exc => exact .inr ⟨exc, rfl, hanswer⟩
  | ok _ => exact .inl ⟨_, rfl, rfl⟩

theorem under_decide_outcome (hvalid : isResourcePattern resource = true) (callArgs : Option Args)
    (callContext : Option DecisionContext) :
    Under (Answered engine policy? Sink)
      (fun x => (∃ d, x = .ok d ∧ d.outcome = outcomeWith engine policy? chain action resource
          (callArgs.getD []) (callContext.getD .none)) ∨
        ∃ exc, x = .error exc ∧ Sink (.error exc))
      (decide ⟨rt, policy?.isSome⟩ chain action resource callArgs callContext) := by
  rw [decide, validateResourcePattern_eq_ok.mpr ⟨hvalid, rfl⟩,
    validateRef_eq_ok.mpr ⟨chain.subject_isRef, rfl⟩]
  refine under_evaluate_outcome.bind_ok fun judged hjudged => ?_
  intro timestamp _
  rw [← hjudged]
  exact under_conclude_outcome _ judged timestamp [] callArgs

/-- Collaborators that answer so, and a sink that accepts. -/
def agreeing (engine : String → String → String → Except Exn Bool)
    (policy? : Option DecisionPolicy) : ∀ o, CoreSig.Res o
  | .now => (0 : ℤ)
  | .uuid4 => ""
  | .elapsedMs => zeroMs
  | .check subject relation obj => engine subject relation obj
  | .batchCheck _ _ => .ok []
  | .policy chain action resource args context =>
    match policy? with
    | none => .ok .policyAllowed
    | some policy => policy chain action resource args context
  | .record _ => .ok ()

theorem answered_agreeing (engine : String → String → String → Except Exn Bool)
    (policy? : Option DecisionPolicy) (o : CoreOp) :
    Answered engine policy? (fun answer => answer = .ok ()) ⟨o, agreeing engine policy? o⟩ := by
  cases o with
  | policy =>
    rintro policy rfl
    rfl
  | check => rfl
  | record => rfl
  | now => trivial
  | uuid4 => trivial
  | elapsedMs => trivial
  | batchCheck => trivial

theorem answered_mono {Sink' : Except Exn Unit → Prop} {e : Event CoreSig}
    (h : Answered engine policy? Sink e) (hsink : ∀ answer, Sink answer → Sink' answer) :
    Answered engine policy? Sink' e := by
  obtain ⟨o, answer⟩ := e
  cases o with
  | record => exact hsink answer h
  | check => exact h
  | policy => exact h
  | now => trivial
  | uuid4 => trivial
  | elapsedMs => trivial
  | batchCheck => trivial

/-- **The outcome is a function** of the scope, the engine's answer and the policy's. -/
theorem reaches_iff {args : Option Args} {context : Option DecisionContext} {outcome : Outcome} :
    Reaches engine rt policy? chain action resource args context outcome ↔
      isResourcePattern resource = true ∧ outcome = outcomeWith engine policy? chain action resource
        (args.getD []) (context.getD .none) := by
  constructor
  · rintro ⟨tr, d, hrun, hanswered, rfl⟩
    have hvalid : isResourcePattern resource = true := by
      obtain ⟨_, _, _, -, hpattern, -⟩ := run_bind_ok.mp hrun
      exact (validateResourcePattern_eq_ok.mp (Core.run_ofHoc_ok.mp hpattern).2).1
    refine ⟨hvalid, ?_⟩
    rcases (under_decide_outcome hvalid args context).run hrun hanswered with
      ⟨d', hd, hout⟩ | ⟨_, hd, -⟩
    · obtain rfl := Except.ok.inj hd
      exact hout
    · nomatch hd
  · -- the run that the engine and the policy answer themselves
    rintro ⟨hvalid, rfl⟩
    have hrun := run_result (S := CoreSig) (agreeing engine policy?)
      (decide ⟨rt, policy?.isSome⟩ chain action resource args context)
    have hanswered := Prog.exec_answered (answered_agreeing engine policy?)
      (decide ⟨rt, policy?.isSome⟩ chain action resource args context).run
    rcases (under_decide_outcome hvalid args context).run hrun hanswered with
      ⟨d, hd, hout⟩ | ⟨_, -, hsink⟩
    · rw [hd] at hrun
      exact ⟨_, d, hrun, fun e he => answered_mono (hanswered e he) fun _ _ => trivial, hout⟩
    · nomatch hsink

/-! ### Policies only lower, in any order -/

theorem permitted_evaluate (policies : List DecisionPolicy) :
    permitted (some (CompositePolicy.evaluate policies)) chain action resource args context =
      CompositePolicy.mostSevere chain action resource args context policies :=
  CompositePolicy.outcome_eq policies

/-- The outcome with a list is the most restrictive of the outcomes with each of its policies. -/
theorem isGreatest_outcomeWith {policies : List DecisionPolicy} (hne : policies ≠ []) :
    IsGreatest {outcome | ∃ policy ∈ policies,
        outcome = outcomeWith engine (some policy) chain action resource args context}
      (outcomeWith engine (some (CompositePolicy.evaluate policies)) chain action resource args
        context) := by
  by_cases hrefuses : Refuses engine chain action resource
  · -- every policy meets the same refusal
    rw [hrefuses.outcome]
    obtain ⟨policy, hmem⟩ := List.exists_mem_of_ne_nil policies hne
    exact ⟨⟨policy, hmem, hrefuses.outcome.symm⟩, fun outcome _ => le_top⟩
  · rw [outcome_of_not_refuses hrefuses, permitted_evaluate]
    constructor
    · obtain ⟨policy, hmem, heq⟩ : ∃ policy ∈ policies,
          CompositePolicy.outcomeOf chain action resource args context policy =
            CompositePolicy.mostSevere chain action resource args context policies :=
        CompositePolicy.exists_outcomeOf hne
      refine ⟨policy, hmem, ?_⟩
      rw [outcome_of_not_refuses hrefuses]
      exact heq.symm
    · rintro outcome ⟨policy, hmem, rfl⟩
      rw [outcome_of_not_refuses hrefuses]
      exact CompositePolicy.outcomeOf_le hmem

/-- The same, as what `decide` may return. -/
theorem reaches_evaluate_iff {policies : List DecisionPolicy} {args : Option Args}
    {context : Option DecisionContext} {outcome : Outcome} (hne : policies ≠ []) :
    Reaches engine rt (some (CompositePolicy.evaluate policies)) chain action resource args context
        outcome ↔
      IsGreatest {outcome | ∃ policy ∈ policies,
        Reaches engine rt (some policy) chain action resource args context outcome} outcome := by
  simp only [reaches_iff]
  by_cases hvalid : isResourcePattern resource = true
  · simp only [hvalid, true_and]
    constructor
    · rintro rfl
      exact isGreatest_outcomeWith hne
    · intro hgreatest
      exact hgreatest.unique (isGreatest_outcomeWith hne)
  · refine iff_of_false (fun h => hvalid h.1) fun hgreatest => ?_
    obtain ⟨policy, -, hreach⟩ := hgreatest.1
    exact hvalid hreach.1

/-- The empty list is no policy. -/
theorem outcomeWith_nil :
    outcomeWith engine (some (CompositePolicy.evaluate [])) chain action resource args context =
      outcomeWith engine none chain action resource args context := by
  by_cases hrefuses : Refuses engine chain action resource
  · rw [hrefuses.outcome, hrefuses.outcome]
  · rw [outcome_of_not_refuses hrefuses, outcome_of_not_refuses hrefuses, permitted_evaluate,
      CompositePolicy.mostSevere_nil]
    rfl

/-- More policies make no outcome more permissive. -/
theorem outcomeWith_mono {policies policies' : List DecisionPolicy} (h : policies ⊆ policies') :
    outcomeWith engine (some (CompositePolicy.evaluate policies)) chain action resource args
        context ≤
      outcomeWith engine (some (CompositePolicy.evaluate policies')) chain action resource args
        context := by
  by_cases hrefuses : Refuses engine chain action resource
  · rw [hrefuses.outcome, hrefuses.outcome]
  · rw [outcome_of_not_refuses hrefuses, outcome_of_not_refuses hrefuses, permitted_evaluate,
      permitted_evaluate]
    exact CompositePolicy.mostSevere_mono h

/-- The order of the policies does not matter. -/
theorem outcomeWith_perm {policies policies' : List DecisionPolicy} (h : policies.Perm policies') :
    outcomeWith engine (some (CompositePolicy.evaluate policies)) chain action resource args
        context =
      outcomeWith engine (some (CompositePolicy.evaluate policies')) chain action resource args
        context :=
  le_antisymm (outcomeWith_mono h.subset) (outcomeWith_mono h.symm.subset)

/-- **Policies only lower the outcome of `decide`, in any order.** -/
theorem policies_only_lower (engine : String → String → String → Except Exn Bool) (rt : Runtime)
    (chain : PrincipalChain) (action : Action) (resource : String) (args : Option Args)
    (context : Option DecisionContext) :
    -- each policy has one outcome; one that raises has DENY
    (isResourcePattern resource = true → ∀ policy? : Option DecisionPolicy,
      ∃! outcome, Reaches engine rt policy? chain action resource args context outcome) ∧
    (∀ (policy : DecisionPolicy) (exc : Exn) (outcome : Outcome),
      policy chain action resource (args.getD []) (context.getD .none) = .error exc →
      Reaches engine rt (some policy) chain action resource args context outcome →
      outcome = .deny) ∧
    -- that of a list is the most restrictive; of the empty list, that of no policy
    (∀ (policies : List DecisionPolicy) (outcome : Outcome), policies ≠ [] →
      (Reaches engine rt (some (CompositePolicy.evaluate policies)) chain action resource args
          context outcome ↔
        IsGreatest {outcome | ∃ policy ∈ policies,
          Reaches engine rt (some policy) chain action resource args context outcome} outcome)) ∧
    (∀ outcome, Reaches engine rt (some (CompositePolicy.evaluate [])) chain action resource args
        context outcome ↔ Reaches engine rt none chain action resource args context outcome) ∧
    -- whatever the order, and the more policies the more restrictive
    (∀ (policies policies' : List DecisionPolicy) (outcome : Outcome), policies.Perm policies' →
      (Reaches engine rt (some (CompositePolicy.evaluate policies)) chain action resource args
          context outcome ↔
        Reaches engine rt (some (CompositePolicy.evaluate policies')) chain action resource args
          context outcome)) ∧
    (∀ (policies policies' : List DecisionPolicy) (outcome outcome' : Outcome),
      policies ⊆ policies' →
      Reaches engine rt (some (CompositePolicy.evaluate policies)) chain action resource args
        context outcome →
      Reaches engine rt (some (CompositePolicy.evaluate policies')) chain action resource args
        context outcome' → outcome ≤ outcome') ∧
    -- what scope or engine refuses is denied, for any arguments
    (Refuses engine chain action resource →
      ∀ (policy? : Option DecisionPolicy) (args' : Option Args)
        (context' : Option DecisionContext) (outcome : Outcome),
        Reaches engine rt policy? chain action resource args' context' outcome →
        outcome = .deny) := by
  refine ⟨fun hvalid policy? => ?_, fun policy exc outcome hraises hreach => ?_,
    fun policies outcome hne => ?_, fun outcome => ?_, fun policies policies' outcome hperm => ?_,
    fun policies policies' outcome outcome' hsub hreach hreach' => ?_,
    fun hrefuses policy? args' context' outcome hreach => ?_⟩
  · refine ⟨_, reaches_iff.mpr ⟨hvalid, rfl⟩, fun outcome hreach => ?_⟩
    exact (reaches_iff.mp hreach).2
  · obtain ⟨-, rfl⟩ := reaches_iff.mp hreach
    by_cases hrefuses : Refuses engine chain action resource
    · exact hrefuses.outcome
    · rw [outcome_of_not_refuses hrefuses, permitted, CompositePolicy.outcomeOf, hraises]
      rfl
  · exact reaches_evaluate_iff hne
  · rw [reaches_iff, reaches_iff, outcomeWith_nil]
  · rw [reaches_iff, reaches_iff, outcomeWith_perm hperm]
  · obtain ⟨-, rfl⟩ := reaches_iff.mp hreach
    obtain ⟨-, rfl⟩ := reaches_iff.mp hreach'
    exact outcomeWith_mono hsub
  · obtain ⟨-, rfl⟩ := reaches_iff.mp hreach
    exact hrefuses.outcome

/-! ### Two policies for mail -/

/-- alice's agent, which may use the mail tools. -/
def aliceMailer : PrincipalChain :=
  ⟨"user:alice", "agent:a", [], .fromIterable [⟨.act, "tool:mail.*", Eq.refl true⟩], none,
    by decide⟩

/-- Mail is sent with an approval; a predicate over the recipient that finds none raises. -/
def mailPolicies : List DecisionPolicy :=
  [RequireApproval.evaluate ⟨[⟨.act, "tool:mail.*", Eq.refl true⟩], none, "approval_required"⟩,
    DenyWhen.evaluate ⟨[⟨.act, "tool:mail.send", by decide⟩],
      fun _ => .error (.other "KeyError"), "external_recipient"⟩]

/-- The predicate that raises denies sending; reading waits for the approval. -/
theorem policies_only_lower_mail :
    IsGreatest {outcome | ∃ policy ∈ mailPolicies,
        Reaches (fun _ _ _ => .ok true) ⟨Json.FloatText.ofBits, fun _ => [], fun _ => ""⟩
          (some policy) aliceMailer .invoke "tool:mail.send" none none outcome} .deny ∧
      IsGreatest {outcome | ∃ policy ∈ mailPolicies,
        Reaches (fun _ _ _ => .ok true) ⟨Json.FloatText.ofBits, fun _ => [], fun _ => ""⟩
          (some policy) aliceMailer .invoke "tool:mail.read" none none outcome}
        .requireApproval := by
  constructor
  · refine ((policies_only_lower _ _ _ _ _ _ _).2.2.1 _ _ (List.cons_ne_nil _ _)).mp ?_
    exact reaches_iff.mpr ⟨by decide, by decide +kernel⟩
  · refine ((policies_only_lower _ _ _ _ _ _ _).2.2.1 _ _ (List.cons_ne_nil _ _)).mp ?_
    exact reaches_iff.mpr ⟨by decide, by decide +kernel⟩

end Decider

end HeadOfContext
