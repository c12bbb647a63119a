import HeadOfContext.Core.Batched

/-!
# Every resource at once, against each alone

`decide_all` is meant to be the most restrictive of what `decide` says of each resource
(`MostRestrictive`). Scope and engine are asked about all of them before the policy, and there
any refusal is a DENY. The policy is asked in the order of the list, and its loop stops at the
first verdict that is not ALLOW: a resource that is sent to approval hides a later one that the
policy denies (`Masked`). That is all that goes wrong (`decide_all_most_restrictive_iff`).
-/

namespace HeadOfContext

open Effects Raises

/-! ### The first verdict that is not ALLOW -/

/-- The outcome of the loop over the policy's outcomes. -/
def firstRefusal (outcomes : List Outcome) : Outcome :=
  (outcomes.find? fun o => o ≠ .allow).getD .allow

/-- An approval stands before the first denial. -/
def Masked (outcomes : List Outcome) : Prop :=
  ∃ before later, outcomes = before ++ .requireApproval :: later ∧ (∀ o ∈ before, o = .allow) ∧
    .deny ∈ later

@[simp] theorem firstRefusal_nil : firstRefusal [] = .allow := rfl

theorem firstRefusal_cons (o : Outcome) (outcomes : List Outcome) :
    firstRefusal (o :: outcomes) = if o = .allow then firstRefusal outcomes else o := by
  unfold firstRefusal
  rw [List.find?_cons]
  by_cases ho : o = .allow
  · simp [ho]
  · simp [ho]

theorem firstRefusal_eq_allow {outcomes : List Outcome} :
    firstRefusal outcomes = .allow ↔ ∀ o ∈ outcomes, o = .allow := by
  induction outcomes with
  | nil => simp
  | cons o rest ih =>
    rw [firstRefusal_cons, List.forall_mem_cons]
    by_cases ho : o = .allow
    · rw [if_pos ho, ih]
      exact (and_iff_right ho).symm
    · rw [if_neg ho]
      exact iff_of_false ho fun h => ho h.1

theorem mem_of_firstRefusal {outcomes : List Outcome} (h : firstRefusal outcomes ≠ .allow) :
    firstRefusal outcomes ∈ outcomes := by
  induction outcomes with
  | nil => exact absurd rfl h
  | cons o rest ih =>
    rw [firstRefusal_cons] at h ⊢
    by_cases ho : o = .allow
    · rw [if_pos ho] at h ⊢
      exact List.mem_cons_of_mem _ (ih h)
    · rw [if_neg ho]
      exact List.mem_cons_self

/-- A denial is found, unless an approval stands before it. -/
theorem masked_iff {outcomes : List Outcome} :
    Masked outcomes ↔ firstRefusal outcomes = .requireApproval ∧ .deny ∈ outcomes := by
  constructor
  · rintro ⟨before, later, rfl, hbefore, hdeny⟩
    refine ⟨?_, List.mem_append_right _ (List.mem_cons_of_mem _ hdeny)⟩
    -- what comes before allows, so the approval is the first refusal
    induction before with
    | nil => rfl
    | cons o before ih =>
      obtain ⟨rfl, hrest⟩ := List.forall_mem_cons.mp hbefore
      rw [List.cons_append, firstRefusal_cons, if_pos rfl]
      exact ih hrest
  · rintro ⟨hfirst, hdeny⟩
    -- an ALLOW in front is passed over, and the first other outcome is the approval
    induction outcomes with
    | nil => exact absurd hdeny List.not_mem_nil
    | cons o rest ih =>
      rw [firstRefusal_cons] at hfirst
      by_cases ho : o = .allow
      · subst ho
        rw [if_pos rfl] at hfirst
        have hrest : Outcome.deny ∈ rest := (List.mem_cons.mp hdeny).resolve_left (by decide)
        obtain ⟨before, later, rfl, hbefore, hlater⟩ := ih hfirst hrest
        exact ⟨.allow :: before, later, rfl, List.forall_mem_cons.mpr ⟨rfl, hbefore⟩, hlater⟩
      · rw [if_neg ho] at hfirst
        subst hfirst
        have hrest : Outcome.deny ∈ rest := (List.mem_cons.mp hdeny).resolve_left (by decide)
        exact ⟨[], rest, rfl, fun o ho => absurd ho List.not_mem_nil, hrest⟩

namespace Decider

variable {w : FixedAnswers} {D : Decider} {chain : PrincipalChain} {action : Action}
  {args : Args} {context : DecisionContext} {resources : List String}

/-! ### What `decide_all` decides -/

/-- The scope covers every resource, and the engine relates them all. -/
def AllReached (w : FixedAnswers) (chain : PrincipalChain) (action : Action)
    (resources : List String) : Prop :=
  ∀ r ∈ resources, scopeCovers chain action.kind r = true ∧
    w.engine chain.subject action.relation r = true

theorem under_policyLoop (latencyMs : PyFloat) (resources : List String) :
    Under w.Gives (fun x => ∃ j, x = .ok j ∧ j.outcome =
        firstRefusal (resources.map fun r => w.permitted D chain action r args context))
      (D.policyLoop chain action args context latencyMs resources) := by
  induction resources with
  | nil => exact under_pure ⟨_, rfl, rfl⟩
  | cons item rest ih =>
    rw [policyLoop]
    refine under_policyVerdict_bind item ?_
    rw [List.map_cons, firstRefusal_cons, ← FixedAnswers.verdict_outcome]
    by_cases hallow : (w.verdict D chain action item args context).outcome = .allow
    · rw [if_pos hallow, if_neg (not_not.mpr hallow)]
      exact ih
    · rw [if_neg hallow, if_pos hallow]
      exact under_pure ⟨_, rfl, rfl⟩

/-- A batch of a fixed engine has all its answers. -/
theorem under_batch (subject relation : String) (resources : List String) :
    Under w.Gives (fun x => x = .ok (resources.map (w.engine subject relation), none))
      (batch subject relation resources) := by
  intro answer hanswer
  have hrelated : answer = .ok (resources.map (w.engine subject relation)) := by
    rw [show answer = _ from hanswer, List.map_map]
    rfl
  subst hrelated
  change Under _ _ (if _ then _ else _)
  rw [if_neg (not_not.mpr (List.length_map _))]
  exact under_pure rfl

theorem under_evaluateAll (hne : resources ≠ []) :
    Under w.Gives (fun x => ∃ j, x = .ok j ∧
        (AllReached w chain action resources → j.outcome =
          firstRefusal (resources.map fun r => w.permitted D chain action r args context)) ∧
        (¬AllReached w chain action resources → j.outcome = .deny))
      (D.evaluateAll chain action resources resources false args context) := by
  rw [evaluateAll, if_neg fun h => hne h.1]
  -- not covered: denied without a question
  by_cases hscope : resources.any (fun t => !scopeCovers chain action.kind t) = true
  · rw [if_pos hscope]
    refine under_pure ⟨_, rfl, fun hreached => ?_, fun _ => rfl⟩
    obtain ⟨r, hr, hnot⟩ := List.any_eq_true.mp hscope
    rw [(hreached r hr).1] at hnot
    exact nomatch hnot
  rw [if_neg hscope, if_neg hne]
  have hcovered : ∀ r ∈ resources, scopeCovers chain action.kind r = true := by
    intro r hr
    by_contra hnot
    exact hscope (List.any_eq_true.mpr ⟨r, hr, by rw [Bool.eq_false_iff.mpr hnot]; rfl⟩)
  -- covered: one batch over all resources, then the policies
  refine (under_batch chain.subject action.relation resources).bind (fun e he => nomatch he) ?_
  rintro answer hanswer
  obtain rfl := Except.ok.inj hanswer
  intro latencyMs _
  change Under _ _ (if _ then _ else _)
  by_cases hrelated : ((resources.map (w.engine chain.subject action.relation)).all id) = false
  · rw [if_pos hrelated]
    refine under_pure ⟨_, rfl, fun hreached => ?_, fun _ => rfl⟩
    have hall : (resources.map (w.engine chain.subject action.relation)).all id = true := by
      refine List.all_eq_true.mpr fun b hb => ?_
      obtain ⟨r, hr, rfl⟩ := List.mem_map.mp hb
      exact (hreached r hr).2
    rw [hall] at hrelated
    exact nomatch hrelated
  · rw [if_neg hrelated]
    have hreached : AllReached w chain action resources := by
      intro r hr
      have hall := List.all_eq_true.mp (Bool.not_eq_false _ ▸ hrelated)
      exact ⟨hcovered r hr, hall _ (List.mem_map_of_mem hr)⟩
    refine (under_policyLoop latencyMs resources).mono ?_
    rintro x ⟨j, rfl, hj⟩
    exact ⟨j, rfl, fun _ => hj, fun hnot => absurd hreached hnot⟩

theorem validateAll_append (l l' : List String) :
    validateAll (l ++ l') = validateAll l >>= fun _ => validateAll l' := by
  induction l with
  | nil => rfl
  | cons item rest ih =>
    rw [List.cons_append, validateAll, validateAll, ih]
    cases validateResourcePattern item <;> rfl

theorem validateAll_twice (l : List String) : validateAll (l ++ l) = validateAll l := by
  rw [validateAll_append]
  cases hl : validateAll l with
  | error exc => rfl
  | ok u => rfl

/-- A list that is refused has a resource that is refused, for the same reason. -/
theorem exists_of_validateAll_eq_error {l : List String} {exc : HocError}
    (h : validateAll l = .error exc) : ∃ r ∈ l, validateResourcePattern r = .error exc := by
  induction l with
  | nil => exact nomatch h
  | cons item rest ih =>
    rw [validateAll] at h
    cases hitem : validateResourcePattern item with
    | error exc' =>
      rw [hitem] at h
      obtain rfl := Except.error.inj h
      exact ⟨item, List.mem_cons_self, hitem⟩
    | ok u =>
      rw [hitem] at h
      obtain ⟨r, hr, hexc⟩ := ih h
      exact ⟨r, List.mem_cons_of_mem _ hr, hexc⟩

/-- **The decision on a list** of valid resources. -/
theorem under_decideAll {callArgs : Option Args} {callContext : Option DecisionContext}
    {named : Option String} (hne : resources ≠ [])
    (hvalid : ∀ r ∈ resources, isResourcePattern r = true) :
    Under w.Gives (fun x => ∃ d, x = .ok d ∧
        (AllReached w chain action resources → d.outcome =
          firstRefusal (resources.map fun r =>
            w.permitted D chain action r (callArgs.getD []) (callContext.getD .none))) ∧
        (¬AllReached w chain action resources → d.outcome = .deny))
      (D.decideAll chain action resources none named callArgs callContext) := by
  rw [decideAll, validateRef_eq_ok.mpr ⟨chain.subject_isRef, rfl⟩]
  change Under _ _ (Core.ofHoc (validateAll (resources ++ resources)) >>= _)
  rw [validateAll_twice, validateAll_eq_ok.mpr hvalid]
  refine (under_evaluateAll hne).bind_ok fun judged hjudged => ?_
  intro timestamp _
  refine (under_conclude judged _ timestamp resources callArgs true).mono ?_
  rintro x ⟨d, rfl, hverdict, -⟩
  have houtcome : d.outcome = judged.outcome := congrArg Verdict.outcome hverdict
  exact ⟨d, rfl, fun h => houtcome.trans (hjudged.1 h), fun h => houtcome.trans (hjudged.2 h)⟩

/-! ### Against each resource alone -/

/-- `decide` on the resource alone has this outcome. -/
def DecidesAlone (w : FixedAnswers) (D : Decider) (chain : PrincipalChain) (action : Action)
    (callArgs : Option Args) (callContext : Option DecisionContext) (resource : String)
    (o : Outcome) : Prop :=
  ∀ tr x, Run (D.decide chain action resource callArgs callContext) tr x → (∀ e ∈ tr, w.Gives e) →
    ∃ d, x = .ok d ∧ d.outcome = o

theorem decidesAlone_iff {callArgs : Option Args} {callContext : Option DecisionContext}
    {resource : String} {o : Outcome} (hvalid : isResourcePattern resource = true) :
    DecidesAlone w D chain action callArgs callContext resource o ↔
      w.outcome D chain action resource (callArgs.getD []) (callContext.getD .none) = o := by
  have hunder : Under w.Gives (fun x => ∃ d, x = .ok d ∧
      d.outcome = w.outcome D chain action resource (callArgs.getD []) (callContext.getD .none))
      (D.decide chain action resource callArgs callContext) :=
    under_decide hvalid callArgs callContext
  constructor
  · intro h
    have hrun := Raises.run_result (S := CoreSig) w.answer
      (D.decide chain action resource callArgs callContext)
    have hgives := Prog.exec_answered w.gives_answer
      (D.decide chain action resource callArgs callContext).run
    obtain ⟨d, hd, hdo⟩ := h _ _ hrun hgives
    obtain ⟨d', hd', hdo'⟩ := hunder.run hrun hgives
    obtain rfl := Except.ok.inj (hd.symm.trans hd')
    exact hdo'.symm.trans hdo
  · rintro rfl tr x hrun hgives
    exact hunder.run hrun hgives

/-- **The most restrictive of its parts**: what `decide_all` makes of the resources, against what
`decide` makes of each. -/
structure MostRestrictive (w : FixedAnswers) (D : Decider) (chain : PrincipalChain)
    (action : Action) (resources : List String) (callArgs : Option Args)
    (callContext : Option DecisionContext) (x : Except Exn Decision) : Prop where
  allow : (∃ d, x = .ok d ∧ d.outcome = .allow) ↔
    ∀ r ∈ resources, DecidesAlone w D chain action callArgs callContext r .allow
  deny : (∃ r ∈ resources, DecidesAlone w D chain action callArgs callContext r .deny) →
    ∃ d, x = .ok d ∧ d.outcome = .deny
  approval : (∃ d, x = .ok d ∧ d.outcome = .requireApproval) →
    (∀ r ∈ resources, ¬DecidesAlone w D chain action callArgs callContext r .deny) ∧
      ∃ r ∈ resources, DecidesAlone w D chain action callArgs callContext r .requireApproval

theorem outcome_of_reached {r : String} (h : AllReached w chain action resources)
    (hr : r ∈ resources) :
    w.outcome D chain action r args context = w.permitted D chain action r args context := by
  obtain ⟨hscope, hengine⟩ := h r hr
  rw [FixedAnswers.outcome, if_pos hscope, if_pos hengine]

theorem exists_deny_of_not_reached (h : ¬AllReached w chain action resources) :
    ∃ r ∈ resources, w.outcome D chain action r args context = .deny := by
  simp only [AllReached, not_forall] at h
  obtain ⟨r, hr, hnot⟩ := h
  refine ⟨r, hr, ?_⟩
  rw [FixedAnswers.outcome]
  by_cases hscope : scopeCovers chain action.kind r = true
  · rw [if_pos hscope, if_neg fun hengine => hnot ⟨hscope, hengine⟩]
  · rw [if_neg hscope]

/-- **When `decide_all` is the most restrictive of its parts.** A list with a malformed resource
is refused, as that resource is alone. For any other list it fails exactly where scope and engine
let every resource through and the policy sends one to approval that stands before the first one
it denies. -/
theorem decide_all_most_restrictive_iff {callArgs : Option Args}
    {callContext : Option DecisionContext} {named : Option String} {tr : Trace CoreSig}
    {x : Except Exn Decision} (hne : resources ≠ [])
    (hrun : Run (D.decideAll chain action resources none named callArgs callContext) tr x)
    (hanswers : ∀ e ∈ tr, w.Gives e) :
    match validateAll resources with
    | .error exc => x = .error (.hoc exc) ∧ ∃ r ∈ resources, ∀ tr' x',
        Run (D.decide chain action r callArgs callContext) tr' x' → x' = .error (.hoc exc)
    | .ok () => MostRestrictive w D chain action resources callArgs callContext x ↔
        ¬(AllReached w chain action resources ∧ Masked (resources.map fun r =>
          w.permitted D chain action r (callArgs.getD []) (callContext.getD .none))) := by
  cases hvalidate : validateAll resources with
  | error exc =>
    refine ⟨?_, ?_⟩
    · rw [decideAll, validateRef_eq_ok.mpr ⟨chain.subject_isRef, rfl⟩] at hrun
      change Run (Core.ofHoc (validateAll (resources ++ resources)) >>= _) _ _ at hrun
      rw [validateAll_twice, hvalidate] at hrun
      exact (run_raise.mp hrun).2
    · obtain ⟨r, hr, hexc⟩ := exists_of_validateAll_eq_error hvalidate
      refine ⟨r, hr, fun tr' x' hrun' => ?_⟩
      rw [decide, hexc] at hrun'
      exact (run_raise.mp hrun').2
  | ok u =>
    have hvalid := validateAll_eq_ok.mp hvalidate
    obtain ⟨d, rfl, hreached, hnot⟩ := (under_decideAll hne hvalid).run hrun hanswers
    have halone : ∀ r ∈ resources, ∀ o,
        DecidesAlone w D chain action callArgs callContext r o ↔
          w.outcome D chain action r (callArgs.getD []) (callContext.getD .none) = o :=
      fun r hr o => decidesAlone_iff (hvalid r hr)
    by_cases hall : AllReached w chain action resources
    · have houtcome := hreached hall
      have hsame : ∀ r ∈ resources, ∀ o,
          DecidesAlone w D chain action callArgs callContext r o ↔
            w.permitted D chain action r (callArgs.getD []) (callContext.getD .none) = o := by
        intro r hr o
        rw [halone r hr, outcome_of_reached hall hr]
      have hmem : ∀ o, (∃ r ∈ resources,
          DecidesAlone w D chain action callArgs callContext r o) ↔
          o ∈ resources.map fun r =>
            w.permitted D chain action r (callArgs.getD []) (callContext.getD .none) := by
        intro o
        rw [List.mem_map]
        exact exists_congr fun r => and_congr_right fun hr => hsame r hr o
      constructor
      · rintro h ⟨-, hmasked⟩
        obtain ⟨hfirst, hdeny⟩ := masked_iff.mp hmasked
        obtain ⟨d', heq, hd'⟩ := h.deny ((hmem _).mpr hdeny)
        obtain rfl := Except.ok.inj heq
        exact absurd ((houtcome.trans hfirst).symm.trans hd') (by decide)
      · intro hnot
        -- where an approval comes first, nothing is denied
        have hnone : d.outcome = .requireApproval → .deny ∉ resources.map fun r =>
            w.permitted D chain action r (callArgs.getD []) (callContext.getD .none) :=
          fun happroval hdeny => hnot ⟨hall, masked_iff.mpr ⟨houtcome.symm.trans happroval, hdeny⟩⟩
        refine ⟨?_, fun hdeny => ⟨d, rfl, ?_⟩, ?_⟩
        · constructor
          · rintro ⟨d', heq, hallow⟩ r hr
            obtain rfl := Except.ok.inj heq
            refine (hsame r hr _).mpr ?_
            exact firstRefusal_eq_allow.mp (houtcome.symm.trans hallow) _ (List.mem_map_of_mem hr)
          · intro hallow
            refine ⟨d, rfl, houtcome.trans (firstRefusal_eq_allow.mpr fun o ho => ?_)⟩
            obtain ⟨r, hr, rfl⟩ := List.mem_map.mp ho
            exact (hsame r hr _).mp (hallow r hr)
        · have hdeny' := (hmem _).mp hdeny
          cases hd : d.outcome with
          | allow =>
            exact absurd (firstRefusal_eq_allow.mp (houtcome.symm.trans hd) _ hdeny') (by decide)
          | requireApproval => exact absurd hdeny' (hnone hd)
          | deny => rfl
        · rintro ⟨d', heq, happroval⟩
          obtain rfl := Except.ok.inj heq
          have hfirst := houtcome.symm.trans happroval
          refine ⟨fun r hr hdeny => hnone happroval ((hmem _).mp ⟨r, hr, hdeny⟩), (hmem _).mpr ?_⟩
          have hfound := mem_of_firstRefusal (by rw [hfirst]; decide)
          rwa [hfirst] at hfound
    · have hdeny := hnot hall
      obtain ⟨r, hr, hr'⟩ : ∃ r ∈ resources,
          w.outcome D chain action r (callArgs.getD []) (callContext.getD .none) = .deny :=
        exists_deny_of_not_reached hall
      refine iff_of_true ⟨?_, fun _ => ⟨d, rfl, hdeny⟩, ?_⟩ fun h => hall h.1
      · constructor
        · rintro ⟨d', heq, hallow⟩
          obtain rfl := Except.ok.inj heq
          exact absurd (hdeny.symm.trans hallow) (by decide)
        · intro hallow
          have := (halone r hr _).mp (hallow r hr)
          exact absurd (hr'.symm.trans this) (by decide)
      · rintro ⟨d', heq, happroval⟩
        obtain rfl := Except.ok.inj heq
        exact absurd (hdeny.symm.trans happroval) (by decide)

/-! ### An approval that hides a denial -/

/-- A policy that asks for approval on one document and denies another. -/
def askOrDeny : FixedAnswers where
  engine _ _ _ := true
  policy _ _ resource _ _ := .ok (if resource = "doc:draft" then ⟨.requireApproval, "ask"⟩ else
    ⟨.deny, "sealed"⟩)

/-- The decision on a list, against these answers. -/
def decidedTogether (resources : List String) : Except Exn Decision :=
  Raises.result askOrDeny.answer
    (guarded.decideAll .aliceReader .read resources none none none none)

theorem decide_all_most_restrictive_denied_first :
    MostRestrictive askOrDeny guarded .aliceReader .read ["doc:sealed", "doc:draft"] none none
      (decidedTogether ["doc:sealed", "doc:draft"]) := by
  have hlaw := decide_all_most_restrictive_iff (List.cons_ne_nil _ _)
    (Raises.run_result (S := CoreSig) askOrDeny.answer (guarded.decideAll .aliceReader .read
      ["doc:sealed", "doc:draft"] none none none none))
    (Prog.exec_answered askOrDeny.gives_answer _)
  rw [show validateAll ["doc:sealed", "doc:draft"] = .ok () by decide +kernel] at hlaw
  refine hlaw.mpr fun h => ?_
  have hfirst := (masked_iff.mp h.2).1
  exact absurd hfirst (by decide +kernel)

/-- The sealed document is denied alone, and only waits for approval behind the draft. -/
theorem approval_hides_denial :
    ¬MostRestrictive askOrDeny guarded .aliceReader .read ["doc:draft", "doc:sealed"] none none
      (decidedTogether ["doc:draft", "doc:sealed"]) := by
  intro h
  have halone : DecidesAlone askOrDeny guarded .aliceReader .read none none "doc:sealed" .deny :=
    (decidesAlone_iff (by decide +kernel)).mpr (by decide +kernel)
  obtain ⟨d, hd, hdeny⟩ := h.deny ⟨"doc:sealed", by simp, halone⟩
  have hwaits : (decidedTogether ["doc:draft", "doc:sealed"]).returns
      (fun d => d.outcome = .requireApproval) = true := by decide +kernel
  obtain ⟨d', hd', happroval⟩ := Except.returns_iff.mp hwaits
  obtain rfl := Except.ok.inj (hd.symm.trans hd')
  exact absurd (hdeny.symm.trans (of_decide_eq_true happroval)) (by decide)

end Decider

end HeadOfContext
