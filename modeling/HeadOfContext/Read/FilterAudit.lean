import HeadOfContext.Read.FilterSafety
import HeadOfContext.Framework.JsonPrint
import HeadOfContext.Framework.Pairs

/-!
# The audit of each item

With `per_item_audit` the filter hands `audit_each` to `decide_each`, on the batch path. The other
branches journal no decision: a reference that the token refuses is denied before anything is
decided, and the ListObjects path passes `audit_each=False`. `per_item_audit_iff` says when every
reference has its event all the same.
-/

namespace HeadOfContext

open Effects Raises

/-! ### The entries of `decide_each` -/

/-- The sink was given the event of the decision, and accepted it. -/
def IsEntry (argsHash : Option String) (d : Decision) (entry : AuditEvent × Except Exn Unit) :
    Prop :=
  ∃ eventId, entry = (AuditEvent.fromDecision d argsHash eventId, .ok ())

namespace Decider

variable {D : Decider} {chain : PrincipalChain} {action : Action} {args : Option Args}

/-- What `conclude` journals. -/
theorem conclude_entries {judged : Judged} {resource : String} {timestamp : ℤ}
    {resources : List String} {audited : Bool} {tr : Trace CoreSig} {d : Decision}
    (h : Run (D.conclude judged chain action resource timestamp resources args audited) tr
      (.ok d)) :
    (audited = true → List.Forall₂ (IsEntry (hashArgs D.rt args)) [d] (recordings tr)) ∧
      (audited = false → recordings tr = []) := by
  unfold conclude at h
  obtain ⟨decisionId, tr₁, tr₂, rfl, h₁, h₂⟩ := run_bind_ok.mp h
  obtain rfl := run_lift_invoke_ok.mp h₁
  cases audited with
  | false =>
    obtain ⟨rfl, rfl⟩ := run_pure_ok.mp h₂
    exact ⟨fun ha => (nomatch ha), fun _ => rfl⟩
  | true =>
    obtain ⟨eventId, tr₃, tr₄, rfl, h₃, h₄⟩ := run_bind_ok.mp h₂
    obtain rfl := run_lift_invoke_ok.mp h₃
    obtain ⟨_, tr₅, tr₆, rfl, h₅, h₆⟩ := run_bind_ok.mp h₄
    obtain rfl := run_invoke.mp h₅
    obtain ⟨rfl, rfl⟩ := run_pure_ok.mp h₆
    exact ⟨fun _ => .cons ⟨eventId, rfl⟩ .nil, fun ha => (nomatch ha)⟩

theorem concludeEach_entries {outcomes : Outcomes} {now : ℤ} {auditEach : Bool}
    {items : List String} : ∀ {index : ℕ} {tr : Trace CoreSig} {ds : List Decision},
    Run (D.concludeEach chain action outcomes now args auditEach index items) tr (.ok ds) →
      (auditEach = true → List.Forall₂ (IsEntry (hashArgs D.rt args)) ds (recordings tr)) ∧
        (auditEach = false → recordings tr = []) := by
  -- the induction is on the items; each is concluded before the rest
  induction items with
  | nil =>
    intro index tr ds h
    obtain ⟨rfl, rfl⟩ := run_pure_ok.mp h
    exact ⟨fun _ => .nil, fun _ => rfl⟩
  | cons item rest ih =>
    intro index tr ds h
    rw [concludeEach] at h
    cases hlookup : outcomes.lookup index with
    | none =>
      rw [hlookup] at h
      cases (run_raise.mp h).2
    | some judged =>
      simp only [hlookup] at h
      obtain ⟨d, tr₁, tr₂, rfl, h₁, h₂⟩ := run_bind_ok.mp h
      obtain ⟨ds', tr₃, tr₄, rfl, h₃, h₄⟩ := run_bind_ok.mp h₂
      obtain ⟨rfl, rfl⟩ := run_pure_ok.mp h₄
      obtain ⟨hentry, hnone⟩ := conclude_entries h₁
      obtain ⟨hentries, hnones⟩ := ih h₃
      rw [List.append_nil, recordings_append]
      refine ⟨fun ha => List.rel_append (hentry ha) (hentries ha), fun ha => ?_⟩
      rw [hnone ha, hnones ha, List.append_nil]

/-- **The entries of `decide_each`**: one for each decision, or none at all. -/
theorem decideEach_entries {targets : List String} {auditEach : Bool}
    {context : Option DecisionContext} {tr : Trace CoreSig} {ds : List Decision}
    (h : Run (D.decideEach chain action targets auditEach args context) tr (.ok ds)) :
    (auditEach = true → List.Forall₂ (IsEntry (hashArgs D.rt args)) ds (recordings tr)) ∧
      (auditEach = false → recordings tr = []) := by
  unfold decideEach at h
  obtain ⟨_, tr₁, tr₂, rfl, hsubject, h₂⟩ := run_bind_ok.mp h
  obtain ⟨rfl, -⟩ := Core.run_ofHoc_ok.mp hsubject
  obtain ⟨_, tr₁, tr₃, rfl, hpatterns, h₃⟩ := run_bind_ok.mp h₂
  obtain ⟨rfl, -⟩ := Core.run_ofHoc_ok.mp hpatterns
  rw [List.nil_append, List.nil_append]
  by_cases hempty : targets = []
  · rw [if_pos hempty] at h₃
    obtain ⟨rfl, rfl⟩ := run_pure_ok.mp h₃
    exact ⟨fun _ => .nil, fun _ => rfl⟩
  rw [if_neg hempty] at h₃
  obtain ⟨outcomes, tr₁, tr₂, rfl, hloops, h₄⟩ := run_bind_ok.mp h₃
  obtain ⟨now, tr₄, tr₅, rfl, hnow, hconclude⟩ := run_bind_ok.mp h₄
  obtain rfl := run_lift_invoke_ok.mp hnow
  obtain ⟨added, rfl, hadds, -⟩ := judgeChunks_run hloops
  rw [recordings_append, recordings_append, hadds.unlogged]
  exact concludeEach_entries hconclude

end Decider

/-! ### The decision events of a run -/

/-- The decision that the sink was given and has accepted. -/
def decisionEvent : AuditEvent × Except Exn Unit → Option AuditEvent
  | (event, .ok ()) => if event.kind = .decision then some event else none
  | (_, .error _) => none

/-- The decision events that a filter has journaled. -/
def decisionEvents (tr : Trace FilterSig) : List AuditEvent :=
  (recordings (Filtered.coreTrace tr)).filterMap decisionEvent

theorem decisionEvents_append {tr tr' : Trace FilterSig} :
    decisionEvents (tr ++ tr') = decisionEvents tr ++ decisionEvents tr' := by
  rw [decisionEvents, Filtered.coreTrace_append, recordings_append, List.filterMap_append]
  rfl

/-- The event is the decision on the reference, with the outcome that the filter applied. -/
def JournaledAs (allowed : Dict String Outcome) (ref : String) (event : AuditEvent) : Prop :=
  event.resource = (ref : Json) ∧ ∃ outcome, allowed.get ref = some outcome ∧
    event.outcome = (outcome.str : Json)

/-- **Every item is audited**: beside the summary there is one decision event for each distinct
valid reference, and no other. -/
def AuditsEach (tr : Trace FilterSig) (allowed : Dict String Outcome) (refs : List String) : Prop :=
  ∃ names : List String, names.Perm (FrozenSet.ofList refs).items ∧
    List.Forall₂ (JournaledAs allowed) names (decisionEvents tr)

section Audit

variable {D : Decider} {chain : PrincipalChain} {action : Action} {relation : String}
  {strategy : Strategy} {hasPermits : Bool}

/-- The summary is no decision. -/
theorem decisionEvents_summary {at_ : ℤ} {eventId : String} {refs dropped : List String} {n : ℕ} :
    decisionEvents [Filtered.ofCore ⟨.now, at_⟩, Filtered.ofCore ⟨.uuid4, eventId⟩,
      Filtered.ofCore ⟨.record (summaryEvent D.rt chain action refs dropped n at_ eventId),
        .ok ()⟩] =
        [] := rfl

/-- The decision events of the entries of decisions. -/
theorem journaled_of_entries {argsHash : Option String} {allowed : Dict String Outcome}
    {ds : List Decision} {entries : List (AuditEvent × Except Exn Unit)}
    (hentries : List.Forall₂ (IsEntry argsHash) ds entries)
    (hallowed : ∀ d ∈ ds, allowed.get d.resource = some d.outcome) :
    List.Forall₂ (JournaledAs allowed) (ds.map Decision.resource)
      (entries.filterMap decisionEvent) := by
  induction hentries with
  | nil => exact .nil
  | @cons d entry ds entries hentry hrest ih =>
    obtain ⟨eventId, rfl⟩ := hentry
    obtain ⟨hhead, htail⟩ := List.forall_mem_cons.mp hallowed
    rw [List.map_cons, List.filterMap_cons_some (f := decisionEvent)
      (b := AuditEvent.fromDecision d argsHash eventId) rfl]
    exact .cons ⟨rfl, d.outcome, hhead, rfl⟩ (ih htail)

/-- **The batch path** journals every candidate, with the outcome that it adds. -/
theorem decideCandidates_batch {candidates : List String} (hnodup : candidates.Nodup)
    {chosen : Strategy} (hchosen : chosen ≠ .listObjects) {tr : Trace FilterSig}
    {decided : Dict String Outcome}
    (hrun : Run (decideCandidates D chain action candidates chosen true) tr (.ok decided)) :
    List.Forall₂ (JournaledAs decided) candidates (decisionEvents tr) := by
  unfold decideCandidates at hrun
  by_cases hnone : candidates = []
  · rw [if_pos hnone] at hrun
    obtain ⟨rfl, -⟩ := run_pure_ok.mp hrun
    exact hnone ▸ .nil
  rw [if_neg hnone, if_neg hchosen] at hrun
  obtain ⟨ds, tr₁, tr₂, rfl, hdecide, hdone⟩ := run_bind_ok.mp hrun
  obtain ⟨rfl, rfl⟩ := run_pure_ok.mp hdone
  obtain ⟨tr₀, rfl, hcore⟩ := Filtered.run_core.mp hdecide
  have hresources := (Decider.decideEach_run hcore).resources
  have hkeys : (ds.map Decision.resource).Nodup := hresources ▸ hnodup
  rw [List.append_nil, decisionEvents, Filtered.coreTrace_map_ofCore]
  rw [← hresources]
  -- the candidates are distinct, so the dictionary keeps the outcome of each
  refine journaled_of_entries ((Decider.decideEach_entries hcore).1 rfl) fun d hd => ?_
  · rw [get_setAll_decisions hkeys]
    obtain ⟨x, hx⟩ : ∃ x, (ds.find? fun x => x.resource = d.resource) = some x :=
      Option.isSome_iff_exists.mp (List.find?_isSome.mpr ⟨d, hd, decide_eq_true rfl⟩)
    have hkey := List.find?_some (p := fun x : Decision => decide (x.resource = d.resource)) hx
    obtain rfl : x = d :=
      List.inj_on_of_nodup_map hkeys (List.mem_of_find?_eq_some hx) hd (of_decide_eq_true hkey)
    rw [hx]
    rfl

/-- **The ListObjects path** journals no decision. -/
theorem decideCandidates_listed {candidates : List String} {perItemAudit : Bool}
    {tr : Trace FilterSig} {decided : Dict String Outcome}
    (hrun : Run (decideCandidates D chain action candidates .listObjects perItemAudit) tr
      (.ok decided)) : decisionEvents tr = [] := by
  unfold decideCandidates at hrun
  by_cases hnone : candidates = []
  · rw [if_pos hnone] at hrun
    obtain ⟨rfl, -⟩ := run_pure_ok.mp hrun
    rfl
  rw [if_neg hnone, if_pos rfl] at hrun
  obtain ⟨answer, tr₁, tr₂, rfl, hlisted, hrest⟩ := run_attempt_bind.mp hrun
  obtain rfl := run_invoke.mp hlisted
  rw [decisionEvents_append]
  -- where the engine lists, the decisions are made without an entry each
  cases answer with
  | error e =>
    obtain ⟨rfl, -⟩ := run_pure_ok.mp hrest
    rfl
  | ok visible =>
    obtain ⟨ds, tr₂, tr₃, rfl, hdecide, hdone⟩ := run_bind_ok.mp hrest
    obtain ⟨rfl, -⟩ := run_pure_ok.mp hdone
    obtain ⟨tr₀, rfl, hcore⟩ := Filtered.run_core.mp hdecide
    rw [List.append_nil, decisionEvents, decisionEvents, Filtered.coreTrace_map_ofCore,
      (Decider.decideEach_entries hcore).2 rfl]
    rfl

/-- The events of either path are about candidates. -/
theorem mem_of_decisionEvents {candidates : List String} (hnodup : candidates.Nodup)
    {chosen : Strategy} {tr : Trace FilterSig} {decided : Dict String Outcome}
    (hrun : Run (decideCandidates D chain action candidates chosen true) tr (.ok decided))
    {event : AuditEvent} (hevent : event ∈ decisionEvents tr) {ref : String}
    (href : event.resource = (ref : Json)) : ref ∈ candidates := by
  by_cases hchosen : chosen = .listObjects
  · subst hchosen
    rw [decideCandidates_listed hrun] at hevent
    exact absurd hevent List.not_mem_nil
  · obtain ⟨name, hname, hresource, -⟩ :=
      (decideCandidates_batch hnodup hchosen hrun).exists_right hevent
    rw [href] at hresource
    obtain rfl := Json.ofString_injective (Json.str.inj hresource)
    exact hname

/-! ### Who has answered for the token -/

/-- The call does not ask the token. -/
def AsksNoToken (o : FilterOp) : Prop := ∀ operation resources, o ≠ .permits operation resources

theorem asksNoToken_core {α : Type} {p : Core α} : Calls AsksNoToken (Filtered.core p) :=
  Calls.embed fun _ _ _ h => nomatch h

theorem asksNoToken_decideCandidates {candidates : List String} {chosen : Strategy}
    {perItemAudit : Bool} :
    Calls AsksNoToken (decideCandidates D chain action candidates chosen perItemAudit) := by
  unfold decideCandidates
  split
  · exact calls_pure _
  split
  · have hlist : Calls AsksNoToken
        (Filtered.listObjects chain.subject action.relation "document") :=
      calls_invoke (S := FilterSig) fun _ _ h => nomatch h
    refine hlist.attempt.bind fun answer => ?_
    cases answer with
    | error e => exact calls_pure _
    | ok visible => exact asksNoToken_core.bind fun ds => calls_pure _
  · exact asksNoToken_core.bind fun ds => calls_pure _

/-- Only the first part of a run asks the token. -/
theorem tokenPermits_first {tr₁ tr₂ tr₃ : Trace FilterSig}
    (h₂ : ∀ e ∈ tr₂, AsksNoToken e.op) (h₃ : ∀ e ∈ tr₃, AsksNoToken e.op) {ref : String}
    (h : TokenPermits (tr₁ ++ tr₂ ++ tr₃) ref) : TokenPermits tr₁ ref := by
  obtain ⟨wanted, answers, hcall, hyes⟩ := h
  refine ⟨wanted, answers, ?_, hyes⟩
  rcases List.mem_append.mp hcall with hcall | hcall
  · exact (List.mem_append.mp hcall).resolve_right fun hlate => h₂ _ hlate _ _ rfl
  · exact absurd rfl (h₃ _ hcall _ _)

/-- What the token refuses it has not permitted. -/
theorem not_permits_of_refused {refs refused : List String} {tr : Trace FilterSig}
    (hrun : Run (tokenRefused hasPermits refs) tr (.ok refused)) {ref : String}
    (href : ref ∈ refused) : hasPermits = true ∧ ¬ TokenPermits tr ref := by
  unfold tokenRefused at hrun
  cases hasPermits with
  | false =>
    obtain ⟨-, rfl⟩ := run_pure_ok.mp hrun
    exact absurd href List.not_mem_nil
  | true =>
    refine ⟨rfl, ?_⟩
    obtain ⟨answers, tr₁, tr₂, rfl, hasked, hrest⟩ := run_bind_ok.mp hrun
    obtain ⟨rfl, rfl⟩ := run_pure_ok.mp hrest
    obtain ⟨hmem, hno⟩ := List.mem_filter.mp href
    rw [if_neg (List.ne_nil_of_mem hmem)] at hasked
    obtain rfl := run_invoke.mp hasked
    rintro ⟨wanted, answers', hcall, hyes⟩
    rw [List.append_nil] at hcall
    cases List.mem_singleton.mp hcall
    rw [hyes] at hno
    exact nomatch hno

/-! ### The law of the audit -/

variable {T : Type} {extract : T → Except Exn (Option String)} {items : List T}

/-- **When every item is audited.** A filter that is called with `per_item_audit` and returns has
journaled one decision event for each distinct valid reference, with the outcome that it applied,
if and only if the token refuses none of them and the batch strategy was chosen, or there was no
reference to decide. -/
theorem per_item_audit_iff {tr : Trace FilterSig} {r : FilterResult T} (hitems : items ≠ [])
    (hrun : Run (filterItems D chain items extract relation strategy true hasPermits) tr (.ok r)) :
    AuditsEach tr r.decisionsByRef (refsOf extract items) ↔
      (hasPermits = true → ∀ ref ∈ refsOf extract items, TokenPermits tr ref) ∧
        (refsOf extract items = [] ∨
          strategy.choose (FrozenSet.ofList (refsOf extract items)).items.length ≠
            .listObjects) := by
  obtain ⟨chosen, hrefs, -⟩ := filterItems_run hitems hrun
  obtain ⟨refused, decided, tr₁, tr₂, at_, eventId, htoken, hdecide, hchosen, hallowed, rfl⟩ :=
    filterRefs_run hrefs
  obtain ⟨hquiet, hasked⟩ := tokenRefused_run htoken
  -- the events are those of the decisions on the candidates
  have hevents : ∀ summary : Trace FilterSig, decisionEvents summary = [] →
      decisionEvents (tr₁ ++ tr₂ ++ summary) = decisionEvents tr₂ := by
    intro summary hsummary
    have hfirst : decisionEvents tr₁ = [] := by
      rw [decisionEvents, hquiet]
      rfl
    rw [decisionEvents_append, decisionEvents_append, hfirst, hsummary, List.append_nil,
      List.nil_append]
  rw [AuditsEach, hevents _ decisionEvents_summary]
  -- without refusals the candidates are all the references
  have hall : (∀ ref ∈ refsOf extract items, ref ∉ refused) →
      (refsOf extract items).filter (· ∉ refused) = refsOf extract items := fun hnone =>
    List.filter_eq_self.mpr fun ref href => decide_eq_true (hnone ref href)
  constructor
  · rintro ⟨names, hperm, hforall⟩
    have hnone : ∀ ref ∈ refsOf extract items, ref ∉ refused := by
      intro ref href hrefused
      obtain ⟨event, hevent, hresource, -⟩ :=
        hforall.exists_left (hperm.mem_iff.mpr (FrozenSet.mem_ofList.mpr href))
      have hmem := mem_of_decisionEvents (FrozenSet.nodup _) hdecide hevent hresource
      have hnot := (List.mem_filter.mp (FrozenSet.mem_ofList.mp hmem)).2
      exact of_decide_eq_true hnot hrefused
    refine ⟨fun hpermits ref href => ?_, ?_⟩
    · obtain ⟨wanted, answers, hcall, hyes⟩ := hasked.permits href (hnone ref href) hpermits
      exact ⟨wanted, answers, List.mem_append_left _ (List.mem_append_left _ hcall), hyes⟩
    · refine or_iff_not_imp_left.mpr fun hne hlist => ?_
      have hcandidates := hall hnone
      rw [refsOf] at hcandidates
      rw [hcandidates, ← refsOf, hlist] at hchosen
      subst hchosen
      rw [decideCandidates_listed hdecide] at hforall
      obtain rfl := List.forall₂_nil_right_iff.mp hforall
      obtain ⟨ref, href⟩ := List.exists_mem_of_ne_nil _ hne
      have hmem := hperm.mem_iff.mpr (FrozenSet.mem_ofList.mpr href)
      exact absurd hmem List.not_mem_nil
  · rintro ⟨hpermits, hstrategy⟩
    have hnone : ∀ ref ∈ refsOf extract items, ref ∉ refused := by
      intro ref href hrefused
      obtain ⟨htrue, hnot⟩ := not_permits_of_refused htoken hrefused
      refine hnot (tokenPermits_first (fun e he => ?_) (fun e he => ?_) (hpermits htrue ref href))
      · exact asksNoToken_decideCandidates.of_run hdecide he
      · rcases List.mem_cons.mp he with rfl | he
        · exact fun _ _ h => nomatch h
        rcases List.mem_cons.mp he with rfl | he
        · exact fun _ _ h => nomatch h
        cases List.mem_singleton.mp he
        exact fun _ _ h => nomatch h
    have hcandidates := hall hnone
    rw [refsOf] at hcandidates
    rw [hcandidates, ← refsOf] at hchosen hdecide
    refine ⟨_, .refl _, ?_⟩
    by_cases hlist : chosen = .listObjects
    · obtain hempty | hne := hstrategy
      · rw [hlist] at hdecide
        rw [decideCandidates_listed hdecide, hempty]
        exact .nil
      · exact absurd (hchosen ▸ hlist) hne
    · refine (decideCandidates_batch (FrozenSet.nodup _) hlist hdecide).imp ?_
      rintro ref event ⟨hresource, outcome, hget, hout⟩
      refine ⟨hresource, outcome, ?_, hout⟩
      rw [hallowed, Dict.get_update, hget]
      rfl

end Audit

/-! ### A search whose items are audited -/

/-- A search over two documents, one of them secret, with an event for each. -/
def auditedSearch (strategy : Strategy) : Filtered (FilterResult String) :=
  filterItems Decider.guarded documentReader ["document:a", "document:s"]
    (fun item => .ok (some item)) "viewer" strategy true false

theorem per_item_audit_batch : ∃ r, (auditedSearch .batch).result openDocument.answer = .ok r ∧
    AuditsEach ((auditedSearch .batch).run.exec openDocument.answer).1 r.decisionsByRef
      (refsOf (fun item => .ok (some item)) ["document:a", "document:s"]) := by
  have hrun := run_result (S := FilterSig) openDocument.answer (auditedSearch .batch)
  have hreturns : ((auditedSearch .batch).result openDocument.answer).returns (fun _ => true) =
      true := by decide +kernel
  obtain ⟨r, hr, -⟩ := Except.returns_iff.mp hreturns
  rw [hr] at hrun
  exact ⟨r, hr, (per_item_audit_iff (List.cons_ne_nil _ _) hrun).mpr
    ⟨fun h => (nomatch h), .inr (by decide)⟩⟩

/-- **It can fail.** With ListObjects neither document has an event. -/
theorem listed_items_unaudited :
    ∃ r, (auditedSearch .listObjects).result openDocument.answer = .ok r ∧
      decisionEvents ((auditedSearch .listObjects).run.exec openDocument.answer).1 = [] ∧
      ¬ AuditsEach ((auditedSearch .listObjects).run.exec openDocument.answer).1 r.decisionsByRef
        (refsOf (fun item => .ok (some item)) ["document:a", "document:s"]) := by
  have hreturns : ((auditedSearch .listObjects).result openDocument.answer).returns
      (fun _ => true) = true := by decide +kernel
  have hlength : (decisionEvents
      ((auditedSearch .listObjects).run.exec openDocument.answer).1).length = 0 := by
    decide +kernel
  obtain ⟨r, hr, -⟩ := Except.returns_iff.mp hreturns
  have hnone := List.length_eq_zero_iff.mp hlength
  refine ⟨r, hr, hnone, ?_⟩
  rintro ⟨names, hperm, hforall⟩
  rw [hnone] at hforall
  obtain rfl := List.forall₂_nil_right_iff.mp hforall
  have hdistinct : ((FrozenSet.ofList (refsOf (fun item => .ok (some item))
      ["document:a", "document:s"])).items).length = 2 := by decide +kernel
  exact absurd (hperm.length_eq.trans hdistinct) (by decide)

end HeadOfContext
