import HeadOfContext.Read.Filter

/-!
# What the read filter keeps

The filter sees the items through their references. Its calls are those of `filterRefs`, which is
given the references alone; the items come back in the last step, where those are kept whose
reference ended with ALLOW (`filterItems_eq`). So two lists of items with the same references are
kept alike, position by position, and a reference that ends with ALLOW was asked about and
affirmed by everyone who was asked: the token, the scope, the engine and the policy
(`filter_keeps_allowed`).
-/

namespace HeadOfContext

open Effects Raises

/-! ### The calls of the core -/

namespace Filtered

/-- A call of the core, as the filter sees it. -/
def ofCore (e : Event CoreSig) : Event FilterSig := ⟨.core e.op, e.res⟩

/-- The call of the core that this is. -/
def coreOf : Event FilterSig → Option (Event CoreSig)
  | ⟨.core o, answer⟩ => some ⟨o, answer⟩
  | _ => none

/-- The calls of the core. -/
def coreTrace (tr : Trace FilterSig) : Trace CoreSig := tr.filterMap coreOf

theorem coreTrace_append {tr tr' : Trace FilterSig} :
    coreTrace (tr ++ tr') = coreTrace tr ++ coreTrace tr' := List.filterMap_append

theorem coreTrace_map_ofCore (tr : Trace CoreSig) : coreTrace (tr.map ofCore) = tr := by
  rw [coreTrace, List.filterMap_map]
  exact List.filterMap_some

theorem run_core {α : Type} {p : Core α} {tr : Trace FilterSig} {x : Except Exn α} :
    Run (core p) tr x ↔ ∃ tr₀ : Trace CoreSig, tr = tr₀.map ofCore ∧ Run p tr₀ x :=
  Prog.run_embed_iff (fun _ => rfl) fun e => ⟨⟨e.op, e.res⟩, rfl⟩

end Filtered

/-! ### The filter of references -/

/-- The references of what is dropped, in order. -/
def droppedRefs (allowed : Dict String Outcome) (refs : List (Option String)) : List String :=
  (refs.filter fun ref => !keeps allowed ref).map fun ref => ref.getD "invalid"

/-- The references of what is kept, in order. -/
def keptRefs (allowed : Dict String Outcome) (refs : List (Option String)) : List String :=
  (refs.filterMap id).filter (isKept allowed)

/-- What `filter_items` does before it comes back to the items. -/
def filterRefs (D : Decider) (chain : PrincipalChain) (refs : List (Option String))
    (relation : String) (strategy : Strategy) (perItemAudit hasPermits : Bool) :
    Filtered (Dict String Outcome × Strategy) := do
  let refused ← tokenRefused hasPermits (refs.filterMap id)
  let candidates := (FrozenSet.ofList ((refs.filterMap id).filter (· ∉ refused))).items
  let decided ← decideCandidates D chain ⟨.read, relation⟩ candidates
    (strategy.choose candidates.length) perItemAudit
  let allowed := (Dict.fromKeys refused .deny).update decided
  let at_ ← Filtered.core Core.now
  let eventId ← Filtered.core Core.uuid4
  Filtered.core (Core.record (summaryEvent D.rt chain ⟨.read, relation⟩ (keptRefs allowed refs)
    (droppedRefs allowed refs) refused.length at_ eventId))
  return (allowed, strategy.choose candidates.length)

section Split

variable {T : Type}

theorem keptAndDropped_eq (allowed : Dict String Outcome) (items : List T)
    (f : T → Option String) :
    keptAndDropped allowed (items.zip (items.map f)) =
      (items.filter fun item => keeps allowed (f item), droppedRefs allowed (items.map f)) := by
  induction items with
  | nil => rfl
  | cons item rest ih =>
    rw [List.map_cons, List.zip_cons_cons, keptAndDropped, ih, droppedRefs]
    cases hkeep : keeps allowed (f item) with
    | true => simp [hkeep, droppedRefs]
    | false => simp [hkeep, droppedRefs]

/-- **The items come back in the last step.** -/
theorem filterItems_eq (D : Decider) (chain : PrincipalChain) {items : List T} (hitems : items ≠ [])
    (extract : T → Except Exn (Option String)) (relation : String) (strategy : Strategy)
    (perItemAudit hasPermits : Bool) :
    filterItems D chain items extract relation strategy perItemAudit hasPermits =
      filterRefs D chain (items.map (reference extract)) relation strategy perItemAudit hasPermits
        >>= fun (allowed, chosen) => Pure.pure
          ⟨items.filter fun item => keeps allowed (reference extract item),
            droppedRefs allowed (items.map (reference extract)), some chosen, allowed⟩ := by
  rw [filterItems, if_neg hitems, filterRefs]
  simp only [Raises.bind_assoc, keptAndDropped_eq]
  rfl

end Split

/-! ### What the token was asked -/

/-- **What the token refuses**: nothing where there is no token, and else the references, each once
and in order, for which its answer has no True. -/
inductive TokenAsked (tr : Trace FilterSig) (refs : List String) : Bool → List String → Prop
  | without : TokenAsked tr refs false []
  | asked (answers : List (String × Bool))
      (call : refs ≠ [] → (⟨.permits .read (FrozenSet.ofList refs).items, .ok answers⟩ :
        Event FilterSig) ∈ tr) :
      TokenAsked tr refs true
        ((FrozenSet.ofList refs).items.filter fun r => !(answers.lookup r).getD false)

/-- The token has permitted the reference. -/
def TokenPermits (tr : Trace FilterSig) (ref : String) : Prop :=
  ∃ wanted answers, (⟨.permits .read wanted, .ok answers⟩ : Event FilterSig) ∈ tr ∧
    answers.lookup ref = some true

theorem TokenAsked.mono {tr tr' : Trace FilterSig} {refs refused : List String} {hasPermits : Bool}
    (h : TokenAsked tr refs hasPermits refused) (hsub : tr ⊆ tr') :
    TokenAsked tr' refs hasPermits refused := by
  cases h with
  | without => exact .without
  | asked answers call => exact .asked answers fun hne => hsub (call hne)

/-- What a token does not refuse, it permits. -/
theorem TokenAsked.permits {tr : Trace FilterSig} {refs refused : List String} {hasPermits : Bool}
    (h : TokenAsked tr refs hasPermits refused) {ref : String} (href : ref ∈ refs)
    (hnot : ref ∉ refused) (hpermits : hasPermits = true) : TokenPermits tr ref := by
  cases h with
  | without => exact nomatch hpermits
  | asked answers call =>
    refine ⟨_, answers, call (List.ne_nil_of_mem href), ?_⟩
    have hmem : ref ∈ (FrozenSet.ofList refs).items := FrozenSet.mem_ofList.mpr href
    cases hlookup : answers.lookup ref with
    | none => exact absurd (List.mem_filter.mpr ⟨hmem, by rw [hlookup]; rfl⟩) hnot
    | some answer =>
      cases answer with
      | true => rfl
      | false => exact absurd (List.mem_filter.mpr ⟨hmem, by rw [hlookup]; rfl⟩) hnot

theorem TokenAsked.nodup {tr : Trace FilterSig} {refs refused : List String} {hasPermits : Bool}
    (h : TokenAsked tr refs hasPermits refused) : refused.Nodup := by
  cases h with
  | without => exact List.nodup_nil
  | asked answers call => exact (FrozenSet.nodup _).filter _

theorem tokenRefused_run {hasPermits : Bool} {refs refused : List String} {tr : Trace FilterSig}
    (hrun : Run (tokenRefused hasPermits refs) tr (.ok refused)) :
    Filtered.coreTrace tr = [] ∧ TokenAsked tr refs hasPermits refused := by
  unfold tokenRefused at hrun
  cases hasPermits with
  | false =>
    obtain ⟨rfl, rfl⟩ := run_pure_ok.mp hrun
    exact ⟨rfl, .without⟩
  | true =>
    obtain ⟨answers, tr₁, tr₂, rfl, hasked, hrest⟩ := run_bind_ok.mp hrun
    obtain ⟨rfl, rfl⟩ := run_pure_ok.mp hrest
    rw [List.append_nil]
    by_cases hnone : (FrozenSet.ofList refs).items = []
    · rw [if_pos hnone] at hasked
      obtain ⟨rfl, rfl⟩ := run_pure_ok.mp hasked
      refine ⟨rfl, .asked [] fun hne => ?_⟩
      obtain ⟨ref, href⟩ := List.exists_mem_of_ne_nil refs hne
      have hmem : ref ∈ (FrozenSet.ofList refs).items := FrozenSet.mem_ofList.mpr href
      rw [hnone] at hmem
      exact absurd hmem List.not_mem_nil
    · rw [if_neg hnone] at hasked
      obtain rfl := run_invoke.mp hasked
      exact ⟨rfl, .asked answers fun _ => List.mem_singleton.mpr rfl⟩

/-! ### What is decided -/

section Decided

variable {D : Decider} {chain : PrincipalChain} {action : Action}

/-- The entries that decisions add to a dictionary. -/
theorem get_setAll_decisions {d : Dict String Outcome} {ds : List Decision}
    (hnodup : (ds.map Decision.resource).Nodup) {ref : String} :
    (d.setAll (ds.map fun x => (x.resource, x.outcome))).get ref =
      ((ds.find? fun x => x.resource = ref).map Decision.outcome).or (d.get ref) := by
  have hkeys : ((ds.map fun x => (x.resource, x.outcome)).map Prod.fst).Nodup := by
    rw [List.map_map]
    exact hnodup
  rw [Dict.get_setAll hkeys, List.find?_map, Option.map_map]
  rfl

/-- An ALLOW among them is the outcome of a decision, unless it was there before. -/
theorem allow_of_setAll {d : Dict String Outcome} {ds : List Decision}
    (hnodup : (ds.map Decision.resource).Nodup) {ref : String} (hd : d.get ref ≠ some .allow)
    (h : (d.setAll (ds.map fun x => (x.resource, x.outcome))).get ref = some .allow) :
    ∃ x ∈ ds, x.resource = ref ∧ x.outcome = .allow := by
  rw [get_setAll_decisions hnodup] at h
  rcases Option.or_eq_some_iff.mp h with hfound | ⟨-, hbefore⟩
  · obtain ⟨x, hx, hallow⟩ := Option.map_eq_some_iff.mp hfound
    have hkey := List.find?_some (p := fun x : Decision => decide (x.resource = ref)) hx
    exact ⟨x, List.mem_of_find?_eq_some hx, of_decide_eq_true hkey, hallow⟩
  · exact absurd hbefore hd

/-- **A candidate that ends with ALLOW is earned**, by either strategy. -/
theorem decideCandidates_allow {candidates : List String} (hnodup : candidates.Nodup)
    {chosen : Strategy} {perItemAudit : Bool} {tr : Trace FilterSig} {decided : Dict String Outcome}
    (hrun : Run (decideCandidates D chain action candidates chosen perItemAudit) tr (.ok decided))
    {ref : String} (h : decided.get ref = some .allow) :
    ref ∈ candidates ∧ Covered chain action.kind ref ∧
      D.Earned chain action [] .none (Filtered.coreTrace tr) ref := by
  -- both strategies end in decisions on candidates, over a dictionary without ALLOW
  have hdecisions : ∀ {targets : List String} {auditEach : Bool} {d : Dict String Outcome}
      {tr : Trace FilterSig} {ds : List Decision}, targets.Sublist candidates →
      d.get ref ≠ some .allow →
      Run (Filtered.core (D.decideEach chain action targets auditEach none none)) tr (.ok ds) →
      (d.setAll (ds.map fun x => (x.resource, x.outcome))).get ref = some .allow →
      ref ∈ candidates ∧ Covered chain action.kind ref ∧
        D.Earned chain action [] .none (Filtered.coreTrace tr) ref := by
    intro targets auditEach d tr ds hsub hd hdecide hallow
    obtain ⟨tr₀, rfl, hcore⟩ := Filtered.run_core.mp hdecide
    have hlaw := Decider.decideEach_run hcore
    have hkeys : (ds.map Decision.resource).Nodup := hlaw.resources ▸ hnodup.sublist hsub
    obtain ⟨x, hx, rfl, hout⟩ := allow_of_setAll hkeys hd hallow
    rw [Filtered.coreTrace_map_ofCore]
    refine ⟨hsub.subset ?_, hlaw.allow x hx hout⟩
    rw [← hlaw.resources]
    exact List.mem_map_of_mem hx
  unfold decideCandidates at hrun
  by_cases hnone : candidates = []
  · rw [if_pos hnone] at hrun
    obtain ⟨-, rfl⟩ := run_pure_ok.mp hrun
    exact nomatch h
  rw [if_neg hnone] at hrun
  have hdenied : (Dict.fromKeys candidates Outcome.deny).get ref ≠ some .allow := by
    rw [Dict.get_fromKeys]
    split <;> decide
  by_cases hlist : chosen = .listObjects
  · rw [if_pos hlist] at hrun
    obtain ⟨answer, tr₁, tr₂, rfl, hlisted, hrest⟩ := run_attempt_bind.mp hrun
    cases answer with
    | error e =>
      obtain ⟨-, rfl⟩ := run_pure_ok.mp hrest
      exact absurd h hdenied
    | ok visible =>
      obtain ⟨ds, tr₂, tr₃, rfl, hdecide, hdone⟩ := run_bind_ok.mp hrest
      obtain ⟨rfl, rfl⟩ := run_pure_ok.mp hdone
      obtain ⟨hmem, hcovered, hearned⟩ := hdecisions List.filter_sublist hdenied hdecide h
      refine ⟨hmem, hcovered, hearned.mono ?_⟩
      rw [Filtered.coreTrace_append, Filtered.coreTrace_append]
      exact fun e he => List.mem_append_right _ (List.mem_append_left _ he)
  · rw [if_neg hlist] at hrun
    obtain ⟨ds, tr₁, tr₂, rfl, hdecide, hdone⟩ := run_bind_ok.mp hrun
    obtain ⟨rfl, rfl⟩ := run_pure_ok.mp hdone
    rw [List.append_nil]
    exact hdecisions (List.Sublist.refl _)
      (by rw [Dict.get_empty]; exact Option.some_ne_none _ ∘ Eq.symm) hdecide h

end Decided

/-! ### A run of the filter -/

section Runs

variable {D : Decider} {chain : PrincipalChain} {relation : String} {strategy : Strategy}
  {perItemAudit hasPermits : Bool}

/-- **A run over the references**: the token is asked, the candidates are decided, and the summary
is journaled last. -/
theorem filterRefs_run {refs : List (Option String)} {tr : Trace FilterSig}
    {allowed : Dict String Outcome} {chosen : Strategy}
    (hrun : Run (filterRefs D chain refs relation strategy perItemAudit hasPermits) tr
      (.ok (allowed, chosen))) :
    ∃ refused decided tr₁ tr₂ at_ eventId,
      Run (tokenRefused hasPermits (refs.filterMap id)) tr₁ (.ok refused) ∧
      Run (decideCandidates D chain ⟨.read, relation⟩
        (FrozenSet.ofList ((refs.filterMap id).filter (· ∉ refused))).items chosen perItemAudit) tr₂
        (.ok decided) ∧
      chosen = strategy.choose
        (FrozenSet.ofList ((refs.filterMap id).filter (· ∉ refused))).items.length ∧
      allowed = (Dict.fromKeys refused .deny).update decided ∧
      tr = tr₁ ++ tr₂ ++ [Filtered.ofCore ⟨.now, at_⟩, Filtered.ofCore ⟨.uuid4, eventId⟩,
        Filtered.ofCore ⟨.record (summaryEvent D.rt chain ⟨.read, relation⟩ (keptRefs allowed refs)
          (droppedRefs allowed refs) refused.length at_ eventId), .ok ()⟩] := by
  -- the calls in the order of the source
  obtain ⟨refused, tr₁, tr₂, rfl, htoken, hrest⟩ := run_bind_ok.mp hrun
  obtain ⟨decided, tr₂, tr₃, rfl, hdecide, hrest⟩ := run_bind_ok.mp hrest
  obtain ⟨at_, tr₃, tr₄, rfl, hnow, hrest⟩ := run_bind_ok.mp hrest
  obtain ⟨eventId, tr₄, tr₅, rfl, huuid, hrest⟩ := run_bind_ok.mp hrest
  obtain ⟨u, tr₅, tr₆, rfl, hrecord, hdone⟩ := run_bind_ok.mp hrest
  obtain ⟨tr₃, rfl, hnow₀⟩ := Filtered.run_core.mp hnow
  obtain rfl := run_lift_invoke_ok.mp hnow₀
  obtain ⟨tr₄, rfl, huuid₀⟩ := Filtered.run_core.mp huuid
  obtain rfl := run_lift_invoke_ok.mp huuid₀
  obtain ⟨tr₅, rfl, hrecord₀⟩ := Filtered.run_core.mp hrecord
  obtain rfl := run_invoke.mp hrecord₀
  obtain ⟨rfl, hpair⟩ := run_pure_ok.mp hdone
  obtain ⟨rfl, rfl⟩ := Prod.mk.inj hpair
  refine ⟨refused, decided, tr₁, tr₂, at_, eventId, htoken, hdecide, rfl, rfl, ?_⟩
  rw [List.append_assoc]
  rfl

variable {T : Type} {items : List T} {extract : T → Except Exn (Option String)}

theorem filterItems_run (hitems : items ≠ []) {tr : Trace FilterSig} {r : FilterResult T}
    (hrun : Run (filterItems D chain items extract relation strategy perItemAudit hasPermits) tr
      (.ok r)) :
    ∃ chosen, Run (filterRefs D chain (items.map (reference extract)) relation strategy perItemAudit
        hasPermits) tr (.ok (r.decisionsByRef, chosen)) ∧
      r.strategy = some chosen ∧
      r.kept = items.filter (fun item => keeps r.decisionsByRef (reference extract item)) ∧
      r.dropped = droppedRefs r.decisionsByRef (items.map (reference extract)) := by
  rw [filterItems_eq D chain hitems] at hrun
  obtain ⟨⟨allowed, chosen⟩, tr₁, tr₂, rfl, hrefs, hdone⟩ := run_bind_ok.mp hrun
  obtain ⟨rfl, rfl⟩ := run_pure_ok.mp hdone
  rw [List.append_nil]
  exact ⟨chosen, hrefs, rfl, rfl, rfl⟩

/-- The references of the kept items are the kept references. -/
theorem keptRefs_eq (allowed : Dict String Outcome) :
    keptRefs allowed (items.map (reference extract)) =
      (items.filter fun item => keeps allowed (reference extract item)).filterMap
        (reference extract) := by
  rw [keptRefs]
  induction items with
  | nil => rfl
  | cons item rest ih =>
    rw [List.map_cons, List.filter_cons]
    cases href : reference extract item with
    | none => exact ih
    | some ref =>
      have hkeeps : keeps allowed (some ref) = isKept allowed ref := rfl
      rw [List.filterMap_cons_some (f := id) (b := ref) rfl, List.filter_cons, hkeeps]
      cases hkeep : isKept allowed ref with
      | true => rw [if_pos rfl, if_pos rfl, List.filterMap_cons_some href, ih]
      | false => exact ih

/-- Every kept item has a reference. -/
theorem length_keptRefs (allowed : Dict String Outcome) :
    (keptRefs allowed (items.map (reference extract))).length =
      (items.filter fun item => keeps allowed (reference extract item)).length := by
  rw [keptRefs_eq]
  refine List.filterMap_length_eq_length.mpr fun item hitem => ?_
  have hkeep := (List.mem_filter.mp hitem).2
  cases href : reference extract item with
  | none =>
    rw [href] at hkeep
    exact nomatch hkeep
  | some ref => rfl

end Runs

/-! ### The law of the filter -/

/-- **What a filter returns**, of the items that it was given and the answers it got. -/
structure Filters {T : Type} (D : Decider) (chain : PrincipalChain) (relation : String)
    (hasPermits : Bool) (extract : T → Except Exn (Option String)) (items : List T)
    (tr : Trace FilterSig) (r : FilterResult T) : Prop where
  /-- What is kept has a valid reference that ended with ALLOW, and is in its place. -/
  kept : r.kept = items.filter fun item => keeps r.decisionsByRef (reference extract item)
  /-- There is one entry for every other item. -/
  dropped : r.dropped = (items.filter fun item =>
    !keeps r.decisionsByRef (reference extract item)).map fun item =>
      (reference extract item).getD "invalid"
  /-- An ALLOW is earned. -/
  allow : ∀ ref, r.decisionsByRef.get ref = some .allow →
    ref ∈ refsOf extract items ∧ isRef ref "document" = true ∧
      (hasPermits = true → TokenPermits tr ref) ∧ Covered chain .read ref ∧
      D.Earned chain ⟨.read, relation⟩ [] .none (Filtered.coreTrace tr) ref
  /-- The summary is journaled last, with the counts of what was kept, dropped and refused. -/
  summary : items ≠ [] → ∃ before refs refused at_ eventId,
    tr = before ++ [Filtered.ofCore ⟨.record (summaryEvent D.rt chain ⟨.read, relation⟩ refs
      r.dropped refused at_ eventId), .ok ()⟩] ∧
    refs = r.kept.filterMap (reference extract) ∧ refs.length = r.kept.length ∧
    ∃ names : List String, refused = names.length ∧
      TokenAsked tr (refsOf extract items) hasPermits names
  /-- Nothing is asked and nothing is journaled where there is nothing to filter. -/
  nothing : items = [] → tr = []

/-- Two results, or two failures, that agree on everything but the items themselves. -/
inductive KeepsAlike {T T' : Type} (items : List T) (items' : List T') :
    Except Exn (FilterResult T) → Except Exn (FilterResult T') → Prop
  | failed (e : Exn) : KeepsAlike items items' (.error e) (.error e)
  | kept (positions : List ℕ) (increasing : positions.Pairwise (· < ·))
      (within : ∀ i ∈ positions, i < items.length ∧ i < items'.length) (r : FilterResult T)
      (r' : FilterResult T') (kept : r.kept = positions.filterMap (items[·]?))
      (kept' : r'.kept = positions.filterMap (items'[·]?)) (dropped : r.dropped = r'.dropped)
      (decisions : r.decisionsByRef = r'.decisionsByRef) (strategy : r.strategy = r'.strategy) :
      KeepsAlike items items' (.ok r) (.ok r')

section Law

variable {T : Type} {D : Decider} {chain : PrincipalChain} {relation : String} {strategy : Strategy}
  {perItemAudit hasPermits : Bool} {extract : T → Except Exn (Option String)} {items : List T}

theorem filters_of_run {tr : Trace FilterSig} {r : FilterResult T}
    (hrun : Run (filterItems D chain items extract relation strategy perItemAudit hasPermits) tr
      (.ok r)) : Filters D chain relation hasPermits extract items tr r := by
  by_cases hitems : items = []
  · subst hitems
    rw [filterItems, if_pos rfl] at hrun
    obtain ⟨rfl, rfl⟩ := run_pure_ok.mp hrun
    exact ⟨rfl, rfl, fun ref h => (by cases h), fun h => absurd rfl h, fun _ => rfl⟩
  obtain ⟨chosen, hrefs, -, hkept, hdropped⟩ := filterItems_run hitems hrun
  -- the token is asked first, then the candidates are decided
  obtain ⟨refused, decided, tr₁, tr₂, at_, eventId, htoken, hdecide, -, hallowed, rfl⟩ :=
    filterRefs_run hrefs
  obtain ⟨hquiet, hasked⟩ := tokenRefused_run htoken
  refine ⟨hkept, ?_, fun ref hallow => ?_, fun _ => ?_, fun h => absurd h hitems⟩
  · rw [hdropped, droppedRefs, List.filter_map, List.map_map]
    rfl
  · -- the token's refusals are denials, so the ALLOW is one of the candidates'
    have hdecided : decided.get ref = some .allow := by
      rw [hallowed, Dict.get_update, Dict.get_fromKeys] at hallow
      rcases Option.or_eq_some_iff.mp hallow with hdecided | ⟨-, hrefused⟩
      · exact hdecided
      · split at hrefused
        · exact absurd hrefused (by decide)
        · cases hrefused
    obtain ⟨hmem, hcovered, hearned⟩ :=
      decideCandidates_allow (FrozenSet.nodup _) hdecide hdecided
    obtain ⟨href, hnot⟩ := List.mem_filter.mp (FrozenSet.mem_ofList.mp hmem)
    refine ⟨href, refsOf_isRef ref href, fun hpermits => ?_, hcovered, hearned.mono ?_⟩
    · obtain ⟨wanted, answers, hcall, hyes⟩ := hasked.permits href (of_decide_eq_true hnot) hpermits
      exact ⟨wanted, answers, List.mem_append_left _ (List.mem_append_left _ hcall), hyes⟩
    · rw [Filtered.coreTrace_append, Filtered.coreTrace_append, hquiet, List.nil_append]
      exact List.subset_append_left _ _
  · refine ⟨tr₁ ++ tr₂ ++ [Filtered.ofCore ⟨.now, at_⟩, Filtered.ofCore ⟨.uuid4, eventId⟩],
      keptRefs r.decisionsByRef (items.map (reference extract)), refused.length, at_, eventId, ?_,
      ?_, ?_, refused, rfl, hasked.mono ?_⟩
    · rw [hdropped, List.append_assoc (tr₁ ++ tr₂)]
      rfl
    · rw [hkept, keptRefs_eq]
    · rw [hkept, length_keptRefs]
    · exact fun e he => List.mem_append_left _ (List.mem_append_left _ he)

/-- What a filter keeps, by the positions that it keeps. -/
theorem filter_eq_positions {l : List T} {p : T → Bool} {q : ℕ → Bool}
    (h : ∀ i x, l[i]? = some x → q i = p x) :
    l.filter p = ((List.range l.length).filter q).filterMap (l[·]?) := by
  induction l using List.reverseRecOn with
  | nil => rfl
  | append_singleton l x ih =>
    have hinit : ∀ i y, l[i]? = some y → q i = p y := by
      intro i y hi
      refine h i y ?_
      rw [List.getElem?_append_left (List.getElem?_eq_some_iff.mp hi).1, hi]
    have hlast : q l.length = p x := h l.length x List.getElem?_concat_length
    rw [List.length_append, List.length_singleton, List.range_succ, List.filter_append,
      List.filter_append, List.filterMap_append, ih hinit]
    congr 1
    · refine List.filterMap_congr fun i hi => ?_
      rw [List.getElem?_append_left (List.mem_range.mp (List.mem_filter.mp hi).1)]
    · rw [List.filter_cons, List.filter_cons, hlast]
      cases p x with
      | false => rfl
      | true =>
        rw [if_pos rfl, if_pos rfl, List.filterMap_cons_some List.getElem?_concat_length]
        rfl

/-- **Lists with the same references are kept alike**, whatever else the items hold: a run over one
is a run over the other, with the same calls and the same answers. -/
theorem keepsAlike_of_refs {T' : Type} {items' : List T'}
    {extract' : T' → Except Exn (Option String)}
    (hrefs : items.map (reference extract) = items'.map (reference extract'))
    {tr : Trace FilterSig} {x : Except Exn (FilterResult T)}
    (hrun : Run (filterItems D chain items extract relation strategy perItemAudit hasPermits)
      tr x) :
    ∃ x', Run (filterItems D chain items' extract' relation strategy perItemAudit hasPermits)
      tr x' ∧
      KeepsAlike items items' x x' := by
  have hlength : items.length = items'.length := by
    rw [← List.length_map (reference extract), hrefs, List.length_map]
  by_cases hitems : items = []
  · obtain rfl : items' = [] := List.length_eq_zero_iff.mp (by rw [← hlength, hitems]; rfl)
    subst hitems
    rw [filterItems, if_pos rfl] at hrun
    obtain ⟨rfl, rfl⟩ := run_pure.mp hrun
    refine ⟨.ok ⟨[], [], none, .empty⟩, ?_, .kept [] .nil ?_ _ _ rfl rfl rfl rfl rfl⟩
    · rw [filterItems, if_pos rfl]
      exact run_pure.mpr ⟨rfl, rfl⟩
    · exact fun i hi => absurd hi List.not_mem_nil
  have hitems' : items' ≠ [] := by
    rintro rfl
    exact hitems (List.length_eq_zero_iff.mp hlength)
  rw [filterItems_eq D chain hitems] at hrun
  rw [filterItems_eq D chain hitems', ← hrefs]
  rcases run_bind.mp hrun with ⟨e, hfails, rfl⟩ | ⟨⟨allowed, chosen⟩, tr₁, tr₂, rfl, hpre, hdone⟩
  · exact ⟨.error e, run_bind.mpr (.inl ⟨e, hfails, rfl⟩), .failed e⟩
  obtain ⟨rfl, rfl⟩ := run_pure.mp hdone
  refine ⟨_, run_bind.mpr (.inr ⟨(allowed, chosen), tr₁, [], rfl, hpre, run_pure.mpr ⟨rfl, rfl⟩⟩),
    ?_⟩
  -- the positions whose reference ended with ALLOW
  let q : ℕ → Bool := fun i => keeps allowed ((items.map (reference extract))[i]?).join
  refine .kept ((List.range items.length).filter q) (List.pairwise_lt_range.filter _)
    (fun i hi => ?_)
    _ _ (filter_eq_positions fun i y hi => ?_) ?_ rfl rfl rfl
  · have hlt := List.mem_range.mp (List.mem_filter.mp hi).1
    exact ⟨hlt, hlength ▸ hlt⟩
  · change keeps allowed ((items.map (reference extract))[i]?).join = _
    rw [List.getElem?_map, hi]
    rfl
  · rw [hlength]
    refine filter_eq_positions fun i y hi => ?_
    change keeps allowed ((items.map (reference extract))[i]?).join = _
    rw [hrefs, List.getElem?_map, hi]
    rfl

/-- **The filter is deaf to everything but references and rights.** Whatever the engine, the policy,
the token and the sink answer, a filter that returns keeps, in order, the items whose valid
reference ended with ALLOW, and an ALLOW is earned; and a list of other items with the same
references is kept alike. -/
theorem filter_keeps_allowed {tr : Trace FilterSig} {x : Except Exn (FilterResult T)}
    (hrun : Run (filterItems D chain items extract relation strategy perItemAudit hasPermits)
      tr x) :
    (∀ r, x = .ok r → Filters D chain relation hasPermits extract items tr r) ∧
      ∀ (T' : Type) (items' : List T') (extract' : T' → Except Exn (Option String)),
        items.map (reference extract) = items'.map (reference extract') →
        ∃ x', Run (filterItems D chain items' extract' relation strategy perItemAudit hasPermits) tr
          x' ∧ KeepsAlike items items' x x' := by
  refine ⟨?_, fun T' items' extract' hrefs => keepsAlike_of_refs hrefs hrun⟩
  rintro r rfl
  exact filters_of_run hrun

/-- The law for the search with one secret, whose token answers and whose engine lists. -/
theorem filter_keeps_allowed_search : ∃ r,
    (search .listObjects).result openDocument.answer = .ok r ∧
      Filters Decider.guarded documentReader "viewer" true (fun item => .ok (some item))
        ["document:a", "document:s", "document:a"]
        ((search .listObjects).run.exec openDocument.answer).1 r := by
  have hrun := run_result (S := FilterSig) openDocument.answer (search .listObjects)
  have hreturns : ((search .listObjects).result openDocument.answer).returns (fun _ => true) =
      true := by decide +kernel
  obtain ⟨r, hr, -⟩ := Except.returns_iff.mp hreturns
  exact ⟨r, hr, (filter_keeps_allowed hrun).1 r hr⟩

end Law

end HeadOfContext
