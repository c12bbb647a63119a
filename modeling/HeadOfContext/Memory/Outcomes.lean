import HeadOfContext.Memory.Remember
import HeadOfContext.Framework.Pairs

/-!
# What each method leaves

A call that raises may have been carried out, in part or in whole (`FailsPartly`). Under this
alone: `admitCandidate` hands a memory out only as `Admitted` says, and a recall changes no store
(`recall_ends`); a `remember` that returns has made the writes of `MemoryKept`
(`remember_ends_kept`);
and `forget` deletes in the order of `ForgetEnds`, wherever it is interrupted (`forget_ends`).
-/

namespace HeadOfContext

open Effects Service MemoryState

/-! ### Calls that fail in part -/

/-- What a call that raises may have done. -/
def MemoryState.Partly (s : MemoryState) : MemoryOp → MemoryState → Prop
  | .writeTuples ts, s' => ∃ done, done ⊆ ts ∧ s' = s.write done
  | .deleteTuples ts, s' => ∃ done, done ⊆ ts ∧ s' = s.delete done
  | .store memoryId content space, s' =>
    s' = s ∨ ∃ ref, s.content.get (space, ref) = none ∧ s' = s.keep memoryId content space ref
  | .put record, s' => s' = s ∨ s' = s.put record
  | .deleteContent ref space, s' => s' = s ∨ s' = s.discard ref space
  | .deleteRow memoryId, s' => s' = s ∨ s' = s.deleteRow memoryId
  | .record event, s' => s' = s ∨ s' = s.journaled event
  | _, s' => s' = s

/-- A call that raises does no more than what it was asked to do. -/
def FailsPartly (conduct : Conduct) : Prop :=
  ∀ o e s s', conduct.raises o e s s' → ∃ s₁ : MemoryState, s.Partly o s₁ ∧ s' = s₁.raised o e

/-- The stores are the same, and the journal has only grown. -/
structure Observing (s s' : MemoryState) : Prop where
  stores : s.SameStores s'
  journal : s.journal <+: s'.journal

theorem Observing.refl {s : MemoryState} : Observing s s := ⟨.refl s, List.prefix_rfl⟩

theorem Observing.trans {s s' s'' : MemoryState} (h : Observing s s') (h' : Observing s' s'') :
    Observing s s'' :=
  ⟨h.stores.trans h'.stores, h.journal.trans h'.journal⟩

theorem Journaling.observing {s s' : MemoryState} (h : Journaling s s') : Observing s s' :=
  ⟨h.stores, h.journal⟩

theorem observing_journaled {s : MemoryState} {event : AuditEvent} :
    Observing s (s.journaled event) :=
  ⟨⟨rfl, rfl, rfl⟩, List.prefix_append _ _⟩

theorem observing_raised {s : MemoryState} {o : MemoryOp} {e : Thrown} :
    Observing s (s.raised o e) :=
  ⟨⟨rfl, rfl, rfl⟩, List.prefix_rfl⟩

section Calls

variable {conduct : Conduct} {start s : MemoryState}

/-- A failed write to the journal has at most been made. -/
theorem record_ends_observing (h : FailsPartly conduct) {event : AuditEvent} :
    Raises.Ends (memoryWorld conduct start)
      (fun r s' => Observing s s' ∧ (r = .ok () → s' = s.journaled event))
      (Remembering.record event) s := by
  intro r s' hstep
  match r with
  | .ok () =>
    have heq : s' = s.journaled event := hstep
    exact ⟨heq ▸ observing_journaled, fun _ => heq⟩
  | .error e =>
    obtain ⟨s₁, hpart, rfl⟩ := h _ _ _ _ hstep
    refine ⟨?_, fun hok => nomatch hok⟩
    rcases hpart with rfl | rfl
    · exact observing_raised
    · exact observing_journaled.trans observing_raised

/-- Journaling an event of the service, and going on. -/
theorem event_ends (h : FailsPartly conduct) {α : Type} {kind : EventKind} {chain : PrincipalChain}
    {memoryId outcome : String} {contentHash : Option String} {sourceCount : ℕ}
    {reason : Option String} {next : Remembering α} {Q : Except Thrown α → MemoryState → Prop}
    (hok : ∀ s' event, Observing s s' → s'.journal = s.journal ++ [event] → event.kind = kind →
      event.resource = .str (.ofString memoryId) → event.outcome = .str (.ofString outcome) →
      Raises.Ends (memoryWorld conduct start) Q next s')
    (herr : ∀ e s', Observing s s' → Q (.error e) s') :
    Raises.Ends (memoryWorld conduct start) Q (do
      let event ← MemoryService.memoryEvent kind chain memoryId outcome contentHash
        sourceCount reason
      Remembering.record event
      next) s := by
  refine memoryEvent_ends.bind (fun event s₁ h₁ => ?_) fun e s₁ h₁ => ?_
  swap
  · obtain ⟨-, event, heq, -⟩ := h₁
    exact nomatch heq
  obtain ⟨rfl, event', heq, hkind, hresource, houtcome⟩ := h₁
  obtain rfl := Except.ok.inj heq
  refine (record_ends_observing h).bind (fun _ s₂ h₂ => ?_) fun e s₂ h₂ => herr e s₂ h₂.1
  refine hok s₂ event h₂.1 ?_ hkind hresource houtcome
  rw [h₂.2 rfl]
  rfl

/-- A denied read is journaled, or fails to be. -/
theorem denyRead_ends (h : FailsPartly conduct) {chain : PrincipalChain}
    {memoryId reason : String} :
    Raises.Ends (memoryWorld conduct start) (fun _ s' => Observing s s')
      (MemoryService.denyRead chain memoryId reason) s := by
  refine memoryEvent_ends.bind (fun event s₁ h₁ => ?_) fun e s₁ h₁ => h₁.1 ▸ .refl
  obtain ⟨rfl, -⟩ := h₁
  exact (record_ends_observing h).mono fun _ _ h₂ => h₂.1

/-- A lookup by backend reference changes nothing. -/
theorem getByBackendRef_ends (h : FailsPartly conduct) {backend ref : String} :
    Raises.Ends (memoryWorld conduct start)
      (fun r s' => Observing s s' ∧ ∀ found, r = .ok found → s.Finds backend ref found)
      (Remembering.getByBackendRef backend ref) s := by
  intro r s' hstep
  match r with
  | .ok found =>
    obtain ⟨hfound, rfl⟩ : s.Finds backend ref found ∧ s' = s := hstep
    exact ⟨.refl, fun found' heq => Except.ok.inj heq ▸ hfound⟩
  | .error e =>
    obtain ⟨s₁, rfl, rfl⟩ := h _ _ _ _ hstep
    exact ⟨observing_raised, fun _ heq => nomatch heq⟩

/-- Reading tuples changes nothing. -/
theorem readTuples_ends (h : FailsPartly conduct) {obj relation : String} :
    Raises.Ends (memoryWorld conduct start)
      (fun r s' => Observing s s' ∧ ∀ found, r = .ok found →
        ∀ t, t ∈ found ↔ t ∈ s.tuples ∧ t.obj = obj ∧ t.relation = relation)
      (Remembering.readTuples obj relation) s := by
  intro r s' hstep
  match r with
  | .ok found =>
    obtain ⟨hfound, rfl⟩ : (∀ t, t ∈ found ↔ t ∈ s.tuples ∧ t.obj = obj ∧ t.relation = relation) ∧
      s' = s := hstep
    exact ⟨.refl, fun found' heq => Except.ok.inj heq ▸ hfound⟩
  | .error e =>
    obtain ⟨s₁, rfl, rfl⟩ := h _ _ _ _ hstep
    exact ⟨observing_raised, fun _ heq => nomatch heq⟩

/-- The token's checks, and what they answered where none of the resources was refused. -/
theorem refused_ends_asked {hasPermits : Bool} {operation : Kind} {resources : List String} :
    Raises.Ends (memoryWorld conduct start)
      (fun r s' => s' = s ∧ (r = .ok [] → hasPermits = true → resources ≠ [] → ∃ answers,
        conduct.permits operation resources (.ok answers) ∧
          ∀ x ∈ resources, answers.get x = some true))
      (MemoryService.refused hasPermits operation resources) s := by
  unfold MemoryService.refused
  split
  · next hnone =>
    refine Raises.ends_pure.mpr ⟨rfl, fun _ hpermits hresources => ?_⟩
    rcases hnone with hfalse | hempty
    · exact Bool.noConfusion (hfalse.symm.trans hpermits)
    · exact absurd hempty hresources
  · have hcall : Raises.Ends (memoryWorld conduct start)
        (fun r s' => s' = s ∧ conduct.permits operation resources r)
        (Remembering.permits operation resources) s := fun r s' hstep => ⟨hstep.2, hstep.1⟩
    refine hcall.bind (fun answers s₁ h₁ => ?_) fun e s₁ h₁ => ⟨h₁.1, fun heq => by cases heq⟩
    refine Raises.ends_pure.mpr ⟨h₁.1, fun heq _ _ => ⟨answers, h₁.2, fun x hx => ?_⟩⟩
    have hnone := List.filter_eq_nil_iff.mp (Except.ok.inj heq) x hx
    cases hget : answers.get x with
    | none => simp [hget] at hnone
    | some answer => simpa [hget] using hnone

/-- What a step of the decider got is what the collaborators of the decider may answer. -/
theorem core_of_step {o : CoreOp} {r : Except String o.Res} {s' : MemoryState}
    (h : (memoryWorld conduct start).step s (.core o) r s') : conduct.core o r := by
  cases o with
  | record event =>
    match r with
    | .ok (.ok ()) => exact h.1
    | .ok (.error e) => exact h.1
    | .error e => exact h.1
  | _ => exact h.1

/-- **A program of the decider**, whose collaborators answer as `G` says, ends as `Q` says, or is
ended by one of them. -/
theorem core_ends_under {α : Type} {p : Core α} {G : Event CoreSig → Prop}
    {Q : Except Exn α → Prop} (hp : Raises.Under G Q p)
    (hG : ∀ o a, conduct.core o (.ok a) → G ⟨o, a⟩) :
    Raises.Ends (memoryWorld conduct start)
      (fun r s' => Journaling s s' ∧
        ((∃ o name, conduct.core o (.error name) ∧ r = .error (.base name)) ∨
          ∃ x, Q x ∧ r = Remembering.concluded (.ok x)))
      (Remembering.core p) s := by
  obtain ⟨p⟩ := p
  change Raises.ProgUnder G Q p at hp
  have hguarded : Prog.wp (memoryWorld conduct start) (fun r s' => Journaling s s' ∧
      ((∃ o name, conduct.core o (.error name) ∧ r = .error name) ∨ ∃ x, Q x ∧ r = .ok x))
      (p.guarded Remembering.decider) s := by
    -- the induction is on the program of the decider, whose calls only journal
    induction p generalizing s with
    | ret x => exact ⟨.refl, .inr ⟨x, hp, rfl⟩⟩
    | call o k ih =>
      rw [Prog.guarded]
      intro r s' hstep
      have hquiet : Journaling s s' := journaling_of_core hstep
      have hanswer : conduct.core o r := core_of_step hstep
      cases r with
      | error name => exact ⟨hquiet, .inl ⟨o, name, hanswer, rfl⟩⟩
      | ok a => exact (ih a (hp a (hG o a hanswer))).mono fun _ _ h => ⟨hquiet.trans h.1, h.2⟩
  refine Prog.wp_bind.mpr (hguarded.mono fun r s' h => ⟨h.1, ?_⟩)
  rcases h.2 with ⟨o, name, hname, rfl⟩ | ⟨x, hx, rfl⟩
  · exact .inl ⟨o, name, hname, rfl⟩
  · exact .inr ⟨x, hx, rfl⟩

end Calls

/-! ### Recall -/

/-- **A memory that is handed out** for a candidate, from stores `s`: the rows found for its
references, and what was asked about them. -/
structure Admitted (svc : MemoryService) (conduct : Conduct) (chain : PrincipalChain)
    (hasPermits : Bool) (s : MemoryState) (candidate : Candidate) (rows : List MemoryRecord)
    (memory : Memory) (s' : MemoryState) : Prop where
  /-- There is a row for every reference. -/
  found : List.Forall₂
    (fun ref row => s.Finds svc.backend ref (some row)) candidate.backendRefs rows
  primary : ∃ primary, rows.head? = some primary ∧ memory.memoryId = primary.memoryId
  content : memory.content = candidate.content
  /-- The sources are the union of what the ledger and the tuples have. -/
  sources : ∀ x, x ∈ memory.derivedFrom ↔ ∃ row ∈ rows,
    x ∈ row.derivedFrom ∨ ⟨x, "derived_from", row.memoryId⟩ ∈ s.tuples
  permitted : hasPermits = true → ∃ answers, conduct.permits .read
      (rows.map MemoryRecord.memoryId ++ memory.derivedFrom) (.ok answers) ∧
    ∀ x ∈ rows.map MemoryRecord.memoryId ++ memory.derivedFrom, answers.get x = some true
  writtenFor : memory.derivedFrom = [] → ∀ row ∈ rows, row.writtenFor = chain.subject
  decided : ∃ tr d, svc.decider.DecidesAll chain .readMemory [] .none memory.derivedFrom
      (rows.map MemoryRecord.memoryId) tr d ∧ d.outcome = .allow ∧
    ∀ e ∈ tr, conduct.core e.op (.ok e.res)
  journal : ∃ earlier event, s.journal <+: earlier ∧ earlier ++ [event] <+: s'.journal ∧
    event.kind = .memoryRead ∧ event.resource = .str (.ofString memory.memoryId) ∧
    event.outcome = .str (.ofString Outcome.allow.str)

section Recall

variable {svc : MemoryService} {conduct : Conduct} {start s : MemoryState} {chain : PrincipalChain}
  {hasPermits : Bool}

theorem Admitted.observing {s s' s'' : MemoryState} {candidate : Candidate}
    {rows : List MemoryRecord} {memory : Memory}
    (h : Admitted svc conduct chain hasPermits s candidate rows memory s')
    (hobs : Observing s' s'') :
    Admitted svc conduct chain hasPermits s candidate rows memory s'' := by
  obtain ⟨earlier, event, hearlier, hjournaled, hevent⟩ := h.journal
  exact { h with journal := ⟨earlier, event, hearlier, hjournaled.trans hobs.journal, hevent⟩ }

theorem finds_of_stores {s s' : MemoryState} (h : SameStores s s') {backend ref : String}
    {found : Option MemoryRecord} : s'.Finds backend ref found ↔ s.Finds backend ref found := by
  unfold MemoryState.Finds
  rw [h.ledger]

/-- The lookups of a candidate. -/
theorem lookUp_ends (h : FailsPartly conduct) {refs : List String} :
    Raises.Ends (memoryWorld conduct start)
      (fun r s' => Observing s s' ∧ ∀ found, r = .ok found →
        List.Forall₂ (fun ref row => s.Finds svc.backend ref row) refs found)
      (svc.lookUp refs) s := by
  induction refs generalizing s with
  | nil => exact Raises.ends_pure.mpr ⟨.refl, fun found heq => Except.ok.inj heq ▸ .nil⟩
  | cons ref rest ih =>
    refine (getByBackendRef_ends h).bind (fun row s₁ h₁ => ?_) fun e s₁ h₁ =>
      ⟨h₁.1, fun _ heq => nomatch heq⟩
    refine ih.bind (fun rows s₂ h₂ => ?_) fun e s₂ h₂ =>
      ⟨h₁.1.trans h₂.1, fun _ heq => nomatch heq⟩
    refine Raises.ends_pure.mpr ⟨h₁.1.trans h₂.1, fun found heq => ?_⟩
    obtain rfl := Except.ok.inj heq
    exact .cons (h₁.2 row rfl) ((h₂.2 rows rfl).imp fun _ _ => (finds_of_stores h₁.1.stores).mp)

/-- The union of the sources of the rows. -/
theorem collectSources_ends (h : FailsPartly conduct) {rows : List MemoryRecord}
    {found : FrozenSet String} :
    Raises.Ends (memoryWorld conduct start)
      (fun r s' => Observing s s' ∧ ∀ all, r = .ok all → ∀ x, x ∈ all ↔ x ∈ found ∨ ∃ row ∈ rows,
        x ∈ row.derivedFrom ∨ ⟨x, "derived_from", row.memoryId⟩ ∈ s.tuples)
      (MemoryService.collectSources found rows) s := by
  -- the induction is on the rows; reading tuples changes none of them
  induction rows generalizing s found with
  | nil =>
    refine Raises.ends_pure.mpr ⟨.refl, fun all heq x => ?_⟩
    obtain rfl := Except.ok.inj heq
    simp
  | cons row rest ih =>
    refine (readTuples_ends h).bind (fun tuples s₁ h₁ => ?_) fun e s₁ h₁ =>
      ⟨h₁.1, fun _ heq => nomatch heq⟩
    refine ih.mono fun r s₂ h₂ => ⟨h₁.1.trans h₂.1, fun all heq x => ?_⟩
    have hread : x ∈ tuples.map Tuple.user ↔ ⟨x, "derived_from", row.memoryId⟩ ∈ s.tuples := by
      rw [List.mem_map]
      constructor
      · rintro ⟨t, ht, rfl⟩
        obtain ⟨hmem, hobj, hrelation⟩ := (h₁.2 tuples rfl t).mp ht
        rw [← hobj, ← hrelation]
        exact hmem
      · exact fun hmem => ⟨_, (h₁.2 tuples rfl _).mpr ⟨hmem, rfl, rfl⟩, rfl⟩
    rw [h₂.2 all heq x, h₁.1.stores.tuples, FrozenSet.mem_union, FrozenSet.mem_union,
      FrozenSet.mem_ofList, FrozenSet.mem_ofList, hread, List.exists_mem_cons_iff, or_assoc]
    exact or_left_comm

theorem sources_ends (h : FailsPartly conduct) {rows : List MemoryRecord} :
    Raises.Ends (memoryWorld conduct start)
      (fun r s' => Observing s s' ∧ ∀ all, r = .ok all → ∀ x, x ∈ all ↔ ∃ row ∈ rows,
        x ∈ row.derivedFrom ∨ ⟨x, "derived_from", row.memoryId⟩ ∈ s.tuples)
      (MemoryService.sources rows) s := by
  refine (collectSources_ends h).bind (fun found s₁ h₁ => ?_) fun e s₁ h₁ =>
    ⟨h₁.1, fun _ heq => nomatch heq⟩
  refine Raises.ends_pure.mpr ⟨h₁.1, fun all heq x => ?_⟩
  obtain rfl := Except.ok.inj heq
  exact (h₁.2 found rfl x).trans (or_iff_right FrozenSet.not_mem_empty)

/-- The decision over the sources, and what it was made on. -/
theorem readDecision_ends {sources targets : List String} {primaryId : String} :
    Raises.Ends (memoryWorld conduct start)
      (fun r s' => Observing s s' ∧ ∀ d, r = .ok d → ∃ tr,
        svc.decider.DecidesAll chain .readMemory [] .none sources targets tr d ∧
          ∀ e ∈ tr, conduct.core e.op (.ok e.res))
      (Remembering.core (svc.decider.decideAll chain .readMemory sources (some targets)
        (some primaryId) none none)) s := by
  have hunder : Raises.Under (fun e => conduct.core e.op (.ok e.res))
      (fun x => ∀ d, x = .ok d → ∃ tr,
        svc.decider.DecidesAll chain .readMemory [] .none sources targets tr d ∧
          ∀ e ∈ tr, conduct.core e.op (.ok e.res))
      (svc.decider.decideAll chain .readMemory sources (some targets) (some primaryId) none
        none) := by
    refine Raises.under_of_run fun tr r hrun hG d heq => ?_
    subst heq
    exact ⟨tr, Decider.decideAll_run hrun, hG⟩
  refine (core_ends_under hunder fun o a h => h).mono fun r s' h => ⟨h.1.observing, fun d heq => ?_⟩
  rcases h.2 with ⟨o, name, -, rfl⟩ | ⟨x, hx, rfl⟩
  · exact nomatch heq
  · cases x with
    | error e => exact nomatch heq
    | ok d' => exact Except.ok.inj heq ▸ hx d' rfl

/-- A candidate is handed out as a memory, or not at all. -/
def AdmitsAs (svc : MemoryService) (conduct : Conduct) (chain : PrincipalChain) (hasPermits : Bool)
    (s : MemoryState) (candidate : Candidate) (r : Except Thrown (Option Memory))
    (s' : MemoryState) : Prop :=
  Observing s s' ∧ ∀ memory, r = .ok (some memory) →
    ∃ rows, Admitted svc conduct chain hasPermits s candidate rows memory s'

theorem admitsAs_none {candidate : Candidate} {s' : MemoryState} (h : Observing s s') :
    AdmitsAs svc conduct chain hasPermits s candidate (.ok none) s' :=
  ⟨h, fun _ heq => nomatch heq⟩

theorem admitsAs_error {candidate : Candidate} {e : Thrown} {s' : MemoryState}
    (h : Observing s s') : AdmitsAs svc conduct chain hasPermits s candidate (.error e) s' :=
  ⟨h, fun _ heq => nomatch heq⟩

/-- A candidate that is denied. -/
theorem admitsAs_denied (h : FailsPartly conduct) {candidate : Candidate} {s₁ : MemoryState}
    (hobs : Observing s s₁) {memoryId reason : String} :
    Raises.Ends (memoryWorld conduct start) (AdmitsAs svc conduct chain hasPermits s candidate)
      (do MemoryService.denyRead chain memoryId reason; return none) s₁ :=
  (denyRead_ends h).bind
    (fun _ _ h₂ => Raises.ends_pure.mpr (admitsAs_none (hobs.trans h₂)))
    fun _ _ h₂ => admitsAs_error (hobs.trans h₂)

/-- **What `_admit_unguarded` hands out.** -/
theorem admitUnguarded_ends (h : FailsPartly conduct) {candidate : Candidate} :
    Raises.Ends (memoryWorld conduct start) (AdmitsAs svc conduct chain hasPermits s candidate)
      (svc.admitUnguarded chain candidate hasPermits) s := by
  unfold MemoryService.admitUnguarded
  refine (lookUp_ends h).bind (fun records s₁ h₁ => ?_) fun e s₁ h₁ => admitsAs_error h₁.1
  obtain ⟨hobs₁, hlook⟩ := h₁
  have hfound := hlook records rfl
  split
  · exact admitsAs_denied h hobs₁
  next primary others hrows =>
  split
  · exact admitsAs_denied h hobs₁
  next hall =>
  -- every reference has a row
  have hforall := hfound.reduceOption hall
  rw [hrows] at hforall
  refine (sources_ends h).bind (fun sources s₂ h₂ => ?_) fun e s₂ h₂ =>
    admitsAs_error (hobs₁.trans h₂.1)
  have hobs₂ := hobs₁.trans h₂.1
  have hsources := h₂.2 sources rfl
  rw [hobs₁.stores.tuples] at hsources
  refine refused_ends_asked.bind (fun refused s₃ h₃ => ?_) fun e s₃ h₃ =>
    admitsAs_error (h₃.1 ▸ hobs₂)
  obtain ⟨rfl, hasked⟩ := h₃
  split
  · exact admitsAs_denied h hobs₂
  next hrefused =>
  obtain rfl : refused = [] := not_not.mp hrefused
  have hpermitted := hasked rfl
  split
  · exact event_ends h (fun s₄ _ hobs₄ _ _ _ _ =>
      Raises.ends_pure.mpr (admitsAs_none (hobs₂.trans hobs₄)))
      fun e s₄ hobs₄ => admitsAs_error (hobs₂.trans hobs₄)
  next hwritten =>
  refine readDecision_ends.bind (fun d s₄ h₄ => ?_) fun e s₄ h₄ =>
    admitsAs_error (hobs₂.trans h₄.1)
  have hobs₄ := hobs₂.trans h₄.1
  refine event_ends h (fun s₅ event hobs₅ hevent hkind hresource houtcome => ?_)
    fun e s₅ hobs₅ => admitsAs_error (hobs₄.trans hobs₅)
  split
  · exact Raises.ends_pure.mpr (admitsAs_none (hobs₄.trans hobs₅))
  next hallow =>
  obtain hallow : d.outcome = .allow := not_not.mp hallow
  refine Raises.ends_pure.mpr ⟨hobs₄.trans hobs₅, fun memory heq => ?_⟩
  obtain rfl := Option.some.inj (Except.ok.inj heq)
  obtain ⟨tr, hdecides, hanswers⟩ := h₄.2 d rfl
  refine ⟨primary :: others, hforall, ⟨primary, rfl, rfl⟩, rfl, hsources, fun hpermits => ?_, ?_,
    ⟨tr, d, hdecides, hallow, hanswers⟩,
    ⟨s₄.journal, event, hobs₄.journal, hevent ▸ List.prefix_rfl, hkind, hresource, ?_⟩⟩
  · exact hpermitted hpermits (by simp)
  · intro hnone row hrow
    by_contra hother
    exact hwritten ⟨hnone, List.any_eq_true.mpr ⟨row, hrow, decide_eq_true hother⟩⟩
  · rw [houtcome, hallow]

/-- **What `_admit` hands out.** -/
theorem admitCandidate_ends (h : FailsPartly conduct) {candidate : Candidate} :
    Raises.Ends (memoryWorld conduct start) (AdmitsAs svc conduct chain hasPermits s candidate)
      (svc.admitCandidate chain candidate hasPermits) s := by
  unfold MemoryService.admitCandidate
  refine (admitUnguarded_ends h).attempt_bind fun r s₁ h₁ => ?_
  cases r with
  | ok memory => exact Raises.ends_pure.mpr ⟨h₁.1, fun m heq => h₁.2 m (by rw [heq])⟩
  | error e =>
    dsimp only
    cases e.hoc? with
    | some exc => exact admitsAs_denied h h₁.1
    | none => exact Raises.ends_raise.mpr (admitsAs_error h₁.1)

/-- Every memory kept was handed out for one of the candidates. -/
def KeepsAdmitted (svc : MemoryService) (conduct : Conduct) (chain : PrincipalChain)
    (hasPermits : Bool) (s : MemoryState) (candidates : List Candidate) (kept : List Memory)
    (s' : MemoryState) : Prop :=
  ∀ memory ∈ kept, ∃ candidate ∈ candidates, ∃ rows,
    Admitted svc conduct chain hasPermits s candidate rows memory s'

/-- What was handed out later was handed out from the same stores. -/
theorem Admitted.after {s₀ s s' : MemoryState} {candidate : Candidate}
    {rows : List MemoryRecord} {memory : Memory}
    (h : Admitted svc conduct chain hasPermits s candidate rows memory s') (hobs : Observing s₀ s) :
    Admitted svc conduct chain hasPermits s₀ candidate rows memory s' where
  found := h.found.imp fun _ _ => (finds_of_stores hobs.stores).mp
  primary := h.primary
  content := h.content
  sources := hobs.stores.tuples ▸ h.sources
  permitted := h.permitted
  writtenFor := h.writtenFor
  decided := h.decided
  journal := by
    obtain ⟨earlier, event, hearlier, hevent⟩ := h.journal
    exact ⟨earlier, event, hobs.journal.trans hearlier, hevent⟩

/-- The loop over the candidates, of which some were seen already. -/
theorem admitAll_ends (h : FailsPartly conduct) {limit : ℤ} {seen rest : List Candidate}
    {kept : List Memory} {s₁ : MemoryState} (hobs : Observing s s₁)
    (hkept : KeepsAdmitted svc conduct chain hasPermits s (seen ++ rest) kept s₁) :
    Raises.Ends (memoryWorld conduct start)
      (fun r s' => Observing s s' ∧ ∀ memories, r = .ok memories →
        KeepsAdmitted svc conduct chain hasPermits s (seen ++ rest) memories s')
      (svc.admitAll chain hasPermits limit rest kept) s₁ := by
  -- the induction is on the candidates to come; those seen so far grow by one
  induction rest generalizing seen kept s₁ with
  | nil => exact Raises.ends_pure.mpr ⟨hobs, fun memories heq => Except.ok.inj heq ▸ hkept⟩
  | cons candidate rest ih =>
    unfold MemoryService.admitAll
    refine (admitCandidate_ends h).bind (fun memory s₂ h₂ => ?_) fun e s₂ h₂ =>
      ⟨hobs.trans h₂.1, fun _ heq => nomatch heq⟩
    have hlonger : KeepsAdmitted svc conduct chain hasPermits s (seen ++ candidate :: rest)
        (kept ++ memory.toList) s₂ := by
      intro m hm
      rcases List.mem_append.mp hm with hold | hnew
      · obtain ⟨c, hc, rows, hadmitted⟩ := hkept m hold
        exact ⟨c, hc, rows, hadmitted.observing h₂.1⟩
      · obtain ⟨rows, hadmitted⟩ := h₂.2 m (by rw [Option.mem_toList.mp hnew])
        exact ⟨candidate, List.mem_append_right _ List.mem_cons_self, rows,
          hadmitted.after hobs⟩
    change Raises.Ends _ _ (if limit ≤ _ then _ else _) s₂
    -- the loop stops at the limit, and what it has kept was admitted
    split
    · exact Raises.ends_pure.mpr ⟨hobs.trans h₂.1, fun memories heq => Except.ok.inj heq ▸ hlonger⟩
    · rw [List.append_cons] at hlonger ⊢
      exact ih (hobs.trans h₂.1) hlonger

/-- **What a recall returns, and leaves.** Every memory was handed out for a candidate of the
search, and no store has changed. -/
theorem recall_ends (h : FailsPartly conduct) {query : PyStr} {limit : ℤ} :
    Raises.Ends (memoryWorld conduct start)
      (fun r s' => Observing s s' ∧ ∀ memories, r = .ok memories → ∀ memory ∈ memories,
        ∃ candidates, conduct.finds s svc.space candidates ∧ ∃ candidate ∈ candidates, ∃ rows,
          Admitted svc conduct chain hasPermits s candidate rows memory s')
      (svc.recall chain query limit hasPermits) s := by
  unfold MemoryService.recall
  have hsearch : Raises.Ends (memoryWorld conduct start)
      (fun r s' => Observing s s' ∧ ∀ found, r = .ok found → conduct.finds s svc.space found)
      (Remembering.search query svc.space (max 1 (min limit MAX_LIMIT))) s := by
    intro r s' hstep
    match r with
    | .ok found =>
      obtain ⟨hfinds, rfl⟩ : conduct.finds s svc.space found ∧ s' = s := hstep
      exact ⟨.refl, fun _ heq => Except.ok.inj heq ▸ hfinds⟩
    | .error e =>
      obtain ⟨s₁, rfl, rfl⟩ := h _ _ _ _ hstep
      exact ⟨observing_raised, fun _ heq => nomatch heq⟩
  -- a search that fails with an `Exception` is journaled and gives nothing
  refine hsearch.attempt_bind fun r s₁ h₁ => ?_
  cases r with
  | ok candidates =>
    have hnone : KeepsAdmitted svc conduct chain hasPermits s ([] ++ candidates) [] s₁ :=
      fun _ hm => absurd hm List.not_mem_nil
    refine (admitAll_ends h h₁.1 hnone).mono fun r s' hr => ⟨hr.1, fun memories heq memory hm => ?_⟩
    exact ⟨candidates, h₁.2 candidates rfl, hr.2 memories heq memory hm⟩
  | error e =>
    change Raises.Ends _ _ (if e.isException then _ else _) s₁
    split
    · refine (denyRead_ends h).bind (fun _ s₂ h₂ => ?_) fun e s₂ h₂ =>
        ⟨h₁.1.trans h₂, fun _ heq => nomatch heq⟩
      refine Raises.ends_pure.mpr ⟨h₁.1.trans h₂, fun memories heq memory hm => ?_⟩
      rw [← Except.ok.inj heq] at hm
      exact absurd hm List.not_mem_nil
    · exact Raises.ends_raise.mpr ⟨h₁.1, fun _ heq => nomatch heq⟩

end Recall

/-! ### Remember -/

/-- **What a remembered memory has added** to the stores `s`: its row, its content under a
reference that was not in use, and its tuples. -/
structure MemoryKept (svc : MemoryService) (chain : PrincipalChain) (content : PyStr)
    (derivedFrom : List String) (s : MemoryState) (memory : Memory) (row : MemoryRecord)
    (s' : MemoryState) : Prop where
  fresh : ∃ hex, IsUuidHex hex ∧ s.Fresh hex ∧ memory.memoryId = "memory:" ++ hex
  sources : memory.derivedFrom = dedupe derivedFrom
  subject : memory.writtenFor = chain.subject
  named : row.memoryId = memory.memoryId
  writtenFor : row.writtenFor = chain.subject
  recorded : row.derivedFrom = dedupe derivedFrom
  backend : row.backend = svc.backend
  unused : s.content.get (svc.space, row.backendRef) = none
  tuples : s'.tuples =
    (FrozenSet.ofList (provenanceOf chain memory.memoryId derivedFrom)).union s.tuples
  content : s'.content = s.content.set (svc.space, row.backendRef) (memory.memoryId, content)
  ledger : s'.ledger = s.ledger.set memory.memoryId row

section Remember

variable {svc : MemoryService} {conduct : Conduct} {start s : MemoryState} {chain : PrincipalChain}
  {content : PyStr} {derivedFrom : List String} {hasPermits : Bool}

theorem undo_ends_error {memoryId : String} {provenance : List Tuple} {backendRef : Option String}
    {e : Thrown} :
    Raises.Ends (memoryWorld conduct start) (fun (r : Except Thrown Memory) _ => ∀ m, r ≠ .ok m)
      (svc.undo memoryId provenance backendRef e) s := by
  unfold MemoryService.undo
  split
  · have hany : Raises.Ends (memoryWorld conduct start) (fun _ _ => True)
        (svc.rollback memoryId provenance backendRef) s := Prog.wp_iff.mpr fun _ _ _ _ _ => trivial
    exact hany.bind (fun _ _ _ => Raises.ends_raise.mpr fun m heq => nomatch heq)
      fun e _ _ m heq => nomatch heq
  · exact Raises.ends_raise.mpr fun m heq => nomatch heq

/-- The writes, from stores that are as before the call. -/
theorem write_ends_kept {s₁ : MemoryState} (hquiet : Journaling s s₁) {hex hash : String}
    (hhex : IsUuidHex hex) (hfresh : s.Fresh hex) :
    Raises.Ends (memoryWorld conduct start)
      (fun r s' => ∀ memory, r = .ok memory →
        ∃ row, MemoryKept svc chain content derivedFrom s memory row s')
      (svc.write chain content (dedupe derivedFrom) hash ("memory:" ++ hex)) s₁ := by
  unfold MemoryService.write
  set memoryId := "memory:" ++ hex with hid
  refine now_ends.bind (fun now s₂ h₂ => ?_) fun e s₂ _ _ heq => by cases heq
  obtain rfl : s₁ = s₂ := h₂.symm
  change Raises.Ends (memoryWorld conduct start) _
    ((Remembering.writeTuples (provenanceOf chain memoryId derivedFrom)).attempt >>= _) s₁
  -- the tuples are written; where that fails, the call raises and has returned no memory
  have hwrite : Raises.Ends (memoryWorld conduct start)
      (fun r s' => r = .ok () → s' = s₁.write (provenanceOf chain memoryId derivedFrom))
      (Remembering.writeTuples (provenanceOf chain memoryId derivedFrom)) s₁ := by
    intro r s' hstep hok
    obtain rfl : r = .ok () := hok
    exact hstep
  refine hwrite.attempt_bind fun r s₂ h₂ => ?_
  cases r with
  | error e =>
    dsimp only
    cases e.hoc? with
    | some exc => exact Raises.ends_raise.mpr fun _ heq => by cases heq
    | none => exact Raises.ends_raise.mpr fun _ heq => by cases heq
  | ok u =>
  obtain rfl := h₂ rfl
  -- the content, under a reference that was not in use
  have hstore : Raises.Ends (memoryWorld conduct start)
      (fun r s' => ∀ ref, r = .ok ref → s₁.content.get (svc.space, ref) = none ∧
        s' = (s₁.write (provenanceOf chain memoryId derivedFrom)).keep memoryId content
          svc.space ref)
      (Remembering.store memoryId content svc.space)
      (s₁.write (provenanceOf chain memoryId derivedFrom)) := by
    intro r s' hstep ref hok
    obtain rfl : r = .ok ref := hok
    exact hstep
  refine hstore.attempt_bind fun r s₂ h₂ => ?_
  cases r with
  | error e => exact undo_ends_error.mono fun r _ hr m heq => absurd heq (hr m)
  | ok ref =>
  obtain ⟨hunused, rfl⟩ := h₂ ref rfl
  set record : MemoryRecord := ⟨memoryId, chain.subject, chain.actor, dedupe derivedFrom, hash,
    svc.backend, ref, now⟩ with hrecord
  set stored := (s₁.write (provenanceOf chain memoryId derivedFrom)).keep memoryId content svc.space
    ref with hstored
  -- the row
  have hput : Raises.Ends (memoryWorld conduct start)
      (fun r s' => r = .ok () → s' = stored.put record) (Remembering.put record) stored := by
    intro r s' hstep hok
    obtain rfl : r = .ok () := hok
    exact hstep
  refine hput.attempt_bind fun r s₂ h₂ => ?_
  cases r with
  | error e => exact undo_ends_error.mono fun r _ hr m heq => absurd heq (hr m)
  | ok u =>
  obtain rfl := h₂ rfl
  refine memoryEvent_ends.bind (fun event s₂ h₂ => ?_) fun e s₂ _ _ heq => by cases heq
  obtain ⟨rfl, -⟩ := h₂
  -- the event of the memory
  have hevent : Raises.Ends (memoryWorld conduct start)
      (fun r s' => r = .ok () → s' = (stored.put record).journaled event)
      (Remembering.record event) (stored.put record) := by
    intro r s' hstep hok
    obtain rfl : r = .ok () := hok
    exact hstep
  refine hevent.bind (fun _ s₃ h₃ => ?_) fun e s₃ _ _ heq => by cases heq
  obtain rfl := h₃ rfl
  refine Raises.ends_pure.mpr fun memory heq => ⟨record, ?_⟩
  obtain rfl := Except.ok.inj heq
  -- the stores are those before the call with what the four writes added
  refine ⟨⟨hex, hhex, hfresh, rfl⟩, rfl, rfl, rfl, rfl, rfl, rfl, ?_, ?_, ?_, ?_⟩
  · rw [← hquiet.stores.content]
    exact hunused
  · rw [← hquiet.stores.tuples]
    rfl
  · rw [← hquiet.stores.content]
    rfl
  · rw [← hquiet.stores.ledger]
    rfl

/-- **What a `remember` that returns has done.** -/
theorem remember_ends_kept :
    Raises.Ends (memoryWorld conduct start)
      (fun r s' => ∀ memory, r = .ok memory →
        ∃ row, MemoryKept svc chain content derivedFrom s memory row s')
      (svc.remember chain content derivedFrom hasPermits) s := by
  unfold MemoryService.remember
  -- nothing is stored before the decision
  have hrefs : Raises.Ends (memoryWorld conduct start) (fun _ s' => s' = s)
      (Remembering.ofHoc (validateRefs "document" (dedupe derivedFrom))) s :=
    Raises.ends_ofExcept.mpr rfl
  refine hrefs.bind (fun _ s₁ h₁ => ?_) fun e s₁ _ _ heq => nomatch heq
  obtain rfl : s = s₁ := h₁.symm
  refine memoryId_ends.bind (fun hex s₁ h₁ => ?_) fun e s₁ _ _ heq => nomatch heq
  obtain ⟨hsame, hex', heq, hhex, hfresh⟩ := h₁
  obtain rfl : s = s₁ := hsame.symm
  obtain rfl := Except.ok.inj heq
  refine refused_ends.bind (fun refused s₁ h₁ => ?_) fun e s₁ _ _ heq => nomatch heq
  obtain rfl : s = s₁ := h₁.symm
  have hhash : Raises.Ends (memoryWorld conduct start) (fun _ s' => s' = s)
      (Raises.ofExcept (svc.contentHash content) : Remembering String) s :=
    Raises.ends_ofExcept.mpr rfl
  split
  · refine hhash.bind (fun hash s₂ _ => ?_) fun e s₂ _ _ heq => nomatch heq
    refine memoryEvent_ends.bind (fun event s₃ _ => ?_) fun e s₃ _ _ heq => nomatch heq
    have hany : Raises.Ends (memoryWorld conduct start) (fun _ _ => True)
        (Remembering.record event) s₃ := fun _ _ _ => trivial
    exact hany.bind (fun _ _ _ => Raises.ends_raise.mpr fun _ heq => nomatch heq)
      fun e _ _ _ heq => nomatch heq
  refine hhash.bind (fun hash s₂ h₂ => ?_) fun e s₂ _ _ heq => nomatch heq
  obtain rfl : s = s₂ := h₂.symm
  -- the decision journals, and the writes follow an ALLOW
  refine core_ends.bind (fun decision s₃ hquiet => ?_) fun e s₃ _ _ heq => nomatch heq
  split
  · exact Raises.ends_raise.mpr fun _ heq => nomatch heq
  exact write_ends_kept hquiet hhex hfresh

/-- A turn that has remembered a memory has made its writes. -/
theorem memoryKept_of_remembered {t : svc.calls.Turn (memoryWorld conduct start)} (hran : t.Ran)
    {memory : Memory} (h : remembered t = some memory) : ∃ chain content derivedFrom row,
      MemoryKept svc chain content derivedFrom t.before memory row t.after := by
  obtain ⟨s, call, tr, r, s'⟩ := t
  cases call with
  | remember chain content derivedFrom hasPermits =>
    cases r with
    | error e => exact nomatch h
    | ok memory' =>
      obtain rfl := Option.some.inj h
      obtain ⟨row, hkept⟩ := remember_ends_kept.run hran.run hran.steps memory' rfl
      exact ⟨chain, content, derivedFrom, row, hkept⟩
  | «recall» => exact nomatch h
  | forget => exact nomatch h
end Remember

/-! ### Forget -/

/-- The tuples that hold the provenance of a memory. -/
def ProvenanceOf (memoryId : String) (t : Tuple) : Prop :=
  t.obj = memoryId ∧ (t.relation = "derived_from" ∨ t.relation = "writer")

/-- The calls of `forget` from the deletion of the row on. -/
def MemoryOp.Late : MemoryOp → Prop
  | .deleteRow _ => True
  | .readTuples _ _ => True
  | .deleteTuples _ => True
  | _ => False

/-- **How far a forget gets**: nothing is deleted, or the content, or the row too, and then some
or all of the tuples. -/
inductive ForgetEnds (svc : MemoryService) (chain : PrincipalChain) (memoryId : String)
    (s : MemoryState) (r : Except Thrown Unit) (s' : MemoryState) : Prop
  | unchanged (hstores : SameStores s s') (hraised : ∃ e, r = .error e)
  | content {row : MemoryRecord} (hrow : s.ledger.get memoryId = some row)
      (hcontent : s'.content = s.content.pop (svc.space, row.backendRef))
      (hledger : s'.ledger = s.ledger) (htuples : s'.tuples = s.tuples)
      (hraised : ∃ e, r = .error e)
  | row {row : MemoryRecord} (hrow : s.ledger.get memoryId = some row)
      (hcontent : s'.content = s.content.pop (svc.space, row.backendRef))
      (hledger : s'.ledger = s.ledger.pop memoryId) (hsub : ∀ t ∈ s'.tuples, t ∈ s.tuples)
      (hothers : ∀ t ∈ s.tuples, ¬ ProvenanceOf memoryId t → t ∈ s'.tuples)
      (htuples : (r = .ok () ∧ ∀ t ∈ s'.tuples, ¬ ProvenanceOf memoryId t) ∨
        ∃ o e, o.Late ∧ r = .error e ∧ s'.failed = s.failed ++ [(o, e)])

section Forget

variable {svc : MemoryService} {conduct : Conduct} {start s : MemoryState} {chain : PrincipalChain}
  {memoryId : String} {hasPermits : Bool}

/-- The end of a forget, after the content and the row were deleted. -/
theorem forgetTuples_ends (h : FailsPartly conduct) {s₀ : MemoryState} {row : MemoryRecord}
    (hrow : s₀.ledger.get memoryId = some row)
    (hcontent : s.content = s₀.content.pop (svc.space, row.backendRef))
    (hledger : s.ledger = s₀.ledger.pop memoryId) (htuples : s.tuples = s₀.tuples)
    (hfailed : s.failed = s₀.failed) :
    Raises.Ends (memoryWorld conduct start) (ForgetEnds svc chain memoryId s₀)
      (do
        let derived ← Remembering.readTuples memoryId "derived_from"
        let writers ← Remembering.readTuples memoryId "writer"
        Remembering.deleteTuples (derived ++ writers)) s := by
  -- a call that fails leaves the tuples to be deleted
  have hread : ∀ relation, Raises.Ends (memoryWorld conduct start)
      (fun r s' => (∃ found, r = .ok found ∧ s' = s ∧
          ∀ t, t ∈ found ↔ t ∈ s₀.tuples ∧ t.obj = memoryId ∧ t.relation = relation) ∨
        ∃ e, r = .error e ∧ s' = s.raised (.readTuples memoryId relation) e)
      (Remembering.readTuples memoryId relation) s := by
    intro relation r s' hstep
    match r with
    | .ok found =>
      obtain ⟨hfound, rfl⟩ : (∀ t, t ∈ found ↔ t ∈ s.tuples ∧ t.obj = memoryId ∧
        t.relation = relation) ∧ s' = s := hstep
      rw [htuples] at hfound
      exact .inl ⟨found, rfl, rfl, hfound⟩
    | .error e =>
      obtain ⟨s₁, rfl, rfl⟩ := h _ _ _ _ hstep
      exact .inr ⟨e, rfl, rfl⟩
  have hcut : ∀ relation e, ForgetEnds svc chain memoryId s₀ (.error e)
      (s.raised (.readTuples memoryId relation) e) := by
    intro relation e
    refine .row hrow hcontent hledger (fun t ht => htuples ▸ ht) (fun t ht _ => htuples.symm ▸ ht)
      (.inr ⟨.readTuples memoryId relation, e, trivial, rfl, ?_⟩)
    rw [← hfailed]
    rfl
  refine (hread "derived_from").bind (fun derived s₁ h₁ => ?_) fun e s₁ h₁ => ?_
  swap
  · rcases h₁ with ⟨found, heq, -⟩ | ⟨e', heq, rfl⟩
    · exact nomatch heq
    · exact Except.error.inj heq ▸ hcut _ _
  rcases h₁ with ⟨found, heq, rfl, hderived⟩ | ⟨e', heq, -⟩
  swap
  · exact nomatch heq
  obtain rfl := Except.ok.inj heq
  refine (hread "writer").bind (fun writers s₂ h₂ => ?_) fun e s₂ h₂ => ?_
  swap
  · rcases h₂ with ⟨found, heq, -⟩ | ⟨e', heq, rfl⟩
    · exact nomatch heq
    · exact Except.error.inj heq ▸ hcut _ _
  rcases h₂ with ⟨found, heq, rfl, hwriters⟩ | ⟨e', heq, -⟩
  swap
  · exact nomatch heq
  obtain rfl := Except.ok.inj heq
  -- what is to be deleted is the provenance of the memory
  have hall : ∀ t, t ∈ derived ++ writers ↔ t ∈ s₀.tuples ∧ ProvenanceOf memoryId t := by
    intro t
    rw [List.mem_append, hderived, hwriters]
    unfold ProvenanceOf
    tauto
  intro r s' hstep
  match r with
  | .ok () =>
    obtain rfl : s' = s₂.delete (derived ++ writers) := hstep
    refine .row hrow hcontent hledger (fun t ht => ?_) (fun t ht hother => ?_)
      (.inl ⟨rfl, fun t ht hprov => ?_⟩)
    · exact htuples ▸ (MemoryState.mem_delete.mp ht).1
    · exact MemoryState.mem_delete.mpr ⟨htuples.symm ▸ ht, fun hmem => hother ((hall t).mp hmem).2⟩
    · obtain ⟨hmem, hnot⟩ := MemoryState.mem_delete.mp ht
      exact hnot ((hall t).mpr ⟨htuples ▸ hmem, hprov⟩)
  | .error e =>
    obtain ⟨s₁, ⟨done, hdone, rfl⟩, rfl⟩ := h _ _ _ _ hstep
    refine .row hrow hcontent hledger (fun t ht => ?_) (fun t ht hother => ?_)
      (.inr ⟨.deleteTuples (derived ++ writers), e, trivial, rfl, ?_⟩)
    · exact htuples ▸ (MemoryState.mem_delete.mp ht).1
    · exact MemoryState.mem_delete.mpr
        ⟨htuples.symm ▸ ht, fun hmem => hother ((hall t).mp (hdone hmem)).2⟩
    · rw [← hfailed]
      rfl

/-- **How every forget ends.** -/
theorem forget_ends (h : FailsPartly conduct) :
    Raises.Ends (memoryWorld conduct start) (ForgetEnds svc chain memoryId s)
      (svc.forget chain memoryId hasPermits) s := by
  unfold MemoryService.forget
  have href : Raises.Ends (memoryWorld conduct start) (fun _ s' => s' = s)
      (Remembering.ofHoc (do let _ ← validateRef memoryId "memory"; return ())) s :=
    Raises.ends_ofExcept.mpr rfl
  refine href.bind (fun _ s₁ h₁ => ?_) fun e s₁ h₁ => .unchanged (h₁ ▸ .refl s) ⟨e, rfl⟩
  obtain rfl : s = s₁ := h₁.symm
  refine refused_ends.bind (fun refused s₁ h₁ => ?_) fun e s₁ h₁ =>
    .unchanged (h₁ ▸ .refl s) ⟨e, rfl⟩
  obtain rfl : s = s₁ := h₁.symm
  split
  · exact (denyRead_ends h).bind
      (fun _ s₂ h₂ => Raises.ends_raise.mpr (.unchanged h₂.stores ⟨_, rfl⟩))
      fun e s₂ h₂ => .unchanged h₂.stores ⟨e, rfl⟩
  have hget : Raises.Ends (memoryWorld conduct start)
      (fun r s' => (r = .ok (s.ledger.get memoryId) ∧ s' = s) ∨ ∃ e, r = .error e ∧ Observing s s')
      (Remembering.get memoryId) s := by
    intro r s' hstep
    match r with
    | .ok found =>
      obtain ⟨rfl, rfl⟩ : found = s.ledger.get memoryId ∧ s' = s := hstep
      exact .inl ⟨rfl, rfl⟩
    | .error e =>
      obtain ⟨s₁, rfl, rfl⟩ := h _ _ _ _ hstep
      exact .inr ⟨e, rfl, observing_raised⟩
  refine hget.bind (fun found s₁ h₁ => ?_) fun e s₁ h₁ => ?_
  swap
  · rcases h₁ with ⟨heq, -⟩ | ⟨e', heq, hobs⟩
    · exact nomatch heq
    · exact .unchanged hobs.stores ⟨e, rfl⟩
  rcases h₁ with ⟨heq, hsame⟩ | ⟨e', heq, -⟩
  swap
  · exact nomatch heq
  obtain rfl := Except.ok.inj heq
  obtain rfl : s = s₁ := hsame.symm
  split
  · exact event_ends h (fun s₂ _ hobs _ _ _ _ =>
      Raises.ends_raise.mpr (.unchanged hobs.stores ⟨_, rfl⟩))
      fun e s₂ hobs => .unchanged hobs.stores ⟨e, rfl⟩
  next record hrecord =>
  have hrow : s.ledger.get memoryId = some record := (Option.filter_eq_some_iff.mp hrecord).1
  refine core_ends.bind (fun decision s₂ h₂ => ?_) fun e s₂ h₂ => .unchanged h₂.stores ⟨e, rfl⟩
  split
  · exact Raises.ends_raise.mpr (.unchanged h₂.stores ⟨_, rfl⟩)
  -- the content
  have hdiscard : Raises.Ends (memoryWorld conduct start)
      (fun r s' => (r = .ok () ∧ s' = s₂.discard record.backendRef svc.space) ∨
        ∃ e, r = .error e ∧ ForgetEnds svc chain memoryId s (.error e) s')
      (Remembering.deleteContent record.backendRef svc.space) s₂ := by
    intro r s' hstep
    match r with
    | .ok () => exact .inl ⟨rfl, hstep⟩
    | .error e =>
      obtain ⟨s₃, hpart, rfl⟩ := h _ _ _ _ hstep
      refine .inr ⟨e, rfl, ?_⟩
      rcases hpart with rfl | rfl
      · exact .unchanged (h₂.stores.trans observing_raised.stores) ⟨e, rfl⟩
      · refine .content hrow ?_ h₂.stores.ledger h₂.stores.tuples ⟨e, rfl⟩
        rw [← h₂.stores.content]
        rfl
  refine hdiscard.bind (fun _ s₃ h₃ => ?_) fun e s₃ h₃ => ?_
  swap
  · rcases h₃ with ⟨heq, -⟩ | ⟨e', heq, hends⟩
    · exact nomatch heq
    · exact Except.error.inj heq ▸ hends
  rcases h₃ with ⟨-, rfl⟩ | ⟨e', heq, -⟩
  swap
  · exact nomatch heq
  have hcontent : s₂.content.pop (svc.space, record.backendRef) =
      s.content.pop (svc.space, record.backendRef) := by
    rw [h₂.stores.content]
  have hledger : s₂.ledger.pop memoryId = s.ledger.pop memoryId := by
    rw [h₂.stores.ledger]
  -- the row
  have hdelete : Raises.Ends (memoryWorld conduct start)
      (fun r s' => (r = .ok () ∧
          s' = (s₂.discard record.backendRef svc.space).deleteRow memoryId) ∨
        ∃ e, r = .error e ∧ ForgetEnds svc chain memoryId s (.error e) s')
      (Remembering.deleteRow memoryId) (s₂.discard record.backendRef svc.space) := by
    intro r s' hstep
    match r with
    | .ok () => exact .inl ⟨rfl, hstep⟩
    | .error e =>
      obtain ⟨s₃, hpart, rfl⟩ := h _ _ _ _ hstep
      refine .inr ⟨e, rfl, ?_⟩
      rcases hpart with rfl | rfl
      · exact .content hrow hcontent h₂.stores.ledger h₂.stores.tuples ⟨e, rfl⟩
      · refine .row hrow hcontent hledger (fun t ht => h₂.stores.tuples ▸ ht)
          (fun t ht _ => h₂.stores.tuples.symm ▸ ht)
          (.inr ⟨.deleteRow memoryId, e, trivial, rfl, ?_⟩)
        rw [← h₂.failed]
        rfl
  refine hdelete.bind (fun _ s₄ h₄ => ?_) fun e s₄ h₄ => ?_
  swap
  · rcases h₄ with ⟨heq, -⟩ | ⟨e', heq, hends⟩
    · exact nomatch heq
    · exact Except.error.inj heq ▸ hends
  rcases h₄ with ⟨-, rfl⟩ | ⟨e', heq, -⟩
  swap
  · exact nomatch heq
  exact forgetTuples_ends h hrow hcontent hledger h₂.stores.tuples h₂.failed

end Forget

end HeadOfContext
