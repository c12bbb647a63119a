import HeadOfContext.Memory.Outcomes

/-!
# Forgetting that was interrupted

`forget` deletes the content, the row and the tuples, in this order, and it is the row that
authorizes the next attempt. So what an interrupted forget leaves can be forgotten later as long
as the row is there (`Remembered` is kept by every turn), and is out of reach once the row is
gone and a tuple is left (`Orphaned`, which every turn keeps too). `forget_completes_iff` puts the
two together over a history of forgets, interrupted anywhere, and recalls.
-/

namespace HeadOfContext

open Effects Service MemoryState

/-- A search finds what is stored. -/
def FindsStored (conduct : Conduct) : Prop :=
  ∀ s space candidates, conduct.finds s space candidates → ∀ candidate ∈ candidates,
    ∀ ref ∈ candidate.backendRefs, (s.content.get (space, ref)).isSome

/-- Collaborators that are healthy: no call raises, and the token's checks accept. -/
structure Healthy (conduct : Conduct) : Prop where
  raises : ∀ o e s s', ¬ conduct.raises o e s s'
  permits : ∀ operation resources r, conduct.permits operation resources r →
    ∃ answers, r = .ok answers ∧ ∀ x ∈ resources, answers.get x = some true
  core : ∀ o r, conduct.core o r → ∃ answer, r = .ok answer
  journal : ∀ event r, conduct.core (.record event) r → r = .ok (.ok ())

theorem Healthy.failsPartly {conduct : Conduct} (h : Healthy conduct) : FailsPartly conduct :=
  fun o e s s' hraises => absurd hraises (h.raises o e s s')

/-! ### A forget that nothing interrupts -/

section Undisturbed

variable {svc : MemoryService} {conduct : Conduct} {start s : MemoryState} {chain : PrincipalChain}
  {memoryId : String} {hasPermits : Bool}

/-- The journal accepts. -/
def Accepts : Event CoreSig → Prop
  | ⟨.record _, answer⟩ => answer = .ok ()
  | _ => True

/-- Forgetting asks for the scope alone. -/
theorem under_forgetDecision {D : Decider} (hvalid : isRef memoryId "memory" = true)
    (hscope : Decider.scopeCovers chain .remember memoryId = true) :
    Raises.Under Accepts (fun x => ∃ d, x = .ok d ∧ d.outcome = .allow)
      (D.decideAll chain .remember [] (some [memoryId]) (some memoryId) none none) := by
  have hpatterns : Decider.validateAll ([] ++ [memoryId]) = .ok () := by
    change (do let _ ← validateResourcePattern memoryId; Decider.validateAll []) = _
    rw [validateResourcePattern_eq_ok.mpr ⟨isResourcePattern_of_isRef hvalid, rfl⟩]
    rfl
  have hnone : ¬ ([memoryId].any fun t => !Decider.scopeCovers chain Kind.remember t) = true := by
    simp [hscope]
  unfold Decider.decideAll
  rw [validateRef_eq_ok.mpr ⟨chain.subject_isRef, rfl⟩]
  change Raises.Under _ _ (Core.ofHoc (Decider.validateAll ([] ++ [memoryId])) >>= fun _ =>
    D.evaluateAll chain .remember [] [memoryId] true _ _ >>= _)
  rw [hpatterns]
  change Raises.Under _ _ (D.evaluateAll chain .remember [] [memoryId] true _ _ >>= _)
  unfold Decider.evaluateAll
  rw [if_neg (by simp)]
  change Raises.Under _ _ ((if ([memoryId].any fun t =>
    !Decider.scopeCovers chain Kind.remember t) = true then _ else _) >>= _)
  rw [if_neg hnone, if_pos rfl]
  -- the scope covers the memory, and the decision is journaled
  intro timestamp _ decisionId _ eventId _ answer hanswer
  obtain rfl : answer = .ok () := hanswer
  exact ⟨_, rfl, rfl⟩

/-- The checks of a token that accepts refuse nothing. -/
theorem refused_ends_none (h : Healthy conduct) {operation : Kind} {resources : List String} :
    Raises.Ends (memoryWorld conduct start) (fun r s' => ∃ refused, r = .ok refused ∧
        refused = [] ∧ s' = s)
      (MemoryService.refused hasPermits operation resources) s := by
  unfold MemoryService.refused
  split
  · exact Raises.ends_pure.mpr ⟨[], rfl, rfl, rfl⟩
  have hcall : Raises.Ends (memoryWorld conduct start)
      (fun r s' => ∃ answers, r = .ok answers ∧ s' = s ∧ ∀ x ∈ resources, answers.get x = some true)
      (Remembering.permits operation resources) s := by
    intro r s' hstep
    obtain ⟨answers, rfl, hall⟩ := h.permits _ _ r hstep.1
    exact ⟨answers, rfl, hstep.2, hall⟩
  refine hcall.bind_ok fun answers s₁ h₁ => ?_
  refine Raises.ends_pure.mpr ⟨_, rfl, List.filter_eq_nil_iff.mpr fun x hx => ?_, h₁.1⟩
  simp [h₁.2 x hx]

/-- The decision of a forget, with a decider whose collaborators are healthy. -/
theorem forgetDecision_ends (h : Healthy conduct) (hvalid : isRef memoryId "memory" = true)
    (hscope : Decider.scopeCovers chain .remember memoryId = true) :
    Raises.Ends (memoryWorld conduct start)
      (fun r _ => ∃ d, r = .ok d ∧ d.outcome = .allow)
      (Remembering.core (svc.decider.decideAll chain .remember [] (some [memoryId])
        (some memoryId) none none)) s := by
  have haccepts : ∀ o a, conduct.core o (.ok a) → Accepts ⟨o, a⟩ := by
    intro o a hcore
    cases o with
    | record event => exact Except.ok.inj (h.journal event _ hcore)
    | _ => trivial
  refine (core_ends_under (under_forgetDecision hvalid hscope) haccepts).mono fun r s' hr => ?_
  rcases hr.2 with ⟨o, name, hname, -⟩ | ⟨x, ⟨d, rfl, hallow⟩, rfl⟩
  · obtain ⟨answer, hanswer⟩ := h.core o _ hname
    exact nomatch hanswer
  · exact ⟨d, rfl, hallow⟩

/-- The deletions of a forget, with healthy collaborators. -/
theorem forgetAll_returns (h : Healthy conduct) {backendRef : String} :
    Raises.Ends (memoryWorld conduct start) (fun r _ => r = .ok ())
      (do
        Remembering.deleteContent backendRef svc.space
        Remembering.deleteRow memoryId
        let derived ← Remembering.readTuples memoryId "derived_from"
        let writers ← Remembering.readTuples memoryId "writer"
        Remembering.deleteTuples (derived ++ writers)) s := by
  -- no call of a healthy conduct raises, in whatever state it is made
  have hcontent : Raises.Ends (memoryWorld conduct start) (fun r _ => ∃ a, r = .ok a ∧ True)
      (Remembering.deleteContent backendRef svc.space) s := by
    intro r s' hstep
    match r with
    | .ok () => exact ⟨(), rfl, trivial⟩
    | .error e => exact absurd hstep (h.raises _ _ _ _)
  refine hcontent.bind_ok fun _ s₁ _ => ?_
  have hrow : Raises.Ends (memoryWorld conduct start) (fun r _ => ∃ a, r = .ok a ∧ True)
      (Remembering.deleteRow memoryId) s₁ := by
    intro r s' hstep
    match r with
    | .ok () => exact ⟨(), rfl, trivial⟩
    | .error e => exact absurd hstep (h.raises _ _ _ _)
  refine hrow.bind_ok fun _ s₂ _ => ?_
  have hread : ∀ relation s, Raises.Ends (memoryWorld conduct start)
      (fun r _ => ∃ a, r = .ok a ∧ True) (Remembering.readTuples memoryId relation) s := by
    intro relation s r s' hstep
    match r with
    | .ok found => exact ⟨found, rfl, trivial⟩
    | .error e => exact absurd hstep (h.raises _ _ _ _)
  refine (hread "derived_from" s₂).bind_ok fun derived s₃ _ => ?_
  refine (hread "writer" s₃).bind_ok fun writers s₄ _ => ?_
  intro r s' hstep
  match r with
  | .ok () => rfl
  | .error e => exact absurd hstep (h.raises _ _ _ _)

/-- **A forget of healthy collaborators returns**, if the row is there and the chain may forget. -/
theorem forget_returns (h : Healthy conduct) (hvalid : isRef memoryId "memory" = true)
    (hscope : Decider.scopeCovers chain .remember memoryId = true) {row : MemoryRecord}
    (hrow : s.ledger.get memoryId = some row) (hfor : row.writtenFor = chain.subject) :
    Raises.Ends (memoryWorld conduct start) (fun r _ => r = .ok ())
      (svc.forget chain memoryId hasPermits) s := by
  unfold MemoryService.forget
  -- the checks of the call pass one after the other, and change nothing
  have href : Raises.Ends (memoryWorld conduct start) (fun r s' => ∃ a, r = .ok a ∧ s' = s)
      (Remembering.ofHoc (do let _ ← validateRef memoryId "memory"; return ())) s := by
    rw [validateRef_eq_ok.mpr ⟨hvalid, rfl⟩]
    exact Raises.ends_ofExcept.mpr ⟨(), rfl, rfl⟩
  refine href.bind_ok fun _ s₁ h₁ => ?_
  obtain rfl : s = s₁ := h₁.symm
  refine (refused_ends_none h).bind_ok fun refused s₁ h₁ => ?_
  obtain ⟨rfl, hsame⟩ := h₁
  obtain rfl : s = s₁ := hsame.symm
  rw [if_neg (not_not.mpr rfl)]
  have hget : Raises.Ends (memoryWorld conduct start)
      (fun r _ => ∃ found, r = .ok found ∧ found = some row) (Remembering.get memoryId) s := by
    intro r s' hstep
    match r with
    | .ok found =>
      obtain ⟨rfl, rfl⟩ : found = s.ledger.get memoryId ∧ s' = s := hstep
      exact ⟨_, rfl, hrow⟩
    | .error e => exact absurd hstep (h.raises _ _ _ _)
  refine hget.bind_ok fun found s₁ h₁ => ?_
  obtain rfl := h₁
  rw [Option.filter_some, if_pos (decide_eq_true hfor)]
  refine (forgetDecision_ends h hvalid hscope).bind_ok fun d s₂ hallow => ?_
  rw [if_neg (not_not.mpr hallow)]
  exact forgetAll_returns h

end Undisturbed

/-! ### What every turn keeps -/

/-- Every row of the ledger is stored under its own id. -/
def Keyed (ledger : Dict String MemoryRecord) : Prop :=
  ∀ key row, ledger.get key = some row → row.memoryId = key

/-- What one step may do to the ledger. -/
inductive LedgerStep (ledger : Dict String MemoryRecord) : Dict String MemoryRecord → Prop
  | same : LedgerStep ledger ledger
  | put (record : MemoryRecord) : LedgerStep ledger (ledger.set record.memoryId record)
  | delete (memoryId : String) : LedgerStep ledger (ledger.pop memoryId)

/-- No content of the memory is stored. -/
def NoContent (memoryId : String) (s : MemoryState) : Prop :=
  ∀ key v, s.content.get key = some v → v.1 ≠ memoryId

/-- **The invariant** of a memory from the time it is remembered: its content is where its row
says, and as long as the row is gone, so is the content. -/
structure Remembered (svc : MemoryService) (memoryId : String) (row : MemoryRecord)
    (s : MemoryState) : Prop where
  keyed : Keyed s.ledger
  rowOrGone : s.ledger.get memoryId = some row ∨ s.ledger.get memoryId = none ∧
    s.content.get (svc.space, row.backendRef) = none
  content : ∀ key v, s.content.get key = some v → v.1 = memoryId → key = (svc.space, row.backendRef)
  stored : ∀ v, s.content.get (svc.space, row.backendRef) = some v → v.1 = memoryId

/-- **An orphaned provenance**: the row of the memory is gone, and a tuple is left. -/
def Orphaned (memoryId : String) (s : MemoryState) : Prop :=
  s.ledger.get memoryId = none ∧ ∃ t ∈ s.tuples, ProvenanceOf memoryId t

/-- Nothing of the memory is left. -/
structure Clean (memoryId : String) (s : MemoryState) : Prop where
  content : NoContent memoryId s
  row : s.ledger.get memoryId = none
  tuples : ∀ t ∈ s.tuples, ¬ ProvenanceOf memoryId t

/-- The calls of the law: forgetting this memory, and recalls. -/
def MemoryCall.ForgetsOrReads (memoryId : String) : MemoryCall → Prop
  | .remember _ _ _ _ => False
  | .recall _ _ _ _ => True
  | .forget _ forgotten _ => forgotten = memoryId

section History

variable {svc : MemoryService} {conduct : Conduct} {start s s' : MemoryState} {memoryId : String}
  {row : MemoryRecord}

/-- **What a step can do to the ledger.** -/
theorem ledgerStep_of_step (h : FailsPartly conduct) {o : MemoryOp} {r : MemorySig.Res o}
    (hstep : (memoryWorld conduct start).step s o r s') : LedgerStep s.ledger s'.ledger := by
  -- what a call that raises may have done
  have hpartly : ∀ o e, conduct.raises o e s s' → LedgerStep s.ledger s'.ledger := by
    intro o e hraises
    obtain ⟨s₁, hpart, rfl⟩ := h _ _ _ _ hraises
    change LedgerStep s.ledger s₁.ledger
    cases o with
    | writeTuples ts =>
      obtain ⟨done, -, rfl⟩ := hpart
      exact .same
    | deleteTuples ts =>
      obtain ⟨done, -, rfl⟩ := hpart
      exact .same
    | store memoryId content space =>
      rcases hpart with rfl | ⟨ref, -, rfl⟩
      · exact .same
      · exact .same
    | put record =>
      rcases hpart with rfl | rfl
      · exact .same
      · exact .put record
    | deleteContent ref space =>
      rcases hpart with rfl | rfl
      · exact .same
      · exact .same
    | deleteRow memoryId =>
      rcases hpart with rfl | rfl
      · exact .same
      · exact .delete memoryId
    | record event =>
      rcases hpart with rfl | rfl
      · exact .same
      · exact .same
    | _ =>
      obtain rfl := hpart
      exact .same
  have hsame : s'.ledger = s.ledger → LedgerStep s.ledger s'.ledger := fun heq => heq ▸ .same
  cases o with
  | core o => exact hsame (journaling_of_core hstep).stores.ledger
  | now => exact hsame (congrArg MemoryState.ledger hstep)
  | eventId => exact hsame (congrArg MemoryState.ledger hstep)
  | memoryId => exact hsame (congrArg MemoryState.ledger hstep.2.2)
  | permits operation resources => exact hsame (congrArg MemoryState.ledger hstep.2)
  | writeTuples ts =>
    match r with
    | .ok () =>
      obtain rfl : s' = s.write ts := hstep
      exact .same
    | .error e => exact hpartly _ e hstep
  | deleteTuples ts =>
    match r with
    | .ok () =>
      obtain rfl : s' = s.delete ts := hstep
      exact .same
    | .error e => exact hpartly _ e hstep
  | readTuples obj relation =>
    match r with
    | .ok found => exact hsame (congrArg MemoryState.ledger hstep.2)
    | .error e => exact hpartly _ e hstep
  | store memoryId content space =>
    match r with
    | .ok ref =>
      obtain rfl : s' = s.keep memoryId content space ref := hstep.2
      exact .same
    | .error e => exact hpartly _ e hstep
  | search query space limit =>
    match r with
    | .ok found => exact hsame (congrArg MemoryState.ledger hstep.2)
    | .error e => exact hpartly _ e hstep
  | deleteContent ref space =>
    match r with
    | .ok () =>
      obtain rfl : s' = s.discard ref space := hstep
      exact .same
    | .error e => exact hpartly _ e hstep
  | put record =>
    match r with
    | .ok () =>
      obtain rfl : s' = s.put record := hstep
      exact .put record
    | .error e => exact hpartly _ e hstep
  | get memoryId =>
    match r with
    | .ok found => exact hsame (congrArg MemoryState.ledger hstep.2)
    | .error e => exact hpartly _ e hstep
  | getByBackendRef backend ref =>
    match r with
    | .ok found => exact hsame (congrArg MemoryState.ledger hstep.2)
    | .error e => exact hpartly _ e hstep
  | deleteRow memoryId =>
    match r with
    | .ok () =>
      obtain rfl : s' = s.deleteRow memoryId := hstep
      exact .delete memoryId
    | .error e => exact hpartly _ e hstep
  | record event =>
    match r with
    | .ok () =>
      obtain rfl : s' = s.journaled event := hstep
      exact .same
    | .error e => exact hpartly _ e hstep

/-- **Every step keeps the ledger keyed.** -/
theorem Keyed.step {ledger ledger' : Dict String MemoryRecord} (h : Keyed ledger)
    (hstep : LedgerStep ledger ledger') : Keyed ledger' := by
  intro key row hget
  cases hstep with
  | same => exact h key row hget
  | put record =>
    rw [Dict.get_set] at hget
    split at hget
    · next heq => rw [← Option.some.inj hget, heq]
    · exact h key row hget
  | delete memoryId =>
    rw [Dict.get_pop] at hget
    split at hget
    · cases hget
    · exact h key row hget

/-- **Every history keeps the ledger keyed.** -/
theorem keyed_of_session (h : FailsPartly conduct)
    {turns : List (svc.calls.Turn (memoryWorld conduct .empty))} {s : MemoryState}
    (hsession : Session svc.calls (memoryWorld conduct .empty) turns s) : Keyed s.ledger := by
  induction hsession with
  | start => exact fun key row hget => nomatch hget
  | turn _ hran ih =>
    exact World.Steps.invariant (I := fun _ s => Keyed (MemoryState.ledger s)) (h := [])
      (fun _ _ _ _ _ hs hstep => hs.step (ledgerStep_of_step h hstep)) hran.steps ih

/-! ### One turn -/

/-- A remembered memory is remembered in the sense of the invariant. -/
theorem remembered_of_memoryKept (hkeyed : Keyed s.ledger) {chain : PrincipalChain}
    {content : PyStr}
    {derivedFrom : List String} {memory : Memory}
    (h : MemoryKept svc chain content derivedFrom s memory row s') :
    Remembered svc memory.memoryId row s' := by
  obtain ⟨hex, -, hfresh, hid⟩ := h.fresh
  have hledger : s'.ledger = s.ledger.set row.memoryId row := by
    rw [h.ledger, h.named]
  refine ⟨hledger ▸ hkeyed.step (.put row), .inl ?_, fun key v hget hv => ?_, fun v hget => ?_⟩
  · rw [h.ledger, Dict.get_set, if_pos rfl]
  · rw [h.content, Dict.get_set] at hget
    split at hget
    · assumption
    · refine absurd hv ?_
      rw [hid]
      exact hfresh.content v (Dict.mem_values.mpr ⟨key, hget⟩)
  · rw [h.content, Dict.get_set, if_pos rfl] at hget
    rw [← Option.some.inj hget]

theorem Remembered.of_stores (h : Remembered svc memoryId row s) (hsame : SameStores s s') :
    Remembered svc memoryId row s' := by
  obtain ⟨hkeyed, hrow, hcontent, hstored⟩ := h
  rw [← hsame.ledger] at hkeyed hrow
  rw [← hsame.content] at hrow hcontent hstored
  exact ⟨hkeyed, hrow, hcontent, hstored⟩

/-- A content that was deleted leaves no content of the memory. -/
theorem Remembered.noContent_pop (h : Remembered svc memoryId row s)
    (hcontent : s'.content = s.content.pop (svc.space, row.backendRef)) :
    NoContent memoryId s' := by
  intro key v hget hv
  rw [hcontent, Dict.get_pop] at hget
  split at hget
  · cases hget
  · next hne => exact hne (h.content key v hget hv)

/-- What a forget, wherever it was interrupted, leaves of the invariant. -/
structure Forgets (svc : MemoryService) (memoryId : String) (row : MemoryRecord)
    (s s' : MemoryState) : Prop where
  remembered : Remembered svc memoryId row s'
  noContent : NoContent memoryId s → NoContent memoryId s'
  orphaned : Orphaned memoryId s' ↔ Orphaned memoryId s ∨
    (Orphaned memoryId s' ∧ ∃ o e, o.Late ∧ s'.failed = s.failed ++ [(o, e)])

theorem Forgets.of_stores (h : Remembered svc memoryId row s) (hsame : SameStores s s') :
    Forgets svc memoryId row s s' := by
  have horphaned : Orphaned memoryId s' ↔ Orphaned memoryId s := by
    unfold Orphaned
    rw [hsame.ledger, hsame.tuples]
  refine ⟨h.of_stores hsame, fun hnone key v hget => hnone key v (hsame.content ▸ hget), ?_⟩
  rw [horphaned]
  exact ⟨.inl, fun h => h.elim id And.left⟩

theorem forgets_of_forgetEnds {chain : PrincipalChain} {r : Except Thrown Unit}
    (h : Remembered svc memoryId row s) (hends : ForgetEnds svc chain memoryId s r s') :
    Forgets svc memoryId row s s' := by
  -- the ledger holds the row that is remembered, or none
  have hsame : ∀ {row' : MemoryRecord}, s.ledger.get memoryId = some row' → row' = row := by
    intro row' hrow'
    rcases h.rowOrGone with hrow | ⟨hnone, -⟩
    · exact Option.some.inj (hrow'.symm.trans hrow)
    · cases hnone.symm.trans hrow'
  have hkept : ∀ {key v}, s'.content = s.content.pop (svc.space, row.backendRef) →
      s'.content.get key = some v → s.content.get key = some v := by
    intro key v hcontent hget
    rw [hcontent, Dict.get_pop] at hget
    split at hget
    · cases hget
    · exact hget
  -- it ended before the content, after the content, or after the row
  cases hends with
  | unchanged hstores _ => exact .of_stores h hstores
  | @content row' hrow hcontent hledger htuples hraised =>
    obtain rfl := hsame hrow
    have hthere : s'.ledger.get memoryId = some row' := hledger ▸ hrow
    refine ⟨⟨hledger ▸ h.keyed, .inl hthere, fun key v hget =>
      h.content key v (hkept hcontent hget),
      fun v hget => h.stored v (hkept hcontent hget)⟩, fun _ => h.noContent_pop hcontent, ?_⟩
    have hnot : ∀ s : MemoryState, s.ledger.get memoryId = some row' → ¬ Orphaned memoryId s :=
      fun s hget horphan => Option.some_ne_none _ (hget.symm.trans horphan.1)
    exact iff_of_false (hnot s' hthere) fun h => h.elim (hnot s hrow) fun h => hnot s' hthere h.1
  | @row row' hrow hcontent hledger hsub hothers htuples =>
    obtain rfl := hsame hrow
    have hgone : s'.ledger.get memoryId = none := by
      rw [hledger, Dict.get_pop, if_pos rfl]
    have hempty : s'.content.get (svc.space, row'.backendRef) = none := by
      rw [hcontent, Dict.get_pop, if_pos rfl]
    refine ⟨⟨hledger ▸ h.keyed.step (.delete memoryId), .inr ⟨hgone, hempty⟩,
      fun key v hget => h.content key v (hkept hcontent hget),
      fun v hget => h.stored v (hkept hcontent hget)⟩, fun _ => h.noContent_pop hcontent, ?_⟩
    refine ⟨fun horphan => ?_, fun h => h.elim (fun horphan => ?_) And.left⟩
    · rcases htuples with ⟨-, hnone⟩ | ⟨o, e, hlate, -, hfailed⟩
      · obtain ⟨-, t, ht, hprov⟩ := horphan
        exact absurd hprov (hnone t ht)
      · exact .inr ⟨horphan, o, e, hlate, hfailed⟩
    · cases horphan.1.symm.trans hrow

/-- A turn of the law leaves the invariant as `Forgets` says. -/
theorem forgets_of_ran (h : FailsPartly conduct)
    {t : svc.calls.Turn (memoryWorld conduct start)} (hran : t.Ran)
    (hcall : MemoryCall.ForgetsOrReads memoryId t.call)
    (hrem : Remembered svc memoryId row t.before) : Forgets svc memoryId row t.before t.after := by
  obtain ⟨s, call, tr, r, s'⟩ := t
  cases call with
  | remember => exact absurd hcall id
  | «recall» chain query limit hasPermits =>
    exact .of_stores hrem ((recall_ends h).run hran.run hran.steps).1.stores
  | forget chain forgotten hasPermits =>
    obtain rfl : forgotten = memoryId := hcall
    exact forgets_of_forgetEnds hrem ((forget_ends h).run hran.run hran.steps)

/-! ### A history -/

/-- The turn was cut short: a call to the ledger or to the tuple store failed, after the content
was deleted, and left the row gone and a tuple behind. -/
def CutShort (memoryId : String) (t : svc.calls.Turn (memoryWorld conduct start)) : Prop :=
  Orphaned memoryId t.after ∧ ∃ o e, MemoryOp.Late o ∧
    MemoryState.failed t.after = MemoryState.failed t.before ++ [(o, e)]

/-- The turn returned no content of the memory: what it recalled has another id, and was built
from what is stored for other memories. -/
def KeepsBack (memoryId : String) (t : svc.calls.Turn (memoryWorld conduct start)) : Prop :=
  ∀ memory ∈ recalled t, memory.memoryId ≠ memoryId ∧
    ∃ candidates, conduct.finds t.before svc.space candidates ∧ ∃ candidate ∈ candidates,
      memory.content = candidate.content ∧ ∀ ref ∈ candidate.backendRefs,
        ∃ v, (MemoryState.content t.before).get (svc.space, ref) = some v ∧ v.1 ≠ memoryId

/-- **Once it is deleted, the content is never returned.** -/
def NeverReturned (memoryId : String) (turns : List (svc.calls.Turn (memoryWorld conduct start))) :
    Prop :=
  ∀ pre t post, turns = pre ++ t :: post → NoContent memoryId t.after →
    ∀ t' ∈ post, KeepsBack memoryId t'

theorem keepsBack_of_noContent (h : FailsPartly conduct) (hfinds : FindsStored conduct)
    {t : svc.calls.Turn (memoryWorld conduct start)} (hran : t.Ran)
    (hrem : Remembered svc memoryId row t.before) (hnone : NoContent memoryId t.before) :
    KeepsBack memoryId t := by
  obtain ⟨s, call, tr, r, s'⟩ := t
  cases call with
  | remember => exact fun memory hm => absurd hm List.not_mem_nil
  | forget => exact fun memory hm => absurd hm List.not_mem_nil
  | «recall» chain query limit hasPermits =>
    cases r with
    | error e => exact fun memory hm => absurd hm List.not_mem_nil
    | ok memories =>
      intro memory hm
      obtain ⟨candidates, hfound, candidate, hcandidate, rows, hadmitted⟩ :=
        ((recall_ends h).run hran.run hran.steps).2 memories rfl memory hm
      have hstored : ∀ ref ∈ candidate.backendRefs, ∃ v,
          (MemoryState.content s).get (svc.space, ref) = some v ∧ v.1 ≠ memoryId := by
        intro ref href
        obtain ⟨v, hv⟩ := Option.isSome_iff_exists.mp
          (hfinds _ _ _ hfound candidate hcandidate ref href)
        exact ⟨v, hv, hnone _ v hv⟩
      refine ⟨fun hid => ?_, candidates, hfound, candidate, hcandidate, hadmitted.content, hstored⟩
      -- a row under the id would be the row of the memory, and its content would be stored
      obtain ⟨primary, hhead, hprimary⟩ := hadmitted.primary
      obtain ⟨ref, href, hvalue, -, hbackendRef⟩ :=
        hadmitted.found.exists_right (List.mem_of_mem_head? hhead)
      obtain ⟨key, hget⟩ := Dict.mem_values.mp hvalue
      have hkey : key = memoryId :=
        (hrem.keyed key primary hget).symm.trans (hprimary.symm.trans hid)
      subst hkey
      rcases hrem.rowOrGone with hrow | ⟨hgone, -⟩
      · obtain rfl := Option.some.inj (hget.symm.trans hrow)
        obtain ⟨v, hv, hother⟩ := hstored ref href
        exact hother (hrem.stored v (hbackendRef ▸ hv))
      · exact nomatch hgone.symm.trans hget

/-- **What holds after a history** of forgets and recalls that follows the turn in which the
memory was remembered. -/
structure After (memoryId : String) (row : MemoryRecord)
    (later : List (svc.calls.Turn (memoryWorld conduct start))) (s : MemoryState) : Prop where
  remembered : Remembered svc memoryId row s
  orphaned : Orphaned memoryId s ↔ ∃ t ∈ later, CutShort memoryId t
  returned : NeverReturned memoryId later
  noContent : ∀ t ∈ later, NoContent memoryId t.after → NoContent memoryId s

theorem After.turn (h : FailsPartly conduct) (hfinds : FindsStored conduct)
    {later : List (svc.calls.Turn (memoryWorld conduct start))}
    {t : svc.calls.Turn (memoryWorld conduct start)} (hafter : After memoryId row later t.before)
    (hran : t.Ran) (hcall : MemoryCall.ForgetsOrReads memoryId t.call) :
    After memoryId row (later ++ [t]) t.after := by
  have hforgets := forgets_of_ran h hran hcall hafter.remembered
  refine ⟨hforgets.remembered, ?_, ?_, ?_⟩
  · -- a tuple is orphaned by this turn or was before it
    rw [hforgets.orphaned, hafter.orphaned]
    constructor
    · rintro (⟨u, hu, hcut⟩ | hcut)
      · exact ⟨u, List.mem_append_left _ hu, hcut⟩
      · exact ⟨t, List.mem_append_right _ (List.mem_singleton.mpr rfl), hcut⟩
    · rintro ⟨u, hu, hcut⟩
      rcases List.mem_append.mp hu with hold | hnow
      · exact .inl ⟨u, hold, hcut⟩
      · rw [List.mem_singleton] at hnow
        exact .inr (hnow ▸ hcut)
  · -- once the content is deleted, no later turn returns it
    intro pre u post hsplit hnone t' ht'
    rcases List.eq_nil_or_concat post with rfl | ⟨post', last, rfl⟩
    · exact absurd ht' List.not_mem_nil
    rw [List.concat_eq_append] at hsplit ht'
    rw [← List.cons_append, ← List.append_assoc] at hsplit
    obtain ⟨hlater, hlast⟩ := List.append_inj' hsplit rfl
    obtain rfl := List.singleton_injective hlast
    rcases List.mem_append.mp ht' with hold | hnow
    · exact hafter.returned pre u post' hlater hnone t' hold
    · rw [List.mem_singleton.mp hnow]
      refine keepsBack_of_noContent h hfinds hran hafter.remembered ?_
      refine hafter.noContent u ?_ hnone
      rw [hlater]
      exact List.mem_append_right _ List.mem_cons_self
  · intro u hu hnone
    rcases List.mem_append.mp hu with hold | hnow
    · exact hforgets.noContent (hafter.noContent u hold hnone)
    · rwa [List.mem_singleton.mp hnow] at hnone

theorem after_of_session (h : FailsPartly conduct) (hfinds : FindsStored conduct)
    {past later : List (svc.calls.Turn (memoryWorld conduct .empty))}
    {t₀ : svc.calls.Turn (memoryWorld conduct .empty)} {memory : Memory}
    (hsession : Session svc.calls (memoryWorld conduct .empty) (past ++ t₀ :: later) s)
    (hmemory : remembered t₀ = some memory)
    (hlater : ∀ t ∈ later, MemoryCall.ForgetsOrReads memory.memoryId t.call) :
    isRef memory.memoryId "memory" = true ∧ ∃ row : MemoryRecord,
      row.writtenFor = memory.writtenFor ∧ After memory.memoryId row later s := by
  have hran₀ : t₀.Ran := hsession.ran_of_mem (List.mem_append_right _ List.mem_cons_self)
  obtain ⟨chain, content, derivedFrom, row, hkept⟩ := memoryKept_of_remembered hran₀ hmemory
  obtain ⟨hex, hhex, -, hid⟩ := hkept.fresh
  refine ⟨hid ▸ isRef_memory hhex, row, hkept.writtenFor.trans hkept.subject.symm, ?_⟩
  refine hsession.suffix_induction (P := After memory.memoryId row) (fun hpast _ => ?_)
    fun turns t ht hafter hran => hafter.turn h hfinds hran (hlater t ht)
  have hrem := remembered_of_memoryKept (keyed_of_session h hpast) hkept
  have hthere : (MemoryState.ledger t₀.after).get memory.memoryId = some row := by
    rw [hkept.ledger, Dict.get_set, if_pos rfl]
  refine ⟨hrem, iff_of_false (fun horphan => nomatch horphan.1.symm.trans hthere) ?_, ?_, ?_⟩
  · rintro ⟨t, ht, -⟩
    exact absurd ht List.not_mem_nil
  · intro pre t post hsplit
    exact absurd hsplit.symm (by simp)
  · exact fun t ht => absurd ht List.not_mem_nil

/-- **When a forget can be completed.** A memory is remembered, and then forgotten and recalled any
number of times, where any call may fail, in part or in whole. Its content is not returned once it
was deleted, and a further forget by its subject, with healthy collaborators, leaves nothing of
it, exactly when no forget was cut short between the deletion of the row and that of the tuples. -/
theorem forget_completes_iff (h : FailsPartly conduct) (hfinds : FindsStored conduct)
    {past later : List (svc.calls.Turn (memoryWorld conduct .empty))}
    {t₀ : svc.calls.Turn (memoryWorld conduct .empty)} {memory : Memory} {s : MemoryState}
    (hsession : Session svc.calls (memoryWorld conduct .empty) (past ++ t₀ :: later) s)
    (hmemory : remembered t₀ = some memory)
    (hlater : ∀ t ∈ later, MemoryCall.ForgetsOrReads memory.memoryId t.call)
    {healthy : Conduct} (hhealthy : Healthy healthy)
    {t' : svc.calls.Turn (memoryWorld healthy start)} (hran : t'.Ran) (hbefore : t'.before = s)
    {chain : PrincipalChain} {hasPermits : Bool}
    (hcall : t'.call = .forget chain memory.memoryId hasPermits)
    (hsubject : chain.subject = memory.writtenFor)
    (hscope : Decider.scopeCovers chain .remember memory.memoryId = true) :
    NeverReturned memory.memoryId later ∧ Clean memory.memoryId t'.after ↔
      ∀ t ∈ later, ¬ CutShort memory.memoryId t := by
  -- what the history leaves of the memory; nothing of it was returned
  obtain ⟨hvalid, row, hfor, hafter⟩ := after_of_session h hfinds hsession hmemory hlater
  rw [and_iff_right hafter.returned]
  -- some forget was cut short exactly when a tuple was left without its row
  have hcut : (∀ t ∈ later, ¬ CutShort memory.memoryId t) ↔ ¬ Orphaned memory.memoryId s := by
    rw [hafter.orphaned]
    exact ⟨fun hnone ⟨t, ht, hcut⟩ => hnone t ht hcut, fun hnone t ht hcut => hnone ⟨t, ht, hcut⟩⟩
  rw [hcut]
  obtain ⟨before, call, tr, r, s'⟩ := t'
  obtain rfl : before = s := hbefore
  obtain rfl : call = .forget chain memory.memoryId hasPermits := hcall
  have hends := (forget_ends hhealthy.failsPartly).run hran.run hran.steps
  change Clean memory.memoryId s' ↔ _
  rcases hafter.remembered.rowOrGone with hrow | ⟨hgone, hempty⟩
  · -- the row is there, so the forget goes through
    have hnot : ¬ Orphaned memory.memoryId before :=
      fun horphan => nomatch horphan.1.symm.trans hrow
    refine iff_of_true ?_ hnot
    have hreturns : r = .ok () :=
      (forget_returns hhealthy hvalid hscope hrow (hfor.trans hsubject.symm)).run hran.run
        hran.steps
    cases hends with
    | unchanged _ hraised =>
      obtain ⟨e, he⟩ := hraised
      exact nomatch hreturns.symm.trans he
    | content _ _ _ _ hraised =>
      obtain ⟨e, he⟩ := hraised
      exact nomatch hreturns.symm.trans he
    | @row row' hrow' hcontent hledger _ _ htuples =>
      obtain rfl := Option.some.inj (hrow'.symm.trans hrow)
      refine ⟨hafter.remembered.noContent_pop hcontent, ?_, ?_⟩
      · rw [hledger, Dict.get_pop, if_pos rfl]
      · rcases htuples with ⟨-, hnone⟩ | ⟨o, e, -, he, -⟩
        · exact hnone
        · exact nomatch hreturns.symm.trans he
  · -- the row is gone, and the forget is denied
    have hsame : SameStores before s' := by
      cases hends with
      | unchanged hstores _ => exact hstores
      | content hrow => exact nomatch hgone.symm.trans hrow
      | row hrow => exact nomatch hgone.symm.trans hrow
    have hclean : Clean memory.memoryId s' ↔
        ∀ t ∈ before.tuples, ¬ ProvenanceOf memory.memoryId t := by
      refine ⟨fun hclean t ht => hclean.tuples t (hsame.tuples.symm ▸ ht), fun hnone =>
        ⟨?_, ?_, ?_⟩⟩
      · intro key v hget hv
        rw [hsame.content] at hget
        have hkey := hafter.remembered.content key v hget hv
        subst hkey
        exact nomatch hempty.symm.trans hget
      · rw [hsame.ledger, hgone]
      · exact fun t ht => hnone t (hsame.tuples ▸ ht)
    rw [hclean]
    unfold Orphaned
    rw [and_iff_right hgone]
    push Not
    exact Iff.rfl

end History

/-! ### A forget that can never be completed -/

section Witness

/-- Collaborators that refuse with no effect fail in part. -/
theorem failsPartly_of_refusing (w : Refusing) : FailsPartly w.conduct := by
  rintro o e s s' ⟨-, rfl⟩
  refine ⟨s, ?_, rfl⟩
  have hwrite : s = s.write [] := by
    have hset : (FrozenSet.ofList []).union s.tuples = s.tuples := FrozenSet.ext fun t => by simp
    rw [MemoryState.write, hset]
  have hdelete : s = s.delete [] := by
    have hset : s.tuples.sdiff (.ofList []) = s.tuples := FrozenSet.ext fun t => by simp
    rw [MemoryState.delete, hset]
  cases o with
  | writeTuples ts => exact ⟨[], List.nil_subset _, hwrite⟩
  | deleteTuples ts => exact ⟨[], List.nil_subset _, hdelete⟩
  | store memoryId content space => exact .inl rfl
  | put record => exact .inl rfl
  | deleteContent ref space => exact .inl rfl
  | deleteRow memoryId => exact .inl rfl
  | record event => exact .inl rfl
  | _ => exact rfl

/-- A search that finds everything finds what is stored. -/
theorem findsStored_of_everything {w : Refusing} (h : w.found = everything) :
    FindsStored w.conduct := by
  obtain ⟨engine, refuses, found⟩ := w
  obtain rfl : found = everything := h
  rintro s space candidates rfl candidate hcandidate ref href
  obtain ⟨entry, hentry, rfl⟩ := List.mem_map.mp hcandidate
  obtain ⟨hmem, hspace⟩ := List.mem_filter.mp hentry
  obtain rfl : ref = entry.1.2 := List.mem_singleton.mp href
  obtain rfl : entry.1.1 = space := of_decide_eq_true hspace
  exact Option.isSome_iff_exists.mpr ⟨entry.2, Dict.mem_entries.mp hmem⟩

/-- Nothing is refused. -/
def willing : Refusing := obliging fun _ _ => none

theorem willing_healthy : Healthy willing.conduct where
  raises _ _ _ _ h := nomatch h.1
  permits _ _ _ h := ⟨_, h, fun _ hx => Dict.get_fromKeys.trans (if_pos hx)⟩
  core _ _ h := ⟨_, h⟩
  journal _ _ h := h

/-- A call is refused once, the first time it is made. -/
def refusingOnce (refused : MemoryOp → Bool) : Refusing :=
  obliging fun s o => if s.failed.isEmpty && refused o then some outage else none

/-- Whether tuples are to be deleted. -/
def deletesTuples : MemoryOp → Bool
  | .deleteTuples _ => true
  | _ => false

/-- Whether a row is to be deleted. -/
def deletesRow : MemoryOp → Bool
  | .deleteRow _ => true
  | _ => false

/-- The turns of a memory that is remembered, forgotten, and forgotten again. -/
structure Forgotten (w : Refusing) where
  first : notebook.calls.Turn (memoryWorld w.conduct .empty)
  second : notebook.calls.Turn (memoryWorld w.conduct .empty)
  third : notebook.calls.Turn (memoryWorld willing.conduct .empty)

/-- Play them. -/
def forgotten (w : Refusing) : Option (Forgotten w) := do
  let first ← (w.driver .empty).turn (V := notebook.calls)
    (.remember aliceKeeper (.ofString "note") ["document:1"] false) MemoryState.empty
  let second ← (w.driver .empty).turn (V := notebook.calls)
    (.forget aliceKeeper "memory:0" false) first.after
  let third ← (willing.driver .empty).turn (V := notebook.calls)
    (.forget aliceKeeper "memory:0" false) second.after
  return ⟨first, second, third⟩

/-- The turns are as the law asks for. -/
structure Forgotten.Lawful {w : Refusing} (f : Forgotten w) (memory : Memory) : Prop where
  session : Session notebook.calls (memoryWorld w.conduct .empty) ([] ++ f.first :: [f.second])
    f.second.after
  kept : remembered f.first = some memory
  later : ∀ t ∈ [f.second], MemoryCall.ForgetsOrReads memory.memoryId t.call
  ran : f.third.Ran
  before : f.third.before = f.second.after
  call : f.third.call = .forget aliceKeeper memory.memoryId false
  subject : aliceKeeper.subject = memory.writtenFor
  scope : Decider.scopeCovers aliceKeeper .remember memory.memoryId = true

/-- The memory that alice's agent remembers. -/
def aliceMemory : Memory :=
  ⟨"memory:0", .ofString "note", ["document:1"], "user:alice", "agent:a", 0⟩

theorem lawful_of_forgotten {w : Refusing} {f : Forgotten w} (h : forgotten w = some f)
    (hmemory : remembered f.first = some aliceMemory) : f.Lawful aliceMemory := by
  obtain ⟨first, hfirst, hrest⟩ := Option.bind_eq_some_iff.mp h
  obtain ⟨second, hsecond, hrest⟩ := Option.bind_eq_some_iff.mp hrest
  obtain ⟨third, hthird, hf⟩ := Option.bind_eq_some_iff.mp hrest
  obtain rfl := Option.some.inj hf
  obtain ⟨hran₁, hbefore₁, -⟩ := Driver.sound_turn hfirst
  obtain ⟨hran₂, hbefore₂, hcall₂⟩ := Driver.sound_turn hsecond
  obtain ⟨hran₃, hbefore₃, hcall₃⟩ := Driver.sound_turn hthird
  have hstart : Session notebook.calls (memoryWorld w.conduct .empty) [] first.before := by
    rw [hbefore₁]
    exact .start
  have hone : Session notebook.calls (memoryWorld w.conduct .empty)
      ([] ++ [first]) second.before := by
    rw [hbefore₂]
    exact .turn hstart hran₁
  refine ⟨.turn hone hran₂, hmemory, fun t ht => ?_, hran₃,
    hbefore₃, hcall₃, rfl, by decide +kernel⟩
  rw [List.mem_singleton.mp ht, hcall₂]
  exact rfl

/-- **It can fail.** The tuples of the first forget cannot be deleted, and the row is gone;
so the second one is denied, and the tuples stay. -/
theorem orphans_never_forgotten : ∃ f : Forgotten (refusingOnce deletesTuples),
    f.Lawful aliceMemory ∧ FailsPartly (refusingOnce deletesTuples).conduct ∧
      FindsStored (refusingOnce deletesTuples).conduct ∧ Healthy willing.conduct ∧
      ¬ Clean "memory:0" f.third.after := by
  have hplay : (forgotten (refusingOnce deletesTuples)).any (fun f =>
      decide (remembered f.first = some aliceMemory) &&
        decide ((⟨"agent:a", "writer", "memory:0"⟩ : Tuple) ∈ MemoryState.tuples f.third.after)) =
      true := by
    decide +kernel
  obtain ⟨f, hf, hends⟩ := (Option.any_eq_true _ _).mp hplay
  obtain ⟨hmemory, hwriter⟩ := Bool.and_eq_true_iff.mp hends
  refine ⟨f, lawful_of_forgotten hf (of_decide_eq_true hmemory), failsPartly_of_refusing _,
    findsStored_of_everything rfl, willing_healthy, fun hclean => ?_⟩
  exact hclean.tuples _ (of_decide_eq_true hwriter) ⟨rfl, .inr rfl⟩

/-- A forget that was interrupted at the row can be completed. -/
theorem forget_completes_row : ∃ f : Forgotten (refusingOnce deletesRow),
    f.Lawful aliceMemory ∧ (MemoryState.failed f.second.after).length = 1 ∧
      NeverReturned "memory:0" [f.second] ∧ Clean "memory:0" f.third.after := by
  have hplay : (forgotten (refusingOnce deletesRow)).any (fun f =>
      decide (remembered f.first = some aliceMemory) &&
        decide ((MemoryState.failed f.second.after).length = 1 ∧
          ((MemoryState.ledger f.second.after).get "memory:0").isSome)) = true := by
    decide +kernel
  obtain ⟨f, hf, hends⟩ := (Option.any_eq_true _ _).mp hplay
  obtain ⟨hmemory, hsecond⟩ := Bool.and_eq_true_iff.mp hends
  obtain ⟨hfailed, hrow⟩ := of_decide_eq_true hsecond
  have hlawful := lawful_of_forgotten hf (of_decide_eq_true hmemory)
  refine ⟨f, hlawful, hfailed, (forget_completes_iff (failsPartly_of_refusing _)
    (findsStored_of_everything rfl) hlawful.session hlawful.kept hlawful.later willing_healthy
    hlawful.ran hlawful.before hlawful.call hlawful.subject hlawful.scope).mpr fun t ht hcut => ?_⟩
  rw [List.mem_singleton.mp ht] at hcut
  obtain ⟨⟨hgone, -⟩, -⟩ := hcut
  have hnone : (MemoryState.ledger f.second.after).get "memory:0" = none := hgone
  rw [hnone] at hrow
  exact nomatch hrow

end Witness

end HeadOfContext
