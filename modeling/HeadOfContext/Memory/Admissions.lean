import HeadOfContext.Core.DeciderSafety
import HeadOfContext.Framework.Pairs
import HeadOfContext.Memory.Service

/-!
# What the memory service was answered

A run of `recall`, `remember` or `forget` that returns, read off its calls. Each memory that is
recalled comes from a candidate of the search, and the ledger, the tuples, the token and the
decider have been asked about that candidate (`recall_run_ok`); what is written or deleted was
permitted (`remember_run_ok`, `forget_run_ok`). Nothing is assumed of the collaborators, nor of
what happens to their stores between two calls.
-/

namespace HeadOfContext

open Effects

namespace Remembering

variable {α : Type} {tr : Trace MemorySig}

/-- A call of the decider that was answered, as the memory service sees it. -/
def ofCore (e : Event CoreSig) : Event MemorySig := ⟨.core e.op, .ok e.res⟩

/-- The call of the decider that this is. -/
def coreOf : Event MemorySig → Option (Event CoreSig)
  | ⟨.core o, .ok r⟩ => some ⟨o, r⟩
  | _ => none

/-- The calls of the decider that were answered. -/
def coreTrace (tr : Trace MemorySig) : Trace CoreSig := tr.filterMap coreOf

theorem mem_coreTrace {e : Event CoreSig} (h : ofCore e ∈ tr) : e ∈ coreTrace tr :=
  List.mem_filterMap.mpr ⟨_, h, rfl⟩

/-- A guarded program that returns was answered throughout. -/
theorem run_guarded_ok {p : Prog CoreSig α} {a : α}
    (h : Prog.Run (p.guarded decider) tr (.ok a)) :
    ∃ tr₀ : Trace CoreSig, tr = tr₀.map ofCore ∧ Prog.Run p tr₀ a := by
  -- the induction is on the program; a call that raised would have ended it with an error
  induction p generalizing tr with
  | ret b =>
    obtain ⟨rfl, heq⟩ := Prog.run_ret.mp h
    obtain rfl := Except.ok.inj heq
    exact ⟨[], rfl, .nil _⟩
  | call o k ih =>
    rw [Prog.guarded] at h
    obtain ⟨r, tr', rfl, h'⟩ := Prog.run_call.mp h
    cases r with
    | error name =>
      obtain ⟨-, heq⟩ := Prog.run_ret.mp h'
      cases heq
    | ok answer =>
      obtain ⟨tr₀, rfl, hrun⟩ := ih answer h'
      exact ⟨⟨o, answer⟩ :: tr₀, rfl, .cons hrun⟩

/-- A method of the decider that returns. -/
theorem run_core_ok {p : Core α} {a : α} (h : Raises.Run (core p) tr (.ok a)) :
    ∃ tr₀ : Trace CoreSig, tr = tr₀.map ofCore ∧ Raises.Run p tr₀ (.ok a) := by
  obtain ⟨r, tr₁, tr₂, rfl, hguarded, hret⟩ := Prog.run_bind.mp h
  obtain ⟨rfl, hr⟩ := Prog.run_ret.mp hret
  -- outside, the name of an exception of the collaborators; inside, an error of the decider
  cases r with
  | error name => cases hr
  | ok x =>
    cases x with
    | error e => cases hr
    | ok b =>
      obtain rfl := Except.ok.inj hr
      obtain ⟨tr₀, rfl, hrun⟩ := run_guarded_ok hguarded
      exact ⟨tr₀, List.append_nil _, hrun⟩

end Remembering

/-- The call asks the token. -/
def MemoryOp.AsksToken : MemoryOp → Prop
  | .permits _ _ => True
  | _ => False

/-- No call of the decider asks the token. -/
theorem Remembering.coreTrace_mono {tr tr' : Trace MemorySig}
    (hsub : ∀ e ∈ tr, ¬ e.op.AsksToken → e ∈ tr') : coreTrace tr ⊆ coreTrace tr' := by
  intro e he
  obtain ⟨⟨o, r⟩, hmem, hcore⟩ := List.mem_filterMap.mp he
  cases o with
  | core o => exact List.mem_filterMap.mpr ⟨_, hsub _ hmem id, hcore⟩
  | _ => cases hcore

/-- The token's checks were asked about some resources, and permit this one. -/
def PermittedBy (tr : Trace MemorySig) (operation : Kind) (resource : String) : Prop :=
  ∃ resources answers, ⟨.permits operation resources, .ok answers⟩ ∈ tr ∧
    answers.get resource = some true

namespace MemoryService

variable {svc : MemoryService} {chain : PrincipalChain} {hasPermits : Bool}

/-- **What a memory that is returned rests on**, by the calls of the run: the rows of the ledger,
one for each reference of its candidate, and what was asked about them. -/
structure RestsOn (svc : MemoryService) (chain : PrincipalChain) (tr : Trace MemorySig)
    (candidate : Candidate) (rows : List MemoryRecord) (memory : Memory) : Prop where
  found : List.Forall₂ (fun ref row =>
    (⟨.getByBackendRef svc.backend ref, .ok (some row)⟩ : Event MemorySig) ∈ tr)
    candidate.backendRefs rows
  returned : ∃ primary, rows.head? = some primary ∧ memory = ⟨primary.memoryId, candidate.content,
    memory.derivedFrom, primary.writtenFor, primary.writtenBy, primary.createdAt⟩
  /-- Nothing that the ledger or the tuples name is left out of the sources. -/
  sources : ∀ row ∈ rows, (∀ x ∈ row.derivedFrom, x ∈ memory.derivedFrom) ∧
    ∃ tuples : List Tuple, ⟨.readTuples row.memoryId "derived_from", .ok tuples⟩ ∈ tr ∧
      ∀ t ∈ tuples, t.user ∈ memory.derivedFrom
  covered : ∀ row ∈ rows, Covered chain .read row.memoryId
  related : ∀ x ∈ memory.derivedFrom,
    Related (Remembering.coreTrace tr) chain.subject Action.readMemory.relation x
  /-- Without a source, it is a memory for the one that it was written for. -/
  writtenFor : memory.derivedFrom = [] → ∀ row ∈ rows, row.writtenFor = chain.subject
  journaled : ∃ event : AuditEvent, ⟨.record event, .ok ()⟩ ∈ tr ∧ event.kind = .memoryRead ∧
    event.resource = .str (.ofString memory.memoryId) ∧
    event.outcome = .str (.ofString Outcome.allow.str)

section Runs

variable {tr tr' : Trace MemorySig} {candidate : Candidate} {rows : List MemoryRecord}
  {memory : Memory}

/-- None of this is about the token. -/
theorem RestsOn.mono (h : svc.RestsOn chain tr candidate rows memory)
    (hsub : ∀ e ∈ tr, ¬ e.op.AsksToken → e ∈ tr') :
    svc.RestsOn chain tr' candidate rows memory where
  found := h.found.imp fun _ _ hmem => hsub _ hmem id
  returned := h.returned
  sources row hrow := by
    obtain ⟨hledger, tuples, hread, htuples⟩ := h.sources row hrow
    exact ⟨hledger, tuples, hsub _ hread id, htuples⟩
  covered := h.covered
  related x hx := (h.related x hx).mono (Remembering.coreTrace_mono hsub)
  writtenFor := h.writtenFor
  journaled := by
    obtain ⟨event, hrecord, hevent⟩ := h.journaled
    exact ⟨event, hsub _ hrecord id, hevent⟩

/-- The rows of a candidate, as the ledger has answered. -/
theorem lookUp_run_ok {refs : List String} {records : List (Option MemoryRecord)}
    (h : Raises.Run (svc.lookUp refs) tr (.ok records)) :
    List.Forall₂ (fun ref row =>
      (⟨.getByBackendRef svc.backend ref, .ok row⟩ : Event MemorySig) ∈ tr) refs records := by
  -- the induction is on the references, whose rows come in their order
  induction refs generalizing tr records with
  | nil =>
    obtain ⟨rfl, rfl⟩ := Raises.run_pure_ok.mp h
    exact .nil
  | cons ref rest ih =>
    obtain ⟨row, tr₁, tr₂, rfl, hget, hrest⟩ := Raises.run_bind_ok.mp h
    obtain ⟨others, tr₃, tr₄, rfl, hothers, hdone⟩ := Raises.run_bind_ok.mp hrest
    obtain ⟨rfl, rfl⟩ := Raises.run_pure_ok.mp hdone
    obtain rfl := Raises.run_invoke.mp hget
    refine .cons (List.mem_append_left _ List.mem_cons_self) ((ih hothers).imp ?_)
    intro _ _ hmem
    exact List.mem_append_right _ (List.mem_append_left _ hmem)

/-- What has been found of a row is among the sources. -/
theorem collectSources_run_ok {found found' : FrozenSet String}
    (h : Raises.Run (collectSources found rows) tr (.ok found')) :
    (∀ x ∈ found, x ∈ found') ∧ ∀ row ∈ rows, (∀ x ∈ row.derivedFrom, x ∈ found') ∧
      ∃ tuples : List Tuple, ⟨.readTuples row.memoryId "derived_from", .ok tuples⟩ ∈ tr ∧
        ∀ t ∈ tuples, t.user ∈ found' := by
  -- the induction is on the rows; what has been found stays
  induction rows generalizing found tr with
  | nil =>
    obtain ⟨-, rfl⟩ := Raises.run_pure_ok.mp h
    exact ⟨fun _ hx => hx, fun _ hrow => absurd hrow List.not_mem_nil⟩
  | cons row rest ih =>
    obtain ⟨tuples, tr₁, tr₂, rfl, hread, hrest⟩ := Raises.run_bind_ok.mp h
    obtain rfl := Raises.run_invoke.mp hread
    obtain ⟨hkeeps, hrows⟩ := ih hrest
    have hhere : ∀ x, x ∈ row.derivedFrom ∨ x ∈ tuples.map Tuple.user → x ∈ found' := by
      intro x hx
      refine hkeeps x (FrozenSet.mem_union.mpr (.inl (FrozenSet.mem_union.mpr ?_)))
      exact hx.imp FrozenSet.mem_ofList.mpr FrozenSet.mem_ofList.mpr
    refine ⟨fun x hx => hkeeps x (FrozenSet.mem_union.mpr (.inr hx)),
      List.forall_mem_cons.mpr ⟨⟨fun x hx => hhere x (.inl hx), tuples, ?_, fun t ht => ?_⟩,
        fun row' hrow' => ?_⟩⟩
    · exact List.mem_append_left _ List.mem_cons_self
    · exact hhere _ (.inr (List.mem_map_of_mem ht))
    · obtain ⟨hledger, tuples', hmem, htuples⟩ := hrows row' hrow'
      exact ⟨hledger, tuples', List.mem_append_right _ hmem, htuples⟩

/-- Where nothing is refused, everything is permitted. -/
theorem refused_run_nil {operation : Kind} {resources : List String}
    (h : Raises.Run (refused hasPermits operation resources) tr (.ok []))
    (hasks : hasPermits = true) : ∀ x ∈ resources, PermittedBy tr operation x := by
  intro x hx
  -- there is a resource to ask about, so the token is asked
  have hasked : ¬ (hasPermits = false ∨ resources = []) :=
    not_or.mpr ⟨by rw [hasks]; decide, List.ne_nil_of_mem hx⟩
  unfold refused at h
  rw [if_neg hasked] at h
  obtain ⟨answers, tr₁, tr₂, rfl, hasked, hdone⟩ := Raises.run_bind_ok.mp h
  obtain ⟨rfl, hnil⟩ := Raises.run_pure_ok.mp hdone
  obtain rfl := Raises.run_invoke.mp hasked
  refine ⟨resources, answers, List.mem_append_left _ List.mem_cons_self, ?_⟩
  -- a resource that the answers do not name counts as refused
  have hpermitted := List.filter_eq_nil_iff.mp hnil.symm x hx
  rw [decide_eq_true_eq, Bool.not_eq_false] at hpermitted
  cases hget : answers.get x with
  | none =>
    rw [hget] at hpermitted
    cases hpermitted
  | some b =>
    rw [hget] at hpermitted
    exact congrArg some hpermitted

theorem memoryEvent_run_ok {kind : EventKind} {memoryId outcome : String}
    {contentHash : Option String} {sourceCount : ℕ} {reason : Option String} {event : AuditEvent}
    (h : Raises.Run (memoryEvent kind chain memoryId outcome contentHash sourceCount reason) tr
      (.ok event)) :
    event.kind = kind ∧ event.resource = .str (.ofString memoryId) ∧
      event.outcome = .str (.ofString outcome) := by
  obtain ⟨timestamp, tr₁, tr₂, rfl, -, h₂⟩ := Raises.run_bind_ok.mp h
  obtain ⟨eventId, tr₃, tr₄, rfl, -, h₃⟩ := Raises.run_bind_ok.mp h₂
  obtain ⟨-, rfl⟩ := Raises.run_pure_ok.mp h₃
  exact ⟨rfl, rfl, rfl⟩

/-- A refusal returns no memory. -/
theorem not_run_denied {memoryId reason : String} : ¬ Raises.Run (do
    denyRead chain memoryId reason
    return none : Remembering (Option Memory)) tr (.ok (some memory)) := by
  intro h
  obtain ⟨_, tr₁, tr₂, -, -, hdone⟩ := Raises.run_bind_ok.mp h
  cases (Raises.run_pure_ok.mp hdone).2

/-- **A candidate that is admitted** is asked about in full. -/
theorem admitUnguarded_run_some
    (h : Raises.Run (svc.admitUnguarded chain candidate hasPermits) tr (.ok (some memory))) :
    ∃ rows, svc.RestsOn chain tr candidate rows memory ∧ (hasPermits = true →
      ∀ x ∈ rows.map MemoryRecord.memoryId ++ memory.derivedFrom, PermittedBy tr .read x) := by
  unfold admitUnguarded at h
  obtain ⟨records, tr₁, tr₂, rfl, hlook, h₂⟩ := Raises.run_bind_ok.mp h
  have hfound := lookUp_run_ok hlook
  split at h₂
  · exact absurd h₂ not_run_denied
  next primary others hrows =>
  split at h₂
  · exact absurd h₂ not_run_denied
  next hall =>
  -- every reference has a row
  have hforall := hfound.reduceOption hall
  rw [hrows] at hforall
  obtain ⟨sources, tr₃, tr₄, rfl, hsources, h₃⟩ := Raises.run_bind_ok.mp h₂
  obtain ⟨set, tr₃, tr₅, rfl, hcollect, hitems⟩ := Raises.run_bind_ok.mp hsources
  obtain ⟨rfl, rfl⟩ := Raises.run_pure_ok.mp hitems
  obtain ⟨-, hcollected⟩ := collectSources_run_ok hcollect
  obtain ⟨refusedRead, tr₅, tr₆, rfl, hrefused, h₄⟩ := Raises.run_bind_ok.mp h₃
  split at h₄
  · exact absurd h₄ not_run_denied
  next hnone =>
  obtain rfl : refusedRead = [] := not_not.mp hnone
  split at h₄
  · -- a memory without a source that was written for someone else
    obtain ⟨_, _, _, -, -, h₅⟩ := Raises.run_bind_ok.mp h₄
    obtain ⟨_, _, _, -, -, h₆⟩ := Raises.run_bind_ok.mp h₅
    cases (Raises.run_pure_ok.mp h₆).2
  next hwritten =>
  obtain ⟨decision, tr₇, tr₈, rfl, hdecide, h₅⟩ := Raises.run_bind_ok.mp h₄
  obtain ⟨event, tr₉, tr₁₀, rfl, hevent, h₆⟩ := Raises.run_bind_ok.mp h₅
  obtain ⟨u, tr₁₁, tr₁₂, rfl, hrecord, h₇⟩ := Raises.run_bind_ok.mp h₆
  obtain rfl := Raises.run_invoke.mp hrecord
  split at h₇
  · cases (Raises.run_pure_ok.mp h₇).2
  next hdenied =>
  obtain hallow : decision.outcome = .allow := not_not.mp hdenied
  obtain ⟨rfl, hmemory⟩ := Raises.run_pure_ok.mp h₇
  obtain rfl := Option.some.inj hmemory
  -- the decision is an ALLOW, so the scope and the engine have been asked
  obtain ⟨tr₀, rfl, hcore⟩ := Remembering.run_core_ok hdecide
  obtain ⟨hcovered, hearned⟩ := (Decider.decideAll_run hcore).allow hallow
  obtain ⟨hkind, hresource, houtcome⟩ := memoryEvent_run_ok hevent
  refine ⟨primary :: others, ⟨hforall.imp fun _ _ hmem => List.mem_append_left _ hmem,
    ⟨primary, rfl, rfl⟩, fun row hrow => ?_, fun row hrow => ?_, fun x hx => ?_,
    fun hempty row hrow => ?_, ⟨event, by simp, hkind, hresource, ?_⟩⟩, fun hasks x hx => ?_⟩
  · obtain ⟨hledger, tuples, hread, htuples⟩ := hcollected row hrow
    exact ⟨hledger, tuples, by simp [hread], htuples⟩
  · exact hcovered row.memoryId (List.mem_map_of_mem hrow)
  · refine (hearned x hx).related.mono fun e he => Remembering.mem_coreTrace ?_
    have hmem : Remembering.ofCore e ∈ tr₀.map Remembering.ofCore := List.mem_map_of_mem he
    simp only [List.mem_append]
    exact .inr (.inr (.inr (.inl hmem)))
  · by_contra hother
    exact hwritten ⟨hempty, List.any_eq_true.mpr ⟨row, hrow, decide_eq_true hother⟩⟩
  · rw [houtcome, hallow]
  · obtain ⟨resources, answers, hasked, hyes⟩ := refused_run_nil hrefused hasks x hx
    exact ⟨resources, answers, by simp [hasked], hyes⟩

theorem admitCandidate_run_some
    (h : Raises.Run (svc.admitCandidate chain candidate hasPermits) tr (.ok (some memory))) :
    ∃ rows, svc.RestsOn chain tr candidate rows memory ∧ (hasPermits = true →
      ∀ x ∈ rows.map MemoryRecord.memoryId ++ memory.derivedFrom, PermittedBy tr .read x) := by
  unfold admitCandidate at h
  obtain ⟨answer, tr₁, tr₂, rfl, hadmit, hrest⟩ := Raises.run_attempt_bind.mp h
  cases answer with
  | ok found =>
    obtain ⟨rfl, rfl⟩ := Raises.run_pure_ok.mp hrest
    rw [List.append_nil]
    exact admitUnguarded_run_some hadmit
  | error e =>
    -- trouble is journaled or raised, and returns no memory
    dsimp only at hrest
    split at hrest
    · exact absurd hrest not_run_denied
    · cases (Raises.run_raise.mp hrest).2

/-- The memory was admitted for one of the candidates. -/
def AdmittedIn (svc : MemoryService) (chain : PrincipalChain) (hasPermits : Bool)
    (tr : Trace MemorySig) (candidates : List Candidate) (memory : Memory) : Prop :=
  ∃ candidate ∈ candidates, ∃ rows, svc.RestsOn chain tr candidate rows memory ∧
    (hasPermits = true →
      ∀ x ∈ rows.map MemoryRecord.memoryId ++ memory.derivedFrom, PermittedBy tr .read x)

theorem AdmittedIn.mono {candidates candidates' : List Candidate}
    (h : svc.AdmittedIn chain hasPermits tr candidates memory) (hsub : tr ⊆ tr')
    (hcandidates : candidates ⊆ candidates') :
    svc.AdmittedIn chain hasPermits tr' candidates' memory := by
  obtain ⟨candidate, hmem, rows, hrests, hpermitted⟩ := h
  refine ⟨candidate, hcandidates hmem, rows, hrests.mono fun e he _ => hsub he,
    fun hasks x hx => ?_⟩
  obtain ⟨resources, answers, hasked, hyes⟩ := hpermitted hasks x hx
  exact ⟨resources, answers, hsub hasked, hyes⟩

/-- The loop keeps what it has, and adds what it admits, up to the limit. -/
theorem admitAll_run_ok {limit : ℤ} {candidates : List Candidate} {kept memories : List Memory}
    (h : Raises.Run (svc.admitAll chain hasPermits limit candidates kept) tr (.ok memories))
    (hkept : (kept.length : ℤ) < limit) :
    (memories.length : ℤ) ≤ limit ∧ ∀ memory ∈ memories, memory ∈ kept ∨
      svc.AdmittedIn chain hasPermits tr candidates memory := by
  -- the induction is on the candidates; before each, what is kept is below the limit
  induction candidates generalizing kept tr with
  | nil =>
    obtain ⟨rfl, rfl⟩ := Raises.run_pure_ok.mp h
    exact ⟨hkept.le, fun memory hmem => .inl hmem⟩
  | cons candidate rest ih =>
    obtain ⟨found, tr₁, tr₂, rfl, hadmit, hrest⟩ := Raises.run_bind_ok.mp h
    have hnew : ∀ memory ∈ kept ++ found.toList, memory ∈ kept ∨
        svc.AdmittedIn chain hasPermits (tr₁ ++ tr₂) (candidate :: rest) memory := by
      intro memory hmem
      rcases List.mem_append.mp hmem with hold | hfresh
      · exact .inl hold
      · obtain rfl := Option.mem_toList.mp hfresh
        obtain ⟨rows, hadmitted⟩ := admitCandidate_run_some hadmit
        have hone : svc.AdmittedIn chain hasPermits tr₁ [candidate] memory :=
          ⟨candidate, List.mem_singleton.mpr rfl, rows, hadmitted⟩
        exact .inr (hone.mono (List.subset_append_left _ _)
          (List.cons_subset_cons _ (List.nil_subset _)))
    have hlength : ((kept ++ found.toList).length : ℤ) ≤ limit := by
      have hone : found.toList.length ≤ 1 := by cases found <;> simp
      rw [List.length_append, Nat.cast_add]
      omega
    dsimp only at hrest
    split at hrest
    · -- the limit is reached, and the other candidates are not looked at
      obtain ⟨rfl, rfl⟩ := Raises.run_pure_ok.mp hrest
      exact ⟨hlength, hnew⟩
    · next hmore =>
      obtain ⟨hle, hall⟩ := ih hrest (not_le.mp hmore)
      refine ⟨hle, fun memory hmem => ?_⟩
      rcases hall memory hmem with hold | hadmitted
      · exact hnew memory hold
      · exact .inr (hadmitted.mono (List.subset_append_right _ _) (List.subset_cons_self _ _))

/-- **The memories of a recall** are no more than it was asked for, and each was admitted for a
candidate that the search has found. -/
theorem recall_run_ok {query : PyStr} {limit : ℤ} {memories : List Memory}
    (h : Raises.Run (svc.recall chain query limit hasPermits) tr (.ok memories)) :
    (memories.length : ℤ) ≤ max 1 (min limit MAX_LIMIT) ∧ ∀ memory ∈ memories, ∃ candidates,
      ⟨.search query svc.space (max 1 (min limit MAX_LIMIT)), .ok candidates⟩ ∈ tr ∧
        svc.AdmittedIn chain hasPermits tr candidates memory := by
  unfold MemoryService.recall at h
  obtain ⟨answer, tr₁, tr₂, rfl, hsearch, hrest⟩ := Raises.run_attempt_bind.mp h
  obtain rfl := Raises.run_invoke.mp hsearch
  have hlimit : (1 : ℤ) ≤ max 1 (min limit MAX_LIMIT) := le_max_left _ _
  cases answer with
  | error e =>
    -- a search that fails finds nothing
    dsimp only at hrest
    split at hrest
    · obtain ⟨_, _, _, -, -, hdone⟩ := Raises.run_bind_ok.mp hrest
      obtain ⟨-, rfl⟩ := Raises.run_pure_ok.mp hdone
      exact ⟨by simp, fun _ hmem => absurd hmem List.not_mem_nil⟩
    · cases (Raises.run_raise.mp hrest).2
  | ok candidates =>
    obtain ⟨hlength, hall⟩ := admitAll_run_ok hrest (Int.lt_of_lt_of_le Int.zero_lt_one hlimit)
    refine ⟨hlength, fun memory hmem => ⟨candidates, ?_, ?_⟩⟩
    · exact List.mem_append_left _ List.mem_cons_self
    · rcases hall memory hmem with hold | hadmitted
      · exact absurd hold List.not_mem_nil
      · exact hadmitted.mono (List.subset_append_right _ _) (List.Subset.refl _)

/-! ### Writing and deleting -/

/-- An error that is handed on returns nothing. -/
theorem not_run_undo {α : Type} {memoryId : String} {provenance : List Tuple}
    {backendRef : Option String} {e : Thrown} {a : α} :
    ¬ Raises.Run (svc.undo memoryId provenance backendRef e : Remembering α) tr (.ok a) := by
  intro h
  unfold undo at h
  split at h
  · obtain ⟨_, _, _, -, -, hraise⟩ := Raises.run_bind_ok.mp h
    cases (Raises.run_raise.mp hraise).2
  · cases (Raises.run_raise.mp h).2

/-- **What a write has done**, by the calls of the run: the tuples, the content, the row of the
ledger and the entry of the journal. -/
structure Written (svc : MemoryService) (chain : PrincipalChain) (tr : Trace MemorySig)
    (content : PyStr) (sources : List String) (memory : Memory) : Prop where
  returned : memory = ⟨memory.memoryId, content, sources, chain.subject, chain.actor,
    memory.createdAt⟩
  tuples : ⟨.writeTuples ((sources.map fun d => ⟨d, "derived_from", memory.memoryId⟩) ++
    [⟨chain.actor, "writer", memory.memoryId⟩]), .ok ()⟩ ∈ tr
  kept : ∃ hash ref, ⟨.store memory.memoryId content svc.space, .ok ref⟩ ∈ tr ∧
    ⟨.put ⟨memory.memoryId, chain.subject, chain.actor, sources, hash, svc.backend, ref,
      memory.createdAt⟩, .ok ()⟩ ∈ tr
  journaled : ∃ event : AuditEvent, ⟨.record event, .ok ()⟩ ∈ tr ∧ event.kind = .memoryWritten ∧
    event.resource = .str (.ofString memory.memoryId) ∧
    event.outcome = .str (.ofString "written")

theorem Written.mono {content : PyStr} {sources : List String}
    (h : svc.Written chain tr content sources memory)
    (hsub : ∀ e ∈ tr, ¬ e.op.AsksToken → e ∈ tr') :
    svc.Written chain tr' content sources memory where
  returned := h.returned
  tuples := hsub _ h.tuples id
  kept := by
    obtain ⟨hash, ref, hstore, hput⟩ := h.kept
    exact ⟨hash, ref, hsub _ hstore id, hsub _ hput id⟩
  journaled := by
    obtain ⟨event, hrecord, hevent⟩ := h.journaled
    exact ⟨event, hsub _ hrecord id, hevent⟩

theorem write_run_ok {content : PyStr} {sources : List String} {hash memoryId : String}
    (h : Raises.Run (svc.write chain content sources hash memoryId) tr (.ok memory)) :
    memory.memoryId = memoryId ∧ svc.Written chain tr content sources memory := by
  unfold write at h
  obtain ⟨now, tr₁, tr₂, rfl, -, h₂⟩ := Raises.run_bind_ok.mp h
  obtain ⟨written, tr₃, tr₄, rfl, hwritten, h₃⟩ := Raises.run_attempt_bind.mp h₂
  obtain rfl := Raises.run_invoke.mp hwritten
  cases written with
  | error e =>
    -- nothing is undone where the first write fails; the error is raised
    dsimp only at h₃
    split at h₃
    · cases (Raises.run_raise.mp h₃).2
    · cases (Raises.run_raise.mp h₃).2
  | ok u =>
    obtain ⟨stored, tr₅, tr₆, rfl, hstored, h₄⟩ := Raises.run_attempt_bind.mp h₃
    obtain rfl := Raises.run_invoke.mp hstored
    cases stored with
    -- from here on a failure is handed to `undo`, which raises it again
    | error e => exact absurd h₄ not_run_undo
    | ok ref =>
      obtain ⟨put, tr₇, tr₈, rfl, hput, h₅⟩ := Raises.run_attempt_bind.mp h₄
      obtain rfl := Raises.run_invoke.mp hput
      cases put with
      | error e => exact absurd h₅ not_run_undo
      | ok u =>
        obtain ⟨event, tr₉, tr₁₀, rfl, hevent, h₆⟩ := Raises.run_bind_ok.mp h₅
        obtain ⟨u, tr₁₁, tr₁₂, rfl, hrecord, h₇⟩ := Raises.run_bind_ok.mp h₆
        obtain rfl := Raises.run_invoke.mp hrecord
        obtain ⟨rfl, rfl⟩ := Raises.run_pure_ok.mp h₇
        exact ⟨rfl, rfl, by simp, ⟨hash, ref, by simp, by simp⟩,
          ⟨event, by simp, memoryEvent_run_ok hevent⟩⟩

/-- What a write is about: its sources, or the memory itself if it has none. -/
def targetsOf (sources : List String) (memoryId : String) : List String :=
  if sources = [] then [memoryId] else sources

/-- **A memory that is remembered** was permitted by the token, covered by the scope and, by its
sources, related to the subject. -/
theorem remember_run_ok {content : PyStr} {derivedFrom : List String}
    (h : Raises.Run (svc.remember chain content derivedFrom hasPermits) tr (.ok memory)) :
    svc.Written chain tr content (dedupe derivedFrom) memory ∧
      (∀ x ∈ targetsOf (dedupe derivedFrom) memory.memoryId, Covered chain .remember x) ∧
      (∀ x ∈ dedupe derivedFrom,
        Related (Remembering.coreTrace tr) chain.subject Action.remember.relation x) ∧
      (hasPermits = true → ∀ x ∈ targetsOf (dedupe derivedFrom) memory.memoryId,
        PermittedBy tr .remember x) := by
  unfold remember at h
  obtain ⟨_, tr₁, tr₂, rfl, -, h₂⟩ := Raises.run_bind_ok.mp h
  obtain ⟨hex, tr₃, tr₄, rfl, -, h₃⟩ := Raises.run_bind_ok.mp h₂
  obtain ⟨refused, tr₅, tr₆, rfl, hrefused, h₄⟩ := Raises.run_bind_ok.mp h₃
  split at h₄
  · -- a write that the token refuses is journaled, and raises
    obtain ⟨_, _, _, -, -, h₅⟩ := Raises.run_bind_ok.mp h₄
    obtain ⟨_, _, _, -, -, h₆⟩ := Raises.run_bind_ok.mp h₅
    obtain ⟨_, _, _, -, -, h₇⟩ := Raises.run_bind_ok.mp h₆
    cases (Raises.run_raise.mp h₇).2
  next hnone =>
  obtain rfl : refused = [] := not_not.mp hnone
  obtain ⟨hash, tr₇, tr₈, rfl, -, h₅⟩ := Raises.run_bind_ok.mp h₄
  obtain ⟨decision, tr₉, tr₁₀, rfl, hdecide, h₆⟩ := Raises.run_bind_ok.mp h₅
  split at h₆
  · cases (Raises.run_raise.mp h₆).2
  next hdenied =>
  have hallow : decision.outcome = .allow := not_not.mp hdenied
  obtain ⟨tr₀, rfl, hcore⟩ := Remembering.run_core_ok hdecide
  obtain ⟨hcovered, hearned⟩ := (Decider.decideAll_run hcore).allow hallow
  obtain ⟨hid, hwritten⟩ := write_run_ok h₆
  refine ⟨hwritten.mono fun e he _ => ?_, ?_, fun x hx => ?_, fun hasks x hx => ?_⟩
  · -- the writes are the last part of the run
    simp only [List.mem_append]
    exact .inr (.inr (.inr (.inr (.inr he))))
  · rw [hid]
    exact hcovered
  · refine (hearned x hx).related.mono fun e he => Remembering.mem_coreTrace ?_
    have hmem : Remembering.ofCore e ∈ tr₀.map Remembering.ofCore := List.mem_map_of_mem he
    simp only [List.mem_append]
    exact .inr (.inr (.inr (.inr (.inl hmem))))
  · rw [hid] at hx
    obtain ⟨resources, answers, hasked, hyes⟩ := refused_run_nil hrefused hasks x hx
    exact ⟨resources, answers, by simp [hasked], hyes⟩

/-- **What a deletion has done**, by the calls of the run: the row that the ledger has was written
for the subject, and it, its content and its tuples were deleted. -/
structure Forgotten (svc : MemoryService) (chain : PrincipalChain) (tr : Trace MemorySig)
    (memoryId : String) : Prop where
  own : ∃ record : MemoryRecord, ⟨.get memoryId, .ok (some record)⟩ ∈ tr ∧
    record.writtenFor = chain.subject ∧
    ⟨.deleteContent record.backendRef svc.space, .ok ()⟩ ∈ tr
  row : ⟨.deleteRow memoryId, .ok ()⟩ ∈ tr
  tuples : ∃ derived writers, ⟨.readTuples memoryId "derived_from", .ok derived⟩ ∈ tr ∧
    ⟨.readTuples memoryId "writer", .ok writers⟩ ∈ tr ∧
    ⟨.deleteTuples (derived ++ writers), .ok ()⟩ ∈ tr

theorem Forgotten.mono {memoryId : String} (h : svc.Forgotten chain tr memoryId)
    (hsub : ∀ e ∈ tr, ¬ e.op.AsksToken → e ∈ tr') : svc.Forgotten chain tr' memoryId where
  own := by
    obtain ⟨record, hget, hown, hdelete⟩ := h.own
    exact ⟨record, hsub _ hget id, hown, hsub _ hdelete id⟩
  row := hsub _ h.row id
  tuples := by
    obtain ⟨derived, writers, hderived, hwriters, hdelete⟩ := h.tuples
    exact ⟨derived, writers, hsub _ hderived id, hsub _ hwriters id, hsub _ hdelete id⟩

/-- **A memory that is forgotten** was the subject's own, and the token and the scope let it be
deleted. -/
theorem forget_run_ok {memoryId : String} {u : Unit}
    (h : Raises.Run (svc.forget chain memoryId hasPermits) tr (.ok u)) :
    svc.Forgotten chain tr memoryId ∧ Covered chain .remember memoryId ∧
      (hasPermits = true → PermittedBy tr .remember memoryId) := by
  unfold forget at h
  obtain ⟨_, tr₁, tr₂, rfl, -, h₂⟩ := Raises.run_bind_ok.mp h
  obtain ⟨refused, tr₃, tr₄, rfl, hrefused, h₃⟩ := Raises.run_bind_ok.mp h₂
  split at h₃
  · obtain ⟨_, _, _, -, -, h₄⟩ := Raises.run_bind_ok.mp h₃
    cases (Raises.run_raise.mp h₄).2
  next hnone =>
  obtain rfl : refused = [] := not_not.mp hnone
  obtain ⟨found, tr₅, tr₆, rfl, hget, h₄⟩ := Raises.run_bind_ok.mp h₃
  obtain rfl := Raises.run_invoke.mp hget
  split at h₄
  · -- a memory of another subject, or none, is not deleted
    obtain ⟨_, _, _, -, -, h₅⟩ := Raises.run_bind_ok.mp h₄
    obtain ⟨_, _, _, -, -, h₆⟩ := Raises.run_bind_ok.mp h₅
    cases (Raises.run_raise.mp h₆).2
  next record hrecord =>
  obtain ⟨rfl, hown⟩ := Option.filter_eq_some_iff.mp hrecord
  obtain ⟨decision, tr₇, tr₈, rfl, hdecide, h₅⟩ := Raises.run_bind_ok.mp h₄
  split at h₅
  · cases (Raises.run_raise.mp h₅).2
  next hdenied =>
  have hallow : decision.outcome = .allow := not_not.mp hdenied
  obtain ⟨tr₀, rfl, hcore⟩ := Remembering.run_core_ok hdecide
  obtain ⟨hcovered, -⟩ := (Decider.decideAll_run hcore).allow hallow
  -- the content, the row, and the tuples, in this order
  obtain ⟨u₁, tr₉, tr₁₀, rfl, hcontent, h₆⟩ := Raises.run_bind_ok.mp h₅
  obtain rfl := Raises.run_invoke.mp hcontent
  obtain ⟨u₂, tr₁₁, tr₁₂, rfl, hrow, h₇⟩ := Raises.run_bind_ok.mp h₆
  obtain rfl := Raises.run_invoke.mp hrow
  obtain ⟨derived, tr₁₃, tr₁₄, rfl, hderived, h₈⟩ := Raises.run_bind_ok.mp h₇
  obtain rfl := Raises.run_invoke.mp hderived
  obtain ⟨writers, tr₁₅, tr₁₆, rfl, hwriters, h₉⟩ := Raises.run_bind_ok.mp h₈
  obtain rfl := Raises.run_invoke.mp hwriters
  obtain rfl := Raises.run_invoke.mp h₉
  refine ⟨⟨⟨record, by simp, of_decide_eq_true hown, by simp⟩, by simp,
    ⟨derived, writers, by simp, by simp, by simp⟩⟩,
    hcovered memoryId (List.mem_singleton.mpr rfl), fun hasks => ?_⟩
  obtain ⟨resources, answers, hasked, hyes⟩ :=
    refused_run_nil hrefused hasks memoryId (List.mem_singleton.mpr rfl)
  exact ⟨resources, answers, by simp [hasked], hyes⟩

end Runs

end MemoryService

end HeadOfContext
