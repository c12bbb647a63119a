import HeadOfContext.Core.FixedEngine

/-!
# Batched decisions

`decide_each` asks the engine in chunks, about the positions that the scope covers, and puts the
answers back by position. With an engine that answers by a fixed function this changes nothing:
each position gets what `decide` says of its resource alone (`batched_equals_single`). Some
batches may fail; then exactly the positions of their chunks are denied, for the reason of the
failure.

The invariant of the outer loop is what it has put back so far: the positions excluded by the
scope, and the chunks that were asked, each with its answer (`run_judgeChunks`). No position is
there twice (`nodup_keys`), so that looking one up finds its own chunk.
-/

namespace HeadOfContext

open Effects Raises

/-! ### Failing batches -/

/-- What `_batch` makes of an answer to a question about that many resources: the reason of the
denial, or none where the answer is used. -/
def batchFailure (asked : ℕ) : Except Exn (List Bool) → Option String
  | .error (.hoc exc) => some exc.reason
  | .error (.other _) => some "engine_error"
  | .ok related => if related.length ≠ asked then some "engine_error" else none

/-- The reason of a failed batch. -/
def failureOf : Event CoreSig → Option String
  | ⟨.batchCheck _ items, answer⟩ => batchFailure items.length answer
  | _ => none

/-- The answers of `Gives`, except that a batch may fail. -/
def FixedAnswers.GivesOrFails (w : FixedAnswers) (e : Event CoreSig) : Prop :=
  w.Gives e ∨ (isBatchCheck e = true ∧ failureOf e ≠ none)

theorem FixedAnswers.Gives.of_givesOrFails {w : FixedAnswers} {e : Event CoreSig}
    (h : w.GivesOrFails e) (he : failureOf e = none) : w.Gives e :=
  h.resolve_right fun hfails => hfails.2 he

/-- The call is no batch. -/
def SingleCall (o : CoreOp) : Prop := ∀ r, isBatchCheck ⟨o, r⟩ = false

theorem filter_isBatchCheck_eq_nil {α : Type} {p : Core α} {tr : Trace CoreSig} {x : Except Exn α}
    (hcalls : Calls SingleCall p) (hrun : Run p tr x) : tr.filter isBatchCheck = [] := by
  refine List.filter_eq_nil_iff.mpr fun e he => ?_
  rw [hcalls.of_run hrun he e.res]
  exact Bool.false_ne_true

/-- What is known under `Gives` is known where batches may fail, of a program without batches. -/
theorem Under.single {w : FixedAnswers} {α : Type} {p : Core α} {Q : Except Exn α → Prop}
    (hp : Under w.Gives Q p) (hcalls : Calls SingleCall p) : Under w.GivesOrFails Q p := by
  refine hp.of_calls hcalls fun o r ho hanswer => hanswer.resolve_right fun hfails => ?_
  rw [ho r] at hfails
  exact Bool.false_ne_true hfails.1

namespace Decider

variable {w : FixedAnswers} {D : Decider} {chain : PrincipalChain} {action : Action}
  {args : Args} {context : DecisionContext} {targets : List String}

/-! ### The programs without batches -/

theorem calls_policyVerdict (resource : String) :
    Calls SingleCall (D.policyVerdict chain action resource args context) := by
  rw [policyVerdict]
  by_cases hpolicy : D.hasPolicy = true
  · rw [if_pos hpolicy]
    refine Calls.bind (Calls.attempt (calls_invoke fun r => rfl)) fun answer => ?_
    cases answer with
    | error exc => exact calls_pure _
    | ok verdict =>
      change Calls _ (if verdict.outcome = .allow then _ else _)
      split <;> exact calls_pure _
  · rw [if_neg hpolicy]
    exact calls_pure _

theorem calls_judgeItem (item : String) (failure : Option String) (related : Option Bool)
    (latencyMs : PyFloat) :
    Calls SingleCall (D.judgeItem chain action item args context failure related latencyMs) := by
  cases failure with
  | some reason => exact calls_pure _
  | none =>
    change Calls _ (if related ≠ some true then _ else _)
    split
    · exact calls_pure _
    · exact (calls_policyVerdict item).bind fun _ => calls_pure _

theorem calls_judgeChunk (failure : Option String) (related : List Bool) (latencyMs : PyFloat)
    (chunk : List ℕ) : ∀ (position : ℕ) (outcomes : Outcomes),
      Calls SingleCall (D.judgeChunk chain action targets args context failure related latencyMs
        position chunk outcomes) := by
  induction chunk with
  | nil => exact fun _ _ => calls_pure _
  | cons index chunk ih =>
    intro position outcomes
    exact (calls_judgeItem _ _ _ _).bind fun _ => ih _ _

theorem calls_conclude (judged : Judged) (resource : String) (timestamp : ℤ)
    (resources : List String) (callArgs : Option Args) (audited : Bool) :
    Calls SingleCall
      (D.conclude judged chain action resource timestamp resources callArgs audited) := by
  rw [conclude]
  refine Calls.bind (calls_lift_invoke fun r => rfl) fun decisionId => ?_
  change Calls _ (if audited = true then _ else _)
  split
  · refine Calls.bind (calls_lift_invoke fun r => rfl) fun eventId => ?_
    exact Calls.bind (calls_invoke fun r => rfl) fun _ => calls_pure _
  · exact calls_pure _

theorem calls_concludeEach (outcomes : Outcomes) (now : ℤ) (callArgs : Option Args)
    (auditEach : Bool) (rest : List String) : ∀ index : ℕ,
      Calls SingleCall (D.concludeEach chain action outcomes now callArgs auditEach index
        rest) := by
  induction rest with
  | nil => exact fun _ => calls_pure _
  | cons item rest ih =>
    intro index
    rw [concludeEach]
    cases outcomes.lookup index with
    | none => exact calls_raise _
    | some judged =>
      exact (calls_conclude _ _ _ _ _ _).bind fun _ => (ih _).bind fun _ => calls_pure _

/-! ### One chunk -/

/-- The judgement of a position, given what its batch failed with, if it did. -/
def verdictIn (w : FixedAnswers) (D : Decider) (chain : PrincipalChain) (action : Action)
    (targets : List String) (args : Args) (context : DecisionContext) (failure : Option String)
    (i : ℕ) : Verdict :=
  match failure with
  | some reason => ⟨.deny, reason⟩
  | none => w.judge D chain action (targets.getD i "") args context

/-- The judgements of the outcomes, by position. -/
def verdicts (outcomes : Outcomes) : List (ℕ × Verdict) :=
  outcomes.map fun x => (x.1, x.2.verdict)

theorem under_judgeItem {i : ℕ} {failure : Option String} {related : Option Bool}
    {latencyMs : PyFloat} (hscope : scopeCovers chain action.kind (targets.getD i "") = true)
    (hrelated : failure = none → related =
      some (w.engine chain.subject action.relation (targets.getD i ""))) :
    Under w.Gives (fun x => ∃ j, x = .ok j ∧
      j.verdict = verdictIn w D chain action targets args context failure i)
      (D.judgeItem chain action (targets.getD i "") args context failure related latencyMs) := by
  cases failure with
  | some reason => exact under_pure ⟨_, rfl, rfl⟩
  | none =>
    rw [hrelated rfl, judgeItem, verdictIn, FixedAnswers.judge, if_pos hscope]
    cases w.engine chain.subject action.relation (targets.getD i "") with
    | false => exact under_pure ⟨_, rfl, rfl⟩
    | true => exact under_policyVerdict_bind _ (under_pure ⟨_, rfl, rfl⟩)

/-- **One chunk**: it adds its positions, in order, each with its judgement. -/
theorem under_judgeChunk {failure : Option String} {related : List Bool} {latencyMs : PyFloat}
    {chunk : List ℕ}
    (hscope : ∀ i ∈ chunk, scopeCovers chain action.kind (targets.getD i "") = true) :
    ∀ {position : ℕ} {outcomes : Outcomes},
      (failure = none → related.drop position = chunk.map fun i =>
        w.engine chain.subject action.relation (targets.getD i "")) →
      Under w.Gives (fun x => ∃ o, x = .ok o ∧ verdicts o = verdicts outcomes ++
          chunk.map fun i => (i, verdictIn w D chain action targets args context failure i))
        (D.judgeChunk chain action targets args context failure related latencyMs position chunk
          outcomes) := by
  induction chunk with
  | nil => exact fun _ => under_pure ⟨_, rfl, (List.append_nil _).symm⟩
  | cons index chunk ih =>
    intro position outcomes hrelated
    obtain ⟨hhead, htail⟩ := List.forall_mem_cons.mp hscope
    -- the answer at this position of the chunk is the one about this resource
    have hget : failure = none → related[position]? =
        some (w.engine chain.subject action.relation (targets.getD index "")) := by
      intro hnone
      rw [← List.head?_drop, hrelated hnone, List.map_cons, List.head?_cons]
    have hrest : failure = none → related.drop (position + 1) = chunk.map fun i =>
        w.engine chain.subject action.relation (targets.getD i "") := by
      intro hnone
      rw [← List.tail_drop, hrelated hnone, List.map_cons, List.tail_cons]
    rw [judgeChunk]
    refine (under_judgeItem hhead hget).bind_ok fun judged hjudged => (ih htail hrest).mono ?_
    rintro x ⟨o, rfl, ho⟩
    refine ⟨o, rfl, ?_⟩
    have hsnoc : verdicts (outcomes ++ [(index, judged)]) = verdicts outcomes ++
        [(index, verdictIn w D chain action targets args context failure index)] := by
      rw [verdicts, List.map_append, ← hjudged]
      rfl
    rw [ho, hsnoc, List.append_assoc]
    rfl

/-! ### All chunks -/

/-- **One batch**: what it was asked, and what comes of the answer. -/
theorem run_batch {relation : String} {resources : List String} {tr : Trace CoreSig}
    {x : Except Exn (List Bool × Option String)}
    (hrun : Run (batch chain.subject relation resources) tr x)
    (hanswers : ∀ e ∈ tr, w.GivesOrFails e) :
    ∃ answer related,
      tr = [⟨.batchCheck chain.subject (resources.map fun r => (relation, r)), answer⟩] ∧
      x = .ok (related, batchFailure resources.length answer) ∧
      (batchFailure resources.length answer = none →
        related = resources.map (w.engine chain.subject relation)) := by
  rcases Raises.run_bind.mp hrun with ⟨e, herror, -⟩ | ⟨answer, tr₁, tr₂, rfl, hcall, hrest⟩
  · -- the exception of the call is handed over as a value
    obtain ⟨r, tr₁, tr₂, -, -, hret⟩ := Prog.run_bind.mp herror
    exact absurd (Prog.run_ret.mp hret).2 (by simp)
  obtain rfl := run_invoke.mp (run_attempt_ok.mp hcall)
  -- the batch is of use only if it answers with as many values as were asked for
  match answer, hrest, hanswers with
  | .error (.hoc exc), hrest, _ =>
    obtain ⟨rfl, rfl⟩ := run_pure.mp hrest
    exact ⟨_, [], rfl, rfl, fun hnone => nomatch hnone⟩
  | .error (.other name), hrest, _ =>
    obtain ⟨rfl, rfl⟩ := run_pure.mp hrest
    exact ⟨_, [], rfl, rfl, fun hnone => nomatch hnone⟩
  | .ok related, hrest, hanswers =>
    change Run (if related.length ≠ resources.length then _ else _) _ _ at hrest
    by_cases hlength : related.length ≠ resources.length
    · rw [if_pos hlength] at hrest
      obtain ⟨rfl, rfl⟩ := run_pure.mp hrest
      refine ⟨_, [], rfl, ?_, fun hnone => ?_⟩
      · rw [batchFailure, if_pos hlength]
      · rw [batchFailure, if_pos hlength] at hnone
        nomatch hnone
    · rw [if_neg hlength] at hrest
      obtain ⟨rfl, rfl⟩ := run_pure.mp hrest
      refine ⟨_, related, rfl, ?_, fun hnone => ?_⟩
      · rw [batchFailure, if_neg hlength]
      · have hasked := hanswers _ List.mem_cons_self
        have hgives : (.ok related : Except Exn (List Bool)) =
            .ok ((resources.map fun r => (relation, r)).map fun item =>
              w.engine chain.subject item.1 item.2) := by
          refine FixedAnswers.Gives.of_givesOrFails hasked ?_
          rw [failureOf, List.length_map]
          exact hnone
        rw [Except.ok.inj hgives, List.map_map]
        rfl

/-- The event is the question about a chunk. -/
def AsksChunk (chain : PrincipalChain) (action : Action) (targets : List String) (chunk : List ℕ)
    (e : Event CoreSig) : Prop :=
  ∃ answer, e = ⟨.batchCheck chain.subject
    (chunk.map fun i => (action.relation, targets.getD i "")), answer⟩

/-- The positions of the chunks, each judged by the answer to its chunk. -/
def chunkVerdicts (w : FixedAnswers) (D : Decider) (chain : PrincipalChain) (action : Action)
    (targets : List String) (args : Args) (context : DecisionContext)
    (asked : List (List ℕ × Event CoreSig)) : List (ℕ × Verdict) :=
  asked.flatMap fun p =>
    p.1.map fun i => (i, verdictIn w D chain action targets args context (failureOf p.2) i)

/-- **All chunks**: each is asked about once, and adds its positions. -/
theorem run_judgeChunks {chunks : List (List ℕ)} :
    ∀ {outcomes : Outcomes} {tr : Trace CoreSig} {x : Except Exn Outcomes},
      Run (D.judgeChunks chain action targets args context chunks outcomes) tr x →
      (∀ e ∈ tr, w.GivesOrFails e) →
      (∀ i ∈ chunks.flatten, scopeCovers chain action.kind (targets.getD i "") = true) →
      ∃ o, x = .ok o ∧
        List.Forall₂ (AsksChunk chain action targets) chunks (tr.filter isBatchCheck) ∧
        verdicts o = verdicts outcomes ++ chunkVerdicts w D chain action targets args context
          (chunks.zip (tr.filter isBatchCheck)) := by
  induction chunks with
  | nil =>
    intro outcomes tr x hrun _ _
    obtain ⟨rfl, rfl⟩ := run_pure.mp hrun
    exact ⟨_, rfl, .nil, (List.append_nil _).symm⟩
  | cons chunk rest ih =>
    intro outcomes tr x hrun hanswers hscope
    obtain ⟨hchunk, hrest⟩ := List.forall_mem_append.mp hscope
    rw [judgeChunks] at hrun
    rcases Raises.run_bind.mp hrun with ⟨e, hbatch, -⟩ | ⟨⟨found, failed⟩, tr₁, tr₂, rfl,
      hbatch, h₂⟩
    · obtain ⟨answer, related, -, hok, -⟩ := run_batch hbatch hanswers
      cases hok
    obtain ⟨hasked, hafter⟩ := List.forall_mem_append.mp hanswers
    obtain ⟨answer, related, rfl, hok, hrelated⟩ := run_batch hbatch hasked
    obtain ⟨hpair, hfailed⟩ := Prod.mk.inj (Except.ok.inj hok)
    subst hpair hfailed
    rcases Raises.run_bind.mp h₂ with ⟨e, hclock, -⟩ | ⟨latencyMs, tr₃, tr₄, rfl, hclock, h₃⟩
    · obtain ⟨r, tr', tr'', -, -, hret⟩ := Prog.run_bind.mp hclock
      cases (Prog.run_ret.mp hret).2
    obtain rfl := run_lift_invoke_ok.mp hclock
    obtain ⟨-, hjudged⟩ := List.forall_mem_append.mp hafter
    set failure := batchFailure (chunk.map fun i => targets.getD i "").length answer with hfailure
    have hone : Under w.GivesOrFails (fun x => ∃ o, x = .ok o ∧ verdicts o = verdicts outcomes ++
          chunk.map fun i => (i, verdictIn w D chain action targets args context failure i))
        (D.judgeChunk chain action targets args context failure found latencyMs 0 chunk
          outcomes) := by
      refine Under.single (under_judgeChunk hchunk fun hnone => ?_) (calls_judgeChunk _ _ _ _ _ _)
      rw [hrelated hnone, List.drop_zero, List.map_map]
      rfl
    rcases Raises.run_bind.mp h₃ with ⟨e, hjudge, -⟩ | ⟨outcomes', tr₅, tr₆, rfl, hjudge, h₄⟩
    · obtain ⟨o, ho, -⟩ := hone.run hjudge hjudged
      exact absurd ho (by simp)
    obtain ⟨hsingle, hlater⟩ := List.forall_mem_append.mp hjudged
    obtain ⟨o, ho, hadded⟩ := hone.run hjudge hsingle
    obtain rfl := Except.ok.inj ho
    obtain ⟨o, rfl, hall, hverdicts⟩ := ih h₄ hlater hrest
    -- of the calls of this round, only the first one is a batch
    have hfilter : (tr₅ ++ tr₆).filter isBatchCheck = tr₆.filter isBatchCheck := by
      rw [List.filter_append, filter_isBatchCheck_eq_nil (calls_judgeChunk _ _ _ _ _ _) hjudge,
        List.nil_append]
    rw [List.cons_append, List.nil_append, List.cons_append, List.nil_append,
      List.filter_cons_of_pos rfl, List.filter_cons_of_neg Bool.false_ne_true, hfilter]
    refine ⟨o, rfl, .cons ⟨answer, ?_⟩ hall, ?_⟩
    · rw [List.map_map]
      rfl
    · have hof : failureOf ⟨.batchCheck chain.subject ((chunk.map fun i => targets.getD i "").map
          fun r => (action.relation, r)), answer⟩ = failure := by
        rw [failureOf, List.length_map]
      rw [hverdicts, hadded, List.append_assoc, chunkVerdicts, chunkVerdicts, List.zip_cons_cons,
        List.flatMap_cons, hof]

/-! ### One decision per resource -/

theorem validateAll_eq_ok {l : List String} :
    validateAll l = .ok () ↔ ∀ t ∈ l, isResourcePattern t = true := by
  induction l with
  | nil => exact ⟨fun _ t ht => absurd ht List.not_mem_nil, fun _ => rfl⟩
  | cons t l ih =>
    rw [validateAll, Except.bind_eq_ok, List.forall_mem_cons]
    constructor
    · rintro ⟨v, hv, hl⟩
      exact ⟨(validateResourcePattern_eq_ok.mp hv).1, ih.mp hl⟩
    · rintro ⟨ht, hl⟩
      exact ⟨t, validateResourcePattern_eq_ok.mpr ⟨ht, rfl⟩, ih.mpr hl⟩

/-- The decisions that are built from the outcomes, where each position has one. -/
theorem under_concludeEach {outcomes : Outcomes} {now : ℤ} {callArgs : Option Args}
    {auditEach : Bool} {rest : List String} : ∀ {index : ℕ},
      (∀ i, index ≤ i → i < index + rest.length → ∃ judged, outcomes.lookup i = some judged) →
      Under w.Gives (fun x => ∃ ds, x = .ok ds ∧ ds.map Decision.resource = rest ∧
          ∀ i < rest.length, ds[i]?.map Decision.verdict =
            (outcomes.lookup (index + i)).map Judged.verdict)
        (D.concludeEach chain action outcomes now callArgs auditEach index rest) := by
  -- the induction is on the targets that are left, from the index on
  induction rest with
  | nil => exact fun _ => under_pure ⟨[], rfl, rfl, fun i hi => absurd hi (Nat.not_lt_zero i)⟩
  | cons item rest ih =>
    intro index hfound
    rw [List.length_cons] at hfound
    obtain ⟨judged, hlookup⟩ := hfound index (Nat.le_refl _) (by omega)
    rw [concludeEach, hlookup]
    refine (under_conclude judged item now [] callArgs auditEach).bind_ok ?_
    rintro d ⟨hverdict, hresource⟩
    refine (ih fun i hle hlt => hfound i (by omega) (by omega)).bind_ok fun ds hds => ?_
    obtain ⟨hresources, hverdicts⟩ := hds
    refine under_pure ⟨_, rfl, ?_, fun i hi => ?_⟩
    · rw [List.map_cons, hresource, hresources]
    · cases i with
      | zero =>
        rw [List.getElem?_cons_zero, Option.map_some, Nat.add_zero, hlookup, Option.map_some,
          hverdict]
      | succ i =>
        have hshift : index + (i + 1) = index + 1 + i := by omega
        rw [List.getElem?_cons_succ, hshift]
        exact hverdicts i (Nat.lt_of_succ_lt_succ hi)

/-- What a run of `decideEach` returns, where some batches may have failed. -/
structure DecidesBatched (w : FixedAnswers) (D : Decider) (chain : PrincipalChain) (action : Action)
    (targets : List String) (args : Args) (context : DecisionContext) (batches : Trace CoreSig)
    (ds : List Decision) : Prop where
  resources : ds.map Decision.resource = targets
  /-- The batches are the chunks of the positions that the scope covers, in order. -/
  asked : List.Forall₂ (AsksChunk chain action targets)
    ((toCheck chain action.kind targets).chunksOf BATCH_LIMIT) batches
  /-- The positions of a chunk whose batch failed are denied, for its reason. -/
  failed : ∀ chunk e reason,
    (chunk, e) ∈ ((toCheck chain action.kind targets).chunksOf BATCH_LIMIT).zip batches →
    failureOf e = some reason → ∀ i ∈ chunk, ds[i]?.map Decision.verdict = some ⟨.deny, reason⟩
  /-- All others are judged as they are alone. -/
  others : ∀ i < targets.length, (∀ chunk e,
    (chunk, e) ∈ ((toCheck chain action.kind targets).chunksOf BATCH_LIMIT).zip batches →
    i ∈ chunk → failureOf e = none) →
    ds[i]?.map Decision.verdict = some (w.judge D chain action (targets.getD i "") args context)

/-- The positions of the chunks. -/
theorem keys_chunkVerdicts {chunks : List (List ℕ)} {batches : Trace CoreSig}
    (h : chunks.length = batches.length) :
    (chunkVerdicts w D chain action targets args context (chunks.zip batches)).map Prod.fst =
      chunks.flatten := by
  induction chunks generalizing batches with
  | nil => rfl
  | cons chunk rest ih =>
    cases batches with
    | nil => exact absurd h (by simp)
    | cons e batches =>
      have hrest : rest.length = batches.length := by simpa using h
      have hkeys : (chunk.map fun i =>
          (i, verdictIn w D chain action targets args context (failureOf e) i)).map Prod.fst =
          chunk := by
        rw [List.map_map]
        exact List.map_id chunk
      rw [List.zip_cons_cons, chunkVerdicts, List.flatMap_cons, List.map_append, hkeys,
        List.flatten_cons]
      exact congrArg _ (ih hrest)

/-- The verdict that the outcomes hold for a position. -/
theorem lookup_of_verdicts {outcomes : Outcomes} (hnodup : (outcomes.map Prod.fst).Nodup) {i : ℕ}
    {v : Verdict} (h : (i, v) ∈ verdicts outcomes) :
    (outcomes.lookup i).map Judged.verdict = some v := by
  obtain ⟨⟨j, judged⟩, hmem, heq⟩ := List.mem_map.mp h
  obtain ⟨rfl, rfl⟩ := Prod.mk.inj heq
  rw [lookup_of_mem hnodup hmem]
  rfl

/-- **One decision per resource**, in order, each judged by the answer to its chunk. -/
theorem run_decideEach {auditEach : Bool} {callArgs : Option Args}
    {callContext : Option DecisionContext} {tr : Trace CoreSig} {x : Except Exn (List Decision)}
    (hvalid : ∀ t ∈ targets, isResourcePattern t = true)
    (hrun : Run (D.decideEach chain action targets auditEach callArgs callContext) tr x)
    (hanswers : ∀ e ∈ tr, w.GivesOrFails e) :
    ∃ ds, x = .ok ds ∧ DecidesBatched w D chain action targets (callArgs.getD [])
      (callContext.getD .none) (tr.filter isBatchCheck) ds := by
  rw [decideEach, validateRef_eq_ok.mpr ⟨chain.subject_isRef, rfl⟩,
    validateAll_eq_ok.mpr hvalid] at hrun
  change Run (if targets = [] then _ else _) _ _ at hrun
  by_cases hempty : targets = []
  · rw [if_pos hempty] at hrun
    obtain ⟨rfl, rfl⟩ := run_pure.mp hrun
    subst hempty
    refine ⟨[], rfl, rfl, .nil, ?_, fun i hi => absurd hi (Nat.not_lt_zero i)⟩
    intro chunk e reason hmem
    exact absurd hmem List.not_mem_nil
  rw [if_neg hempty] at hrun
  have hflat : ((toCheck chain action.kind targets).chunksOf BATCH_LIMIT).flatten =
      toCheck chain action.kind targets := List.flatten_chunksOf (by decide)
  have hscope : ∀ i ∈ ((toCheck chain action.kind targets).chunksOf BATCH_LIMIT).flatten,
      scopeCovers chain action.kind (targets.getD i "") = true := by
    intro i hi
    rw [hflat] at hi
    exact (List.mem_filter.mp hi).2
  rcases Raises.run_bind.mp hrun with ⟨e, hchunks, -⟩ | ⟨outcomes, tr₁, tr₂, rfl, hchunks, hrest⟩
  · obtain ⟨o, ho, -⟩ := run_judgeChunks hchunks hanswers hscope
    cases ho
  obtain ⟨hasked, hafter⟩ := List.forall_mem_append.mp hanswers
  obtain ⟨o, ho, hall, hverdicts⟩ := run_judgeChunks hchunks hasked hscope
  obtain rfl := Except.ok.inj ho
  -- the positions of the outcomes: all, and each once
  have hkeys : outcomes.map Prod.fst = (scopeExcluded chain action.kind targets).map Prod.fst ++
      toCheck chain action.kind targets := by
    have hfst : ∀ o : Outcomes, o.map Prod.fst = (verdicts o).map Prod.fst := fun o => by
      rw [verdicts, List.map_map]
      rfl
    rw [hfst, hverdicts, List.map_append, ← hfst, keys_chunkVerdicts hall.length_eq, hflat]
  have hnodup : (outcomes.map Prod.fst).Nodup := hkeys ▸ nodup_positions _ _
  have hlookup : ∀ i < targets.length, ∃ judged, outcomes.lookup i = some judged := by
    intro i hi
    have hrange : i ∈ List.range targets.length := List.mem_range.mpr hi
    have hmem : i ∈ outcomes.map Prod.fst := by
      rw [hkeys, List.mem_append, scopeExcluded, List.map_map]
      cases hcovered : scopeCovers chain action.kind (targets.getD i "") with
      | true => exact .inr (List.mem_filter.mpr ⟨hrange, hcovered⟩)
      | false =>
        exact .inl (List.mem_map.mpr
          ⟨i, List.mem_filter.mpr ⟨hrange, by rw [hcovered]; rfl⟩, rfl⟩)
    obtain ⟨y, hy, rfl⟩ := List.mem_map.mp hmem
    exact ⟨y.2, lookup_of_mem hnodup hy⟩
  rcases Raises.run_bind.mp hrest with ⟨e, hclock, -⟩ | ⟨now, tr₃, tr₄, rfl, hclock, hlast⟩
  · obtain ⟨r, tr', tr'', -, -, hret⟩ := Prog.run_bind.mp hclock
    cases (Prog.run_ret.mp hret).2
  obtain rfl := run_lift_invoke_ok.mp hclock
  have hconcluded : Under w.Gives (fun x => ∃ ds, x = .ok ds ∧ ds.map Decision.resource = targets ∧
      ∀ i < targets.length, ds[i]?.map Decision.verdict =
        (outcomes.lookup (0 + i)).map Judged.verdict)
      (D.concludeEach chain action outcomes now callArgs auditEach 0 targets) :=
    under_concludeEach fun i _ hi => hlookup i (by omega)
  obtain ⟨ds, rfl, hresources, hfound⟩ := (Under.single hconcluded
    (calls_concludeEach _ _ _ _ _ _)).run hlast (List.forall_mem_append.mp hafter).2
  have hat : ∀ {i v}, i < targets.length → (i, v) ∈ verdicts outcomes →
      ds[i]?.map Decision.verdict = some v := by
    intro i v hi hmem
    have hi' := hfound i hi
    rw [Nat.zero_add] at hi'
    rw [hi', lookup_of_verdicts hnodup hmem]
  have hbatches : (tr₁ ++ ([(⟨.now, now⟩ : Event CoreSig)] ++ tr₄)).filter isBatchCheck =
      tr₁.filter isBatchCheck := by
    rw [List.filter_append, List.filter_append,
      filter_isBatchCheck_eq_nil (calls_concludeEach _ _ _ _ _ _) hlast, List.append_nil]
    exact List.append_nil _
  have hlt : ∀ i ∈ toCheck chain action.kind targets, i < targets.length :=
    fun i hi => List.mem_range.mp (List.mem_filter.mp hi).1
  have hchunk : ∀ {chunk e i}, (chunk, e) ∈ ((toCheck chain action.kind targets).chunksOf
      BATCH_LIMIT).zip (tr₁.filter isBatchCheck) → i ∈ chunk →
      (i, verdictIn w D chain action targets (callArgs.getD []) (callContext.getD .none)
        (failureOf e) i) ∈ verdicts outcomes ∧ i < targets.length := by
    intro chunk e i hmem hi
    refine ⟨?_, hlt i ?_⟩
    · rw [hverdicts]
      exact List.mem_append_right _
        (List.mem_flatMap.mpr ⟨_, hmem, List.mem_map.mpr ⟨i, hi, rfl⟩⟩)
    · rw [← hflat]
      exact List.mem_flatten.mpr ⟨chunk, (List.of_mem_zip hmem).1, hi⟩
  rw [hbatches]
  refine ⟨ds, rfl, hresources, hall, ?_, ?_⟩
  · intro chunk e reason hmem hfails i hi
    obtain ⟨hin, hi'⟩ := hchunk hmem hi
    rw [hfails] at hin
    exact hat hi' hin
  · intro i hi hnone
    refine hat hi ?_
    have hrange : i ∈ List.range targets.length := List.mem_range.mpr hi
    by_cases hcovered : scopeCovers chain action.kind (targets.getD i "") = true
    · have hin : i ∈ toCheck chain action.kind targets := List.mem_filter.mpr ⟨hrange, hcovered⟩
      rw [← hflat] at hin
      obtain ⟨chunk, hchunks', hi'⟩ := List.mem_flatten.mp hin
      have hzip := List.map_fst_zip (le_of_eq hall.length_eq)
      rw [← hzip] at hchunks'
      obtain ⟨⟨chunk, e⟩, hmem, rfl⟩ := List.mem_map.mp hchunks'
      have hjudged := (hchunk hmem hi').1
      rwa [hnone chunk e hmem hi'] at hjudged
    · -- what the scope does not cover was denied before any batch
      rw [FixedAnswers.judge, if_neg hcovered, hverdicts]
      refine List.mem_append_left _ (List.mem_map.mpr ⟨_, List.mem_map.mpr ⟨i, ?_, rfl⟩, rfl⟩)
      exact List.mem_filter.mpr ⟨hrange, by simpa using hcovered⟩

/-- **One decision per resource**, in order, each with the outcome of its resource. -/
theorem under_decideEach {auditEach : Bool}
    (hvalid : ∀ t ∈ targets, isResourcePattern t = true) (callArgs : Option Args)
    (callContext : Option DecisionContext) :
    Under w.Gives (fun x => ∃ ds, x = .ok ds ∧ ds.map (fun d => (d.resource, d.outcome)) =
        targets.map fun t =>
          (t, w.outcome D chain action t (callArgs.getD []) (callContext.getD .none)))
      (D.decideEach chain action targets auditEach callArgs callContext) := by
  refine under_of_run fun tr x hrun hgives => ?_
  obtain ⟨ds, rfl, hds⟩ := run_decideEach hvalid hrun fun e he => .inl (hgives e he)
  refine ⟨ds, rfl, ?_⟩
  -- an answer that `Gives` has the length that was asked
  have hnone : ∀ e ∈ tr.filter isBatchCheck, failureOf e = none := by
    intro e he
    obtain ⟨op, answer⟩ := e
    have hgave := hgives _ (List.mem_filter.mp he).1
    cases op with
    | batchCheck subject items =>
      obtain rfl : answer = .ok (items.map fun item => w.engine subject item.1 item.2) := hgave
      rw [failureOf, batchFailure, List.length_map, if_neg (not_not.mpr rfl)]
    | _ => rfl
  have hlength : ds.length = targets.length := by
    rw [← List.length_map Decision.resource, hds.resources]
  refine List.ext_getElem (by rw [List.length_map, List.length_map, hlength]) fun i hi hi' => ?_
  rw [List.length_map] at hi hi'
  have hverdict := hds.others i hi' fun chunk e hmem _ => hnone e (List.of_mem_zip hmem).2
  rw [List.getElem?_eq_getElem hi, Option.map_some, List.getD_eq_getElem?_getD,
    List.getElem?_eq_getElem hi', Option.getD_some] at hverdict
  have hresource : (ds.map Decision.resource)[i]? = some targets[i] := by
    rw [hds.resources, List.getElem?_eq_getElem hi']
  rw [List.getElem?_map, List.getElem?_eq_getElem hi] at hresource
  have houtcome := congrArg Verdict.outcome (Option.some.inj hverdict)
  rw [FixedAnswers.judge_outcome] at houtcome
  rw [List.getElem_map, List.getElem_map]
  exact Prod.ext (Option.some.inj hresource) houtcome

/-- **Batched decisions are single decisions.** With an engine that answers by a fixed function,
`decide_each` refuses a list with an invalid resource, and otherwise returns one decision for each
resource, in order. Where its batch failed, the decision is a DENY for the reason of the failure;
everywhere else it has the outcome and the reason that `decide` returns for the resource alone. -/
theorem batched_equals_single {w : FixedAnswers} {D : Decider} {chain : PrincipalChain}
    {action : Action} {targets : List String} {auditEach : Bool} {callArgs : Option Args}
    {callContext : Option DecisionContext} {tr : Trace CoreSig} {x : Except Exn (List Decision)}
    (hrun : Run (D.decideEach chain action targets auditEach callArgs callContext) tr x)
    (hanswers : ∀ e ∈ tr, w.GivesOrFails e) :
    match validateAll targets with
    | .error exc => x = .error (.hoc exc)
    | .ok () => ∃ ds, x = .ok ds ∧ ds.map Decision.resource = targets ∧
        List.Forall₂ (AsksChunk chain action targets)
          ((toCheck chain action.kind targets).chunksOf BATCH_LIMIT) (tr.filter isBatchCheck) ∧
        (∀ chunk e reason, (chunk, e) ∈ ((toCheck chain action.kind targets).chunksOf
            BATCH_LIMIT).zip (tr.filter isBatchCheck) → failureOf e = some reason →
          ∀ i ∈ chunk, ∃ d, ds[i]? = some d ∧ d.outcome = .deny ∧ d.reason = reason) ∧
        ∀ i resource, targets[i]? = some resource →
          (∀ chunk e, (chunk, e) ∈ ((toCheck chain action.kind targets).chunksOf
            BATCH_LIMIT).zip (tr.filter isBatchCheck) → i ∈ chunk → failureOf e = none) →
          ∃ d, ds[i]? = some d ∧ ∀ tr' x',
            Run (D.decide chain action resource callArgs callContext) tr' x' →
            (∀ e ∈ tr', w.Gives e) →
            ∃ d', x' = .ok d' ∧ d.outcome = d'.outcome ∧ d.reason = d'.reason := by
  cases hvalidate : validateAll targets with
  | error exc =>
    rw [decideEach, validateRef_eq_ok.mpr ⟨chain.subject_isRef, rfl⟩, hvalidate] at hrun
    exact (run_raise.mp hrun).2
  | ok u =>
    have hvalid := validateAll_eq_ok.mp hvalidate
    obtain ⟨ds, rfl, hds⟩ := run_decideEach hvalid hrun hanswers
    -- the failed chunks are denied, and the others are judged as alone
    refine ⟨ds, rfl, hds.resources, hds.asked, ?_, ?_⟩
    · intro chunk e reason hmem hfails i hi
      obtain ⟨d, hd, hverdict⟩ :=
        Option.map_eq_some_iff.mp (hds.failed chunk e reason hmem hfails i hi)
      exact ⟨d, hd, congrArg Verdict.outcome hverdict, congrArg Verdict.reason hverdict⟩
    · intro i resource hresource hnone
      obtain ⟨hi, -⟩ := List.getElem?_eq_some_iff.mp hresource
      obtain ⟨d, hd, hverdict⟩ := Option.map_eq_some_iff.mp (hds.others i hi hnone)
      rw [List.getD_eq_getElem?_getD, hresource, Option.getD_some] at hverdict
      refine ⟨d, hd, fun tr' x' hsingle hgives => ?_⟩
      have hresourceValid : isResourcePattern resource = true :=
        hvalid resource (List.mem_of_getElem? hresource)
      obtain ⟨d', rfl, hverdict'⟩ :=
        (under_decide_verdict hresourceValid callArgs callContext).run hsingle hgives
      have hsame : d.verdict = d'.verdict := hverdict.trans hverdict'.symm
      exact ⟨d', rfl, congrArg Verdict.outcome hsame, congrArg Verdict.reason hsame⟩

/-- An engine that lets alice view one document. -/
def oneDocument : FixedAnswers where
  engine subject relation obj := subject == "user:alice" && relation == "viewer" && obj == "doc:x"
  policy _ _ _ _ _ := .ok ⟨.requireApproval, "ask"⟩

/-- The law for a list with a document twice, one the engine does not know and a note that the
scope does not cover. -/
theorem batched_equals_single_reader :
    ∃ ds, Raises.result oneDocument.answer (guarded.decideEach .aliceReader .read
        ["doc:x", "note:n", "doc:y", "doc:x"] true none none) = .ok ds ∧
      ds.map Decision.resource = ["doc:x", "note:n", "doc:y", "doc:x"] := by
  have hrun := Raises.run_result (S := CoreSig) oneDocument.answer (guarded.decideEach
    .aliceReader .read ["doc:x", "note:n", "doc:y", "doc:x"] true none none)
  have hlaw := batched_equals_single hrun fun e he =>
    .inl (Prog.exec_answered oneDocument.gives_answer _ e he)
  rw [show validateAll ["doc:x", "note:n", "doc:y", "doc:x"] = .ok () by decide +kernel] at hlaw
  obtain ⟨ds, hds, hresources, -⟩ := hlaw
  exact ⟨ds, hds, hresources⟩

end Decider

end HeadOfContext
