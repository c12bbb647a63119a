import HeadOfContext.Core.Batched
import HeadOfContext.Framework.Opens

/-!
# The size of a batch

The engine accepts at most `BATCH_LIMIT` questions in a batch. `decide_each` asks in chunks, so no
batch of it is larger (`decideEach_within`). `decide_all` asks about the whole list at once: where
its list gets as far as the engine (`ReachesEngine`), it issues one batch of the size of the list
(`sizes_decideAll`).
-/

namespace HeadOfContext

open Effects Raises

/-- The number of questions of a batch. -/
def CoreOp.batchSize : CoreOp → Option ℕ
  | batchCheck _ items => some items.length
  | _ => none

theorem batchSize_of_singleCall {o : CoreOp} (h : SingleCall o) : o.batchSize = none := by
  cases o with
  | batchCheck subject items => exact nomatch h (.ok [])
  | _ => rfl

/-- A batch has at most that many questions. -/
def CoreOp.AtMost (n : ℕ) (o : CoreOp) : Prop := ∀ size, o.batchSize = some size → size ≤ n

theorem atMost_of_singleCall {n : ℕ} (o : CoreOp) (h : SingleCall o) : o.AtMost n := by
  intro size hsize
  rw [batchSize_of_singleCall h] at hsize
  exact nomatch hsize

/-- No batch of these sizes is larger than the engine accepts. -/
def WithinLimit (batches : List ℕ) : Prop := ∀ n ∈ batches, n ≤ BATCH_LIMIT

theorem withinLimit_nil : WithinLimit [] := fun _ h => absurd h List.not_mem_nil

theorem withinLimit_singleton {n : ℕ} : WithinLimit [n] ↔ n ≤ BATCH_LIMIT :=
  List.forall_mem_singleton

theorem withinLimit_append {l l' : List ℕ} :
    WithinLimit (l ++ l') ↔ WithinLimit l ∧ WithinLimit l' := List.forall_mem_append

namespace Decider

variable {D : Decider} {chain : PrincipalChain} {action : Action} {args : Args}
  {context : DecisionContext} {resources scopeTargets targets : List String}

/-! ### One batch -/

/-- `_batch` opens with its batch, and makes no other call. -/
theorem opens_batch {A : CoreOp → Prop} (subject relation : String) (resources : List String) :
    Opens (S := CoreSig) A (CoreOp.batchCheck subject (resources.map fun r => (relation, r)))
      (batch subject relation resources) := by
  refine Opens.bind ⟨_, rfl, fun r => trivial⟩ fun answer => ?_
  match answer with
  | .error (.hoc exc) => exact calls_pure _
  | .error (.other _) => exact calls_pure _
  | .ok related =>
    change Calls (S := CoreSig) A (if _ then _ else _)
    split <;> exact calls_pure _

/-! ### The whole list at once -/

/-- **The list gets as far as the engine**: it is not empty, what is named in it is valid, and the
scope covers what it must. -/
structure ReachesEngine (chain : PrincipalChain) (action : Action)
    (resources scopeTargets : List String) : Prop where
  subject : ∃ user, validateRef chain.subject "user" = .ok user
  patterns : validateAll (resources ++ scopeTargets) = .ok ()
  scope : ∀ t ∈ scopeTargets, scopeCovers chain action.kind t = true
  asked : resources ≠ []

theorem calls_policyLoop (latencyMs : PyFloat) (resources : List String) :
    Calls SingleCall (D.policyLoop chain action args context latencyMs resources) := by
  induction resources with
  | nil => exact calls_pure _
  | cons item rest ih =>
    refine (calls_policyVerdict item).bind fun verdict => ?_
    change Calls _ (if _ then _ else _)
    split
    · exact calls_pure _
    · exact ih

/-- Where the scope covers its targets, `_evaluate_all` opens with a batch of the whole list. -/
theorem opens_evaluateAll (hscope : ∀ t ∈ scopeTargets, scopeCovers chain action.kind t = true)
    (hne : resources ≠ []) (explicitScope : Bool) :
    Opens SingleCall
      (CoreOp.batchCheck chain.subject (resources.map fun r => (action.relation, r)))
      (D.evaluateAll chain action resources scopeTargets explicitScope args context) := by
  have hcovered : ¬ scopeTargets.any (fun t => !scopeCovers chain action.kind t) = true := by
    rw [List.any_eq_true]
    rintro ⟨t, ht, hnot⟩
    rw [hscope t ht] at hnot
    exact Bool.false_ne_true hnot
  rw [evaluateAll, if_neg fun h => hne h.1, if_neg hcovered, if_neg hne]
  refine (opens_batch _ _ _).bind fun answer => ?_
  obtain ⟨related, failure⟩ := answer
  refine Calls.bind (calls_lift_invoke fun r => rfl) fun latencyMs => ?_
  cases failure with
  | some reason => exact calls_pure _
  | none =>
    change Calls _ (if _ then _ else _)
    split
    · exact calls_pure _
    · exact calls_policyLoop _ _

/-- Elsewhere it asks nothing. -/
theorem calls_evaluateAll
    (h : ¬ ((∀ t ∈ scopeTargets, scopeCovers chain action.kind t = true) ∧ resources ≠ []))
    (explicitScope : Bool) :
    Calls SingleCall
      (D.evaluateAll chain action resources scopeTargets explicitScope args context) := by
  rw [evaluateAll]
  split
  · exact calls_pure _
  split
  · exact calls_pure _
  split
  · exact calls_pure _
  · next hcovered hne =>
    refine absurd ⟨fun t ht => ?_, hne⟩ h
    by_contra hnot
    exact hcovered (List.any_eq_true.mpr ⟨t, ht, by rw [Bool.eq_false_iff.mpr hnot]; rfl⟩)

section DecideAll

variable {scopeResources : Option (List String)} {resource : Option String}
  {callArgs : Option Args} {callContext : Option DecisionContext}

/-- **`decide_all` asks about its whole list in one batch**, where the list gets that far. -/
theorem opens_decideAll
    (h : ReachesEngine chain action resources (scopeResources.getD resources)) :
    Opens SingleCall
      (CoreOp.batchCheck chain.subject (resources.map fun r => (action.relation, r)))
      (D.decideAll chain action resources scopeResources resource callArgs callContext) := by
  obtain ⟨⟨user, hsubject⟩, hpatterns, hscope, hne⟩ := h
  unfold decideAll
  dsimp only
  rw [hsubject, hpatterns]
  refine Opens.after_ok (Opens.after_ok ?_)
  refine Opens.bind (opens_evaluateAll hscope hne _) fun judged => ?_
  exact Calls.bind (calls_lift_invoke fun r => rfl) fun _ => calls_conclude _ _ _ _ _ _

/-- Elsewhere it asks nothing. -/
theorem calls_decideAll
    (h : ¬ ReachesEngine chain action resources (scopeResources.getD resources)) :
    Calls SingleCall
      (D.decideAll chain action resources scopeResources resource callArgs callContext) := by
  unfold decideAll
  dsimp only
  cases hsubject : validateRef chain.subject "user" with
  | error exc => exact trivial
  | ok user =>
    cases hpatterns : validateAll (resources ++ scopeResources.getD resources) with
    | error exc => exact trivial
    | ok u =>
      refine Calls.bind (calls_ofExcept _) fun _ => Calls.bind (calls_ofExcept _) fun _ => ?_
      refine Calls.bind (calls_evaluateAll (fun hasks => ?_) _) fun judged =>
        Calls.bind (calls_lift_invoke fun r => rfl) fun _ => calls_conclude _ _ _ _ _ _
      exact h ⟨⟨user, hsubject⟩, hpatterns, hasks.1, hasks.2⟩

end DecideAll

/-! ### One decision per resource -/

/-- Every batch of the chunk loop is of the size of a chunk. -/
theorem calls_judgeChunks {n : ℕ} {chunks : List (List ℕ)} (h : ∀ c ∈ chunks, c.length ≤ n) :
    ∀ outcomes : Outcomes, Calls (CoreOp.AtMost n)
      (D.judgeChunks chain action targets args context chunks outcomes) := by
  induction chunks with
  | nil => exact fun _ => calls_pure _
  | cons chunk rest ih =>
    intro outcomes
    obtain ⟨hchunk, hrest⟩ := List.forall_mem_cons.mp h
    have hbatch : Calls (CoreOp.AtMost n)
        (batch chain.subject action.relation (chunk.map fun i => targets.getD i "")) := by
      obtain ⟨k, hk, hcalls⟩ := opens_batch chain.subject action.relation
        (chunk.map fun i => targets.getD i "")
      rw [Calls, hk]
      refine ⟨fun size hsize => ?_, hcalls⟩
      obtain rfl := Option.some.inj hsize
      rw [List.length_map, List.length_map]
      exact hchunk
    refine hbatch.bind fun answer => ?_
    refine Calls.bind (calls_lift_invoke (atMost_of_singleCall _ fun r => rfl)) fun latencyMs => ?_
    exact Calls.bind (Prog.Calls.imp (calls_judgeChunk _ _ _ _ _ _) atMost_of_singleCall) fun o =>
      ih hrest o

/-- **`decide_each` never asks more than the engine accepts.** -/
theorem calls_decideEach (auditEach : Bool) (callArgs : Option Args)
    (callContext : Option DecisionContext) :
    Calls (CoreOp.AtMost BATCH_LIMIT)
      (D.decideEach chain action targets auditEach callArgs callContext) := by
  refine Calls.bind (calls_ofExcept _) fun _ => Calls.bind (calls_ofExcept _) fun _ => ?_
  change Calls _ (if _ then _ else _)
  split
  · exact calls_pure _
  refine Calls.bind (calls_judgeChunks (fun c hc => List.length_le_of_mem_chunksOf hc) _)
    fun outcomes => Calls.bind (calls_lift_invoke (atMost_of_singleCall _ fun r => rfl)) fun now =>
      ?_
  exact Prog.Calls.imp (calls_concludeEach _ _ _ _ _ _) atMost_of_singleCall

theorem decideEach_within {auditEach : Bool} {callArgs : Option Args}
    {callContext : Option DecisionContext} {tr : Trace CoreSig} {x : Except Exn (List Decision)}
    (hrun : Run (D.decideEach chain action targets auditEach callArgs callContext) tr x) :
    WithinLimit (sizes CoreOp.batchSize tr) := by
  intro n hn
  obtain ⟨e, he, hsize⟩ := List.mem_filterMap.mp hn
  exact (calls_decideEach auditEach callArgs callContext).of_run hrun he n hsize

end Decider

end HeadOfContext
