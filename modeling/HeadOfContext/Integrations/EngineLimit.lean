import HeadOfContext.Core.BatchLimit
import HeadOfContext.Actions.Gate
import HeadOfContext.Memory.Service

/-!
# What the engine accepts

Three services ask the engine in batches: the decider, the memory service through it, and the
action gate on its own. Only `decide_each` asks in chunks. The others ask about a whole list at
once, so that their batches are within the limit exactly when their lists are
(`batches_within_limit_iff`).
-/

namespace HeadOfContext

open Effects Raises

/-- The number of questions of a batch. -/
def GateOp.batchSize : GateOp → Option ℕ
  | core o => o.batchSize
  | _ => none

/-- The number of questions of a batch. -/
def MemoryOp.batchSize : MemoryOp → Option ℕ
  | core o => o.batchSize
  | _ => none

/-! ### The pending requests of an approver -/

namespace ActionGate

/-- The question of `pending_for`. -/
def pendingQuestion (user : String) (pending : List ApprovalRequest) : GateOp :=
  .core (.batchCheck user (pending.map fun r => (APPROVER_RELATION, r.tool)))

/-- What `pending_for` has asked: nothing, or the store, or the store and then the engine about
all that is pending. -/
theorem pendingFor_run {user : String} {tr : Trace GateSig} {x : Except Exn (List ApprovalRequest)}
    (hrun : Run (pendingFor user) tr x) :
    tr = [] ∨ (∃ e, tr = [⟨.listPending none, .error e⟩]) ∨
      tr = [⟨.listPending none, .ok []⟩] ∨
      ∃ pending answer, tr = [⟨.listPending none, .ok pending⟩,
        ⟨pendingQuestion user pending, answer⟩] := by
  unfold pendingFor at hrun
  rcases run_bind.mp hrun with ⟨e, hvalid, -⟩ | ⟨_, tr₁, tr₂, rfl, hvalid, hrest⟩
  · exact .inl (run_ofExcept.mp hvalid).1
  obtain ⟨rfl, -⟩ := Core.run_ofHoc_ok.mp hvalid
  rcases run_bind.mp hrest with ⟨e, hlist, -⟩ | ⟨pending, tr₁, tr₃, rfl, hlist, hcheck⟩
  · exact .inr (.inl ⟨e, run_invoke.mp hlist⟩)
  obtain rfl := run_invoke.mp hlist
  refine .inr (.inr ?_)
  by_cases hnone : pending = []
  · rw [if_pos hnone] at hcheck
    obtain ⟨rfl, -⟩ := run_pure.mp hcheck
    exact .inl (hnone ▸ rfl)
  · rw [if_neg hnone] at hcheck
    -- after its question the method makes no call
    obtain ⟨answer, tr₄, rfl, hquiet⟩ : ∃ answer tr₄,
        tr₃ = ⟨pendingQuestion user pending, answer⟩ :: tr₄ ∧ ∀ e ∈ tr₄, False := by
      refine Prog.Opens.of_run (S := GateSig) (A := fun _ => False) ?_ hcheck
      refine Opens.bind (S := GateSig) ⟨_, rfl, fun r => trivial⟩ fun answer => ?_
      match answer with
      | .error (.hoc exc) => exact calls_raise _
      | .error (.other _) => exact calls_raise _
      | .ok related =>
        change Calls (S := GateSig) _ (if _ then _ else _)
        split
        · exact calls_raise _
        · exact calls_pure _
    obtain rfl := List.eq_nil_iff_forall_not_mem.mpr hquiet
    exact .inr ⟨pending, answer, rfl⟩

/-- **The batch of `pending_for` is within the limit** exactly when what is pending is. -/
theorem pendingFor_within_iff {user : String} {tr : Trace GateSig}
    {x : Except Exn (List ApprovalRequest)} (hrun : Run (pendingFor user) tr x) :
    WithinLimit (sizes GateOp.batchSize tr) ↔
      ∀ pending, (⟨.listPending none, .ok pending⟩ : Event GateSig) ∈ tr →
        pending.length ≤ BATCH_LIMIT := by
  rcases pendingFor_run hrun with rfl | ⟨e, rfl⟩ | rfl | ⟨pending, answer, rfl⟩
  · exact iff_of_true withinLimit_nil fun _ h => absurd h List.not_mem_nil
  · exact iff_of_true withinLimit_nil fun pending h => nomatch List.mem_singleton.mp h
  · refine iff_of_true withinLimit_nil fun pending h => ?_
    cases List.mem_singleton.mp h
    exact Nat.zero_le _
  · have hsizes : sizes (S := GateSig) GateOp.batchSize [⟨.listPending none, .ok pending⟩,
        ⟨pendingQuestion user pending, answer⟩] = [pending.length] :=
      congrArg (fun n => [n]) (List.length_map _)
    rw [hsizes, withinLimit_singleton]
    refine ⟨fun hle pending' h => ?_, fun h => h pending List.mem_cons_self⟩
    rcases List.mem_cons.mp h with heq | h
    · cases heq
      exact hle
    · exact nomatch List.mem_singleton.mp h

end ActionGate

/-! ### The memory service -/

namespace MemoryService

variable {svc : MemoryService} {chain : PrincipalChain} {content : PyStr} {hasPermits : Bool}

/-- The call asks the engine no batch. -/
def Unasked (o : MemoryOp) : Prop := o.batchSize = none

/-- What the decider asks of a memory service, it asks as it does of its own collaborators. -/
theorem opens_core {α : Type} {p : Core α} {o : CoreOp} (hp : Opens (S := CoreSig) SingleCall o p) :
    Opens (S := MemorySig) Unasked (MemoryOp.core o) (Remembering.core p) := by
  have hguarded : Prog.Opens (S := MemorySig) Unasked (MemoryOp.core o)
      (p.run.guarded Remembering.decider) :=
    Prog.Opens.guarded (m := Remembering.decider) hp fun _ h => batchSize_of_singleCall h
  exact hguarded.bind fun _ => trivial

theorem calls_core {α : Type} {p : Core α} (hp : Calls SingleCall p) :
    Calls Unasked (Remembering.core p) := by
  have hguarded : Prog.Calls (S := MemorySig) Unasked (p.run.guarded Remembering.decider) :=
    Prog.Calls.guarded (m := Remembering.decider) hp fun _ h => batchSize_of_singleCall h
  exact hguarded.bind fun _ => trivial

/-- A call of the memory service. -/
theorem calls_op {α : Type} {A : MemoryOp → Prop} {o : MemoryOp}
    {k : MemorySig.Res o → Except Thrown α} (h : A o) :
    Calls (S := MemorySig) A ⟨.call o fun r => .ret (k r)⟩ := calls_invoke h

/-- The calls between the reads of a candidate and its decision satisfy `A`. -/
structure Plain (A : MemoryOp → Prop) : Prop where
  permits : ∀ operation resources, A (.permits operation resources)
  now : A .now
  eventId : A .eventId
  record : ∀ event, A (.record event)

theorem plain_unasked : Plain Unasked := ⟨fun _ _ => rfl, rfl, rfl, fun _ => rfl⟩

section Plain

variable {A : MemoryOp → Prop} (hA : Plain A)

include hA

theorem Plain.calls_refused (operation : Kind) (resources : List String) :
    Calls A (refused hasPermits operation resources) := by
  unfold refused
  split
  · exact calls_pure _
  · exact Calls.bind (calls_op (hA.permits _ _)) fun answers => calls_pure _

theorem Plain.calls_memoryEvent (kind : EventKind) (memoryId outcome : String)
    (contentHash : Option String) (sourceCount : ℕ) (reason : Option String) :
    Calls A (memoryEvent kind chain memoryId outcome contentHash sourceCount reason) :=
  Calls.bind (calls_lift_invoke hA.now) fun _ =>
    Calls.bind (calls_lift_invoke hA.eventId) fun _ => calls_pure _

theorem Plain.calls_record (event : AuditEvent) : Calls A (Remembering.record event) :=
  calls_op (hA.record event)

theorem Plain.calls_denyRead (memoryId reason : String) :
    Calls A (denyRead chain memoryId reason) :=
  (hA.calls_memoryEvent _ _ _ _ _ _).bind fun event => hA.calls_record event

end Plain

/-- A call whose failure is looked at by a handler. -/
theorem calls_attempted {α β : Type} {p : Remembering α} {f : Except Thrown α → Remembering β}
    (hp : Calls Unasked p) (hok : ∀ a, Calls Unasked (f (.ok a)))
    (herror : ∀ e, Calls Unasked (f (.error e))) : Calls Unasked (p.attempt >>= f) := by
  refine hp.attempt.bind fun answer => ?_
  cases answer with
  | ok a => exact hok a
  | error e => exact herror e

theorem calls_rollbackRow (memoryId : String) :
    Calls (S := MemorySig) Unasked (do
      match ← (Remembering.deleteRow memoryId).attempt with
      | .ok () => Pure.pure ()
      | .error e => if e.hoc?.isSome then Pure.pure () else .raise e : Remembering Unit) := by
  refine calls_attempted (calls_op rfl) (fun _ => calls_pure _) fun e => ?_
  change Calls (S := MemorySig) Unasked (if _ then _ else _)
  split
  · exact calls_pure _
  · exact calls_raise e

theorem calls_rollbackTuples (memoryId : String) (provenance : List Tuple) :
    Calls (S := MemorySig) Unasked (do
      match ← (Remembering.deleteTuples provenance).attempt with
      | .ok () => Pure.pure ()
      | .error e => if e.hoc?.isSome then Pure.pure () else .raise e
      match ← (Remembering.deleteRow memoryId).attempt with
      | .ok () => Pure.pure ()
      | .error e => if e.hoc?.isSome then Pure.pure () else .raise e : Remembering Unit) := by
  refine calls_attempted (calls_op rfl) (fun _ => calls_rollbackRow memoryId) fun e => ?_
  change Calls (S := MemorySig) Unasked (if _ then _ else _)
  split
  · exact calls_rollbackRow memoryId
  · exact trivial

theorem calls_rollback (memoryId : String) (provenance : List Tuple) (backendRef : Option String) :
    Calls Unasked (svc.rollback memoryId provenance backendRef) := by
  have hrest := calls_rollbackTuples memoryId provenance
  unfold rollback
  cases backendRef with
  | none => exact hrest
  | some ref =>
    refine calls_attempted (calls_op rfl) (fun _ => hrest) fun e => ?_
    change Calls (S := MemorySig) Unasked (if _ then _ else _)
    split
    · exact hrest
    · exact trivial

theorem calls_undo {α : Type} (memoryId : String) (provenance : List Tuple)
    (backendRef : Option String) (e : Thrown) :
    Calls Unasked (svc.undo memoryId provenance backendRef e : Remembering α) := by
  unfold undo
  split
  · exact (calls_rollback _ _ _).bind fun _ => calls_raise e
  · exact calls_raise e

/-- What `remember` writes, it writes after the decision. -/
theorem calls_write (sources : List String) (hash memoryId : String) :
    Calls Unasked (svc.write chain content sources hash memoryId) := by
  unfold write
  refine Calls.bind (calls_lift_invoke rfl) fun now => ?_
  refine calls_attempted (calls_op rfl) (fun _ => ?_) fun e => ?_
  · refine calls_attempted (calls_op rfl) (fun backendRef => ?_) fun e => calls_undo _ _ _ e
    refine calls_attempted (calls_op rfl) (fun _ => ?_) fun e => calls_undo _ _ _ e
    exact (plain_unasked.calls_memoryEvent _ _ _ _ _ _).bind fun event =>
      (plain_unasked.calls_record event).bind fun _ => calls_pure _
  · dsimp only
    cases e.hoc? with
    | some exc => exact calls_raise _
    | none => exact calls_raise e

theorem calls_lookUp (refs : List String) : Calls Unasked (svc.lookUp refs) := by
  induction refs with
  | nil => exact calls_pure _
  | cons ref rest ih => exact Calls.bind (calls_op rfl) fun row => ih.bind fun rows => calls_pure _

theorem calls_collectSources (rows : List MemoryRecord) :
    ∀ found, Calls Unasked (collectSources found rows) := by
  induction rows with
  | nil => exact fun found => calls_pure _
  | cons row rest ih => exact fun found => Calls.bind (calls_op rfl) fun tuples => ih _

/-- The part before the question leaves the sizes as they are. -/
theorem sizes_bind {α β : Type} {P : List ℕ → Prop} {p : Remembering α} {f : α → Remembering β}
    {tr : Trace MemorySig} {x : Except Thrown β} (hp : Calls Unasked p) (hnil : P [])
    (hf : ∀ a tr, Run (f a) tr x → P (sizes MemoryOp.batchSize tr)) (hrun : Run (p >>= f) tr x) :
    P (sizes MemoryOp.batchSize tr) := by
  rcases run_bind.mp hrun with ⟨e, hfails, -⟩ | ⟨a, tr₁, tr₂, rfl, hpre, hrest⟩
  · rw [Prog.Calls.sizes hp hfails]
    exact hnil
  · rw [sizes_append, Prog.Calls.sizes hp hpre]
    exact hf a tr₂ hrest

/-- A decision on a list asks one batch of its size, or none. -/
theorem sizes_decide {α : Type} {action : Action} {resources : List String}
    {scopeResources : Option (List String)} {resource : Option String} {callArgs : Option Args}
    {callContext : Option DecisionContext} {f : Decision → Remembering α} {tr : Trace MemorySig}
    {x : Except Thrown α} (hf : ∀ d, Calls Unasked (f d))
    (hrun : Run (Remembering.core (svc.decider.decideAll chain action resources scopeResources
      resource callArgs callContext) >>= f) tr x) :
    sizes MemoryOp.batchSize tr = [] ∨ sizes MemoryOp.batchSize tr = [resources.length] := by
  by_cases hreaches : Decider.ReachesEngine chain action resources (scopeResources.getD resources)
  · refine .inr ?_
    refine Prog.Opens.sizes (S := MemorySig)
      (o := .core (.batchCheck chain.subject (resources.map fun r => (action.relation, r))))
      ((opens_core (Decider.opens_decideAll hreaches)).bind hf) ?_ hrun
    exact congrArg some (List.length_map _)
  · exact .inl (Prog.Calls.sizes ((calls_core (Decider.calls_decideAll hreaches)).bind hf) hrun)

/-- **A remember asks one batch about its sources, or none.** -/
theorem sizes_remember {derivedFrom : List String} {tr : Trace MemorySig} {x : Except Thrown Memory}
    (hrun : Run (svc.remember chain content derivedFrom hasPermits) tr x) :
    sizes MemoryOp.batchSize tr = [] ∨
      sizes MemoryOp.batchSize tr = [(dedupe derivedFrom).length] := by
  unfold remember at hrun
  let P : List ℕ → Prop := fun l => l = [] ∨ l = [(dedupe derivedFrom).length]
  refine sizes_bind (P := P) (calls_ofExcept _) (.inl rfl) (fun _ tr hrun => ?_) hrun
  have hid : Calls Unasked Remembering.memoryId := calls_lift_invoke (S := MemorySig) rfl
  refine sizes_bind (P := P) hid (.inl rfl) (fun hex tr hrun => ?_) hrun
  refine sizes_bind (P := P) (plain_unasked.calls_refused _ _) (.inl rfl)
    (fun refused tr hrun => ?_) hrun
  split at hrun
  · -- the token refuses
    refine .inl (Prog.Calls.sizes ?_ hrun)
    refine Calls.bind (calls_ofExcept _) fun hash => ?_
    exact (plain_unasked.calls_memoryEvent _ _ _ _ _ _).bind fun event =>
      (plain_unasked.calls_record event).bind fun _ => calls_raise _
  · refine sizes_bind (P := P) (calls_ofExcept _) (.inl rfl) (fun hash tr hrun => ?_) hrun
    refine sizes_decide (fun d => ?_) hrun
    split
    · exact calls_raise _
    · exact calls_write _ _ _

/-! ### The provenance of a candidate -/

/-- The sources that an answer of the ledger or of the tuple store names. -/
def sourcesNamed : Event MemorySig → List String
  | ⟨.getByBackendRef _ _, .ok (some row)⟩ => row.derivedFrom
  | ⟨.readTuples _ _, .ok tuples⟩ => tuples.map Tuple.user
  | _ => []

/-- The sources that were read. -/
def provenanceIn (tr : Trace MemorySig) : FrozenSet String := .ofList (tr.flatMap sourcesNamed)

theorem mem_provenanceIn {tr : Trace MemorySig} {x : String} :
    x ∈ provenanceIn tr ↔ x ∈ tr.flatMap sourcesNamed := FrozenSet.mem_ofList

/-- The call reads no provenance. -/
def NamesNone (o : MemoryOp) : Prop := ∀ r, sourcesNamed ⟨o, r⟩ = []

theorem flatMap_sourcesNamed_eq_nil {α : Type} {p : Remembering α} {tr : Trace MemorySig}
    {x : Except Thrown α} (hp : Calls NamesNone p) (hrun : Run p tr x) :
    tr.flatMap sourcesNamed = [] :=
  List.flatMap_eq_nil_iff.mpr fun e he => hp.of_run hrun he e.res

/-- The rows of a candidate, as they were read. -/
theorem lookUp_run {refs : List String} : ∀ {tr : Trace MemorySig}
    {rows : List (Option MemoryRecord)}, Run (svc.lookUp refs) tr (.ok rows) → ∀ x,
      x ∈ tr.flatMap sourcesNamed ↔ ∃ row ∈ rows.reduceOption, x ∈ row.derivedFrom := by
  induction refs with
  | nil =>
    intro tr rows hrun x
    obtain ⟨rfl, rfl⟩ := run_pure_ok.mp hrun
    exact iff_of_false List.not_mem_nil fun ⟨row, hrow, _⟩ => absurd hrow List.not_mem_nil
  | cons ref rest ih =>
    intro tr rows hrun x
    obtain ⟨row, tr₁, tr₂, rfl, hget, hrest⟩ := run_bind_ok.mp hrun
    obtain ⟨others, tr₂, tr₃, rfl, hothers, hdone⟩ := run_bind_ok.mp hrest
    obtain ⟨rfl, rfl⟩ := run_pure_ok.mp hdone
    obtain rfl := run_invoke.mp hget
    rw [List.append_nil, List.flatMap_append, List.mem_append, ih hothers]
    cases row with
    | none => exact or_iff_right fun h => absurd h List.not_mem_nil
    | some row =>
      change _ ↔ ∃ found ∈ row :: others.reduceOption, x ∈ found.derivedFrom
      rw [List.exists_mem_cons_iff]
      exact or_congr_left (iff_of_eq (congrArg (x ∈ ·) (List.append_nil _)))

/-- The sources of the rows, and of the tuples that are read for them. -/
theorem collectSources_run {rows : List MemoryRecord} : ∀ {found found' : FrozenSet String}
    {tr : Trace MemorySig}, Run (collectSources found rows) tr (.ok found') → ∀ x,
      x ∈ found' ↔ x ∈ found ∨ (∃ row ∈ rows, x ∈ row.derivedFrom) ∨
        x ∈ tr.flatMap sourcesNamed := by
  induction rows with
  | nil =>
    intro found found' tr hrun x
    obtain ⟨rfl, rfl⟩ := run_pure_ok.mp hrun
    simp
  | cons row rest ih =>
    intro found found' tr hrun x
    obtain ⟨tuples, tr₁, tr₂, rfl, hread, hrest⟩ := run_bind_ok.mp hrun
    obtain rfl := run_invoke.mp hread
    have hnamed : x ∈ List.flatMap sourcesNamed ([⟨.readTuples row.memoryId "derived_from",
        .ok tuples⟩] : Trace MemorySig) ↔ x ∈ tuples.map Tuple.user :=
      iff_of_eq (congrArg (x ∈ ·) (List.append_nil _))
    rw [ih hrest, List.flatMap_append, List.mem_append, hnamed, FrozenSet.mem_union,
      FrozenSet.mem_union, FrozenSet.mem_ofList, FrozenSet.mem_ofList, List.exists_mem_cons_iff]
    simp only [or_assoc, or_left_comm, or_comm]

/-- What a candidate may ask: nothing, or one batch about the provenance that was read for it. -/
def AsksProvenance (tr : Trace MemorySig) : Prop :=
  sizes MemoryOp.batchSize tr = [] ∨
    sizes MemoryOp.batchSize tr = [(provenanceIn tr).items.length]

theorem asksProvenance_of_calls {α : Type} {p : Remembering α} {tr : Trace MemorySig}
    {x : Except Thrown α} (hp : Calls Unasked p) (hrun : Run p tr x) : AsksProvenance tr :=
  .inl (Prog.Calls.sizes hp hrun)

theorem plain_namesNone : Plain NamesNone :=
  ⟨fun _ _ _ => rfl, fun _ => rfl, fun _ => rfl, fun _ _ => rfl⟩

theorem calls_true {S : Sig} {α : Type} (p : Prog S α) : Prog.Calls (fun _ => True) p := by
  induction p with
  | ret a => trivial
  | call o k ih => exact ⟨trivial, ih⟩

theorem namesNone_core {α : Type} (p : Core α) : Calls NamesNone (Remembering.core p) := by
  have hguarded : Prog.Calls (S := MemorySig) NamesNone (p.run.guarded Remembering.decider) :=
    Prog.Calls.guarded (m := Remembering.decider) (calls_true p.run) fun _ _ _ => rfl
  exact hguarded.bind fun _ => trivial

theorem calls_sources (rows : List MemoryRecord) : Calls Unasked (sources rows) :=
  (calls_collectSources rows _).bind fun _ => calls_pure _

/-- **What is asked about a candidate**, unless it is refused before. -/
theorem asks_admitUnguarded {candidate : Candidate} {tr : Trace MemorySig}
    {x : Except Thrown (Option Memory)}
    (hrun : Run (svc.admitUnguarded chain candidate hasPermits) tr x) : AsksProvenance tr := by
  have hdenied : ∀ (memoryId reason : String), Calls Unasked (do
      denyRead chain memoryId reason
      return none : Remembering (Option Memory)) :=
    fun memoryId reason => (plain_unasked.calls_denyRead memoryId reason).bind fun _ => calls_pure _
  unfold admitUnguarded at hrun
  rcases run_bind.mp hrun with ⟨e, hfails, -⟩ | ⟨records, tr₁, tr₂, rfl, hlook, hrest⟩
  · exact asksProvenance_of_calls (calls_lookUp _) hfails
  -- the ledger is read first; it asks the engine nothing
  have hrows := lookUp_run hlook
  have hquiet₁ := Prog.Calls.sizes (calls_lookUp candidate.backendRefs) hlook
  cases hreduced : records.reduceOption with
  | nil =>
    rw [hreduced] at hrest
    refine .inl ?_
    rw [sizes_append, hquiet₁]
    exact Prog.Calls.sizes (hdenied _ _) hrest
  | cons primary others =>
    rw [hreduced] at hrest hrows
    dsimp only at hrest
    split at hrest
    · refine .inl ?_
      rw [sizes_append, hquiet₁]
      exact Prog.Calls.sizes (hdenied _ _) hrest
    rcases run_bind.mp hrest with ⟨e, hfails, -⟩ | ⟨found, tr₃, tr₄, rfl, hsources, htail⟩
    · refine .inl ?_
      rw [sizes_append, hquiet₁]
      exact Prog.Calls.sizes (calls_sources _) hfails
    obtain ⟨set, tr₃, tr₅, rfl, hcollect, hitems⟩ := run_bind_ok.mp hsources
    obtain ⟨rfl, rfl⟩ := run_pure_ok.mp hitems
    have hquiet₃ := Prog.Calls.sizes (calls_collectSources (primary :: others) _) hcollect
    -- nothing after the sources are collected names a source
    have hnamed : tr₄.flatMap sourcesNamed = [] := by
      refine flatMap_sourcesNamed_eq_nil ?_ htail
      refine (plain_namesNone.calls_refused _ _).bind fun refusedRead => ?_
      split
      · exact (plain_namesNone.calls_denyRead _ _).bind fun _ => calls_pure _
      split
      · exact (plain_namesNone.calls_memoryEvent _ _ _ _ _ _).bind fun event =>
          (plain_namesNone.calls_record event).bind fun _ => calls_pure _
      refine (namesNone_core _).bind fun decision =>
        (plain_namesNone.calls_memoryEvent _ _ _ _ _ _).bind fun event =>
          (plain_namesNone.calls_record event).bind fun _ => ?_
      split <;> exact calls_pure _
    have hprovenance : provenanceIn (tr₁ ++ (tr₃ ++ [] ++ tr₄)) = set := by
      ext name
      rw [mem_provenanceIn, List.append_nil, List.flatMap_append, List.flatMap_append, hnamed,
        List.append_nil, List.mem_append, hrows, collectSources_run hcollect]
      exact (or_iff_right FrozenSet.not_mem_empty).symm
    rw [AsksProvenance, hprovenance, sizes_append, hquiet₁, List.append_nil, sizes_append, hquiet₃]
    -- so at most one batch is left, the one of `decide_all` over the sources
    let P : List ℕ → Prop := fun l => l = [] ∨ l = [set.items.length]
    refine sizes_bind (P := P) (plain_unasked.calls_refused _ _) (.inl rfl)
      (fun refusedRead tr hrun => ?_) htail
    split at hrun
    · exact .inl (Prog.Calls.sizes (hdenied _ _) hrun)
    split at hrun
    · exact .inl (Prog.Calls.sizes ((plain_unasked.calls_memoryEvent _ _ _ _ _ _).bind fun event =>
        (plain_unasked.calls_record event).bind fun _ => calls_pure _) hrun)
    refine sizes_decide (fun d => ?_) hrun
    refine (plain_unasked.calls_memoryEvent _ _ _ _ _ _).bind fun event =>
      (plain_unasked.calls_record event).bind fun _ => ?_
    split <;> exact calls_pure _

/-- The handler of a candidate that fails only journals the refusal. -/
theorem Plain.calls_candidateHandler {A : MemoryOp → Prop} (hA : Plain A) (candidate : Candidate)
    (answer : Except Thrown (Option Memory)) : Calls A (match answer with
      | .ok memory => return memory
      | .error e => match e.hoc? with
        | some exc => do
          denyRead chain (candidate.backendRefs.headD "memory:unknown") exc.reason
          return none
        | none => .raise e : Remembering (Option Memory)) := by
  cases answer with
  | ok memory => exact calls_pure _
  | error e =>
    dsimp only
    cases e.hoc? with
    | some exc => exact (hA.calls_denyRead _ _).bind fun _ => calls_pure _
    | none => exact calls_raise _

theorem asks_admitCandidate {candidate : Candidate} {tr : Trace MemorySig}
    {x : Except Thrown (Option Memory)}
    (hrun : Run (svc.admitCandidate chain candidate hasPermits) tr x) : AsksProvenance tr := by
  obtain ⟨answer, tr₁, tr₂, rfl, hadmit, hrest⟩ := run_attempt_bind.mp hrun
  have hprovenance : provenanceIn (tr₁ ++ tr₂) = provenanceIn tr₁ := by
    rw [provenanceIn, List.flatMap_append,
      flatMap_sourcesNamed_eq_nil (plain_namesNone.calls_candidateHandler _ answer) hrest,
      List.append_nil, provenanceIn]
  rw [AsksProvenance, hprovenance, sizes_append,
    Prog.Calls.sizes (plain_unasked.calls_candidateHandler _ answer) hrest, List.append_nil]
  exact asks_admitUnguarded hadmit

/-- **What a recall asks**: after the search, for one candidate after the other. -/
theorem admitAll_run {limit : ℤ} {candidates : List Candidate} : ∀ {kept : List Memory}
    {tr : Trace MemorySig} {x : Except Thrown (List Memory)},
    Run (svc.admitAll chain hasPermits limit candidates kept) tr x →
      ∃ parts : List (Trace MemorySig), tr = parts.flatten ∧
        ∀ part ∈ parts, ∃ candidate ∈ candidates, ∃ y,
          Run (svc.admitCandidate chain candidate hasPermits) part y := by
  -- the induction is on the candidates; each that is looked at makes one part
  induction candidates with
  | nil =>
    intro kept tr x hrun
    obtain ⟨rfl, -⟩ := run_pure.mp hrun
    exact ⟨[], rfl, fun _ h => absurd h List.not_mem_nil⟩
  | cons candidate rest ih =>
    intro kept tr x hrun
    rw [admitAll] at hrun
    rcases run_bind.mp hrun with ⟨e, hfails, -⟩ | ⟨memory, tr₁, tr₂, rfl, hadmit, hrest⟩
    · refine ⟨[tr], (List.append_nil tr).symm, List.forall_mem_singleton.mpr ?_⟩
      exact ⟨candidate, List.mem_cons_self, _, hfails⟩
    · have hfirst : ∃ c ∈ candidate :: rest, ∃ y,
          Run (svc.admitCandidate chain c hasPermits) tr₁ y :=
        ⟨candidate, List.mem_cons_self, _, hadmit⟩
      dsimp only at hrest
      split at hrest
      · obtain ⟨rfl, -⟩ := run_pure.mp hrest
        exact ⟨[tr₁], rfl, List.forall_mem_singleton.mpr hfirst⟩
      · obtain ⟨parts, rfl, hparts⟩ := ih hrest
        refine ⟨tr₁ :: parts, rfl, List.forall_mem_cons.mpr ⟨hfirst, fun part hpart => ?_⟩⟩
        obtain ⟨c, hc, hadmitted⟩ := hparts part hpart
        exact ⟨c, List.mem_cons_of_mem _ hc, hadmitted⟩

/-- The parts of a recall that are about a candidate, after the search. -/
theorem recall_run {query : PyStr} {limit : ℤ} {tr : Trace MemorySig}
    {x : Except Thrown (List Memory)}
    (hrun : Run (svc.recall chain query limit hasPermits) tr x) :
    ∃ (opening : Trace MemorySig) (parts : List (Trace MemorySig)), tr = opening ++ parts.flatten ∧
      sizes MemoryOp.batchSize opening = [] ∧
      ∀ part ∈ parts, ∃ candidate y,
        Run (svc.admitCandidate chain candidate hasPermits) part y := by
  obtain ⟨answer, tr₁, tr₂, rfl, hsearch, hrest⟩ := run_attempt_bind.mp hrun
  have hcall : Calls Unasked (Remembering.search query svc.space (max 1 (min limit MAX_LIMIT))) :=
    calls_op (o := .search query svc.space (max 1 (min limit MAX_LIMIT))) rfl
  have hquiet : sizes MemoryOp.batchSize tr₁ = [] := Prog.Calls.sizes hcall hsearch
  -- a search that fails is journaled or raised, and admits nothing
  cases answer with
  | error e =>
    refine ⟨tr₁ ++ tr₂, [], (List.append_nil _).symm, ?_, fun _ h => absurd h List.not_mem_nil⟩
    rw [sizes_append, hquiet]
    dsimp only at hrest
    split at hrest
    · exact Prog.Calls.sizes ((plain_unasked.calls_denyRead _ _).bind fun _ => calls_pure _) hrest
    · obtain ⟨rfl, -⟩ := run_raise.mp hrest
      rfl
  | ok candidates =>
    obtain ⟨parts, rfl, hparts⟩ := admitAll_run hrest
    refine ⟨tr₁, parts, rfl, hquiet, fun part hpart => ?_⟩
    obtain ⟨candidate, -, y, hadmit⟩ := hparts part hpart
    exact ⟨candidate, y, hadmit⟩

/-- A batch of the size, or none, is within the limit where the size is. -/
theorem withinLimit_one {l : List ℕ} {n : ℕ} (h : l = [] ∨ l = [n]) :
    WithinLimit l ↔ (l ≠ [] → n ≤ BATCH_LIMIT) := by
  rcases h with rfl | rfl
  · exact iff_of_true withinLimit_nil fun hne => absurd rfl hne
  · rw [withinLimit_singleton]
    exact ⟨fun hle _ => hle, fun hle => hle (List.cons_ne_nil _ _)⟩

theorem withinLimit_flatten {parts : List (Trace MemorySig)} :
    WithinLimit (sizes MemoryOp.batchSize parts.flatten) ↔
      ∀ part ∈ parts, WithinLimit (sizes MemoryOp.batchSize part) := by
  induction parts with
  | nil => exact iff_of_true withinLimit_nil fun _ h => absurd h List.not_mem_nil
  | cons part rest ih =>
    rw [List.flatten_cons, sizes_append, withinLimit_append, ih, List.forall_mem_cons]

end MemoryService

/-! ### The limit -/

/-- **Which batches are within the limit.** Those of `decide_each` always are. `decide_all` is
within it unless a list that gets as far as the engine is longer; a remember, unless it asks about
more sources; a recall, unless it asks about a candidate of more sources; and `pending_for`, unless
more requests are pending. -/
theorem batches_within_limit_iff (D : Decider) (svc : MemoryService) (chain : PrincipalChain) :
    (∀ action targets auditEach callArgs callContext tr x,
      Run (D.decideEach chain action targets auditEach callArgs callContext) tr x →
        WithinLimit (sizes CoreOp.batchSize tr)) ∧
    (∀ action resources scopeResources resource callArgs callContext tr x,
      Run (D.decideAll chain action resources scopeResources resource callArgs callContext) tr x →
        (WithinLimit (sizes CoreOp.batchSize tr) ↔
          (Decider.ReachesEngine chain action resources (scopeResources.getD resources) →
            resources.length ≤ BATCH_LIMIT))) ∧
    (∀ content derivedFrom hasPermits tr x,
      Run (svc.remember chain content derivedFrom hasPermits) tr x →
        (WithinLimit (sizes MemoryOp.batchSize tr) ↔
          (sizes MemoryOp.batchSize tr ≠ [] → (dedupe derivedFrom).length ≤ BATCH_LIMIT))) ∧
    (∀ query limit hasPermits tr x, Run (svc.recall chain query limit hasPermits) tr x →
      ∃ (opening : Trace MemorySig) (parts : List (Trace MemorySig)),
        tr = opening ++ parts.flatten ∧
        (∀ part ∈ parts, ∃ candidate y,
          Run (svc.admitCandidate chain candidate hasPermits) part y) ∧
        (WithinLimit (sizes MemoryOp.batchSize tr) ↔
          ∀ part ∈ parts, sizes MemoryOp.batchSize part ≠ [] →
            (MemoryService.provenanceIn part).items.length ≤ BATCH_LIMIT)) ∧
    (∀ user tr x, Run (ActionGate.pendingFor user) tr x →
      (WithinLimit (sizes GateOp.batchSize tr) ↔
        ∀ pending, (⟨.listPending none, .ok pending⟩ : Event GateSig) ∈ tr →
          pending.length ≤ BATCH_LIMIT)) := by
  refine ⟨fun _ _ _ _ _ _ _ hrun => Decider.decideEach_within hrun,
    fun action resources scopeResources resource callArgs callContext tr x hrun => ?_,
    fun _ _ _ _ _ hrun => MemoryService.withinLimit_one (MemoryService.sizes_remember hrun),
    fun _ _ _ _ _ hrun => ?_, fun _ _ _ hrun => ActionGate.pendingFor_within_iff hrun⟩
  · -- `decide_all` asks about all of its resources at once, and only where the scope covers them
    by_cases hreaches : Decider.ReachesEngine chain action resources (scopeResources.getD resources)
    · have hsizes : sizes CoreOp.batchSize tr = [resources.length] :=
        Prog.Opens.sizes (S := CoreSig)
          (o := CoreOp.batchCheck chain.subject (resources.map fun r => (action.relation, r)))
          (Prog.Opens.imp (Decider.opens_decideAll hreaches) fun _ => batchSize_of_singleCall)
          (congrArg some (List.length_map _)) hrun
      rw [hsizes, withinLimit_singleton]
      exact ⟨fun hle _ => hle, fun hle => hle hreaches⟩
    · have hsizes : sizes CoreOp.batchSize tr = [] :=
        Prog.Calls.sizes (Prog.Calls.imp (Decider.calls_decideAll hreaches) fun _ =>
          batchSize_of_singleCall) hrun
      rw [hsizes]
      exact iff_of_true withinLimit_nil fun h => absurd h hreaches
  · -- a recall asks once for each candidate, about the sources of its memories
    obtain ⟨opening, parts, rfl, hquiet, hparts⟩ := MemoryService.recall_run hrun
    refine ⟨opening, parts, rfl, hparts, ?_⟩
    rw [sizes_append, hquiet, List.nil_append, MemoryService.withinLimit_flatten]
    refine forall₂_congr fun part hpart => ?_
    obtain ⟨candidate, y, hadmit⟩ := hparts part hpart
    exact MemoryService.withinLimit_one (MemoryService.asks_admitCandidate hadmit)

/-- The batch of a decision on two documents. -/
theorem batches_within_limit_two :
    WithinLimit (sizes (S := CoreSig) CoreOp.batchSize
      ((Decider.guarded.decideAll .aliceReader .read
      ["doc:1", "doc:2"] none none none none).run.exec Decider.agreeable).1) :=
  ((batches_within_limit_iff Decider.guarded ⟨Decider.guarded, "local", "hoc"⟩
    .aliceReader).2.1 .read ["doc:1", "doc:2"] none none none none _ _
    (run_result (S := CoreSig) Decider.agreeable _)).mpr fun _ => by decide

/-! ### One document too many -/

/-- An engine that relates everything and refuses a batch that is too large. -/
def limitedEngine : ∀ o, CoreOp.Res o
  | .batchCheck _ items =>
    if BATCH_LIMIT < items.length then .error (.other "ValidationError")
    else .ok (items.map fun _ => true)
  | o => Decider.agreeable o

/-- One document more than the engine accepts in a batch. -/
def oneTooMany : List String :=
  (List.range (BATCH_LIMIT + 1)).map fun n => "doc:" ++ String.ofList (Decimal.natText n)

/-- **It can fail.** A decision on fifty-one documents asks about all of them at once; an engine
that keeps to its limit refuses, and documents that are each allowed are denied together. -/
theorem large_batch_asked :
    (∃ tr x, Run (Decider.guarded.decideAll .aliceReader .read oneTooMany none none none none)
      tr x ∧
      ¬ WithinLimit (sizes CoreOp.batchSize tr)) ∧
    (∀ document ∈ oneTooMany, (Raises.result (S := CoreSig) limitedEngine
      (Decider.guarded.decide .aliceReader .read document none none)).returns
        (fun d => d.outcome = .allow) = true) ∧
    (Raises.result (S := CoreSig) limitedEngine
      (Decider.guarded.decideAll .aliceReader .read oneTooMany none none none none)).returns
        (fun d => d.outcome = .deny ∧ d.reason = "engine_error") = true := by
  refine ⟨⟨_, _, run_result (S := CoreSig) limitedEngine _, fun hwithin => ?_⟩,
    by decide +kernel, by decide +kernel⟩
  have hasked : sizes (S := CoreSig) CoreOp.batchSize ((Decider.guarded.decideAll .aliceReader .read
      oneTooMany none none none none).run.exec limitedEngine).1 = [BATCH_LIMIT + 1] := by
    decide +kernel
  rw [hasked, withinLimit_singleton] at hwithin
  exact absurd hwithin (Nat.not_succ_le_self _)

end HeadOfContext
