import HeadOfContext.Memory.Runs

/-!
# What a remembered memory leaves, and what a refused one

`remember` writes the tuples, the content, the ledger row and the journal, in this order. Where
the content or the row fails, `undo` takes the earlier writes back, if what was raised derives
from `Exception`. `remember_all_or_nothing_iff` says that this is exactly what it takes: the
memory is there as a whole, or the stores are as they were, unless the last write of the four
fails, to the journal, or one of the two in the middle raises something that is not an
`Exception`.
-/

namespace HeadOfContext

open Effects MemoryState

/-- The calls that `rollback` makes. -/
def MemoryOp.Undoes : MemoryOp → Prop
  | .deleteContent _ _ => True
  | .deleteTuples _ => True
  | .deleteRow _ => True
  | _ => False

/-- A call that raises has no effect, and the calls of a rollback do not raise. -/
def FailsCleanly (conduct : Conduct) : Prop :=
  ∀ o e s s', conduct.raises o e s s' → ¬ o.Undoes ∧ s' = s.raised o e

/-- What a memory leaves that was remembered: a tuple for every source and one for the writer,
its content, its row, and its event. -/
structure Holds (svc : MemoryService) (chain : PrincipalChain) (content : PyStr)
    (derivedFrom : List String) (memory : Memory) (s : MemoryState) : Prop where
  derived : ∀ d ∈ derivedFrom, ⟨d, "derived_from", memory.memoryId⟩ ∈ s.tuples
  writer : ⟨chain.actor, "writer", memory.memoryId⟩ ∈ s.tuples
  row : ∃ row, s.ledger.get memory.memoryId = some row ∧ row.memoryId = memory.memoryId ∧
    row.writtenFor = chain.subject ∧ row.writtenBy = chain.actor ∧
    row.derivedFrom = dedupe derivedFrom ∧ row.backend = svc.backend ∧
    s.content.get (svc.space, row.backendRef) = some (memory.memoryId, content)
  journal : ∃ event, s.journal.getLast? = some event ∧ event.kind = .memoryWritten ∧
    event.resource = .str (.ofString memory.memoryId) ∧
    event.outcome = .str (.ofString "written")

/-- **All or nothing**: the memory is there as a whole, or the stores are as before the call. -/
def AllOrNothing (svc : MemoryService) (chain : PrincipalChain) (content : PyStr)
    (derivedFrom : List String) (s : MemoryState) (r : Except Thrown Memory) (s' : MemoryState) :
    Prop :=
  match r with
  | .ok memory => Holds svc chain content derivedFrom memory s'
  | .error _ => SameStores s s'

/-- The failures that nothing is undone for: what is no `Exception`, at the content or at the
row, and any at the event of the written memory. -/
def Unhandled : MemoryOp × Thrown → Prop
  | (.store _ _ _, e) => e.isException = false
  | (.put _, e) => e.isException = false
  | (.record event, _) => event.outcome = .str (.ofString "written")
  | _ => False

section Remember

variable {svc : MemoryService} {conduct : Conduct} {start s : MemoryState}

/-- A write to the journal happens, or fails and is put on record. -/
theorem record_ends (h : FailsCleanly conduct) {event : AuditEvent} :
    Raises.Ends (memoryWorld conduct start)
      (fun r s' => (r = .ok () ∧ s' = s.journaled event) ∨
        ∃ e, r = .error e ∧ s' = s.raised (.record event) e)
      (Remembering.record event) s := by
  intro r s' hstep
  match r with
  | .ok () => exact .inl ⟨rfl, hstep⟩
  | .error e => exact .inr ⟨e, rfl, (h _ _ _ _ hstep).2⟩

theorem writeTuples_ends (h : FailsCleanly conduct) {provenance : List Tuple} :
    Raises.Ends (memoryWorld conduct start)
      (fun r s' => (r = .ok () ∧ s' = s.write provenance) ∨
        ∃ e, r = .error e ∧ s' = s.raised (.writeTuples provenance) e)
      (Remembering.writeTuples provenance) s := by
  intro r s' hstep
  cases r with
  | ok u => exact .inl ⟨rfl, hstep⟩
  | error e => exact .inr ⟨e, rfl, (h _ _ _ _ hstep).2⟩

/-- Content that is stored gets a reference that was free. -/
theorem store_ends (h : FailsCleanly conduct) {memoryId space : String} {content : PyStr} :
    Raises.Ends (memoryWorld conduct start)
      (fun r s' => (∃ ref, r = .ok ref ∧ s.content.get (space, ref) = none ∧
          s' = s.keep memoryId content space ref) ∨
        ∃ e, r = .error e ∧ s' = s.raised (.store memoryId content space) e)
      (Remembering.store memoryId content space) s := by
  intro r s' hstep
  cases r with
  | ok ref => exact .inl ⟨ref, rfl, hstep.1, hstep.2⟩
  | error e => exact .inr ⟨e, rfl, (h _ _ _ _ hstep).2⟩

theorem put_ends (h : FailsCleanly conduct) {record : MemoryRecord} :
    Raises.Ends (memoryWorld conduct start)
      (fun r s' => (r = .ok () ∧ s' = s.put record) ∨
        ∃ e, r = .error e ∧ s' = s.raised (.put record) e)
      (Remembering.put record) s := by
  intro r s' hstep
  cases r with
  | ok u => exact .inl ⟨rfl, hstep⟩
  | error e => exact .inr ⟨e, rfl, (h _ _ _ _ hstep).2⟩

theorem deleteContent_ends (h : FailsCleanly conduct) {ref space : String} :
    Raises.Ends (memoryWorld conduct start) (fun r s' => r = .ok () ∧ s' = s.discard ref space)
      (Remembering.deleteContent ref space) s := by
  intro r s' hstep
  cases r with
  | ok u => exact ⟨rfl, hstep⟩
  | error e => exact absurd trivial (h _ _ _ _ hstep).1

theorem deleteTuples_ends (h : FailsCleanly conduct) {provenance : List Tuple} :
    Raises.Ends (memoryWorld conduct start) (fun r s' => r = .ok () ∧ s' = s.delete provenance)
      (Remembering.deleteTuples provenance) s := by
  intro r s' hstep
  cases r with
  | ok u => exact ⟨rfl, hstep⟩
  | error e => exact absurd trivial (h _ _ _ _ hstep).1

theorem deleteRow_ends (h : FailsCleanly conduct) {memoryId : String} :
    Raises.Ends (memoryWorld conduct start) (fun r s' => r = .ok () ∧ s' = s.deleteRow memoryId)
      (Remembering.deleteRow memoryId) s := by
  intro r s' hstep
  cases r with
  | ok u => exact ⟨rfl, hstep⟩
  | error e => exact absurd trivial (h _ _ _ _ hstep).1

/-- The part of a rollback that does not depend on a reference. -/
theorem rollbackTuples_ends (h : FailsCleanly conduct) {memoryId : String}
    {provenance : List Tuple} :
    Raises.Ends (memoryWorld conduct start)
      (fun r s' => r = .ok () ∧ s' = (s.delete provenance).deleteRow memoryId)
      (do
        match ← (Remembering.deleteTuples provenance).attempt with
        | .ok () => pure ()
        | .error e => if e.hoc?.isSome then pure () else .raise e
        match ← (Remembering.deleteRow memoryId).attempt with
        | .ok () => pure ()
        | .error e => if e.hoc?.isSome then pure () else .raise e) s := by
  refine (deleteTuples_ends h).attempt_bind fun r s₁ h₁ => ?_
  obtain ⟨rfl, rfl⟩ := h₁
  refine (deleteRow_ends h).attempt_bind fun r s₂ h₂ => ?_
  obtain ⟨rfl, rfl⟩ := h₂
  exact Raises.ends_pure.mpr ⟨rfl, rfl⟩

/-- **A rollback that does not fail**, after the tuples, and the content if it has a reference,
were written for a memory id that was fresh. -/
theorem rollback_ends (h : FailsCleanly conduct) {memoryId : String} {provenance : List Tuple}
    {backendRef : Option String} :
    Raises.Ends (memoryWorld conduct start)
      (fun r s' => r = .ok () ∧
        s' = ((match backendRef with
          | none => s
          | some ref => s.discard ref svc.space).delete provenance).deleteRow memoryId)
      (svc.rollback memoryId provenance backendRef) s := by
  cases backendRef with
  | none => exact rollbackTuples_ends h
  | some ref =>
    refine (deleteContent_ends h).attempt_bind fun r s₁ h₁ => ?_
    obtain ⟨rfl, rfl⟩ := h₁
    exact rollbackTuples_ends h

/-- The way a run of `remember` ends that the theorem is about. -/
def EndsWell (svc : MemoryService) (chain : PrincipalChain) (content : PyStr)
    (derivedFrom : List String) (s : MemoryState) (r : Except Thrown Memory) (s' : MemoryState) :
    Prop :=
  AllOrNothing svc chain content derivedFrom s r s' ↔ ∀ f ∈ s'.failed, ¬ Unhandled f

variable {chain : PrincipalChain} {content : PyStr} {derivedFrom : List String}

/-- Before anything is written, a run may stop anywhere. -/
theorem endsWell_of_journaling {s' : MemoryState} {e : Thrown} (hs : s.failed = [])
    (h : Journaling s s') : EndsWell svc chain content derivedFrom s (.error e) s' := by
  refine iff_of_true h.stores fun f hf => ?_
  rw [h.failed, hs] at hf
  exact absurd hf List.not_mem_nil

/-- A refusal that is journaled, or fails to be. -/
theorem endsWell_of_raised {s' : MemoryState} {e : Thrown} {o : MemoryOp} {exc : Thrown}
    (hs : s.failed = []) (h : Journaling s s') (hhandled : ¬ Unhandled (o, exc)) :
    EndsWell svc chain content derivedFrom s (.error e) (s'.raised o exc) := by
  refine iff_of_true ⟨h.stores.tuples, h.stores.content, h.stores.ledger⟩ fun f hf => ?_
  change f ∈ s'.failed ++ [(o, exc)] at hf
  rw [h.failed, hs] at hf
  rw [List.mem_singleton.mp hf]
  exact hhandled

theorem mem_dedupe {items : List String} {d : String} : d ∈ dedupe items ↔ d ∈ items := by
  unfold dedupe
  rw [Dict.mem_keys]
  simp [Dict.get_fromKeys]

/-- The tuples of a memory. -/
def provenanceOf (chain : PrincipalChain) (memoryId : String) (derivedFrom : List String) :
    List Tuple :=
  ((dedupe derivedFrom).map fun d => (⟨d, "derived_from", memoryId⟩ : Tuple)) ++
    [⟨chain.actor, "writer", memoryId⟩]

theorem obj_of_mem_provenanceOf {memoryId : String} {t : Tuple}
    (h : t ∈ provenanceOf chain memoryId derivedFrom) : t.obj = memoryId := by
  rcases List.mem_append.mp h with hderived | hwriter
  · obtain ⟨d, -, rfl⟩ := List.mem_map.mp hderived
    rfl
  · rw [List.mem_singleton.mp hwriter]

/-- Tuples of a fresh id that are written and deleted again leave the others as they were. -/
theorem tuples_undone {hex : String} (hfresh : s.Fresh hex) :
    (s.tuples.sdiff (.ofList (provenanceOf chain ("memory:" ++ hex) derivedFrom)) = s.tuples) ∧
      (((FrozenSet.ofList (provenanceOf chain ("memory:" ++ hex) derivedFrom)).union s.tuples).sdiff
        (.ofList (provenanceOf chain ("memory:" ++ hex) derivedFrom))) = s.tuples := by
  have hnot : ∀ t ∈ s.tuples, t ∉ provenanceOf chain ("memory:" ++ hex) derivedFrom :=
    fun t ht hmem => hfresh.tuples t ht (obj_of_mem_provenanceOf hmem)
  refine ⟨FrozenSet.ext fun t => ?_, FrozenSet.ext fun t => ?_⟩
  · rw [FrozenSet.mem_sdiff, FrozenSet.mem_ofList]
    exact ⟨fun h => h.1, fun h => ⟨h, hnot t h⟩⟩
  · rw [FrozenSet.mem_sdiff, FrozenSet.mem_union, FrozenSet.mem_ofList]
    exact ⟨fun h => h.1.resolve_left h.2, fun h => ⟨.inr h, hnot t h⟩⟩

/-- A step that writes to no store: where it raises, the run ends well. -/
theorem endsWell_bind {α : Type} {p : Remembering α} {f : α → Remembering Memory}
    {P : α → MemoryState → Prop} {s₁ : MemoryState} (hs : s.failed = [])
    (hp : Raises.Ends (memoryWorld conduct start)
      (fun r s' => Journaling s s' ∧ ∀ a, r = .ok a → P a s') p s₁)
    (hnext : ∀ a s', Journaling s s' → P a s' →
      Raises.Ends (memoryWorld conduct start) (EndsWell svc chain content derivedFrom s) (f a) s') :
    Raises.Ends (memoryWorld conduct start) (EndsWell svc chain content derivedFrom s)
      (p >>= f) s₁ :=
  hp.bind (fun a s' h => hnext a s' h.1 (h.2 a rfl)) fun _ _ h => endsWell_of_journaling hs h.1

/-- A refused write: its event is journaled, or fails to be. -/
theorem endsWell_refuse (h : FailsCleanly conduct) {s₁ : MemoryState} (hs : s.failed = [])
    (hquiet : Journaling s s₁) {memoryId : String} {hash : Option String} {count : ℕ}
    {reason : Option String} {denied : Thrown} :
    Raises.Ends (memoryWorld conduct start) (EndsWell svc chain content derivedFrom s)
      (do
        let event ← MemoryService.memoryEvent .memoryWritten chain memoryId "DENY" hash count reason
        Remembering.record event
        .raise denied) s₁ := by
  refine endsWell_bind hs (P := fun event s' => s' = s₁ ∧
    event.outcome = .str (.ofString "DENY")) (memoryEvent_ends.mono fun r s' hr => ?_)
    fun event s₂ hquiet₂ hevent => ?_
  · obtain ⟨rfl, event, rfl, -, -, houtcome⟩ := hr
    exact ⟨hquiet, fun a ha => ⟨rfl, Except.ok.inj ha ▸ houtcome⟩⟩
  obtain ⟨rfl, houtcome⟩ := hevent
  refine (record_ends h).bind (fun _ s₃ h₃ => ?_) fun e s₃ h₃ => ?_
  · rcases h₃ with ⟨-, rfl⟩ | ⟨e, he, -⟩
    · exact Raises.ends_raise.mpr (endsWell_of_journaling hs
        (hquiet.trans ⟨⟨rfl, rfl, rfl⟩, rfl, List.prefix_append _ _⟩))
    · exact nomatch he
  · rcases h₃ with ⟨he, -⟩ | ⟨e', -, rfl⟩
    · exact nomatch he
    · -- an event that fails to be journaled is that of the refusal
      refine endsWell_of_raised hs hquiet fun hwritten => ?_
      have hsame : Json.str (.ofString "DENY") = .str (.ofString "written") :=
        houtcome.symm.trans hwritten
      exact absurd (Json.str.inj hsame) (by decide)

/-- What has been written when the content or the row fails: the tuples of the fresh id, and the
content where it has a reference. -/
structure HalfWritten (svc : MemoryService) (chain : PrincipalChain) (derivedFrom : List String)
    (hex : String) (backendRef : Option String) (s s' : MemoryState) : Prop where
  tuples : s'.tuples =
    (FrozenSet.ofList (provenanceOf chain ("memory:" ++ hex) derivedFrom)).union s.tuples
  content : match backendRef with
    | none => s'.content = s.content
    | some ref => s.content.get (svc.space, ref) = none ∧
      ∃ v, s'.content = s.content.set (svc.space, ref) v
  ledger : s'.ledger = s.ledger

/-- Half-written stores are not as before: there is a writer. -/
theorem HalfWritten.changed {hex : String} {backendRef : Option String} {s' : MemoryState}
    (hfresh : s.Fresh hex) (h : HalfWritten svc chain derivedFrom hex backendRef s s') :
    ¬ SameStores s s' := by
  intro hsame
  have hwriter : (⟨chain.actor, "writer", "memory:" ++ hex⟩ : Tuple) ∈ s.tuples := by
    rw [← hsame.tuples, h.tuples, FrozenSet.mem_union, FrozenSet.mem_ofList]
    exact .inl (List.mem_append_right _ (List.mem_singleton.mpr rfl))
  exact hfresh.tuples _ hwriter rfl

/-- **Undoing** what is half-written takes it all back, if it is done at all. -/
theorem endsWell_undo (h : FailsCleanly conduct) {hex : String} (hfresh : s.Fresh hex)
    {backendRef : Option String} {s₁ : MemoryState} {o : MemoryOp} {e : Thrown}
    (hhalf : HalfWritten svc chain derivedFrom hex backendRef s s₁)
    (hfailed : s₁.failed = [(o, e)]) (hunhandled : Unhandled (o, e) ↔ e.isException = false) :
    Raises.Ends (memoryWorld conduct start) (EndsWell svc chain content derivedFrom s)
      (svc.undo ("memory:" ++ hex) (provenanceOf chain ("memory:" ++ hex) derivedFrom) backendRef e)
      s₁ := by
  unfold MemoryService.undo
  split
  · next hexception =>
    -- the handler rolls back and raises again; a rollback does not fail
    refine (rollback_ends h).bind (fun _ s₂ h₂ => ?_) fun e s₂ h₂ => nomatch h₂.1
    obtain ⟨-, rfl⟩ := h₂
    refine Raises.ends_raise.mpr (iff_of_true ?_ fun f hf => ?_)
    · -- the tuples and the content are new, so deleting them restores what was there
      have hledger : s.ledger.pop ("memory:" ++ hex) = s.ledger :=
        Dict.pop_of_get_eq_none hfresh.ledger
      cases backendRef with
      | none =>
        refine ⟨?_, hhalf.content, ?_⟩
        · change s₁.tuples.sdiff _ = s.tuples
          rw [hhalf.tuples]
          exact (tuples_undone hfresh).2
        · change s₁.ledger.pop _ = s.ledger
          rw [hhalf.ledger, hledger]
      | some ref =>
        obtain ⟨hnew, v, hcontent⟩ := hhalf.content
        refine ⟨?_, ?_, ?_⟩
        · change s₁.tuples.sdiff _ = s.tuples
          rw [hhalf.tuples]
          exact (tuples_undone hfresh).2
        · change s₁.content.pop _ = s.content
          rw [hcontent, Dict.pop_set hnew]
        · change s₁.ledger.pop _ = s.ledger
          rw [hhalf.ledger, hledger]
    · have hsame : f ∈ s₁.failed := by
        cases backendRef with
        | none => exact hf
        | some ref => exact hf
      rw [hfailed] at hsame
      rw [List.mem_singleton.mp hsame, hunhandled, hexception]
      simp
  · next hbase =>
    -- a `BaseException` passes the handler, and the half that was written stays
    refine Raises.ends_raise.mpr (iff_of_false (hhalf.changed hfresh) fun hall => ?_)
    refine hall (o, e) (by rw [hfailed]; exact List.mem_singleton.mpr rfl) ?_
    exact hunhandled.mpr (by simpa using hbase)

/-- A drawn id is fresh. -/
theorem memoryId_ends :
    Raises.Ends (memoryWorld conduct start)
      (fun r s' => s' = s ∧ ∃ hex, r = .ok hex ∧ IsUuidHex hex ∧ s.Fresh hex)
      Remembering.memoryId s :=
  Raises.ends_lift_invoke.mpr fun r _ h => ⟨h.2.2, r, rfl, h.1, h.2.1⟩

theorem now_ends :
    Raises.Ends (memoryWorld conduct start) (fun _ s' => s' = s) Remembering.now s :=
  Raises.ends_lift_invoke.mpr fun _ _ h => h

/-- **The writes**, from stores in which only the journal has grown. -/
theorem write_ends (h : FailsCleanly conduct) (hs : s.failed = []) {s₁ : MemoryState}
    (hquiet : Journaling s s₁) {hex hash : String} (hfresh : s.Fresh hex) :
    Raises.Ends (memoryWorld conduct start) (EndsWell svc chain content derivedFrom s)
      (svc.write chain content (dedupe derivedFrom) hash ("memory:" ++ hex)) s₁ := by
  unfold MemoryService.write
  set memoryId := "memory:" ++ hex with hid
  refine endsWell_bind hs (P := fun _ s' => s' = s₁)
    (now_ends.mono fun r s' hr => ⟨by rw [hr]; exact hquiet, fun _ _ => hr⟩) fun now s₂ _ h₂ => ?_
  obtain rfl : s₁ = s₂ := h₂.symm
  change Raises.Ends (memoryWorld conduct start) _
    ((Remembering.writeTuples (provenanceOf chain memoryId derivedFrom)).attempt >>= _) s₁
  -- the tuples
  refine (writeTuples_ends h).attempt_bind fun r s₂ h₂ => ?_
  rcases h₂ with ⟨rfl, rfl⟩ | ⟨e, rfl, rfl⟩
  swap
  · have hend : ∀ e', EndsWell svc chain content derivedFrom s (.error e')
        (s₁.raised (.writeTuples (provenanceOf chain memoryId derivedFrom)) e) :=
      fun e' => endsWell_of_raised hs hquiet id
    dsimp only
    cases e.hoc? with
    | some exc => exact Raises.ends_raise.mpr (hend _)
    | none => exact Raises.ends_raise.mpr (hend _)
  have htuples : (s₁.write (provenanceOf chain memoryId derivedFrom)).tuples =
      (FrozenSet.ofList (provenanceOf chain memoryId derivedFrom)).union s.tuples := by
    rw [← hquiet.stores.tuples]
    rfl
  have hfailed : s₁.failed = [] := hquiet.failed.trans hs
  -- the content
  refine (store_ends h).attempt_bind fun r s₂ h₂ => ?_
  rcases h₂ with ⟨ref, rfl, hnew, rfl⟩ | ⟨e, rfl, rfl⟩
  swap
  · refine endsWell_undo h hfresh (o := .store memoryId content svc.space)
      ⟨htuples, hquiet.stores.content, hquiet.stores.ledger⟩ ?_ Iff.rfl
    change s₁.failed ++ [_] = [_]
    rw [hfailed]
    rfl
  -- the row
  set record : MemoryRecord := ⟨memoryId, chain.subject, chain.actor, dedupe derivedFrom, hash,
    svc.backend, ref, now⟩ with hrecord
  set stored := (s₁.write (provenanceOf chain memoryId derivedFrom)).keep memoryId content svc.space
    ref with hstored
  have hcontent : s.content.get (svc.space, ref) = none ∧
      ∃ v, stored.content = s.content.set (svc.space, ref) v := by
    rw [← hquiet.stores.content]
    exact ⟨hnew, _, rfl⟩
  refine (put_ends h).attempt_bind fun r s₂ h₂ => ?_
  rcases h₂ with ⟨rfl, rfl⟩ | ⟨e, rfl, rfl⟩
  swap
  · refine endsWell_undo h hfresh (o := .put record) ⟨htuples, hcontent, hquiet.stores.ledger⟩ ?_
      Iff.rfl
    change s₁.failed ++ [_] = [_]
    rw [hfailed]
    rfl
  -- the event
  refine memoryEvent_ends.bind (fun event s₂ h₂ => ?_) fun e s₂ h₂ => ?_
  swap
  · obtain ⟨-, event, heq, -⟩ := h₂
    cases heq
  obtain ⟨rfl, event', heq, hkind, hresource, houtcome⟩ := h₂
  obtain rfl := Except.ok.inj heq
  refine (record_ends h).bind (fun _ s₃ h₃ => ?_) fun e s₃ h₃ => ?_
  · rcases h₃ with ⟨-, rfl⟩ | ⟨e, he, -⟩
    swap
    · cases he
    refine Raises.ends_pure.mpr (iff_of_true ?_ fun f hf => ?_)
    · refine ⟨fun d hd => ?_, ?_, ⟨record, Dict.get_set.trans (if_pos rfl), rfl, rfl, rfl, rfl, rfl,
        Dict.get_set.trans (if_pos rfl)⟩, ⟨event, List.getLast?_concat, hkind, hresource, houtcome⟩⟩
      · refine MemoryState.mem_write.mpr (.inl (List.mem_append_left _ (List.mem_map.mpr ?_)))
        exact ⟨d, mem_dedupe.mpr hd, rfl⟩
      · exact MemoryState.mem_write.mpr
          (.inl (List.mem_append_right _ (List.mem_singleton.mpr rfl)))
    · change f ∈ s₁.failed at hf
      rw [hfailed] at hf
      exact absurd hf List.not_mem_nil
  · rcases h₃ with ⟨he, -⟩ | ⟨e', -, rfl⟩
    · cases he
    -- the memory is there, and the run raises
    refine iff_of_false (fun hsame => ?_) fun hall => ?_
    · have hrow : s.ledger.get memoryId = some record := by
        rw [← hsame.ledger]
        exact Dict.get_set.trans (if_pos rfl)
      rw [hfresh.ledger] at hrow
      cases hrow
    · exact hall (.record event, e') (List.mem_append_right _ (List.mem_singleton.mpr rfl)) houtcome

/-- **How every run of `remember` ends.** -/
theorem remember_ends (h : FailsCleanly conduct) (hs : s.failed = []) {hasPermits : Bool} :
    Raises.Ends (memoryWorld conduct start) (EndsWell svc chain content derivedFrom s)
      (svc.remember chain content derivedFrom hasPermits) s := by
  unfold MemoryService.remember
  refine endsWell_bind hs (P := fun _ s' => s' = s)
    (Raises.ends_ofExcept.mpr ⟨.refl, fun _ _ => rfl⟩) fun _ s₁ _ h₁ => ?_
  obtain rfl : s = s₁ := h₁.symm
  refine endsWell_bind hs (P := fun hex s' => s' = s ∧ s.Fresh hex)
    (memoryId_ends.mono fun r s' hr => ?_) fun hex s₂ _ h₂ => ?_
  · obtain ⟨rfl, hex, rfl, -, hfresh⟩ := hr
    exact ⟨.refl, fun a ha => ⟨rfl, Except.ok.inj ha ▸ hfresh⟩⟩
  obtain ⟨heq, hfresh⟩ := h₂
  obtain rfl : s = s₂ := heq.symm
  refine endsWell_bind hs (P := fun _ s' => s' = s)
    (refused_ends.mono fun r s' hr =>
      ⟨by rw [hr]; exact .refl, fun _ _ => hr⟩) fun refused s₃ _ h₃ => ?_
  obtain rfl : s = s₃ := h₃.symm
  split
  · -- the token's checks refuse a source
    refine endsWell_bind hs (P := fun _ s' => s' = s)
      (Raises.ends_ofExcept.mpr ⟨.refl, fun _ _ => rfl⟩) fun hash s₄ _ h₄ => ?_
    obtain rfl : s = s₄ := h₄.symm
    exact endsWell_refuse h hs .refl
  refine endsWell_bind hs (P := fun _ s' => s' = s)
    (Raises.ends_ofExcept.mpr ⟨.refl, fun _ _ => rfl⟩) fun hash s₄ _ h₄ => ?_
  obtain rfl : s = s₄ := h₄.symm
  refine endsWell_bind hs (P := fun _ _ => True)
    (core_ends.mono fun r s' hr => ⟨hr, fun _ _ => trivial⟩) fun decision s₅ hquiet _ => ?_
  split
  · exact Raises.ends_raise.mpr (endsWell_of_journaling hs hquiet)
  exact write_ends h hs hquiet hfresh

/-- **When `remember` is all or nothing.** Where a call that raises has no effect and a rollback
does not raise, every run leaves the memory as a whole or the stores as they were, unless the
journal refuses the event of the written memory, or the backend or the ledger raises something
that is not an `Exception`. -/
theorem remember_all_or_nothing_iff {hasPermits : Bool} {s' : MemoryState} {tr : Trace MemorySig}
    {r : Except Thrown Memory} (h : FailsCleanly conduct) (hs : s.failed = [])
    (hrun : Raises.Run (svc.remember chain content derivedFrom hasPermits) tr r)
    (hsteps : (memoryWorld conduct start).Steps s tr s') :
    AllOrNothing svc chain content derivedFrom s r s' ↔ ∀ f ∈ s'.failed, ¬ Unhandled f :=
  (remember_ends h hs).run hrun hsteps

end Remember

/-! ### A memory that stays where its event is refused -/

section Witness

/-- What the collaborators raise. -/
def outage : Thrown := .exception (.hoc (HocClass.engineUnavailable.error ""))

/-- The journal refuses the events of written memories. -/
def unjournaled : Refusing :=
  obliging fun _ o =>
    match o with
    | .record event => if event.kind = .memoryWritten then some outage else none
    | _ => none

/-- The backend refuses every content. -/
def unstored : Refusing :=
  obliging fun _ o =>
    match o with
    | .store _ _ _ => some outage
    | _ => none

/-- Collaborators that refuse with no effect fail cleanly, if they refuse no call of a rollback. -/
theorem failsCleanly_of_refusing {w : Refusing}
    (h : ∀ s o e, w.refuses s o = some e → ¬ o.Undoes) : FailsCleanly w.conduct :=
  fun o e s _ hraises => ⟨h s o e hraises.1, hraises.2⟩

theorem unjournaled_failsCleanly : FailsCleanly unjournaled.conduct := by
  refine failsCleanly_of_refusing fun s o e h => ?_
  cases o with
  | record event => exact id
  | _ => exact nomatch h

theorem unstored_failsCleanly : FailsCleanly unstored.conduct := by
  refine failsCleanly_of_refusing fun s o e h => ?_
  cases o with
  | store memoryId content space => exact id
  | _ => exact nomatch h

/-- What alice remembers. -/
def aliceNote : Remembering Memory :=
  notebook.remember aliceKeeper (.ofString "note") ["document:1"] false

/-- **It can fail.** The tuples, the content and the row are written, and then the journal
refuses the event: the call raises, and the memory stays. -/
theorem unjournaled_memory_kept : ∃ (tr : Trace MemorySig) (r : Except Thrown Memory)
    (s' : MemoryState), FailsCleanly unjournaled.conduct ∧ Raises.Run aliceNote tr r ∧
      (memoryWorld unjournaled.conduct .empty).Steps MemoryState.empty tr s' ∧
      s'.failed.length = 1 ∧
      ¬ AllOrNothing notebook aliceKeeper (.ofString "note") ["document:1"] .empty r s' := by
  have hplay : ((unjournaled.driver .empty).execute aliceNote.run MemoryState.empty).any
      (fun (_, r, s') => (match r with
        | .ok _ => false
        | .error _ => true) && decide (s'.failed.length = 1) &&
        decide (s'.ledger.entries ≠ [])) = true := by
    decide +kernel
  obtain ⟨⟨tr, r, s'⟩, hexec, hends⟩ := (Option.any_eq_true _ _).mp hplay
  obtain ⟨hrun, hsteps⟩ := Service.Driver.sound_execute hexec
  simp only [Bool.and_eq_true, decide_eq_true_eq] at hends
  obtain ⟨⟨herror, hfailed⟩, hrow⟩ := hends
  refine ⟨tr, r, s', unjournaled_failsCleanly, hrun, hsteps, hfailed, ?_⟩
  cases r with
  | ok memory => exact nomatch herror
  | error e => exact fun hsame => hrow (by rw [hsame.ledger]; rfl)

/-- A memory whose content the backend refuses is taken back as a whole. -/
theorem remember_all_or_nothing_unstored : ∃ (tr : Trace MemorySig) (r : Except Thrown Memory)
    (s' : MemoryState), Raises.Run aliceNote tr r ∧
      (memoryWorld unstored.conduct .empty).Steps MemoryState.empty tr s' ∧
      s'.failed.length = 1 ∧
      AllOrNothing notebook aliceKeeper (.ofString "note") ["document:1"] .empty r s' := by
  have hplay : ((unstored.driver .empty).execute aliceNote.run MemoryState.empty).any
      (fun (_, _, s') => decide (s'.failed.length = 1) && s'.failed.all fun f =>
        match f with
        | (.store _ _ _, e) => e.isException
        | _ => false) = true := by
    decide +kernel
  obtain ⟨⟨tr, r, s'⟩, hexec, hends⟩ := (Option.any_eq_true _ _).mp hplay
  obtain ⟨hrun, hsteps⟩ := Service.Driver.sound_execute hexec
  obtain ⟨hfailed, hall⟩ := Bool.and_eq_true_iff.mp hends
  refine ⟨tr, r, s', hrun, hsteps, of_decide_eq_true hfailed, ?_⟩
  refine (remember_all_or_nothing_iff unstored_failsCleanly rfl hrun hsteps).mpr fun f hf => ?_
  have hstore := List.all_eq_true.mp hall f hf
  obtain ⟨o, e⟩ := f
  cases o with
  | store memoryId content space => exact fun hbase => Bool.noConfusion (hbase.symm.trans hstore)
  | _ => exact nomatch hstore

end Witness

end HeadOfContext
