import HeadOfContext.Memory.Service

/-!
# The stores of the memory service

The state of the collaborators: the tuples, the content in the backend, the rows of the ledger,
and the journal. `memoryWorld` says what a call that returns does to them. What a call may
leave behind that raises, and what the other collaborators may answer, differs from one result
to the next; it is a `Conduct`.
-/

namespace HeadOfContext

open Effects PyText

/-- The state of the collaborators. The calls that have raised are kept on record. -/
structure MemoryState where
  tuples : FrozenSet Tuple
  /-- The memory id and the content, by namespace and backend reference. -/
  content : Dict (String × String) (String × PyStr)
  ledger : Dict String MemoryRecord
  journal : List AuditEvent
  failed : List (MemoryOp × Thrown)

namespace MemoryState

/-- Stores in which nothing has been remembered. -/
def empty : MemoryState := ⟨.empty, .empty, .empty, [], []⟩

variable (s : MemoryState)

/-- The state after `ts` were written. -/
def write (ts : List Tuple) : MemoryState :=
  { s with tuples := (FrozenSet.ofList ts).union s.tuples }

/-- The state after `ts` were deleted. -/
def delete (ts : List Tuple) : MemoryState := { s with tuples := s.tuples.sdiff (.ofList ts) }

/-- The state after the backend has stored a content. -/
def keep (memoryId : String) (content : PyStr) (space ref : String) : MemoryState :=
  { s with content := s.content.set (space, ref) (memoryId, content) }

/-- The state after the backend has deleted a content. -/
def discard (ref space : String) : MemoryState := { s with content := s.content.pop (space, ref) }

/-- The state after a row was put in the ledger. -/
def put (record : MemoryRecord) : MemoryState :=
  { s with ledger := s.ledger.set record.memoryId record }

/-- The state after a row was deleted from the ledger. -/
def deleteRow (memoryId : String) : MemoryState := { s with ledger := s.ledger.pop memoryId }

/-- The state after an event was journaled. -/
def journaled (event : AuditEvent) : MemoryState := { s with journal := s.journal ++ [event] }

/-- The state in which a call has raised and was not carried out. -/
def raised (o : MemoryOp) (e : Thrown) : MemoryState := { s with failed := s.failed ++ [(o, e)] }

/-- The hex digits name no memory yet. -/
structure Fresh (hex : String) : Prop where
  tuples : ∀ t ∈ s.tuples, t.obj ≠ "memory:" ++ hex
  content : ∀ v ∈ s.content.values, v.1 ≠ "memory:" ++ hex
  ledger : s.ledger.get ("memory:" ++ hex) = none

instance (hex : String) : Decidable (s.Fresh hex) :=
  decidable_of_iff ((∀ t ∈ s.tuples.items, t.obj ≠ "memory:" ++ hex) ∧
      (∀ v ∈ s.content.values, v.1 ≠ "memory:" ++ hex) ∧ s.ledger.get ("memory:" ++ hex) = none)
    ⟨fun h => ⟨h.1, h.2.1, h.2.2⟩, fun h => ⟨h.tuples, h.content, h.ledger⟩⟩

/-- A lookup by backend reference: a row that has it, or none if there is no such row. -/
def Finds (backend ref : String) (found : Option MemoryRecord) : Prop :=
  match found with
  | some row => row ∈ s.ledger.values ∧ row.backend = backend ∧ row.backendRef = ref
  | none => ∀ row ∈ s.ledger.values, ¬ (row.backend = backend ∧ row.backendRef = ref)

/-- The tuples, the content and the ledger are the same. -/
structure SameStores (s s' : MemoryState) : Prop where
  tuples : s'.tuples = s.tuples
  content : s'.content = s.content
  ledger : s'.ledger = s.ledger

theorem SameStores.refl : SameStores s s := ⟨rfl, rfl, rfl⟩

variable {s}

theorem SameStores.trans {s' s'' : MemoryState} (h : SameStores s s') (h' : SameStores s' s'') :
    SameStores s s'' :=
  ⟨h'.tuples.trans h.tuples, h'.content.trans h.content, h'.ledger.trans h.ledger⟩

@[simp] theorem mem_write {ts : List Tuple} {t : Tuple} :
    t ∈ (s.write ts).tuples ↔ t ∈ ts ∨ t ∈ s.tuples := by
  simp [write]

@[simp] theorem mem_delete {ts : List Tuple} {t : Tuple} :
    t ∈ (s.delete ts).tuples ↔ t ∈ s.tuples ∧ t ∉ ts := by
  simp [delete]

end MemoryState

/-- The digits of `uuid4().hex`. -/
def IsUuidHex (hex : String) : Prop := hex ≠ "" ∧ ∀ c ∈ hex.toList, isLower c ∨ ('0' ≤ c ∧ c ≤ '9')

instance (hex : String) : Decidable (IsUuidHex hex) := inferInstanceAs (Decidable (_ ∧ _))

/-- The id of a memory is a reference. -/
theorem isRef_memory {hex : String} (h : IsUuidHex hex) :
    isRef ("memory:" ++ hex) "memory" = true := by
  obtain ⟨hne, hchars⟩ := h
  have hlist : ("memory:" ++ hex).toList = "memory:".toList ++ hex.toList := String.toList_append
  have hnonempty : hex.toList ≠ [] := by simpa using hne
  -- a hexadecimal id does not end in a line feed, so the whole text is matched
  have hbody : matchBody ("memory:" ++ hex).toList = "memory:".toList ++ hex.toList := by
    rw [matchBody, if_neg, hlist]
    intro hlast
    rw [hlist, List.getLast?_append_of_ne_nil _ hnonempty] at hlast
    rcases hchars _ (List.mem_of_getLast? hlast) with hlower | hdigit
    · exact absurd hlower (by decide)
    · exact absurd hdigit (by decide)
  have hid : hex.toList.all isIdChar = true := by
    refine List.all_eq_true.mpr fun c hc => ?_
    unfold isIdChar
    rcases hchars c hc with hlower | ⟨hle, hge⟩
    · simp [hlower]
    · simp [hle, hge]
  have hsplit : splitColon ("memory:".toList ++ hex.toList) =
      some ("memory".toList, hex.toList) := rfl
  have hempty : hex.toList.isEmpty = false := by simpa using hnonempty
  have htype : isTypeName "memory".toList = true := by decide
  simp only [isRef, matchPlain, hbody, hsplit, hid, hempty, htype, Bool.not_false, Bool.and_self,
    if_true, beq_self_eq_true]

/-- What is assumed of the collaborators. -/
structure Conduct where
  /-- What a call that raises may leave behind. -/
  raises : MemoryOp → Thrown → MemoryState → MemoryState → Prop
  /-- What the token's checks may answer. -/
  permits : Kind → List String → Except Thrown (Dict String Bool) → Prop
  /-- What a call of the decider may get. -/
  core : (o : CoreOp) → Except String o.Res → Prop
  /-- What a search may find. -/
  finds : MemoryState → String → List Candidate → Prop

/-- The stores, started in any state. A reference that the backend returns and an id that is
drawn are not in use. -/
def memoryWorld (conduct : Conduct) (start : MemoryState) : World MemorySig where
  State := MemoryState
  init := start
  step s o r s' :=
    match o, r with
    | .core (.record event), .ok (.ok ()) =>
      conduct.core (.record event) (.ok (.ok ())) ∧ s' = s.journaled event
    | .core o, r => conduct.core o r ∧ s' = s
    | .now, _ => s' = s
    | .eventId, _ => s' = s
    | .memoryId, hex => IsUuidHex hex ∧ s.Fresh hex ∧ s' = s
    | .permits operation resources, r => conduct.permits operation resources r ∧ s' = s
    | .writeTuples ts, .ok () => s' = s.write ts
    | .writeTuples ts, .error e => conduct.raises (.writeTuples ts) e s s'
    | .deleteTuples ts, .ok () => s' = s.delete ts
    | .deleteTuples ts, .error e => conduct.raises (.deleteTuples ts) e s s'
    | .readTuples obj relation, .ok found =>
      (∀ t, t ∈ found ↔ t ∈ s.tuples ∧ t.obj = obj ∧ t.relation = relation) ∧ s' = s
    | .readTuples obj relation, .error e => conduct.raises (.readTuples obj relation) e s s'
    | .store memoryId content space, .ok ref =>
      s.content.get (space, ref) = none ∧ s' = s.keep memoryId content space ref
    | .store memoryId content space, .error e =>
        conduct.raises (.store memoryId content space) e s s'
    | .search _ space _, .ok candidates => conduct.finds s space candidates ∧ s' = s
    | .search query space limit, .error e => conduct.raises (.search query space limit) e s s'
    | .deleteContent ref space, .ok () => s' = s.discard ref space
    | .deleteContent ref space, .error e => conduct.raises (.deleteContent ref space) e s s'
    | .put record, .ok () => s' = s.put record
    | .put record, .error e => conduct.raises (.put record) e s s'
    | .get memoryId, .ok found => found = s.ledger.get memoryId ∧ s' = s
    | .get memoryId, .error e => conduct.raises (.get memoryId) e s s'
    | .getByBackendRef backend ref, .ok found => s.Finds backend ref found ∧ s' = s
    | .getByBackendRef backend ref, .error e =>
      conduct.raises (.getByBackendRef backend ref) e s s'
    | .deleteRow memoryId, .ok () => s' = s.deleteRow memoryId
    | .deleteRow memoryId, .error e => conduct.raises (.deleteRow memoryId) e s s'
    | .record event, .ok () => s' = s.journaled event
    | .record event, .error e => conduct.raises (.record event) e s s'

/-! ### Calls that change no store -/

section Ends

variable {conduct : Conduct} {start s : MemoryState}

theorem refused_ends {hasPermits : Bool} {operation : Kind} {resources : List String} :
    Raises.Ends (memoryWorld conduct start) (fun _ s' => s' = s)
      (MemoryService.refused hasPermits operation resources) s := by
  unfold MemoryService.refused
  split
  · exact Raises.ends_pure.mpr rfl
  · have hcall : Raises.Ends (memoryWorld conduct start) (fun _ s' => s' = s)
        (Remembering.permits operation resources) s := fun r s' h => h.2
    exact hcall.bind (fun answers s' h => Raises.ends_pure.mpr h) fun e s' h => h

theorem memoryEvent_ends {kind : EventKind} {chain : PrincipalChain} {memoryId outcome : String}
    {contentHash : Option String} {sourceCount : ℕ} {reason : Option String} :
    Raises.Ends (memoryWorld conduct start)
      (fun r s' => s' = s ∧ ∃ event, r = .ok event ∧ event.kind = kind ∧
        event.resource = .str (.ofString memoryId) ∧ event.outcome = .str (.ofString outcome))
      (MemoryService.memoryEvent kind chain memoryId outcome contentHash sourceCount reason) s := by
  have hnow : Raises.Ends (memoryWorld conduct start)
      (fun r s' => s' = s ∧ ∃ t, r = .ok t) Remembering.now s :=
    Raises.ends_lift_invoke.mpr fun r s' h => ⟨h, r, rfl⟩
  refine hnow.bind (fun timestamp s₁ h => ?_) fun e s₁ h => ?_
  swap
  · obtain ⟨-, t, ht⟩ := h
    exact nomatch ht
  obtain ⟨rfl, -⟩ := h
  have hid : Raises.Ends (memoryWorld conduct start)
      (fun r s' => s' = s₁ ∧ ∃ t, r = .ok t) Remembering.eventId s₁ :=
    Raises.ends_lift_invoke.mpr fun r s' h => ⟨h, r, rfl⟩
  refine hid.bind (fun eventId s₂ h => ?_) fun e s₂ h => ?_
  swap
  · obtain ⟨-, t, ht⟩ := h
    exact nomatch ht
  exact Raises.ends_pure.mpr ⟨h.1, _, rfl, rfl, rfl, rfl⟩

/-- The journal has grown, and nothing else has changed. -/
structure Journaling (s s' : MemoryState) : Prop where
  stores : s.SameStores s'
  failed : s'.failed = s.failed
  journal : s.journal <+: s'.journal

theorem Journaling.refl : Journaling s s := ⟨.refl s, rfl, List.prefix_rfl⟩

theorem Journaling.trans {s' s'' : MemoryState} (h : Journaling s s') (h' : Journaling s' s'') :
    Journaling s s'' :=
  ⟨h.stores.trans h'.stores, h'.failed.trans h.failed, h.journal.trans h'.journal⟩

/-- A call of the decider journals an event, or changes nothing. -/
theorem journaling_of_core {o : CoreOp} {r : Except String o.Res} {s' : MemoryState}
    (h : (memoryWorld conduct start).step s (.core o) r s') : Journaling s s' := by
  cases o with
  | record event =>
    match r with
    | .ok (.ok ()) =>
      obtain ⟨-, rfl⟩ := h
      exact ⟨⟨rfl, rfl, rfl⟩, rfl, List.prefix_append _ _⟩
    | .ok (.error e) => exact h.2 ▸ .refl
    | .error e => exact h.2 ▸ .refl
  | _ => exact h.2 ▸ .refl

theorem guarded_wp {α : Type} {p : Prog CoreSig α} :
    Prog.wp (memoryWorld conduct start) (fun _ s' => Journaling s s')
      (p.guarded Remembering.decider) s := by
  induction p generalizing s with
  | ret a => exact Journaling.refl
  | call o k ih =>
    rw [Prog.guarded]
    intro r s' hstep
    have hquiet : Journaling s s' := journaling_of_core hstep
    match r with
    | .error name => exact hquiet
    | .ok answer => exact (ih answer).mono fun _ s'' h => hquiet.trans h

/-- The decider writes to the journal, and nowhere else. -/
theorem core_ends {α : Type} {p : Core α} :
    Raises.Ends (memoryWorld conduct start) (fun _ s' => Journaling s s')
      (Remembering.core p) s :=
  Prog.wp_bind.mpr (guarded_wp.mono fun _ _ h => h)

end Ends

end HeadOfContext
