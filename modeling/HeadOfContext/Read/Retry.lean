import HeadOfContext.Framework.Interrupted
import HeadOfContext.Read.Sync

/-!
# Retrying an interrupted sync

The tuple store here is a strict one: a call is carried out as a whole or not at all, a write
that names a tuple it has is refused, and so is a delete that names a tuple it does not have. A
run of `reconcile` is a job of such calls, followed by the state save and the audit write
(`syncJob`), and a fault interrupts it at any of them.

The next run takes its difference from the saved tuples again, so it asks for the same calls.
`retry_iff` says when it goes through: nothing was carried out before the fault, or everything
up to the state save was. In between (`retry_refused`), the first call of the retry names what
the store has already been told, and is refused (`first_refused`).
-/

namespace HeadOfContext

open Effects Except Service Interrupted

/-! ### The strict tuple store -/

/-- A call on the tuple store. -/
inductive StoreCall where
  | write (tuples : List Tuple)
  | delete (tuples : List Tuple)

/-- What a call does to the store; none where it is refused. -/
def StoreCall.on : StoreCall → SyncState → Option SyncState
  | .write ts, s => if ∀ t ∈ ts, t ∉ s.tuples then some (s.write ts) else none
  | .delete ts, s => if ∀ t ∈ ts, t ∈ s.tuples then some (s.delete ts) else none

/-- The calls that bring a store from `previous` to `desired`. -/
def storeCalls (previous desired : FrozenSet Tuple) : List StoreCall :=
  ((desired.sdiff previous).items.chunksOf 100).map .write ++
    ((previous.sdiff desired).items.chunksOf 100).map .delete

/-- The collaborators of `reconcile` over a strict store, with at most one fault to come: at a
write or delete, at the state save or at the audit write. -/
def strictWorld (refusal : Exn) : World SyncSig where
  State := Faulty SyncState Exn
  init := ⟨⟨.empty, .empty⟩, none⟩
  step s o r s' :=
    match o, r with
    | .register connector, r => r = .ok () ∧
      s' = { s with state := { s.state with states := s.state.states.register connector } }
    | .loadTuples connector, r => r = .ok (s.state.states.loadTuples connector) ∧ s' = s
    | .writeTuples ts, r => attempt refusal (StoreCall.write ts).on s = (r, s')
    | .deleteTuples ts, r => attempt refusal (StoreCall.delete ts).on s = (r, s')
    | .save connector tuples syncedAt, r =>
      attempt refusal (fun s => some { s with states := s.states.save connector tuples syncedAt }) s
        = (r, s')
    | .record _, r => attempt refusal some s = (r, s')
    | .now, _ => s' = s
    | .uuid4, _ => s' = s

/-- The job of a run: the calls on the store, the state save and the audit write. -/
def syncJob (connector : String) (previous desired : FrozenSet Tuple) (syncedAt : ℤ) :
    List (SyncState → Option SyncState) :=
  (storeCalls previous desired).map StoreCall.on ++
    [fun s => some { s with states := s.states.save connector desired syncedAt }, some]

/-! ### A run as a job -/

section Run

variable {refusal : Exn} {s : Faulty SyncState Exn} {isidentifier : String → Bool}

/-- A loop that makes one call of the store for each chunk ends as these calls do. -/
theorem chunks_ends {loop : List (List Tuple) → Syncing Unit} {body : List Tuple → Syncing Unit}
    {call : List Tuple → StoreCall} (hnil : loop [] = pure ())
    (hcons : ∀ chunk rest, loop (chunk :: rest) = body chunk >>= fun _ => loop rest)
    (hcall : ∀ chunk s, Raises.Ends (strictWorld refusal)
      (fun r s' => attempt refusal (call chunk).on s = (r, s')) (body chunk) s)
    (chunks : List (List Tuple)) :
    Raises.Ends (strictWorld refusal)
      (fun r s' => attemptAll refusal (chunks.map fun ts => (call ts).on) s = (r, s'))
      (loop chunks) s := by
  induction chunks generalizing s with
  | nil =>
    rw [hnil]
    exact Raises.ends_pure.mpr rfl
  | cons chunk rest ih =>
    rw [hcons]
    refine (hcall chunk s).bind (fun _ s₁ hstep => ih.mono fun r s' hrest => ?_)
      fun e s₁ hstep => ?_
    · exact (attemptAll_cons_ok hstep).trans hrest
    · exact attemptAll_cons_error hstep

theorem writeChunks_ends {chunks : List (List Tuple)} :
    Raises.Ends (strictWorld refusal)
      (fun r s' => attemptAll refusal (chunks.map fun ts => (StoreCall.write ts).on) s = (r, s'))
      (writeChunks chunks) s := by
  have hcall : ∀ chunk s, Raises.Ends (strictWorld refusal)
      (fun r s' => attempt refusal (StoreCall.write chunk).on s = (r, s'))
      (Syncing.writeTuples chunk) s := fun chunk s r s' h => h
  exact chunks_ends rfl (fun _ _ => rfl) hcall chunks

theorem deleteChunks_ends {chunks : List (List Tuple)} :
    Raises.Ends (strictWorld refusal)
      (fun r s' => attemptAll refusal (chunks.map fun ts => (StoreCall.delete ts).on) s = (r, s'))
      (deleteChunks chunks) s := by
  have hcall : ∀ chunk s, Raises.Ends (strictWorld refusal)
      (fun r s' => attempt refusal (StoreCall.delete chunk).on s = (r, s'))
      (Syncing.deleteTuples chunk) s := fun chunk s r s' h => h
  exact chunks_ends rfl (fun _ _ => rfl) hcall chunks

/-- The snapshot that a run has to apply: it was taken, and its tuples are valid. -/
structure Applicable (isidentifier : String → Bool) (taken : Except Exn Snapshot)
    (snapshot : Snapshot) : Prop where
  taken : taken = .ok snapshot
  valid : validateTuples isidentifier snapshot.tuples.items = .ok snapshot.tuples.items

/-- The state with the connector registered. -/
def registered (connector : String) (s : SyncState) : SyncState :=
  { s with states := s.states.register connector }

/-- How a run with a valid snapshot ends: as its job does. -/
def EndsAsJob (refusal : Exn) (connector : String) (snapshot : Snapshot)
    (s : Faulty SyncState Exn) (r : Except Exn SyncReport) (s' : Faulty SyncState Exn) : Prop :=
  ∃ syncedAt,
    attemptAll refusal (syncJob connector ((s.state.states.loadTuples connector).getD .empty)
        snapshot.tuples syncedAt) ⟨registered connector s.state, s.fault⟩ =
      (r.map fun _ => (), s') ∧
    ∀ report, r = .ok report → report.syncedAt = syncedAt

/-- **What a run does**: its job, unless there is no valid snapshot, and then nothing that a
fault could hit. -/
theorem reconcile_ends {connector : String} {taken : Except Exn Snapshot} :
    Raises.Ends (strictWorld refusal)
      (fun r s' => ((∃ e, r = .error e) ∧ s'.fault = s.fault ∧
          ∀ snapshot, ¬ Applicable isidentifier taken snapshot) ∨
        ∃ snapshot, Applicable isidentifier taken snapshot ∧
          EndsAsJob refusal connector snapshot s r s')
      (reconcile isidentifier ⟨connector, taken⟩) s := by
  have hregister : Raises.Ends (strictWorld refusal)
      (fun r s' => r = .ok () ∧ s' = ⟨registered connector s.state, s.fault⟩)
      (Syncing.register connector) s := fun r s' h => h
  refine hregister.bind (fun _ s₁ h => ?_) fun e s₁ h => nomatch h.1
  obtain rfl := h.2
  -- the snapshot is taken, or the connector raises
  have htaken : Raises.Ends (strictWorld refusal)
      (fun r s' => r = taken ∧ s' = ⟨registered connector s.state, s.fault⟩)
      (.ofExcept taken : Syncing Snapshot) ⟨registered connector s.state, s.fault⟩ := ⟨rfl, rfl⟩
  refine htaken.bind (fun snapshot s₁ h => ?_) fun e s₁ h => ?_
  swap
  · obtain ⟨rfl, rfl⟩ := h
    exact .inl ⟨⟨e, rfl⟩, rfl, fun snapshot hsnap => nomatch hsnap.taken⟩
  obtain ⟨rfl, rfl⟩ := h
  -- its tuples are valid, or the run raises
  have hvalid : Raises.Ends (strictWorld refusal)
      (fun r s' => (∀ valid, r = .ok valid →
          validateTuples isidentifier snapshot.tuples.items = .ok valid) ∧
        ((∃ e, r = .error e) → ∀ valid,
          validateTuples isidentifier snapshot.tuples.items ≠ .ok valid) ∧
        s' = ⟨registered connector s.state, s.fault⟩)
      (Core.ofHoc (validateTuples isidentifier snapshot.tuples.items))
      ⟨registered connector s.state, s.fault⟩ := by
    unfold Core.ofHoc
    refine Raises.ends_ofExcept.mpr ?_
    cases validateTuples isidentifier snapshot.tuples.items with
    | error e => exact ⟨fun valid h => absurd h (by simp), fun _ valid h => (by cases h), rfl⟩
    | ok valid =>
      exact ⟨fun valid' h => congrArg _ (Except.ok.inj h), fun ⟨e, h⟩ => absurd h (by simp), rfl⟩
  refine hvalid.bind (fun valid s₁ h => ?_) fun e s₁ h => ?_
  swap
  · obtain ⟨-, hinvalid, rfl⟩ := h
    refine .inl ⟨⟨e, rfl⟩, rfl, fun snapshot' hsnap => ?_⟩
    obtain rfl := Except.ok.inj hsnap.taken
    exact hinvalid ⟨e, rfl⟩ _ hsnap.valid
  obtain ⟨hok, -, rfl⟩ := h
  have hsnap := hok valid rfl
  obtain rfl := validateTuples_eq_ok hsnap
  rw [FrozenSet.ofList_items]
  refine Raises.Ends.mono ?_ fun r s' h => Or.inr ⟨snapshot, ⟨rfl, hsnap⟩, h⟩
  have hload : Raises.Ends (strictWorld refusal)
      (fun r s' => r = .ok (s.state.states.loadTuples connector) ∧
        s' = ⟨registered connector s.state, s.fault⟩)
      (Syncing.loadTuples connector) ⟨registered connector s.state, s.fault⟩ := fun r s' h => h
  refine hload.bind (fun saved s₁ h => ?_) fun e s₁ h => nomatch h.1
  obtain ⟨hsaved, rfl⟩ := h
  obtain rfl := Except.ok.inj hsaved
  -- from here on, each call is the next step of the job
  unfold EndsAsJob syncJob storeCalls
  simp only [List.map_append, List.map_map, List.append_assoc]
  refine writeChunks_ends.bind (fun _ s₂ hwrites => ?_) fun e s₂ hwrites =>
    ⟨0, attemptAll_append_error hwrites, fun report h => nomatch h⟩
  refine deleteChunks_ends.bind (fun _ s₃ hdeletes => ?_) fun e s₃ hdeletes =>
    ⟨0, (attemptAll_append_ok hwrites).trans (attemptAll_append_error hdeletes),
      fun report h => nomatch h⟩
  have hnow : Raises.Ends (strictWorld refusal)
      (fun r s' => (∃ syncedAt, r = .ok syncedAt) ∧ s' = s₃)
      Syncing.now s₃ := Raises.ends_lift_invoke.mpr fun r s' h => ⟨⟨r, rfl⟩, h⟩
  refine hnow.bind (fun syncedAt s₄ h => ?_) fun e s₄ h => nomatch h.1
  obtain ⟨-, rfl⟩ := h
  refine Raises.Ends.mono ?_ fun r s' (h : attemptAll refusal _ s₄ = _ ∧ _) =>
    ⟨syncedAt, (attemptAll_append_ok hwrites).trans ((attemptAll_append_ok hdeletes).trans h.1),
      h.2⟩
  have hsave : Raises.Ends (strictWorld refusal)
      (fun r s' => attempt refusal (fun s => some { s with
        states := s.states.save connector snapshot.tuples syncedAt }) s₄ = (r, s'))
      (Syncing.save connector snapshot.tuples syncedAt) s₄ := fun r s' h => h
  refine hsave.bind (fun _ s₅ hstep => ?_) fun e s₅ hstep =>
    ⟨attemptAll_cons_error hstep, fun report h => nomatch h⟩
  have huuid : Raises.Ends (strictWorld refusal) (fun r s' => (∃ id, r = .ok id) ∧ s' = s₅)
      Syncing.uuid4 s₅ := Raises.ends_lift_invoke.mpr fun r s' h => ⟨⟨r, rfl⟩, h⟩
  refine huuid.bind (fun eventId s₆ h => ?_) fun e s₆ h => nomatch h.1
  obtain ⟨-, rfl⟩ := h
  have hrecord : ∀ event, Raises.Ends (strictWorld refusal)
      (fun r s' => attempt refusal some s₆ = (r, s')) (Syncing.record event) s₆ :=
    fun event r s' h => h
  refine (hrecord _).bind (fun _ s₇ hlast => ?_) fun e s₇ hlast =>
    ⟨(attemptAll_cons_ok hstep).trans (attemptAll_cons_error hlast), fun report h => nomatch h⟩
  refine Raises.ends_pure.mpr ⟨?_, fun report h => ?_⟩
  · exact (attemptAll_cons_ok hstep).trans (attemptAll_cons_ok hlast)
  · obtain rfl := Except.ok.inj h
    rfl

end Run

/-! ### The calls on the store -/

section Calls

variable {s s' : SyncState} {previous desired : FrozenSet Tuple} {t : Tuple}

theorem SyncState.ext_mem (htuples : ∀ t, t ∈ s.tuples ↔ t ∈ s'.tuples)
    (hstates : s.states = s'.states) : s = s' := by
  obtain ⟨tuples, states⟩ := s
  obtain ⟨tuples', states'⟩ := s'
  obtain rfl : tuples = tuples' := FrozenSet.ext htuples
  obtain rfl : states = states' := hstates
  rfl

@[simp] theorem SyncState.mem_write {ts : List Tuple} :
    t ∈ (s.write ts).tuples ↔ t ∈ ts ∨ t ∈ s.tuples := by
  simp [SyncState.write]

@[simp] theorem SyncState.mem_delete {ts : List Tuple} :
    t ∈ (s.delete ts).tuples ↔ t ∈ s.tuples ∧ t ∉ ts := by
  simp [SyncState.delete]

theorem SyncState.write_write {ts ts' : List Tuple} :
    (s.write ts).write ts' = s.write (ts ++ ts') := by
  refine SyncState.ext_mem (fun t => ?_) rfl
  simp only [SyncState.mem_write, List.mem_append]
  tauto

theorem SyncState.delete_delete {ts ts' : List Tuple} :
    (s.delete ts).delete ts' = s.delete (ts ++ ts') := by
  refine SyncState.ext_mem (fun t => ?_) rfl
  simp only [SyncState.mem_delete, List.mem_append]
  tauto

/-- What can be done in two parts is done in chunks as it is done at once. -/
theorem carryOut_chunks {on : List Tuple → SyncState → Option SyncState} (hnil : on [] = some)
    (happend : ∀ {ts ts' : List Tuple}, (ts ++ ts').Nodup → ∀ s,
      on (ts ++ ts') s = (on ts s).bind (on ts'))
    {chunks : List (List Tuple)} (h : chunks.flatten.Nodup) :
    carryOut (chunks.map on) s = on chunks.flatten s := by
  induction chunks generalizing s with
  | nil => exact (congrFun hnil s).symm
  | cons chunk rest ih =>
    rw [List.flatten_cons] at h
    rw [List.map_cons, carryOut, List.flatten_cons, happend h]
    exact Option.bind_congr fun _ _ => ih (List.nodup_append.mp h).2.1

theorem StoreCall.on_write_append {ts ts' : List Tuple} (h : (ts ++ ts').Nodup) (s : SyncState) :
    (StoreCall.write (ts ++ ts')).on s =
      ((StoreCall.write ts).on s).bind (StoreCall.write ts').on := by
  by_cases hnow : ∀ t ∈ ts, t ∉ s.tuples
  · have hon : (StoreCall.write ts).on s = some (s.write ts) := if_pos hnow
    rw [hon, Option.bind_some, StoreCall.on, StoreCall.on, SyncState.write_write]
    -- the two parts have no tuple in common
    congr 1
    refine propext ⟨fun hall t ht hmem => ?_, fun hlater t ht => ?_⟩
    · rcases SyncState.mem_write.mp hmem with hwritten | hstored
      · exact (List.nodup_append.mp h).2.2 t hwritten t ht rfl
      · exact hall t (List.mem_append_right _ ht) hstored
    · rcases List.mem_append.mp ht with ht | ht
      · exact hnow t ht
      · exact fun hmem => hlater t ht (SyncState.mem_write.mpr (.inr hmem))
  · have hon : (StoreCall.write ts).on s = none := if_neg hnow
    rw [hon, Option.bind_none]
    exact if_neg fun hall => hnow fun t ht => hall t (List.mem_append_left _ ht)

theorem StoreCall.on_delete_append {ts ts' : List Tuple} (h : (ts ++ ts').Nodup) (s : SyncState) :
    (StoreCall.delete (ts ++ ts')).on s =
      ((StoreCall.delete ts).on s).bind (StoreCall.delete ts').on := by
  by_cases hnow : ∀ t ∈ ts, t ∈ s.tuples
  · have hon : (StoreCall.delete ts).on s = some (s.delete ts) := if_pos hnow
    rw [hon, Option.bind_some, StoreCall.on, StoreCall.on, SyncState.delete_delete]
    congr 1
    refine propext ⟨fun hall t ht => ?_, fun hlater t ht => ?_⟩
    · refine SyncState.mem_delete.mpr ⟨hall t (List.mem_append_right _ ht), fun hgone => ?_⟩
      exact (List.nodup_append.mp h).2.2 t hgone t ht rfl
    · rcases List.mem_append.mp ht with ht | ht
      · exact hnow t ht
      · exact (SyncState.mem_delete.mp (hlater t ht)).1
  · have hon : (StoreCall.delete ts).on s = none := if_neg hnow
    rw [hon, Option.bind_none]
    exact if_neg fun hall => hnow fun t ht => hall t (List.mem_append_left _ ht)

/-- Writes in chunks are carried out exactly when none of their tuples is in the store. -/
theorem carryOut_writes {chunks : List (List Tuple)} (h : chunks.flatten.Nodup) :
    carryOut (chunks.map fun ts => (StoreCall.write ts).on) s =
      if ∀ t ∈ chunks.flatten, t ∉ s.tuples then some (s.write chunks.flatten) else none :=
  carryOut_chunks rfl StoreCall.on_write_append h

/-- Deletes in chunks are carried out exactly when all of their tuples are in the store. -/
theorem carryOut_deletes {chunks : List (List Tuple)} (h : chunks.flatten.Nodup) :
    carryOut (chunks.map fun ts => (StoreCall.delete ts).on) s =
      if ∀ t ∈ chunks.flatten, t ∈ s.tuples then some (s.delete chunks.flatten) else none := by
  have hnothing : (StoreCall.delete []).on = some := by
    funext s
    have hsame : s.delete [] = s := SyncState.ext_mem (fun t => by simp) rfl
    simp [StoreCall.on, hsame]
  exact carryOut_chunks hnothing StoreCall.on_delete_append h

/-- The store fits a difference: it has none of the tuples to add, and all of those to remove. -/
def Fits (s : SyncState) (previous desired : FrozenSet Tuple) : Prop :=
  (∀ t ∈ desired.sdiff previous, t ∉ s.tuples) ∧ ∀ t ∈ previous.sdiff desired, t ∈ s.tuples

/-- **The calls of a difference** go through exactly when the store fits it. -/
theorem carryOut_storeCalls : (carryOut ((storeCalls previous desired).map StoreCall.on) s).isSome ↔
    Fits s previous desired := by
  have hwrites : ∀ l : FrozenSet Tuple, (l.items.chunksOf 100).flatten = l.items :=
    fun l => List.flatten_chunksOf (by decide)
  have hnodup : ∀ l : FrozenSet Tuple, (l.items.chunksOf 100).flatten.Nodup := by
    intro l
    rw [hwrites]
    exact l.nodup
  unfold storeCalls Fits
  rw [List.map_append, List.map_map, List.map_map, carryOut_append]
  change ((carryOut (List.map (fun ts => (StoreCall.write ts).on) _) s).bind
    (carryOut (List.map (fun ts => (StoreCall.delete ts).on) _))).isSome ↔ _
  rw [carryOut_writes (hnodup _), hwrites]
  by_cases hadd : ∀ t ∈ (desired.sdiff previous).items, t ∉ s.tuples
  · rw [if_pos hadd, Option.bind_some, carryOut_deletes (hnodup _), hwrites]
    -- what is to be removed is not what was added
    have hremove : (∀ t ∈ (previous.sdiff desired).items,
        t ∈ (s.write (desired.sdiff previous).items).tuples) ↔
        ∀ t ∈ previous.sdiff desired, t ∈ s.tuples := by
      refine forall₂_congr fun t ht => ?_
      rw [SyncState.mem_write]
      refine or_iff_right fun hadded => ?_
      exact (FrozenSet.mem_sdiff.mp ht).2 (FrozenSet.mem_sdiff.mp hadded).1
    by_cases hall : ∀ t ∈ previous.sdiff desired, t ∈ s.tuples
    · rw [if_pos (hremove.mpr hall)]
      exact iff_of_true rfl ⟨hadd, hall⟩
    · rw [if_neg fun h => hall (hremove.mp h)]
      exact iff_of_false (by simp) fun h => hall h.2
  · rw [if_neg hadd]
    exact iff_of_false (by simp) fun h => hadd h.1

theorem StoreCall.states_on {call : StoreCall} (h : call.on s = some s') :
    s'.states = s.states := by
  cases call with
  | write ts =>
    obtain ⟨-, hon⟩ := Option.ite_none_right_eq_some.mp h
    rw [← Option.some.inj hon]
    rfl
  | delete ts =>
    obtain ⟨-, hon⟩ := Option.ite_none_right_eq_some.mp h
    rw [← Option.some.inj hon]
    rfl

/-- What every call preserves, the calls together preserve. -/
theorem carryOut_preserves {P : SyncState → Prop} {calls : List StoreCall}
    (hcalls : ∀ call ∈ calls, ∀ {s s' : SyncState}, call.on s = some s' → P s → P s')
    (h : carryOut (calls.map StoreCall.on) s = some s') (hs : P s) : P s' := by
  induction calls generalizing s with
  | nil => rwa [← Option.some.inj h]
  | cons call rest ih =>
    obtain ⟨hcall, hrest⟩ := List.forall_mem_cons.mp hcalls
    obtain ⟨s₁, hon, hafter⟩ := Option.bind_eq_some_iff.mp h
    exact ih hrest hafter (hcall hon hs)

/-- Calls on the store leave the state store as it was. -/
theorem states_carryOut {calls : List StoreCall}
    (h : carryOut (calls.map StoreCall.on) s = some s') : s'.states = s.states :=
  carryOut_preserves (P := fun s₁ => s₁.states = s.states)
    (fun _ _ _ _ hon hs => (StoreCall.states_on hon).trans hs) h rfl

/-- A tuple that no delete among the calls names stays in the store. -/
theorem mem_carryOut {calls : List StoreCall}
    (h : carryOut (calls.map StoreCall.on) s = some s')
    (hcalls : ∀ ts, .delete ts ∈ calls → t ∉ ts) (hmem : t ∈ s.tuples) : t ∈ s'.tuples := by
  refine carryOut_preserves (P := fun s₁ => t ∈ s₁.tuples) (fun call hcall s s' hcarried hmem => ?_)
    h hmem
  cases call with
  | write ts =>
    obtain ⟨-, hon⟩ := Option.ite_none_right_eq_some.mp hcarried
    rw [← Option.some.inj hon, SyncState.mem_write]
    exact .inr hmem
  | delete ts =>
    obtain ⟨-, hon⟩ := Option.ite_none_right_eq_some.mp hcarried
    rw [← Option.some.inj hon, SyncState.mem_delete]
    exact ⟨hmem, hcalls ts hcall⟩

/-- A tuple that no write among the calls names stays out of the store. -/
theorem not_mem_carryOut {calls : List StoreCall}
    (h : carryOut (calls.map StoreCall.on) s = some s')
    (hcalls : ∀ ts, .write ts ∈ calls → t ∉ ts) (hmem : t ∉ s.tuples) : t ∉ s'.tuples := by
  refine carryOut_preserves (P := fun s₁ => t ∉ s₁.tuples) (fun call hcall s s' hcarried hmem => ?_)
    h hmem
  cases call with
  | write ts =>
    obtain ⟨-, hon⟩ := Option.ite_none_right_eq_some.mp hcarried
    rw [← Option.some.inj hon, SyncState.mem_write, not_or]
    exact ⟨hcalls ts hcall, hmem⟩
  | delete ts =>
    obtain ⟨-, hon⟩ := Option.ite_none_right_eq_some.mp hcarried
    rw [← Option.some.inj hon, SyncState.mem_delete]
    exact fun h => hmem h.1

/-- No call of a difference is empty, and what is written is not deleted. -/
theorem mem_storeCalls_write {ts : List Tuple} (h : .write ts ∈ storeCalls previous desired) :
    ts ≠ [] ∧ ∀ t ∈ ts, t ∈ desired.sdiff previous := by
  unfold storeCalls at h
  rcases List.mem_append.mp h with hwrite | hdelete
  · obtain ⟨chunk, hchunk, heq⟩ := List.mem_map.mp hwrite
    obtain rfl := StoreCall.write.inj heq
    exact ⟨List.ne_nil_of_mem_chunksOf (by decide) hchunk, fun t ht =>
      List.mem_of_mem_chunksOf (by decide) hchunk ht⟩
  · obtain ⟨chunk, hchunk, heq⟩ := List.mem_map.mp hdelete
    exact nomatch heq

theorem mem_storeCalls_delete {ts : List Tuple} (h : .delete ts ∈ storeCalls previous desired) :
    ts ≠ [] ∧ ∀ t ∈ ts, t ∈ previous.sdiff desired := by
  unfold storeCalls at h
  rcases List.mem_append.mp h with hwrite | hdelete
  · obtain ⟨chunk, hchunk, heq⟩ := List.mem_map.mp hwrite
    exact nomatch heq
  · obtain ⟨chunk, hchunk, heq⟩ := List.mem_map.mp hdelete
    obtain rfl := StoreCall.delete.inj heq
    exact ⟨List.ne_nil_of_mem_chunksOf (by decide) hchunk, fun t ht =>
      List.mem_of_mem_chunksOf (by decide) hchunk ht⟩

/-- **The first call is refused the second time**, however many of the calls after it were
carried out. -/
theorem first_refused {first : StoreCall} {rest : List StoreCall}
    (hcalls : storeCalls previous desired = first :: rest) {n : ℕ}
    (h : carryOut ((first :: rest.take n).map StoreCall.on) s = some s') : first.on s' = none := by
  obtain ⟨s₁, hfirst, hrest⟩ := Option.bind_eq_some_iff.mp h
  have hmem : first ∈ storeCalls previous desired := hcalls ▸ List.mem_cons_self
  cases first with
  | write ts =>
    obtain ⟨hne, hadded⟩ := mem_storeCalls_write hmem
    obtain ⟨t, ht⟩ := List.exists_mem_of_ne_nil ts hne
    refine if_neg fun habsent => habsent t ht ?_
    -- no later call deletes what this one has written
    refine mem_carryOut hrest (fun ts' hts' hdeleted => ?_) ?_
    · have hlater : StoreCall.delete ts' ∈ storeCalls previous desired :=
        hcalls ▸ List.mem_cons_of_mem _ (List.mem_of_mem_take hts')
      exact (FrozenSet.mem_sdiff.mp ((mem_storeCalls_delete hlater).2 t hdeleted)).2
        (FrozenSet.mem_sdiff.mp (hadded t ht)).1
    · obtain ⟨-, hon⟩ := Option.ite_none_right_eq_some.mp hfirst
      rw [← Option.some.inj hon, SyncState.mem_write]
      exact .inl ht
  | delete ts =>
    obtain ⟨hne, hremoved⟩ := mem_storeCalls_delete hmem
    obtain ⟨t, ht⟩ := List.exists_mem_of_ne_nil ts hne
    refine if_neg fun hpresent => ?_
    -- no later call writes what this one has deleted
    refine not_mem_carryOut hrest (fun ts' hts' hwritten => ?_) ?_ (hpresent t ht)
    · have hlater : StoreCall.write ts' ∈ storeCalls previous desired :=
        hcalls ▸ List.mem_cons_of_mem _ (List.mem_of_mem_take hts')
      exact (FrozenSet.mem_sdiff.mp ((mem_storeCalls_write hlater).2 t hwritten)).2
        (FrozenSet.mem_sdiff.mp (hremoved t ht)).1
    · obtain ⟨-, hon⟩ := Option.ite_none_right_eq_some.mp hfirst
      rw [← Option.some.inj hon, SyncState.mem_delete]
      exact fun hstill => hstill.2 ht

/-- After the calls of a difference have started, the store no longer fits it. -/
theorem not_fits_of_started {m : ℕ} (hpos : 0 < m) (hm : m ≤ (storeCalls previous desired).length)
    (h : carryOut (((storeCalls previous desired).take m).map StoreCall.on) s = some s') :
    ¬ Fits s' previous desired := by
  rw [← carryOut_storeCalls]
  match hcalls : storeCalls previous desired with
  | [] => exact absurd (hm.trans_eq (by rw [hcalls]; rfl)) (Nat.not_le.mpr hpos)
  | first :: rest =>
    obtain ⟨n, rfl⟩ := Nat.exists_eq_add_one.mpr hpos
    rw [hcalls, List.take_succ_cons] at h
    rw [List.map_cons, carryOut, first_refused hcalls h]
    simp

/-- Where its first call is refused, the store does not fit a difference. -/
theorem not_fits_of_refused {first : StoreCall} {rest : List StoreCall}
    (hcalls : storeCalls previous desired = first :: rest) (h : first.on s = none) :
    ¬ Fits s previous desired := by
  rw [← carryOut_storeCalls, hcalls, List.map_cons, carryOut, h]
  simp

/-- With nothing to add and nothing to remove, every store fits. -/
theorem fits_self : Fits s desired desired :=
  ⟨fun _ ht => absurd (FrozenSet.mem_sdiff.mp ht).1 (FrozenSet.mem_sdiff.mp ht).2,
    fun _ ht => absurd (FrozenSet.mem_sdiff.mp ht).1 (FrozenSet.mem_sdiff.mp ht).2⟩

end Calls

/-! ### Interrupted, and started over -/

section Retry

variable {refusal : Exn} {isidentifier : String → Bool} {connector : String}

/-- The tuples that the connector has saved. -/
def SyncState.previous (s : SyncState) (connector : String) : FrozenSet Tuple :=
  (s.states.loadTuples connector).getD .empty

/-- The run returned its report, and the connector is marked synced at the time it says. -/
def MarksSynced (t : (syncService isidentifier connector).Turn (strictWorld refusal)) : Prop :=
  ∃ report, t.result = .ok report ∧
    ConnectorStates.lastSync (SyncState.states (Faulty.state t.after)) connector =
      some report.syncedAt

/-- A run that started in `before` can be made up for after the fault: it was hit before any
call was carried out, and the store fits the difference, or after the state save. -/
def Recoverable (f : Fault Exn) (before : SyncState) (connector : String) (snapshot : Snapshot) :
    Prop :=
  (storeCalls (before.previous connector) snapshot.tuples).length < f.reach ∨
    f.reach = 0 ∧ Fits before (before.previous connector) snapshot.tuples

/-- **A run that no fault hits** goes through exactly when the store fits its difference. -/
theorem marksSynced_iff_fits {snapshot : Snapshot}
    {t : (syncService isidentifier connector).Turn (strictWorld refusal)} (hran : t.Ran)
    (hsnap : Applicable isidentifier t.call snapshot) (hfault : Faulty.fault t.before = none) :
    MarksSynced t ↔ Fits (Faulty.state t.before)
      (SyncState.previous (Faulty.state t.before) connector) snapshot.tuples := by
  obtain ⟨hrun, hsteps⟩ := hran
  rcases reconcile_ends.run hrun hsteps with ⟨-, -, hinvalid⟩ | ⟨snapshot', hsnap', hends⟩
  · exact absurd hsnap (hinvalid snapshot)
  obtain rfl := Except.ok.inj (hsnap.taken.symm.trans hsnap'.taken)
  obtain ⟨syncedAt, hjob, htime⟩ := hends
  obtain ⟨⟨state, fault⟩, call, trace, result, after⟩ := t
  obtain rfl : fault = none := hfault
  set calls := (storeCalls (state.previous connector) snapshot.tuples).map StoreCall.on with hcalls
  have hfits : (carryOut calls (registered connector state)).isSome ↔
      Fits state (state.previous connector) snapshot.tuples := carryOut_storeCalls
  rw [← hfits]
  change attemptAll refusal (calls ++ _) ⟨registered connector state, none⟩ = _ at hjob
  -- a job without a fault returns exactly when no step is refused, and only the calls may be
  match hcarried : carryOut calls (registered connector state) with
  | none =>
    refine iff_of_false ?_ (by simp)
    rintro ⟨report, hret, -⟩
    change result = .ok report at hret
    subst hret
    have hends : (∃ s', attemptAll refusal calls ⟨registered connector state, none⟩ =
        (.ok (), ⟨s', none⟩)) ∨ ∃ s', attemptAll refusal calls ⟨registered connector state, none⟩ =
        (.error refusal, ⟨s', none⟩) := attemptAll_healthy_or
    rcases hends with ⟨s', hok⟩ | ⟨s', herr⟩
    · rw [attemptAll_healthy.mp hok] at hcarried
      exact nomatch hcarried
    · rw [attemptAll_append_error herr] at hjob
      exact nomatch hjob
  | some s₁ =>
    refine iff_of_true ?_ rfl
    rw [attemptAll_append_ok (attemptAll_healthy.mpr hcarried)] at hjob
    have hend := Prod.ext_iff.mp hjob
    obtain ⟨hret, rfl⟩ : (.ok () : Except Exn Unit) = result.map (fun _ => ()) ∧ _ = after := hend
    match result with
    | .error e => exact nomatch hret
    | .ok report =>
      refine ⟨report, rfl, ?_⟩
      rw [htime report rfl]
      exact ConnectorStates.lastSync_save.trans (if_pos rfl)

/-- **What a fault leaves of the job**: where it reached past the calls, the snapshot is saved;
before, nothing but some of the calls was carried out. -/
theorem interrupted_job {previous desired : FrozenSet Tuple} {syncedAt : ℤ} {f : Fault Exn}
    {s s' : SyncState} {r : Except Exn Unit}
    (h : attemptAll refusal (syncJob connector previous desired syncedAt) ⟨s, some f⟩ =
      (r, ⟨s', none⟩)) :
    if (storeCalls previous desired).length < f.reach then
      s'.states.loadTuples connector = some desired
    else s'.states = s.states ∧
      if f.reach = 0 then s' = s else ¬ Fits s' previous desired := by
  obtain ⟨-, m, hle, hm, hcarried, hrefused⟩ := attemptAll_interrupted h
  unfold syncJob at hcarried hrefused
  have hlength : ((storeCalls previous desired).map StoreCall.on).length =
      (storeCalls previous desired).length := List.length_map _
  by_cases hreach : (storeCalls previous desired).length < f.reach
  · rw [if_pos hreach]
    have hpast : (storeCalls previous desired).length < m := by
      by_contra hnot
      -- then the state save was refused, which it never is
      have hat : m = (storeCalls previous desired).length := by
        have := f.reach_le
        omega
      obtain ⟨step, rest, hnext, hstep⟩ := hrefused (by omega)
      rw [hat, ← hlength, List.drop_append_of_le_length (Nat.le_refl _), List.drop_length] at hnext
      obtain rfl := List.head_eq_of_cons_eq hnext
      exact nomatch hstep
    rw [List.take_append, List.take_of_length_le (by omega), hlength, carryOut_append] at hcarried
    obtain ⟨s₁, -, htail⟩ := Option.bind_eq_some_iff.mp hcarried
    obtain ⟨k, hk⟩ := Nat.exists_eq_add_of_lt hpast
    rw [show m - (storeCalls previous desired).length = k + 1 by omega,
      List.take_succ_cons] at htail
    have haudit : ∀ s : SyncState, carryOut ([some].take k) s = some s := by
      intro s
      cases k with
      | zero => rfl
      | succ k =>
        rw [List.take_succ_cons, List.take_nil]
        rfl
    have hsaved := (haudit _).symm.trans htail
    rw [← Option.some.inj hsaved]
    exact ConnectorStates.loadTuples_save.trans (if_pos rfl)
  · rw [if_neg hreach]
    rw [List.take_append_of_le_length (by omega), ← List.map_take] at hcarried
    refine ⟨states_carryOut hcarried, ?_⟩
    by_cases hnone : f.reach = 0
    · rw [if_pos hnone]
      obtain rfl : m = 0 := by omega
      exact (Option.some.inj hcarried).symm
    · rw [if_neg hnone]
      rcases Nat.eq_zero_or_pos m with rfl | hpos
      · -- the very first call was refused, and still is
        obtain ⟨step, rest, hfirst, hstep⟩ := hrefused (Nat.pos_of_ne_zero hnone)
        obtain ⟨first, rest', hsplit⟩ := List.exists_cons_of_length_pos
          (show 0 < (storeCalls previous desired).length by omega)
        rw [hsplit] at hfirst
        obtain rfl : first.on = step := List.head_eq_of_cons_eq hfirst
        exact not_fits_of_refused hsplit hstep
      · exact not_fits_of_started hpos (by omega) hcarried

/-- **When a failed sync can be retried.** A run is interrupted at a write, a delete, the state
save or the audit write, and the connector is run again with the same snapshot and no further
fault. That run returns and marks the connector synced exactly when the first was hit before
any of its calls was carried out (and the store fits the difference), or after its state
save. -/
theorem retry_iff {t t' : (syncService isidentifier connector).Turn (strictWorld refusal)}
    {f : Fault Exn} {snapshot : Snapshot} (hran : t.Ran) (hcall : t.call = .ok snapshot)
    (hplan : Faulty.fault t.before = some f) (hhit : Faulty.fault t.after = none)
    (hran' : t'.Ran) (hsame : t'.call = t.call) (hthen : t'.before = t.after) :
    MarksSynced t' ↔ Recoverable f (Faulty.state t.before) connector snapshot := by
  obtain ⟨hrun, hsteps⟩ := hran
  rcases reconcile_ends.run hrun hsteps with ⟨-, hkept, -⟩ | ⟨snapshot', hsnap, hends⟩
  · rw [hhit, hplan] at hkept
    exact nomatch hkept
  obtain rfl := Except.ok.inj (hcall.symm.trans hsnap.taken)
  have hfits := marksSynced_iff_fits hran' (hsame ▸ hsnap) (hthen ▸ hhit)
  rw [hfits, hthen]
  obtain ⟨⟨before, fault⟩, call, trace, result, ⟨after, fault'⟩⟩ := t
  obtain rfl : fault = some f := hplan
  obtain rfl : fault' = none := hhit
  obtain ⟨syncedAt, hjob, -⟩ := hends
  have hleft := interrupted_job hjob
  change Fits after (after.previous connector) snapshot.tuples ↔
    Recoverable f before connector snapshot
  unfold Recoverable
  change if (storeCalls (before.previous connector) snapshot.tuples).length < f.reach then _
    else _ at hleft
  by_cases hreach : (storeCalls (before.previous connector) snapshot.tuples).length < f.reach
  · -- the snapshot is saved, so the retry has nothing to do
    rw [if_pos hreach] at hleft
    have hprevious : after.previous connector = snapshot.tuples := congrArg (·.getD .empty) hleft
    rw [hprevious]
    exact iff_of_true fits_self (.inl hreach)
  · rw [if_neg hreach] at hleft
    obtain ⟨hstates, hstore⟩ := hleft
    -- the retry asks for the same calls
    have hprevious : after.previous connector = before.previous connector := by
      unfold SyncState.previous
      rw [hstates]
      rfl
    rw [hprevious, or_iff_right hreach]
    by_cases hnone : f.reach = 0
    · rw [if_pos hnone] at hstore
      rw [and_iff_right hnone, hstore]
      exact Iff.rfl
    · rw [if_neg hnone] at hstore
      exact iff_of_false hstore fun h => hnone h.1

end Retry

/-! ### A sync that can never be completed -/

section Witness

/-- What the store says to a call that it refuses. -/
def refusedWrite : Exn := .hoc (HocClass.engineUnavailable.error "")

/-- Collaborators over a strict store. -/
def strictDriver : Driver (strictWorld refusedWrite) where
  answer s
    | .now => 0
    | .uuid4 => "id"
    | .register _ => .ok ()
    | .loadTuples connector => .ok ((Faulty.state s).states.loadTuples connector)
    | .writeTuples ts => (attempt refusedWrite (StoreCall.write ts).on s).1
    | .deleteTuples ts => (attempt refusedWrite (StoreCall.delete ts).on s).1
    | .save connector tuples syncedAt => (attempt refusedWrite (fun s => some { s with
        states := s.states.save connector tuples syncedAt }) s).1
    | .record _ => (attempt refusedWrite some s).1
  after s
    | .register connector => some ⟨registered connector (Faulty.state s), Faulty.fault s⟩
    | .writeTuples ts => some (attempt refusedWrite (StoreCall.write ts).on s).2
    | .deleteTuples ts => some (attempt refusedWrite (StoreCall.delete ts).on s).2
    | .save connector tuples syncedAt => some (attempt refusedWrite (fun s => some { s with
        states := s.states.save connector tuples syncedAt }) s).2
    | .record _ => some (attempt refusedWrite some s).2
    | _ => some s
  sound := by
    intro s o s' h
    cases o with
    | register connector => exact ⟨rfl, (Option.some.inj h).symm⟩
    | loadTuples connector => exact ⟨rfl, (Option.some.inj h).symm⟩
    | now => exact (Option.some.inj h).symm
    | uuid4 => exact (Option.some.inj h).symm
    | writeTuples ts => exact Prod.ext rfl (Option.some.inj h)
    | deleteTuples ts => exact Prod.ext rfl (Option.some.inj h)
    | save connector tuples syncedAt => exact Prod.ext rfl (Option.some.inj h)
    | record event => exact Prod.ext rfl (Option.some.inj h)

/-- A turn of the sync with the strict store. -/
abbrev StrictTurn := (syncService asciiIdentifier "files").Turn (strictWorld refusedWrite)

/-- A run into the fault from empty stores, and the run after it. -/
def retried (f : Fault Exn) (users : List String) : Option (StrictTurn × StrictTurn) := do
  let t ← strictDriver.turn (V := syncService asciiIdentifier "files") (viewers users)
    ⟨⟨.empty, .empty⟩, some f⟩
  let t' ← strictDriver.turn (viewers users) t.after
  return (t, t')

/-- The two runs are as the retry of an interrupted run has to be. -/
structure Retries (f : Fault Exn) (users : List String) (t t' : StrictTurn) : Prop where
  ran : t.Ran
  call : t.call = viewers users
  start : t.before = (⟨⟨.empty, .empty⟩, some f⟩ : Faulty SyncState Exn)
  again : t'.Ran
  same : t'.call = t.call
  next : t'.before = t.after

theorem retries_of_retried {f : Fault Exn} {users : List String} {p : StrictTurn × StrictTurn}
    (h : retried f users = some p) : Retries f users p.1 p.2 := by
  obtain ⟨t, ht, hrest⟩ := Option.bind_eq_some_iff.mp h
  obtain ⟨t', ht', hp⟩ := Option.bind_eq_some_iff.mp hrest
  obtain rfl := Option.some.inj hp
  obtain ⟨hran, hbefore, hcall⟩ := Driver.sound_turn ht
  obtain ⟨hran', hbefore', hcall'⟩ := Driver.sound_turn ht'
  exact ⟨hran, hcall, hbefore, hran', hcall'.trans hcall.symm, hbefore'⟩

/-- No fault is to come, and the second run returned, or did not. -/
def endsAs (returned : Bool) (p : StrictTurn × StrictTurn) : Bool :=
  (Faulty.fault p.1.after).isNone && (match p.2.result with
    | .ok _ => true
    | .error _ => false) == returned

/-- A fault that the collaborators raise, at the given step. -/
def faultAt (steps : ℕ) (carried : Bool) : Fault Exn :=
  ⟨steps, carried, .hoc (HocClass.connectorStateUnavailable.error "")⟩

/-- **It can fail.** The first run writes its tuple and is interrupted at the state save;
the retry asks for the same write, and the store refuses it. -/
theorem retry_refused :
    ∃ t t' : StrictTurn, Retries (faultAt 1 false) ["user:alice"] t t' ∧
      Faulty.fault t.after = none ∧ ¬ MarksSynced t' := by
  have hplay : (retried (faultAt 1 false) ["user:alice"]).any (endsAs false) = true := by
    decide +kernel
  obtain ⟨p, hp, hends⟩ := (Option.any_eq_true _ _).mp hplay
  obtain ⟨hhit, hret⟩ := Bool.and_eq_true_iff.mp hends
  refine ⟨p.1, p.2, retries_of_retried hp, Option.isNone_iff_eq_none.mp hhit, ?_⟩
  rintro ⟨report, hreport, -⟩
  simp [hreport] at hret

/-- A run that is interrupted at the audit write, after its state save, can be retried. -/
theorem retry_iff_saved :
    ∃ t t' : StrictTurn, Retries (faultAt 2 false) ["user:alice"] t t' ∧
      Faulty.fault t.after = none ∧ MarksSynced t' := by
  have hplay : (retried (faultAt 2 false) ["user:alice"]).any (endsAs true) = true := by
    decide +kernel
  obtain ⟨p, hp, hends⟩ := (Option.any_eq_true _ _).mp hplay
  have hhit := Option.isNone_iff_eq_none.mp (Bool.and_eq_true_iff.mp hends).1
  have hretries := retries_of_retried hp
  refine ⟨p.1, p.2, hretries, hhit, ?_⟩
  have hplan : Faulty.fault p.1.before = some (faultAt 2 false) := by rw [hretries.start]
  refine (retry_iff hretries.ran hretries.call hplan hhit hretries.again hretries.same
    hretries.next).mpr ?_
  rw [hretries.start]
  exact .inl (by decide +kernel)

end Witness

end HeadOfContext
