import HeadOfContext.Framework.DiffSync
import HeadOfContext.Framework.Sequential
import HeadOfContext.Read.Connectors

/-!
# When a sync leaves no stale grant

One connector is reconciled again and again over a tuple store that nobody else writes. Any
call may fail on the way, and a write that fails may have been applied in part. `reconcile`
applies the difference between the snapshot and the tuples saved last, so what a run that
returns leaves is the snapshot exactly when the store was in step with them
(`no_stale_grant_iff`). `stale_grant` is a history in which it is not: a tuple that a failed
run has written and that the next snapshot does not have is never deleted.
-/

namespace HeadOfContext

open Effects Except Service DiffSync

/-! ### The collaborators -/

/-- The state of the collaborators: the tuple store and the connector state store. -/
structure SyncState where
  tuples : FrozenSet Tuple
  states : ConnectorStates

namespace SyncState

/-- The tuples in the store. -/
def grants (s : SyncState) : Set Tuple := {t | t ∈ s.tuples}

/-- The tuples that a connector saved last. -/
def baseline (s : SyncState) (connector : String) : Set Tuple :=
  {t | t ∈ (s.states.loadTuples connector).getD .empty}

/-- The store after `ts` were written. -/
def write (s : SyncState) (ts : List Tuple) : SyncState :=
  { s with tuples := (FrozenSet.ofList ts).union s.tuples }

/-- The store after `ts` were deleted. -/
def delete (s : SyncState) (ts : List Tuple) : SyncState :=
  { s with tuples := s.tuples.sdiff (.ofList ts) }

variable {s : SyncState} {connector : String} {ts : List Tuple}

@[simp] theorem grants_write : (s.write ts).grants = s.grants ∪ {t | t ∈ ts} := by
  ext t
  simp [grants, write, or_comm]

@[simp] theorem grants_delete : (s.delete ts).grants = s.grants \ {t | t ∈ ts} := by
  ext t
  simp [grants, delete]

@[simp] theorem baseline_write : (s.write ts).baseline connector = s.baseline connector := rfl

@[simp] theorem baseline_delete : (s.delete ts).baseline connector = s.baseline connector := rfl

end SyncState

/-- The tuples of a snapshot. -/
def Snapshot.grants (snapshot : Snapshot) : Set Tuple := {t | t ∈ snapshot.tuples}

/-- The collaborators of `reconcile`: a tuple store with set semantics, and the in-memory state
store. A call that fails may have been carried out, in part or in whole. -/
def syncWorld : World SyncSig where
  State := SyncState
  init := ⟨.empty, .empty⟩
  step s o r s' :=
    match o, r with
    | .register connector, .ok () => s' = { s with states := s.states.register connector }
    | .loadTuples connector, .ok found => found = s.states.loadTuples connector ∧ s' = s
    | .writeTuples ts, .ok () => s' = s.write ts
    | .writeTuples ts, .error _ => ∃ done, done ⊆ ts ∧ s' = s.write done
    | .deleteTuples ts, .ok () => s' = s.delete ts
    | .deleteTuples ts, .error _ => ∃ done, done ⊆ ts ∧ s' = s.delete done
    | .save connector tuples syncedAt, .ok () =>
      s' = { s with states := s.states.save connector tuples syncedAt }
    | .save connector tuples syncedAt, .error _ =>
      s' = s ∨ s' = { s with states := s.states.save connector tuples syncedAt }
    | _, _ => s' = s

/-- The runs of one connector: each takes the snapshot that the connector has at the time. -/
def syncService (isidentifier : String → Bool) (connector : String) : Service SyncSig where
  Call := Except Exn Snapshot
  Out _ := Except Exn SyncReport
  body snapshot := (reconcile isidentifier ⟨connector, snapshot⟩).run

/-! ### One run -/

section Run

variable {s : SyncState} {connector : String}

theorem writeChunks_returns {chunks : List (List Tuple)} {Q : Unit → SyncState → Prop}
    (h : ∀ s', s'.grants = s.grants ∪ {t | t ∈ chunks.flatten} → s'.states = s.states → Q () s') :
    Raises.Returns syncWorld Q (writeChunks chunks) s := by
  induction chunks generalizing s with
  | nil => exact Raises.returns_pure.mpr (h s (by simp) rfl)
  | cons chunk rest ih =>
    refine Raises.returns_bind.mpr fun r s₁ hstep _ hr => ?_
    subst hr
    obtain rfl : s₁ = s.write chunk := hstep
    refine ih fun s' hgrants hstates => h s' ?_ hstates
    rw [hgrants, SyncState.grants_write, Set.union_assoc]
    congr 1
    ext t
    simp

theorem deleteChunks_returns {chunks : List (List Tuple)} {Q : Unit → SyncState → Prop}
    (h : ∀ s', s'.grants = s.grants \ {t | t ∈ chunks.flatten} → s'.states = s.states → Q () s') :
    Raises.Returns syncWorld Q (deleteChunks chunks) s := by
  induction chunks generalizing s with
  | nil => exact Raises.returns_pure.mpr (h s (by simp) rfl)
  | cons chunk rest ih =>
    refine Raises.returns_bind.mpr fun r s₁ hstep _ hr => ?_
    subst hr
    obtain rfl : s₁ = s.delete chunk := hstep
    refine ih fun s' hgrants hstates => h s' ?_ hstates
    rw [hgrants, SyncState.grants_delete, Set.sdiff_sdiff]
    congr 1
    ext t
    simp

/-- **What a run that returns has done**: it has applied the difference between its snapshot and
the tuples saved last, and saved its snapshot. -/
theorem reconcile_returns {isidentifier : String → Bool} {connector : String}
    {taken : Except Exn Snapshot} :
    Raises.Returns syncWorld
      (fun _ s' => ∃ snapshot, taken = .ok snapshot ∧
        s'.grants = patch s.grants (s.baseline connector) snapshot.grants ∧
        ∀ c, s'.states.loadTuples c =
          if c = connector then some snapshot.tuples else s.states.loadTuples c)
      (reconcile isidentifier ⟨connector, taken⟩) s := by
  -- the calls are followed in the order of the source, each with the state it leaves
  refine Raises.returns_bind.mpr fun r s₁ hstep _ hr => ?_
  subst hr
  obtain rfl : s₁ = { s with states := s.states.register connector } := hstep
  refine Raises.returns_bind.mpr fun snapshot htaken => ?_
  obtain rfl : taken = .ok snapshot := htaken
  refine Raises.returns_bind.mpr (Core.returns_ofHoc.mpr fun valid hvalid => ?_)
  obtain rfl := validateTuples_eq_ok hvalid
  rw [FrozenSet.ofList_items]
  refine Raises.returns_bind.mpr fun r s₂ hstep saved hr => ?_
  subst hr
  obtain ⟨rfl, rfl⟩ : saved = s.states.loadTuples connector ∧
    s₂ = { s with states := s.states.register connector } := hstep
  set previous := (s.states.loadTuples connector).getD .empty with hprevious
  have hadded : ∀ l : FrozenSet Tuple, {t | t ∈ (l.items.chunksOf 100).flatten} = {t | t ∈ l} := by
    intro l
    rw [List.flatten_chunksOf (by decide)]
    rfl
  -- the new tuples are written before the old ones are deleted
  refine Raises.returns_bind.mpr (writeChunks_returns fun s₃ hgrants hstates => ?_)
  refine Raises.returns_bind.mpr (deleteChunks_returns fun s₄ hgrants' hstates' => ?_)
  refine Raises.returns_bind.mpr (Raises.returns_lift_invoke.mpr fun syncedAt s₅ hstep => ?_)
  obtain rfl : s₅ = s₄ := hstep
  refine Raises.returns_bind.mpr fun r s₆ hstep _ hr => ?_
  subst hr
  obtain rfl : s₆ = { s₅ with states := s₅.states.save connector snapshot.tuples syncedAt } := hstep
  refine Raises.returns_bind.mpr (Raises.returns_lift_invoke.mpr fun eventId s₇ hstep => ?_)
  obtain rfl := hstep
  refine Raises.returns_bind.mpr fun r s₈ hstep _ hr => ?_
  subst hr
  obtain rfl := hstep
  -- what the tuple store holds, and what the state store holds for each connector
  refine Raises.returns_pure.mpr ⟨snapshot, rfl, ?_, fun c => ?_⟩
  · change s₅.grants = _
    rw [hgrants', hgrants, hadded, hadded]
    ext t
    simp [patch, SyncState.baseline, SyncState.grants, Snapshot.grants, hprevious]
  · -- the tuple store calls have left the state store as it was
    have hstates₅ : s₅.states = s.states.register connector := hstates'.trans hstates
    rw [hstates₅, ConnectorStates.loadTuples_save, ConnectorStates.loadTuples_register]

end Run

/-! ### Histories -/

section Histories

variable {isidentifier : String → Bool} {connector : String} {s : SyncState}

/-- A history of runs of the connector. -/
abbrev SyncHistory (isidentifier : String → Bool) (connector : String) :=
  List ((syncService isidentifier connector).Turn syncWorld)

variable {turns : SyncHistory isidentifier connector}
  {t : (syncService isidentifier connector).Turn syncWorld}

/-- **No stale grant**: a run that returns leaves the tuples of its snapshot, and no others. -/
def NoStaleGrant (turns : SyncHistory isidentifier connector) : Prop :=
  ∀ t ∈ turns, ∀ snapshot report, t.call = .ok snapshot → t.result = .ok report →
    SyncState.tuples t.after = snapshot.tuples

/-- Each run that returns has found the store in step with the tuples saved last and its
snapshot: the store had every tuple that these two share, and every tuple it had beyond the
saved ones was in the snapshot. -/
def StartsInStep (turns : SyncHistory isidentifier connector) : Prop :=
  ∀ t ∈ turns, ∀ snapshot report, t.call = .ok snapshot → t.result = .ok report →
    InStep (SyncState.grants t.before) (SyncState.baseline t.before connector) snapshot.grants

theorem grants_eq_iff {snapshot : Snapshot} :
    s.grants = snapshot.grants ↔ s.tuples = snapshot.tuples :=
  ⟨fun h => FrozenSet.ext fun t => Set.ext_iff.mp h t, fun h => by rw [SyncState.grants, h]; rfl⟩

theorem turn_returned (ht : t.Ran) {snapshot : Snapshot} {report : SyncReport}
    (hcall : t.call = .ok snapshot) (hret : t.result = .ok report) :
    SyncState.grants t.after =
        patch (SyncState.grants t.before) (SyncState.baseline t.before connector) snapshot.grants ∧
      SyncState.baseline t.after connector = snapshot.grants := by
  obtain ⟨hrun, hsteps⟩ := ht
  obtain ⟨before, call, trace, result, after⟩ := t
  change call = .ok snapshot at hcall
  change result = .ok report at hret
  subst hcall hret
  obtain ⟨taken, htaken, hgrants, hsaved⟩ := reconcile_returns.run hrun hsteps
  obtain rfl := Except.ok.inj htaken
  refine ⟨hgrants, ?_⟩
  change {t | t ∈ ((SyncState.states after).loadTuples connector).getD .empty} = snapshot.grants
  rw [hsaved, if_pos rfl]
  rfl

/-- **When a sync leaves no stale grant.** In every history, the runs that return leave exactly
their snapshots if and only if each has found the store in step. -/
theorem no_stale_grant_iff (h : Session (syncService isidentifier connector) syncWorld turns s) :
    NoStaleGrant turns ↔ StartsInStep turns := by
  refine forall_congr' fun t => forall_congr' fun ht => forall_congr' fun snapshot =>
    forall_congr' fun report => forall_congr' fun hcall => forall_congr' fun hret => ?_
  obtain ⟨hgrants, -⟩ := turn_returned (h.ran_of_mem ht) hcall hret
  have hleft : SyncState.grants t.after = snapshot.grants ↔
      SyncState.tuples t.after = snapshot.tuples :=
    grants_eq_iff
  rw [← hleft, hgrants, patch_eq_iff]

/-- Where every run returns, the store is what was saved last, and no sync leaves a stale
grant. -/
theorem noStaleGrant_of_returned
    (h : Session (syncService isidentifier connector) syncWorld turns s)
    (hall : ∀ t ∈ turns, ∃ snapshot report, t.call = .ok snapshot ∧ t.result = .ok report) :
    s.grants = s.baseline connector ∧ NoStaleGrant turns := by
  induction h with
  | start => exact ⟨rfl, fun t ht => absurd ht List.not_mem_nil⟩
  | @turn turns t h hran ih =>
    obtain ⟨hstep, hclean⟩ := ih fun t ht => hall t (List.mem_append_left _ ht)
    obtain ⟨snapshot, report, hcall, hret⟩ :=
      hall t (List.mem_append_right _ (List.mem_singleton.mpr rfl))
    obtain ⟨hgrants, hsaved⟩ := turn_returned hran hcall hret
    rw [hstep, patch_eq_iff.mpr .refl] at hgrants
    refine ⟨hgrants.trans hsaved.symm, fun t' ht' => ?_⟩
    rcases List.mem_append.mp ht' with hold | hnow
    · exact hclean t' hold
    · obtain rfl := List.mem_singleton.mp hnow
      intro snapshot' report' hcall' _
      obtain rfl := Except.ok.inj (hcall.symm.trans hcall')
      exact grants_eq_iff.mp hgrants

end Histories

/-! ### A half-applied run -/

section Witness

/-- Identifiers over ASCII. -/
def asciiIdentifier (s : String) : Bool :=
  match s.toList with
  | [] => false
  | c :: cs => (c.isAlpha || c == '_') && cs.all fun c => c.isAlphanum || c == '_'

/-- Collaborators that answer every call, except that a state save fails where `saves` is
false. -/
def syncDriver (saves : Bool) : Driver syncWorld where
  answer s
    | .now => 0
    | .uuid4 => "id"
    | .register _ => .ok ()
    | .loadTuples connector => .ok (s.states.loadTuples connector)
    | .writeTuples _ => .ok ()
    | .deleteTuples _ => .ok ()
    | .save _ _ _ =>
      if saves then .ok ()
      else .error (.hoc (HocClass.connectorStateUnavailable.error ""))
    | .record _ => .ok ()
  after s
    | .register connector => some { s with states := s.states.register connector }
    | .writeTuples ts => some (s.write ts)
    | .deleteTuples ts => some (s.delete ts)
    | .save connector tuples syncedAt => some (if saves then
        { s with states := s.states.save connector tuples syncedAt } else s)
    | _ => some s
  sound := by
    intro s o s' h
    cases o with
    | loadTuples connector => exact ⟨rfl, (Option.some.inj h).symm⟩
    | save connector tuples syncedAt =>
      cases saves with
      | true => exact (Option.some.inj h).symm
      | false => exact .inl (Option.some.inj h).symm
    | _ => exact (Option.some.inj h).symm

/-- A snapshot that lets the users view a document. -/
def viewers (users : List String) : Except Exn Snapshot :=
  .ok ⟨.ofList (users.map fun u => ⟨u, "viewer", "document:a"⟩), []⟩

/-- Two runs, with what the state store does in each. -/
def twoRuns (first second : Bool × List String) :
    Option (SyncHistory asciiIdentifier "files" × SyncState) := do
  let t ← (syncDriver first.1).turn (V := syncService asciiIdentifier "files") (viewers first.2)
    syncWorld.init
  let t' ← (syncDriver second.1).turn (viewers second.2) t.after
  return ([t, t'], t'.after)

theorem session_twoRuns {first second : Bool × List String}
    {h : SyncHistory asciiIdentifier "files" × SyncState} (hruns : twoRuns first second = some h) :
    Session (syncService asciiIdentifier "files") syncWorld h.1 h.2 := by
  obtain ⟨t, ht, hrest⟩ := Option.bind_eq_some_iff.mp hruns
  obtain ⟨t', ht', hh⟩ := Option.bind_eq_some_iff.mp hrest
  obtain rfl := Option.some.inj hh
  obtain ⟨hran, hbefore, -⟩ := Driver.sound_turn ht
  obtain ⟨hran', hbefore', -⟩ := Driver.sound_turn ht'
  have hfirst : Session (syncService asciiIdentifier "files") syncWorld ([] ++ [t]) t.after :=
    .turn (hbefore ▸ .start) hran
  rw [← hbefore'] at hfirst
  exact .turn hfirst hran'

/-- The turn returned, and what the store then has is, or is not, the snapshot. -/
def returnedWith (exact : Bool) (t : (syncService asciiIdentifier "files").Turn syncWorld) : Bool :=
  match t.call, t.result with
  | .ok snapshot, .ok _ => decide (SyncState.tuples t.after = snapshot.tuples) == exact
  | _, _ => false

theorem returnedWith_iff {exact : Bool} {t : (syncService asciiIdentifier "files").Turn syncWorld}
    (h : returnedWith exact t = true) : ∃ snapshot report, t.call = .ok snapshot ∧
      t.result = .ok report ∧ (SyncState.tuples t.after = snapshot.tuples ↔ exact = true) := by
  unfold returnedWith at h
  split at h
  · next snapshot report hcall hret =>
    have hexact : decide (SyncState.tuples t.after = snapshot.tuples) = exact := beq_iff_eq.mp h
    exact ⟨snapshot, report, hcall, hret, by rw [← hexact, decide_eq_true_iff]⟩
  · exact absurd h (by simp)

theorem returnedWith_eq {exact : Bool} {t : (syncService asciiIdentifier "files").Turn syncWorld}
    {snapshot : Snapshot} {report : SyncReport} (hcall : t.call = .ok snapshot)
    (hret : t.result = .ok report) :
    returnedWith exact t = (decide (SyncState.tuples t.after = snapshot.tuples) == exact) := by
  obtain ⟨before, call, trace, result, after⟩ := t
  change call = .ok snapshot at hcall
  change result = .ok report at hret
  subst hcall hret
  rfl

/-- **It can fail.** A run writes alice's tuple and fails to save it. Her access is then
removed at the source; the next run returns, and her tuple is still there. -/
theorem stale_grant :
    ∃ (turns : SyncHistory asciiIdentifier "files") (s : SyncState),
      Session (syncService asciiIdentifier "files") syncWorld turns s ∧ ¬ NoStaleGrant turns ∧
        ⟨"user:alice", "viewer", "document:a"⟩ ∈ s.tuples := by
  have hplay : (twoRuns (false, ["user:alice"]) (true, ["user:carol"])).any (fun h =>
      h.1.any (returnedWith false) &&
        decide (⟨"user:alice", "viewer", "document:a"⟩ ∈ h.2.tuples)) = true := by
    decide +kernel
  obtain ⟨h, hruns, htest⟩ := (Option.any_eq_true _ _).mp hplay
  obtain ⟨hstale, hmem⟩ := Bool.and_eq_true_iff.mp htest
  obtain ⟨t, ht, hreturned⟩ := List.any_eq_true.mp hstale
  obtain ⟨snapshot, report, hcall, hret, hexact⟩ := returnedWith_iff hreturned
  refine ⟨h.1, h.2, session_twoRuns hruns, fun hclean => ?_, of_decide_eq_true hmem⟩
  exact absurd (hexact.mp (hclean t ht snapshot report hcall hret)) (by simp)

/-- A failed run is made up for where the next snapshot has everything it wrote. -/
theorem no_stale_grant_iff_retried :
    ∃ (turns : SyncHistory asciiIdentifier "files"), StartsInStep turns ∧
      ∃ t ∈ turns, ∃ snapshot report, t.call = .ok snapshot ∧ t.result = .ok report := by
  have hplay : (twoRuns (false, ["user:alice"]) (true, ["user:alice", "user:carol"])).any (fun h =>
      h.1.any (returnedWith true) && h.1.all fun t => !returnedWith false t) = true := by
    decide +kernel
  obtain ⟨h, hruns, htest⟩ := (Option.any_eq_true _ _).mp hplay
  obtain ⟨hany, hall⟩ := Bool.and_eq_true_iff.mp htest
  obtain ⟨t, ht, hreturned⟩ := List.any_eq_true.mp hany
  obtain ⟨snapshot, report, hcall, hret, -⟩ := returnedWith_iff hreturned
  refine ⟨h.1, (no_stale_grant_iff (session_twoRuns hruns)).mp ?_, t, ht, snapshot, report, hcall,
    hret⟩
  intro t' ht' snapshot' report' hcall' hret'
  have hnot : returnedWith false t' = false := by simpa using List.all_eq_true.mp hall t' ht'
  rw [returnedWith_eq hcall' hret'] at hnot
  simpa using hnot

end Witness

end HeadOfContext
