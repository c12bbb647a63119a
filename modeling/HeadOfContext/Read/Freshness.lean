import HeadOfContext.Read.Sharing

/-!
# How a half-applied sync reads

`assert_fresh` looks at one thing: when each connector was last saved. A run that fails after
some of its writes does not touch that time, so it reads just as the connector read before. The
histories here start from any state of the two stores, mix runs of any connectors with any
failures, and keep a record of the state saves that were carried out. `OnRecord` says what the
state store then has, and `half_applied_stale_iff` when a half-applied sync reads as stale:
exactly when some connector that the store knows has no state save, or none that is recent
enough. The failed run adds nothing to that; where it failed after its state save, at the audit
write, it even makes the connector fresh.
-/

namespace HeadOfContext

open Effects Except Service

/-! ### Histories with a record of the state saves -/

/-- The collaborators, and the state saves that were carried out, the latest first. -/
structure SavedState where
  sync : SyncState
  saves : List (String × ℤ)

/-- The state after a state save. -/
def SavedState.save (s : SavedState) (connector : String) (tuples : FrozenSet Tuple)
    (syncedAt : ℤ) : SavedState :=
  ⟨{ s.sync with states := s.sync.states.save connector tuples syncedAt },
    (connector, syncedAt) :: s.saves⟩

/-- The collaborators of `reconcile`, started in any state. A call that fails may have been
carried out, in part or in whole. -/
def savingWorld (start : SyncState) : World SyncSig where
  State := SavedState
  init := ⟨start, []⟩
  step s o r s' :=
    match o, r with
    | .save connector tuples syncedAt, r =>
      s' = s.save connector tuples syncedAt ∨ (∃ e, r = .error e) ∧ s' = s
    | o, r => syncWorld.step s.sync o r s'.sync ∧ s'.saves = s.saves

/-- A history of runs of the connectors, from the state `start`. -/
abbrev SavedHistory (isidentifier : String → Bool) (start : SyncState) :=
  List ((sharedService isidentifier).Turn (savingWorld start))

/-- The last time a connector was saved: in the history, or before it. -/
def lastSave (start : SyncState) (saves : List (String × ℤ)) (connector : String) : Option ℤ :=
  match saves.find? fun e => e.1 = connector with
  | some e => some e.2
  | none => start.states.lastSync connector

/-! ### What the state store has -/

section OnRecord

variable {start : SyncState} {s s' : SavedState} {registered : Set String}

/-- The state store has, for the connectors it knew at the start and those that were registered
or saved since, the time of their last state save. -/
structure OnRecord (start : SyncState) (registered : Set String) (s : SavedState) : Prop where
  last : ∀ c, s.sync.states.lastSync c = lastSave start s.saves c
  known : ∀ c, c ∈ s.sync.states.synced.keys ↔
    c ∈ start.states.synced.keys ∨ c ∈ registered ∨ ∃ syncedAt, (c, syncedAt) ∈ s.saves

theorem OnRecord.init : OnRecord start ∅ ⟨start, []⟩ where
  last _ := rfl
  known c := by simp

/-- The connectors that the call registers. -/
def registers (e : Event SyncSig) : Set String := {c | e = ⟨.register c, .ok ()⟩}

theorem OnRecord.unchanged {o : SyncOp} {r : o.Res} (h : OnRecord start registered s)
    (hstates : s'.sync.states = s.sync.states) (hsaves : s'.saves = s.saves)
    (hnone : ∀ c, o ≠ .register c) : OnRecord start (registered ∪ registers ⟨o, r⟩) s' where
  last c := by rw [hstates, hsaves, h.last c]
  known c := by
    have hnot : c ∉ registers ⟨o, r⟩ := fun hc => hnone c (congrArg Event.op hc)
    rw [hstates, hsaves, h.known c, Set.mem_union, or_iff_left hnot]

theorem OnRecord.save {connector : String} {tuples : FrozenSet Tuple} {syncedAt : ℤ}
    {r : Except Exn Unit} (h : OnRecord start registered s) :
    OnRecord start (registered ∪ registers ⟨.save connector tuples syncedAt, r⟩)
      (s.save connector tuples syncedAt) where
  -- the newest save is in front of the record
  last c := by
    change (s.sync.states.save connector tuples syncedAt).lastSync c = _
    unfold lastSave
    rw [ConnectorStates.lastSync_save, h.last c]
    by_cases hc : c = connector
    · subst hc
      simp [SavedState.save]
    · have hne : ¬ connector = c := fun heq => hc heq.symm
      simp [SavedState.save, hc, hne, lastSave]
  known c := by
    have hnot : c ∉ registers ⟨.save connector tuples syncedAt, r⟩ := fun hc =>
      nomatch congrArg Event.op hc
    change c ∈ (s.sync.states.synced.set connector _).keys ↔ _
    rw [Dict.mem_keys_set, h.known c, Set.mem_union, or_iff_left hnot]
    change _ ↔ _ ∨ _ ∨ ∃ syncedAt', (c, syncedAt') ∈ (connector, syncedAt) :: s.saves
    constructor
    · rintro (rfl | hstart | hregistered | ⟨last, hmem⟩)
      · exact .inr (.inr ⟨syncedAt, List.mem_cons_self⟩)
      · exact .inl hstart
      · exact .inr (.inl hregistered)
      · exact .inr (.inr ⟨last, List.mem_cons_of_mem _ hmem⟩)
    · rintro (hstart | hregistered | ⟨last, hmem⟩)
      · exact .inr (.inl hstart)
      · exact .inr (.inr (.inl hregistered))
      · rcases List.mem_cons.mp hmem with heq | hmem
        · exact .inl (Prod.mk.inj heq).1
        · exact .inr (.inr (.inr ⟨last, hmem⟩))

/-- **One call** keeps the record. -/
theorem OnRecord.step {o : SyncOp} {r : o.Res} (h : OnRecord start registered s)
    (hstep : (savingWorld start).step s o r s') :
    OnRecord start (registered ∪ registers ⟨o, r⟩) s' := by
  cases o with
  | now => exact h.unchanged (congrArg SyncState.states hstep.1) hstep.2 (by simp)
  | uuid4 => exact h.unchanged (congrArg SyncState.states hstep.1) hstep.2 (by simp)
  | record event => exact h.unchanged (congrArg SyncState.states hstep.1) hstep.2 (by simp)
  -- a save that fails changes nothing, and one that goes through is on record
  | save connector tuples syncedAt =>
    rcases hstep with rfl | ⟨-, rfl⟩
    · exact h.save
    · exact h.unchanged rfl rfl (by simp)
  | loadTuples connector =>
    cases r with
    | ok found => exact h.unchanged (congrArg SyncState.states hstep.1.2) hstep.2 (by simp)
    | error e => exact h.unchanged (congrArg SyncState.states hstep.1) hstep.2 (by simp)
  | writeTuples ts =>
    obtain ⟨done, hdone⟩ : ∃ done, s'.sync = s.sync.write done := by
      cases r with
      | ok u => exact ⟨ts, hstep.1⟩
      | error e => exact ⟨hstep.1.choose, hstep.1.choose_spec.2⟩
    exact h.unchanged (by rw [hdone]; rfl) hstep.2 (by simp)
  | deleteTuples ts =>
    obtain ⟨done, hdone⟩ : ∃ done, s'.sync = s.sync.delete done := by
      cases r with
      | ok u => exact ⟨ts, hstep.1⟩
      | error e => exact ⟨hstep.1.choose, hstep.1.choose_spec.2⟩
    exact h.unchanged (by rw [hdone]; rfl) hstep.2 (by simp)
  -- registering makes a connector known and leaves the time of its last save
  | register connector =>
    cases r with
    | error e =>
      obtain ⟨hsync, hsaves⟩ := hstep
      have hnone : registers ⟨.register connector, .error e⟩ = ∅ := by
        ext c
        simp [registers]
      rw [hnone, Set.union_empty]
      exact ⟨fun c => by rw [hsync, hsaves, h.last c], fun c => by rw [hsync, hsaves, h.known c]⟩
    | ok u =>
      obtain ⟨hsync, hsaves⟩ := hstep
      have hone : registers ⟨.register connector, .ok u⟩ = {connector} := by
        ext c
        simp [registers, eq_comm]
      rw [hone]
      refine ⟨fun c => ?_, fun c => ?_⟩
      · rw [hsync, hsaves]
        exact ConnectorStates.lastSync_register.trans (h.last c)
      · rw [hsync, hsaves]
        refine Dict.mem_keys_setdefault.trans ?_
        rw [h.known c, Set.mem_union, Set.mem_singleton_iff]
        tauto

/-- The connectors that a trace registers. -/
def registeredIn (tr : Trace SyncSig) : Set String := {c | ⟨.register c, .ok ()⟩ ∈ tr}

/-- **One run** keeps the record. -/
theorem OnRecord.steps {tr : Trace SyncSig} (h : OnRecord start registered s)
    (hsteps : (savingWorld start).Steps s tr s') :
    OnRecord start (registered ∪ registeredIn tr) s' := by
  have hrun : OnRecord start (registered ∪ registeredIn ([] ++ tr)) s' := by
    refine World.Steps.invariant (W := savingWorld start)
      (I := fun h s => OnRecord start (registered ∪ registeredIn h) s) ?_ hsteps ?_
    · intro h s o r s' hs hcall
      have happend : registeredIn (h ++ [⟨o, r⟩]) = registeredIn h ∪ registers ⟨o, r⟩ := by
        ext c
        simp [registeredIn, registers, eq_comm]
      rw [happend, ← Set.union_assoc]
      exact hs.step hcall
    · have hnone : registeredIn [] = ∅ := Set.ext fun c => by simp [registeredIn]
      rwa [hnone, Set.union_empty]
  exact hrun

end OnRecord

/-! ### Whole histories -/

section Histories

variable {isidentifier : String → Bool} {start : SyncState}
  {turns : SavedHistory isidentifier start} {s : SavedState}

/-- The connectors that the runs of the history have registered. -/
def registeredBy (turns : SavedHistory isidentifier start) : Set String :=
  {c | ∃ t ∈ turns, c ∈ registeredIn t.trace}

/-- **A whole history** keeps the record. -/
theorem onRecord (h : Session (sharedService isidentifier) (savingWorld start) turns s) :
    OnRecord start (registeredBy turns) s := by
  induction h with
  | start =>
    have hnone : registeredBy ([] : SavedHistory isidentifier start) = ∅ :=
      Set.ext fun c => by simp [registeredBy]
    rw [hnone]
    exact .init
  | @turn turns t h hran ih =>
    have happend : registeredBy (turns ++ [t]) = registeredBy turns ∪ registeredIn t.trace := by
      ext c
      simp only [registeredBy, List.mem_append, List.mem_singleton, Set.mem_ofPred_eq,
        Set.mem_union]
      constructor
      · rintro ⟨t', hold | rfl, hc⟩
        · exact .inl ⟨t', hold, hc⟩
        · exact .inr hc
      · rintro (⟨t', hold, hc⟩ | hc)
        · exact ⟨t', .inl hold, hc⟩
        · exact ⟨t, .inr rfl, hc⟩
    rw [happend]
    exact ih.steps hran.steps

/-- The run failed, and some of its writes or deletes took effect. -/
structure HalfApplied (t : (sharedService isidentifier).Turn (savingWorld start)) : Prop where
  failed : ∃ e, t.result = .error e
  applied : SyncState.tuples (SavedState.sync t.after) ≠ SyncState.tuples (SavedState.sync t.before)

/-- The history has a half-applied run of some connector, and no run of that connector has
succeeded since. -/
def Unsettled (turns : SavedHistory isidentifier start) : Prop :=
  ∃ done t rest, turns = done ++ t :: rest ∧ HalfApplied t ∧
    ∀ t' ∈ rest, SourceConnector.name t'.call = SourceConnector.name t.call →
      ∃ e, t'.result = .error e

/-- **A half-applied sync reads as stale**: from the moment the run fails until a run of its
connector succeeds, `assert_fresh` raises `ConnectorStale`. -/
def ReadsStale (secondsText : Option ℤ → String) (max now : ℤ)
    (turns : SavedHistory isidentifier start) (s : SavedState) : Prop :=
  Unsettled turns → ∃ e, s.sync.states.assertFresh secondsText max now = .error e ∧
    e.cls = .connectorStale

/-- Some connector that the state store knows, from the start, by its registration or by a
state save, has no state save that is recent enough. -/
def SomeOverdue (max now : ℤ) (turns : SavedHistory isidentifier start) (s : SavedState) : Prop :=
  ∃ c, (c ∈ start.states.synced.keys ∨ c ∈ registeredBy turns ∨
      ∃ syncedAt, (c, syncedAt) ∈ s.saves) ∧
    ConnectorStates.StaleSince max now (lastSave start s.saves c)

/-- **When a half-applied sync reads as stale.** At every moment of every history, for every
clock and `max_staleness`: exactly where some known connector has no state save, or none that
is recent enough. -/
theorem half_applied_stale_iff {secondsText : Option ℤ → String} {max now : ℤ}
    (h : Session (sharedService isidentifier) (savingWorld start) turns s) :
    ReadsStale secondsText max now turns s ↔ (Unsettled turns → SomeOverdue max now turns s) := by
  have hrecord := onRecord h
  refine imp_congr_right fun _ => ConnectorStates.assertFresh_error.trans ?_
  refine exists_congr fun c => ?_
  rw [hrecord.known c, hrecord.last c]

end Histories

/-! ### A half-applied sync of a connector that was synced before -/

section Witness

/-- Collaborators that answer every call, except that a state save fails, and is not carried
out, where `saves` is false. -/
def savingDriver (start : SyncState) (saves : Bool) : Driver (savingWorld start) where
  answer s o := (syncDriver saves).answer (SavedState.sync s) o
  after s o :=
    match o with
    | .save connector tuples syncedAt =>
      some (if saves then SavedState.save s connector tuples syncedAt else s)
    | o => ((syncDriver saves).after (SavedState.sync s) o).map fun sync =>
      ⟨sync, SavedState.saves s⟩
  sound := by
    intro s o s' h
    have hother : ∀ o, ((syncDriver saves).after (SavedState.sync s) o).map
        (fun sync => (⟨sync, SavedState.saves s⟩ : SavedState)) = some s' →
        syncWorld.step (SavedState.sync s) o ((syncDriver saves).answer (SavedState.sync s) o)
          (SavedState.sync s') ∧ SavedState.saves s' = SavedState.saves s := by
      intro o h
      obtain ⟨sync, hsync, rfl⟩ := Option.map_eq_some_iff.mp h
      exact ⟨(syncDriver saves).sound hsync, rfl⟩
    cases o with
    | save connector tuples syncedAt =>
      cases saves with
      | true => exact .inl (Option.some.inj h).symm
      | false => exact .inr ⟨⟨_, rfl⟩, (Option.some.inj h).symm⟩
    | now => exact hother _ h
    | uuid4 => exact hother _ h
    | register connector => exact hother _ h
    | loadTuples connector => exact hother _ h
    | writeTuples ts => exact hother _ h
    | deleteTuples ts => exact hother _ h
    | record event => exact hother _ h

/-- Stores in which nothing has happened yet. -/
def noSync : SyncState := ⟨.empty, .empty⟩

/-- Runs of one connector, with what the state store does in each. -/
def savingRuns (plan : List (Bool × List String)) :
    Option (SavedHistory asciiIdentifier noSync × SavedState) :=
  Driver.turns (plan.map fun (saves, users) =>
    (savingDriver noSync saves, ⟨"files", viewers users⟩)) ⟨noSync, []⟩

/-- The last run of the history is half-applied. -/
def endsHalfApplied (turns : SavedHistory asciiIdentifier noSync) : Bool :=
  match turns.getLast? with
  | none => false
  | some t => (match t.result with
    | .ok _ => false
    | .error _ => true) && decide (SyncState.tuples (SavedState.sync t.after) ≠
      SyncState.tuples (SavedState.sync t.before))

theorem unsettled_of_endsHalfApplied {turns : SavedHistory asciiIdentifier noSync}
    (h : endsHalfApplied turns = true) : Unsettled turns := by
  unfold endsHalfApplied at h
  match hlast : turns.getLast? with
  | none => simp [hlast] at h
  | some t =>
    rw [hlast] at h
    obtain ⟨hfailed, happlied⟩ := Bool.and_eq_true_iff.mp h
    refine ⟨turns.dropLast, t, [], (List.dropLast_append_getLast? t hlast).symm, ⟨?_, ?_⟩, ?_⟩
    · match hresult : t.result with
      | .ok report => simp [hresult] at hfailed
      | .error e => exact ⟨e, rfl⟩
    · exact of_decide_eq_true happlied
    · exact fun t' ht' => absurd ht' List.not_mem_nil

/-- **It can fail.** A connector is synced; a minute later its next run writes alice's tuple
and fails at the state save. With a `max_staleness` of ten minutes, everything reads fresh. -/
theorem half_applied_reads_fresh :
    ∃ (turns : SavedHistory asciiIdentifier noSync) (s : SavedState),
      Session (sharedService asciiIdentifier) (savingWorld noSync) turns s ∧ Unsettled turns ∧
        ¬ ReadsStale (fun _ => "") 600000000 60000000 turns s := by
  have hplay : (savingRuns [(true, []), (false, ["user:alice"])]).any (fun h =>
      endsHalfApplied h.1 &&
        decide (h.2.sync.states.assertFresh (fun _ => "") 600000000 60000000 = .ok ())) = true := by
    decide +kernel
  obtain ⟨h, hruns, htest⟩ := (Option.any_eq_true _ _).mp hplay
  obtain ⟨hhalf, hfresh⟩ := Bool.and_eq_true_iff.mp htest
  have hunsettled := unsettled_of_endsHalfApplied hhalf
  refine ⟨h.1, h.2, Driver.sound_turns .start hruns, hunsettled, fun hstale => ?_⟩
  obtain ⟨e, he, -⟩ := hstale hunsettled
  rw [of_decide_eq_true hfresh] at he
  exact nomatch he

/-- The connector is registered in the run. -/
def registersFiles (t : (sharedService asciiIdentifier).Turn (savingWorld noSync)) : Bool :=
  t.trace.any fun e => match e with
    | ⟨.register connector, .ok ()⟩ => decide (connector = "files")
    | _ => false

theorem mem_of_registersFiles {t : (sharedService asciiIdentifier).Turn (savingWorld noSync)}
    (h : registersFiles t = true) : ⟨.register "files", .ok ()⟩ ∈ t.trace := by
  obtain ⟨e, he, hfiles⟩ := List.any_eq_true.mp h
  split at hfiles
  · obtain rfl := of_decide_eq_true hfiles
    exact he
  · exact absurd hfiles Bool.false_ne_true

/-- A connector that has never been saved reads as stale after a half-applied run. -/
theorem half_applied_stale_iff_first :
    ∃ (turns : SavedHistory asciiIdentifier noSync) (s : SavedState),
      Session (sharedService asciiIdentifier) (savingWorld noSync) turns s ∧ Unsettled turns ∧
        ReadsStale (fun _ => "") 600000000 60000000 turns s := by
  have hplay : (savingRuns [(false, ["user:alice"])]).any (fun h =>
      endsHalfApplied h.1 && decide (h.2.saves = []) && h.1.any registersFiles) = true := by
    decide +kernel
  obtain ⟨h, hruns, htest⟩ := (Option.any_eq_true _ _).mp hplay
  obtain ⟨htest, hregistered⟩ := Bool.and_eq_true_iff.mp htest
  obtain ⟨hhalf, hsaves⟩ := Bool.and_eq_true_iff.mp htest
  obtain ⟨t, ht, hfiles⟩ := List.any_eq_true.mp hregistered
  have hsession : Session (sharedService asciiIdentifier) (savingWorld noSync) h.1 h.2 :=
    Driver.sound_turns .start hruns
  refine ⟨h.1, h.2, hsession, unsettled_of_endsHalfApplied hhalf, ?_⟩
  refine (half_applied_stale_iff hsession).mpr fun _ =>
    ⟨"files", .inr (.inl ⟨t, ht, mem_of_registersFiles hfiles⟩), ?_⟩
  rw [of_decide_eq_true hsaves]
  intro syncedAt hnone
  cases hnone

end Witness

end HeadOfContext
