import HeadOfContext.Read.Sync

/-!
# Connectors that share a tuple store

Several connectors are reconciled over one tuple store, in any order, and every run is
complete. Each takes the difference against the tuples that it saved last itself, while the
store holds the tuples of all of them. So the store stays the union of the latest snapshots
exactly as long as no connector drops a tuple that another one still has
(`connectors_share_iff`). `connector_undone` is a history in which one does: the tuple is
deleted, and the next runs of the connector that has it leave it deleted, since for that
connector nothing has changed.

The abstract counterpart is `DiffSync.patch_pooled_eq_iff`, about sources over one replica. What
the connectors hold is read from the history (`held`), and `baseline_eq_held` connects it to
what the state store has saved.
-/

namespace HeadOfContext

open Effects Except Service DiffSync

/-! ### Histories of several connectors -/

/-- The runs of the connectors that share the store; a connector is known by its name. -/
def sharedService (isidentifier : String → Bool) : Service SyncSig where
  Call := SourceConnector
  Out _ := Except Exn SyncReport
  body connector := (reconcile isidentifier connector).run

/-- A history of runs of the connectors. -/
abbrev SharedHistory (isidentifier : String → Bool) :=
  List ((sharedService isidentifier).Turn syncWorld)

namespace SharedHistory

variable {isidentifier : String → Bool}

/-- Every run of the history is complete: it returned its report. -/
def Complete (turns : SharedHistory isidentifier) : Prop :=
  ∀ t ∈ turns, ∃ report, t.result = .ok report

/-- The snapshot of the last run of a connector, if it has synced. -/
def lastSnapshot (turns : SharedHistory isidentifier) (connector : String) : Option Snapshot :=
  ((turns.filter fun t => SourceConnector.name t.call = connector).getLast?).bind
    fun t => (SourceConnector.snapshot t.call).toOption

/-- The tuples of the latest snapshot of a connector; none where it has not synced. -/
def held (turns : SharedHistory isidentifier) (connector : String) : Set Tuple :=
  {x | ∃ snapshot, turns.lastSnapshot connector = some snapshot ∧ x ∈ snapshot.tuples}

/-- **No connector undoes another**: after every run, the store is the union of the latest
snapshots of all connectors that have synced. -/
def Pooled (turns : SharedHistory isidentifier) : Prop :=
  ∀ done t, done ++ [t] <+: turns →
    SyncState.grants t.after =
      {x | ∃ connector snapshot, lastSnapshot (done ++ [t]) connector = some snapshot ∧
        x ∈ snapshot.tuples}

/-- No connector drops a tuple that another one still has: where a tuple was in its own latest
snapshot and is in the latest snapshot of another connector, its next snapshot has it too. -/
def SparesOthers (turns : SharedHistory isidentifier) : Prop :=
  ∀ done t, done ++ [t] <+: turns → ∀ snapshot, SourceConnector.snapshot t.call = .ok snapshot →
    ∀ previous, lastSnapshot done (SourceConnector.name t.call) = some previous →
    ∀ other current, other ≠ SourceConnector.name t.call → lastSnapshot done other = some current →
    ∀ x ∈ previous.tuples, x ∈ current.tuples → x ∈ snapshot.tuples

/-! ### What the history holds -/

variable {turns : SharedHistory isidentifier} {t : (sharedService isidentifier).Turn syncWorld}

theorem lastSnapshot_append {c : String} :
    lastSnapshot (turns ++ [t]) c =
      if c = SourceConnector.name t.call then (SourceConnector.snapshot t.call).toOption
      else turns.lastSnapshot c := by
  unfold lastSnapshot
  rw [List.filter_append]
  by_cases hc : c = SourceConnector.name t.call
  · have hkept : [t].filter (fun t => decide (SourceConnector.name t.call = c)) = [t] := by
      simp [hc]
    rw [if_pos hc, hkept, List.getLast?_concat]
    rfl
  · have hdropped : [t].filter (fun t => decide (SourceConnector.name t.call = c)) = [] := by
      simp [Ne.symm hc]
    rw [if_neg hc, hdropped, List.append_nil]

/-- A run changes what its own connector holds. -/
theorem held_append {snapshot : Snapshot}
    (htaken : SourceConnector.snapshot t.call = .ok snapshot) :
    held (turns ++ [t]) =
      Function.update turns.held (SourceConnector.name t.call) snapshot.grants := by
  funext c
  by_cases hc : c = SourceConnector.name t.call
  · subst hc
    rw [Function.update_self]
    ext x
    change (∃ s, lastSnapshot (turns ++ [t]) _ = some s ∧ _) ↔ x ∈ snapshot.tuples
    rw [lastSnapshot_append, if_pos rfl, htaken]
    exact ⟨fun ⟨s, hs, hx⟩ => Option.some.inj hs ▸ hx, fun hx => ⟨snapshot, rfl, hx⟩⟩
  · rw [Function.update_of_ne hc]
    ext x
    change (∃ s, lastSnapshot (turns ++ [t]) c = some s ∧ _) ↔ _
    rw [lastSnapshot_append, if_neg hc]
    rfl

theorem mem_pooled_held {x : Tuple} :
    x ∈ pooled turns.held ↔ ∃ connector snapshot,
      turns.lastSnapshot connector = some snapshot ∧ x ∈ snapshot.tuples := mem_pooled

/-- The condition at one run, in terms of what is held. -/
theorem spares_iff {snapshot : Snapshot} (htaken : SourceConnector.snapshot t.call = .ok snapshot) :
    others turns.held (SourceConnector.name t.call) ∩ turns.held (SourceConnector.name t.call) ⊆
        snapshot.grants ↔
      ∀ snapshot, SourceConnector.snapshot t.call = .ok snapshot →
        ∀ previous, turns.lastSnapshot (SourceConnector.name t.call) = some previous →
        ∀ other current, other ≠ SourceConnector.name t.call →
          turns.lastSnapshot other = some current →
          ∀ x ∈ previous.tuples, x ∈ current.tuples → x ∈ snapshot.tuples := by
  constructor
  · intro h taken hsame previous hprevious other current hother hcurrent x hx hx'
    obtain rfl := Except.ok.inj (htaken.symm.trans hsame)
    exact h ⟨⟨other, hother, current, hcurrent, hx'⟩, previous, hprevious, hx⟩
  · rintro h x ⟨⟨other, hother, current, hcurrent, hx'⟩, previous, hprevious, hx⟩
    exact h snapshot htaken previous hprevious other current hother hcurrent x hx hx'

/-! ### One run -/

/-- **What a complete run does to the shared store**: it applies the difference of its connector,
and changes the saved tuples of no other. -/
theorem turn_completed {report : SyncReport} (hran : t.Ran) (hret : t.result = .ok report) :
    ∃ snapshot, SourceConnector.snapshot t.call = .ok snapshot ∧
      SyncState.grants t.after =
        patch (SyncState.grants t.before)
          (SyncState.baseline t.before (SourceConnector.name t.call)) snapshot.grants ∧
      SyncState.baseline t.after =
        Function.update (SyncState.baseline t.before) (SourceConnector.name t.call)
          snapshot.grants := by
  obtain ⟨hrun, hsteps⟩ := hran
  obtain ⟨before, ⟨name, taken⟩, trace, result, after⟩ := t
  change result = .ok report at hret
  subst hret
  obtain ⟨snapshot, htaken, hgrants, hsaved⟩ := reconcile_returns.run hrun hsteps
  refine ⟨snapshot, htaken, hgrants, ?_⟩
  funext c
  change {x | x ∈ ((SyncState.states after).loadTuples c).getD .empty} =
    Function.update (SyncState.baseline before) name snapshot.grants c
  rw [hsaved]
  -- the saved tuples change under the name of the connector, and under no other
  by_cases hc : c = name
  · subst hc
    rw [if_pos rfl, Function.update_self]
    rfl
  · rw [if_neg hc, Function.update_of_ne hc]
    rfl

/-! ### Whole histories -/

variable {s : SyncState}

theorem Complete.init (h : Complete (turns ++ [t])) : turns.Complete :=
  fun t' ht' => h t' (List.mem_append_left _ ht')

theorem Complete.last (h : Complete (turns ++ [t])) : ∃ report, t.result = .ok report :=
  h t (List.mem_append_right _ (List.mem_singleton.mpr rfl))

/-- The state store has saved, for each connector, the tuples of its latest snapshot. -/
theorem baseline_eq_held (h : Session (sharedService isidentifier) syncWorld turns s)
    (hall : turns.Complete) : s.baseline = turns.held := by
  induction h with
  | start =>
    funext c
    ext x
    exact ⟨fun hx => absurd hx FrozenSet.not_mem_empty, fun ⟨_, hnone, _⟩ => nomatch hnone⟩
  | @turn turns t h hran ih =>
    obtain ⟨report, hret⟩ := hall.last
    obtain ⟨snapshot, htaken, -, hsaved⟩ := turn_completed hran hret
    rw [hsaved, ih hall.init, held_append htaken]

/-- Of every turn of a history means of its last turn, and of every turn before. -/
theorem forall_turn_append
    {P : SharedHistory isidentifier → (sharedService isidentifier).Turn syncWorld → Prop} :
    (∀ done t', done ++ [t'] <+: turns ++ [t] → P done t') ↔
      (∀ done t', done ++ [t'] <+: turns → P done t') ∧ P turns t := by
  constructor
  · intro h
    exact ⟨fun done t' hinitial => h done t' (hinitial.trans (List.prefix_append _ _)),
      h turns t List.prefix_rfl⟩
  · rintro ⟨hinit, hnow⟩ done t' hinitial
    rcases List.prefix_concat_iff.mp hinitial with heq | hbefore
    · obtain ⟨rfl, hsame⟩ := List.append_inj' heq rfl
      obtain rfl := List.head_eq_of_cons_eq hsame
      exact hnow
    · exact hinit done t' hbefore

/-- After every run of a history means after its last run, and after every run before. -/
theorem pooled_append :
    Pooled (turns ++ [t]) ↔
      turns.Pooled ∧ SyncState.grants t.after = pooled (held (turns ++ [t])) := by
  have hlast : pooled (held (turns ++ [t])) = {x | ∃ connector snapshot,
      lastSnapshot (turns ++ [t]) connector = some snapshot ∧ x ∈ snapshot.tuples} :=
    Set.ext fun _ => mem_pooled_held
  rw [hlast]
  exact forall_turn_append

theorem sparesOthers_append {snapshot : Snapshot}
    (htaken : SourceConnector.snapshot t.call = .ok snapshot) :
    SparesOthers (turns ++ [t]) ↔
      turns.SparesOthers ∧
        others turns.held (SourceConnector.name t.call) ∩
          turns.held (SourceConnector.name t.call) ⊆ snapshot.grants := by
  rw [spares_iff htaken]
  exact forall_turn_append

/-- As long as no run has undone another, the store a run starts from is what is held. -/
theorem grants_of_pooled (h : Session (sharedService isidentifier) syncWorld turns s)
    (hpooled : turns.Pooled) : s.grants = pooled (held turns) := by
  cases h with
  | start =>
    ext x
    rw [mem_pooled_held]
    exact ⟨fun hx => absurd hx FrozenSet.not_mem_empty, fun ⟨_, _, hnone, _⟩ => nomatch hnone⟩
  | turn _ _ => exact (pooled_append.mp hpooled).2

/-- A connector that has a latest snapshot has run. -/
theorem name_mem_of_lastSnapshot {connector : String} {snapshot : Snapshot}
    (h : turns.lastSnapshot connector = some snapshot) :
    connector ∈ turns.map fun t => SourceConnector.name t.call := by
  obtain ⟨t, hlast, -⟩ := Option.bind_eq_some_iff.mp h
  obtain ⟨ht, hname⟩ := List.mem_filter.mp (List.mem_of_getLast? hlast)
  exact List.mem_map.mpr ⟨t, ht, of_decide_eq_true hname⟩

/-- Where each connector runs once, none drops a tuple. -/
theorem sparesOthers_of_once
    (h : (turns.map fun t => SourceConnector.name t.call).Nodup) : turns.SparesOthers := by
  intro done t hinitial _ _ previous hprevious
  -- the connector of this run cannot have run before
  have hnames := h.sublist (hinitial.sublist.map fun t => SourceConnector.name t.call)
  rw [List.map_append, List.nodup_append] at hnames
  exact absurd rfl (hnames.2.2 _ (name_mem_of_lastSnapshot hprevious) _ (by simp))

end SharedHistory

open SharedHistory

/-- **When connectors do not undo each other.** In every history of complete runs, the store is
after every run the union of the latest snapshots if and only if no connector ever drops a tuple
that another one still has. -/
theorem connectors_share_iff {isidentifier : String → Bool} {turns : SharedHistory isidentifier}
    {s : SyncState} (h : Session (sharedService isidentifier) syncWorld turns s)
    (hall : turns.Complete) : turns.Pooled ↔ turns.SparesOthers := by
  induction h with
  | start =>
    have hnone : ∀ done (t : (sharedService isidentifier).Turn syncWorld),
        ¬ done ++ [t] <+: [] := by
      intro done t hinitial
      exact List.append_ne_nil_of_right_ne_nil _ (by simp) (List.prefix_nil.mp hinitial)
    exact ⟨fun _ done t hinitial => absurd hinitial (hnone done t),
      fun _ done t hinitial => absurd hinitial (hnone done t)⟩
  | @turn turns t h hran ih =>
    obtain ⟨report, hret⟩ := hall.last
    obtain ⟨snapshot, htaken, hgrants, -⟩ := turn_completed hran hret
    rw [pooled_append, sparesOthers_append htaken, ih hall.init]
    refine and_congr_right fun hspares => ?_
    -- so far nothing was undone, so the run found what all connectors hold
    have hbefore : SyncState.grants t.before = pooled (held turns) :=
      grants_of_pooled h ((ih hall.init).mpr hspares)
    rw [hgrants, hbefore, baseline_eq_held h hall.init, held_append htaken]
    exact patch_pooled_eq_iff

/-! ### Two connectors with a tuple in common -/

section Witness

/-- Complete runs, one for each connector in the list. -/
def sharedRuns (connectors : List SourceConnector) :
    Option (SharedHistory asciiIdentifier × SyncState) :=
  Driver.turns (connectors.map fun connector => (syncDriver true, connector)) syncWorld.init

/-- Every run of the history returned. -/
def allReturned (turns : SharedHistory asciiIdentifier) : Bool :=
  turns.all fun t => match t.result with
    | .ok _ => true
    | .error _ => false

theorem complete_of_allReturned {turns : SharedHistory asciiIdentifier}
    (h : allReturned turns = true) : turns.Complete := by
  intro t ht
  have hret := List.all_eq_true.mp h t ht
  match hresult : t.result with
  | .ok report => exact ⟨report, rfl⟩
  | .error e => simp [hresult] at hret

/-- **It can fail.** Two connectors have the same tuple. The first drops it, which deletes
it from the store; the second still has it, and its next complete run leaves it deleted. -/
theorem connector_undone :
    ∃ (turns : SharedHistory asciiIdentifier) (s : SyncState),
      Session (sharedService asciiIdentifier) syncWorld turns s ∧ turns.Complete ∧
        ¬ turns.Pooled ∧ turns.lastSnapshot "nextcloud" = (viewers ["user:alice"]).toOption ∧
        ⟨"user:alice", "viewer", "document:a"⟩ ∉ s.tuples := by
  have hplay : (sharedRuns [⟨"files", viewers ["user:alice"]⟩,
    ⟨"nextcloud", viewers ["user:alice"]⟩,
      ⟨"files", viewers []⟩, ⟨"nextcloud", viewers ["user:alice"]⟩]).any (fun h =>
      allReturned h.1 && decide (lastSnapshot h.1 "nextcloud" = (viewers ["user:alice"]).toOption ∧
        ⟨"user:alice", "viewer", "document:a"⟩ ∉ h.2.tuples)) = true := by
    decide +kernel
  obtain ⟨h, hruns, htest⟩ := (Option.any_eq_true _ _).mp hplay
  obtain ⟨hreturned, hlost⟩ := Bool.and_eq_true_iff.mp htest
  obtain ⟨hlatest, hgone⟩ := of_decide_eq_true hlost
  have hsession : Session (sharedService asciiIdentifier) syncWorld h.1 h.2 :=
    Driver.sound_turns .start hruns
  refine ⟨h.1, h.2, hsession, complete_of_allReturned hreturned, fun hpooled => hgone ?_, hlatest,
    hgone⟩
  have hgrants := grants_of_pooled hsession hpooled
  have hheld : ⟨"user:alice", "viewer", "document:a"⟩ ∈ pooled (held h.1) :=
    mem_pooled_held.mpr ⟨"nextcloud", _, hlatest, by decide +kernel⟩
  change _ ∈ h.2.grants
  rw [hgrants]
  exact hheld

/-- Two connectors have a tuple in common, and each runs once: the store has the tuples of
both. -/
theorem connectors_share_once :
    ∃ (turns : SharedHistory asciiIdentifier) (s : SyncState),
      Session (sharedService asciiIdentifier) syncWorld turns s ∧ turns.length = 2 ∧
        turns.Pooled := by
  have hplay : (sharedRuns [⟨"files", viewers ["user:alice"]⟩,
      ⟨"nextcloud", viewers ["user:alice", "user:carol"]⟩]).any (fun h =>
      allReturned h.1 && decide (h.1.length = 2 ∧
        (h.1.map fun t => SourceConnector.name t.call).Nodup)) = true := by
    decide +kernel
  obtain ⟨h, hruns, htest⟩ := (Option.any_eq_true _ _).mp hplay
  obtain ⟨hreturned, honce⟩ := Bool.and_eq_true_iff.mp htest
  obtain ⟨hlength, hnames⟩ := of_decide_eq_true honce
  have hsession : Session (sharedService asciiIdentifier) syncWorld h.1 h.2 :=
    Driver.sound_turns .start hruns
  refine ⟨h.1, h.2, hsession, hlength, ?_⟩
  exact (connectors_share_iff hsession (complete_of_allReturned hreturned)).mpr
    (sparesOthers_of_once hnames)

end Witness

end HeadOfContext
