import HeadOfContext.Core.Effects
import HeadOfContext.Core.Tuples
import HeadOfContext.Framework.Chunks
import HeadOfContext.Framework.Decimal
import HeadOfContext.Framework.Dict

/-!
# Connectors

A connector translates the permissions of a source into tuples. `reconcile` writes the
difference between the snapshot of a connector and the tuples it saved last, and saves the
snapshot after every write has succeeded.
-/

namespace HeadOfContext

open Effects Except PyText

/-! ### Snapshots -/

/-- `DocumentMeta`. -/
structure DocumentMeta where
  id : String
  title : String
  path : String
  source : Option String
  deriving DecidableEq

/-- `Snapshot`: the desired tuples of a connector, and the documents it saw. -/
structure Snapshot where
  tuples : FrozenSet Tuple
  documents : List DocumentMeta
  deriving DecidableEq

/-- A connector, with what its `snapshot()` does in a run. -/
structure SourceConnector where
  name : String
  snapshot : Except Exn Snapshot

/-- `SyncReport`. -/
structure SyncReport where
  connector : String
  added : ℕ
  removed : ℕ
  documents : ℕ
  syncedAt : ℤ
  deriving DecidableEq

/-! ### The state store -/

/-- The fields of `InMemoryConnectorStateStore`: the saved tuples and the time of the last sync
of each connector. -/
structure ConnectorStates where
  tuples : Dict String (FrozenSet Tuple)
  synced : Dict String (Option ℤ)

namespace ConnectorStates

/-- A new store. -/
def empty : ConnectorStates := ⟨.empty, .empty⟩

/-- `register`. -/
def register (states : ConnectorStates) (connector : String) : ConnectorStates :=
  { states with synced := states.synced.setdefault connector none }

/-- `load_tuples`. -/
def loadTuples (states : ConnectorStates) (connector : String) : Option (FrozenSet Tuple) :=
  states.tuples.get connector

/-- `save`. -/
def save (states : ConnectorStates) (connector : String) (tuples : FrozenSet Tuple)
    (syncedAt : ℤ) : ConnectorStates :=
  ⟨states.tuples.set connector tuples, states.synced.set connector (some syncedAt)⟩

/-- `last_sync`: no time for a connector that has not synced, or is not known. -/
def lastSync (states : ConnectorStates) (connector : String) : Option ℤ :=
  (states.synced.get connector).join

@[simp] theorem loadTuples_register {states : ConnectorStates} {c c' : String} :
    (states.register c).loadTuples c' = states.loadTuples c' := rfl

@[simp] theorem loadTuples_save {states : ConnectorStates} {c c' : String}
    {tuples : FrozenSet Tuple} {syncedAt : ℤ} :
    (states.save c tuples syncedAt).loadTuples c' =
      if c' = c then some tuples else states.loadTuples c' := Dict.get_set

/-- Registering a connector changes the time of no sync. -/
@[simp] theorem lastSync_register {states : ConnectorStates} {c c' : String} :
    (states.register c).lastSync c' = states.lastSync c' := by
  unfold lastSync register
  rw [Dict.get_setdefault]
  by_cases hc : c' = c
  · subst hc
    rw [if_pos rfl]
    cases states.synced.get c' with
    | none => rfl
    | some last => rfl
  · rw [if_neg hc]

@[simp] theorem lastSync_save {states : ConnectorStates} {c c' : String}
    {tuples : FrozenSet Tuple} {syncedAt : ℤ} :
    (states.save c tuples syncedAt).lastSync c' =
      if c' = c then some syncedAt else states.lastSync c' := by
  unfold lastSync save
  rw [Dict.get_set]
  by_cases hc : c' = c
  · rw [if_pos hc, if_pos hc]
    rfl
  · rw [if_neg hc, if_neg hc]

/-! #### Freshness -/

section Fresh

-- `f"{seconds:.0f}"` of an age in microseconds, or of `inf`
variable (secondsText : Option ℤ → String)

/-- `ConnectorStale(connector, age)`. -/
def connectorStale (connector : String) (age : Option ℤ) : HocError :=
  HocClass.connectorStale.error
    ("connector " ++ quoted connector ++ " stale for " ++ secondsText age ++ "s")

/-- The loop of `assert_fresh` over the connectors. -/
def assertAllFresh (max now : ℤ) : List (String × Option ℤ) → Except HocError Unit
  | [] => .ok ()
  | (connector, none) :: _ => .error (connectorStale secondsText connector none)
  | (connector, some last) :: rest =>
    let age := now - last
    if max < age then .error (connectorStale secondsText connector (some age))
    else assertAllFresh max now rest

/-- `assert_fresh`, where the clock reads `now`. -/
def assertFresh (states : ConnectorStates) (max now : ℤ) : Except HocError Unit :=
  assertAllFresh secondsText max now states.synced.entries

/-- A connector is stale: it has never synced, or longer ago than allowed. -/
def StaleSince (max now : ℤ) (last : Option ℤ) : Prop := ∀ at_, last = some at_ → max < now - at_

variable {secondsText}

theorem assertAllFresh_error {max now : ℤ} {entries : List (String × Option ℤ)} :
    (∃ e, assertAllFresh secondsText max now entries = .error e ∧ e.cls = .connectorStale) ↔
      ∃ c last, (c, last) ∈ entries ∧ StaleSince max now last := by
  -- the induction is on the connectors; the first stale one raises
  induction entries with
  | nil =>
    refine iff_of_false ?_ ?_
    · rintro ⟨e, he, -⟩
      exact nomatch he
    · rintro ⟨c, last, hmem, -⟩
      exact absurd hmem List.not_mem_nil
  | cons entry rest ih =>
    obtain ⟨c, last⟩ := entry
    cases last with
    | none =>
      exact iff_of_true ⟨_, rfl, rfl⟩ ⟨c, none, List.mem_cons_self, fun _ h => nomatch h⟩
    | some last =>
      rw [assertAllFresh]
      by_cases hage : max < now - last
      · rw [if_pos hage]
        refine iff_of_true ⟨_, rfl, rfl⟩ ⟨c, some last, List.mem_cons_self, fun at_ h => ?_⟩
        obtain rfl := Option.some.inj h
        exact hage
      · rw [if_neg hage, ih]
        constructor
        · rintro ⟨c', last', hmem, hstale⟩
          exact ⟨c', last', List.mem_cons_of_mem _ hmem, hstale⟩
        · rintro ⟨c', last', hmem, hstale⟩
          rcases List.mem_cons.mp hmem with heq | hrest
          · obtain ⟨rfl, rfl⟩ := Prod.mk.inj heq
            exact absurd (hstale last rfl) hage
          · exact ⟨c', last', hrest, hstale⟩

/-- **`assert_fresh` raises** exactly when some connector that the store knows is stale. -/
theorem assertFresh_error {states : ConnectorStates} {max now : ℤ} :
    (∃ e, states.assertFresh secondsText max now = .error e ∧ e.cls = .connectorStale) ↔
      ∃ c ∈ states.synced.keys, StaleSince max now (states.lastSync c) := by
  refine assertAllFresh_error.trans ?_
  constructor
  · rintro ⟨c, last, hmem, hstale⟩
    have hget := Dict.mem_entries.mp hmem
    refine ⟨c, Dict.mem_keys.mpr ⟨last, hget⟩, ?_⟩
    unfold lastSync
    rwa [hget]
  · rintro ⟨c, hmem, hstale⟩
    obtain ⟨last, hget⟩ := Dict.mem_keys.mp hmem
    unfold lastSync at hstale
    rw [hget] at hstale
    exact ⟨c, last, Dict.mem_entries.mpr hget, hstale⟩

end Fresh

end ConnectorStates

/-! ### The collaborators -/

/-- A call of `reconcile`. -/
inductive SyncOp where
  | now
  | uuid4
  | register (connector : String)
  | loadTuples (connector : String)
  | writeTuples (tuples : List Tuple)
  | deleteTuples (tuples : List Tuple)
  | save (connector : String) (tuples : FrozenSet Tuple) (syncedAt : ℤ)
  | record (event : AuditEvent)

/-- The answer to each call. -/
abbrev SyncOp.Res : SyncOp → Type
  | now => ℤ
  | uuid4 => String
  | register _ => Except Exn Unit
  | loadTuples _ => Except Exn (Option (FrozenSet Tuple))
  | writeTuples _ => Except Exn Unit
  | deleteTuples _ => Except Exn Unit
  | save _ _ _ => Except Exn Unit
  | record _ => Except Exn Unit

/-- The interface of `reconcile`. -/
abbrev SyncSig : Sig := ⟨SyncOp, SyncOp.Res⟩

/-- A program over it. -/
abbrev Syncing := Raises SyncSig Exn

namespace Syncing

def now : Syncing ℤ := .lift (.invoke (S := SyncSig) .now)

def uuid4 : Syncing String := .lift (.invoke (S := SyncSig) .uuid4)

def register (connector : String) : Syncing Unit := ⟨.invoke (S := SyncSig) (.register connector)⟩

def loadTuples (connector : String) : Syncing (Option (FrozenSet Tuple)) :=
  ⟨.invoke (S := SyncSig) (.loadTuples connector)⟩

def writeTuples (tuples : List Tuple) : Syncing Unit :=
  ⟨.invoke (S := SyncSig) (.writeTuples tuples)⟩

def deleteTuples (tuples : List Tuple) : Syncing Unit :=
  ⟨.invoke (S := SyncSig) (.deleteTuples tuples)⟩

def save (connector : String) (tuples : FrozenSet Tuple) (syncedAt : ℤ) : Syncing Unit :=
  ⟨.invoke (S := SyncSig) (.save connector tuples syncedAt)⟩

def record (event : AuditEvent) : Syncing Unit := ⟨.invoke (S := SyncSig) (.record event)⟩

end Syncing

/-! ### Reconciling -/

section Reconcile

-- `str.isidentifier`
variable (isidentifier : String → Bool)

/-- `validate_tuple`. -/
def validateTuple (t : Tuple) : Except HocError Tuple := do
  let (base, userset) := partition t.user '#'
  let _ ← validateResourcePattern base
  raiseIf (userset ≠ "" ∧ isidentifier userset = false)
    (HocClass.invariantViolation.error ("invalid userset " ++ quoted t.user))
  raiseIf (isidentifier t.relation = false)
    (HocClass.invariantViolation.error ("invalid relation " ++ quoted t.relation))
  let _ ← validateResourcePattern t.obj
  return t

/-- `validate_tuple(t) for t in tuples`. -/
def validateTuples : List Tuple → Except HocError (List Tuple)
  | [] => .ok []
  | t :: rest => do
    let t ← validateTuple isidentifier t
    let rest ← validateTuples rest
    return t :: rest

/-- Write the chunks, one call for each. -/
def writeChunks : List (List Tuple) → Syncing Unit
  | [] => return ()
  | chunk :: rest => do
    Syncing.writeTuples chunk
    writeChunks rest

/-- Delete the chunks, one call for each. -/
def deleteChunks : List (List Tuple) → Syncing Unit
  | [] => return ()
  | chunk :: rest => do
    Syncing.deleteTuples chunk
    deleteChunks rest

/-- The event of a sync. -/
def syncedEvent (connector : String) (added removed documents : ℕ) (syncedAt : ℤ)
    (eventId : String) : AuditEvent where
  kind := .connectorSynced
  timestamp := .utc syncedAt
  subject := "-"
  actor := ("connector:" ++ connector : String)
  delegationDepth := 0
  action := "connector:sync"
  resource := ("source:" ++ connector : String)
  outcome := "ALLOW"
  reason := ("added=" ++ String.ofList (Decimal.natText added) ++ " removed=" ++
    String.ofList (Decimal.natText removed) ++ " documents=" ++
    String.ofList (Decimal.natText documents) : String)
  engineLatencyMs := zeroMs
  tokenFingerprint := .null
  argsHash := .null
  decisionId := .null
  eventId := eventId

/-- `reconcile`: the state is only advanced after every write has succeeded. -/
def reconcile (connector : SourceConnector) : Syncing SyncReport := do
  Syncing.register connector.name
  let snapshot ← (.ofExcept connector.snapshot : Syncing Snapshot)
  let valid ← Core.ofHoc (validateTuples isidentifier snapshot.tuples.items)
  let desired := FrozenSet.ofList valid
  let saved ← Syncing.loadTuples connector.name
  let previous := saved.getD .empty
  let toAdd := (desired.sdiff previous).items
  let toRemove := (previous.sdiff desired).items
  writeChunks (toAdd.chunksOf 100)
  deleteChunks (toRemove.chunksOf 100)
  let syncedAt ← Syncing.now
  Syncing.save connector.name desired syncedAt
  let eventId ← Syncing.uuid4
  Syncing.record (syncedEvent connector.name toAdd.length toRemove.length
    snapshot.documents.length syncedAt eventId)
  return ⟨connector.name, toAdd.length, toRemove.length, snapshot.documents.length, syncedAt⟩

variable {isidentifier}

theorem validateTuple_eq_ok {t t' : Tuple} (h : validateTuple isidentifier t = .ok t') :
    t' = t := by
  unfold validateTuple at h
  obtain ⟨_, -, h₁⟩ := bind_eq_ok.mp h
  obtain ⟨_, -, h₂⟩ := bind_eq_ok.mp h₁
  obtain ⟨_, -, h₃⟩ := bind_eq_ok.mp h₂
  obtain ⟨_, -, h₄⟩ := bind_eq_ok.mp h₃
  exact (Except.ok.inj h₄).symm

/-- Validation changes no tuple. -/
theorem validateTuples_eq_ok {ts ts' : List Tuple}
    (h : validateTuples isidentifier ts = .ok ts') : ts' = ts := by
  induction ts generalizing ts' with
  | nil => exact (Except.ok.inj h).symm
  | cons t rest ih =>
    obtain ⟨t', ht, h₁⟩ := bind_eq_ok.mp h
    obtain ⟨rest', hrest, h₂⟩ := bind_eq_ok.mp h₁
    rw [← Except.ok.inj h₂, validateTuple_eq_ok ht, ih hrest]

end Reconcile

end HeadOfContext
