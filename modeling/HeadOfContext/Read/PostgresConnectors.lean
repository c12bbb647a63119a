import HeadOfContext.Db.Store
import HeadOfContext.Read.Connectors

/-!
# The connector state in PostgreSQL

`PostgresConnectorStateStore` keeps one row for each connector of each namespace, in a table that
the stores of all namespaces share: the time of the last sync, null before the first, and the
saved tuples as a JSON text.

It is compared with one store in memory for each namespace (`connector_stores_agree`), over every
history of calls of all the namespaces and whatever becomes of the connection. So no namespace
reads what another one saved, a connector that is registered again keeps its sync, and a store
that cannot be read is stale. What the two may differ in is which of several stale connectors the
guard names.
-/

namespace HeadOfContext

open Except Sql

/-- `CONNECTOR_STATE_SCHEMA`. -/
def connectorStateSchema : Relation where
  columns :=
    [{ name := "namespace", type := .text },
     { name := "connector", type := .text },
     { name := "synced_at", type := .timestamptz, nullable := true },
     { name := "tuples", type := .text }]
  key := ["namespace", "connector"]

/-- `connector_state_v2`. -/
abbrev ConnectorTable := KeyedRows connectorStateSchema

namespace PostgresConnectorStateStore

open PostgresApprovalStore (ts str timestampOrNull)
open PostgresStore (textOf)
open Scope (iterated)

/-! ### The saved tuples -/

/-- A tuple as a JSON array. -/
def member (t : Tuple) : Json := .arr [t.user, t.relation, t.obj]

/-- `json.dumps(sorted(tuples))`. -/
def tuplesText (ft : Json.FloatText) (tuples : FrozenSet Tuple) : String :=
  Json.text ft (.arr (tuples.items.map member))

/-- `(str(u), str(r), str(o)) for u, r, o in …`. -/
def tupleOf (repr : Json → PyStr) (item : Json) : Except Exn Tuple := do
  match ← iterated item with
  | [u, r, o] => return ⟨← textOf repr u, ← textOf repr r, ← textOf repr o⟩
  | _ => .error (.other "ValueError")

/-- `frozenset(… for u, r, o in json.loads(raw))`. -/
def tuplesOf (ft : Json.FloatText) (repr : Json → PyStr) (raw : String) :
    Except Exn (FrozenSet Tuple) :=
  match Json.loads ft (.ofString raw) with
  | none => .error (.other "JSONDecodeError")
  | some data => do
    let items ← iterated data
    let tuples ← items.mapM (tupleOf repr)
    return .ofList tuples

theorem tupleOf_member (repr : Json → PyStr) (t : Tuple) : tupleOf repr (member t) = .ok t := by
  simp [tupleOf, member, iterated]

theorem wf_tuples (tuples : List Tuple) :
    Json.Wf Json.Joined (.arr (tuples.map member)) := by
  refine .arr fun v hv => ?_
  obtain ⟨t, -, rfl⟩ := List.mem_map.mp hv
  refine .arr fun v hv => ?_
  simp only [List.mem_cons, List.not_mem_nil, or_false] at hv
  rcases hv with rfl | rfl | rfl
  · exact .str (Json.joined_ofString _)
  · exact .str (Json.joined_ofString _)
  · exact .str (Json.joined_ofString _)

/-- **The tuples are read back as they were saved.** -/
theorem tuplesOf_tuplesText (ft : Json.FloatText) (repr : Json → PyStr)
    (tuples : FrozenSet Tuple) : tuplesOf ft repr (tuplesText ft tuples) = .ok tuples := by
  have hloads : Json.loads ft (.ofString (tuplesText ft tuples)) =
      some (.arr (tuples.items.map member)) := Json.loads_text (wf_tuples tuples.items)
  have hmembers : ∀ items : List Tuple, (items.map member).mapM (tupleOf repr) = .ok items := by
    intro items
    induction items with
    | nil => rfl
    | cons t items ih =>
      rw [List.map_cons, List.mapM_cons, tupleOf_member, ih]
      rfl
  unfold tuplesOf
  rw [hloads]
  simp only [iterated, ok_bind, hmembers, FrozenSet.ofList_items]
  rfl

/-- The text of any tuples is one that the database takes. -/
theorem plain_tuplesText (ft : Json.FloatText) (tuples : FrozenSet Tuple) :
    plain (tuplesText ft tuples) = true := PostgresStore.plain_text ft _

/-! ### The operations -/

section Operations

variable (ft : Json.FloatText) (repr : Json → PyStr) (secondsText : Option ℤ → String)
  (a : Arrangement) (line : Line) (t : ConnectorTable) (space : String)

/-- The columns of the table. -/
def columns : List String := ["namespace", "connector", "synced_at", "tuples"]

/-- `namespace = %s AND connector = %s`. -/
def byKey : List Test := [.eq "namespace", .eq "connector"]

/-- `register`. -/
def register (connector : String) : ConnectorTable × Except Exn Unit :=
  PostgresStore.run .connectorStateUnavailable line t
    (t.insertOrIgnore columns [.text space, .text connector, .null, .text "[]"])
    "connector state write failed"

/-- `load_tuples`: a connector that has not synced has saved no tuples. -/
def loadTuples (connector : String) : Except Exn (Option (FrozenSet Tuple)) := do
  let row ← PostgresStore.one .connectorStateUnavailable line
    (t.select a ["tuples", "synced_at"] byKey [.value (.text space), .value (.text connector)])
    "connector state read failed"
  match row with
  | none => return none
  | some [_, .null] => return none
  | some [raw, _] => do
    let tuples ← tuplesOf ft repr (← str raw)
    return some tuples
  | some _ => .error (.other "IndexError")

/-- `save`. -/
def save (connector : String) (tuples : FrozenSet Tuple) (syncedAt : ℤ) :
    ConnectorTable × Except Exn Unit :=
  PostgresStore.run .connectorStateUnavailable line t
    (t.upsert columns
      [.text space, .text connector, .timestamp syncedAt, .text (tuplesText ft tuples)]
      ["synced_at", "tuples"])
    "connector state write failed"

/-- `last_sync`. -/
def lastSync (connector : String) : Except Exn (Option ℤ) := do
  let row ← PostgresStore.one .connectorStateUnavailable line
    (t.select a ["synced_at"] byKey [.value (.text space), .value (.text connector)])
    "connector state read failed"
  match row with
  | none => return none
  | some [syncedAt] => return ts syncedAt
  | some _ => .error (.other "IndexError")

/-- The loop of `assert_fresh` over the rows. -/
def assertAllFresh (max now : ℤ) : List Row → Except Exn Unit
  | [] => .ok ()
  | [connector, .timestamp syncedAt] :: rest =>
    let age := now - syncedAt
    if max < age then do
      let connector ← str connector
      .error (.hoc (ConnectorStates.connectorStale secondsText connector (some age)))
    else assertAllFresh max now rest
  | [connector, _] :: _ => do
    let connector ← str connector
    .error (.hoc (ConnectorStates.connectorStale secondsText connector none))
  | _ :: _ => .error (.other "ValueError")

/-- `assert_fresh`: a store that cannot be read is stale. -/
def assertFresh (max now : ℤ) : Except Exn Unit :=
  match PostgresStore.query .connectorStateUnavailable line
      (t.select a ["connector", "synced_at"] [.eq "namespace"] [.value (.text space)])
      "read failed" with
  | .ok rows => assertAllFresh secondsText max now rows
  | .error (.hoc e) =>
    if e.cls = .connectorStateUnavailable then
      .error (.hoc (ConnectorStates.connectorStale secondsText "connector_state" none))
    else .error (.hoc e)
  | .error e => .error e

end Operations

end PostgresConnectorStateStore

/-! ### The calls -/

/-- A call of a store. The longest staleness and the time of the clock are those of the store. -/
inductive StateOp where
  | register (connector : String)
  | loadTuples (connector : String)
  | save (connector : String) (tuples : FrozenSet Tuple) (syncedAt : ℤ)
  | lastSync (connector : String)
  | assertFresh (max now : ℤ)

/-- A call of the store of a namespace. -/
structure StateCall where
  space : String
  op : StateOp

/-- What a call returns or raises. -/
inductive StateReply where
  | done (r : Except Exn Unit)
  | tuples (r : Except Exn (Option (FrozenSet Tuple)))
  | time (r : Except Exn (Option ℤ))

/-- Replies that are the same, exceptions up to their texts. -/
inductive StateReply.Agree : StateReply → StateReply → Prop
  | done {x y : Except Exn Unit} (h : SameOutcome (· = ·) x y) : Agree (.done x) (.done y)
  | tuples {x y : Except Exn (Option (FrozenSet Tuple))} (h : SameOutcome (· = ·) x y) :
    Agree (.tuples x) (.tuples y)
  | time {x y : Except Exn (Option ℤ)} (h : SameOutcome (· = ·) x y) : Agree (.time x) (.time y)

/-- The namespace and the connector are texts that the database takes. -/
def StateCall.Storable (c : StateCall) : Prop :=
  plain c.space = true ∧
    match c.op with
    | .register connector | .loadTuples connector | .save connector _ _ | .lastSync connector =>
      plain connector = true
    | .assertFresh _ _ => True

section Stores

variable (ft : Json.FloatText) (repr : Json → PyStr) (secondsText : Option ℤ → String)
  (a : Arrangement)

/-- A store in memory for each namespace. -/
def memoryStates : Machine StateCall StateReply where
  State := String → ConnectorStates
  init _ := .empty
  step s c :=
    match c.op with
    | .register connector =>
      (Function.update s c.space ((s c.space).register connector), .done (.ok ()))
    | .loadTuples connector => (s, .tuples (.ok ((s c.space).loadTuples connector)))
    | .save connector tuples syncedAt =>
      (Function.update s c.space ((s c.space).save connector tuples syncedAt), .done (.ok ()))
    | .lastSync connector => (s, .time (.ok ((s c.space).lastSync connector)))
    | .assertFresh max now =>
      (s, .done (((s c.space).assertFresh secondsText max now).mapError .hoc))

/-- The answer of a store that cannot be reached. -/
def StateCall.failed (c : StateCall) : StateReply :=
  match c.op with
  | .register _ | .save _ _ _ =>
    .done (PostgresStore.failed .connectorStateUnavailable "connector state write failed")
  | .loadTuples _ =>
    .tuples (PostgresStore.failed .connectorStateUnavailable "connector state read failed")
  | .lastSync _ =>
    .time (PostgresStore.failed .connectorStateUnavailable "connector state read failed")
  | .assertFresh _ _ =>
    .done (.error (.hoc (ConnectorStates.connectorStale secondsText "connector_state" none)))

open PostgresConnectorStateStore in
/-- The stores of all namespaces over one table. -/
def postgresStates : Machine (Line × StateCall) StateReply where
  State := ConnectorTable
  init := KeyedRows.empty
  step t c :=
    match c.2.op with
    | .register connector => (register c.1 t c.2.space connector).map id .done
    | .loadTuples connector => (t, .tuples (loadTuples ft repr a c.1 t c.2.space connector))
    | .save connector tuples syncedAt =>
      (save ft c.1 t c.2.space connector tuples syncedAt).map id .done
    | .lastSync connector => (t, .time (lastSync a c.1 t c.2.space connector))
    | .assertFresh max now => (t, .done (assertFresh secondsText a c.1 t c.2.space max now))

end Stores

/-! ### What the table holds -/

namespace PostgresConnectorStateStore

open PostgresApprovalStore (ts str timestampOrNull holds_timestampOrNull)

/-- What is known of a connector: no sync yet, or the last one with the tuples saved then. -/
abbrev Known := Option (ℤ × FrozenSet Tuple)

/-- The JSON text of a row. -/
def knownText (ft : Json.FloatText) : Known → String
  | none => "[]"
  | some (_, tuples) => tuplesText ft tuples

/-- A row for each connector of each namespace. -/
def layout (ft : Json.FloatText) : Layout connectorStateSchema (String × String) Known where
  row k v := [.text k.1, .text k.2, timestampOrNull (v.map Prod.fst), .text (knownText ft v)]
  keyOf_iff := by
    rintro ⟨space, connector⟩ v ⟨space', connector'⟩ v'
    show ([Value.text space, .text connector] = [Value.text space', .text connector']) ↔ _
    simp

variable {ft : Json.FloatText} {repr : Json → PyStr} {secondsText : Option ℤ → String}
  {a : Arrangement} {t : ConnectorTable} {D : Dict (String × String) Known}
  {space connector : String}

theorem plain_knownText (v : Known) : plain (knownText ft v) = true := by
  cases v with
  | none => show plain "[]" = true; decide
  | some v => exact plain_tuplesText ft v.2

/-- A row whose texts the database takes can be inserted. -/
theorem insertable (hspace : plain space = true) (hconnector : plain connector = true)
    (v : Known) :
    KeyedRows.Insertable connectorStateSchema columns ((layout ft).row (space, connector) v) := by
  have hholds : connectorStateSchema.schema.Holds ((layout ft).row (space, connector) v) := by
    unfold Schema.Holds layout connectorStateSchema
    simp only [List.forall₂_cons, List.Forall₂.nil, holds_text, holds_timestampOrNull, hspace,
      hconnector, plain_knownText, and_true]
  refine ⟨rfl, List.all_eq_true.mpr fun value hvalue => ?_, hholds⟩
  exact Table.sendable_of_mem hholds value hvalue

theorem selects_byKey {space' connector' : String} (v : Known) :
    selects connectorStateSchema.schema byKey [.value (.text space), .value (.text connector)]
        ((layout ft).row (space', connector') v) =
      decide ((space', connector') = (space, connector)) := by
  have hspace : connectorStateSchema.schema.value ((layout ft).row (space', connector') v)
      "namespace" = .text space' := rfl
  have hconnector : connectorStateSchema.schema.value ((layout ft).row (space', connector') v)
      "connector" = .text connector' := rfl
  simp [selects, byKey, Test.passes, hspace, hconnector]

theorem sendable_key (hspace : plain space = true) (hconnector : plain connector = true) :
    ∀ q ∈ [Param.value (.text space), .value (.text connector)], q.sendable = true :=
  List.forall_mem_cons.mpr ⟨hspace, List.forall_mem_singleton.mpr hconnector⟩

theorem register_up (h : (layout ft).Represents t D) (hspace : plain space = true)
    (hconnector : plain connector = true) :
    ∃ t', register .up t space connector = (t', .ok ()) ∧
      (layout ft).Represents t' (D.setdefault (space, connector) none) := by
  obtain ⟨t', hinsert, hrep⟩ := Layout.insertOrIgnore (v := none) h
    (insertable hspace hconnector none) rfl fun _ hnil => absurd hnil List.not_mem_nil
  refine ⟨t', ?_, hrep⟩
  rw [register]
  exact congrArg (PostgresStore.run _ .up t · _) hinsert

theorem save_up (h : (layout ft).Represents t D) (hspace : plain space = true)
    (hconnector : plain connector = true) (tuples : FrozenSet Tuple) (syncedAt : ℤ) :
    ∃ t', save ft .up t space connector tuples syncedAt = (t', .ok ()) ∧
      (layout ft).Represents t' (D.set (space, connector) (some (syncedAt, tuples))) := by
  -- the conflict clause sets every column outside of the key
  have hassign : ∀ v', connectorStateSchema.excluded ["synced_at", "tuples"]
      ((layout ft).row (space, connector) (some (syncedAt, tuples)))
      ((layout ft).row (space, connector) v') =
        (layout ft).row (space, connector) (some (syncedAt, tuples)) := fun v' => rfl
  obtain ⟨t', hupsert, hrep⟩ := Layout.upsert h
    (insertable hspace hconnector (some (syncedAt, tuples))) rfl hassign
    fun _ hnil => absurd hnil List.not_mem_nil
  refine ⟨t', ?_, hrep⟩
  rw [save]
  exact congrArg (PostgresStore.run _ .up t · _) hupsert

/-- **The tuples of a connector** are those of its last sync. -/
theorem loadTuples_up (h : (layout ft).Represents t D) (hspace : plain space = true)
    (hconnector : plain connector = true) :
    loadTuples ft repr a .up t space connector =
      .ok ((D.get (space, connector)).join.map Prod.snd) := by
  rw [loadTuples, Layout.select_key h rfl (sendable_key hspace hconnector)
    fun e => selects_byKey e.2]
  cases D.get (space, connector) with
  | none => rfl
  | some v =>
    cases v with
    | none => rfl
    | some v =>
      show (do let tuples ← tuplesOf ft repr (tuplesText ft v.2); return some tuples) = _
      rw [tuplesOf_tuplesText]
      rfl

theorem lastSync_up (h : (layout ft).Represents t D) (hspace : plain space = true)
    (hconnector : plain connector = true) :
    lastSync a .up t space connector = .ok ((D.get (space, connector)).join.map Prod.fst) := by
  rw [lastSync, Layout.select_key h rfl (sendable_key hspace hconnector)
    fun e => selects_byKey e.2]
  cases D.get (space, connector) with
  | none => rfl
  | some v => cases v <;> rfl

/-! #### Freshness -/

/-- The rows that the guard reads, for the connectors of a namespace with their last syncs. -/
def freshRow (e : String × Option ℤ) : Row := [.text e.1, timestampOrNull e.2]

/-- Over the rows of connectors, the loop of one guard is the loop of the other. -/
theorem assertAllFresh_map {max now : ℤ} (entries : List (String × Option ℤ)) :
    assertAllFresh secondsText max now (entries.map freshRow) =
      (ConnectorStates.assertAllFresh secondsText max now entries).mapError .hoc := by
  induction entries with
  | nil => rfl
  | cons e entries ih =>
    obtain ⟨connector, last⟩ := e
    cases last with
    | none => rfl
    | some syncedAt =>
      show assertAllFresh secondsText max now
        ([.text connector, .timestamp syncedAt] :: entries.map freshRow) = _
      rw [assertAllFresh, ConnectorStates.assertAllFresh]
      by_cases hage : max < now - syncedAt
      · simp only [if_pos hage]
        rfl
      · simp only [if_neg hage]
        exact ih

theorem assertAllFresh_eq (max now : ℤ) (entries : List (String × Option ℤ)) :
    ConnectorStates.assertAllFresh secondsText max now entries = .ok () ∨
      ∃ connector age, ConnectorStates.assertAllFresh secondsText max now entries =
        .error (ConnectorStates.connectorStale secondsText connector age) := by
  induction entries with
  | nil => exact .inl rfl
  | cons e entries ih =>
    obtain ⟨connector, last⟩ := e
    cases last with
    | none => exact .inr ⟨connector, none, rfl⟩
    | some syncedAt =>
      rw [ConnectorStates.assertAllFresh]
      by_cases hage : max < now - syncedAt
      · exact .inr ⟨connector, some (now - syncedAt), if_pos hage⟩
      · simp only [if_neg hage]
        exact ih

/-- Two stale connectors are refused alike, whichever of them is named. -/
theorem sameAs_connectorStale (connector connector' : String) (age age' : Option ℤ) :
    Exn.SameAs (.hoc (ConnectorStates.connectorStale secondsText connector age))
      (.hoc (ConnectorStates.connectorStale secondsText connector' age')) :=
  ⟨HocClass.error_cls .connectorStale _, HocClass.error_reason .connectorStale _⟩

/-- **The guard raises in whatever order it meets the connectors**, or in none. -/
theorem assertAllFresh_alike {max now : ℤ} {entries entries' : List (String × Option ℤ)}
    (h : ∀ e, e ∈ entries ↔ e ∈ entries') :
    SameOutcome (· = ·)
      ((ConnectorStates.assertAllFresh secondsText max now entries).mapError Exn.hoc)
      ((ConnectorStates.assertAllFresh secondsText max now entries').mapError Exn.hoc) := by
  -- both raise where some connector of theirs is stale, and both have the same connectors
  have hstale : (∃ e, ConnectorStates.assertAllFresh secondsText max now entries = .error e ∧
      e.cls = .connectorStale) ↔
      ∃ e, ConnectorStates.assertAllFresh secondsText max now entries' = .error e ∧
        e.cls = .connectorStale := by
    rw [ConnectorStates.assertAllFresh_error, ConnectorStates.assertAllFresh_error]
    simp only [h]
  rcases assertAllFresh_eq max now entries with hok | ⟨c, age, herr⟩
  · rcases assertAllFresh_eq max now entries' with hok' | ⟨c', age', herr'⟩
    · rw [hok, hok']
      exact .ok rfl
    · obtain ⟨e, he, -⟩ := hstale.mpr ⟨_, herr', rfl⟩
      rw [hok] at he
      exact absurd he (by simp)
  · obtain ⟨e, he, -⟩ := hstale.mp ⟨_, herr, rfl⟩
    rcases assertAllFresh_eq max now entries' with hok' | ⟨c', age', herr'⟩
    · rw [hok'] at he
      exact absurd he (by simp)
    · rw [herr, herr']
      exact .error (sameAs_connectorStale c c' age age')

theorem selects_space {space' connector' : String} (v : Known) :
    selects connectorStateSchema.schema [.eq "namespace"] [.value (.text space)]
      ((layout ft).row (space', connector') v) = decide (space' = space) := by
  have hspace : connectorStateSchema.schema.value ((layout ft).row (space', connector') v)
      "namespace" = .text space' := rfl
  simp [selects, Test.passes, hspace]

/-- The connectors of a namespace, with their last syncs. -/
def syncs (D : Dict (String × String) Known) (space : String) : List (String × Option ℤ) :=
  (D.entries.filter fun e => e.1.1 = space).map fun e => (e.1.2, e.2.map Prod.fst)

theorem mem_syncs {last : Option ℤ} :
    (connector, last) ∈ syncs D space ↔
      (D.get (space, connector)).map (Option.map Prod.fst) = some last := by
  unfold syncs
  rw [List.mem_map, Option.map_eq_some_iff]
  constructor
  · rintro ⟨⟨⟨space', connector'⟩, v⟩, hmem, heq⟩
    obtain ⟨hentry, hspace⟩ := List.mem_filter.mp hmem
    obtain ⟨rfl, rfl⟩ := Prod.mk.inj heq
    obtain rfl : space' = space := of_decide_eq_true hspace
    exact ⟨v, Dict.mem_entries.mp hentry, rfl⟩
  · rintro ⟨v, hget, rfl⟩
    refine ⟨((space, connector), v), List.mem_filter.mpr ⟨?_, decide_eq_true rfl⟩, rfl⟩
    exact Dict.mem_entries.mpr hget

/-- The guard goes through the connectors of its namespace, in some order. -/
theorem assertFresh_up {max now : ℤ} (h : (layout ft).Represents t D)
    (hspace : plain space = true) :
    ∃ entries, entries.Perm (syncs D space) ∧
      assertFresh secondsText a .up t space max now =
        (ConnectorStates.assertAllFresh secondsText max now entries).mapError .hoc := by
  have hquery : ∃ rows, t.select a ["connector", "synced_at"] [.eq "namespace"]
        [.value (.text space)] = some rows ∧
      rows.Perm ((D.entries.filter fun e => e.1.1 = space).map fun e =>
        connectorStateSchema.schema.project ["connector", "synced_at"] ((layout ft).entry e)) :=
    Layout.select a _ h rfl (List.forall_mem_singleton.mpr hspace) fun e _ => selects_space e.2
  obtain ⟨rows, hselect, hperm⟩ := hquery
  have hrows : rows.Perm ((syncs D space).map freshRow) := by
    unfold syncs
    rw [List.map_map]
    exact hperm
  obtain ⟨entries, rfl, hentries⟩ : ∃ entries : List (String × Option ℤ),
      rows = entries.map freshRow ∧ entries.Perm (syncs D space) := by
    have hcomp := congrFun (congrFun (List.eq_map_comp_perm freshRow) rows) (syncs D space)
    exact cast hcomp.symm hrows
  refine ⟨entries, hentries, ?_⟩
  rw [assertFresh, hselect]
  exact assertAllFresh_map entries

end PostgresConnectorStateStore

/-! ### The comparison -/

open PostgresConnectorStateStore

section Comparison

/-- The stores in memory know what the table holds. -/
def StatesMatch (s : String → ConnectorStates) (D : Dict (String × String) Known) : Prop :=
  ∀ space connector,
    (s space).synced.get connector = (D.get (space, connector)).map (Option.map Prod.fst) ∧
      (s space).tuples.get connector = (D.get (space, connector)).join.map Prod.snd

variable {ft : Json.FloatText} {repr : Json → PyStr} {secondsText : Option ℤ → String}
  {a : Arrangement} {s : String → ConnectorStates} {D : Dict (String × String) Known}

theorem statesMatch_register (h : StatesMatch s D) (space connector : String) :
    StatesMatch (Function.update s space ((s space).register connector))
      (D.setdefault (space, connector) none) := by
  intro space' connector'
  obtain ⟨hsynced, htuples⟩ := h space' connector'
  rw [Dict.get_setdefault]
  by_cases hspace : space' = space
  · subst hspace
    rw [Function.update_self, ConnectorStates.register, Dict.get_setdefault]
    by_cases hconnector : connector' = connector
    · subst hconnector
      -- a connector that is known keeps what is known of it
      simp only [↓reduceIte, hsynced, htuples]
      cases D.get (space', connector') with
      | none => exact ⟨rfl, rfl⟩
      | some v => exact ⟨rfl, rfl⟩
    · have hne : ¬(space', connector') = (space', connector) := fun heq =>
        hconnector (Prod.mk.inj heq).2
      rw [if_neg hconnector, if_neg hne]
      exact ⟨hsynced, htuples⟩
  · have hne : ¬(space', connector') = (space, connector) := fun heq =>
      hspace (Prod.mk.inj heq).1
    rw [Function.update_of_ne hspace, if_neg hne]
    exact ⟨hsynced, htuples⟩

theorem statesMatch_save (h : StatesMatch s D) (space connector : String) (tuples : FrozenSet Tuple)
    (syncedAt : ℤ) :
    StatesMatch (Function.update s space ((s space).save connector tuples syncedAt))
      (D.set (space, connector) (some (syncedAt, tuples))) := by
  intro space' connector'
  obtain ⟨hsynced, htuples⟩ := h space' connector'
  rw [Dict.get_set]
  by_cases hspace : space' = space
  · subst hspace
    rw [Function.update_self, ConnectorStates.save, Dict.get_set, Dict.get_set]
    by_cases hconnector : connector' = connector
    · subst hconnector
      simp only [↓reduceIte]
      exact ⟨rfl, rfl⟩
    · have hne : ¬(space', connector') = (space', connector) := fun heq =>
        hconnector (Prod.mk.inj heq).2
      rw [if_neg hconnector, if_neg hconnector, if_neg hne]
      exact ⟨hsynced, htuples⟩
  · have hne : ¬(space', connector') = (space, connector) := fun heq =>
      hspace (Prod.mk.inj heq).1
    rw [Function.update_of_ne hspace, if_neg hne]
    exact ⟨hsynced, htuples⟩

/-- The guard in memory meets the connectors that the table has for the namespace. -/
theorem mem_synced (h : StatesMatch s D) (space : String) (e : String × Option ℤ) :
    e ∈ (s space).synced.entries ↔ e ∈ syncs D space := by
  obtain ⟨connector, last⟩ := e
  rw [Dict.mem_entries, mem_syncs, (h space connector).1]

/-- **One call**, answered. -/
theorem states_up {t : ConnectorTable} {c : StateCall} (hrep : (layout ft).Represents t D)
    (hmatch : StatesMatch s D) (hc : c.Storable) :
    ∃ D', StateReply.Agree ((memoryStates secondsText).step s c).2
        ((postgresStates ft repr secondsText a).step t (.up, c)).2 ∧
      (layout ft).Represents ((postgresStates ft repr secondsText a).step t (.up, c)).1 D' ∧
      StatesMatch ((memoryStates secondsText).step s c).1 D' := by
  obtain ⟨space, op⟩ := c
  obtain ⟨hspace, hop⟩ := hc
  -- one case for each method; the two that write move both dictionaries alike
  cases op with
  | register connector =>
    obtain ⟨t', hrun, hrep'⟩ := register_up hrep hspace hop
    refine ⟨_, ?_, ?_, statesMatch_register hmatch space connector⟩
    · show StateReply.Agree (.done (.ok ())) (.done (register .up t space connector).2)
      rw [hrun]
      exact .done (.ok rfl)
    · show (layout ft).Represents (register .up t space connector).1 _
      rw [hrun]
      exact hrep'
  | loadTuples connector =>
    refine ⟨D, ?_, hrep, hmatch⟩
    show StateReply.Agree (.tuples (.ok ((s space).loadTuples connector)))
      (.tuples (loadTuples ft repr a .up t space connector))
    rw [loadTuples_up hrep hspace hop, ConnectorStates.loadTuples, (hmatch space connector).2]
    exact .tuples (.ok rfl)
  | save connector tuples syncedAt =>
    obtain ⟨t', hrun, hrep'⟩ := save_up hrep hspace hop tuples syncedAt
    refine ⟨_, ?_, ?_, statesMatch_save hmatch space connector tuples syncedAt⟩
    · show StateReply.Agree (.done (.ok ()))
        (.done (save ft .up t space connector tuples syncedAt).2)
      rw [hrun]
      exact .done (.ok rfl)
    · show (layout ft).Represents (save ft .up t space connector tuples syncedAt).1 _
      rw [hrun]
      exact hrep'
  | lastSync connector =>
    refine ⟨D, ?_, hrep, hmatch⟩
    show StateReply.Agree (.time (.ok ((s space).lastSync connector)))
      (.time (lastSync a .up t space connector))
    rw [lastSync_up hrep hspace hop, ConnectorStates.lastSync, (hmatch space connector).1]
    refine .time (.ok ?_)
    cases D.get (space, connector) with
    | none => rfl
    | some v => rfl
  | assertFresh max now =>
    refine ⟨D, ?_, hrep, hmatch⟩
    obtain ⟨entries, hperm, hfresh⟩ : ∃ entries, entries.Perm (syncs D space) ∧
        assertFresh secondsText a .up t space max now =
          (ConnectorStates.assertAllFresh secondsText max now entries).mapError .hoc :=
      assertFresh_up hrep hspace
    -- the database may list the connectors in another order, and the first stale one may be another
    show StateReply.Agree (.done (((s space).assertFresh secondsText max now).mapError .hoc))
      (.done (assertFresh secondsText a .up t space max now))
    rw [hfresh]
    exact .done (assertAllFresh_alike fun e => (mem_synced hmatch space e).trans hperm.mem_iff.symm)

/-- The stores of the namespaces in memory, and those over one table. -/
def statesReach (ft : Json.FloatText) (repr : Json → PyStr) (secondsText : Option ℤ → String)
    (a : Arrangement) :
    Machine.Reaches (memoryStates secondsText) (postgresStates ft repr secondsText a)
      (StateCall.failed secondsText) (fun _ c => c.Storable) StateReply.Agree where
  Rel s t := ∃ D, (layout ft).Represents t D ∧ StatesMatch s D
  init := ⟨.empty, rfl, fun _ _ => ⟨rfl, rfl⟩⟩
  up := by
    rintro s t c ⟨D, hrep, hmatch⟩ hc
    obtain ⟨D', hagree, hrep', hmatch'⟩ := states_up hrep hmatch hc
    exact ⟨hagree, D', hrep', hmatch'⟩
  refused := by
    rintro t ⟨space, op⟩
    cases op with
    | register connector => exact ⟨.done (.refl (fun _ => rfl) _), rfl⟩
    | loadTuples connector => exact ⟨.tuples (.refl (fun _ => rfl) _), rfl⟩
    | save connector tuples syncedAt => exact ⟨.done (.refl (fun _ => rfl) _), rfl⟩
    | lastSync connector => exact ⟨.time (.refl (fun _ => rfl) _), rfl⟩
    | assertFresh max now => exact ⟨.done (.refl (fun _ => rfl) _), rfl⟩
  lost := by
    rintro t ⟨space, op⟩
    cases op with
    | register connector =>
      have hrun : register .lost t space connector =
        ((register .up t space connector).1, _) := PostgresStore.run_lost
      refine ⟨?_, ?_⟩
      · show StateReply.Agree _ (.done (register .lost t space connector).2)
        rw [hrun]
        exact .done (.refl (fun _ => rfl) _)
      · show (register .lost t space connector).1 = (register .up t space connector).1
        rw [hrun]
    | loadTuples connector => exact ⟨.tuples (.refl (fun _ => rfl) _), rfl⟩
    | save connector tuples syncedAt =>
      have hrun : save ft .lost t space connector tuples syncedAt =
        ((save ft .up t space connector tuples syncedAt).1, _) := PostgresStore.run_lost
      refine ⟨?_, ?_⟩
      · show StateReply.Agree _ (.done (save ft .lost t space connector tuples syncedAt).2)
        rw [hrun]
        exact .done (.refl (fun _ => rfl) _)
      · show (save ft .lost t space connector tuples syncedAt).1 =
          (save ft .up t space connector tuples syncedAt).1
        rw [hrun]
    | lastSync connector => exact ⟨.time (.refl (fun _ => rfl) _), rfl⟩
    | assertFresh max now => exact ⟨.done (.refl (fun _ => rfl) _), rfl⟩

end Comparison

/-- **The stores of all namespaces over one table answer as one store in memory for each**, over
every history of calls of all of them: whatever becomes of the connection, and in whatever order
the database lists its rows. -/
theorem connector_stores_agree (ft : Json.FloatText) (repr : Json → PyStr)
    (secondsText : Option ℤ → String) (a : Arrangement) {calls : List (Line × StateCall)}
    (h : ∀ c ∈ calls, c.2.Storable) :
    List.Forall₂ StateReply.Agree
      (((memoryStates secondsText).behind (StateCall.failed secondsText)).answers calls)
      ((postgresStates ft repr secondsText a).answers calls) :=
  ((statesReach ft repr secondsText a).run_of_forall h).1

/-- The seconds of an age, or nothing. -/
def plainSeconds (seconds : Option ℤ) : String :=
  String.ofList ((seconds.map Decimal.intText).getD [])

/-- A calendar is synced for two stores of tuples, and one of the syncs loses its answer. -/
theorem connector_stores_agree_lost :
    let tuples := FrozenSet.ofList [⟨"user:alice", "viewer", "doc:plan"⟩]
    let calls : List (Line × StateCall) :=
      [(.up, ⟨"store-1", .register "calendar"⟩), (.up, ⟨"store-1", .save "calendar" tuples 60⟩),
        (.up, ⟨"store-2", .register "calendar"⟩), (.lost, ⟨"store-2", .save "calendar" tuples 90⟩),
        (.up, ⟨"store-1", .loadTuples "calendar"⟩), (.refused, ⟨"store-2", .assertFresh 50 100⟩),
        (.up, ⟨"store-2", .assertFresh 50 100⟩)]
    List.Forall₂ StateReply.Agree
      (((memoryStates plainSeconds).behind (StateCall.failed plainSeconds)).answers calls)
      ((postgresStates .ofBits (fun _ => []) plainSeconds asStored).answers calls) := by
  refine connector_stores_agree .ofBits (fun _ => []) plainSeconds _ ?_
  have hone : plain "store-1" = true := by decide
  have htwo : plain "store-2" = true := by decide
  have hname : plain "calendar" = true := by decide
  simp [StateCall.Storable, hone, htwo, hname]

end HeadOfContext
