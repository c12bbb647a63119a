import HeadOfContext.Db.Store
import HeadOfContext.Memory.Stores

/-!
# The two provenance ledgers

`PostgresLedger` keeps one row for each memory, with the memories it was derived from as a JSON
text, and a `UNIQUE` on the backend with its reference that `InMemoryLedger` does not have. While
no reference is claimed by two memories the two ledgers answer alike, and a record that would
claim one is exactly what the database refuses (`ledgers_agree`).
-/

namespace HeadOfContext

open Except Sql

/-- `LEDGER_SCHEMA`. -/
def ledgerSchema : Relation where
  columns :=
    [{ name := "memory_id", type := .text },
     { name := "written_for", type := .text },
     { name := "written_by", type := .text },
     { name := "derived_from", type := .text },
     { name := "content_hash", type := .text },
     { name := "backend", type := .text },
     { name := "backend_ref", type := .text },
     { name := "created_at", type := .timestamptz }]
  key := ["memory_id"]
  unique := [["backend", "backend_ref"]]

/-- `memory_provenance`. -/
abbrev LedgerTable := KeyedRows ledgerSchema

namespace InMemoryLedger

variable (rows : Dict String MemoryRecord)

/-- `put`. -/
def put (record : MemoryRecord) : Dict String MemoryRecord := rows.set record.memoryId record

/-- `get`. -/
def get (memoryId : String) : Option MemoryRecord := Dict.get rows memoryId

/-- `get_by_backend_ref`. -/
def getByBackendRef (backend backendRef : String) : Option MemoryRecord :=
  rows.values.find? fun row => row.backend = backend ∧ row.backendRef = backendRef

/-- `delete`. -/
def delete (memoryId : String) : Dict String MemoryRecord := rows.pop memoryId

/-- No other memory has the reference of the record. -/
def Unclaimed (record : MemoryRecord) : Prop :=
  ∀ row ∈ rows.values, row.backend = record.backend → row.backendRef = record.backendRef →
    row.memoryId = record.memoryId

instance decidableUnclaimed (record : MemoryRecord) : Decidable (Unclaimed rows record) :=
  inferInstanceAs (Decidable (∀ row ∈ rows.values, _ → _ → _))

end InMemoryLedger

namespace PostgresLedger

open PostgresApprovalStore (ts str)
open PostgresStore (textOf)
open Scope (iterated)

section Operations

variable (ft : Json.FloatText) (repr : Json → PyStr) (a : Arrangement) (line : Line)
  (t : LedgerTable)

/-- `_COLUMNS`. -/
def columns : List String :=
  ["memory_id", "written_for", "written_by", "derived_from", "content_hash", "backend",
    "backend_ref", "created_at"]

/-- `list(derived_from)`, as a JSON array. -/
def derivedJson (derivedFrom : List String) : Json :=
  .arr (derivedFrom.map fun d => .str (PyStr.ofString d))

/-- The parameters of `put`. -/
def values (record : MemoryRecord) : List Sql.Value :=
  [.text record.memoryId, .text record.writtenFor, .text record.writtenBy,
    .text (Json.text ft (derivedJson record.derivedFrom)),
    .text record.contentHash, .text record.backend, .text record.backendRef,
    .timestamp record.createdAt]

/-- `put`. -/
def put (record : MemoryRecord) : LedgerTable × Except Exn Unit :=
  PostgresStore.run .ledgerUnavailable line t
    (t.upsert columns (values ft record)
      ["written_for", "written_by", "derived_from", "content_hash", "backend", "backend_ref",
        "created_at"])
    "provenance write failed"

/-- `tuple(str(d) for d in json.loads(raw))`. -/
def derivedOf (raw : String) : Except Exn (List String) :=
  match Json.loads ft (.ofString raw) with
  | none => .error (.other "JSONDecodeError")
  | some data => do
    let items ← iterated data
    items.mapM (textOf repr)

/-- The record of a row. -/
def fromRow : Row → Except Exn MemoryRecord
  | [memoryId, writtenFor, writtenBy, derivedFrom, contentHash, backend, backendRef, createdAt] =>
    match ts createdAt with
    | some created => do
      return {
        memoryId := ← str memoryId
        writtenFor := ← str writtenFor
        writtenBy := ← str writtenBy
        derivedFrom := ← derivedOf ft repr (← str derivedFrom)
        contentHash := ← str contentHash
        backend := ← str backend
        backendRef := ← str backendRef
        createdAt := created }
    | none =>
      .error (.hoc (HocClass.ledgerUnavailable.error "provenance row has an invalid timestamp"))
  | _ => .error (.other "IndexError")

/-- `_record`. -/
def record (tests : List Test) (params : List Param) : Except Exn (Option MemoryRecord) := do
  let row ← PostgresStore.one .ledgerUnavailable line (t.select a columns tests params)
    "provenance read failed"
  match row with
  | none => return none
  | some row => do
    let found ← fromRow ft repr row
    return some found

/-- `get`. -/
def get (memoryId : String) : Except Exn (Option MemoryRecord) :=
  record ft repr a line t [.eq "memory_id"] [.value (.text memoryId)]

/-- `get_by_backend_ref`. -/
def getByBackendRef (backend backendRef : String) : Except Exn (Option MemoryRecord) :=
  record ft repr a line t [.eq "backend", .eq "backend_ref"]
    [.value (.text backend), .value (.text backendRef)]

/-- `delete`. -/
def delete (memoryId : String) : LedgerTable × Except Exn Unit :=
  PostgresStore.run .ledgerUnavailable line t
    (t.delete [.eq "memory_id"] [.value (.text memoryId)]) "provenance delete failed"

end Operations

end PostgresLedger

/-! ### The calls -/

/-- A call of a ledger. -/
inductive LedgerCall where
  | put (record : MemoryRecord)
  | get (memoryId : String)
  | getByBackendRef (backend backendRef : String)
  | delete (memoryId : String)

/-- What a call returns or raises. -/
inductive LedgerReply where
  | done (r : Except Exn Unit)
  | record (r : Except Exn (Option MemoryRecord))
  deriving DecidableEq

/-- The texts of a record. -/
def MemoryRecord.texts (r : MemoryRecord) : List String :=
  [r.memoryId, r.writtenFor, r.writtenBy, r.contentHash, r.backend, r.backendRef]

/-- The texts of the call are ones that the database takes. -/
def LedgerCall.Storable : LedgerCall → Prop
  | put record => ∀ s ∈ record.texts, plain s = true
  | get memoryId => plain memoryId = true
  | getByBackendRef backend backendRef => plain backend = true ∧ plain backendRef = true
  | delete memoryId => plain memoryId = true

instance LedgerCall.decidableStorable : DecidablePred LedgerCall.Storable
  | put record => inferInstanceAs (Decidable (∀ s ∈ record.texts, plain s = true))
  | get _ | delete _ => inferInstanceAs (Decidable (_ = _))
  | getByBackendRef _ _ => inferInstanceAs (Decidable (_ ∧ _))

/-- A record that is put claims no reference that another memory has. -/
def LedgerCall.Respects (rows : Dict String MemoryRecord) : LedgerCall → Prop
  | put record => InMemoryLedger.Unclaimed rows record
  | _ => True

instance LedgerCall.decidableRespects (rows : Dict String MemoryRecord) :
    DecidablePred (LedgerCall.Respects rows)
  | put record => inferInstanceAs (Decidable (InMemoryLedger.Unclaimed rows record))
  | get _ | getByBackendRef _ _ | delete _ => inferInstanceAs (Decidable True)

/-- What the callers of a ledger keep to. -/
def LedgerCall.Allowed (rows : Dict String MemoryRecord) (c : LedgerCall) : Prop :=
  c.Storable ∧ c.Respects rows

instance LedgerCall.decidableAllowed (rows : Dict String MemoryRecord) :
    DecidablePred (LedgerCall.Allowed rows) := fun _ => inferInstanceAs (Decidable (_ ∧ _))

/-- The answer of a ledger that cannot be reached. -/
def LedgerCall.failed : LedgerCall → LedgerReply
  | put _ => .done (PostgresStore.failed .ledgerUnavailable "provenance write failed")
  | get _ => .record (PostgresStore.failed .ledgerUnavailable "provenance read failed")
  | getByBackendRef _ _ =>
    .record (PostgresStore.failed .ledgerUnavailable "provenance read failed")
  | delete _ => .done (PostgresStore.failed .ledgerUnavailable "provenance delete failed")

/-- `InMemoryLedger`. -/
def memoryLedger : Machine LedgerCall LedgerReply where
  State := Dict String MemoryRecord
  init := .empty
  step rows
    | .put record => (InMemoryLedger.put rows record, .done (.ok ()))
    | .get memoryId => (rows, .record (.ok (InMemoryLedger.get rows memoryId)))
    | .getByBackendRef backend backendRef =>
      (rows, .record (.ok (InMemoryLedger.getByBackendRef rows backend backendRef)))
    | .delete memoryId => (InMemoryLedger.delete rows memoryId, .done (.ok ()))

/-- `PostgresLedger`. -/
def postgresLedger (ft : Json.FloatText) (repr : Json → PyStr) (a : Arrangement) :
    Machine (Line × LedgerCall) LedgerReply where
  State := LedgerTable
  init := KeyedRows.empty
  step t
    | (line, .put record) => (PostgresLedger.put ft line t record).map id .done
    | (line, .get memoryId) => (t, .record (PostgresLedger.get ft repr a line t memoryId))
    | (line, .getByBackendRef backend backendRef) =>
      (t, .record (PostgresLedger.getByBackendRef ft repr a line t backend backendRef))
    | (line, .delete memoryId) => (PostgresLedger.delete line t memoryId).map id .done

/-! ### What the table holds -/

namespace PostgresLedger

open PostgresApprovalStore (ts str)
open PostgresStore (textOf)
open Scope (iterated)

variable {ft : Json.FloatText} {repr : Json → PyStr} {a : Arrangement} {t : LedgerTable}
  {rows : Dict String MemoryRecord} {r : MemoryRecord}

theorem derivedOf_text (derivedFrom : List String) :
    derivedOf ft repr (Json.text ft (derivedJson derivedFrom)) = .ok derivedFrom := by
  have hwf : Json.Wf Json.Joined (derivedJson derivedFrom) := by
    refine .arr fun v hv => ?_
    obtain ⟨d, -, rfl⟩ := List.mem_map.mp hv
    exact .str (Json.joined_ofString d)
  have hitems : ∀ l : List String,
      (l.map fun d => Json.str (PyStr.ofString d)).mapM (textOf repr) = .ok l := by
    intro l
    induction l with
    | nil => rfl
    | cons d l ih =>
      rw [List.map_cons, List.mapM_cons, PostgresStore.textOf_str, ih]
      rfl
  unfold derivedOf
  rw [Json.loads_text hwf]
  exact hitems derivedFrom

/-- **A record is read back from its row.** -/
theorem fromRow_values (r : MemoryRecord) : fromRow ft repr (values ft r) = .ok r := by
  simp [fromRow, values, ts, str, derivedOf_text]

/-- A row for each memory, under its id. -/
def layout (ft : Json.FloatText) : Layout ledgerSchema String MemoryRecord where
  row k r := values ft { r with memoryId := k }
  keyOf_iff := by
    intro k r k' r'
    show ([Sql.Value.text k] = [Sql.Value.text k']) ↔ _
    simp

/-- Every record stands under its own id. -/
def OwnIds (rows : Dict String MemoryRecord) : Prop := ∀ e ∈ rows.entries, e.1 = e.2.memoryId

/-- The table holds the rows of the records. -/
structure Keeps (ft : Json.FloatText) (t : LedgerTable) (rows : Dict String MemoryRecord) :
    Prop where
  represents : (layout ft).Represents t rows
  ids : OwnIds rows

theorem OwnIds.entry (h : OwnIds rows) {e : String × MemoryRecord} (he : e ∈ rows.entries) :
    (layout ft).entry e = values ft e.2 := by
  obtain ⟨k, r⟩ := e
  obtain rfl : k = r.memoryId := h _ he
  rfl

theorem OwnIds.get (h : OwnIds rows) {memoryId : String}
    (hget : rows.get memoryId = some r) : r.memoryId = memoryId :=
  (h _ (Dict.mem_entries.mpr hget)).symm

theorem OwnIds.set (h : OwnIds rows) (r : MemoryRecord) : OwnIds (rows.set r.memoryId r) := by
  rintro ⟨k, r'⟩ he
  have hget := Dict.mem_entries.mp he
  rw [Dict.get_set] at hget
  by_cases hk : k = r.memoryId
  · rw [if_pos hk] at hget
    rw [hk, Option.some.inj hget]
  · rw [if_neg hk] at hget
    exact h _ (Dict.mem_entries.mpr hget)

theorem OwnIds.pop (h : OwnIds rows) (memoryId : String) : OwnIds (rows.pop memoryId) :=
  fun e he => h e (List.mem_filter.mp he).1

theorem insertable (hr : ∀ s ∈ r.texts, plain s = true) :
    KeyedRows.Insertable ledgerSchema columns (values ft r) := by
  have hholds : ledgerSchema.schema.Holds (values ft r) := by
    simp only [MemoryRecord.texts, List.forall_mem_cons] at hr
    obtain ⟨hid, hfor, hby, hhash, hbackend, href, -⟩ := hr
    unfold Schema.Holds values ledgerSchema
    simp only [List.forall₂_cons, List.Forall₂.nil, holds_text, holds_timestamptz, hid, hfor, hby,
      hhash, hbackend, href, PostgresStore.plain_text, and_true]
  exact ⟨rfl, List.all_eq_true.mpr (Table.sendable_of_mem hholds), hholds⟩

/-- **What the `UNIQUE` asks of a record** is that its reference is unclaimed. -/
theorem apart_iff (h : OwnIds rows) :
    (layout ft).Apart rows r.memoryId r ↔ InMemoryLedger.Unclaimed rows r := by
  -- the `UNIQUE` is about the backend and its own id for the memory
  have hproject : ∀ e ∈ rows.entries,
      (ledgerSchema.schema.project ["backend", "backend_ref"] ((layout ft).entry e) =
        ledgerSchema.schema.project ["backend", "backend_ref"] ((layout ft).row r.memoryId r) ↔
      e.2.backend = r.backend ∧ e.2.backendRef = r.backendRef) := by
    intro e _
    show ([Sql.Value.text e.2.backend, .text e.2.backendRef] =
      [Sql.Value.text r.backend, .text r.backendRef]) ↔ _
    simp
  constructor
  · intro hapart row hrow hbackend href
    obtain ⟨e, he, rfl⟩ := List.mem_map.mp hrow
    by_contra hne
    have hother : e.1 ≠ r.memoryId := by
      rw [h e he]
      exact hne
    exact hapart _ List.mem_cons_self e he hother ((hproject e he).mpr ⟨hbackend, href⟩)
  · intro hunclaimed cols hcols e he hne heq
    obtain rfl := List.mem_singleton.mp hcols
    obtain ⟨hbackend, href⟩ := (hproject e he).mp heq
    refine hne ?_
    rw [h e he]
    exact hunclaimed e.2 (List.mem_map_of_mem he) hbackend href

theorem put_up (h : Keeps ft t rows) (hr : ∀ s ∈ r.texts, plain s = true)
    (hunclaimed : InMemoryLedger.Unclaimed rows r) :
    ∃ t', put ft .up t r = (t', .ok ()) ∧ Keeps ft t' (rows.set r.memoryId r) := by
  have hassign : ∀ r', ledgerSchema.excluded
      ["written_for", "written_by", "derived_from", "content_hash", "backend", "backend_ref",
        "created_at"] ((layout ft).row r.memoryId r) ((layout ft).row r.memoryId r') =
        (layout ft).row r.memoryId r := fun r' => rfl
  obtain ⟨t', hupsert, hrep⟩ := Layout.upsert h.represents (insertable hr) rfl hassign
    ((apart_iff h.ids).mpr hunclaimed)
  refine ⟨t', ?_, hrep, h.ids.set r⟩
  rw [put]
  exact congrArg (PostgresStore.run _ .up t · _) hupsert

/-- A record that claims the reference of another memory is refused, and changes nothing. -/
theorem put_refused (h : Keeps ft t rows) (hr : ∀ s ∈ r.texts, plain s = true)
    (hclaimed : ¬InMemoryLedger.Unclaimed rows r) :
    put ft .up t r = (t, PostgresStore.failed .ledgerUnavailable "provenance write failed") := by
  have hassign : ∀ r', ledgerSchema.excluded
      ["written_for", "written_by", "derived_from", "content_hash", "backend", "backend_ref",
        "created_at"] ((layout ft).row r.memoryId r) ((layout ft).row r.memoryId r') =
        (layout ft).row r.memoryId r := fun r' => rfl
  have hupsert := Layout.upsert_refused h.represents (insertable hr) rfl hassign
    fun hapart => hclaimed ((apart_iff h.ids).mp hapart)
  rw [put]
  exact congrArg (PostgresStore.run _ .up t · _) hupsert

theorem project_values (r : MemoryRecord) :
    ledgerSchema.schema.project columns (values ft r) = values ft r :=
  Table.project_names (by decide) rfl

/-- The record of the one row that a query may find. -/
theorem record_up {tests : List Test} {params : List Param} {found : Option MemoryRecord}
    (h : t.select a columns tests params = some (found.map (values ft)).toList) :
    record ft repr a .up t tests params = .ok found := by
  rw [record, h]
  cases found with
  | none => rfl
  | some r =>
    show (do let found ← fromRow ft repr (values ft r); return some found) = _
    rw [fromRow_values]
    rfl

theorem selects_id {memoryId : String} (e : String × MemoryRecord) :
    selects ledgerSchema.schema [.eq "memory_id"] [.value (.text memoryId)]
      ((layout ft).entry e) = decide (e.1 = memoryId) := by
  have hid : ledgerSchema.schema.value ((layout ft).entry e) "memory_id" = .text e.1 := rfl
  simp [selects, Test.passes, hid]

theorem sendable_id {memoryId : String} (hid : plain memoryId = true) :
    ∀ q ∈ [Param.value (.text memoryId)], q.sendable = true :=
  List.forall_mem_singleton.mpr hid

theorem get_up (h : Keeps ft t rows) {memoryId : String} (hid : plain memoryId = true) :
    get ft repr a .up t memoryId = .ok (rows.get memoryId) := by
  refine record_up ?_
  rw [Layout.select_key h.represents rfl (sendable_id hid) selects_id]
  cases hget : rows.get memoryId with
  | none => rfl
  | some r =>
    obtain rfl := h.ids.get hget
    exact congrArg (fun row => some [row]) (project_values r)

theorem delete_up (h : Keeps ft t rows) {memoryId : String} (hid : plain memoryId = true) :
    ∃ t', delete .up t memoryId = (t', .ok ()) ∧ Keeps ft t' (rows.pop memoryId) := by
  obtain ⟨t', hdelete, hrep⟩ := Layout.delete h.represents rfl
    (sendable_id hid) selects_id
  refine ⟨t', ?_, hrep, h.ids.pop memoryId⟩
  rw [delete, hdelete]
  rfl

/-- The entries under a reference. -/
def under (backend backendRef : String) (e : String × MemoryRecord) : Bool :=
  decide (e.2.backend = backend ∧ e.2.backendRef = backendRef)

theorem selects_ref {backend backendRef : String} (e : String × MemoryRecord) :
    selects ledgerSchema.schema [.eq "backend", .eq "backend_ref"]
      [.value (.text backend), .value (.text backendRef)] ((layout ft).entry e) =
        under backend backendRef e := by
  have hbackend : ledgerSchema.schema.value ((layout ft).entry e) "backend" =
    .text e.2.backend := rfl
  have href : ledgerSchema.schema.value ((layout ft).entry e) "backend_ref" =
    .text e.2.backendRef := rfl
  simp [selects, Test.passes, hbackend, href, under]

/-- **A reference has one memory at most**: that is the `UNIQUE` of the table. -/
theorem eq_of_under (h : Keeps ft t rows) {backend backendRef : String}
    {e e' : String × MemoryRecord} (he : e ∈ rows.entries) (he' : e' ∈ rows.entries)
    (hunder : under backend backendRef e = true) (hunder' : under backend backendRef e' = true) :
    e = e' := by
  have hvalid : ledgerSchema.Valid (rows.entries.map (layout ft).entry) :=
    h.represents ▸ t.valid
  have hunique := (Layout.valid_iff.mp hvalid).2 _ List.mem_cons_self
  obtain ⟨hbackend, href⟩ := of_decide_eq_true hunder
  obtain ⟨hbackend', href'⟩ := of_decide_eq_true hunder'
  refine List.inj_on_of_nodup_map hunique he he' ?_
  show [Sql.Value.text e.2.backend, .text e.2.backendRef] =
    [Sql.Value.text e'.2.backend, .text e'.2.backendRef]
  rw [hbackend, href, hbackend', href']

theorem getByBackendRef_up (h : Keeps ft t rows) {backend backendRef : String}
    (hbackend : plain backend = true) (href : plain backendRef = true) :
    getByBackendRef ft repr a .up t backend backendRef =
      .ok (InMemoryLedger.getByBackendRef rows backend backendRef) := by
  refine record_up ?_
  have hquery : ∃ found, t.select a columns [.eq "backend", .eq "backend_ref"]
        [.value (.text backend), .value (.text backendRef)] = some found ∧
      found.Perm ((rows.entries.filter (under backend backendRef)).map fun e =>
        ledgerSchema.schema.project columns ((layout ft).entry e)) :=
    Layout.select a _ h.represents rfl
      (List.forall_mem_cons.mpr ⟨hbackend, List.forall_mem_singleton.mpr href⟩)
      fun e _ => selects_ref e
  obtain ⟨found, hselect, hperm⟩ := hquery
  have hfind : InMemoryLedger.getByBackendRef rows backend backendRef =
      (rows.entries.filter (under backend backendRef)).head?.map Prod.snd := by
    rw [List.head?_filter, InMemoryLedger.getByBackendRef, Dict.values, List.find?_map]
    rfl
  rw [hselect, hfind]
  refine congrArg some ?_
  have hnodup : (rows.entries.filter (under backend backendRef)).Nodup :=
    (List.Nodup.of_map _ rows.nodup).filter _
  -- the filter keeps no entry, or one
  cases hkept : rows.entries.filter (under backend backendRef) with
  | nil =>
    rw [hkept] at hperm
    exact hperm.eq_nil
  | cons e l =>
    have hall : ∀ x ∈ e :: l, x ∈ rows.entries ∧ under backend backendRef x = true :=
      fun x hx => List.mem_filter.mp (hkept ▸ hx)
    obtain ⟨he, hunder⟩ := hall e List.mem_cons_self
    obtain rfl : l = [] := by
      refine List.eq_nil_iff_forall_not_mem.mpr fun e' hmem => ?_
      obtain ⟨he', hunder'⟩ := hall e' (List.mem_cons_of_mem _ hmem)
      rw [hkept] at hnodup
      obtain rfl := eq_of_under h he he' hunder hunder'
      exact (List.nodup_cons.mp hnodup).1 hmem
    have hrow : ledgerSchema.schema.project columns ((layout ft).entry e) = values ft e.2 := by
      rw [h.ids.entry he, project_values]
    rw [hkept, List.map_singleton, hrow] at hperm
    exact List.perm_singleton.mp hperm

end PostgresLedger

/-! ### The comparison -/

open PostgresLedger

/-- The ledger in memory, and the table. -/
def ledgersReach (ft : Json.FloatText) (repr : Json → PyStr) (a : Arrangement) :
    Machine.Reaches memoryLedger (postgresLedger ft repr a) LedgerCall.failed LedgerCall.Allowed
      (· = ·) where
  Rel rows t := Keeps ft t rows
  init := ⟨rfl, fun _ h => absurd h List.not_mem_nil⟩
  up := by
    intro rows t c hkeeps hc
    obtain ⟨hstorable, hunclaimed⟩ := hc
    cases c with
    | put r =>
      obtain ⟨t', hrun, hkeeps'⟩ := put_up hkeeps hstorable hunclaimed
      refine ⟨?_, ?_⟩
      · show _ = LedgerReply.done (put ft .up t r).2
        rw [hrun]
        rfl
      · show Keeps ft (put ft .up t r).1 _
        rw [hrun]
        exact hkeeps'
    | get memoryId =>
      refine ⟨?_, hkeeps⟩
      show _ = LedgerReply.record (PostgresLedger.get ft repr a .up t memoryId)
      rw [get_up hkeeps hstorable]
      rfl
    | getByBackendRef backend backendRef =>
      refine ⟨?_, hkeeps⟩
      show _ = LedgerReply.record (getByBackendRef ft repr a .up t backend backendRef)
      rw [getByBackendRef_up hkeeps hstorable.1 hstorable.2]
      rfl
    | delete memoryId =>
      obtain ⟨t', hrun, hkeeps'⟩ := delete_up hkeeps hstorable
      refine ⟨?_, ?_⟩
      · show _ = LedgerReply.done (delete .up t memoryId).2
        rw [hrun]
        rfl
      · show Keeps ft (delete .up t memoryId).1 _
        rw [hrun]
        exact hkeeps'
  refused := by
    intro t c
    cases c with
    | put r => exact ⟨rfl, rfl⟩
    | get memoryId => exact ⟨rfl, rfl⟩
    | getByBackendRef backend backendRef => exact ⟨rfl, rfl⟩
    | delete memoryId => exact ⟨rfl, rfl⟩
  lost := by
    intro t c
    cases c with
    | put r =>
      have hrun : put ft .lost t r = ((put ft .up t r).1, _) := PostgresStore.run_lost
      refine ⟨?_, ?_⟩
      · show _ = LedgerReply.done (put ft .lost t r).2
        rw [hrun]
        rfl
      · show (put ft .lost t r).1 = (put ft .up t r).1
        rw [hrun]
    | get memoryId => exact ⟨rfl, rfl⟩
    | getByBackendRef backend backendRef => exact ⟨rfl, rfl⟩
    | delete memoryId =>
      have hrun : delete .lost t memoryId = ((delete .up t memoryId).1, _) :=
        PostgresStore.run_lost
      refine ⟨?_, ?_⟩
      · show _ = LedgerReply.done (delete .lost t memoryId).2
        rw [hrun]
        rfl
      · show (delete .lost t memoryId).1 = (delete .up t memoryId).1
        rw [hrun]

/-- The records in memory after the calls. -/
def recordsAfter (calls : List (Line × LedgerCall)) : Dict String MemoryRecord :=
  (memoryLedger.behind LedgerCall.failed).after calls

/-- Every call of the history is one that its callers may make. -/
def LedgerCalls (calls : List (Line × LedgerCall)) : Prop :=
  ∀ past line c later, calls = past ++ (line, c) :: later → c.Allowed (recordsAfter past)

/-- **The two ledgers answer alike** over every history in which no record claims the reference
of another memory, whatever becomes of the connection; and after it, a record that would is
exactly what the database refuses. -/
theorem ledgers_agree (ft : Json.FloatText) (repr : Json → PyStr) (a : Arrangement)
    {calls : List (Line × LedgerCall)} (h : LedgerCalls calls) :
    (memoryLedger.behind LedgerCall.failed).answers calls =
        (postgresLedger ft repr a).answers calls ∧
      ∀ r, (LedgerCall.put r).Storable →
        (((postgresLedger ft repr a).step ((postgresLedger ft repr a).after calls)
            (.up, .put r)).2 = .done (.ok ()) ↔
          InMemoryLedger.Unclaimed (recordsAfter calls) r) := by
  obtain ⟨hanswers, hkeeps⟩ := (ledgersReach ft repr a).run h
  refine ⟨List.forall₂_eq_eq_eq ▸ hanswers, fun r hr => ?_⟩
  show LedgerReply.done (put ft .up ((postgresLedger ft repr a).after calls) r).2 = _ ↔ _
  constructor
  · intro hdone
    by_contra hclaimed
    rw [put_refused hkeeps hr hclaimed] at hdone
    exact absurd hdone (by simp [PostgresStore.failed])
  · intro hunclaimed
    obtain ⟨t', hrun, -⟩ := put_up hkeeps hr hunclaimed
    rw [hrun]

/-- The record of a note that alice keeps. -/
def noteRecord : MemoryRecord where
  memoryId := "memory:1"
  writtenFor := "user:alice"
  writtenBy := "agent:notes"
  derivedFrom := ["doc:plan"]
  contentHash := "9f86d081"
  backend := "postgres"
  backendRef := "ref-1"
  createdAt := 60

/-- The record is written again after its answer was lost, and then deleted. -/
def retriedPut : List (Line × LedgerCall) :=
  [(.lost, .put noteRecord), (.up, .put { noteRecord with createdAt := 90 }),
    (.up, .getByBackendRef "postgres" "ref-1"), (.refused, .delete "memory:1"),
    (.up, .get "memory:1")]

theorem ledgerCalls_nil : LedgerCalls [] :=
  fun _ _ _ _ h => absurd h.symm (List.append_ne_nil_of_right_ne_nil _ (List.cons_ne_nil _ _))

theorem LedgerCalls.concat {calls : List (Line × LedgerCall)} {line : Line} {c : LedgerCall}
    (h : LedgerCalls calls)
    (hc : c.Allowed (recordsAfter calls)) :
    LedgerCalls (calls ++ [(line, c)]) := by
  intro past line' c' later hcalls
  induction later using List.reverseRecOn with
  | nil =>
    obtain ⟨rfl, hlast⟩ := List.append_inj' hcalls rfl
    obtain ⟨rfl, rfl⟩ := Prod.mk.inj (List.singleton_injective hlast)
    exact hc
  | append_singleton later x _ =>
    rw [← List.cons_append, ← List.append_assoc] at hcalls
    exact h past line' c' later (List.append_inj' hcalls rfl).1

theorem ledgers_agree_retried :
    (memoryLedger.behind LedgerCall.failed).answers retriedPut =
        (postgresLedger .ofBits (fun _ => []) asStored).answers retriedPut ∧
      ∀ r, (LedgerCall.put r).Storable →
        (((postgresLedger .ofBits (fun _ => []) asStored).step
            ((postgresLedger .ofBits (fun _ => []) asStored).after retriedPut) (.up, .put r)).2 =
            .done (.ok ()) ↔
          InMemoryLedger.Unclaimed (recordsAfter retriedPut) r) := by
  refine ledgers_agree .ofBits (fun _ => []) asStored ?_
  exact ((((ledgerCalls_nil.concat (by decide)).concat (by decide)).concat (by decide)).concat
    (by decide)).concat (by decide)

end HeadOfContext
