import HeadOfContext.Actions.PostgresApprovals
import HeadOfContext.Framework.Machine
import HeadOfContext.Framework.Rows
import Mathlib.Data.List.Perm.Basic

/-!
# The two approval stores answer alike

Both stores are machines over the same calls (`memoryApprovals`, `postgresApprovals`). The rows
of the one represent those of the other when the table holds `values r` for each request `r`, in
order (`Represents`); since a table carries its constraints, the requests are then under distinct
ids and hold only what the columns hold. Every operation keeps this, and gives the same reply.

One operation needs a discipline of its callers. `update` replaces the whole request in memory
and sets five columns in the table, which is the same for a request that was asked as the stored
one was (`ApprovalRequest.asked`): any row derived from one that `get` returned, however stale,
because no operation changes what was asked.
-/

namespace HeadOfContext

open Except Sql

/-- What no operation changes: the request without the columns that resolve or consume it. -/
def ApprovalRequest.asked (r : ApprovalRequest) : ApprovalRequest :=
  { r with
    status := .pending
    resolvedBy := none
    resolvedAt := none
    resolutionReason := none
    consumedAt := none }

@[simp] theorem ApprovalRequest.asked_withStatus (r : ApprovalRequest) (status : ApprovalStatus)
    (changes : Changes) : (r.withStatus status changes).asked = r.asked := rfl

/-! ### The calls -/

/-- One of the `**fields` of a transition that sets a resolution or consumption field. -/
inductive ApprovalField where
  | resolvedBy (value : Option String)
  | resolvedAt (value : Option ℤ)
  | resolutionReason (value : Option String)
  | consumedAt (value : Option ℤ)
  deriving DecidableEq

namespace ApprovalField

open PostgresApprovalStore

def name : ApprovalField → String
  | resolvedBy _ => "resolved_by"
  | resolvedAt _ => "resolved_at"
  | resolutionReason _ => "resolution_reason"
  | consumedAt _ => "consumed_at"

def value : ApprovalField → Value
  | resolvedBy v => textOrNull v
  | resolvedAt v => timestampOrNull v
  | resolutionReason v => textOrNull v
  | consumedAt v => timestampOrNull v

end ApprovalField

/-- The `**fields` of a transition, in the order of the call, each name once. -/
structure ApprovalFields where
  list : List ApprovalField
  nodup : (list.map ApprovalField.name).Nodup

namespace ApprovalFields

/-- What the fields make of a request in memory. -/
def changes (fields : ApprovalFields) : Changes where
  resolvedBy := fields.list.findSome? fun | .resolvedBy v => some v | _ => none
  resolvedAt := fields.list.findSome? fun | .resolvedAt v => some v | _ => none
  resolutionReason := fields.list.findSome? fun | .resolutionReason v => some v | _ => none
  consumedAt := fields.list.findSome? fun | .consumedAt v => some v | _ => none

/-- The columns that they name, with their values. -/
def assignments (fields : ApprovalFields) : List (String × Value) :=
  fields.list.map fun f => (f.name, f.value)

end ApprovalFields

/-- A call of a store. -/
inductive ApprovalCall where
  | create (request : ApprovalRequest)
  | get (requestId : String)
  | update (request : ApprovalRequest)
  | transition (requestId : String) (fromStatuses : List ApprovalStatus)
      (toStatus : ApprovalStatus) (fields : ApprovalFields)
  | consume (requestId : String) (now : ℤ)
  | listPending (subject : Option String)
  | expirePending (now : ℤ)

/-- What a call returns or raises. -/
inductive ApprovalReply where
  | done (r : Except Exn Unit)
  | row (r : Except Exn (Option ApprovalRequest))
  | rows (r : Except Exn (List ApprovalRequest))
  | count (r : Except Exn ℕ)
  deriving DecidableEq

/-- A call that changes the rows and may raise, which leaves them as they were. -/
def InMemoryApprovalStore.keeping (rows : ApprovalRows) (r : Except HocError ApprovalRows) :
    ApprovalRows × ApprovalReply :=
  match r with
  | .ok rows' => (rows', .done (.ok ()))
  | .error e => (rows, .done (.error (.hoc e)))

open InMemoryApprovalStore in
/-- `InMemoryApprovalStore`. -/
def memoryApprovals : Machine ApprovalCall ApprovalReply where
  State := ApprovalRows
  init := []
  step rows
    | .create request => keeping rows (create rows request)
    | .get requestId => (rows, .row (.ok (get rows requestId)))
    | .update request => keeping rows (update rows request)
    | .transition requestId fromStatuses toStatus fields =>
      let (rows', moved) := transition rows requestId fromStatuses toStatus fields.changes
      (rows', .row (.ok moved))
    | .consume requestId now =>
      let (rows', moved) := consume rows requestId now
      (rows', .row (.ok moved))
    | .listPending subject => (rows, .rows (.ok (listPending rows subject)))
    | .expirePending now =>
      let (rows', n) := expirePending rows now
      (rows', .count (.ok n))

open PostgresApprovalStore in
/-- `PostgresApprovalStore`. -/
def postgresApprovals : Machine ApprovalCall ApprovalReply where
  State := ApprovalTable
  init := Table.empty
  step t
    | .create request => (create t request).map id .done
    | .get requestId => (t, .row (get t requestId))
    | .update request => (update t request).map id .done
    | .transition requestId fromStatuses toStatus fields =>
      (transition t requestId fromStatuses toStatus fields.assignments).map id .row
    | .consume requestId now => (consume t requestId now).map id .row
    | .listPending subject => (t, .rows (listPending t subject))
    | .expirePending now => (expirePending t now).map id .count

/-! ### Replies that are the same -/

/-- Two exceptions are the same by class and reason: their texts tell the stores apart. -/
def Exn.SameAs : Exn → Exn → Prop
  | .hoc e, .hoc e' => e.cls = e'.cls ∧ e.reason = e'.reason
  | .other name, .other name' => name = name'
  | _, _ => False

/-- Both returned, related values, or both raised the same exception. -/
inductive SameOutcome {α : Type} (R : α → α → Prop) : Except Exn α → Except Exn α → Prop
  | ok {a b : α} (h : R a b) : SameOutcome R (.ok a) (.ok b)
  | error {e e' : Exn} (h : e.SameAs e') : SameOutcome R (.error e) (.error e')

/-- Replies that are the same, a list up to its order. -/
inductive ApprovalReply.Agree : ApprovalReply → ApprovalReply → Prop
  | done {a b : Except Exn Unit} (h : SameOutcome (· = ·) a b) : Agree (.done a) (.done b)
  | row {a b : Except Exn (Option ApprovalRequest)} (h : SameOutcome (· = ·) a b) :
    Agree (.row a) (.row b)
  | rows {a b : Except Exn (List ApprovalRequest)} (h : SameOutcome List.Perm a b) :
    Agree (.rows a) (.rows b)
  | count {a b : Except Exn ℕ} (h : SameOutcome (· = ·) a b) : Agree (.count a) (.count b)

/-! ### The discipline of the callers -/

/-- An update is only called with a row derived from one that a `get` returned before. -/
def UpdatesDerived (h : List (ApprovalCall × ApprovalReply)) (c : ApprovalCall) : Prop :=
  ∀ request, c = .update request → ∃ id row status changes,
    (ApprovalCall.get id, ApprovalReply.row (.ok (some row))) ∈ h ∧
      request = row.withStatus status changes

namespace ApprovalRequest

/-- The texts of a request. -/
def texts (r : ApprovalRequest) : List String :=
  [r.requestId, r.subject, r.actor, r.tool, r.argsHash, r.decisionId, r.approvalReason] ++
    r.resolvedBy.toList ++ r.resolutionReason.toList

/-- What the columns hold: texts without U+0000, and a depth that is an `INTEGER`. -/
structure Storable (r : ApprovalRequest) : Prop where
  texts : ∀ s ∈ r.texts, plain s = true
  depth : r.delegationDepth < 2 ^ 31

end ApprovalRequest

/-- The values of a call are ones that the columns of the table hold. -/
def ApprovalCall.Storable : ApprovalCall → Prop
  | .create request => request.Storable
  | .get requestId => plain requestId = true
  | .update request => request.Storable
  | .transition requestId _ _ fields =>
    plain requestId = true ∧ ∀ f ∈ fields.list, (Param.value f.value).sendable = true
  | .consume requestId _ => plain requestId = true
  | .listPending subject => ∀ s, subject = some s → plain s = true
  | .expirePending _ => True

/-! ### A request and its row -/

namespace PostgresApprovalStore

theorem nodup_columns : columns.Nodup := by decide

@[simp] theorem value_requestId (r : ApprovalRequest) :
    approvalsSchema.value (values r) "request_id" = .text r.requestId := rfl

@[simp] theorem value_subject (r : ApprovalRequest) :
    approvalsSchema.value (values r) "subject" = .text r.subject := rfl

@[simp] theorem value_status (r : ApprovalRequest) :
    approvalsSchema.value (values r) "status" = .text r.status.str := rfl

@[simp] theorem value_expiresAt (r : ApprovalRequest) :
    approvalsSchema.value (values r) "expires_at" = .timestamp r.expiresAt := rfl

/-- **A request is read back from its row.** -/
theorem fromRow_values (r : ApprovalRequest) : fromRow (values r) = .ok r := by
  simp [fromRow, values, str, int]

theorem project_values (r : ApprovalRequest) :
    approvalsSchema.project columns (values r) = values r :=
  Table.project_names nodup_columns rfl

@[simp] theorem holds_textOrNull {name : String} {v : Option String} :
    (Column.mk name .text true).Holds (textOrNull v) ↔ ∀ s ∈ v.toList, plain s = true := by
  cases v <;> simp [textOrNull]

@[simp] theorem holds_timestampOrNull {name : String} {v : Option ℤ} :
    (Column.mk name .timestamptz true).Holds (timestampOrNull v) ↔ True := by
  cases v <;> simp [timestampOrNull]

theorem plain_str (status : ApprovalStatus) : plain status.str = true := by
  cases status <;> decide

/-- The columns hold the row of a request that is storable. -/
theorem holds_values {r : ApprovalRequest} :
    approvalsSchema.Holds (values r) ↔ r.Storable := by
  have hdepth : ((-2 ^ 31 : ℤ) ≤ r.delegationDepth ∧ (r.delegationDepth : ℤ) < 2 ^ 31) ↔
      r.delegationDepth < 2 ^ 31 := by
    omega
  have htexts : (∀ s ∈ r.texts, plain s = true) ↔
      (plain r.requestId ∧ plain r.subject ∧ plain r.actor ∧ plain r.tool ∧ plain r.argsHash ∧
        plain r.decisionId ∧ plain r.approvalReason) ∧
      (∀ s ∈ r.resolvedBy.toList, plain s = true) ∧
      ∀ s ∈ r.resolutionReason.toList, plain s = true := by
    simp only [ApprovalRequest.texts, List.forall_mem_append, List.forall_mem_cons,
      List.not_mem_nil, false_implies, implies_true, true_and, and_assoc]
  unfold Schema.Holds approvalsSchema values
  simp only [List.forall₂_cons, List.Forall₂.nil, holds_text, holds_integer, holds_timestamptz,
    holds_textOrNull, holds_timestampOrNull, hdepth, plain_str, true_and, and_true]
  constructor
  · rintro ⟨hid, hsubject, hactor, hd, htool, hargs, hdecision, hby, hreason, happroval⟩
    exact ⟨htexts.mpr ⟨⟨hid, hsubject, hactor, htool, hargs, hdecision, happroval⟩, hby, hreason⟩,
      hd⟩
  · intro h
    obtain ⟨⟨hid, hsubject, hactor, htool, hargs, hdecision, happroval⟩, hby, hreason⟩ :=
      htexts.mp h.texts
    exact ⟨hid, hsubject, hactor, h.depth, htool, hargs, hdecision, hby, hreason, happroval⟩

/-- **The constraints of the table**, on the rows of requests. -/
theorem valid_map_values {rows : ApprovalRows} :
    approvalsSchema.Valid (rows.map values) ↔
      (∀ r ∈ rows, r.Storable) ∧ (rows.map ApprovalRequest.requestId).Nodup := by
  have hkeys : (rows.map values).map (fun row => approvalsSchema.value row approvalsSchema.key) =
      (rows.map ApprovalRequest.requestId).map Value.text := by
    rw [List.map_map, List.map_map]
    rfl
  have hunique : ((rows.map values).map fun row =>
      approvalsSchema.value row approvalsSchema.key).Nodup ↔
      (rows.map ApprovalRequest.requestId).Nodup := by
    rw [hkeys]
    exact List.nodup_map_iff fun a b h => by injection h
  constructor
  · intro h
    refine ⟨fun r hr => ?_, hunique.mp h.unique⟩
    exact holds_values.mp (h.holds _ (List.mem_map_of_mem hr))
  · rintro ⟨hstorable, hnodup⟩
    refine ⟨fun row hrow => ?_, hunique.mpr hnodup⟩
    obtain ⟨r, hr, rfl⟩ := List.mem_map.mp hrow
    exact holds_values.mpr (hstorable r hr)

/-- The table holds the rows of the requests, in their order. -/
def Represents (t : ApprovalTable) (rows : ApprovalRows) : Prop := t.rows = rows.map values

section Statements

variable {t : ApprovalTable} {rows : ApprovalRows} {tests : List Test} {params : List Param}
  {p : ApprovalRequest → Bool}

theorem Represents.valid (h : Represents t rows) :
    (∀ r ∈ rows, r.Storable) ∧ (rows.map ApprovalRequest.requestId).Nodup := by
  have hvalid := t.valid
  rw [h] at hvalid
  exact valid_map_values.mp hvalid

theorem filter_map_values (hp : ∀ r, selects approvalsSchema tests params (values r) = p r) :
    (rows.map values).filter (selects approvalsSchema tests params) =
      (rows.filter p).map values := by
  rw [List.filter_map]
  congr 2
  funext r
  exact hp r

/-- **An update of the table** is the same change of the requests. -/
theorem Represents.update (h : Represents t rows) {columns : List String} {vals : List Value}
    {f : ApprovalRequest → ApprovalRequest}
    (hcolumns : columns.Nodup) (hvals : vals.length = columns.length)
    (hparams : params.length = tests.length)
    (hsend : ∀ q ∈ vals.map Param.value ++ params, q.sendable = true)
    (hp : ∀ r, selects approvalsSchema tests params (values r) = p r)
    (hassign : ∀ r ∈ rows, p r = true →
      approvalsSchema.assign (columns.zip vals) (values r) = values (f r))
    (hid : ∀ r ∈ rows, p r = true → (f r).requestId = r.requestId)
    (hstorable : ∀ r ∈ rows, p r = true → (f r).Storable) :
    ∃ t', t.update columns tests (vals.map .value ++ params) =
        some (t', ((rows.filter p).map f).map values) ∧
      Represents t' (rows.map fun r => if p r then f r else r) := by
  -- the rows selected by the statement are those of the requests that `p` selects
  have hrows : (t.rows.map fun row => if selects approvalsSchema tests params row then
      approvalsSchema.assign (columns.zip vals) row else row) =
      (rows.map fun r => if p r then f r else r).map values := by
    rw [h, List.map_map, List.map_map]
    refine List.map_congr_left fun r hr => ?_
    simp only [Function.comp_apply, hp]
    by_cases hpr : p r = true
    · rw [if_pos hpr, if_pos hpr, hassign r hr hpr]
    · rw [if_neg hpr, if_neg hpr]
  have hids : (rows.map fun r => if p r then f r else r).map ApprovalRequest.requestId =
      rows.map ApprovalRequest.requestId := by
    rw [List.map_map]
    refine List.map_congr_left fun r hr => ?_
    by_cases hpr : p r = true
    · simp only [Function.comp_apply, if_pos hpr, hid r hr hpr]
    · simp only [Function.comp_apply, if_neg hpr]
  -- no key changes and every changed row fits its columns, so the statement goes through
  have hvalid : approvalsSchema.Valid (t.rows.map fun row =>
      if selects approvalsSchema tests params row then
        approvalsSchema.assign (columns.zip vals) row else row) := by
    rw [hrows]
    refine valid_map_values.mpr ⟨fun r' hr' => ?_, hids ▸ h.valid.2⟩
    obtain ⟨r, hr, rfl⟩ := List.mem_map.mp hr'
    by_cases hpr : p r = true
    · rw [if_pos hpr]
      exact hstorable r hr hpr
    · rw [if_neg hpr]
      exact h.valid.1 r hr
  -- what the statement returns are the rows it changed
  have hchanged : (t.rows.filter (selects approvalsSchema tests params)).map
      (approvalsSchema.assign (columns.zip vals)) = ((rows.filter p).map f).map values := by
    rw [h, filter_map_values hp, List.map_map, List.map_map]
    refine List.map_congr_left fun r hr => ?_
    obtain ⟨hmem, hpr⟩ := List.mem_filter.mp hr
    exact hassign r hmem hpr
  refine ⟨⟨_, hvalid⟩, ?_, hrows⟩
  rw [Table.update_eq hcolumns hvals hparams hsend hvalid, hchanged]

theorem mapM_fromRow (rows : ApprovalRows) : (rows.map values).mapM fromRow = .ok rows := by
  induction rows with
  | nil => rfl
  | cons r rows ih => rw [List.map_cons, List.mapM_cons, fromRow_values, ih]; rfl

/-- **A query** returns the requests, in some order. -/
theorem Represents.requests (h : Represents t rows) (hparams : params.length = tests.length)
    (hsend : ∀ q ∈ params, q.sendable = true)
    (hp : ∀ r, selects approvalsSchema tests params (values r) = p r) :
    ∃ found, PostgresApprovalStore.requests t tests params = .ok found ∧
      found.Perm (rows.filter p) := by
  have hquery : ∃ listed, t.select columns tests params "created_at" = some listed ∧
      listed.Perm ((t.rows.filter (selects approvalsSchema tests params)).map
        (approvalsSchema.project columns)) := Table.select_perm hparams hsend
  obtain ⟨listed, hselect, hperm⟩ := hquery
  have hproject : (t.rows.filter (selects approvalsSchema tests params)).map
      (approvalsSchema.project columns) = (rows.filter p).map values := by
    rw [h, filter_map_values hp, List.map_map]
    exact List.map_congr_left fun r _ => project_values r
  rw [hproject] at hperm
  obtain ⟨found, rfl, hfound⟩ :
      ∃ found : ApprovalRows, listed = found.map values ∧ found.Perm (rows.filter p) := by
    have hcomp := congrFun (congrFun (List.eq_map_comp_perm values) listed) (rows.filter p)
    exact cast hcomp.symm hperm
  refine ⟨found, ?_, hfound⟩
  rw [PostgresApprovalStore.requests, hselect]
  exact mapM_fromRow found

end Statements

/-! ### What the conditions select -/

theorem selects_requestId {id : String} (r : ApprovalRequest) :
    selects approvalsSchema [.eq "request_id"] [.value (.text id)] (values r) =
      decide (r.requestId = id) := by
  simp [selects, Test.passes]

theorem selects_status {id : String} {fromStatuses : List ApprovalStatus} (r : ApprovalRequest) :
    selects approvalsSchema [.eq "request_id", .any "status"]
        [.value (.text id), .texts (fromStatuses.map ApprovalStatus.str)] (values r) =
      decide (r.requestId = id ∧ r.status ∈ fromStatuses) := by
  have hmem : r.status.str ∈ fromStatuses.map ApprovalStatus.str ↔ r.status ∈ fromStatuses :=
    List.mem_map_of_injective ApprovalStatus.str_injective
  simp only [selects, List.zip_cons_cons, List.zip_nil_right, List.all_cons, List.all_nil,
    Test.passes, value_requestId, value_status, List.contains_eq_mem, Bool.and_true, hmem]
  simp

theorem selects_pending (r : ApprovalRequest) :
    selects approvalsSchema [.eq "status"] [.value (.text ApprovalStatus.pending.str)] (values r) =
      decide (r.status = .pending) := by
  simp [selects, Test.passes, ApprovalStatus.str_injective.eq_iff]

theorem selects_pending_subject {subject : String} (r : ApprovalRequest) :
    selects approvalsSchema [.eq "status", .eq "subject"]
        [.value (.text ApprovalStatus.pending.str), .value (.text subject)] (values r) =
      decide (r.status = .pending ∧ r.subject = subject) := by
  simp [selects, Test.passes, ApprovalStatus.str_injective.eq_iff]

theorem selects_overdue {now : ℤ} (r : ApprovalRequest) :
    selects approvalsSchema [.eq "status", .lt "expires_at"]
        [.value (.text ApprovalStatus.pending.str), .value (.timestamp now)] (values r) =
      InMemoryApprovalStore.isOverdue now r := by
  simp [selects, Test.passes, ApprovalStatus.str_injective.eq_iff, InMemoryApprovalStore.isOverdue]

/-! ### What the assignments make of a row -/

/-- Changing some of the columns that resolve or consume a request. -/
theorem assign_values {changes : List (String × Value)} {r r' : ApprovalRequest}
    (hasked : r.asked = r'.asked)
    (hfixed : ∀ name ∉ "status" :: allowed, changes.lookup name = none)
    (hstatus : (changes.lookup "status").getD (.text r.status.str) = .text r'.status.str)
    (hby : (changes.lookup "resolved_by").getD (textOrNull r.resolvedBy) =
      textOrNull r'.resolvedBy)
    (hat : (changes.lookup "resolved_at").getD (timestampOrNull r.resolvedAt) =
      timestampOrNull r'.resolvedAt)
    (hreason : (changes.lookup "resolution_reason").getD (textOrNull r.resolutionReason) =
      textOrNull r'.resolutionReason)
    (hconsumed : (changes.lookup "consumed_at").getD (timestampOrNull r.consumedAt) =
      timestampOrNull r'.consumedAt) :
    approvalsSchema.assign changes (values r) = values r' := by
  have hlist : approvalsSchema.assign changes (values r) =
      (columns.zip (values r)).map fun e => (changes.lookup e.1).getD e.2 := rfl
  obtain ⟨⟩ := r
  obtain ⟨⟩ := r'
  simp only [ApprovalRequest.asked, ApprovalRequest.mk.injEq] at hasked
  obtain ⟨rfl, rfl, rfl, rfl, rfl, rfl, rfl, rfl, rfl, -, -, -, -, -, rfl⟩ := hasked
  rw [hlist]
  simp only [columns, values, List.zip_cons_cons, List.zip_nil_right, List.map_cons, List.map_nil]
  rw [hstatus, hby, hat, hreason, hconsumed]
  simp [hfixed, allowed]

/-- The assignments set the columns that the changes name. -/
structure Sets (assignments : List (String × Value)) (changes : Changes) : Prop where
  names : ∀ e ∈ assignments, e.1 ∈ allowed
  nodup : (assignments.map Prod.fst).Nodup
  sendable : ∀ e ∈ assignments, (Param.value e.2).sendable = true
  resolvedBy : assignments.lookup "resolved_by" = changes.resolvedBy.map textOrNull
  resolvedAt : assignments.lookup "resolved_at" = changes.resolvedAt.map timestampOrNull
  resolutionReason :
    assignments.lookup "resolution_reason" = changes.resolutionReason.map textOrNull
  consumedAt : assignments.lookup "consumed_at" = changes.consumedAt.map timestampOrNull

section Sets

variable {assignments : List (String × Value)} {changes : Changes}

/-- A text that is set was sent. -/
theorem Sets.plain_of_lookup (h : Sets assignments changes) {name : String}
    {v : Option (Option String)} (hlookup : assignments.lookup name = v.map textOrNull)
    {old : Option String} (hold : ∀ s ∈ old.toList, plain s = true) :
    ∀ s ∈ (v.getD old).toList, plain s = true := by
  match v, hlookup with
  | none, _ => exact hold
  | some none, _ => exact fun s hs => absurd hs List.not_mem_nil
  | some (some text), hlookup =>
    intro s hs
    obtain rfl := List.mem_singleton.mp hs
    obtain ⟨before, later, hsplit, -⟩ := List.lookup_eq_some_iff.mp hlookup
    refine h.sendable (name, .text s) ?_
    rw [hsplit]
    exact List.mem_append_right _ List.mem_cons_self

theorem Sets.storable (h : Sets assignments changes) {r : ApprovalRequest}
    {status : ApprovalStatus} (hr : r.Storable) : (r.withStatus status changes).Storable := by
  have htexts := hr.texts
  simp only [ApprovalRequest.texts, List.forall_mem_append] at htexts
  obtain ⟨⟨hasked, hby⟩, hreason⟩ := htexts
  refine ⟨?_, hr.depth⟩
  simp only [ApprovalRequest.texts, List.forall_mem_append]
  exact ⟨⟨hasked, h.plain_of_lookup h.resolvedBy hby⟩,
    h.plain_of_lookup h.resolutionReason hreason⟩

/-- The assignments of a transition make the row of the moved request. -/
theorem Sets.assign (h : Sets assignments changes) {status : ApprovalStatus}
    (r : ApprovalRequest) :
    approvalsSchema.assign (("status", .text status.str) :: assignments) (values r) =
      values (r.withStatus status changes) := by
  have hother : ∀ name ≠ "status",
      (("status", Value.text status.str) :: assignments).lookup name = assignments.lookup name := by
    intro name hname
    rw [List.lookup_cons, beq_false_of_ne hname]
  refine assign_values rfl (fun name hname => ?_) rfl ?_ ?_ ?_ ?_
  · obtain ⟨hstatus, hallowed⟩ := not_or.mp (List.mem_cons.not.mp hname)
    rw [hother name hstatus, List.lookup_eq_none_iff]
    intro e he
    have hne : name ≠ e.1 := fun heq => hallowed (heq ▸ h.names e he)
    exact bne_iff_ne.mpr hne
  · rw [hother _ (by decide), h.resolvedBy, Option.getD_map]
    rfl
  · rw [hother _ (by decide), h.resolvedAt, Option.getD_map]
    rfl
  · rw [hother _ (by decide), h.resolutionReason, Option.getD_map]
    rfl
  · rw [hother _ (by decide), h.consumedAt, Option.getD_map]
    rfl

end Sets

/-! ### One call -/

section Calls

variable {t : ApprovalTable} {rows : ApprovalRows}

/-- The same reply, and a table that still represents the requests. -/
structure Alike (p : ApprovalRows × ApprovalReply) (q : ApprovalTable × ApprovalReply) :
    Prop where
  reply : p.2.Agree q.2
  represents : Represents q.1 p.1

theorem alike_create (h : Represents t rows) {r : ApprovalRequest} (hr : r.Storable) :
    Alike (memoryApprovals.step rows (.create r)) (postgresApprovals.step t (.create r)) := by
  have hinsert : t.insert columns (values r) = Table.commit ((rows ++ [r]).map values) := by
    rw [List.map_append, ← h]
    exact Table.insert_names nodup_columns (holds_values.mpr hr)
  have hids : ((rows ++ [r]).map ApprovalRequest.requestId).Nodup ↔
      InMemoryApprovalStore.get rows r.requestId = none := Rows.nodup_append h.valid.2
  change Alike (InMemoryApprovalStore.keeping rows (InMemoryApprovalStore.create rows r))
    ((create t r).map id .done)
  rw [create, hinsert]
  -- both stores refuse an id that is there: the one looks, the other has the primary key
  match hget : InMemoryApprovalStore.get rows r.requestId with
  | some old =>
    have hdup : ¬approvalsSchema.Valid ((rows ++ [r]).map values) := by
      intro hvalid
      rw [valid_map_values, hids, hget] at hvalid
      exact nomatch hvalid.2
    have hraise : InMemoryApprovalStore.create rows r =
        .error (HocClass.approvalStoreUnavailable.error "duplicate request id") := by
      rw [InMemoryApprovalStore.create, hget]
      rfl
    rw [Table.commit_of_not_valid hdup, hraise]
    exact ⟨.done (.error ⟨rfl, rfl⟩), h⟩
  | none =>
    have hvalid : approvalsSchema.Valid ((rows ++ [r]).map values) := by
      refine valid_map_values.mpr ⟨fun x hx => ?_, hids.mpr hget⟩
      rcases List.mem_append.mp hx with hold | hnew
      · exact h.valid.1 x hold
      · obtain rfl := List.mem_singleton.mp hnew
        exact hr
    rw [Table.commit_of_valid hvalid, InMemoryApprovalStore.create_eq_ok.mpr ⟨hget, rfl⟩]
    exact ⟨.done (.ok rfl), rfl⟩

theorem alike_get (h : Represents t rows) {id : String} (hid : plain id = true) :
    Alike (memoryApprovals.step rows (.get id)) (postgresApprovals.step t (.get id)) := by
  have hquery : ∃ found, requests t [.eq "request_id"] [.value (.text id)] = .ok found ∧
      found.Perm (rows.filter fun r => decide (r.requestId = id)) := by
    refine h.requests rfl (fun q hq => ?_) selects_requestId
    obtain rfl := List.mem_singleton.mp hq
    exact hid
  obtain ⟨found, hfound, hperm⟩ := hquery
  have hkey : (rows.filter fun r => decide (r.requestId = id)) =
      (InMemoryApprovalStore.get rows id).toList := Rows.filter_key h.valid.2
  -- the primary key leaves one row at most, whatever order the database lists them in
  have hhead : get t id = .ok (InMemoryApprovalStore.get rows id) := by
    rw [get, hfound]
    rw [hkey] at hperm
    match hget : InMemoryApprovalStore.get rows id with
    | none =>
      rw [hget] at hperm
      rw [hperm.eq_nil]
      rfl
    | some r =>
      rw [hget] at hperm
      rw [hperm.eq_singleton]
      rfl
  refine ⟨?_, h⟩
  change ApprovalReply.Agree (.row (.ok _)) (.row (get t id))
  rw [hhead]
  exact .row (.ok rfl)

theorem alike_listPending (h : Represents t rows) {subject : Option String}
    (hsubject : ∀ s, subject = some s → plain s = true) :
    Alike (memoryApprovals.step rows (.listPending subject))
      (postgresApprovals.step t (.listPending subject)) := by
  -- the same rows, in an order of their own
  have hlist : ∃ found, listPending t subject = .ok found ∧
      found.Perm (InMemoryApprovalStore.listPending rows subject) := by
    match subject, hsubject with
    | none, _ =>
      have hfilter : InMemoryApprovalStore.listPending rows none =
          rows.filter fun r => decide (r.status = .pending) :=
        List.filter_congr fun r _ => by simp
      rw [hfilter]
      refine h.requests rfl (fun q hq => ?_) selects_pending
      obtain rfl := List.mem_singleton.mp hq
      exact plain_str .pending
    | some subject, hsubject =>
      have hfilter : InMemoryApprovalStore.listPending rows (some subject) =
          rows.filter fun r => decide (r.status = .pending ∧ r.subject = subject) :=
        List.filter_congr fun r _ => by simp [eq_comm]
      rw [hfilter]
      refine h.requests rfl (fun q hq => ?_) selects_pending_subject
      rcases List.mem_cons.mp hq with rfl | hq
      · exact plain_str .pending
      · obtain rfl := List.mem_singleton.mp hq
        exact hsubject subject rfl
  obtain ⟨found, hfound, hperm⟩ := hlist
  refine ⟨?_, h⟩
  change ApprovalReply.Agree (.rows (.ok _)) (.rows (listPending t subject))
  rw [hfound]
  exact .rows (.ok hperm.symm)

/-- **An update with a derived row**: the request in memory and the row in the table were asked
alike, and the five columns are the rest. -/
theorem alike_update (h : Represents t rows) {cur r : ApprovalRequest} (hr : r.Storable)
    (hcur : InMemoryApprovalStore.get rows r.requestId = some cur) (hasked : cur.asked = r.asked) :
    Alike (memoryApprovals.step rows (.update r)) (postgresApprovals.step t (.update r)) := by
  -- the key is unique, so the statement finds the one row that the dictionary holds
  have hsame : ∀ x ∈ rows, x.requestId = r.requestId → x = cur := fun x hx hid =>
    Rows.eq_of_find h.valid.2 hcur hx hid
  have hrow := Table.sendable_of_mem (holds_values.mpr hr)
  -- it assigns five columns; the others are equal because the request is the same one
  have hstatement : ∃ t', t.update
      ["status", "resolved_by", "resolved_at", "resolution_reason", "consumed_at"]
      [.eq "request_id"]
      ([.text r.status.str, textOrNull r.resolvedBy, timestampOrNull r.resolvedAt,
        textOrNull r.resolutionReason, timestampOrNull r.consumedAt].map Param.value ++
          [.value (.text r.requestId)]) =
        some (t', ((rows.filter fun x => decide (x.requestId = r.requestId)).map
          fun _ => r).map values) ∧
      Represents t' (rows.map fun x => if decide (x.requestId = r.requestId) then r else x) := by
    refine h.update (by decide) rfl rfl (fun q hq => ?_) selects_requestId
      (fun x hx hpick => ?_) (fun x _ hpick => (of_decide_eq_true hpick).symm) fun _ _ _ => hr
    · -- every parameter is a value of the row
      have hmem : q ∈ (values r).map Param.value := by
        simp only [List.map_cons, List.map_nil, List.cons_append, List.nil_append, List.mem_cons,
          List.not_mem_nil, or_false] at hq
        simp only [values, List.map_cons, List.map_nil, List.mem_cons]
        tauto
      obtain ⟨v, hv, rfl⟩ := List.mem_map.mp hmem
      exact hrow v hv
    · obtain rfl := hsame x hx (of_decide_eq_true hpick)
      refine assign_values hasked (fun name hname => ?_) rfl rfl rfl rfl rfl
      refine List.lookup_eq_none_iff.mpr fun e he => bne_iff_ne.mpr fun heq => hname ?_
      exact heq ▸ (List.of_mem_zip he).1
  obtain ⟨t', hupdate, hrep⟩ := hstatement
  -- the dictionary puts the whole request in the place of the old one
  have hmemory : InMemoryApprovalStore.update rows r =
      .ok (rows.map fun x => if decide (x.requestId = r.requestId) then r else x) := by
    refine InMemoryApprovalStore.update_eq_ok.mpr ⟨by rw [hcur]; rfl, ?_⟩
    refine List.map_congr_left fun x _ => ?_
    simp only [decide_eq_true_iff]
  change Alike (InMemoryApprovalStore.keeping rows (InMemoryApprovalStore.update rows r))
    ((update t r).map id .done)
  have hpostgres : update t r = (t', .ok ()) := by
    simp only [List.map_cons, List.map_nil, List.cons_append, List.nil_append] at hupdate
    rw [update, hupdate]
  rw [hmemory, hpostgres]
  exact ⟨.done (.ok rfl), hrep⟩

/-- **A transition**, whatever columns it sets: the one row that the conditions select is the
request that memory moves. -/
theorem represents_transition (h : Represents t rows) {id : String} (hid : plain id = true)
    (fromStatuses : List ApprovalStatus) (toStatus : ApprovalStatus)
    {assignments : List (String × Value)} {changes : Changes} (hsets : Sets assignments changes) :
    ∃ t', transition t id fromStatuses toStatus assignments =
        (t', .ok (InMemoryApprovalStore.transition rows id fromStatuses toStatus changes).2) ∧
      Represents t'
        (InMemoryApprovalStore.transition rows id fromStatuses toStatus changes).1 := by
  have hknown : (assignments.map Prod.fst).filter (fun name => decide (name ∉ allowed)) = [] := by
    refine List.filter_eq_nil_iff.mpr fun name hname => ?_
    obtain ⟨e, he, rfl⟩ := List.mem_map.mp hname
    exact fun hnot => of_decide_eq_true hnot (hsets.names e he)
  have hcolumns : ("status" :: assignments.map Prod.fst).Nodup := by
    refine List.nodup_cons.mpr ⟨fun hmem => ?_, hsets.nodup⟩
    obtain ⟨e, he, hname⟩ := List.mem_map.mp hmem
    exact absurd (hname ▸ hsets.names e he) (by decide)
  have hzip : ("status" :: assignments.map Prod.fst).zip
      (.text toStatus.str :: assignments.map Prod.snd) =
      ("status", .text toStatus.str) :: assignments := by
    rw [List.zip_cons_cons, List.zip_map', List.map_id']
  have hparams : (.value (.text toStatus.str) :: assignments.map (Param.value ·.2) ++
      [.value (.text id), .texts (fromStatuses.map ApprovalStatus.str)]) =
      (Value.text toStatus.str :: assignments.map Prod.snd).map Param.value ++
        [.value (.text id), .texts (fromStatuses.map ApprovalStatus.str)] := by
    rw [List.map_cons, List.map_map]
    rfl
  have hstatement : ∃ t', t.update ("status" :: assignments.map Prod.fst)
      [.eq "request_id", .any "status"]
      (.value (.text toStatus.str) :: assignments.map (Param.value ·.2) ++
        [.value (.text id), .texts (fromStatuses.map ApprovalStatus.str)]) =
        some (t', ((rows.filter fun r => decide (r.requestId = id ∧ r.status ∈ fromStatuses)).map
          fun r => r.withStatus toStatus changes).map values) ∧
      Represents t' (rows.map fun r => if decide (r.requestId = id ∧ r.status ∈ fromStatuses) then
        r.withStatus toStatus changes else r) := by
    rw [hparams]
    refine h.update hcolumns (by simp) rfl (fun q hq => ?_) selects_status
      (fun r _ _ => ?_) (fun _ _ _ => rfl) fun r hr _ => hsets.storable (h.valid.1 r hr)
    · rcases List.mem_append.mp hq with hvalue | htest
      · obtain ⟨v, hv, rfl⟩ := List.mem_map.mp hvalue
        rcases List.mem_cons.mp hv with rfl | hv
        · exact plain_str toStatus
        · obtain ⟨e, he, rfl⟩ := List.mem_map.mp hv
          exact hsets.sendable e he
      · rcases List.mem_cons.mp htest with rfl | htest
        · exact hid
        · obtain rfl := List.mem_singleton.mp htest
          refine List.all_eq_true.mpr fun text htext => ?_
          obtain ⟨status, -, rfl⟩ := List.mem_map.mp htext
          exact plain_str status
    · rw [hzip]
      exact hsets.assign r
  obtain ⟨t', hupdate, hrep⟩ := hstatement
  -- the conditions select the request of the id, if its status is among those asked for
  have hfilter : (rows.filter fun r => decide (r.requestId = id ∧ r.status ∈ fromStatuses)) =
      (InMemoryApprovalStore.get rows id).toList.filter fun r => r.status ∈ fromStatuses := by
    have hkey : (rows.filter fun r => decide (r.requestId = id)) =
        (InMemoryApprovalStore.get rows id).toList := Rows.filter_key h.valid.2
    rw [← hkey, List.filter_filter]
    refine List.filter_congr fun r _ => ?_
    rw [Bool.decide_and, Bool.and_comm]
  refine ⟨t', ?_⟩
  rw [transition]
  simp only [hknown, ne_eq, not_true_eq_false, if_false, hupdate]
  by_cases hpick : ∃ cur, InMemoryApprovalStore.get rows id = some cur ∧ cur.status ∈ fromStatuses
  · obtain ⟨cur, hget, hfrom⟩ := hpick
    have hid' : cur.requestId = id := InMemoryApprovalStore.requestId_of_get hget
    have hmoved : InMemoryApprovalStore.transition rows id fromStatuses toStatus changes =
        (rows.map fun r => if decide (r.requestId = id ∧ r.status ∈ fromStatuses) then
          r.withStatus toStatus changes else r, some (cur.withStatus toStatus changes)) := by
      have hput : Rows.put ApprovalRequest.requestId rows (cur.withStatus toStatus changes) =
          rows.map fun r => if decide (r.requestId = id ∧ r.status ∈ fromStatuses) then
            r.withStatus toStatus changes else r := by
        refine Rows.put_eq_map (f := fun r => r.withStatus toStatus changes) h.valid.2 hget ?_
          (fun r hr => ?_) hid'
        · exact decide_eq_true ⟨hid', hfrom⟩
        · exact (of_decide_eq_true hr).1
      rw [InMemoryApprovalStore.transition, hget]
      simp only [if_pos hfrom]
      exact Prod.ext hput rfl
    rw [hmoved]
    refine ⟨?_, hrep⟩
    have hone : (rows.filter fun r => decide (r.requestId = id ∧ r.status ∈ fromStatuses)) =
        [cur] := by
      rw [hfilter, hget]
      simp [hfrom]
    simp only [hone, List.map_cons, List.map_nil, List.head?_cons, project_values, fromRow_values]
    rfl
  · have hstays : InMemoryApprovalStore.transition rows id fromStatuses toStatus changes =
        (rows, none) := by
      refine InMemoryApprovalStore.transition_eq.mpr (.inl ⟨rfl, rfl, fun r hget hfrom => ?_⟩)
      exact hpick ⟨r, hget, hfrom⟩
    have hnone : ∀ r ∈ rows, ¬ decide (r.requestId = id ∧ r.status ∈ fromStatuses) = true := by
      refine List.filter_eq_nil_iff.mp (hfilter.trans (List.filter_eq_nil_iff.mpr ?_))
      intro r hr hfrom
      exact hpick ⟨r, Option.mem_toList.mp hr, of_decide_eq_true hfrom⟩
    have hmap : (rows.map fun r => if decide (r.requestId = id ∧ r.status ∈ fromStatuses) then
        r.withStatus toStatus changes else r) = rows := by
      refine Eq.trans (List.map_congr_left fun r hr => if_neg (hnone r hr)) ?_
      exact List.map_id' rows
    rw [hstays]
    rw [hmap] at hrep
    refine ⟨?_, hrep⟩
    simp only [List.filter_eq_nil_iff.mpr hnone, List.map_nil, List.head?_nil]

/-- What both stores make of a transition, as the calls reply it. -/
theorem alike_moved {s : ApprovalRows × Option ApprovalRequest}
    {s' : ApprovalTable × Except Exn (Option ApprovalRequest)} {t' : ApprovalTable}
    (hpostgres : s' = (t', .ok s.2)) (hrep : Represents t' s.1) :
    Alike (s.1, .row (.ok s.2)) (s'.map (fun t => t) .row) := by
  rw [hpostgres]
  exact ⟨.row (.ok rfl), hrep⟩

theorem alike_expirePending (h : Represents t rows) {now : ℤ} :
    Alike (memoryApprovals.step rows (.expirePending now))
      (postgresApprovals.step t (.expirePending now)) := by
  -- the statement compares with `<`, as `isOverdue` does, and sets the status alone
  have hstatement : ∃ t', t.update ["status"] [.eq "status", .lt "expires_at"]
      ([.text ApprovalStatus.expired.str].map Param.value ++
        [.value (.text ApprovalStatus.pending.str), .value (.timestamp now)]) =
        some (t', ((rows.filter (InMemoryApprovalStore.isOverdue now)).map
          fun r => r.withStatus .expired {}).map values) ∧
      Represents t' (InMemoryApprovalStore.expirePending rows now).1 := by
    have hsets : Sets [] {} :=
      { names := fun e he => absurd he List.not_mem_nil
        nodup := .nil
        sendable := fun e he => absurd he List.not_mem_nil
        resolvedBy := rfl
        resolvedAt := rfl
        resolutionReason := rfl
        consumedAt := rfl }
    refine h.update (by decide) rfl rfl (fun q hq => ?_) selects_overdue
      (fun r _ _ => hsets.assign r) (fun _ _ _ => rfl) fun r hr _ => hsets.storable (h.valid.1 r hr)
    simp only [List.map_cons, List.map_nil, List.cons_append, List.nil_append, List.mem_cons,
      List.not_mem_nil, or_false] at hq
    rcases hq with rfl | rfl | rfl
    · exact plain_str .expired
    · exact plain_str .pending
    · rfl
  obtain ⟨t', hupdate, hrep⟩ := hstatement
  have hpostgres : expirePending t now =
      (t', .ok (InMemoryApprovalStore.expirePending rows now).2) := by
    simp only [List.map_cons, List.map_nil, List.cons_append, List.nil_append] at hupdate
    simp only [expirePending, hupdate, List.length_map, InMemoryApprovalStore.expirePending]
  change Alike (_, .count (.ok _)) ((expirePending t now).map id .count)
  rw [hpostgres]
  exact ⟨.count (.ok rfl), hrep⟩

/-- The columns that the fields of a call name are the ones that its changes set. -/
theorem lookup_assignments {α : Type} {fields : List ApprovalField} {name : String}
    {encode : α → Value} {pick : ApprovalField → Option α}
    (hpick : ∀ f, (if name == f.name then some f.value else none) = (pick f).map encode) :
    (fields.map fun f => (f.name, f.value)).lookup name = (fields.findSome? pick).map encode := by
  induction fields with
  | nil => rfl
  | cons f fields ih =>
    have hf := hpick f
    rw [List.map_cons, List.lookup_cons, List.findSome?_cons, ih]
    by_cases hname : (name == f.name) = true
    · rw [if_pos hname] at hf
      obtain ⟨v, hv, hvalue⟩ := Option.map_eq_some_iff.mp hf.symm
      simp only [hname, hv, ← hvalue, Option.map_some]
    · rw [if_neg hname] at hf
      have hnone : pick f = none := Option.map_eq_none_iff.mp hf.symm
      simp only [eq_false_of_ne_true hname, hnone]

theorem sets_assignments {fields : ApprovalFields}
    (hsend : ∀ f ∈ fields.list, (Param.value f.value).sendable = true) :
    Sets fields.assignments fields.changes where
  names := by
    intro e he
    obtain ⟨f, -, rfl⟩ := List.mem_map.mp he
    cases f <;> simp [ApprovalField.name, allowed]
  nodup := by
    rw [ApprovalFields.assignments, List.map_map]
    exact fields.nodup
  sendable := by
    intro e he
    obtain ⟨f, hf, rfl⟩ := List.mem_map.mp he
    exact hsend f hf
  resolvedBy := lookup_assignments fun f => by cases f <;> rfl
  resolvedAt := lookup_assignments fun f => by cases f <;> rfl
  resolutionReason := lookup_assignments fun f => by cases f <;> rfl
  consumedAt := lookup_assignments fun f => by cases f <;> rfl

theorem sets_consumed {now : ℤ} :
    Sets [("consumed_at", .timestamp now)] { consumedAt := some (some now) } where
  names := by simp [allowed]
  nodup := List.nodup_singleton _
  sendable := by simp [Param.sendable]
  resolvedBy := rfl
  resolvedAt := rfl
  resolutionReason := rfl
  consumedAt := rfl

end Calls

end PostgresApprovalStore

/-! ### What was asked stays -/

namespace InMemoryApprovalStore

variable {rows : ApprovalRows}

/-- What was asked under the id. -/
def askedAt (rows : ApprovalRows) (id : String) : Option ApprovalRequest :=
  (get rows id).map ApprovalRequest.asked

theorem askedAt_put {r a : ApprovalRequest} {id : String}
    (hr : askedAt rows r.requestId = some r.asked) (h : askedAt rows id = some a) :
    askedAt (put rows r) id = some a := by
  unfold askedAt at hr h ⊢
  rw [get_put]
  by_cases hid : id = r.requestId
  · subst hid
    rw [if_pos rfl, Option.map_map]
    obtain ⟨cur, hcur, hasked⟩ := Option.map_eq_some_iff.mp hr
    rw [hcur] at h ⊢
    exact (congrArg some hasked).symm.trans h
  · rw [if_neg hid]
    exact h

theorem askedAt_transition {a : ApprovalRequest} {id id' : String}
    {fromStatuses : List ApprovalStatus} {toStatus : ApprovalStatus} {changes : Changes}
    (h : askedAt rows id = some a) :
    askedAt (transition rows id' fromStatuses toStatus changes).1 id = some a := by
  rcases transition_eq.mp
    (Prod.mk.eta (p := transition rows id' fromStatuses toStatus changes)).symm
    with ⟨-, hsame, -⟩ | ⟨cur, hcur, -, -, hput⟩
  · rwa [hsame]
  · rw [hput]
    refine askedAt_put ?_ h
    have hid : cur.requestId = id' := requestId_of_get hcur
    rw [ApprovalRequest.withStatus_requestId, ApprovalRequest.asked_withStatus, hid, askedAt, hcur]
    rfl

/-- **No call changes what was asked**, if an update is called with a row that was asked as the
stored one. -/
theorem askedAt_step {c : ApprovalCall} {a : ApprovalRequest} {id : String}
    (hupdate : ∀ r, c = .update r → askedAt rows r.requestId = some r.asked)
    (h : askedAt rows id = some a) : askedAt (memoryApprovals.step rows c).1 id = some a := by
  -- a create adds another request, an update keeps what was asked, and the rest moves statuses
  cases c with
  | create r =>
    change askedAt (keeping rows (create rows r)).1 id = some a
    match hcreate : create rows r with
    | .error e => exact h
    | .ok rows' =>
      obtain ⟨hnew, rfl⟩ := create_eq_ok.mp hcreate
      change askedAt (rows ++ [r]) id = some a
      have hother : id ≠ r.requestId := by
        rintro rfl
        rw [askedAt, hnew] at h
        exact nomatch h
      rw [askedAt, get_append hnew, if_neg hother]
      exact h
  | get id' => exact h
  | update r =>
    change askedAt (keeping rows (update rows r)).1 id = some a
    match hupdated : update rows r with
    | .error e => exact h
    | .ok rows' =>
      obtain ⟨-, rfl⟩ := update_eq_ok.mp hupdated
      exact askedAt_put (hupdate r rfl) h
  | transition id' fromStatuses toStatus fields => exact askedAt_transition h
  | consume id' now => exact askedAt_transition h
  | listPending subject => exact h
  | expirePending now =>
    change askedAt (expirePending rows now).1 id = some a
    unfold askedAt at h ⊢
    rw [get_expirePending, Option.map_map, ← h]
    congr 1
    funext r
    by_cases hover : isOverdue now r = true
    · simp [hover]
    · simp [hover]

end InMemoryApprovalStore

/-! ### All calls -/

open InMemoryApprovalStore PostgresApprovalStore

/-- A row that `get` returned was asked as the stored one is. -/
def Recalled (h : List (ApprovalCall × ApprovalReply)) (rows : ApprovalRows) : Prop :=
  ∀ id row, (ApprovalCall.get id, ApprovalReply.row (.ok (some row))) ∈ h →
    askedAt rows row.requestId = some row.asked

theorem UpdatesDerived.askedAt {h : List (ApprovalCall × ApprovalReply)} {c : ApprovalCall}
    {rows : ApprovalRows} (hc : UpdatesDerived h c) (hrecalled : Recalled h rows) :
    ∀ r, c = .update r → askedAt rows r.requestId = some r.asked := by
  intro r heq
  obtain ⟨id, row, status, changes, hmem, rfl⟩ := hc r heq
  exact hrecalled id row hmem

theorem recalled_step {h : List (ApprovalCall × ApprovalReply)} {c : ApprovalCall}
    {rows : ApprovalRows} (hc : UpdatesDerived h c) (hrecalled : Recalled h rows) :
    Recalled (h ++ [(c, (memoryApprovals.step rows c).2)]) (memoryApprovals.step rows c).1 := by
  intro id row hmem
  have hupdate := hc.askedAt hrecalled
  rcases List.mem_append.mp hmem with hold | hnow
  · exact askedAt_step hupdate (hrecalled id row hold)
  · obtain ⟨rfl, hreply⟩ := Prod.ext_iff.mp (List.mem_singleton.mp hnow)
    -- the call is this `get`
    have hget : get rows id = some row := by
      injection hreply with hreply
      injection hreply with hreply
      exact hreply.symm
    change InMemoryApprovalStore.askedAt rows row.requestId = some row.asked
    rw [InMemoryApprovalStore.askedAt, requestId_of_get hget, hget]
    rfl

/-- **One call**, of a caller that keeps the discipline. -/
theorem alike_step {h : List (ApprovalCall × ApprovalReply)} {c : ApprovalCall}
    {rows : ApprovalRows} {t : ApprovalTable} (hrep : Represents t rows)
    (hrecalled : Recalled h rows) (hc : UpdatesDerived h c) (hstorable : c.Storable) :
    Alike (memoryApprovals.step rows c) (postgresApprovals.step t c) := by
  cases c with
  | create r => exact alike_create hrep hstorable
  | get id => exact alike_get hrep hstorable
  | update r =>
    obtain ⟨cur, hcur, hasked⟩ := Option.map_eq_some_iff.mp (hc.askedAt hrecalled r rfl)
    exact alike_update hrep hstorable hcur hasked
  | transition id fromStatuses toStatus fields =>
    obtain ⟨hid, hsend⟩ := hstorable
    obtain ⟨t', hpostgres, hrep'⟩ :=
      represents_transition hrep hid fromStatuses toStatus (sets_assignments hsend)
    exact alike_moved hpostgres hrep'
  | consume id now =>
    obtain ⟨t', hpostgres, hrep'⟩ :=
      represents_transition hrep hstorable [.approved] .consumed sets_consumed
    exact alike_moved hpostgres hrep'
  | listPending subject => exact alike_listPending hrep hstorable
  | expirePending now => exact alike_expirePending hrep

/-- The memory of one store is the table of the other. -/
def approvalsSimulation :
    memoryApprovals.Simulation postgresApprovals
      (fun h c => UpdatesDerived h c ∧ c.Storable) ApprovalReply.Agree where
  Rel h rows t := Represents t rows ∧ Recalled h rows
  init := ⟨rfl, fun _ _ h => absurd h List.not_mem_nil⟩
  step := by
    rintro h rows t c ⟨hrep, hrecalled⟩ ⟨hc, hstorable⟩
    have halike := alike_step hrep hrecalled hc hstorable
    exact ⟨halike.reply, halike.represents, recalled_step hc hrecalled⟩

/-- **The two stores answer alike, and hold the same requests**, for every sequence of calls in
which an update is called with a derived row only and the columns hold the values. -/
theorem approval_stores_agree {calls : List ApprovalCall}
    (hderived : memoryApprovals.Disciplined UpdatesDerived calls)
    (hstorable : ∀ c ∈ calls, c.Storable) :
    List.Forall₂ ApprovalReply.Agree (memoryApprovals.answers calls)
        (postgresApprovals.answers calls) ∧
      (postgresApprovals.after calls).rows.mapM fromRow = .ok (memoryApprovals.after calls) := by
  have hallowed : memoryApprovals.Disciplined
      (fun h c => UpdatesDerived h c ∧ c.Storable) calls := by
    intro past c later hcalls
    refine ⟨hderived past c later hcalls, hstorable c ?_⟩
    rw [hcalls]
    exact List.mem_append_right _ List.mem_cons_self
  obtain ⟨hanswers, hrep, -⟩ := approvalsSimulation.run hallowed
  refine ⟨hanswers, ?_⟩
  have hrows : (postgresApprovals.after calls).rows =
    (memoryApprovals.after calls : ApprovalRows).map values := hrep
  rw [hrows]
  exact mapM_fromRow _

/-- A request to run a tool. -/
def pendingRequest : ApprovalRequest where
  requestId := "r1"
  subject := "user:alice"
  actor := "agent:mailer"
  delegationDepth := 1
  tool := "tool:send_mail"
  argsHash := "5feceb66"
  decisionId := "d1"
  createdAt := 0
  expiresAt := 900

/-- The call writes a whole row. -/
def ApprovalCall.isUpdate : ApprovalCall → Bool
  | .update _ => true
  | _ => false

theorem updatesDerived_of_not_isUpdate {h : List (ApprovalCall × ApprovalReply)} {c : ApprovalCall}
    (hc : c.isUpdate = false) : UpdatesDerived h c := by
  rintro r rfl
  exact nomatch hc

/-- A row that was read while the request was pending is written back after its approval. -/
theorem approval_stores_agree_stale :
    let calls : List ApprovalCall :=
      [.create pendingRequest, .get "r1",
        .transition "r1" [.pending] .approved ⟨[.resolvedBy (some "user:bob")], by decide⟩,
        .update (pendingRequest.withStatus .expired {}), .listPending none]
    List.Forall₂ ApprovalReply.Agree (memoryApprovals.answers calls)
        (postgresApprovals.answers calls) ∧
      (postgresApprovals.after calls).rows.mapM fromRow = .ok (memoryApprovals.after calls) := by
  refine approval_stores_agree ?_ ?_
  · -- the request that is written back was returned by the `get` before the transition
    have hread : memoryApprovals.Disciplined UpdatesDerived ([] ++ [.create pendingRequest] ++
        [.get "r1"] ++
        [.transition "r1" [.pending] .approved ⟨[.resolvedBy (some "user:bob")], by decide⟩]) :=
      ((Machine.disciplined_nil.concat (updatesDerived_of_not_isUpdate rfl)).concat
        (updatesDerived_of_not_isUpdate rfl)).concat (updatesDerived_of_not_isUpdate rfl)
    have hwrite : UpdatesDerived (memoryApprovals.history ([] ++ [.create pendingRequest] ++
        [.get "r1"] ++
        [.transition "r1" [.pending] .approved ⟨[.resolvedBy (some "user:bob")], by decide⟩]))
        (.update (pendingRequest.withStatus .expired {})) := by
      rintro request heq
      obtain rfl := ApprovalCall.update.inj heq
      exact ⟨"r1", pendingRequest, .expired, {}, .tail _ (.head _), rfl⟩
    exact (hread.concat hwrite).concat (updatesDerived_of_not_isUpdate rfl)
  · have hpending : pendingRequest.Storable := ⟨by decide, by decide⟩
    have hexpired : (pendingRequest.withStatus .expired {}).Storable := ⟨by decide, by decide⟩
    have hid : plain "r1" = true := by decide
    have hfields : ∀ f ∈ [ApprovalField.resolvedBy (some "user:bob")],
        (Param.value f.value).sendable = true := by decide
    exact List.forall_mem_cons.mpr ⟨hpending, List.forall_mem_cons.mpr ⟨hid,
      List.forall_mem_cons.mpr ⟨⟨hid, hfields⟩, List.forall_mem_cons.mpr ⟨hexpired,
        List.forall_mem_singleton.mpr nofun⟩⟩⟩⟩

/-- The call raised. -/
def ApprovalReply.raised : ApprovalReply → Bool
  | .done (.error _) | .row (.error _) | .rows (.error _) | .count (.error _) => true
  | _ => false

theorem ApprovalReply.Agree.raised {a b : ApprovalReply} (h : a.Agree b) : a.raised = b.raised := by
  cases h with
  | done h => cases h <;> rfl
  | row h => cases h <;> rfl
  | rows h => cases h <;> rfl
  | count h => cases h <;> rfl

theorem raised_of_agree {l l' : List ApprovalReply} (h : List.Forall₂ ApprovalReply.Agree l l') :
    l.map ApprovalReply.raised = l'.map ApprovalReply.raised := by
  induction h with
  | nil => rfl
  | cons hab _ ih => rw [List.map_cons, List.map_cons, hab.raised, ih]

/-- A rejection whose reason has a U+0000. -/
def nulReason : List ApprovalCall :=
  [.create pendingRequest,
    .transition "r1" [.pending] .rejected
      ⟨[.resolutionReason (some (String.singleton (Char.ofNat 0)))], by decide⟩]

/-- A request from a chain that is longer than an `INTEGER` counts. -/
def deepChain : List ApprovalCall := [.create { pendingRequest with delegationDepth := 2 ^ 31 }]

def createdTwice : List ApprovalCall := [.create pendingRequest, .create pendingRequest]

/-- Where the stores differ: on values that the columns do not hold, and in the text of an
exception. -/
theorem approval_stores_differ :
    (memoryApprovals.Disciplined UpdatesDerived nulReason ∧
      ¬List.Forall₂ ApprovalReply.Agree (memoryApprovals.answers nulReason)
        (postgresApprovals.answers nulReason)) ∧
    (memoryApprovals.Disciplined UpdatesDerived deepChain ∧
      ¬List.Forall₂ ApprovalReply.Agree (memoryApprovals.answers deepChain)
        (postgresApprovals.answers deepChain)) ∧
    memoryApprovals.Disciplined UpdatesDerived createdTwice ∧
      memoryApprovals.answers createdTwice ≠ postgresApprovals.answers createdTwice := by
  refine ⟨⟨?_, ?_⟩, ⟨?_, ?_⟩, ?_, ?_⟩
  · exact (Machine.disciplined_nil.concat (updatesDerived_of_not_isUpdate rfl)).concat
      (updatesDerived_of_not_isUpdate rfl)
  · intro h
    exact absurd (raised_of_agree h) (by decide +kernel)
  · exact Machine.disciplined_nil.concat (updatesDerived_of_not_isUpdate rfl)
  · intro h
    exact absurd (raised_of_agree h) (by decide +kernel)
  · exact (Machine.disciplined_nil.concat (updatesDerived_of_not_isUpdate rfl)).concat
      (updatesDerived_of_not_isUpdate rfl)
  · decide +kernel

end HeadOfContext
