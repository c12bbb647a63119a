import HeadOfContext.Actions.Approvals
import HeadOfContext.Framework.PyText
import HeadOfContext.Framework.Sql

/-!
# The approval store in PostgreSQL

`PostgresApprovalStore` keeps one row of 15 columns for each request. An operation is one
statement, so it leaves the table as it was when the database refuses it; the refusal is raised
as the unavailability of the store, with the text of the operation. What a statement returns is
read back by `fromRow`, column by column.

A lost connection is not modelled: the database refuses a statement for its values or for a
constraint of the table only.
-/

namespace HeadOfContext

open Except Sql

/-- `APPROVALS_SCHEMA`. -/
def approvalsSchema : Schema where
  columns :=
    [{ name := "request_id", type := .text },
     { name := "subject", type := .text },
     { name := "actor", type := .text },
     { name := "delegation_depth", type := .integer },
     { name := "tool", type := .text },
     { name := "args_hash", type := .text },
     { name := "decision_id", type := .text },
     { name := "created_at", type := .timestamptz },
     { name := "expires_at", type := .timestamptz },
     { name := "status", type := .text },
     { name := "resolved_by", type := .text, nullable := true },
     { name := "resolved_at", type := .timestamptz, nullable := true },
     { name := "resolution_reason", type := .text, nullable := true },
     { name := "consumed_at", type := .timestamptz, nullable := true },
     { name := "approval_reason", type := .text }]
  key := "request_id"

/-- `approval_requests`. -/
abbrev ApprovalTable := Table approvalsSchema

/-- `ApprovalStatus(value)`. -/
def ApprovalStatus.ofStr (value : String) : Except Exn ApprovalStatus :=
  match value with
  | "pending" => .ok .pending
  | "approved" => .ok .approved
  | "rejected" => .ok .rejected
  | "expired" => .ok .expired
  | "consumed" => .ok .consumed
  | _ => .error (.other "ValueError")

@[simp] theorem ApprovalStatus.ofStr_str (status : ApprovalStatus) :
    ofStr status.str = .ok status := by
  cases status <;> rfl

theorem ApprovalStatus.str_injective : Function.Injective ApprovalStatus.str := by
  intro a b h
  have hread := congrArg ofStr h
  rw [ofStr_str, ofStr_str] at hread
  exact Except.ok.inj hread

namespace PostgresApprovalStore

/-- `_COLUMNS`. -/
def columns : List String :=
  ["request_id", "subject", "actor", "delegation_depth", "tool", "args_hash", "decision_id",
    "created_at", "expires_at", "status", "resolved_by", "resolved_at", "resolution_reason",
    "consumed_at", "approval_reason"]

/-- A `str | None` as a parameter. -/
def textOrNull : Option String → Value
  | some s => .text s
  | none => .null

/-- A `datetime | None` as a parameter. -/
def timestampOrNull : Option ℤ → Value
  | some t => .timestamp t
  | none => .null

/-- `_values`. -/
def values (r : ApprovalRequest) : List Value :=
  [.text r.requestId, .text r.subject, .text r.actor, .int r.delegationDepth, .text r.tool,
    .text r.argsHash, .text r.decisionId, .timestamp r.createdAt, .timestamp r.expiresAt,
    .text r.status.str, textOrNull r.resolvedBy, timestampOrNull r.resolvedAt,
    textOrNull r.resolutionReason, timestampOrNull r.consumedAt, .text r.approvalReason]

/-- `ts(value)`. -/
def ts : Value → Option ℤ
  | .timestamp t => some t
  | _ => none

/-- `str(value)`, for what a `TEXT` column may hold. -/
def str : Value → Except Exn String
  | .text s => .ok s
  | .null => .ok "None"
  | _ => .error (.other "TypeError")

/-- `int(str(value))`, for what an `INTEGER` column may hold. -/
def int : Value → Except Exn ℤ
  | .int n => .ok n
  | _ => .error (.other "ValueError")

/-- `str(value) if value is not None else None`. -/
def strOrNone : Value → Except Exn (Option String)
  | .null => .ok none
  | v => do return some (← str v)

@[simp] theorem strOrNone_textOrNull (v : Option String) : strOrNone (textOrNull v) = .ok v := by
  cases v <;> rfl

@[simp] theorem ts_timestampOrNull (v : Option ℤ) : ts (timestampOrNull v) = v := by
  cases v <;> rfl

@[simp] theorem ts_timestamp (t : ℤ) : ts (.timestamp t) = some t := rfl

/-- `_from_row`. -/
def fromRow : Row → Except Exn ApprovalRequest
  | [requestId, subject, actor, delegationDepth, tool, argsHash, decisionId, createdAt, expiresAt,
      status, resolvedBy, resolvedAt, resolutionReason, consumedAt, approvalReason] =>
    match ts createdAt, ts expiresAt with
    | some created, some expires => do
      return {
        requestId := ← str requestId
        subject := ← str subject
        actor := ← str actor
        delegationDepth := (← int delegationDepth).toNat
        tool := ← str tool
        argsHash := ← str argsHash
        decisionId := ← str decisionId
        createdAt := created
        expiresAt := expires
        status := ← ApprovalStatus.ofStr (← str status)
        resolvedBy := ← strOrNone resolvedBy
        resolvedAt := ts resolvedAt
        resolutionReason := ← strOrNone resolutionReason
        consumedAt := ts consumedAt
        approvalReason := ← str approvalReason }
    | _, _ =>
      .error (.hoc (HocClass.approvalStoreUnavailable.error
        "approval row has invalid timestamps"))
  | _ => .error (.other "IndexError")

/-- A statement that the database refused is the store's `unavailable`, with the text of the
operation. -/
def orUnavailable {α : Type} (failure : String) : Option α → Except Exn α
  | some a => .ok a
  | none => .error (.hoc (HocClass.approvalStoreUnavailable.error failure))

/-- `_requests`. -/
def requests (t : ApprovalTable) (tests : List Test) (params : List Param) :
    Except Exn (List ApprovalRequest) := do
  let rows ← orUnavailable "approval store read failed"
    (t.select columns tests params "created_at")
  rows.mapM fromRow

/-- `create`. -/
def create (t : ApprovalTable) (request : ApprovalRequest) : ApprovalTable × Except Exn Unit :=
  match t.insert columns (values request) with
  | some t' => (t', .ok ())
  | none => (t, orUnavailable "approval store write failed" none)

/-- `get`. -/
def get (t : ApprovalTable) (requestId : String) : Except Exn (Option ApprovalRequest) := do
  let rows ← requests t [.eq "request_id"] [.value (.text requestId)]
  return rows.head?

/-- `update`. -/
def update (t : ApprovalTable) (request : ApprovalRequest) : ApprovalTable × Except Exn Unit :=
  match t.update ["status", "resolved_by", "resolved_at", "resolution_reason", "consumed_at"]
      [.eq "request_id"]
      [.value (.text request.status.str),
        .value (textOrNull request.resolvedBy),
        .value (timestampOrNull request.resolvedAt),
        .value (textOrNull request.resolutionReason),
        .value (timestampOrNull request.consumedAt),
        .value (.text request.requestId)] with
  | some (t', _) => (t', .ok ())
  | none => (t, orUnavailable "approval store write failed" none)

/-- `allowed` -/
def allowed : List String := ["resolved_by", "resolved_at", "resolution_reason", "consumed_at"]

/-- `{sorted(names)}` in an f-string. -/
def listing (names : List String) : String :=
  "[" ++ ", ".intercalate ((names.insertionSort (· ≤ ·)).map PyText.quoted) ++ "]"

/-- `transition`. The conditions on the row and the assignments are one statement; the row it
changed is read back from it. -/
def transition (t : ApprovalTable) (requestId : String) (fromStatuses : List ApprovalStatus)
    (toStatus : ApprovalStatus) (fields : List (String × Value)) :
    ApprovalTable × Except Exn (Option ApprovalRequest) :=
  let unknown := (fields.map Prod.fst).filter fun name => name ∉ allowed
  if unknown ≠ [] then
    (t, .error (.hoc (HocClass.approvalStoreUnavailable.error
      ("unknown approval fields " ++ listing unknown))))
  else
    match t.update ("status" :: fields.map Prod.fst) [.eq "request_id", .any "status"]
        (.value (.text toStatus.str) :: fields.map (.value ·.2) ++
          [.value (.text requestId), .texts (fromStatuses.map ApprovalStatus.str)]) with
    | none => (t, orUnavailable "approval transition failed" none)
    | some (t', rows) =>
      match rows.head? with
      | none => (t', .ok none)
      | some row => (t', (fromRow (approvalsSchema.project columns row)).map some)

/-- `consume`. -/
def consume (t : ApprovalTable) (requestId : String) (now : ℤ) :
    ApprovalTable × Except Exn (Option ApprovalRequest) :=
  transition t requestId [.approved] .consumed [("consumed_at", .timestamp now)]

/-- `list_pending`. -/
def listPending (t : ApprovalTable) (subject : Option String) :
    Except Exn (List ApprovalRequest) :=
  match subject with
  | none => requests t [.eq "status"] [.value (.text ApprovalStatus.pending.str)]
  | some subject =>
    requests t [.eq "status", .eq "subject"]
      [.value (.text ApprovalStatus.pending.str), .value (.text subject)]

/-- `expire_pending`. -/
def expirePending (t : ApprovalTable) (now : ℤ) : ApprovalTable × Except Exn ℕ :=
  match t.update ["status"] [.eq "status", .lt "expires_at"]
      [.value (.text ApprovalStatus.expired.str), .value (.text ApprovalStatus.pending.str),
        .value (.timestamp now)] with
  | some (t', rows) => (t', .ok rows.length)
  | none => (t, orUnavailable "approval sweep failed" none)

end PostgresApprovalStore

end HeadOfContext
