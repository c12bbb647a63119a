import HeadOfContext.Core.Effects

/-!
# Approval requests and their store

A request waits for a human in a row of the approval store. `InMemoryApprovalStore` is the
store as `actions/approvals.py` has it: every operation is one atomic step on the rows, and
the rows keep the order in which they were created.
-/

namespace HeadOfContext

open Except

inductive ApprovalStatus where
  | pending | approved | rejected | expired | consumed
  deriving DecidableEq, Repr

namespace ApprovalStatus

/-- `str(status)`. -/
def str : ApprovalStatus → String
  | pending => "pending"
  | approved => "approved"
  | rejected => "rejected"
  | expired => "expired"
  | consumed => "consumed"

/-- `str(status).upper()`. -/
def upper : ApprovalStatus → String
  | pending => "PENDING"
  | approved => "APPROVED"
  | rejected => "REJECTED"
  | expired => "EXPIRED"
  | consumed => "CONSUMED"

end ApprovalStatus

/-- `ApprovalRequest`. -/
structure ApprovalRequest where
  requestId : String
  subject : String
  actor : String
  delegationDepth : ℕ
  tool : String
  argsHash : String
  decisionId : String
  createdAt : ℤ
  expiresAt : ℤ
  status : ApprovalStatus := .pending
  resolvedBy : Option String := none
  resolvedAt : Option ℤ := none
  resolutionReason : Option String := none
  consumedAt : Option ℤ := none
  approvalReason : String := "approval_required"
  deriving DecidableEq

/-- The `**fields` of a transition: the columns that are set, with their values. -/
structure Changes where
  resolvedBy : Option (Option String) := none
  resolvedAt : Option (Option ℤ) := none
  resolutionReason : Option (Option String) := none
  consumedAt : Option (Option ℤ) := none
  deriving DecidableEq

namespace ApprovalRequest

/-- `with_status`. -/
def withStatus (r : ApprovalRequest) (status : ApprovalStatus) (changes : Changes) :
    ApprovalRequest :=
  { r with
    status := status
    resolvedBy := changes.resolvedBy.getD r.resolvedBy
    resolvedAt := changes.resolvedAt.getD r.resolvedAt
    resolutionReason := changes.resolutionReason.getD r.resolutionReason
    consumedAt := changes.consumedAt.getD r.consumedAt }

@[simp] theorem withStatus_requestId (r : ApprovalRequest) (status : ApprovalStatus)
    (changes : Changes) : (r.withStatus status changes).requestId = r.requestId := rfl

@[simp] theorem withStatus_status (r : ApprovalRequest) (status : ApprovalStatus)
    (changes : Changes) : (r.withStatus status changes).status = status := rfl

end ApprovalRequest

/-- The rows of the store, one for each request id. -/
abbrev ApprovalRows := List ApprovalRequest

namespace InMemoryApprovalStore

/-- `get`. -/
def get (rows : ApprovalRows) (requestId : String) : Option ApprovalRequest :=
  rows.find? fun r => r.requestId = requestId

/-- `self._rows[request.request_id] = request`, for a row that is there. -/
def put (rows : ApprovalRows) (request : ApprovalRequest) : ApprovalRows :=
  rows.map fun r => if r.requestId = request.requestId then request else r

/-- `create`. -/
def create (rows : ApprovalRows) (request : ApprovalRequest) : Except HocError ApprovalRows := do
  raiseIf ((get rows request.requestId).isSome = true)
    (HocClass.approvalStoreUnavailable.error "duplicate request id")
  return rows ++ [request]

/-- `update`. -/
def update (rows : ApprovalRows) (request : ApprovalRequest) : Except HocError ApprovalRows := do
  raiseIf ((get rows request.requestId).isSome = false)
    (HocClass.approvalStoreUnavailable.error "unknown request id")
  return put rows request

/-- `transition`: the rows after it, and the row that was moved. -/
def transition (rows : ApprovalRows) (requestId : String) (fromStatuses : List ApprovalStatus)
    (toStatus : ApprovalStatus) (changes : Changes) : ApprovalRows × Option ApprovalRequest :=
  match get rows requestId with
  | none => (rows, none)
  | some current =>
    if current.status ∈ fromStatuses then
      let moved := current.withStatus toStatus changes
      (put rows moved, some moved)
    else (rows, none)

/-- `consume`. -/
def consume (rows : ApprovalRows) (requestId : String) (now : ℤ) :
    ApprovalRows × Option ApprovalRequest :=
  transition rows requestId [.approved] .consumed { consumedAt := some (some now) }

/-- `list_pending`. -/
def listPending (rows : ApprovalRows) (subject : Option String) : List ApprovalRequest :=
  rows.filter fun r => r.status = .pending ∧ (subject = none ∨ subject = some r.subject)

/-- A row that the sweeper expires. -/
def isOverdue (now : ℤ) (r : ApprovalRequest) : Bool := r.status = .pending ∧ r.expiresAt < now

/-- `expire_pending`: the rows after it, and how many rows it expired. -/
def expirePending (rows : ApprovalRows) (now : ℤ) : ApprovalRows × ℕ :=
  (rows.map fun r => if isOverdue now r then r.withStatus .expired {} else r,
    (rows.filter (isOverdue now)).length)

/-! ### What the operations do to a row -/

variable {rows rows' : ApprovalRows} {id : String}

theorem requestId_of_get {r : ApprovalRequest} (h : get rows id = some r) : r.requestId = id := by
  simpa using List.find?_some h

theorem get_put {r : ApprovalRequest} :
    get (put rows r) id =
      if id = r.requestId then (get rows id).map fun _ => r else get rows id := by
  induction rows with
  | nil => simp [put, get]
  | cons x rest ih =>
    unfold put get at ih ⊢
    rw [List.map_cons, List.find?_cons, List.find?_cons, ih]
    by_cases hx : x.requestId = r.requestId
    · rw [if_pos hx]
      by_cases hid : id = r.requestId
      · simp [hid, hx]
      · have hne : ¬ r.requestId = id := fun h => hid h.symm
        simp [hid, hx, hne]
    · rw [if_neg hx]
      by_cases hid : id = r.requestId
      · have hne : ¬ x.requestId = id := fun h => hx (h.trans hid)
        simp [hid, hx]
      · simp [hid]

theorem get_append {r : ApprovalRequest} (h : get rows r.requestId = none) :
    get (rows ++ [r]) id = if id = r.requestId then some r else get rows id := by
  unfold get at h ⊢
  rw [List.find?_append]
  by_cases hid : id = r.requestId
  · subst hid
    simp [h]
  · have hne : ¬ r.requestId = id := fun h => hid h.symm
    simp [hid, hne]

theorem create_eq_ok {r : ApprovalRequest} :
    create rows r = .ok rows' ↔ get rows r.requestId = none ∧ rows' = rows ++ [r] := by
  simp only [create, bind_eq_ok, raiseIf_eq_ok, pure_eq_ok, Except.ok.injEq]
  constructor
  · rintro ⟨_, h, rfl⟩
    exact ⟨by simpa using h, rfl⟩
  · rintro ⟨h, rfl⟩
    exact ⟨(), by simp [h], rfl⟩

theorem update_eq_ok {r : ApprovalRequest} :
    update rows r = .ok rows' ↔ (get rows r.requestId).isSome = true ∧ rows' = put rows r := by
  simp only [update, bind_eq_ok, raiseIf_eq_ok, pure_eq_ok, Except.ok.injEq]
  constructor
  · rintro ⟨_, h, rfl⟩
    exact ⟨by rwa [Bool.not_eq_false] at h, rfl⟩
  · rintro ⟨h, rfl⟩
    exact ⟨(), by simp [h], rfl⟩

/-- **What a transition does**: nothing, or it moves one row. -/
theorem transition_eq {fromStatuses : List ApprovalStatus} {toStatus : ApprovalStatus}
    {changes : Changes} {moved : Option ApprovalRequest} :
    transition rows id fromStatuses toStatus changes = (rows', moved) ↔
      (moved = none ∧ rows' = rows ∧ ∀ r, get rows id = some r → r.status ∉ fromStatuses) ∨
      ∃ current, get rows id = some current ∧ current.status ∈ fromStatuses ∧
        moved = some (current.withStatus toStatus changes) ∧
        rows' = put rows (current.withStatus toStatus changes) := by
  unfold transition
  cases hget : get rows id with
  | none =>
    simp only [Prod.mk.injEq, reduceCtorEq, false_implies, implies_true, and_true, false_and,
      exists_false, or_false]
    constructor
    · rintro ⟨rfl, rfl⟩
      exact ⟨rfl, rfl⟩
    · rintro ⟨rfl, rfl⟩
      exact ⟨rfl, rfl⟩
  | some current =>
    -- a row that is there moves if its status is one of those listed
    by_cases hin : current.status ∈ fromStatuses
    · simp only [if_pos hin, Prod.mk.injEq, Option.some.injEq, forall_eq']
      constructor
      · rintro ⟨rfl, rfl⟩
        exact .inr ⟨current, rfl, hin, rfl, rfl⟩
      · rintro (⟨-, -, hnot⟩ | ⟨_, rfl, -, rfl, rfl⟩)
        · exact absurd hin hnot
        · exact ⟨rfl, rfl⟩
    · simp only [if_neg hin, Prod.mk.injEq, Option.some.injEq, forall_eq']
      constructor
      · rintro ⟨rfl, rfl⟩
        exact .inl ⟨rfl, rfl, hin⟩
      · rintro (⟨rfl, rfl, -⟩ | ⟨_, rfl, hin', -, -⟩)
        · exact ⟨rfl, rfl⟩
        · exact absurd hin' hin

theorem get_expirePending {now : ℤ} :
    get (expirePending rows now).1 id =
      (get rows id).map fun r => if isOverdue now r then r.withStatus .expired {} else r := by
  unfold get expirePending
  rw [List.find?_map]
  congr 2
  funext r
  by_cases h : isOverdue now r = true
  · simp [h]
  · simp [h]

end InMemoryApprovalStore

end HeadOfContext
