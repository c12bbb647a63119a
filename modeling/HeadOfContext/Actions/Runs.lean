import HeadOfContext.Actions.GateCalls
import HeadOfContext.Framework.Pool

/-!
# Runs of the gate

Clients gate, resolve and redeem concurrently while a sweeper expires what is overdue. The
store is the in-memory one, each of its calls atomic; a call may also fail, and then changes
nothing. The clock, the identifiers, the engine, the policy, the channels and the audit sink
answer anything: what is said about every run holds in particular where the clock never goes
back and no identifier is drawn twice.

`RowStep` says once what an event can do to the row of a request, and `Obeys` what a call
may write, given what it has been told.
-/

namespace HeadOfContext

open Effects Except Service

/-! ### The calls -/

/-- The calls of clients. -/
inductive GateCall where
  | gate (chain : PrincipalChain) (tool : String) (args : Option Args)
  | resolve (requestId approver : String) (approved : Bool) (reason : String)
  | redeem (chain : PrincipalChain) (requestId : String) (args : Option Args)
      (tool : Option String)
  | sweep

/-- What each call returns. -/
abbrev GateCall.Out : GateCall → Type
  | gate _ _ _ => Except Exn GateResult
  | resolve _ _ _ _ => Except Exn ApprovalRequest
  | redeem _ _ _ _ => Except Exn Decision
  | sweep => Except Exn ℕ

namespace ActionGate

/-- The programs of the calls. -/
def service (G : ActionGate) : Service GateSig where
  Call := GateCall
  Out := GateCall.Out
  body
    | .gate chain tool args => (G.gate chain tool args).run
    | .resolve requestId approver approved reason =>
        (G.resolve requestId approver approved reason).run
    | .redeem chain requestId args tool => (G.redeem chain requestId args tool).run
    | .sweep => sweep.run

end ActionGate

/-! ### The collaborators -/

/-- The state of the collaborators: the rows of the store, the last reading of the clock, and
the identifiers drawn. -/
structure GateState where
  rows : ApprovalRows
  clock : ℤ
  ids : List String

namespace GateState

/-- The row of a request. -/
def row (s : GateState) (id : String) : Option ApprovalRequest :=
  InMemoryApprovalStore.get s.rows id

/-- The state with other rows. -/
def withRows (s : GateState) (rows : ApprovalRows) : GateState := { s with rows := rows }

end GateState

open InMemoryApprovalStore in
/-- The collaborators of the gate. -/
def gateWorld : World GateSig where
  State := GateState
  init := ⟨[], 0, []⟩
  step s o r s' :=
    match o, r with
    | .core .now, t => s' = { s with clock := t }
    | .core .uuid4, id => s' = { s with ids := id :: s.ids }
    | .create request, .ok () => ∃ rows, create s.rows request = .ok rows ∧ s' = s.withRows rows
    | .get id, .ok found => found = s.row id ∧ s' = s
    | .update request, .ok () => ∃ rows, update s.rows request = .ok rows ∧ s' = s.withRows rows
    | .transition id fromStatuses toStatus changes, .ok moved =>
      ∃ rows, transition s.rows id fromStatuses toStatus changes = (rows, moved) ∧
        s' = s.withRows rows
    | .consume id now, .ok moved =>
      ∃ rows, consume s.rows id now = (rows, moved) ∧ s' = s.withRows rows
    | .listPending subject, .ok found => found = listPending s.rows subject ∧ s' = s
    | .expirePending now, .ok n =>
      ∃ rows, expirePending s.rows now = (rows, n) ∧ s' = s.withRows rows
    | _, _ => s' = s

/-! ### One way to answer -/

/-- A call of the store answers, or raises and leaves the rows as they are. -/
def stored (s : GateState) (rows : Except HocError ApprovalRows) : Except Exn Unit × GateState :=
  match rows with
  | .ok rows => (.ok (), s.withRows rows)
  | .error e => (.error (.hoc e), s)

open InMemoryApprovalStore in
/-- Collaborators that never fail by themselves: the clock ticks, the engine relates everyone
to everything, and a policy asks for approval of a call that cites none. -/
def gateDriver : Driver gateWorld where
  answer s
    | .core .now => s.clock + 1
    | .core .uuid4 => String.ofList (List.replicate s.ids.length 'a')
    | .core .elapsedMs => zeroMs
    | .core (.check _ _ _) => .ok true
    | .core (.batchCheck _ items) => .ok (items.map fun _ => true)
    | .core (.policy _ _ _ _ context) => .ok (match context.approvalId with
      | none => ⟨.requireApproval, "approval_required"⟩
      | some _ => .policyAllowed)
    | .core (.record _) => .ok ()
    | .create request => (stored s (create s.rows request)).1
    | .get id => .ok (s.row id)
    | .update request => (stored s (update s.rows request)).1
    | .transition id fromStatuses toStatus changes =>
      .ok (transition s.rows id fromStatuses toStatus changes).2
    | .consume id now => .ok (consume s.rows id now).2
    | .listPending subject => .ok (listPending s.rows subject)
    | .expirePending now => .ok (expirePending s.rows now).2
    | .notify _ _ => .ok ()
  after s
    | .core .now => some { s with clock := s.clock + 1 }
    | .core .uuid4 => some
        { s with ids := String.ofList (List.replicate s.ids.length 'a') :: s.ids }
    | .create request => some (stored s (create s.rows request)).2
    | .update request => some (stored s (update s.rows request)).2
    | .transition id fromStatuses toStatus changes =>
      some (s.withRows (transition s.rows id fromStatuses toStatus changes).1)
    | .consume id now => some (s.withRows (consume s.rows id now).1)
    | .expirePending now => some (s.withRows (expirePending s.rows now).1)
    | _ => some s
  sound := by
    -- only a refused create or update leaves the table, so these two split on the answer
    intro s o s' h
    cases o with
    | core o => cases o <;> exact (Option.some.inj h).symm
    | create request =>
      obtain rfl := Option.some.inj h
      cases hrows : create s.rows request with
      | error e =>
        simp only [stored, hrows]
        rfl
      | ok rows => simp [stored, hrows, gateWorld]
    | update request =>
      obtain rfl := Option.some.inj h
      cases hrows : update s.rows request with
      | error e =>
        simp only [stored, hrows]
        rfl
      | ok rows => simp [stored, hrows, gateWorld]
    | get id => exact ⟨rfl, (Option.some.inj h).symm⟩
    | listPending subject => exact ⟨rfl, (Option.some.inj h).symm⟩
    | transition id fromStatuses toStatus changes =>
      obtain rfl := Option.some.inj h
      exact ⟨_, rfl, rfl⟩
    | consume id now =>
      obtain rfl := Option.some.inj h
      exact ⟨_, rfl, rfl⟩
    | expirePending now =>
      obtain rfl := Option.some.inj h
      exact ⟨_, rfl, rfl⟩
    | notify channel request => exact (Option.some.inj h).symm

/-! ### What an event does to a row -/

/-- The event consumed the request. -/
def consumes (id : String) : Event GateSig → Bool
  | ⟨.consume id' _, .ok (some _)⟩ => id' = id
  | _ => false

/-- **What an event can do to the row of a request.** -/
inductive RowStep (id : String) (before after : Option ApprovalRequest) : Event GateSig → Prop
  | same {e : Event GateSig} (ha : after = before) (hc : consumes id e = false) :
      RowStep id before after e
  | created {request : ApprovalRequest} (hb : before = none) (hid : request.requestId = id)
      (ha : after = some request) : RowStep id before after ⟨.create request, .ok ()⟩
  | updated {old request : ApprovalRequest} (hb : before = some old)
      (hid : request.requestId = id) (ha : after = some request) :
      RowStep id before after ⟨.update request, .ok ()⟩
  | moved {old : ApprovalRequest} {fromStatuses : List ApprovalStatus} {toStatus : ApprovalStatus}
      {changes : Changes} (hb : before = some old) (hfrom : old.status ∈ fromStatuses)
      (ha : after = some (old.withStatus toStatus changes)) :
      RowStep id before after
        ⟨.transition id fromStatuses toStatus changes, .ok (some (old.withStatus toStatus changes))⟩
  | consumed {old : ApprovalRequest} {now : ℤ} (hb : before = some old)
      (hfrom : old.status = .approved)
      (ha : after = some (old.withStatus .consumed { consumedAt := some (some now) })) :
      RowStep id before after ⟨.consume id now,
        .ok (some (old.withStatus .consumed { consumedAt := some (some now) }))⟩
  | swept {old : ApprovalRequest} {now : ℤ} {n : ℕ} (hb : before = some old)
      (hfrom : old.status = .pending) (ha : after = some (old.withStatus .expired {})) :
      RowStep id before after ⟨.expirePending now, .ok n⟩

section Steps

open InMemoryApprovalStore

variable {s s' : GateState} {id : String}

theorem row_put {r old : ApprovalRequest} (h : s.row r.requestId = some old) :
    (s.withRows (put s.rows r)).row id = if id = r.requestId then some r else s.row id := by
  rw [GateState.row, GateState.withRows, get_put]
  by_cases hid : id = r.requestId
  · subst hid
    have hget : get s.rows r.requestId = some old := h
    rw [if_pos rfl, if_pos rfl, hget, Option.map_some]
  · rw [if_neg hid, if_neg hid]
    rfl

/-- A transition of the row of `id'`. -/
theorem row_move {id' : String} {old : ApprovalRequest} {toStatus : ApprovalStatus}
    {changes : Changes} (h : get s.rows id' = some old) :
    (s.withRows (put s.rows (old.withStatus toStatus changes))).row id =
      if id = id' then some (old.withStatus toStatus changes) else s.row id := by
  have hid : (old.withStatus toStatus changes).requestId = id' := by
    rw [ApprovalRequest.withStatus_requestId, requestId_of_get h]
  have hrow : s.row (old.withStatus toStatus changes).requestId = some old := by
    rw [hid]
    exact h
  rw [row_put hrow, hid]

theorem rowStep (id : String) {o : GateOp} {r : o.Res} (h : gateWorld.step s o r s') :
    RowStep id (s.row id) (s'.row id) ⟨o, r⟩ := by
  -- one case per operation of the store; only those that write a row say more than `.same`
  cases o with
  | core o =>
    refine .same ?_ rfl
    cases o with
    | _ =>
      obtain rfl := h
      rfl
  | create request =>
    match r with
    | .error e =>
      obtain rfl := h
      exact .same rfl rfl
    | .ok () =>
      obtain ⟨rows, hcreate, rfl⟩ := h
      obtain ⟨hnone, rfl⟩ := create_eq_ok.mp hcreate
      by_cases hid : id = request.requestId
      · subst hid
        refine .created hnone rfl ?_
        rw [GateState.row, GateState.withRows, get_append hnone, if_pos rfl]
      · refine .same ?_ rfl
        rw [GateState.row, GateState.withRows, get_append hnone, if_neg hid]
        rfl
  | get id' =>
    refine .same ?_ rfl
    match r with
    | .error e =>
      obtain rfl := h
      rfl
    | .ok found =>
      obtain ⟨-, rfl⟩ := h
      rfl
  | update request =>
    match r with
    | .error e =>
      obtain rfl := h
      exact .same rfl rfl
    | .ok () =>
      obtain ⟨rows, hupdate, rfl⟩ := h
      obtain ⟨hsome, rfl⟩ := update_eq_ok.mp hupdate
      obtain ⟨old, hold⟩ := Option.isSome_iff_exists.mp hsome
      by_cases hid : id = request.requestId
      · subst hid
        refine .updated hold rfl ?_
        rw [row_put hold, if_pos rfl]
      · refine .same ?_ rfl
        rw [row_put hold, if_neg hid]
  | transition id' fromStatuses toStatus changes =>
    match r with
    | .error e =>
      obtain rfl := h
      exact .same rfl rfl
    | .ok moved =>
      obtain ⟨rows, hmove, rfl⟩ := h
      -- a transition from a status that is not listed leaves the table as it was
      rcases transition_eq.mp hmove with ⟨rfl, rfl, -⟩ | ⟨old, hold, hfrom, rfl, rfl⟩
      · exact .same rfl rfl
      by_cases hid : id = id'
      · subst hid
        exact .moved hold hfrom (by rw [row_move hold, if_pos rfl])
      · exact .same (by rw [row_move hold, if_neg hid]) rfl
  | consume id' now =>
    match r with
    | .error e =>
      obtain rfl := h
      exact .same rfl rfl
    | .ok moved =>
      obtain ⟨rows, hmove, rfl⟩ := h
      rcases transition_eq.mp hmove with ⟨rfl, rfl, -⟩ | ⟨old, hold, hfrom, rfl, rfl⟩
      · exact .same rfl rfl
      by_cases hid : id = id'
      · subst hid
        exact .consumed hold (List.mem_singleton.mp hfrom) (by rw [row_move hold, if_pos rfl])
      · refine .same ?_ (decide_eq_false fun heq => hid heq.symm)
        rw [row_move hold, if_neg hid]
  | listPending subject =>
    refine .same ?_ rfl
    match r with
    | .error e =>
      obtain rfl := h
      rfl
    | .ok found =>
      obtain ⟨-, rfl⟩ := h
      rfl
  | expirePending now =>
    match r with
    | .error e =>
      obtain rfl := h
      exact .same rfl rfl
    | .ok n =>
      obtain ⟨rows, hexpire, rfl⟩ := h
      -- every overdue row is swept, so what happens to this one is decided by `isOverdue`
      have hrow : (s.withRows rows).row id =
          (s.row id).map fun r => if isOverdue now r then r.withStatus .expired {} else r := by
        rw [GateState.row, GateState.row, ← get_expirePending, hexpire]
        rfl
      cases hold : s.row id with
      | none => exact .same (by rw [hrow, hold]; rfl) rfl
      | some old =>
        by_cases hdue : isOverdue now old = true
        · refine .swept rfl (of_decide_eq_true hdue).1 ?_
          rw [hrow, hold, Option.map_some, if_pos hdue]
        · refine .same ?_ rfl
          rw [hrow, hold, Option.map_some, if_neg hdue]
  | notify channel request =>
    obtain rfl := h
    exact .same rfl rfl

end Steps

/-! ### What a call may write -/

/-- A call that writes nothing to the store. -/
def GateOp.Quiet : GateOp → Prop
  | create _ | update _ | transition _ _ _ _ | consume _ _ => False
  | _ => True

/-- The call was told the row, under the id it asked for. -/
def Told (h : Trace GateSig) (id : String) (r : ApprovalRequest) : Prop :=
  ⟨.get id, .ok (some r)⟩ ∈ h ∨
    ∃ fromStatuses toStatus changes,
      ⟨.transition id fromStatuses toStatus changes, .ok (some r)⟩ ∈ h

theorem Told.append {h h' : Trace GateSig} {id : String} {r : ApprovalRequest} (ht : Told h id r) :
    Told (h ++ h') id r := by
  rcases ht with hget | ⟨fromStatuses, toStatus, changes, hmove⟩
  · exact .inl (List.mem_append_left _ hget)
  · exact .inr ⟨fromStatuses, toStatus, changes, List.mem_append_left _ hmove⟩

namespace ActionGate

variable (G : ActionGate)

/-- By its history, the call may let `approver` resolve the request: the engine said so, or
they are its subject and self-approval is enabled. -/
def Authorized (h : Trace GateSig) (id approver : String) : Prop :=
  isRef approver "user" = true ∧ ∃ r, ⟨.get id, .ok (some r)⟩ ∈ h ∧
    ((approver = r.subject ∧ G.allowSelfApproval = true) ∨
      ⟨.core (.check approver APPROVER_RELATION r.tool), .ok true⟩ ∈ h)

/-- The columns that a resolution sets. -/
def resolution (approver reason : String) (now : ℤ) : Changes where
  resolvedBy := some (some approver)
  resolvedAt := some (some now)
  resolutionReason := some (some reason)

/-- **What a call may write**, given what it has been told. -/
def Obeys (c : GateCall) (h : Trace GateSig) : GateOp → Prop
  | .create request => ∃ chain tool args decision now id, c = .gate chain tool args ∧
      request = G.newRequest chain tool (args.getD []) decision now id
  | .update request => ∃ id r, ⟨.get id, .ok (some r)⟩ ∈ h ∧ r.status = .pending ∧
      request = r.withStatus .expired {}
  | .transition id fromStatuses toStatus changes =>
      (fromStatuses = [.pending, .approved] ∧ toStatus = .expired ∧ changes = {}) ∨
      ∃ approver approved reason now, c = .resolve id approver approved reason ∧
        fromStatuses = [.pending] ∧ toStatus = resolvedStatus approved ∧
        changes = resolution approver reason now ∧ G.Authorized h id approver
  | .consume id _ => ∃ chain requestId args tool r₀ r, c = .redeem chain requestId args tool ∧
      Told h requestId r₀ ∧ (r = r₀ ∨ Told h r₀.requestId r) ∧ id = r.requestId ∧
      G.mismatch r chain (strOr tool r₀.tool) (args.getD []) = none
  | _ => True

variable {G}

theorem obeys_of_quiet {c : GateCall} {h : Trace GateSig} {o : GateOp}
    (ho : o.Quiet) : G.Obeys c h o := by
  cases o <;> trivial

/-- A program that writes nothing obeys. -/
theorem obeys_of_calls {α : Type} {c : GateCall} {p : Gated α} {h : Trace GateSig}
    (hp : Raises.Calls (S := GateSig) GateOp.Quiet p) :
    Raises.Spec (G.Obeys c) (fun _ _ => True) p h :=
  Prog.Calls.spec hp fun _ _ => obeys_of_quiet

section Quiet

variable {α : Type}

theorem quiet_ofHoc {x : Except HocError α} :
    Raises.Calls (S := GateSig) GateOp.Quiet (Core.ofHoc x) := trivial

theorem quiet_incidental : GateOp.Incidental GateOp.Quiet :=
  ⟨trivial, trivial, fun _ _ => trivial, fun _ _ => trivial⟩

/-- The decision path writes nothing to the store. -/
theorem quiet_core {p : Core α} : Raises.Calls (S := GateSig) GateOp.Quiet (Gated.core p) :=
  Raises.Calls.embed fun _ => trivial

theorem quiet_deny {chain : PrincipalChain} {tool : String} {args : Args} {reason : String} :
    Raises.Calls (S := GateSig) GateOp.Quiet (G.deny chain tool args reason) :=
  quiet_incidental.calls_deny fun _ => trivial

theorem quiet_approverRefusal {hasEngine : Bool} {request : ApprovalRequest} {approver : String}
    {allowSelfApproval : Bool} :
    Raises.Calls (S := GateSig) GateOp.Quiet
      (approverRefusal hasEngine request approver allowSelfApproval) := by
  unfold approverRefusal
  split_ifs
  · exact Raises.calls_pure _
  · exact Raises.calls_pure _
  · exact Raises.calls_pure _
  refine .bind (.attempt (Raises.calls_invoke trivial)) fun answer => ?_
  match answer with
  | .error (.hoc _) => exact Raises.calls_pure _
  | .error (.other _) => exact Raises.calls_pure _
  | .ok true => exact Raises.calls_pure _
  | .ok false => exact Raises.calls_pure _

theorem quiet_authorizeApprover {hasEngine : Bool} {now : ℤ} {request : ApprovalRequest}
    {approver : String} {allowSelfApproval : Bool} :
    Raises.Calls (S := GateSig) GateOp.Quiet
      (authorizeApprover hasEngine now request approver allowSelfApproval) := by
  refine .bind quiet_ofHoc fun _ => .bind quiet_approverRefusal fun refusal => ?_
  match refusal with
  | none => exact Raises.calls_pure _
  | some _ =>
    exact .bind quiet_incidental.calls_uuid4 fun _ => .bind (Raises.calls_invoke trivial) fun _ =>
      Raises.calls_raise _

end Quiet

/-- An approver who is let through is a user, and either the subject with self-approval
enabled or an approver of the tool by the engine. -/
theorem authorizeApprover_run {now : ℤ} {request : ApprovalRequest} {approver : String}
    {allowSelfApproval : Bool} {tr : Trace GateSig} {u : Unit}
    (h : Raises.Run (authorizeApprover true now request approver allowSelfApproval) tr (.ok u)) :
    isRef approver "user" = true ∧
      ((approver = request.subject ∧ allowSelfApproval = true) ∨
        ⟨.core (.check approver APPROVER_RELATION request.tool), .ok true⟩ ∈ tr) := by
  unfold authorizeApprover at h
  obtain ⟨_, tr₁, tr₂, rfl, hvalidate, h₂⟩ := Raises.run_bind_ok.mp h
  obtain ⟨rfl, hvalid⟩ := Core.run_ofHoc_ok.mp hvalidate
  rw [validateApprover, mapError_eq_ok, validateRef_eq_ok] at hvalid
  obtain ⟨refusal, tr₃, tr₄, rfl, hrefusal, h₃⟩ := Raises.run_bind_ok.mp h₂
  refine ⟨hvalid.1, ?_⟩
  cases refusal with
  | some reason =>
    obtain ⟨_, tr₅, tr₆, rfl, -, h₄⟩ := Raises.run_bind_ok.mp h₃
    obtain ⟨_, tr₅, tr₇, rfl, -, h₅⟩ := Raises.run_bind_ok.mp h₄
    exact absurd (Raises.run_raise.mp h₅).2 (by simp)
  | none =>
    unfold approverRefusal at hrefusal
    -- not refused: the subject itself where that is allowed, or a relation that the engine confirms
    split_ifs at hrefusal with hsubject hself hengine
    · exact .inl ⟨hsubject, hself⟩
    · exact absurd (Raises.run_pure_ok.mp hrefusal).2 (by simp)
    · exact absurd (Raises.run_pure_ok.mp hrefusal).2 (by simp)
    · obtain ⟨answer, tr₅, tr₆, rfl, hcheck, hanswer⟩ := Raises.run_bind_ok.mp hrefusal
      obtain rfl := Raises.run_invoke.mp (Raises.run_attempt_ok.mp hcheck)
      match answer with
      | .error (.hoc _) => exact absurd (Raises.run_pure_ok.mp hanswer).2 (by simp)
      | .error (.other _) => exact absurd (Raises.run_pure_ok.mp hanswer).2 (by simp)
      | .ok false => exact absurd (Raises.run_pure_ok.mp hanswer).2 (by simp)
      | .ok true => exact .inr (by simp)

/-- The row that `redeem` goes on with was told to it. -/
theorem expireIfNeeded_run {r r' : ApprovalRequest} {tr : Trace GateSig}
    (h : Raises.Run (expireIfNeeded r) tr (.ok r')) : r' = r ∨ Told tr r.requestId r' := by
  unfold expireIfNeeded at h
  split_ifs at h with hopen
  · obtain ⟨now, tr₁, tr₂, rfl, -, h₂⟩ := Raises.run_bind_ok.mp h
    split_ifs at h₂ with hdue
    · obtain ⟨expired, tr₃, tr₄, rfl, hmove, h₃⟩ := Raises.run_bind_ok.mp h₂
      obtain rfl := Raises.run_invoke.mp hmove
      match expired with
      | some r'' =>
        obtain ⟨rfl, rfl⟩ := Raises.run_pure_ok.mp h₃
        exact .inr (.inr ⟨_, _, _, List.mem_append_right _ (List.mem_append_left _
          List.mem_cons_self)⟩)
      | none =>
        obtain ⟨again, tr₅, tr₆, rfl, hget, h₄⟩ := Raises.run_bind_ok.mp h₃
        obtain rfl := Raises.run_invoke.mp hget
        obtain ⟨rfl, rfl⟩ := Raises.run_pure_ok.mp h₄
        match again with
        | none => exact .inl rfl
        | some r'' => exact .inr (.inl (by simp))
    · exact .inl (Raises.run_pure_ok.mp h₂).2
  · exact .inl (Raises.run_pure_ok.mp h).2

theorem spec_gate {chain : PrincipalChain} {tool : String} {args : Option Args} :
    Raises.Spec (G.Obeys (.gate chain tool args)) (fun _ _ => True)
      (G.gate chain tool args) [] := by
  refine .seq (obeys_of_calls quiet_ofHoc) fun _ _ _ => ?_
  refine .seq (obeys_of_calls quiet_core) fun _ decision _ => ?_
  split_ifs with hpark
  · exact obeys_of_calls (Raises.calls_pure _)
  refine .seq (obeys_of_calls quiet_incidental.calls_now) fun _ now _ => ?_
  refine .seq (obeys_of_calls quiet_incidental.calls_uuid4) fun _ id _ => ?_
  refine .seq ⟨⟨chain, tool, args, decision, now, id, rfl, rfl⟩, fun _ => trivial⟩ fun _ _ _ => ?_
  exact .seq (obeys_of_calls (quiet_incidental.calls_recordEvent (by decide))) fun _ _ _ =>
    .seq (obeys_of_calls quiet_incidental.calls_notify) fun _ _ _ => trivial

theorem spec_resolve {requestId approver : String} {approved : Bool} {reason : String} :
    Raises.Spec (G.Obeys (.resolve requestId approver approved reason)) (fun _ _ => True)
      (G.resolve requestId approver approved reason) [] := by
  refine .seq (obeys_of_calls quiet_incidental.calls_now) fun tr₁ now _ => ?_
  refine .seq (obeys_of_calls (Raises.calls_invoke trivial)) fun tr₂ found hget => ?_
  -- the request is read twice: for the approver, and again for its status
  obtain rfl := Raises.run_invoke.mp hget
  match found with
  | none => exact obeys_of_calls (Raises.calls_raise _)
  | some request =>
    refine .seq (obeys_of_calls quiet_authorizeApprover) fun tr₃ _ hauthorize => ?_
    obtain ⟨huser, hmay⟩ := authorizeApprover_run hauthorize
    refine .seq (obeys_of_calls quiet_ofHoc) fun tr₄ _ _ => ?_
    refine .seq (obeys_of_calls (Raises.calls_invoke trivial)) fun tr₅ found hget' => ?_
    obtain rfl := Raises.run_invoke.mp hget'
    match found with
    | none => exact obeys_of_calls (Raises.calls_raise _)
    | some current =>
      refine .seq ?_ fun tr₆ _ _ => ?_
      · -- an overdue request is written back as EXPIRED
        unfold refuseUnlessPending
        split_ifs with hdue hpending
        · refine .seq ⟨⟨requestId, current, by simp, hdue.1, rfl⟩, fun _ => trivial⟩ fun _ _ _ => ?_
          exact obeys_of_calls (Raises.calls_raise _)
        · exact obeys_of_calls (Raises.calls_raise _)
        · exact obeys_of_calls (Raises.calls_pure _)
      refine .seq (obeys_of_calls quiet_ofHoc) fun tr₇ _ _ => ?_
      -- the one move, after the approver was found to be entitled
      refine .seq ⟨.inr ⟨approver, approved, reason, now, rfl, rfl, rfl, rfl, huser, request,
        ?_, ?_⟩,
        fun _ => trivial⟩ fun tr₈ resolved _ => ?_
      · simp
      · rcases hmay with hself | hcheck
        · exact .inl hself
        · exact .inr (by simp [hcheck])
      match resolved with
      | none => exact obeys_of_calls (Raises.calls_raise _)
      | some _ =>
        exact .seq (obeys_of_calls quiet_incidental.calls_uuid4) fun _ _ _ =>
          .seq (obeys_of_calls (Raises.calls_invoke trivial)) fun _ _ _ => trivial

theorem spec_expireIfNeeded {c : GateCall} {r : ApprovalRequest} {h : Trace GateSig} :
    Raises.Spec (G.Obeys c) (fun _ _ => True) (expireIfNeeded r) h := by
  unfold expireIfNeeded
  split_ifs with hopen
  · refine .seq (obeys_of_calls quiet_incidental.calls_now) fun _ now _ => ?_
    split_ifs with hdue
    · refine .seq ⟨.inl ⟨rfl, rfl, rfl⟩, fun _ => trivial⟩ fun _ expired _ => ?_
      match expired with
      | some _ => exact obeys_of_calls (Raises.calls_pure _)
      | none => exact .seq (obeys_of_calls (Raises.calls_invoke trivial)) fun _ _ _ => trivial
    · exact obeys_of_calls (Raises.calls_pure _)
  · exact obeys_of_calls (Raises.calls_pure _)

theorem spec_redeem {chain : PrincipalChain} {requestId : String} {args : Option Args}
    {tool : Option String} :
    Raises.Spec (G.Obeys (.redeem chain requestId args tool)) (fun _ _ => True)
      (G.redeem chain requestId args tool) [] := by
  refine .seq (obeys_of_calls (Raises.calls_invoke trivial)) fun tr₁ found hget => ?_
  obtain rfl := Raises.run_invoke.mp hget
  match found with
  | none => exact obeys_of_calls quiet_deny
  | some r₀ =>
    refine .seq (obeys_of_calls quiet_ofHoc) fun tr₂ _ _ => ?_
    refine .seq spec_expireIfNeeded fun tr₃ r hexpire => ?_
    have htold := expireIfNeeded_run hexpire
    cases hmismatch : G.mismatch r chain (strOr tool r₀.tool) (args.getD []) with
    | some reason => exact obeys_of_calls quiet_deny
    | none =>
      refine .seq (obeys_of_calls quiet_incidental.calls_now) fun tr₄ now _ => ?_
      -- nothing is consumed before the row was found and matches the call
      refine .seq ⟨⟨chain, requestId, args, tool, r₀, r, rfl, .inl (by simp), ?_, rfl, hmismatch⟩,
        fun _ => trivial⟩ fun tr₅ consumed _ => ?_
      · refine htold.imp_right fun ht => ?_
        rcases ht with hget' | ⟨fromStatuses, toStatus, changes, hmove⟩
        · exact .inl (by simp [hget'])
        · exact .inr ⟨fromStatuses, toStatus, changes, by simp [hmove]⟩
      match consumed with
      | none => exact obeys_of_calls quiet_deny
      | some _ =>
        exact .seq (obeys_of_calls quiet_core) fun _ _ _ =>
          .seq (obeys_of_calls (quiet_incidental.calls_recordEvent (by decide))) fun _ _ _ =>
            trivial

/-- **Every call obeys.** -/
theorem spec_service (c : GateCall) :
    Prog.Spec (G.Obeys c) (fun _ _ => True) (G.service.body c) [] := by
  cases c with
  | gate chain tool args => exact spec_gate
  | resolve requestId approver approved reason => exact spec_resolve
  | redeem chain requestId args tool => exact spec_redeem
  | sweep =>
    exact obeys_of_calls (.bind quiet_incidental.calls_now fun _ => Raises.calls_invoke trivial)

end ActionGate

end HeadOfContext
