import HeadOfContext.Actions.Spent

/-!
# Approvals and the journal

A transition of the store and the event that journals it are two separate writes, in this
order and with no rollback. `Settled` is what a call leaves behind by itself: every request it
created and every resolution it made was followed by an attempt to journal it. Where these
attempts succeed, no approval takes effect unjournaled (`approvals_journaled`); where one
fails, the row keeps its new status and a later redeem goes through
(`approval_unjournaled`).

Resolutions also come from the command line, so the service of `Actions.Runs` is widened by
`cmd_approvals_resolve`.
-/

namespace HeadOfContext

open Effects Except Service

/-! ### The command line -/

/-- `cmd_approvals_resolve` up to its handler: an unknown request is an exit code. -/
def cliResolution (allowSelfApproval : Bool) (now : ℤ) (requestId approver : String)
    (approved : Bool) (reason : String) : Gated ℕ := do
  let found ← Gated.get requestId
  match found with
  | none => return 1
  | some request => do
    authorizeApprover true now request approver allowSelfApproval
    let _ ← resolveRequest now requestId approver approved reason allowSelfApproval
    return 0

/-- `cmd_approvals_resolve`: the exit code. -/
def cmdApprovalsResolve (allowSelfApproval : Bool) (requestId approver : String) (approved : Bool)
    (reason : String) : Gated ℕ := do
  let now ← Gated.now
  let answer ← (cliResolution allowSelfApproval now requestId approver approved reason).attempt
  match answer with
  | .ok code => return code
  | .error (.hoc exc) =>
    if exc.cls = .approvalError then
      return 1
    else
      .raise (.hoc exc)
  | .error (.other name) => .raise (.other name)

/-- The calls of clients, and the resolutions of the command line. -/
inductive OfficeCall where
  | client (c : GateCall)
  | cli (requestId approver : String) (approved : Bool) (reason : String)

/-- What each call returns. -/
abbrev OfficeCall.Out : OfficeCall → Type
  | client c => c.Out
  | cli _ _ _ _ => Except Exn ℕ

namespace ActionGate

/-- The programs of the calls. The command line has its own setting for self-approval. -/
def office (G : ActionGate) (cliSelfApproval : Bool) : Service GateSig where
  Call := OfficeCall
  Out := OfficeCall.Out
  body
    | .client c => G.service.body c
    | .cli requestId approver approved reason =>
      (cmdApprovalsResolve cliSelfApproval requestId approver approved reason).run

/-! ### What a run has journaled -/

/-- The event journals that the request was parked. -/
def Requests (e : AuditEvent) (id : String) : Prop :=
  e.kind = .approvalRequested ∧ e.action = ("approval:" ++ id : String)

/-- The event journals that the request was resolved with this outcome. -/
def Resolves (e : AuditEvent) (id : String) (status : ApprovalStatus) : Prop :=
  e.kind = .approvalResolved ∧ e.action = ("approval:" ++ id : String) ∧ e.outcome = status.upper

section Runs

variable {G : ActionGate} {cliSelfApproval : Bool}

/-- The record of a run of the office. -/
abbrev OfficeRun (G : ActionGate) (cliSelfApproval : Bool) :=
  List ((G.office cliSelfApproval).Moment gateWorld)

variable (run : OfficeRun G cliSelfApproval)

/-- The audit sink has accepted an event with the property. -/
def Journaled (P : AuditEvent → Prop) : Prop :=
  ∃ j e, ⟨.core (.record e), .ok ()⟩ ∈ history j run ∧ P e

/-- The call number `k` moved the request to the status. -/
def MovedTo (k : ℕ) (id : String) (status : ApprovalStatus) : Prop :=
  ∃ fromStatuses changes row,
    ⟨.transition id fromStatuses status changes, .ok (some row)⟩ ∈ history k run

/-- The call number `k` parked the request. -/
def Parked (k : ℕ) (id : String) : Prop :=
  ∃ request : ApprovalRequest, request.requestId = id ∧ ⟨.create request, .ok ()⟩ ∈ history k run

/-- The call number `k` has returned or raised. -/
def Returned (k : ℕ) : Prop :=
  ∃ c a, (calls run)[k]? = some c ∧ Prog.Run ((G.office cliSelfApproval).body c) (history k run) a

/-- **No approval takes effect unjournaled** in a run that ends in `s`: some call made every
resolution in the store and parked every pending request, whoever made it has journaled it
once it has returned, and a redeem only allows what was approved so. -/
structure NoneUnjournaled (s : GateState) : Prop where
  resolved : ∀ {id r}, s.row id = some r → r.status = .approved ∨ r.status = .rejected →
    (∃ k, MovedTo run k id r.status) ∧ ∀ k, MovedTo run k id r.status → Returned run k →
      Journaled run (Resolves · id r.status)
  requested : ∀ {id r}, s.row id = some r → r.status = .pending →
    (∃ k, Parked run k id) ∧ ∀ k, Parked run k id → Returned run k → Journaled run (Requests · id)
  redeemed : ∀ {i chain id args tool d},
    (calls run)[i]? = some (.client (.redeem chain id args tool)) →
    Raises.Run (G.redeem chain id args tool) (history i run) (.ok d) → d.outcome = .allow →
    (∃ k, MovedTo run k id .approved) ∧ ∀ k, MovedTo run k id .approved → Returned run k →
      Journaled run (Resolves · id .approved)

/-- The audit sink refuses neither the event of a request nor the event of a resolution. -/
def SinkAccepts : Prop :=
  ∀ i e x, ⟨.core (.record e), .error x⟩ ∈ history i run →
    ∀ id, ¬ Requests e id ∧ ¬ Resolves e id .approved ∧ ¬ Resolves e id .rejected

end Runs

/-! ### What a call leaves behind -/

/-- What every call writes, whatever it has been told. -/
def Tame : GateOp → Prop
  | .create request => request.status = .pending
  | .update request => request.status = .expired
  | .transition _ _ toStatus _ => toStatus ∈ [.expired, .approved, .rejected]
  | _ => True

/-- A call of the interface that neither parks nor resolves a request. -/
def Calm : GateOp → Prop
  | .create _ => False
  | .update request => request.status = .expired
  | .transition _ _ toStatus _ => toStatus = .expired
  | _ => True

/-- The history has an attempt to journal what the event did. -/
def Covered (h : Trace GateSig) : Event GateSig → Prop
  | ⟨.create request, .ok ()⟩ => ∃ e x, ⟨.core (.record e), x⟩ ∈ h ∧ Requests e request.requestId
  | ⟨.transition id _ toStatus _, .ok (some _)⟩ => toStatus ≠ .expired →
      ∃ r e x, ⟨.get id, .ok (some r)⟩ ∈ h ∧ ⟨.core (.record e), x⟩ ∈ h ∧
        Resolves e r.requestId toStatus
  | _ => True

/-- Everything the history did it has tried to journal. -/
def Settled (h : Trace GateSig) : Prop := ∀ e ∈ h, Covered h e

theorem Calm.tame {o : GateOp} (h : Calm o) : Tame o := by
  cases o with
  | create request => exact h.elim
  | update request => exact h
  | transition id fromStatuses toStatus changes =>
    obtain rfl : toStatus = .expired := h
    exact List.mem_cons_self
  | _ => trivial

theorem GateOp.Quiet.calm {o : GateOp} (h : o.Quiet) : Calm o := by
  cases o with
  | create request => exact h.elim
  | update request => exact h.elim
  | transition id fromStatuses toStatus changes => exact h.elim
  | _ => trivial

theorem covered_of_calm {h : Trace GateSig} {e : Event GateSig} (he : Calm e.op) :
    Covered h e := by
  obtain ⟨o, r⟩ := e
  cases o with
  | create request => exact he.elim
  | transition id fromStatuses toStatus changes =>
    match r with
    | .error x => trivial
    | .ok none => trivial
    | .ok (some row) => exact fun hne => absurd he hne
  | _ => trivial

theorem Covered.append {h h' : Trace GateSig} {e : Event GateSig} (hc : Covered h e) :
    Covered (h ++ h') e := by
  obtain ⟨o, r⟩ := e
  cases o with
  | create request =>
    match r with
    | .error x => trivial
    | .ok () =>
      obtain ⟨e, x, hmem, he⟩ := hc
      exact ⟨e, x, List.mem_append_left _ hmem, he⟩
  | transition id fromStatuses toStatus changes =>
    match r with
    | .error x => trivial
    | .ok none => trivial
    | .ok (some row) =>
      intro hne
      obtain ⟨r, e, x, hget, hmem, he⟩ := hc hne
      exact ⟨r, e, x, List.mem_append_left _ hget, List.mem_append_left _ hmem, he⟩
  | _ => trivial

theorem settled_nil : Settled [] := fun _ he => absurd he List.not_mem_nil

theorem Settled.append {h tr : Trace GateSig} (hs : Settled h)
    (htr : ∀ e ∈ tr, Covered (h ++ tr) e) : Settled (h ++ tr) := by
  intro e he
  rcases List.mem_append.mp he with hold | hnew
  · exact (hs e hold).append
  · exact htr e hnew

/-- A resolution, and the attempt to journal it. -/
theorem Settled.resolved {h : Trace GateSig} {id eventId : String} {r row : ApprovalRequest}
    {fromStatuses : List ApprovalStatus} {status : ApprovalStatus} {changes : Changes}
    {e : AuditEvent} {answer : Except Exn Unit} (hs : Settled h)
    (hget : ⟨.get id, .ok (some r)⟩ ∈ h) (he : Resolves e r.requestId status) :
    Settled (h ++ [⟨.transition id fromStatuses status changes, .ok (some row)⟩] ++
      [⟨.core .uuid4, eventId⟩] ++ [⟨.core (.record e), answer⟩]) := by
  rw [List.append_assoc, List.append_assoc]
  refine hs.append fun e' he' => ?_
  simp only [List.mem_append, List.mem_singleton] at he'
  rcases he' with rfl | rfl | rfl
  · intro _
    exact ⟨r, e, answer, List.mem_append_left _ hget, by simp, he⟩
  · trivial
  · trivial

/-- A request that was parked, and the attempt to journal it. -/
theorem Settled.parked {h : Trace GateSig} {eventId : String} {at_ : ℤ} {request : ApprovalRequest}
    {e : AuditEvent} {answer : Except Exn Unit} (hs : Settled h)
    (he : Requests e request.requestId) :
    Settled (h ++ [⟨.create request, .ok ()⟩] ++ [⟨.core .now, at_⟩] ++ [⟨.core .uuid4, eventId⟩] ++
      [⟨.core (.record e), answer⟩]) := by
  rw [List.append_assoc, List.append_assoc, List.append_assoc]
  refine hs.append fun e' he' => ?_
  simp only [List.mem_append, List.mem_singleton] at he'
  rcases he' with rfl | rfl | rfl | rfl
  · exact ⟨e, answer, by simp, he⟩
  · trivial
  · trivial
  · trivial

/-- The program only writes what a call may, and leaves nothing it did not try to journal. -/
def Settles {α : Type} (p : Gated α) (h : Trace GateSig) : Prop :=
  Raises.Spec (fun _ => Tame) (fun h' _ => Settled h') p h

section Settles

variable {α β : Type} {h : Trace GateSig}

theorem Settled.calm {p : Gated α} (hs : Settled h) (hp : Raises.Calls (S := GateSig) Calm p) :
    Settles p h := by
  obtain ⟨p⟩ := p
  change Prog.Calls Calm p at hp
  change Prog.Spec _ _ p h
  induction p generalizing h with
  | ret r => exact hs
  | call o k ih =>
    refine ⟨hp.1.tame, fun r => ih r (hs.append fun e he => ?_) (hp.2 r)⟩
    obtain rfl := List.mem_singleton.mp he
    exact covered_of_calm hp.1

theorem Settled.quiet {p : Gated α} (hs : Settled h)
    (hp : Raises.Calls (S := GateSig) GateOp.Quiet p) : Settles p h :=
  hs.calm (Prog.Calls.imp hp fun _ => GateOp.Quiet.calm)

/-- A sequence whose first half neither parks nor resolves a request. -/
theorem Settled.seq {p : Gated α} {f : α → Gated β} (hs : Settled h)
    (hp : Raises.Calls (S := GateSig) Calm p)
    (hf : ∀ tr a, Raises.Run p tr (.ok a) → Settled (h ++ tr) → Settles (f a) (h ++ tr)) :
    Settles (p >>= f) h := by
  refine Prog.Spec.seq (Prog.Calls.spec hp fun _ _ => Calm.tame) fun tr r hrun => ?_
  have hs' : Settled (h ++ tr) := hs.append fun e he => covered_of_calm (hp.of_run hrun he)
  cases r with
  | error e => exact hs'
  | ok a => exact hf tr a hrun hs'

/-- Such a sequence, where the first half does not write at all. -/
theorem Settled.seqQuiet {p : Gated α} {f : α → Gated β} (hs : Settled h)
    (hp : Raises.Calls (S := GateSig) GateOp.Quiet p)
    (hf : ∀ tr a, Raises.Run p tr (.ok a) → Settled (h ++ tr) → Settles (f a) (h ++ tr)) :
    Settles (p >>= f) h :=
  hs.seq (Prog.Calls.imp hp fun _ => GateOp.Quiet.calm) hf

end Settles

/-! ### Each call -/

section Calls

variable {G : ActionGate} {h : Trace GateSig}

theorem calm_refuseUnlessPending {now : ℤ} {request : ApprovalRequest} :
    Raises.Calls (S := GateSig) Calm (refuseUnlessPending now request) := by
  unfold refuseUnlessPending
  split_ifs with hdue hpending
  · exact .bind ⟨rfl, fun _ => trivial⟩ fun _ => Raises.calls_raise _
  · exact Raises.calls_raise _
  · exact Raises.calls_pure _

theorem calm_incidental : GateOp.Incidental Calm :=
  ⟨trivial, trivial, fun _ _ => trivial, fun _ _ => trivial⟩

theorem calm_expireIfNeeded {request : ApprovalRequest} :
    Raises.Calls (S := GateSig) Calm (expireIfNeeded request) :=
  calm_incidental.calls_expireIfNeeded (fun _ _ => rfl) trivial

/-- A resolution is followed by an attempt to journal it. -/
theorem settles_resolveRequest {now : ℤ} {requestId approver : String} {approved : Bool}
    {reason : String} {allowSelfApproval : Bool} (hs : Settled h) :
    Settles (resolveRequest now requestId approver approved reason allowSelfApproval) h := by
  refine hs.seqQuiet quiet_ofHoc fun tr₁ _ _ hs => ?_
  refine hs.seqQuiet (Raises.calls_invoke trivial) fun tr₂ found hget hs => ?_
  obtain rfl := Raises.run_invoke.mp hget
  cases found with
  | none => exact hs
  | some request =>
    refine hs.seq calm_refuseUnlessPending fun tr₃ _ _ hs => ?_
    refine hs.seqQuiet quiet_ofHoc fun tr₄ _ _ hs => ?_
    have hmem : ⟨.get requestId, .ok (some request)⟩ ∈
        h ++ tr₁ ++ [⟨GateOp.get requestId, .ok (some request)⟩] ++ tr₃ ++ tr₄ := by simp
    generalize h ++ tr₁ ++ [⟨GateOp.get requestId, .ok (some request)⟩] ++ tr₃ ++ tr₄ = h' at *
    refine Raises.spec_bind.mpr ⟨?_, fun moved => ?_⟩
    · cases approved <;> simp [Tame, resolvedStatus]
    cases moved with
    | error x => exact hs.append fun e he => by rw [List.mem_singleton.mp he]; trivial
    | ok moved =>
      cases moved with
      | none => exact hs.append fun e he => by rw [List.mem_singleton.mp he]; trivial
      | some resolved =>
        -- the row has moved, and nothing is between it and the journal but the id of the event
        refine Raises.spec_bind.mpr ⟨trivial, fun eventId => ?_⟩
        refine Raises.spec_bind.mpr ⟨trivial, fun answer => ?_⟩
        cases answer with
        | error x => exact hs.resolved hmem ⟨rfl, rfl, rfl⟩
        | ok u => exact hs.resolved hmem ⟨rfl, rfl, rfl⟩

/-- A request that was parked is followed by an attempt to journal it. -/
theorem settles_gate {chain : PrincipalChain} {tool : String} {args : Option Args}
    (hs : Settled h) : Settles (G.gate chain tool args) h := by
  refine hs.seqQuiet quiet_ofHoc fun _ _ _ hs => ?_
  refine hs.seqQuiet quiet_core fun _ decision _ hs => ?_
  split_ifs with hpark
  · exact hs
  refine hs.seqQuiet quiet_incidental.calls_now fun tr₁ now _ hs => ?_
  refine hs.seqQuiet quiet_incidental.calls_uuid4 fun tr₂ id _ hs => ?_
  refine Raises.spec_bind.mpr ⟨rfl, fun created => ?_⟩
  match created with
  | .error x => exact hs.append fun e he => by rw [List.mem_singleton.mp he]; trivial
  | .ok () =>
    -- the request is parked, and nothing is between it and the journal but a clock reading and
    -- the id of the event
    refine Raises.spec_bind.mpr (Raises.spec_bind.mpr ⟨trivial, fun at_ => ?_⟩)
    refine Raises.spec_bind.mpr ⟨trivial, fun eventId => ⟨trivial, fun answer => ?_⟩⟩
    cases answer with
    | error x => exact hs.parked ⟨rfl, rfl⟩
    | ok u =>
      refine (hs.parked ⟨rfl, rfl⟩).seqQuiet quiet_incidental.calls_notify fun _ _ _ hs => ?_
      exact hs

theorem settles_redeem {chain : PrincipalChain} {requestId : String} {args : Option Args}
    {tool : Option String} (hs : Settled h) : Settles (G.redeem chain requestId args tool) h := by
  refine hs.seqQuiet (Raises.calls_invoke trivial) fun _ found _ hs => ?_
  match found with
  | none => exact hs.quiet quiet_deny
  | some r₀ =>
    refine hs.seqQuiet quiet_ofHoc fun _ _ _ hs => ?_
    refine hs.seq calm_expireIfNeeded fun _ r _ hs => ?_
    cases hmismatch : G.mismatch r chain (strOr tool r₀.tool) (args.getD []) with
    | some reason => exact hs.quiet quiet_deny
    | none =>
      refine hs.seqQuiet quiet_incidental.calls_now fun _ now _ hs => ?_
      refine hs.seq ⟨trivial, fun _ => trivial⟩ fun _ consumed _ hs => ?_
      match consumed with
      | none => exact hs.quiet quiet_deny
      | some _ =>
        refine hs.seqQuiet quiet_core fun _ _ _ hs => ?_
        exact hs.seqQuiet (quiet_incidental.calls_recordEvent (by decide)) fun _ _ _ hs => hs

theorem settles_resolve {requestId approver : String} {approved : Bool} {reason : String}
    (hs : Settled h) : Settles (G.resolve requestId approver approved reason) h := by
  refine hs.seqQuiet quiet_incidental.calls_now fun _ now _ hs => ?_
  refine hs.seqQuiet (Raises.calls_invoke trivial) fun _ found _ hs => ?_
  match found with
  | none => exact hs
  | some request =>
    refine hs.seqQuiet quiet_authorizeApprover fun _ _ _ hs => ?_
    exact settles_resolveRequest hs

theorem settles_cliResolution {allowSelfApproval : Bool} {now : ℤ} {requestId approver : String}
    {approved : Bool} {reason : String} (hs : Settled h) :
    Settles (cliResolution allowSelfApproval now requestId approver approved reason) h := by
  refine hs.seqQuiet (Raises.calls_invoke trivial) fun _ found _ hs => ?_
  match found with
  | none => exact hs
  | some request =>
    refine hs.seqQuiet quiet_authorizeApprover fun _ _ _ hs => ?_
    refine Raises.spec_bind.mpr ((settles_resolveRequest hs).imp fun h' r hs' => ?_)
    cases r with
    | error x => exact hs'
    | ok resolved => exact hs'

theorem settles_cmdApprovalsResolve {allowSelfApproval : Bool} {requestId approver : String}
    {approved : Bool} {reason : String} (hs : Settled h) :
    Settles (cmdApprovalsResolve allowSelfApproval requestId approver approved reason) h := by
  refine hs.seqQuiet quiet_incidental.calls_now fun _ now _ hs => ?_
  refine Raises.spec_bind.mpr (Raises.spec_attempt.mpr ((settles_cliResolution hs).imp ?_))
  intro h' r hs'
  match r with
  | .ok code => exact hs'
  | .error (.other name) => exact hs'
  | .error (.hoc exc) =>
    by_cases happroval : exc.cls = .approvalError
    · simp only [if_pos happroval]
      exact hs'
    · simp only [if_neg happroval]
      exact hs'

/-- **Every call tries to journal what it does.** -/
theorem settles_office {cliSelfApproval : Bool} (c : OfficeCall) :
    Prog.Spec (fun _ => Tame) (fun h _ => Settled h) ((G.office cliSelfApproval).body c) [] := by
  cases c with
  | cli requestId approver approved reason => exact settles_cmdApprovalsResolve settled_nil
  | client c =>
    cases c with
    | gate chain tool args => exact settles_gate settled_nil
    | resolve requestId approver approved reason => exact settles_resolve settled_nil
    | redeem chain requestId args tool => exact settles_redeem settled_nil
    | sweep =>
      exact Settled.quiet settled_nil
        (.bind quiet_incidental.calls_now fun _ =>
          Raises.calls_invoke trivial : Raises.Calls _ sweep)

end Calls

/-! ### Whole runs -/

section Runs

variable {G : ActionGate} {cliSelfApproval : Bool} {run : OfficeRun G cliSelfApproval}
  {s s' : GateState}

/-- The history of a call is what an unfinished program has done so far. -/
theorem Returned.settled {k : ℕ} (h : Returned run k) : Settled (history k run) := by
  obtain ⟨c, a, -, hrun⟩ := h
  exact (settles_office c).run hrun

/-- The world answered every event of a history. -/
theorem step_of_history {V : Service GateSig} {run : List (V.Moment gateWorld)}
    (h : Exec V gateWorld run s) {k : ℕ} {o : GateOp} {r : o.Res}
    (hmem : ⟨o, r⟩ ∈ history k run) : ∃ s₀ s₁, gateWorld.step s₀ o r s₁ := by
  obtain ⟨s₀, hm⟩ := mem_history.mp hmem
  obtain ⟨pre, post, hrun⟩ := List.append_of_mem hm
  obtain ⟨-, s₁, hs⟩ := h.split hrun
  cases hs with
  | event _ _ hstep => exact ⟨s₀, s₁, hstep⟩

/-- A row that was told carries the id it was asked for. -/
theorem requestId_of_told {V : Service GateSig} {run : List (V.Moment gateWorld)}
    (h : Exec V gateWorld run s) {k : ℕ} {id : String} {r : ApprovalRequest}
    (htold : Told (history k run) id r) : r.requestId = id := by
  rcases htold with hget | ⟨fromStatuses, toStatus, changes, hmove⟩
  · obtain ⟨s₀, s₁, hstep⟩ := step_of_history h hget
    exact requestId_of_row (row_of_told hstep (.inl (List.mem_singleton.mpr rfl)))
  · obtain ⟨s₀, s₁, hstep⟩ := step_of_history h hmove
    exact requestId_of_row (row_of_told hstep (.inr ⟨_, _, _, List.mem_singleton.mpr rfl⟩))

/-- What a run keeps about every request: some call made it what it is. -/
structure Origins (run : OfficeRun G cliSelfApproval) (s : GateState) : Prop where
  resolved : ∀ {id r}, s.row id = some r → r.status = .approved ∨ r.status = .rejected →
    ∃ k, MovedTo run k id r.status
  requested : ∀ {id r}, s.row id = some r → r.status = .pending → ∃ k, Parked run k id
  consumed : ∀ {i id now row}, ⟨.consume id now, .ok (some row)⟩ ∈ history i run →
    ∃ k, MovedTo run k id .approved

theorem MovedTo.mono {k : ℕ} {id : String} {status : ApprovalStatus}
    {m : (G.office cliSelfApproval).Moment gateWorld} (h : MovedTo run k id status) :
    MovedTo (run ++ [m]) k id status := by
  obtain ⟨fromStatuses, changes, row, hmem⟩ := h
  refine ⟨fromStatuses, changes, row, ?_⟩
  rw [history_append]
  exact List.mem_append_left _ hmem

theorem Parked.mono {k : ℕ} {id : String} {m : (G.office cliSelfApproval).Moment gateWorld}
    (h : Parked run k id) : Parked (run ++ [m]) k id := by
  obtain ⟨request, hid, hmem⟩ := h
  refine ⟨request, hid, ?_⟩
  rw [history_append]
  exact List.mem_append_left _ hmem

section Event

variable {i : ℕ} {o : GateOp} {r : o.Res}

theorem Origins.row_step (ho : Origins run s) (htame : Tame o) {id : String}
    {row : ApprovalRequest} (hstep : RowStep id (s.row id) (s'.row id) ⟨o, r⟩)
    (hrow : s'.row id = some row) :
    (row.status = .approved ∨ row.status = .rejected →
        ∃ k, MovedTo (run ++ [⟨s, .event i ⟨o, r⟩⟩]) k id row.status) ∧
      (row.status = .pending → ∃ k, Parked (run ++ [⟨s, .event i ⟨o, r⟩⟩]) k id) := by
  -- a row is APPROVED or REJECTED by a transition, and PENDING since it was created
  cases hstep with
  | same ha _ =>
    have hold : s.row id = some row := ha.symm.trans hrow
    exact ⟨fun hst => (ho.resolved hold hst).imp fun _ => .mono,
      fun hst => (ho.requested hold hst).imp fun _ => .mono⟩
  | @created request _ hid ha =>
    obtain rfl := Option.some.inj (ha.symm.trans hrow)
    have hpending : request.status = .pending := htame
    refine ⟨fun hst => by simp [hpending] at hst, fun _ => ⟨i, request, hid, ?_⟩⟩
    exact mem_history_event.mpr (.inr ⟨rfl, rfl⟩)
  | @updated old request _ _ ha =>
    obtain rfl := Option.some.inj (ha.symm.trans hrow)
    have hexpired : request.status = .expired := htame
    exact ⟨fun hst => by simp [hexpired] at hst, fun hst => by simp [hexpired] at hst⟩
  | @moved old fromStatuses toStatus changes _ _ ha =>
    obtain rfl := Option.some.inj (ha.symm.trans hrow)
    refine ⟨fun _ => ⟨i, fromStatuses, changes, _, mem_history_event.mpr (.inr ⟨rfl, rfl⟩)⟩,
      fun hst => ?_⟩
    obtain rfl : toStatus = .pending := hst
    simp [Tame] at htame
  | consumed _ _ ha =>
    obtain rfl := Option.some.inj (ha.symm.trans hrow)
    exact ⟨fun hst => by simp at hst, fun hst => by simp at hst⟩
  | swept _ _ ha =>
    obtain rfl := Option.some.inj (ha.symm.trans hrow)
    exact ⟨fun hst => by simp at hst, fun hst => by simp at hst⟩

/-- A request that is consumed is APPROVED. -/
theorem approved_of_consume {id : String} {now : ℤ} {row : ApprovalRequest}
    (hstep : gateWorld.step s (.consume id now) (.ok (some row)) s') :
    ∃ old, s.row id = some old ∧ old.status = .approved := by
  obtain ⟨rows, hmoved, -⟩ := hstep
  rcases InMemoryApprovalStore.transition_eq.mp hmoved with ⟨hnone, -⟩ | ⟨old, hold, hfrom, -, -⟩
  · exact absurd hnone (by simp)
  · exact ⟨old, hold, List.mem_singleton.mp hfrom⟩

end Event

/-- **Every run keeps the origins.** -/
theorem origins (h : Exec (G.office cliSelfApproval) gateWorld run s) : Origins run s := by
  refine h.invariant (C := fun _ _ => Tame)
    (fun c => (settles_office c).imp fun _ _ _ => trivial) (I := Origins) ?_ ?_ ?_
  · exact ⟨fun hrow => (nomatch hrow), fun hrow => (nomatch hrow),
      fun hmem => absurd hmem List.not_mem_nil⟩
  · intro run s c _ ho
    refine ⟨fun hrow hst => (ho.resolved hrow hst).imp fun _ => .mono,
      fun hrow hst => (ho.requested hrow hst).imp fun _ => .mono, fun hmem => ?_⟩
    rw [history_append, history_spawn, List.append_nil] at hmem
    exact (ho.consumed hmem).imp fun _ => .mono
  · intro run s i c o r s' _ ho _ htame hstep
    refine ⟨fun hrow => (ho.row_step htame (rowStep _ hstep) hrow).1,
      fun hrow => (ho.row_step htame (rowStep _ hstep) hrow).2, fun hmem => ?_⟩
    rcases mem_history_event.mp hmem with hold | ⟨-, heq⟩
    · exact (ho.consumed hold).imp fun _ => .mono
    · cases heq
      obtain ⟨old, hrow, hst⟩ := approved_of_consume hstep
      have hmoved := ho.resolved hrow (.inl hst)
      rw [hst] at hmoved
      exact hmoved.imp fun _ => .mono

/-- A resolution of a call that is over was journaled, if the sink accepted its event. -/
theorem journaled_of_movedTo (h : Exec (G.office cliSelfApproval) gateWorld run s)
    (haccepts : SinkAccepts run) {k : ℕ} {id : String} {status : ApprovalStatus}
    (hst : status = .approved ∨ status = .rejected) (hmoved : MovedTo run k id status)
    (hover : Returned run k) : Journaled run (Resolves · id status) := by
  obtain ⟨fromStatuses, changes, row, hmem⟩ := hmoved
  have hne : status ≠ .expired := by rcases hst with rfl | rfl <;> simp
  obtain ⟨r, e, x, hget, hrecord, he⟩ := hover.settled _ hmem hne
  rw [requestId_of_told h (.inl hget)] at he
  refine ⟨k, e, ?_, he⟩
  cases x with
  | ok u => exact hrecord
  | error x =>
    obtain ⟨-, happroved, hrejected⟩ := haccepts k e x hrecord id
    rcases hst with rfl | rfl
    · exact absurd he happroved
    · exact absurd he hrejected

theorem journaled_of_parked (haccepts : SinkAccepts run) {k : ℕ} {id : String}
    (hparked : Parked run k id) (hover : Returned run k) : Journaled run (Requests · id) := by
  obtain ⟨request, rfl, hmem⟩ := hparked
  obtain ⟨e, x, hrecord, he⟩ := hover.settled _ hmem
  refine ⟨k, e, ?_, he⟩
  cases x with
  | ok u => exact hrecord
  | error x => exact absurd he (haccepts k e x hrecord request.requestId).1

/-- The request that a redeem consumes is the one it was asked to redeem. -/
theorem consumes_of_redeem (h : Exec (G.office cliSelfApproval) gateWorld run s) {i : ℕ}
    {chain : PrincipalChain} {id : String} {args : Option Args} {tool : Option String}
    {d : Decision}
    (hcall : (calls run)[i]? = some (.client (.redeem chain id args tool)))
    (hreturned : Raises.Run (G.redeem chain id args tool) (history i run) (.ok d))
    (hallow : d.outcome = .allow) :
    ∃ now row, ⟨.consume id now, .ok (some row)⟩ ∈ history i run := by
  obtain ⟨id', now, row, hconsume⟩ := redeem_run hreturned hallow
  -- what this call may consume, by what it has been told
  have hspec : Prog.Spec (G.Obeys (.redeem chain id args tool)) (fun _ _ => True)
      (G.redeem chain id args tool).run [] := spec_redeem
  obtain ⟨s₀, hmem⟩ := mem_history.mp hconsume
  obtain ⟨pre, post, rfl⟩ := List.append_of_mem hmem
  obtain ⟨hpre, s₁, hs⟩ := h.split rfl
  cases hs with
  | @event _ c _ k _ _ hcall' hpath hstep =>
    obtain rfl := Option.some.inj ((calls_getElem?_append hcall').symm.trans hcall)
    have hobeys := hspec.path hpath
    rw [List.nil_append] at hobeys
    obtain ⟨chain₁, requestId, args₁, tool₁, r₀, r, hsame, htold₀, htold, rfl, -⟩ := hobeys.1
    obtain ⟨rfl, rfl, rfl, rfl⟩ := GateCall.redeem.inj hsame
    have hid₀ : r₀.requestId = id := requestId_of_told hpre htold₀
    obtain rfl : r.requestId = id := by
      rcases htold with rfl | htold
      · exact hid₀
      · rw [requestId_of_told hpre htold, hid₀]
    exact ⟨now, row, hconsume⟩

/-- **Where the audit sink accepts what it is told about approvals, none takes effect
unjournaled**: in every run of gates, resolutions, redeems and resolutions from the command
line. Any other audit write may fail. -/
theorem approvals_journaled (h : Exec (G.office cliSelfApproval) gateWorld run s)
    (haccepts : SinkAccepts run) : NoneUnjournaled run s where
  resolved hrow hst := ⟨(origins h).resolved hrow hst,
    fun _ hmoved hover => journaled_of_movedTo h haccepts hst hmoved hover⟩
  requested hrow hst := ⟨(origins h).requested hrow hst,
    fun _ hparked hover => journaled_of_parked haccepts hparked hover⟩
  redeemed hcall hreturned hallow := by
    obtain ⟨now, row, hconsume⟩ := consumes_of_redeem h hcall hreturned hallow
    exact ⟨(origins h).consumed hconsume,
      fun _ hmoved hover => journaled_of_movedTo h haccepts (.inl rfl) hmoved hover⟩

end Runs

/-! ### An audit sink that refuses a resolution -/

/-- Collaborators whose audit sink is down when a resolution is journaled. -/
def unjournaledDriver : Driver gateWorld where
  answer s
    | .core (.record e) =>
      if e.kind = .approvalResolved then .error (.hoc (HocClass.auditUnavailable.error ""))
      else .ok ()
    | o => gateDriver.answer s o
  after := gateDriver.after
  sound := by
    intro s o s' h
    cases o with
    | core o =>
      cases o with
      | record e => exact (Option.some.inj h).symm
      | _ => exact gateDriver.sound h
    | _ => exact gateDriver.sound h

/-- Start the call `c`, and let the call number `i` go on `n` times. -/
def officeThen {ttl : ℤ} (c : OfficeCall) (i n : ℕ) : List ((waiting ttl).office false).Move :=
  .spawn c :: List.replicate n (.next i)

/-- alice's agent asks for a deployment, bob approves it from the command line, and the agent
redeems it. -/
def deployment : List ((waiting 100).office false).Move :=
  officeThen (.client (.gate aliceDeployer "tool:deploy" none)) 0 13 ++
    officeThen (.cli "aa" "user:bob" true "reviewed") 1 7 ++
    officeThen (.client (.redeem aliceDeployer "aa" none none)) 2 14

/-- The call number `i` of the pool is over. -/
def isOver (p : Pool ((waiting 100).office false) gateWorld) (i : ℕ) : Bool :=
  match p.threads[i]? with
  | some ⟨_, .ret _⟩ => true
  | _ => false

/-- The moment moves the request to APPROVED. -/
def approves (id : String) (m : ((waiting 100).office false).Moment gateWorld) : Bool :=
  match m.label with
  | .event 1 ⟨.transition id' _ .approved _, .ok (some _)⟩ => id' = id
  | _ => false

/-- The moment journals no resolution. -/
def journalsNone (m : ((waiting 100).office false).Moment gateWorld) : Bool :=
  match m.label with
  | .event _ ⟨.core (.record e), .ok ()⟩ => e.kind ≠ .approvalResolved
  | _ => true

/-- The call number `i` of the pool, a redeem by `aliceDeployer`, has returned ALLOW. -/
def redeemed (p : Pool ((waiting 100).office false) gateWorld) (i : ℕ) : Bool :=
  match p.threads[i]? with
  | some ⟨.client (.redeem chain id none none), .ret (.ok d)⟩ =>
    chain = aliceDeployer ∧ id = "aa" ∧ d.outcome = .allow
  | _ => false

theorem redeemed_iff {p : Pool ((waiting 100).office false) gateWorld} (hp : p.Sound) {i : ℕ}
    (h : redeemed p i = true) :
    (calls p.run)[i]? = some (.client (.redeem aliceDeployer "aa" none none)) ∧
      ∃ d, Raises.Run ((waiting 100).redeem aliceDeployer "aa" none none) (history i p.run)
        (.ok d) ∧
        d.outcome = .allow := by
  unfold redeemed at h
  split at h
  · next chain id d heq =>
    obtain ⟨rfl, rfl, hallow⟩ := of_decide_eq_true h
    exact ⟨hp.calls_of heq, d, hp.returned heq, hallow⟩
  · exact absurd h (by simp)

theorem returned_of_isOver {p : Pool ((waiting 100).office false) gateWorld} (hp : p.Sound) {i : ℕ}
    (h : isOver p i = true) : Returned p.run i := by
  unfold isOver at h
  split at h
  · next c a heq => exact ⟨c, a, hp.calls_of heq, hp.returned heq⟩
  · exact absurd h (by simp)

theorem movedTo_of_approves {run : OfficeRun (waiting 100) false} {id : String}
    (h : run.any (approves id) = true) : MovedTo run 1 id .approved := by
  obtain ⟨⟨s₀, l⟩, hm, hl⟩ := List.any_eq_true.mp h
  unfold approves at hl
  split at hl
  · next id' fromStatuses changes row heq =>
    obtain rfl : id' = id := of_decide_eq_true hl
    change l = _ at heq
    subst heq
    exact ⟨fromStatuses, changes, row, mem_history.mpr ⟨s₀, hm⟩⟩
  · exact absurd hl (by simp)

/-- **It can fail.** bob approves a request from the command line and the audit sink is
down: the command fails, the row stays APPROVED, no event of a resolution is ever recorded,
and the redeem that follows returns ALLOW. -/
theorem approval_unjournaled :
    ∃ (run : OfficeRun (waiting 100) false) (s : GateState),
      Exec ((waiting 100).office false) gateWorld run s ∧ ¬ NoneUnjournaled run s ∧
      Returned run 1 ∧ MovedTo run 1 "aa" .approved ∧
      ¬ Journaled run (fun e => e.kind = .approvalResolved) := by
  have hplay : (unjournaledDriver.play (.start ((waiting 100).office false) gateWorld)
      deployment).any (fun p => isOver p 1 && p.run.any (approves "aa") && p.run.all journalsNone &&
        redeemed p 2) = true := by
    decide +kernel
  obtain ⟨p, hp, htest⟩ := (Option.any_eq_true _ _).mp hplay
  have hsound : p.Sound := Driver.sound_play Pool.sound_start hp
  simp only [Bool.and_eq_true] at htest
  obtain ⟨⟨⟨hover, happroves⟩, hnone⟩, hredeemed⟩ := htest
  have hreturned : Returned p.run 1 := returned_of_isOver hsound hover
  have hmoved : MovedTo p.run 1 "aa" .approved := movedTo_of_approves happroves
  have hlost : ¬ Journaled p.run (fun e => e.kind = .approvalResolved) := by
    rintro ⟨j, e, hmem, hkind⟩
    obtain ⟨s₀, hm⟩ := mem_history.mp hmem
    exact of_decide_eq_true (List.all_eq_true.mp hnone _ hm) hkind
  refine ⟨p.run, p.state, hsound.exec, fun h => ?_, hreturned, hmoved, hlost⟩
  obtain ⟨hcall, d, hrun, hallow⟩ := redeemed_iff hsound hredeemed
  obtain ⟨-, hall⟩ := h.redeemed hcall hrun hallow
  obtain ⟨j, e, hmem, hkind, -⟩ := hall 1 hmoved hreturned
  exact hlost ⟨j, e, hmem, hkind⟩

/-- The moment is no refusal of the audit sink. -/
def sinkAnswers (m : ((waiting 100).office false).Moment gateWorld) : Bool :=
  match m.label with
  | .event _ ⟨.core (.record _), .error _⟩ => false
  | _ => true

/-- The same deployment, with an audit sink that accepts everything. -/
theorem approvals_journaled_deploy :
    ∃ (run : OfficeRun (waiting 100) false) (s : GateState), NoneUnjournaled run s ∧
      Journaled run (Resolves · "aa" .approved) := by
  have hplay : (gateDriver.play (.start ((waiting 100).office false) gateWorld)
      deployment).any (fun p => isOver p 1 && p.run.any (approves "aa") && p.run.all sinkAnswers &&
        redeemed p 2) = true := by
    decide +kernel
  obtain ⟨p, hp, htest⟩ := (Option.any_eq_true _ _).mp hplay
  have hsound : p.Sound := Driver.sound_play Pool.sound_start hp
  simp only [Bool.and_eq_true] at htest
  obtain ⟨⟨⟨hover, happroves⟩, hanswers⟩, hredeemed⟩ := htest
  have haccepts : SinkAccepts p.run := by
    intro i e x hmem
    obtain ⟨s₀, hm⟩ := mem_history.mp hmem
    exact absurd (List.all_eq_true.mp hanswers _ hm) (by simp [sinkAnswers])
  have hnone := approvals_journaled hsound.exec haccepts
  obtain ⟨hcall, d, hrun, hallow⟩ := redeemed_iff hsound hredeemed
  obtain ⟨-, hall⟩ := hnone.redeemed hcall hrun hallow
  exact ⟨p.run, p.state, hnone,
    hall 1 (movedTo_of_approves happroves) (returned_of_isOver hsound hover)⟩

end ActionGate

end HeadOfContext
