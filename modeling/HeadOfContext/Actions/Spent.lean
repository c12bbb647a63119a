import HeadOfContext.Actions.Runs

/-!
# An approval is spent once, for the call that was approved

`Books` is what a run keeps about every request: its row describes the call that a gate
parked, whoever was told a row was told that call, an APPROVED row was moved there by an
authorized resolution, and a row that was consumed once is never APPROVED again. A redeem
that ends in ALLOW has consumed the request at one moment of the run; what the books say at
that moment is the claim about it (`approvals_spent_once`).
-/

namespace HeadOfContext

open Effects Except Service

/-- The call that a request is about. -/
def ApprovalRequest.callOf (r : ApprovalRequest) : String × String × String × ℕ × String × String :=
  (r.requestId, r.subject, r.actor, r.delegationDepth, r.tool, r.argsHash)

@[simp] theorem ApprovalRequest.callOf_withStatus (r : ApprovalRequest) (status : ApprovalStatus)
    (changes : Changes) : (r.withStatus status changes).callOf = r.callOf := rfl

theorem ApprovalRequest.callOf_eq {r r' : ApprovalRequest} (h : r.callOf = r'.callOf) :
    r.requestId = r'.requestId ∧ r.subject = r'.subject ∧ r.actor = r'.actor ∧
      r.delegationDepth = r'.delegationDepth ∧ r.tool = r'.tool ∧ r.argsHash = r'.argsHash := by
  simpa [callOf] using h

namespace ActionGate

variable {G : ActionGate}

/-- The record of a run of the gate. -/
abbrev GateRun (G : ActionGate) := List (G.service.Moment gateWorld)

variable {run : GateRun G} {s s' : GateState}

/-- The moment consumed the request. -/
def spends (id : String) (m : G.service.Moment gateWorld) : Bool :=
  match m.label with
  | .spawn _ => false
  | .event _ e => consumes id e

/-- The call number `k` approved the request, with the right to. -/
def ApprovedBy (run : GateRun G) (id : String) (k : ℕ) (approver reason : String) : Prop :=
  (calls run)[k]? = some (.resolve id approver true reason) ∧
    (∃ now row, ⟨.transition id [.pending] .approved (resolution approver reason now),
      .ok (some row)⟩ ∈ history k run) ∧
    ∃ h, (∀ e ∈ h, e ∈ history k run) ∧ G.Authorized h id approver

/-- The call number `j` created the request. -/
def CreatedBy (run : GateRun G) (j : ℕ) (request : ApprovalRequest) : Prop :=
  ⟨.create request, .ok ()⟩ ∈ history j run

/-- **What a run keeps about every request.** -/
structure Books (run : GateRun G) (s : GateState) : Prop where
  origin : ∀ {id r}, s.row id = some r →
    ∃ j request, CreatedBy run j request ∧ r.callOf = request.callOf
  creators : ∀ {j request}, CreatedBy run j request →
    ∃ chain tool args decision now id, (calls run)[j]? = some (.gate chain tool args) ∧
      request = G.newRequest chain tool (args.getD []) decision now id
  told : ∀ {i id r}, Told (history i run) id r →
    ∃ r', s.row id = some r' ∧ r.callOf = r'.callOf
  approved : ∀ {id r}, s.row id = some r → r.status = .approved →
    ∃ k approver reason, ApprovedBy run id k approver reason
  spent : ∀ id, (run.filter (spends id)).length ≤ 1
  spentRow : ∀ {id}, run.filter (spends id) ≠ [] →
    ∃ r, s.row id = some r ∧ (r.status = .consumed ∨ r.status = .expired)

theorem requestId_of_row {id : String} {r : ApprovalRequest} (h : s.row id = some r) :
    r.requestId = id := InMemoryApprovalStore.requestId_of_get h

/-- A row that was told carries the id it was asked for. -/
theorem Books.requestId_of_told (hb : Books run s) {i : ℕ} {id : String} {r : ApprovalRequest}
    (h : Told (history i run) id r) : r.requestId = id := by
  obtain ⟨r', hrow, hcall⟩ := hb.told h
  rw [(ApprovalRequest.callOf_eq hcall).1, requestId_of_row hrow]

/-- What `resolve` writes over a row is that row, EXPIRED. -/
theorem Books.update (hb : Books run s) {i : ℕ} {c : GateCall} {request old : ApprovalRequest}
    (hobeys : G.Obeys c (history i run) (.update request))
    (hrow : s.row request.requestId = some old) :
    request.callOf = old.callOf ∧ request.status = .expired := by
  obtain ⟨id, r, hget, -, rfl⟩ := hobeys
  have hid : r.requestId = id := hb.requestId_of_told (.inl hget)
  obtain ⟨r', hrow', hcall⟩ := hb.told (.inl hget)
  rw [ApprovalRequest.withStatus_requestId, hid, hrow'] at hrow
  obtain rfl := Option.some.inj hrow
  exact ⟨hcall, rfl⟩

/-- The row of a request stays, and stays about its call. -/
theorem Books.row_stays (hb : Books run s) {i : ℕ} {c : GateCall} {e : Event GateSig} {id : String}
    {r : ApprovalRequest} (hobeys : G.Obeys c (history i run) e.op)
    (hstep : RowStep id (s.row id) (s'.row id) e) (hrow : s.row id = some r) :
    ∃ r', s'.row id = some r' ∧ r'.callOf = r.callOf := by
  cases hstep with
  | same ha _ => exact ⟨r, ha.trans hrow, rfl⟩
  | created hbefore _ _ => exact absurd (hbefore.symm.trans hrow) (by simp)
  | updated hbefore hid ha =>
    subst hid
    exact ⟨_, ha, (hb.update hobeys hrow).1⟩
  | moved hbefore _ ha =>
    obtain rfl := Option.some.inj (hbefore.symm.trans hrow)
    exact ⟨_, ha, rfl⟩
  | consumed hbefore _ ha =>
    obtain rfl := Option.some.inj (hbefore.symm.trans hrow)
    exact ⟨_, ha, rfl⟩
  | swept hbefore _ ha =>
    obtain rfl := Option.some.inj (hbefore.symm.trans hrow)
    exact ⟨_, ha, rfl⟩

/-- The row that an answer shows is the row of the store. -/
theorem row_of_told {id : String} {o : GateOp} {r : o.Res} {row : ApprovalRequest}
    (hstep : gateWorld.step s o r s') (htold : Told [⟨o, r⟩] id row) : s'.row id = some row := by
  rcases htold with hget | ⟨fromStatuses, toStatus, changes, hmove⟩
  · cases List.mem_singleton.mp hget
    obtain ⟨hfound, rfl⟩ := hstep
    exact hfound.symm
  · cases List.mem_singleton.mp hmove
    obtain ⟨rows, hmoved, rfl⟩ := hstep
    rcases InMemoryApprovalStore.transition_eq.mp hmoved with ⟨hnone, -⟩ | ⟨old, hold, -, heq, rfl⟩
    · exact absurd hnone (by simp)
    · rw [row_move hold, if_pos rfl, Option.some.inj heq]

/-- What a call was told of a request stays true of its row, as long as no event changes it. -/
theorem told_event {α : Type} {f : ApprovalRequest → α} {i j : ℕ} {id : String} {o : GateOp}
    {r : o.Res} {row : ApprovalRequest}
    (htold : Told (history j (run ++ [⟨s, .event i ⟨o, r⟩⟩])) id row)
    (hstep : gateWorld.step s o r s')
    (hbefore : Told (history j run) id row → ∃ r', s.row id = some r' ∧ f row = f r')
    (hstays : ∀ {r'}, s.row id = some r' → ∃ r'', s'.row id = some r'' ∧ f r'' = f r') :
    ∃ r', s'.row id = some r' ∧ f row = f r' := by
  have hsplit : Told (history j run) id row ∨ Told [⟨o, r⟩] id row := by
    rcases htold with hget | ⟨fromStatuses, toStatus, changes, hmove⟩
    · rcases mem_history_event.mp hget with hget | ⟨-, heq⟩
      · exact .inl (.inl hget)
      · exact .inr (.inl (List.mem_singleton.mpr heq))
    · rcases mem_history_event.mp hmove with hmove | ⟨-, heq⟩
      · exact .inl (.inr ⟨_, _, _, hmove⟩)
      · exact .inr (.inr ⟨_, _, _, List.mem_singleton.mpr heq⟩)
  rcases hsplit with htold | hnow
  · obtain ⟨r', hrow, heq⟩ := hbefore htold
    obtain ⟨r'', hrow', heq'⟩ := hstays hrow
    exact ⟨r'', hrow', heq.trans heq'.symm⟩
  · exact ⟨row, row_of_told hstep hnow, rfl⟩

section Event

variable {i : ℕ} {c : GateCall} {o : GateOp} {r : o.Res}

theorem ApprovedBy.mono {id approver reason : String} {k : ℕ} {m : G.service.Moment gateWorld}
    (h : ApprovedBy run id k approver reason) : ApprovedBy (run ++ [m]) id k approver reason := by
  obtain ⟨hcall, ⟨now, row, hmove⟩, h', hsub, hauth⟩ := h
  have hmem : ∀ e ∈ history k run, e ∈ history k (run ++ [m]) := by
    intro e he
    rw [history_append]
    exact List.mem_append_left _ he
  exact ⟨calls_getElem?_append hcall, ⟨now, row, hmem _ hmove⟩, h', fun e he => hmem e (hsub e he),
    hauth⟩

/-- A row is about the call it was created for. -/
theorem Books.origin_step (hb : Books run s) (hobeys : G.Obeys c (history i run) o) {id : String}
    {row : ApprovalRequest} (hstep : RowStep id (s.row id) (s'.row id) ⟨o, r⟩)
    (hrow : s'.row id = some row) :
    ∃ j request, CreatedBy (run ++ [⟨s, .event i ⟨o, r⟩⟩]) j request ∧
      row.callOf = request.callOf := by
  have hold : ∀ old, s.row id = some old →
      ∃ j request, CreatedBy (run ++ [⟨s, .event i ⟨o, r⟩⟩]) j request ∧
        row.callOf = request.callOf := by
    intro old hold
    obtain ⟨j, request, hmem, hcallOf⟩ := hb.origin hold
    obtain ⟨row', hrow', heq⟩ := hb.row_stays hobeys hstep hold
    obtain rfl := Option.some.inj (hrow.symm.trans hrow')
    exact ⟨j, request, mem_history_event.mpr (.inl hmem), heq.trans hcallOf⟩
  cases hstep with
  | same ha _ => exact hold row (ha.symm.trans hrow)
  | created _ _ ha =>
    obtain rfl := Option.some.inj (ha.symm.trans hrow)
    exact ⟨i, _, mem_history_event.mpr (.inr ⟨rfl, rfl⟩), rfl⟩
  | updated hbefore _ _ => exact hold _ hbefore
  | moved hbefore _ _ => exact hold _ hbefore
  | consumed hbefore _ _ => exact hold _ hbefore
  | swept hbefore _ _ => exact hold _ hbefore

/-- Only a resolution makes a row APPROVED. -/
theorem Books.approved_step (hb : Books run s) (hcall : (calls run)[i]? = some c)
    (hobeys : G.Obeys c (history i run) o) {id : String} {row : ApprovalRequest}
    (hstep : RowStep id (s.row id) (s'.row id) ⟨o, r⟩) (hrow : s'.row id = some row)
    (happroved : row.status = .approved) :
    ∃ k approver reason, ApprovedBy (run ++ [⟨s, .event i ⟨o, r⟩⟩]) id k approver reason := by
  -- a row becomes APPROVED only by the transition of a `resolve`
  cases hstep with
  | same ha _ =>
    obtain ⟨k, approver, reason, hby⟩ := hb.approved (ha.symm.trans hrow) happroved
    exact ⟨k, approver, reason, hby.mono⟩
  | created _ _ ha =>
    obtain rfl := Option.some.inj (ha.symm.trans hrow)
    obtain ⟨chain, tool, args, decision, now, id', -, rfl⟩ := hobeys
    exact absurd happroved (by simp [newRequest])
  | updated hbefore hid ha =>
    subst hid
    obtain rfl := Option.some.inj (ha.symm.trans hrow)
    exact absurd ((hb.update hobeys hbefore).2.symm.trans happroved) (by simp)
  | moved _ _ ha =>
    obtain rfl := Option.some.inj (ha.symm.trans hrow)
    rcases hobeys with ⟨-, rfl, -⟩ | ⟨approver, approved, reason, now, rfl, rfl, rfl, rfl, hauth⟩
    · exact absurd happroved (by simp)
    · cases approved with
      | false => exact absurd happroved (by simp [resolvedStatus])
      | true =>
        exact ⟨i, approver, reason, calls_getElem?_append hcall,
          ⟨now, _, mem_history_event.mpr (.inr ⟨rfl, rfl⟩)⟩, history i run,
          fun e he => mem_history_event.mpr (.inl he), hauth⟩
  | consumed _ _ ha =>
    obtain rfl := Option.some.inj (ha.symm.trans hrow)
    exact absurd happroved (by simp)
  | swept _ _ ha =>
    obtain rfl := Option.some.inj (ha.symm.trans hrow)
    exact absurd happroved (by simp)

/-- A request that was consumed is never APPROVED again. -/
theorem Books.spent_step (hb : Books run s) (hobeys : G.Obeys c (history i run) o) {id : String}
    (hstep : RowStep id (s.row id) (s'.row id) ⟨o, r⟩) :
    (∃ old, s.row id = some old ∧ old.status = .approved ∧ consumes id ⟨o, r⟩ = true ∧
      ∃ row, s'.row id = some row ∧ row.status = .consumed) ∨
    (consumes id ⟨o, r⟩ = false ∧ ∀ old, s.row id = some old →
      old.status = .consumed ∨ old.status = .expired →
      ∃ row, s'.row id = some row ∧ (row.status = .consumed ∨ row.status = .expired)) := by
  cases hstep with
  | same ha hc => exact .inr ⟨hc, fun old hold hst => ⟨old, ha.trans hold, hst⟩⟩
  | created hbefore _ _ => exact .inr ⟨rfl, fun old hold _ => nomatch hbefore.symm.trans hold⟩
  | updated hbefore hid ha =>
    subst hid
    exact .inr ⟨rfl, fun _ _ _ => ⟨_, ha, .inr (hb.update hobeys hbefore).2⟩⟩
  | moved hbefore hfrom _ =>
    refine .inr ⟨rfl, fun old hold hst => ?_⟩
    obtain rfl := Option.some.inj (hbefore.symm.trans hold)
    rcases hobeys with ⟨rfl, -, -⟩ | ⟨approver, approved, reason, now, -, rfl, -⟩
    · rcases hst with hst | hst <;> simp [hst] at hfrom
    · rcases hst with hst | hst <;> simp [hst] at hfrom
  | consumed hbefore hfrom ha =>
    exact .inl ⟨_, hbefore, hfrom, decide_eq_true rfl, _, ha, rfl⟩
  | swept hbefore hfrom _ =>
    refine .inr ⟨rfl, fun old hold hst => ?_⟩
    obtain rfl := Option.some.inj (hbefore.symm.trans hold)
    rcases hst with hst | hst <;> exact absurd (hfrom.symm.trans hst) (by simp)

/-- **An event keeps the books.** -/
theorem Books.event (hb : Books run s) (hcall : (calls run)[i]? = some c)
    (hobeys : G.Obeys c (history i run) o) (hstep : gateWorld.step s o r s') :
    Books (run ++ [⟨s, .event i ⟨o, r⟩⟩]) s' where
  origin hrow := hb.origin_step hobeys (rowStep _ hstep) hrow
  creators := by
    intro j request hmem
    rcases mem_history_event.mp hmem with hmem | ⟨rfl, heq⟩
    · obtain ⟨chain, tool, args, decision, now, id, hgate, hreq⟩ := hb.creators hmem
      exact ⟨chain, tool, args, decision, now, id, calls_getElem?_append hgate, hreq⟩
    · cases heq
      obtain ⟨chain, tool, args, decision, now, id, rfl, hreq⟩ := hobeys
      exact ⟨chain, tool, args, decision, now, id, calls_getElem?_append hcall, hreq⟩
  told htold := told_event htold hstep hb.told (hb.row_stays hobeys (rowStep _ hstep))
  approved hrow happroved := hb.approved_step hcall hobeys (rowStep _ hstep) hrow happroved
  -- a request is spent at most once: after its event the row is no longer APPROVED
  spent := by
    intro id
    rw [List.filter_append, List.length_append]
    rcases hb.spent_step hobeys (rowStep id hstep) with ⟨old, hold, hst, -, -⟩ | ⟨hc, -⟩
    · have hnone : run.filter (spends id) = [] := by
        by_contra hne
        obtain ⟨r', hrow, hst'⟩ := hb.spentRow hne
        obtain rfl := Option.some.inj (hold.symm.trans hrow)
        rcases hst' with hst' | hst' <;> exact absurd (hst.symm.trans hst') (by simp)
      rw [hnone, List.length_nil, Nat.zero_add]
      exact List.length_filter_le _ _
    · have hlast : ([⟨s, .event i ⟨o, r⟩⟩] : GateRun G).filter (spends id) = [] :=
        List.filter_eq_nil_iff.mpr fun m hm => by
          rw [List.mem_singleton.mp hm]
          exact ne_true_of_eq_false hc
      rw [hlast]
      exact hb.spent id
  -- and a spent request is remembered by its row
  spentRow := by
    intro id hne
    rcases hb.spent_step hobeys (rowStep id hstep) with ⟨-, -, -, -, row, hrow, hst⟩ | ⟨hc, hkeep⟩
    · exact ⟨row, hrow, .inl hst⟩
    · have hlast : ([⟨s, .event i ⟨o, r⟩⟩] : GateRun G).filter (spends id) = [] :=
        List.filter_eq_nil_iff.mpr fun m hm => by
          rw [List.mem_singleton.mp hm]
          exact ne_true_of_eq_false hc
      rw [List.filter_append, hlast, List.append_nil] at hne
      obtain ⟨old, hold, hst⟩ := hb.spentRow hne
      exact hkeep old hold hst

end Event

/-- **Every run keeps the books.** -/
theorem books (h : Exec G.service gateWorld run s) : Books run s := by
  refine h.invariant spec_service (I := Books) ?_ ?_ ?_
  · refine ⟨fun hrow => (nomatch hrow), fun hmem => absurd hmem List.not_mem_nil, fun htold => ?_,
      fun hrow => (nomatch hrow), fun _ => Nat.zero_le _, fun hne => absurd rfl hne⟩
    rcases htold with hget | ⟨_, _, _, hmove⟩
    · exact absurd hget List.not_mem_nil
    · exact absurd hmove List.not_mem_nil
  · -- starting a call changes neither a row nor a history
    intro run s c _ hb
    have hhist : ∀ i, history i (run ++ [⟨s, .spawn c⟩]) = history i run := by
      intro i
      rw [history_append, history_spawn, List.append_nil]
    have hspends : ∀ id, (run ++ [⟨s, .spawn c⟩] : GateRun G).filter (spends id) =
        run.filter (spends id) := by
      intro id
      rw [List.filter_append]
      exact List.append_nil _
    refine ⟨fun hrow => ?_, fun hmem => ?_, fun htold => hb.told (by rwa [hhist] at htold),
      fun hrow happroved => ?_, fun id => by rw [hspends]; exact hb.spent id,
      fun hne => hb.spentRow (by rwa [hspends] at hne)⟩
    · obtain ⟨j, request, hmem, hcallOf⟩ := hb.origin hrow
      exact ⟨j, request, by rwa [CreatedBy, hhist], hcallOf⟩
    · rw [CreatedBy, hhist] at hmem
      obtain ⟨chain, tool, args, decision, now, id, hgate, hreq⟩ := hb.creators hmem
      exact ⟨chain, tool, args, decision, now, id, calls_getElem?_append hgate, hreq⟩
    · obtain ⟨k, approver, reason, hby⟩ := hb.approved hrow happroved
      exact ⟨k, approver, reason, hby.mono⟩
  · intro run s i c o r s' _ hb hcall hobeys hstep
    exact hb.event hcall hobeys hstep

/-! ### Redeeming -/

/-- `deny` never allows. -/
theorem deny_run {chain : PrincipalChain} {tool : String} {args : Args} {reason : String}
    {tr : Trace GateSig} {d : Decision}
    (h : Raises.Run (G.deny chain tool args reason) tr (.ok d)) : d.outcome = .deny := by
  unfold deny at h
  obtain ⟨now, tr₁, tr₂, rfl, -, h₂⟩ := Raises.run_bind_ok.mp h
  obtain ⟨decisionId, tr₃, tr₄, rfl, -, h₃⟩ := Raises.run_bind_ok.mp h₂
  obtain ⟨eventId, tr₅, tr₆, rfl, -, h₄⟩ := Raises.run_bind_ok.mp h₃
  obtain ⟨_, tr₇, tr₈, rfl, -, h₅⟩ := Raises.run_bind_ok.mp h₄
  obtain ⟨-, rfl⟩ := Raises.run_pure_ok.mp h₅
  rfl

/-- **A redeem that allows** has consumed a request that matches its call, and decided anew. -/
theorem redeem_decided {chain : PrincipalChain} {requestId : String} {args : Option Args}
    {tool : Option String} {tr : Trace GateSig} {d : Decision}
    (h : Raises.Run (G.redeem chain requestId args tool) tr (.ok d)) (hallow : d.outcome = .allow) :
    ∃ (r₀ r : ApprovalRequest) (now : ℤ) (row : ApprovalRequest),
      G.mismatch r chain (strOr tool r₀.tool) (args.getD []) = none ∧
      ⟨.consume r.requestId now, .ok (some row)⟩ ∈ tr ∧
      ∃ tr' context, tr' ⊆ tr ∧ Raises.Run (Gated.core (G.decider.decide chain .invoke
        (strOr tool r₀.tool) (some (args.getD [])) context)) tr' (.ok d) := by
  unfold redeem at h
  obtain ⟨found, tr₁, tr₂, rfl, -, h₂⟩ := Raises.run_bind_ok.mp h
  -- every exit but the last one denies
  match found with
  | none => exact absurd ((deny_run h₂).symm.trans hallow) (by simp)
  | some r₀ =>
    obtain ⟨_, tr₃, tr₄, rfl, -, h₃⟩ := Raises.run_bind_ok.mp h₂
    obtain ⟨r, tr₅, tr₆, rfl, -, h₄⟩ := Raises.run_bind_ok.mp h₃
    cases hmismatch : G.mismatch r chain (strOr tool r₀.tool) (args.getD []) with
    | some reason =>
      simp only [hmismatch] at h₄
      exact absurd ((deny_run h₄).symm.trans hallow) (by simp)
    | none =>
      simp only [hmismatch] at h₄
      obtain ⟨now, tr₇, tr₈, rfl, -, h₅⟩ := Raises.run_bind_ok.mp h₄
      obtain ⟨consumed, tr₉, tr₁₀, rfl, hconsume, h₆⟩ := Raises.run_bind_ok.mp h₅
      obtain rfl := Raises.run_invoke.mp hconsume
      match consumed with
      | none => exact absurd ((deny_run h₆).symm.trans hallow) (by simp)
      | some row =>
        obtain ⟨decision, tr₁₁, tr₁₂, rfl, hdecide, h₇⟩ := Raises.run_bind_ok.mp h₆
        obtain ⟨_, tr₁₃, tr₁₄, rfl, -, h₈⟩ := Raises.run_bind_ok.mp h₇
        obtain ⟨-, rfl⟩ := Raises.run_pure_ok.mp h₈
        refine ⟨r₀, r, now, row, hmismatch, by simp, tr₁₁, _, fun e he => ?_, hdecide⟩
        simp [he]

/-- A redeem that allows has consumed a request. -/
theorem redeem_run {chain : PrincipalChain} {requestId : String} {args : Option Args}
    {tool : Option String} {tr : Trace GateSig} {d : Decision}
    (h : Raises.Run (G.redeem chain requestId args tool) tr (.ok d)) (hallow : d.outcome = .allow) :
    ∃ id now row, ⟨.consume id now, .ok (some row)⟩ ∈ tr := by
  obtain ⟨r₀, r, now, row, -, hconsume, -⟩ := redeem_decided h hallow
  exact ⟨r.requestId, now, row, hconsume⟩

theorem mismatch_eq_none {r : ApprovalRequest} {chain : PrincipalChain} {tool : String}
    {args : Args} (h : G.mismatch r chain tool args = none) :
    r.status = .approved ∧ r.tool = tool ∧ r.subject = chain.subject ∧ r.actor = chain.actor ∧
      r.delegationDepth = chain.depth ∧ r.argsHash = G.argsHash args := by
  unfold mismatch at h
  split_ifs at h with h₁ h₂ h₃ h₄ h₅ h₆
  obtain ⟨hsubject, hactor, hdepth⟩ : r.subject = chain.subject ∧ r.actor = chain.actor ∧
      r.delegationDepth = chain.depth := by simpa using h₅
  exact ⟨not_not.mp h₃, not_not.mp h₄, hsubject, hactor, hdepth, not_not.mp h₆⟩

/-- **What a redeem claims.** The request that a redeem may consume is the one it was asked for,
and a gate call with the same subject, actor, depth, tool and fingerprint of the arguments had
created it. -/
theorem Books.claimed (hb : Books run s) {i : ℕ} {id id' : String} {now : ℤ}
    {chain : PrincipalChain} {args : Option Args} {tool : Option String}
    (hobeys : G.Obeys (.redeem chain id args tool) (history i run) (.consume id' now)) :
    id' = id ∧ ∃ r j request chain' tool' args', s.row id = some r ∧ CreatedBy run j request ∧
      request.requestId = id ∧ (calls run)[j]? = some (.gate chain' tool' args') ∧
      r.subject = chain'.subject ∧ r.tool = tool' ∧ chain'.subject = chain.subject ∧
      chain'.actor = chain.actor ∧ chain'.depth = chain.depth ∧ strOr tool tool' = tool' ∧
      G.argsHash (args'.getD []) = G.argsHash (args.getD []) := by
  obtain ⟨chain₁, requestId, args₁, tool₁, r₀, r, hsame, htold₀, htold, rfl, hmismatch⟩ := hobeys
  obtain ⟨rfl, rfl, rfl, rfl⟩ := GateCall.redeem.inj hsame
  obtain ⟨-, htool, hsubject, hactor, hdepth, hargs⟩ := mismatch_eq_none hmismatch
  -- the rows it was shown are about the call of the row in the store
  have hid₀ : r₀.requestId = id := hb.requestId_of_told htold₀
  have htold' : Told (history i run) id r := by
    rcases htold with rfl | htold
    · exact htold₀
    · rwa [hid₀] at htold
  have hid : r.requestId = id := hb.requestId_of_told htold'
  obtain ⟨row, hrow, hcallOf⟩ := hb.told htold'
  obtain ⟨row₀, hrow₀, hcallOf₀⟩ := hb.told htold₀
  obtain rfl := Option.some.inj (hrow.symm.trans hrow₀)
  -- and that row is about the call that a gate had parked
  obtain ⟨j, request, hcreated, horigin⟩ := hb.origin hrow
  obtain ⟨chain', tool', args', decision, now', id', hgate, rfl⟩ := hb.creators hcreated
  obtain ⟨hidr, hsubjectr, hactorr, hdepthr, htoolr, hargsr⟩ :=
    ApprovalRequest.callOf_eq (hcallOf.trans horigin)
  obtain ⟨-, hsubjectrow, -, -, htoolrow, -⟩ := ApprovalRequest.callOf_eq horigin
  have htoolr₀ : r₀.tool = tool' := (ApprovalRequest.callOf_eq (hcallOf₀.trans horigin)).2.2.2.2.1
  have htarget : strOr tool tool' = tool' := by
    rw [htoolr₀] at htool
    exact htool.symm.trans htoolr
  exact ⟨hid, row, j, _, chain', tool', args', hrow, hcreated, hidr.symm.trans hid, hgate,
    hsubjectrow, htoolrow, hsubjectr.symm.trans hsubject, hactorr.symm.trans hactor,
    hdepthr.symm.trans hdepth, htarget, hargsr.symm.trans hargs⟩

/-- **An approval is spent at most once, and only for the call that was approved.** In every
run, at most one `consume` of a request ever answers with a row. And a redeem that returned
ALLOW consumed its request at one moment of the run; before that moment, a gate call with
the same subject, actor, depth, tool and arguments had created it, and a resolution that
moved it from PENDING to APPROVED was made by a user who is an approver of the tool by the
engine, or the subject themselves with self-approval enabled. -/
theorem approvals_spent_once (h : Exec G.service gateWorld run s) (id : String) :
    (run.filter (spends id)).length ≤ 1 ∧
    ∀ {i : ℕ} {chain : PrincipalChain} {args : Option Args} {tool : Option String} {d : Decision},
      (calls run)[i]? = some (.redeem chain id args tool) →
      Raises.Run (G.redeem chain id args tool) (history i run) (.ok d) → d.outcome = .allow →
      ∃ pre s₀ now row post, run = pre ++ ⟨s₀, .event i ⟨.consume id now, .ok (some row)⟩⟩ :: post ∧
      ∃ j request chain' tool' args', CreatedBy pre j request ∧ request.requestId = id ∧
        (calls pre)[j]? = some (.gate chain' tool' args') ∧
        chain'.subject = chain.subject ∧ chain'.actor = chain.actor ∧
        chain'.depth = chain.depth ∧ strOr tool tool' = tool' ∧
        G.argsHash (args'.getD []) = G.argsHash (args.getD []) ∧
      ∃ k approver reason, ApprovedBy pre id k approver reason ∧ isRef approver "user" = true ∧
        (⟨.core (.check approver APPROVER_RELATION tool'), .ok true⟩ ∈ history k pre ∨
          (approver = chain.subject ∧ G.allowSelfApproval = true)) := by
  refine ⟨(books h).spent id, ?_⟩
  intro i chain args tool d hcall hreturned hallow
  obtain ⟨id', now, row, hconsume⟩ := redeem_run hreturned hallow
  obtain ⟨s₀, hmem⟩ := mem_history.mp hconsume
  obtain ⟨pre, post, rfl⟩ := List.append_of_mem hmem
  obtain ⟨hpre, -⟩ := h.split rfl
  have hb := books hpre
  -- the call that consumed is this one, and the row it was shown matched
  obtain ⟨c, hc, hobeys, s', hstep⟩ := h.obeys spec_service rfl
  obtain rfl := Option.some.inj ((calls_getElem?_append hc).symm.trans hcall)
  obtain ⟨rfl, r, j, request, chain', tool', args', hrow, hcreated, hid, hgate, hsubjectr, htoolr,
    hsubject, hactor, hdepth, htool, hargs⟩ := hb.claimed hobeys
  -- the row it consumed was APPROVED
  obtain ⟨rows, hmoved, -⟩ := hstep
  rcases InMemoryApprovalStore.transition_eq.mp hmoved with ⟨hnone, -⟩ | ⟨old, hold, hfrom, -, -⟩
  · exact absurd hnone (by simp)
  obtain rfl := Option.some.inj (hrow.symm.trans hold)
  -- the resolution that approved it
  obtain ⟨k, approver, reason, hby⟩ := hb.approved hrow (List.mem_singleton.mp hfrom)
  obtain ⟨h', hsub, huser, r₂, hget, hmay⟩ := hby.2.2
  obtain ⟨r₂', hrow₂, hcallOf₂⟩ := hb.told (.inl (hsub _ hget))
  obtain rfl := Option.some.inj (hrow.symm.trans hrow₂)
  obtain ⟨-, hsubject₂, -, -, htool₂, -⟩ := ApprovalRequest.callOf_eq hcallOf₂
  refine ⟨pre, s₀, now, row, post, rfl, j, request, chain', tool', args', hcreated, hid, hgate,
    hsubject, hactor, hdepth, htool, hargs, k, approver, reason, hby, huser, ?_⟩
  rcases hmay with ⟨hself, henabled⟩ | hcheck
  · refine .inr ⟨?_, henabled⟩
    rw [hself, hsubject₂, hsubjectr, hsubject]
  · rw [htool₂, htoolr] at hcheck
    exact .inl (hsub _ hcheck)

/-! ### A request that is approved and redeemed -/

/-- A gate whose requests wait for `ttl`. -/
def waiting (ttl : ℤ) : ActionGate where
  decider := ⟨⟨Json.FloatText.ofBits, fun _ => [],
    fun _ => "44136fa355b3678a1146ad16f7e8649e94fb4fc21fe77e8310c060f61caaff8a"⟩, true⟩
  ttl := ttl
  allowSelfApproval := false
  channels := []

/-- An agent that may invoke every tool for alice. -/
def aliceDeployer : PrincipalChain :=
  ⟨"user:alice", "agent:a", [], .fromIterable [⟨.act, "tool:*", by decide⟩], none, by decide⟩

/-- The call number `i` of the pool, a redeem by `aliceDeployer`, has returned ALLOW. -/
def allowed {ttl : ℤ} (p : Pool (waiting ttl).service gateWorld) (i : ℕ) : Bool :=
  match p.threads[i]? with
  | some ⟨.redeem chain id none none, .ret (.ok d)⟩ =>
    chain = aliceDeployer ∧ id = "aa" ∧ d.outcome = .allow
  | _ => false

theorem allowed_iff {ttl : ℤ} {p : Pool (waiting ttl).service gateWorld} (hp : p.Sound) {i : ℕ}
    (h : allowed p i = true) :
    (calls p.run)[i]? = some (GateCall.redeem aliceDeployer "aa" none none) ∧
      ∃ d, Raises.Run ((waiting ttl).redeem aliceDeployer "aa" none none) (history i p.run)
        (.ok d) ∧
        d.outcome = .allow := by
  unfold allowed at h
  split at h
  · next chain id d heq =>
    obtain ⟨rfl, rfl, hallow⟩ := of_decide_eq_true h
    exact ⟨hp.calls_of heq, d, hp.returned heq, hallow⟩
  · exact absurd h (by simp)

/-- Start the call `c`, and let the call number `i` go on `n` times. -/
def andThen {ttl : ℤ} (c : GateCall) (i n : ℕ) : List (waiting ttl).service.Move :=
  .spawn c :: List.replicate n (.next i)

/-- alice's agent asks for a deployment, bob approves it, and the agent redeems it. -/
theorem approvals_spent_once_deploy :
    ∃ (run : GateRun (waiting 100)) (s : GateState), Exec (waiting 100).service gateWorld run s ∧
      (run.filter (spends "aa")).length ≤ 1 ∧
      ∃ pre post k approver reason, run = pre ++ post ∧ ApprovedBy pre "aa" k approver reason := by
  have hplay : (gateDriver.play (.start (waiting 100).service gateWorld)
      (andThen (.gate aliceDeployer "tool:deploy" none) 0 13 ++
        andThen (.resolve "aa" "user:bob" true "reviewed") 1 7 ++
        andThen (.redeem aliceDeployer "aa" none none) 2 14)).any (allowed · 2) = true := by
    decide +kernel
  obtain ⟨p, hp, hallowed⟩ := (Option.any_eq_true _ _).mp hplay
  have hsound : p.Sound := Driver.sound_play Pool.sound_start hp
  obtain ⟨hcall, d, hreturned, hallow⟩ := allowed_iff hsound hallowed
  obtain ⟨hspent, hredeem⟩ := approvals_spent_once hsound.exec "aa"
  obtain ⟨pre, s₀, now, row, post, hrun, -, -, -, -, -, -, -, -, -, -, -, -, -, k, approver, reason,
    hby, -⟩ := hredeem hcall hreturned hallow
  exact ⟨p.run, p.state, hsound.exec, hspent, pre, _, k, approver, reason, hrun, hby⟩

end ActionGate

end HeadOfContext
