import HeadOfContext.Actions.Spent

/-!
# When an approval expires

`redeem` reads the clock twice: once to test whether the request it was told is overdue, and
once more, after further calls, for the compare-and-set that consumes the request. Nothing
tests the second reading. `Ledger` is what a run keeps about the lifetime of every request:
whoever was told a row was told its `expires_at`, a request that a redeem tried to expire is
closed for good, and a CONSUMED row was APPROVED at the moment it was consumed.

From the ledger, the approvals of a run are all spent within their lifetime exactly where no
redeem's clock passes the end of a lifetime between its two readings
(`approvals_spent_in_time_iff`).
-/

namespace HeadOfContext

open Effects Except Service

/-- The call is a redeem. -/
def GateCall.IsRedeem (c : GateCall) : Prop :=
  ∃ chain requestId args tool, c = .redeem chain requestId args tool

namespace ActionGate

variable {G : ActionGate} {run : GateRun G} {s s' : GateState}

/-! ### What redeem has tested -/

/-- The statuses that a request does not come back from. -/
def Closed (r : ApprovalRequest) : Prop := r.status ∉ [.pending, .approved]

/-- By its history, a redeem may consume the request `id`: it was told the row, and found it
within its lifetime or tried to move it to EXPIRED. It only tries to move rows it was told. -/
def Tested (h : Trace GateSig) : GateOp → Prop
  | .transition id _ _ _ => ∃ requestId r, ⟨.get requestId, .ok (some r)⟩ ∈ h ∧ id = r.requestId
  | .consume id _ => ∃ requestId r, ⟨.get requestId, .ok (some r)⟩ ∈ h ∧
      ((id = r.requestId ∧ ∃ t, ⟨.core .now, t⟩ ∈ h ∧ t ≤ r.expiresAt) ∨
        ∃ r' moved, (r' = r ∨ Told h r.requestId r') ∧ id = r'.requestId ∧
          ⟨.transition r.requestId [.pending, .approved] .expired {}, .ok moved⟩ ∈ h)
  | _ => True

theorem tested_of_quiet {h : Trace GateSig} {o : GateOp} (ho : o.Quiet) : Tested h o := by
  cases o <;> trivial

/-- A program that writes nothing tests nothing. -/
theorem tested_of_calls {α : Type} {p : Gated α} {h : Trace GateSig}
    (hp : Raises.Calls (S := GateSig) GateOp.Quiet p) :
    Raises.Spec Tested (fun _ _ => True) p h :=
  Prog.Calls.spec hp fun _ _ => tested_of_quiet

/-- An APPROVED row that `redeem` goes on with was found within its lifetime, unless the move
to EXPIRED failed. -/
theorem expireIfNeeded_tested {r r' : ApprovalRequest} {tr : Trace GateSig}
    (h : Raises.Run (expireIfNeeded r) tr (.ok r')) (happroved : r'.status = .approved) :
    (r' = r ∧ ∃ t, ⟨.core .now, t⟩ ∈ tr ∧ t ≤ r.expiresAt) ∨
      ∃ moved, ⟨.transition r.requestId [.pending, .approved] .expired {}, .ok moved⟩ ∈ tr := by
  unfold expireIfNeeded at h
  split_ifs at h with hopen
  · obtain ⟨now, tr₁, tr₂, rfl, hnow, h₂⟩ := Raises.run_bind_ok.mp h
    obtain rfl := Raises.run_lift_invoke_ok.mp hnow
    split_ifs at h₂ with hdue
    · -- overdue: whatever the store says, the move was tried
      obtain ⟨expired, tr₃, tr₄, rfl, hmove, -⟩ := Raises.run_bind_ok.mp h₂
      obtain rfl := Raises.run_invoke.mp hmove
      exact .inr ⟨expired, by simp⟩
    · obtain ⟨rfl, rfl⟩ := Raises.run_pure_ok.mp h₂
      exact .inl ⟨rfl, now, by simp, Int.not_lt.mp hdue⟩
  · -- neither PENDING nor APPROVED: the row is handed back as it is
    obtain ⟨-, rfl⟩ := Raises.run_pure_ok.mp h
    exact absurd (.inr happroved) hopen

theorem tested_expireIfNeeded {r : ApprovalRequest} {h : Trace GateSig} (requestId : String)
    (hget : ⟨.get requestId, .ok (some r)⟩ ∈ h) :
    Raises.Spec Tested (fun _ _ => True) (expireIfNeeded r) h := by
  unfold expireIfNeeded
  split_ifs with hopen
  · refine .seq (tested_of_calls quiet_incidental.calls_now) fun _ now _ => ?_
    split_ifs with hdue
    · refine .seq ⟨⟨requestId, r, by simp [hget], rfl⟩, fun _ => trivial⟩ fun _ expired _ => ?_
      match expired with
      | some _ => exact tested_of_calls (Raises.calls_pure _)
      | none => exact .seq (tested_of_calls (Raises.calls_invoke trivial)) fun _ _ _ => trivial
    · exact tested_of_calls (Raises.calls_pure _)
  · exact tested_of_calls (Raises.calls_pure _)

theorem tested_redeem {chain : PrincipalChain} {requestId : String} {args : Option Args}
    {tool : Option String} :
    Raises.Spec Tested (fun _ _ => True) (G.redeem chain requestId args tool) [] := by
  refine .seq (tested_of_calls (Raises.calls_invoke trivial)) fun tr₁ found hget => ?_
  obtain rfl := Raises.run_invoke.mp hget
  match found with
  | none => exact tested_of_calls quiet_deny
  | some r₀ =>
    refine .seq (tested_of_calls quiet_ofHoc) fun tr₂ _ _ => ?_
    refine .seq (tested_expireIfNeeded requestId (by simp)) fun tr₃ r hexpire => ?_
    cases hmismatch : G.mismatch r chain (strOr tool r₀.tool) (args.getD []) with
    | some reason => exact tested_of_calls quiet_deny
    | none =>
      -- the row that `_expire_if_needed` hands on was found in time, or was moved to EXPIRED
      have htold := expireIfNeeded_run hexpire
      have htested := expireIfNeeded_tested hexpire (mismatch_eq_none hmismatch).1
      refine .seq (tested_of_calls quiet_incidental.calls_now) fun tr₄ now _ => ?_
      refine .seq ⟨⟨requestId, r₀, by simp, ?_⟩, fun _ => trivial⟩ fun tr₅ consumed _ => ?_
      · rcases htested with ⟨rfl, t, hread, hle⟩ | ⟨moved, hmove⟩
        · exact .inl ⟨rfl, t, by simp [hread], hle⟩
        · refine .inr ⟨r, moved, htold.imp_right fun ht => ?_, rfl, by simp [hmove]⟩
          rcases ht with hget' | ⟨fromStatuses, toStatus, changes, hmove'⟩
          · exact .inl (by simp [hget'])
          · exact .inr ⟨fromStatuses, toStatus, changes, by simp [hmove']⟩
      match consumed with
      | none => exact tested_of_calls quiet_deny
      | some _ =>
        exact .seq (tested_of_calls quiet_core) fun _ _ _ =>
          .seq (tested_of_calls (quiet_incidental.calls_recordEvent (by decide))) fun _ _ _ =>
            trivial

/-- **A redeem tests what it consumes.** -/
theorem tested_service (c : GateCall) :
    Prog.Spec (fun h o => G.Obeys c h o ∧ (c.IsRedeem → Tested h o)) (fun _ _ => True)
      (G.service.body c) [] := by
  refine (spec_service c).and ?_
  by_cases hc : c.IsRedeem
  · obtain ⟨chain, requestId, args, tool, rfl⟩ := hc
    exact tested_redeem.mono (fun _ _ ht _ => ht) fun _ _ _ => trivial
  · exact (spec_service c).mono (fun _ _ _ hredeem => absurd hredeem hc) fun _ _ _ => trivial

/-! ### The ledger of a run -/

/-- At the moment `m`, the call number `i` consumes the request `id`, whose row is `old`, with
the reading `now` of the clock. -/
def ClaimsAt (m : G.service.Moment gateWorld) (i : ℕ) (id : String) (now : ℤ)
    (old : ApprovalRequest) : Prop :=
  (∃ moved, m.label = .event i ⟨.consume id now, .ok moved⟩) ∧ m.before.row id = some old ∧
    old.status = .approved

/-- **What a run keeps about the lifetime of every request.** -/
structure Ledger (run : GateRun G) (s : GateState) : Prop where
  told : ∀ {i id r}, Told (history i run) id r →
    ∃ r', s.row id = some r' ∧ r.expiresAt = r'.expiresAt
  closed : ∀ {i c id moved}, (calls run)[i]? = some c → c.IsRedeem →
    ⟨.transition id [.pending, .approved] .expired {}, .ok moved⟩ ∈ history i run →
    ∃ r, s.row id = some r ∧ Closed r
  claimed : ∀ {id r}, s.row id = some r → r.status = .consumed →
    ∃ now m i old, r.consumedAt = some now ∧ m ∈ run ∧ ClaimsAt m i id now old ∧
      old.expiresAt = r.expiresAt

section Event

variable {i : ℕ} {c : GateCall} {o : GateOp} {res : o.Res} {id : String} {r : ApprovalRequest}

/-- The lifetime of a request stays as it was set. -/
theorem Ledger.expiry_stays (hl : Ledger run s) (hb : Books run s)
    (hobeys : G.Obeys c (history i run) o) (hstep : RowStep id (s.row id) (s'.row id) ⟨o, res⟩)
    (hrow : s.row id = some r) : ∃ r', s'.row id = some r' ∧ r'.expiresAt = r.expiresAt := by
  cases hstep with
  | same ha _ => exact ⟨r, ha.trans hrow, rfl⟩
  | created hbefore _ _ => exact absurd (hbefore.symm.trans hrow) (by simp)
  | updated hbefore hid ha =>
    -- what is written over the row is what the call was told of it, EXPIRED
    subst hid
    obtain ⟨id', told, hget, -, rfl⟩ := hobeys
    obtain ⟨r', hrow', hexpires⟩ := hl.told (.inl hget)
    rw [ApprovalRequest.withStatus_requestId, hb.requestId_of_told (.inl hget)] at hrow ha ⊢
    obtain rfl := Option.some.inj (hrow'.symm.trans hrow)
    exact ⟨_, ha, hexpires⟩
  | moved hbefore _ ha =>
    obtain rfl := Option.some.inj (hbefore.symm.trans hrow)
    exact ⟨_, ha, rfl⟩
  | consumed hbefore _ ha =>
    obtain rfl := Option.some.inj (hbefore.symm.trans hrow)
    exact ⟨_, ha, rfl⟩
  | swept hbefore _ ha =>
    obtain rfl := Option.some.inj (hbefore.symm.trans hrow)
    exact ⟨_, ha, rfl⟩

/-- A closed request stays closed. -/
theorem closed_stays (hb : Books run s) (hobeys : G.Obeys c (history i run) o)
    (hstep : RowStep id (s.row id) (s'.row id) ⟨o, res⟩) (hrow : s.row id = some r)
    (hclosed : Closed r) : ∃ r', s'.row id = some r' ∧ Closed r' := by
  cases hstep with
  | same ha _ => exact ⟨r, ha.trans hrow, hclosed⟩
  | created hbefore _ _ => exact absurd (hbefore.symm.trans hrow) (by simp)
  | updated hbefore hid ha =>
    subst hid
    exact ⟨_, ha, by simp [Closed, (hb.update hobeys hbefore).2]⟩
  | moved hbefore hfrom _ =>
    -- a move starts from PENDING or APPROVED
    obtain rfl := Option.some.inj (hbefore.symm.trans hrow)
    refine absurd ?_ hclosed
    rcases hobeys with ⟨rfl, -, -⟩ | ⟨approver, approved, reason, now, -, rfl, -⟩
    · exact hfrom
    · exact List.mem_cons.mpr (.inl (List.mem_singleton.mp hfrom))
  | consumed hbefore hfrom _ =>
    obtain rfl := Option.some.inj (hbefore.symm.trans hrow)
    exact absurd (by simp [hfrom]) hclosed
  | swept hbefore hfrom _ =>
    obtain rfl := Option.some.inj (hbefore.symm.trans hrow)
    exact absurd (by simp [hfrom]) hclosed

/-- After a move to EXPIRED, made or refused, the request is closed. -/
theorem closed_of_transition {moved : Option ApprovalRequest} (hrow : s.row id = some r)
    (hstep : gateWorld.step s (.transition id [.pending, .approved] .expired {}) (.ok moved) s') :
    ∃ r', s'.row id = some r' ∧ Closed r' := by
  obtain ⟨rows, hmoved, rfl⟩ := hstep
  rcases InMemoryApprovalStore.transition_eq.mp hmoved with
    ⟨-, rfl, hrefused⟩ | ⟨old, hold, -, -, rfl⟩
  · exact ⟨r, hrow, hrefused r hrow⟩
  · refine ⟨_, by rw [row_move hold, if_pos rfl], ?_⟩
    simp [Closed]

/-- A CONSUMED row was claimed at some moment, which its `consumed_at` is the reading of. -/
theorem Ledger.claimed_step (hl : Ledger run s) (hb : Books run s)
    (hobeys : G.Obeys c (history i run) o) (hstep : RowStep id (s.row id) (s'.row id) ⟨o, res⟩)
    (hrow : s'.row id = some r) (hconsumed : r.status = .consumed) :
    ∃ now m j old, r.consumedAt = some now ∧
      m ∈ (run ++ [⟨s, .event i ⟨o, res⟩⟩] : GateRun G) ∧ ClaimsAt m j id now old ∧
      old.expiresAt = r.expiresAt := by
  -- a row is CONSUMED after a consuming event, or it was so before
  cases hstep with
  | same ha _ =>
    obtain ⟨now, m, j, old, hat, hm, hclaims, hexpires⟩ := hl.claimed (ha.symm.trans hrow) hconsumed
    exact ⟨now, m, j, old, hat, List.mem_append_left _ hm, hclaims, hexpires⟩
  | created _ _ ha =>
    obtain rfl := Option.some.inj (ha.symm.trans hrow)
    obtain ⟨chain, tool, args, decision, now, id', -, rfl⟩ := hobeys
    exact absurd hconsumed (by simp [newRequest])
  | updated hbefore hid ha =>
    subst hid
    obtain rfl := Option.some.inj (ha.symm.trans hrow)
    exact absurd ((hb.update hobeys hbefore).2.symm.trans hconsumed) (by simp)
  | moved _ _ ha =>
    obtain rfl := Option.some.inj (ha.symm.trans hrow)
    rcases hobeys with ⟨-, rfl, -⟩ | ⟨approver, approved, reason, now, -, -, rfl, -⟩
    · exact absurd hconsumed (by simp)
    · cases approved <;> exact absurd hconsumed (by simp [resolvedStatus])
  | @consumed old now hbefore hfrom ha =>
    obtain rfl := Option.some.inj (ha.symm.trans hrow)
    exact ⟨now, _, i, old, rfl, List.mem_append_right _ (List.mem_singleton.mpr rfl),
      ⟨⟨_, rfl⟩, hbefore, hfrom⟩, rfl⟩
  | swept _ _ ha =>
    obtain rfl := Option.some.inj (ha.symm.trans hrow)
    exact absurd hconsumed (by simp)

/-- **An event keeps the ledger.** -/
theorem Ledger.event (hl : Ledger run s) (hb : Books run s) (hcall : (calls run)[i]? = some c)
    (hobeys : G.Obeys c (history i run) o) (htested : c.IsRedeem → Tested (history i run) o)
    (hstep : gateWorld.step s o res s') :
    Ledger (run ++ [⟨s, .event i ⟨o, res⟩⟩]) s' where
  told htold := told_event htold hstep hl.told (hl.expiry_stays hb hobeys (rowStep _ hstep))
  closed := by
    intro j c' id moved hcall' hredeem hmem
    rcases mem_history_event.mp hmem with hbefore | ⟨rfl, heq⟩
    · obtain ⟨r, hrow, hclosed⟩ := hl.closed (calls_getElem?_event hcall') hredeem hbefore
      exact closed_stays hb hobeys (rowStep _ hstep) hrow hclosed
    · -- the redeem was told the row that it tries to move
      cases heq
      obtain rfl := Option.some.inj ((calls_getElem?_append hcall).symm.trans hcall')
      obtain ⟨requestId, told, hget, rfl⟩ := htested hredeem
      obtain ⟨r, hrow, -⟩ := hl.told (.inl hget)
      rw [← hb.requestId_of_told (.inl hget)] at hrow
      exact closed_of_transition hrow hstep
  claimed hrow hconsumed := hl.claimed_step hb hobeys (rowStep _ hstep) hrow hconsumed

end Event

/-- **Every run keeps the ledger.** -/
theorem ledger (h : Exec G.service gateWorld run s) : Ledger run s := by
  refine h.invariant tested_service (I := Ledger) ?_ ?_ ?_
  · refine ⟨fun htold => ?_, fun _ _ hmem => absurd hmem List.not_mem_nil, fun hrow => nomatch hrow⟩
    rcases htold with hget | ⟨_, _, _, hmove⟩
    · exact absurd hget List.not_mem_nil
    · exact absurd hmove List.not_mem_nil
  · -- starting a call changes neither a row nor a history
    intro run s c hrun hl
    have hhist : ∀ i, history i (run ++ [⟨s, .spawn c⟩]) = history i run := by
      intro i
      rw [history_append, history_spawn, List.append_nil]
    refine ⟨fun htold => hl.told (by rwa [hhist] at htold), fun hcall hredeem hmem => ?_,
      fun hrow hconsumed => ?_⟩
    · rw [hhist] at hmem
      -- the call that tried to expire the request had started before
      obtain ⟨c₀, hstarted⟩ := hrun.started hmem
      obtain rfl := Option.some.inj ((calls_getElem?_append hstarted).symm.trans hcall)
      exact hl.closed hstarted hredeem hmem
    · obtain ⟨now, m, i, old, hat, hm, hclaims, hexpires⟩ := hl.claimed hrow hconsumed
      exact ⟨now, m, i, old, hat, List.mem_append_left _ hm, hclaims, hexpires⟩
  · intro run s i c o r s' hrun hl hcall hspec hstep
    exact hl.event (books hrun) hcall hspec.1 hspec.2 hstep

/-! ### Spent in time -/

/-- What a redeem consumes is the request that it was asked to redeem. -/
theorem consumed_is_asked (h : Exec G.service gateWorld run s) {pre post : GateRun G}
    {s₀ : GateState} {i : ℕ} {id id' : String} {now : ℤ} {res : Except Exn (Option ApprovalRequest)}
    {chain : PrincipalChain} {args : Option Args} {tool : Option String}
    (hrun : run = pre ++ ⟨s₀, .event i ⟨.consume id' now, res⟩⟩ :: post)
    (hcall : (calls run)[i]? = some (.redeem chain id args tool)) : id' = id := by
  obtain ⟨hpre, -⟩ := h.split hrun
  have hb := books hpre
  obtain ⟨c, hc, hobeys, -⟩ := h.obeys spec_service hrun
  subst hrun
  obtain rfl := Option.some.inj ((calls_getElem?_append hc).symm.trans hcall)
  obtain ⟨chain', requestId, args', tool', r₀, r, hsame, htold₀, htold, rfl, -⟩ := hobeys
  obtain ⟨rfl, rfl, rfl, rfl⟩ := GateCall.redeem.inj hsame
  have hid₀ : r₀.requestId = id := hb.requestId_of_told htold₀
  rcases htold with rfl | htold
  · exact hid₀
  · exact (hb.requestId_of_told htold).trans hid₀

/-- A consuming event that answers with a row claims the request. -/
theorem claimsAt_of_consumed {i : ℕ} {id : String} {now : ℤ} {row : ApprovalRequest}
    (hstep : gateWorld.step s (.consume id now) (.ok (some row)) s') :
    ∃ old, ClaimsAt (G := G) ⟨s, .event i ⟨.consume id now, .ok (some row)⟩⟩ i id now old ∧
      row.expiresAt = old.expiresAt := by
  obtain ⟨rows, hmoved, -⟩ := hstep
  rcases InMemoryApprovalStore.transition_eq.mp hmoved with ⟨hnone, -⟩ | ⟨old, hold, hfrom, heq, -⟩
  · exact absurd hnone (by simp)
  · obtain rfl := Option.some.inj heq
    exact ⟨old, ⟨⟨_, rfl⟩, hold, List.mem_singleton.mp hfrom⟩, rfl⟩

/-- After the moment that claims it, the request is CONSUMED, at the reading it was claimed
with. -/
theorem ClaimsAt.after {m : G.service.Moment gateWorld} {i : ℕ} {id : String} {now : ℤ}
    {old : ApprovalRequest} (hclaims : ClaimsAt m i id now old)
    (hs : Service.Step G.service gateWorld run m.before m.label s') :
    ∃ r, s'.row id = some r ∧ r.status = .consumed ∧ r.consumedAt = some now ∧
      r.expiresAt = old.expiresAt := by
  obtain ⟨s₀, l⟩ := m
  obtain ⟨⟨moved, rfl⟩, hold, happroved⟩ := hclaims
  obtain ⟨rows, hmoved, rfl⟩ := hs.world
  rcases InMemoryApprovalStore.transition_eq.mp hmoved with
    ⟨-, -, hrefused⟩ | ⟨old', hold', -, -, rfl⟩
  · exact absurd (List.mem_singleton.mpr happroved) (hrefused old hold)
  · obtain rfl := Option.some.inj (hold'.symm.trans hold)
    exact ⟨old'.withStatus .consumed { consumedAt := some (some now) },
      (row_move (s := s₀) hold').trans (if_pos rfl), rfl, rfl, rfl⟩

/-- The redeem that claims a request has found it within its lifetime before. -/
theorem ClaimsAt.found_in_time (h : Exec G.service gateWorld run s) {pre post : GateRun G}
    {m : G.service.Moment gateWorld} {i : ℕ} {id : String} {now : ℤ} {old : ApprovalRequest}
    (hrun : run = pre ++ m :: post) (hclaims : ClaimsAt m i id now old) :
    ∃ t, ⟨.core .now, t⟩ ∈ history i pre ∧ t ≤ old.expiresAt := by
  obtain ⟨s₀, l⟩ := m
  obtain ⟨⟨moved, rfl⟩, hold, happroved⟩ := hclaims
  obtain ⟨hpre, -⟩ := h.split hrun
  have hb := books hpre
  have hl := ledger hpre
  obtain ⟨c, hc, ⟨hobeys, htested⟩, -⟩ := h.obeys tested_service hrun
  have hredeem : c.IsRedeem := by
    obtain ⟨chain, requestId, args, tool, -, -, rfl, -⟩ := hobeys
    exact ⟨chain, requestId, args, tool, rfl⟩
  obtain ⟨requestId, r, hget, hfound | ⟨r', moved', htold, rfl, hmove⟩⟩ := htested hredeem
  · obtain ⟨rfl, t, hread, hle⟩ := hfound
    -- the row it was told and the row of the store have one lifetime
    obtain ⟨r', hrow, hexpires⟩ := hl.told (.inl hget)
    rw [← hb.requestId_of_told (.inl hget)] at hrow
    obtain rfl := Option.some.inj (hrow.symm.trans hold)
    exact ⟨t, hread, hexpires ▸ hle⟩
  · -- a request that it tried to expire is closed
    have hid : r'.requestId = r.requestId := by
      rcases htold with rfl | htold
      · rfl
      · exact hb.requestId_of_told htold
    obtain ⟨r₁, hrow, hclosed⟩ := hl.closed hc hredeem hmove
    rw [hid] at hold
    obtain rfl := Option.some.inj (hrow.symm.trans hold)
    exact absurd (by simp [happroved]) hclosed

/-- **Every approval of the run is spent within its lifetime**: what is stored, and what was
returned. -/
structure SpentInTime (run : GateRun G) (s : GateState) : Prop where
  rows : ∀ s' ∈ states run s, ∀ {id r}, s'.row id = some r → r.status = .consumed →
    ∃ t, r.consumedAt = some t ∧ t ≤ r.expiresAt
  redeems : ∀ {i chain id args tool d},
    (calls run)[i]? = some (.redeem chain id args tool) →
    Raises.Run (G.redeem chain id args tool) (history i run) (.ok d) → d.outcome = .allow →
    (∃ now row, ⟨.consume id now, .ok (some row)⟩ ∈ history i run) ∧
      ∀ id' now row, ⟨.consume id' now, .ok (some row)⟩ ∈ history i run → now ≤ row.expiresAt

/-- Where a redeem claims a request after a reading of the clock within the lifetime of the
request, the clock has not passed the end of that lifetime since. -/
def ClockHolds (run : GateRun G) : Prop :=
  ∀ (pre : GateRun G) m post i id now old (t : ℤ), run = pre ++ m :: post →
    ClaimsAt m i id now old → (⟨.core .now, t⟩ : Event GateSig) ∈ history i pre →
    t ≤ old.expiresAt → now ≤ old.expiresAt

/-- **An approval is spent in time exactly where the clock holds.** In every run, every row
that is ever CONSUMED was consumed no later than it expires, and every redeem that returned
ALLOW claimed its request no later than that, if and only if no redeem's clock passes the end
of the lifetime between the reading that tested it and the reading it claims with. -/
theorem approvals_spent_in_time_iff (h : Exec G.service gateWorld run s) :
    SpentInTime run s ↔ ClockHolds run := by
  constructor
  · intro hspent pre m post i id now old t hrun hclaims _ _
    -- the state after the claim is one of the run, with the row CONSUMED at `now`
    have hthrough : run = (pre ++ [m]) ++ post := by simp [hrun]
    obtain ⟨s', hmem, hprefix⟩ := h.of_prefix hthrough
    obtain ⟨-, hs⟩ := hprefix.last
    obtain ⟨r, hrow, hconsumed, hat, hexpires⟩ := hclaims.after hs
    obtain ⟨t', hat', hle⟩ := hspent.rows s' hmem hrow hconsumed
    obtain rfl := Option.some.inj (hat.symm.trans hat')
    rwa [hexpires] at hle
  · intro hclock
    -- every claim of the run is made in time
    have hclaim : ∀ {m i id now old}, m ∈ run → ClaimsAt m i id now old → now ≤ old.expiresAt := by
      intro m i id now old hm hclaims
      obtain ⟨pre, post, hrun⟩ := List.append_of_mem hm
      obtain ⟨t, hread, hle⟩ := hclaims.found_in_time h hrun
      exact hclock pre m post i id now old t hrun hclaims hread hle
    refine ⟨fun s' hs' id r hrow hconsumed => ?_, fun hcall hreturned hallow => ⟨?_, ?_⟩⟩
    · obtain ⟨pre, post, rfl, hpre⟩ := h.of_mem_states hs'
      obtain ⟨now, m, i, old, hat, hm, hclaims, hexpires⟩ := (ledger hpre).claimed hrow hconsumed
      exact ⟨now, hat, hexpires ▸ hclaim (List.mem_append_left _ hm) hclaims⟩
    · obtain ⟨id', now, row, hconsume⟩ := redeem_run hreturned hallow
      obtain ⟨s₀, hmem⟩ := mem_history.mp hconsume
      obtain ⟨pre, post, hrun⟩ := List.append_of_mem hmem
      obtain rfl := consumed_is_asked h hrun hcall
      exact ⟨now, row, hconsume⟩
    · intro id' now row hconsume
      obtain ⟨s₀, hmem⟩ := mem_history.mp hconsume
      obtain ⟨pre, post, hrun⟩ := List.append_of_mem hmem
      obtain ⟨-, -, -, s₁, hstep⟩ := h.obeys spec_service hrun
      obtain ⟨old, hclaims, hexpires⟩ := claimsAt_of_consumed (G := G) (i := _) hstep
      exact hexpires ▸ hclaim hmem hclaims

/-! ### A deployment that waits too long -/

/-- alice's agent asks for a deployment, bob approves it, and the agent redeems it. -/
def timedDeploy (ttl : ℤ) : Option (Pool (waiting ttl).service gateWorld) :=
  gateDriver.play (.start (waiting ttl).service gateWorld)
    (andThen (.gate aliceDeployer "tool:deploy" none) 0 13 ++
      andThen (.resolve "aa" "user:bob" true "reviewed") 1 7 ++
      andThen (.redeem aliceDeployer "aa" none none) 2 14)

/-- The clock has never gone back. -/
def NeverBack (run : GateRun G) (s : gateWorld.State) : Prop :=
  ((states run s).map GateState.clock).Pairwise (· ≤ ·)

instance {run : GateRun G} {s : gateWorld.State} : Decidable (NeverBack run s) :=
  inferInstanceAs (Decidable (List.Pairwise _ _))

/-- The event consumed a request after its lifetime. -/
def late : Event GateSig → Bool
  | ⟨.consume _ now, .ok (some row)⟩ => row.expiresAt < now
  | _ => false

/-- No row of the store has expired where the moment consumes. -/
def timely (m : G.service.Moment gateWorld) : Bool :=
  match m.label with
  | .event _ ⟨.consume _ now, _⟩ => (show GateState from m.before).rows.all (now ≤ ·.expiresAt)
  | _ => true

theorem clockHolds_of_timely (h : run.all timely = true) : ClockHolds run := by
  intro pre m post i id now old t hrun hclaims _ _
  have hm : timely m = true := List.all_eq_true.mp h m (by simp [hrun])
  obtain ⟨s₀, l⟩ := m
  obtain ⟨⟨moved, rfl⟩, hold, -⟩ := hclaims
  exact of_decide_eq_true (List.all_eq_true.mp hm old (List.mem_of_find?_eq_some hold))

/-- An approval that the redeem still found alive, at the last instant of its lifetime, is
consumed at the next one, and the call allowed. -/
theorem approval_spent_late : ¬ ∀ (G : ActionGate) (run : GateRun G) (s : GateState),
    Exec G.service gateWorld run s → NeverBack run s → SpentInTime run s := by
  intro hall
  have hplay : (timedDeploy 3).any (fun p => decide (allowed p 2 = true ∧ NeverBack p.run p.state ∧
      (history 2 p.run).any late = true)) = true := by
    decide +kernel
  obtain ⟨p, hp, hchecks⟩ := (Option.any_eq_true _ _).mp hplay
  obtain ⟨hallowed, hback, hlate⟩ := of_decide_eq_true hchecks
  have hsound : p.Sound := Driver.sound_play Pool.sound_start hp
  obtain ⟨hcall, d, hreturned, hallow⟩ := allowed_iff hsound hallowed
  obtain ⟨-, hintime⟩ := (hall _ _ _ hsound.exec hback).redeems hcall hreturned hallow
  obtain ⟨e, hmem, he⟩ := List.any_eq_true.mp hlate
  unfold late at he
  split at he
  · next id now row =>
    have hexpired := of_decide_eq_true he
    have hle := hintime id now row hmem
    omega
  · exact absurd he (by simp)

/-- With time to spare, the deployment is redeemed in time. -/
theorem approvals_spent_in_time_deploy :
    ∃ (run : GateRun (waiting 100)) (s : GateState), Exec (waiting 100).service gateWorld run s ∧
      SpentInTime run s ∧ ∃ d, d.outcome = .allow ∧
        Raises.Run ((waiting 100).redeem aliceDeployer "aa" none none) (history 2 run) (.ok d) := by
  have hplay : (timedDeploy 100).any (fun p => allowed p 2 ∧ p.run.all timely) = true := by
    decide +kernel
  obtain ⟨p, hp, hchecks⟩ := (Option.any_eq_true _ _).mp hplay
  obtain ⟨hallowed, htimely⟩ := of_decide_eq_true hchecks
  have hsound : p.Sound := Driver.sound_play Pool.sound_start hp
  obtain ⟨-, d, hreturned, hallow⟩ := allowed_iff hsound hallowed
  exact ⟨p.run, p.state, hsound.exec,
    (approvals_spent_in_time_iff hsound.exec).mpr (clockHolds_of_timely htimely), d, hallow,
    hreturned⟩

end ActionGate

end HeadOfContext
