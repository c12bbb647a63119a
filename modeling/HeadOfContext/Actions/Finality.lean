import HeadOfContext.Actions.Spent

/-!
# When approval outcomes are final

Every writer of the store is a compare-and-set but one: `resolve_request` writes an overdue
request back as EXPIRED without looking at the row again. A run keeps every outcome exactly
when no such write lands on a request that was resolved since it was read
(`outcomes_final_iff`); `expiry_erases_rejection` is a run in which one does.
-/

namespace HeadOfContext

open Effects Except Service

namespace ActionGate

variable {G : ActionGate} {run : GateRun G} {s s' s'' : GateState}

/-! ### Outcomes -/

/-- The statuses that never change again. -/
def settled : List ApprovalStatus := [.rejected, .consumed, .expired]

/-- The moves that a request makes. -/
def legalMoves : List (ApprovalStatus × ApprovalStatus) :=
  [(.pending, .approved), (.pending, .rejected), (.pending, .expired), (.approved, .consumed),
    (.approved, .expired)]

/-- What the row `r` fixes of every later row `r'`. -/
structure RowFinal (r r' : ApprovalRequest) : Prop where
  status : r.status ∈ settled → r'.status = r.status
  resolution : r.resolvedBy ≠ none → r'.resolvedBy = r.resolvedBy ∧
    r'.resolvedAt = r.resolvedAt ∧ r'.resolutionReason = r.resolutionReason

/-- The outcomes of `s` are the ones of `s'`. -/
def Final (s s' : GateState) : Prop :=
  ∀ id r, s.row id = some r → ∃ r', s'.row id = some r' ∧ RowFinal r r'

/-- The statuses moved as they may. -/
def Moves (s s' : GateState) : Prop :=
  ∀ id r r', s.row id = some r → s'.row id = some r' → r'.status ≠ r.status →
    (r.status, r'.status) ∈ legalMoves

/-- The states that a run goes through. -/
def through (run : GateRun G) (s : GateState) : List GateState := states run s

/-- **Approval outcomes are final** in a run that ends in `s`: what a state settles holds in
every later state, and each step only makes moves that a request makes. -/
def OutcomesFinal (run : GateRun G) (s : GateState) : Prop :=
  (through run s).Pairwise Final ∧ (through run s).IsChain Moves

/-- No expiry of `resolve_request` is written over a request that has been resolved. -/
def ExpiresUnresolved (run : GateRun G) : Prop :=
  ∀ s₀ i request, ⟨s₀, .event i ⟨.update request, .ok ()⟩⟩ ∈ run →
    ∀ old, s₀.row request.requestId = some old → old.resolvedBy = none

theorem RowFinal.refl (r : ApprovalRequest) : RowFinal r r :=
  ⟨fun _ => rfl, fun _ => ⟨rfl, rfl, rfl⟩⟩

theorem RowFinal.trans {r r' r'' : ApprovalRequest} (h : RowFinal r r') (h' : RowFinal r' r'') :
    RowFinal r r'' where
  status hs := by
    have heq := h.status hs
    rw [h'.status (heq ▸ hs), heq]
  resolution hr := by
    obtain ⟨hby, hat, hreason⟩ := h.resolution hr
    obtain ⟨hby', hat', hreason'⟩ := h'.resolution (hby ▸ hr)
    exact ⟨hby'.trans hby, hat'.trans hat, hreason'.trans hreason⟩

theorem Final.refl (s : GateState) : Final s s := fun _ r hrow => ⟨r, hrow, .refl r⟩

theorem Final.trans (h : Final s s') (h' : Final s' s'') : Final s s'' := by
  intro id r hrow
  obtain ⟨r', hrow', hfinal⟩ := h id r hrow
  obtain ⟨r'', hrow'', hfinal'⟩ := h' id r' hrow'
  exact ⟨r'', hrow'', hfinal.trans hfinal'⟩

/-! ### Who resolved a request -/

/-- What a run keeps about resolutions: a PENDING row has none, and a row that was approved,
rejected or consumed has one. -/
structure Resolutions (run : GateRun G) (s : GateState) : Prop where
  pending : ∀ {id r}, s.row id = some r → r.status = .pending → r.resolvedBy = none
  resolved : ∀ {id r}, s.row id = some r →
    r.status = .approved ∨ r.status = .rejected ∨ r.status = .consumed → r.resolvedBy ≠ none
  told : ∀ {i id r}, ⟨.get id, .ok (some r)⟩ ∈ history i run → r.status = .pending →
    r.resolvedBy = none

/-- A row without a resolution is PENDING or EXPIRED. -/
theorem Resolutions.unresolved (hr : Resolutions run s) {id : String} {r : ApprovalRequest}
    (hrow : s.row id = some r) (hnone : r.resolvedBy = none) :
    r.status = .pending ∨ r.status = .expired := by
  cases hst : r.status with
  | pending => exact .inl rfl
  | expired => exact .inr rfl
  | approved => exact absurd hnone (hr.resolved hrow (.inl hst))
  | rejected => exact absurd hnone (hr.resolved hrow (.inr (.inl hst)))
  | consumed => exact absurd hnone (hr.resolved hrow (.inr (.inr hst)))

/-- What `resolve_request` writes over a row is EXPIRED, and was resolved by nobody. -/
theorem Resolutions.update (hr : Resolutions run s) {i : ℕ} {c : GateCall}
    {request : ApprovalRequest} (hobeys : G.Obeys c (history i run) (.update request)) :
    request.status = .expired ∧ request.resolvedBy = none := by
  obtain ⟨id, r, hget, hpending, rfl⟩ := hobeys
  have hnone := hr.told hget hpending
  exact ⟨rfl, hnone⟩

section Event

variable {i : ℕ} {c : GateCall} {o : GateOp} {r : o.Res}

theorem Resolutions.row_step (hr : Resolutions run s) (hobeys : G.Obeys c (history i run) o)
    {id : String} {row : ApprovalRequest} (hstep : RowStep id (s.row id) (s'.row id) ⟨o, r⟩)
    (hrow : s'.row id = some row) :
    (row.status = .pending → row.resolvedBy = none) ∧
      (row.status = .approved ∨ row.status = .rejected ∨ row.status = .consumed →
        row.resolvedBy ≠ none) := by
  -- only a resolution names who resolved, and only it leads to APPROVED or REJECTED
  cases hstep with
  | same ha _ => exact ⟨hr.pending (ha.symm.trans hrow), hr.resolved (ha.symm.trans hrow)⟩
  | created _ _ ha =>
    obtain rfl := Option.some.inj (ha.symm.trans hrow)
    obtain ⟨chain, tool, args, decision, now, id', -, rfl⟩ := hobeys
    exact ⟨fun _ => rfl, fun hst => absurd hst (by simp [newRequest])⟩
  | updated _ _ ha =>
    obtain rfl := Option.some.inj (ha.symm.trans hrow)
    obtain ⟨hst, -⟩ := hr.update hobeys
    exact ⟨fun h => absurd (hst.symm.trans h) (by simp), fun h => by simp [hst] at h⟩
  | moved _ _ ha =>
    obtain rfl := Option.some.inj (ha.symm.trans hrow)
    rcases hobeys with ⟨-, rfl, -⟩ | ⟨approver, approved, reason, now, -, -, rfl, rfl, -⟩
    · exact ⟨fun h => absurd h (by simp), fun h => absurd h (by simp)⟩
    · exact ⟨fun h => absurd h (by cases approved <;> simp [resolvedStatus]),
        fun _ => Option.some_ne_none approver⟩
  | consumed hbefore hfrom ha =>
    obtain rfl := Option.some.inj (ha.symm.trans hrow)
    have hres := hr.resolved hbefore (.inl hfrom)
    exact ⟨fun h => absurd h (by simp), fun _ => hres⟩
  | swept _ _ ha =>
    obtain rfl := Option.some.inj (ha.symm.trans hrow)
    exact ⟨fun h => absurd h (by simp), fun h => absurd h (by simp)⟩

end Event

/-- **Every run keeps it.** -/
theorem resolutions (h : Exec G.service gateWorld run s) : Resolutions run s := by
  refine h.invariant spec_service (I := Resolutions) ?_ ?_ ?_
  · exact ⟨fun hrow => (nomatch hrow), fun hrow => (nomatch hrow),
      fun hmem => absurd hmem List.not_mem_nil⟩
  · intro run s c _ hr
    refine ⟨hr.pending, hr.resolved, fun hmem => ?_⟩
    rw [history_append, history_spawn, List.append_nil] at hmem
    exact hr.told hmem
  · intro run s i c o r s' _ hr hcall hobeys hstep
    refine ⟨fun hrow => (hr.row_step hobeys (rowStep _ hstep) hrow).1,
      fun hrow => (hr.row_step hobeys (rowStep _ hstep) hrow).2, fun hmem hpending => ?_⟩
    rcases mem_history_event.mp hmem with hold | ⟨-, heq⟩
    · exact hr.told hold hpending
    · cases heq
      obtain ⟨hfound, -⟩ := hstep
      exact hr.pending hfound.symm hpending

/-! ### One step -/

section Step

variable {i : ℕ} {c : GateCall} {o : GateOp} {r : o.Res}

/-- An event that is no expiry over a resolved request keeps every outcome. -/
theorem row_final (hr : Resolutions run s) (hobeys : G.Obeys c (history i run) o) {id : String}
    {row : ApprovalRequest} (hstep : RowStep id (s.row id) (s'.row id) ⟨o, r⟩)
    (hclean : ∀ request, (⟨o, r⟩ : Event GateSig) = ⟨.update request, .ok ()⟩ →
      ∀ old, s.row request.requestId = some old → old.resolvedBy = none)
    (hrow : s.row id = some row) :
    ∃ row', s'.row id = some row' ∧ RowFinal row row' ∧
      (row'.status ≠ row.status → (row.status, row'.status) ∈ legalMoves) := by
  -- one case for each way a row can change; in each, an outcome that was given stays
  cases hstep with
  | same ha _ => exact ⟨row, ha.trans hrow, .refl row, fun hne => absurd rfl hne⟩
  | created hbefore _ _ => exact nomatch hbefore.symm.trans hrow
  | @updated old request hbefore hid ha =>
    subst hid
    obtain rfl := Option.some.inj (hbefore.symm.trans hrow)
    have hnone := hclean request rfl old hbefore
    obtain ⟨hst, -⟩ := hr.update hobeys
    refine ⟨request, ha, ⟨fun hs => ?_, fun hres => absurd hnone hres⟩, fun hne => ?_⟩
    · -- an update writes EXPIRED, over a row that was PENDING or EXPIRED
      rcases hr.unresolved hbefore hnone with hpending | hexpired
      · simp [hpending, settled] at hs
      · rw [hst, hexpired]
    · rcases hr.unresolved hbefore hnone with hpending | hexpired
      · simp [hst, hpending, legalMoves]
      · exact absurd (hst.trans hexpired.symm) hne
  | @moved old fromStatuses toStatus changes hbefore hfrom ha =>
    obtain rfl := Option.some.inj (hbefore.symm.trans hrow)
    -- a transition is a cancellation or a resolution
    rcases hobeys with ⟨rfl, rfl, rfl⟩ | ⟨approver, approved, reason, now, -, rfl, rfl, rfl, -⟩
    · have hopen : old.status = .pending ∨ old.status = .approved := by simpa using hfrom
      refine ⟨_, ha, ⟨fun hs => ?_, fun _ => ⟨rfl, rfl, rfl⟩⟩, fun _ => ?_⟩
      · rcases hopen with hst | hst <;> simp [hst, settled] at hs
      · rcases hopen with hst | hst <;> simp [hst, legalMoves]
    · have hpending : old.status = .pending := List.mem_singleton.mp hfrom
      refine ⟨_, ha, ⟨fun hs => ?_, fun hres => absurd (hr.pending hbefore hpending) hres⟩,
        fun _ => ?_⟩
      · simp [hpending, settled] at hs
      · cases approved <;> simp [hpending, resolvedStatus, legalMoves]
  | consumed hbefore hfrom ha =>
    obtain rfl := Option.some.inj (hbefore.symm.trans hrow)
    refine ⟨_, ha, ⟨fun hs => ?_, fun _ => ⟨rfl, rfl, rfl⟩⟩, fun _ => ?_⟩
    · simp [hfrom, settled] at hs
    · simp [hfrom, legalMoves]
  | swept hbefore hfrom ha =>
    obtain rfl := Option.some.inj (hbefore.symm.trans hrow)
    refine ⟨_, ha, ⟨fun hs => ?_, fun _ => ⟨rfl, rfl, rfl⟩⟩, fun _ => ?_⟩
    · simp [hfrom, settled] at hs
    · simp [hfrom, legalMoves]

/-- Such an event keeps every outcome, and makes a move that a request makes. -/
theorem event_final (hr : Resolutions run s) (hobeys : G.Obeys c (history i run) o)
    (hstep : gateWorld.step s o r s')
    (hclean : ∀ request, (⟨o, r⟩ : Event GateSig) = ⟨.update request, .ok ()⟩ →
      ∀ old, s.row request.requestId = some old → old.resolvedBy = none) :
    Final s s' ∧ Moves s s' := by
  constructor
  · intro id row hrow
    obtain ⟨row', hrow', hfinal, -⟩ := row_final hr hobeys (rowStep id hstep) hclean hrow
    exact ⟨row', hrow', hfinal⟩
  · intro id row row' hrow hrow' hne
    obtain ⟨row'', hrow'', -, hmove⟩ := row_final hr hobeys (rowStep id hstep) hclean hrow
    obtain rfl := Option.some.inj (hrow'.symm.trans hrow'')
    exact hmove hne

/-- An expiry of `resolve_request` that keeps every outcome was written over a request that
nobody had resolved. -/
theorem unresolved_of_final (hr : Resolutions run s) {request : ApprovalRequest}
    (hobeys : G.Obeys c (history i run) (.update request))
    (hstep : gateWorld.step s (.update request) (.ok ()) s') (hfinal : Final s s')
    {old : ApprovalRequest} (hrow : s.row request.requestId = some old) :
    old.resolvedBy = none := by
  obtain ⟨row, hrow', hkeep⟩ := hfinal _ old hrow
  obtain ⟨rows, hupdate, rfl⟩ := hstep
  obtain ⟨-, rfl⟩ := InMemoryApprovalStore.update_eq_ok.mp hupdate
  rw [row_put hrow, if_pos rfl] at hrow'
  obtain rfl := Option.some.inj hrow'
  -- the row that was written has no resolution
  by_contra hres
  obtain ⟨hby, -⟩ := hkeep.resolution hres
  exact hres (hby.symm.trans (hr.update hobeys).2)

end Step

/-! ### Whole runs -/

section Runs

variable {l : G.service.Label}

theorem through_snoc : through (run ++ [⟨s, l⟩]) s' = through run s ++ [s'] := states_snoc

theorem final_of_mem {a : GateState} (h : (through run s).Pairwise Final)
    (ha : a ∈ through run s) : Final a s := by
  rcases List.mem_append.mp ha with hbefore | hlast
  · exact (List.pairwise_append.mp h).2.2 a hbefore s (List.mem_singleton.mpr rfl)
  · obtain rfl := List.mem_singleton.mp hlast
    exact .refl a

/-- The outcomes of a longer run. -/
theorem outcomesFinal_snoc :
    OutcomesFinal (run ++ [⟨s, l⟩]) s' ↔ OutcomesFinal run s ∧ Final s s' ∧ Moves s s' := by
  have hlast : (through run s).getLast? = some s := List.getLast?_concat
  unfold OutcomesFinal
  rw [through_snoc, List.pairwise_append, List.isChain_append, hlast]
  constructor
  · rintro ⟨⟨hpairs, -, hall⟩, hchain, -, hmoves⟩
    have hs : s ∈ through run s := List.mem_of_getLast? hlast
    exact ⟨⟨hpairs, hchain⟩, hall s hs s' (List.mem_singleton.mpr rfl), hmoves s rfl s' rfl⟩
  · rintro ⟨⟨hpairs, hchain⟩, hfinal, hmoves⟩
    refine ⟨⟨hpairs, List.pairwise_singleton _ _, fun a ha b hb => ?_⟩, hchain,
      List.isChain_singleton _, fun a ha b hb => ?_⟩
    · obtain rfl := List.mem_singleton.mp hb
      exact (final_of_mem hpairs ha).trans hfinal
    · obtain rfl := Option.some.inj ha
      obtain rfl := Option.some.inj hb
      exact hmoves

theorem expiresUnresolved_snoc :
    ExpiresUnresolved (run ++ [⟨s, l⟩]) ↔ ExpiresUnresolved run ∧
      ∀ i request, l = .event i ⟨.update request, .ok ()⟩ →
        ∀ old, s.row request.requestId = some old → old.resolvedBy = none := by
  constructor
  · intro h
    refine ⟨fun s₀ i request hmem => h s₀ i request (List.mem_append_left _ hmem),
      fun i request hl => h s i request ?_⟩
    subst hl
    exact List.mem_append_right _ (List.mem_singleton.mpr rfl)
  · rintro ⟨hrun, hlast⟩ s₀ i request hmem
    rcases List.mem_append.mp hmem with hold | hnow
    · exact hrun s₀ i request hold
    · cases List.mem_singleton.mp hnow
      exact hlast i request rfl

/-- **When approval outcomes are final.** A run keeps every outcome exactly when each expiry
that `resolve_request` wrote back fell on a request that nobody had resolved. -/
theorem outcomes_final_iff (h : Exec G.service gateWorld run s) :
    OutcomesFinal run s ↔ ExpiresUnresolved run := by
  -- the induction is on the run; both sides say of the last step what they say of it alone
  induction h with
  | start =>
    refine ⟨fun _ s₀ i request hmem => absurd hmem List.not_mem_nil, fun _ => ?_⟩
    exact ⟨List.pairwise_singleton _ _, List.isChain_singleton _⟩
  | @step run s s' l h hs ih =>
    refine outcomesFinal_snoc.trans (Iff.trans ?_ expiresUnresolved_snoc.symm)
    rw [ih]
    refine and_congr_right fun _ => ?_
    have hr := resolutions h
    cases hs with
    | spawn c =>
      refine ⟨fun _ i request hl => (nomatch hl), fun _ => ⟨.refl s, ?_⟩⟩
      intro id row row' hrow hrow' hne
      obtain rfl := Option.some.inj (hrow.symm.trans hrow')
      exact absurd rfl hne
    | @event i c o k r s' hcall hpath hstep =>
      have hobeys : G.Obeys c (history i run) o := by
        have hspec := (spec_service (G := G) c).path hpath
        rw [List.nil_append] at hspec
        exact hspec.1
      constructor
      · rintro ⟨hfinal, -⟩ j request hl old hrow
        cases hl
        exact unresolved_of_final hr hobeys hstep hfinal hrow
      · intro hclean
        refine event_final hr hobeys hstep fun request heq => ?_
        exact hclean i request (congrArg _ heq)

end Runs

/-! ### Two late resolutions -/

/-- The outcome of the request in a state. -/
def outcomeOf (s : GateState) (id : String) : Option (ApprovalStatus × Option String) :=
  (s.row id).map fun r => (r.status, r.resolvedBy)

/-- **It can fail.** bob and carol resolve a request at its deadline. bob reads the clock in
time and carol too late; carol reads the row while it is PENDING, bob rejects it, and carol
writes it back as EXPIRED. -/
theorem expiry_erases_rejection :
    ∃ (run : GateRun (waiting 2)) (s : GateState), Exec (waiting 2).service gateWorld run s ∧
      ¬ OutcomesFinal run s ∧
      (∃ s₀ ∈ through run s, outcomeOf s₀ "aa" = some (.rejected, some "user:bob")) ∧
      outcomeOf s "aa" = some (.expired, none) := by
  have hplay : (gateDriver.play (.start (waiting 2).service gateWorld)
      (andThen (.gate aliceDeployer "tool:deploy" none) 0 13 ++
        andThen (.resolve "aa" "user:bob" false "no") 1 1 ++
        andThen (.resolve "aa" "user:carol" true "yes") 2 4 ++
        List.replicate 6 (.next 1) ++ [.next 2])).any (fun p =>
          p.run.any (fun m => outcomeOf m.before "aa" = some (.rejected, some "user:bob")) &&
          decide (outcomeOf p.state "aa" = some (.expired, none))) = true := by
    decide +kernel
  obtain ⟨p, hp, htest⟩ := (Option.any_eq_true _ _).mp hplay
  have hsound : p.Sound := Driver.sound_play Pool.sound_start hp
  obtain ⟨hrejected, hexpired⟩ := Bool.and_eq_true_iff.mp htest
  obtain ⟨m, hm, hm'⟩ := List.any_eq_true.mp hrejected
  have hbefore : outcomeOf m.before "aa" = some (.rejected, some "user:bob") :=
    of_decide_eq_true hm'
  have hafter : outcomeOf p.state "aa" = some (.expired, none) := of_decide_eq_true hexpired
  have hmem : m.before ∈ through p.run p.state :=
    List.mem_append_left _ (List.mem_map_of_mem hm)
  refine ⟨p.run, p.state, hsound.exec, ?_, ⟨m.before, hmem, hbefore⟩, hafter⟩
  rintro ⟨hpairs, -⟩
  obtain ⟨r, hrow, hr⟩ := Option.map_eq_some_iff.mp hbefore
  obtain ⟨r', hrow', hkeep⟩ := final_of_mem hpairs hmem "aa" r hrow
  -- REJECTED is settled, and yet the row is EXPIRED
  obtain ⟨r'', hrow'', hr''⟩ := Option.map_eq_some_iff.mp hafter
  obtain rfl := Option.some.inj (hrow'.symm.trans hrow'')
  have hst : r.status = .rejected := congrArg Prod.fst hr
  have hst' : r'.status = .expired := congrArg Prod.fst hr''
  have hkept : r'.status = r.status := hkeep.status (by simp [hst, settled])
  rw [hst, hst'] at hkept
  exact absurd hkept (by simp)

/-- The moment writes no expiry over a resolved request. -/
def isUnresolved (m : (waiting 0).service.Moment gateWorld) : Bool :=
  match m.label with
  | .event _ ⟨.update request, .ok ()⟩ =>
    (GateState.row m.before request.requestId).all fun old => old.resolvedBy = none
  | _ => true

/-- The request is overdue when bob resolves it, and nobody has resolved it before. -/
theorem outcomes_final_iff_overdue :
    ∃ (run : GateRun (waiting 0)) (s : GateState), OutcomesFinal run s ∧
      outcomeOf s "aa" = some (.expired, none) := by
  have hplay : (gateDriver.play (.start (waiting 0).service gateWorld)
      (andThen (.gate aliceDeployer "tool:deploy" none) 0 13 ++
        andThen (.resolve "aa" "user:bob" true "yes") 1 5)).any (fun p =>
          p.run.all isUnresolved && decide (outcomeOf p.state "aa" = some (.expired, none))) =
            true := by
    decide +kernel
  obtain ⟨p, hp, htest⟩ := (Option.any_eq_true _ _).mp hplay
  have hsound : p.Sound := Driver.sound_play Pool.sound_start hp
  obtain ⟨hall, hexpired⟩ := Bool.and_eq_true_iff.mp htest
  refine ⟨p.run, p.state, (outcomes_final_iff hsound.exec).mpr ?_, of_decide_eq_true hexpired⟩
  intro s₀ i request hmem old hrow
  have hun : (s₀.row request.requestId).all (fun old => old.resolvedBy = none) = true :=
    List.all_eq_true.mp hall _ hmem
  rw [hrow] at hun
  exact of_decide_eq_true hun

end ActionGate

end HeadOfContext
