import HeadOfContext.Actions.GateCalls
import HeadOfContext.Core.DeciderSafety

/-!
# What the gate journals

A gate call decides once, and journals the decision before anything else is written. It raises
when the audit sink fails, when the approval store raises, or when a channel fails in its own
way (`stopsAt_gate`, `stopsAt_redeem`); what it returns is journaled (`gate_journals`,
`redeem_journals`), and where it raises although the sink works, it has denied nothing
(`hushed_gate`, `hushed_redeem`).
-/

namespace HeadOfContext

open Effects Except

/-! ### Reading a run -/

/-- The value is this text. -/
def isText : Json → String → Bool
  | .str s, t => s = PyStr.ofString t
  | _, _ => false

/-- The event is a decision that denies the resource. -/
def AuditEvent.isDenial (e : AuditEvent) (resource : String) : Bool :=
  e.kind = .decision && isText e.outcome Outcome.deny.str && isText e.resource resource

namespace GateOp

/-- The audit sink accepted a decision that denies the resource. -/
def denies (resource : String) : Event GateSig → Bool
  | ⟨.core (.record e), .ok ()⟩ => e.isDenial resource
  | _ => false

/-- The audit sink failed. -/
def SinkFails : Event GateSig → Prop
  | ⟨.core (.record _), .error _⟩ => True
  | _ => False

/-- The gate meets an exception that it lets pass: one of the approval store, or one of a
channel that is no `ApprovalChannelError`. -/
def Escapes : Event GateSig → Prop
  | ⟨.create _, .error _⟩ => True
  | ⟨.get _, .error _⟩ => True
  | ⟨.transition _ _ _ _, .error _⟩ => True
  | ⟨.consume _ _, .error _⟩ => True
  | ⟨.notify _ _, .error (.hoc exc)⟩ => exc.cls ≠ .approvalChannelError
  | ⟨.notify _ _, .error (.other _)⟩ => True
  | _ => False

/-- The audit sink accepted the event of the decision. -/
def Records (d : Decision) : Event GateSig → Prop
  | ⟨.core (.record e), r⟩ => Journals d (e, r)
  | _ => False

/-- A call that journals no decision. -/
def Undecided : GateOp → Prop
  | .core (.record e) => e.kind ≠ .decision
  | _ => True

end GateOp

/-! ### The decision path -/

/-- The audit sink of the core failed. -/
def CoreOp.SinkFails : Event CoreSig → Prop
  | ⟨.record _, .error _⟩ => True
  | _ => False

namespace Decider

variable {D : Decider} {chain : PrincipalChain} {action : Action}

theorem stopsAt_policyVerdict {resource : String} {args : Args} {context : DecisionContext} :
    Raises.StopsAt CoreOp.SinkFails (D.policyVerdict chain action resource args context) := by
  unfold policyVerdict
  split_ifs with hp
  · refine Raises.stopsAt_attempt (fun r hbad => hbad.elim) fun answer _ => ?_
    match answer with
    | .error _ => exact Raises.stopsAt_pure _
    | .ok verdict =>
      change Raises.StopsAt _ (if verdict.outcome = .allow then _ else _)
      split_ifs
      · exact Raises.stopsAt_pure _
      · exact Raises.stopsAt_pure _
  · exact Raises.stopsAt_pure _

/-- The engine and the policy never make a decision raise. -/
theorem stopsAt_evaluate {resource : String} {args : Args} {context : DecisionContext} :
    Raises.StopsAt CoreOp.SinkFails (D.evaluate chain action resource args context) := by
  unfold evaluate
  split_ifs with hs
  · exact Raises.stopsAt_pure _
  refine Raises.stopsAt_attempt (fun r hbad => hbad.elim) fun answer _ => ?_
  refine .bind (Raises.stopsAt_lift_invoke fun _ => id) fun latencyMs => ?_
  match answer with
  | .error (.hoc exc) => exact Raises.stopsAt_pure _
  | .error (.other _) => exact Raises.stopsAt_pure _
  | .ok false => exact Raises.stopsAt_pure _
  | .ok true => exact .bind stopsAt_policyVerdict fun verdict => Raises.stopsAt_pure _

/-- A decision about a valid resource raises only when the audit sink does. -/
theorem stopsAt_decide {resource : String} {args : Option Args} {context : Option DecisionContext}
    (hresource : isResourcePattern resource = true) :
    Raises.StopsAt CoreOp.SinkFails (D.decide chain action resource args context) := by
  have hpattern : validateResourcePattern resource = .ok resource :=
    validateResourcePattern_eq_ok.mpr ⟨hresource, rfl⟩
  have hsubject : validateRef chain.subject "user" = .ok chain.subject :=
    validateRef_eq_ok.mpr ⟨chain.subject_isRef, rfl⟩
  unfold decide
  rw [hpattern, hsubject]
  refine .bind (Raises.stopsAt_pure _) fun _ => .bind (Raises.stopsAt_pure _) fun _ => ?_
  refine .bind stopsAt_evaluate fun judged =>
    .bind (Raises.stopsAt_lift_invoke fun _ => id) fun _ => ?_
  refine .bind (Raises.stopsAt_lift_invoke fun _ => id) fun decisionId => ?_
  refine .bind (Raises.stopsAt_lift_invoke fun _ => id) fun eventId => ?_
  refine .bind (Raises.stopsAt_mk fun r => ?_) fun _ => Raises.stopsAt_pure _
  cases r with
  | error x => exact ⟨fun _ => ⟨x, rfl⟩, fun _ => trivial⟩
  | ok u => exact ⟨fun hbad => hbad.elim, fun ⟨x, hx⟩ => (nomatch hx)⟩

end Decider

/-! ### The gate -/

namespace ActionGate

variable {G : ActionGate} {chain : PrincipalChain}

/-- What makes the gate raise, once the tool has a valid name. -/
def Trips (e : Event GateSig) : Prop := GateOp.SinkFails e ∨ GateOp.Escapes e

theorem stopsAt_core {α : Type} {p : Core α} (hp : Raises.StopsAt CoreOp.SinkFails p) :
    Raises.StopsAt Trips (Gated.core p) := by
  refine hp.embed fun o r => ?_
  have hescapes : ¬ GateOp.Escapes ⟨.core o, r⟩ := id
  refine (or_iff_left hescapes).trans ?_
  cases o with
  | record e =>
    match r with
    | .error x => exact Iff.rfl
    | .ok () => exact Iff.rfl
  | _ => exact Iff.rfl

theorem stopsAt_now : Raises.StopsAt Trips Gated.now :=
  Raises.stopsAt_lift_invoke fun _ h => h.elim id id

theorem stopsAt_uuid4 : Raises.StopsAt Trips Gated.uuid4 :=
  Raises.stopsAt_lift_invoke fun _ h => h.elim id id

theorem stopsAt_record {e : AuditEvent} : Raises.StopsAt Trips (Gated.record e) := by
  refine Raises.stopsAt_mk fun r => ?_
  cases r with
  | error x => exact ⟨fun _ => ⟨x, rfl⟩, fun _ => .inl trivial⟩
  | ok u => exact ⟨fun h => (h.elim id id).elim, fun ⟨x, hx⟩ => (nomatch hx)⟩

/-- A call of the approval store. -/
theorem stopsAt_store {α : Type} {o : GateOp} {k : GateOp.Res o → Except Exn α}
    (hsink : ∀ r, ¬ GateOp.SinkFails ⟨o, r⟩)
    (h : ∀ r, GateOp.Escapes ⟨o, r⟩ ↔ ∃ x, k r = .error x) :
    Raises.StopsAt (S := GateSig) Trips ⟨.call o fun r => .ret (k r)⟩ := by
  refine Raises.stopsAt_mk fun r => ?_
  rw [Trips, or_iff_right (hsink r)]
  exact h r

theorem stopsAt_get {id : String} : Raises.StopsAt Trips (Gated.get id) := by
  refine stopsAt_store (fun _ h => h) fun r => ?_
  cases r with
  | error x => exact ⟨fun _ => ⟨x, rfl⟩, fun _ => trivial⟩
  | ok u => exact ⟨fun h => h.elim, fun ⟨x, hx⟩ => (nomatch hx)⟩

theorem stopsAt_create {request : ApprovalRequest} :
    Raises.StopsAt Trips (Gated.create request) := by
  refine stopsAt_store (fun _ => id) fun r => ?_
  cases r with
  | error x => exact ⟨fun _ => ⟨x, rfl⟩, fun _ => trivial⟩
  | ok u => exact ⟨fun h => h.elim, fun ⟨x, hx⟩ => (nomatch hx)⟩

theorem stopsAt_transition {id : String} {fromStatuses : List ApprovalStatus}
    {toStatus : ApprovalStatus} {changes : Changes} :
    Raises.StopsAt Trips (Gated.transition id fromStatuses toStatus changes) := by
  refine stopsAt_store (fun _ h => h) fun r => ?_
  cases r with
  | error x => exact ⟨fun _ => ⟨x, rfl⟩, fun _ => trivial⟩
  | ok u => exact ⟨fun h => h.elim, fun ⟨x, hx⟩ => (nomatch hx)⟩

theorem stopsAt_consume {id : String} {now : ℤ} :
    Raises.StopsAt Trips (Gated.consume id now) := by
  refine stopsAt_store (fun _ h => h) fun r => ?_
  cases r with
  | error x => exact ⟨fun _ => ⟨x, rfl⟩, fun _ => trivial⟩
  | ok u => exact ⟨fun h => h.elim, fun ⟨x, hx⟩ => (nomatch hx)⟩

theorem stopsAt_recordEvent {kind : EventKind} {request : ApprovalRequest}
    {outcome reason : String} :
    Raises.StopsAt Trips (recordEvent kind request outcome reason) :=
  .bind stopsAt_now fun _ => .bind stopsAt_uuid4 fun _ => stopsAt_record

/-- A failing channel is recorded and skipped, if it fails as channels do. -/
theorem stopsAt_notify {request : ApprovalRequest} {channels : List String} :
    Raises.StopsAt Trips (notify request channels) := by
  induction channels with
  | nil => exact Raises.stopsAt_pure _
  | cons channel rest ih =>
    refine Raises.stopsAt_attempt (fun r hbad => ?_) fun r hgood => ?_
    · match r with
      | .ok () => exact (hbad.elim id id).elim
      | .error (.other name) => exact ⟨.other name, rfl⟩
      | .error (.hoc exc) =>
        have hother : exc.cls ≠ .approvalChannelError := hbad.elim False.elim id
        refine ⟨.hoc exc, ?_⟩
        change (if exc.cls = .approvalChannelError then _ else _) = _
        rw [if_neg hother]
    · match r with
      | .ok () => exact ih
      | .error (.other name) => exact absurd (.inr trivial) hgood
      | .error (.hoc exc) =>
        have hchannel : exc.cls = .approvalChannelError := not_not.mp fun h => hgood (.inr h)
        change Raises.StopsAt _ (if exc.cls = .approvalChannelError then _ else _)
        rw [if_pos hchannel]
        exact .bind stopsAt_recordEvent fun _ => ih

theorem stopsAt_deny {tool : String} {args : Args} {reason : String} :
    Raises.StopsAt Trips (G.deny chain tool args reason) :=
  .bind stopsAt_now fun _ => .bind stopsAt_uuid4 fun _ => .bind stopsAt_uuid4 fun _ =>
    .bind stopsAt_record fun _ => Raises.stopsAt_pure _

theorem stopsAt_expireIfNeeded {request : ApprovalRequest} :
    Raises.StopsAt Trips (expireIfNeeded request) := by
  unfold expireIfNeeded
  split_ifs with hopen
  · refine .bind stopsAt_now fun now => ?_
    split_ifs with hdue
    · refine .bind stopsAt_transition fun expired => ?_
      match expired with
      | some expired => exact Raises.stopsAt_pure _
      | none => exact .bind stopsAt_get fun again => Raises.stopsAt_pure _
    · exact Raises.stopsAt_pure _
  · exact Raises.stopsAt_pure _

/-- A gate call about a valid tool raises only when a collaborator makes it. -/
theorem stopsAt_gate {tool : String} {args : Option Args} (htool : isRef tool "tool" = true) :
    Raises.StopsAt Trips (G.gate chain tool args) := by
  have href : validateRef tool "tool" = .ok tool := validateRef_eq_ok.mpr ⟨htool, rfl⟩
  unfold gate
  rw [href]
  refine .bind (Raises.stopsAt_pure _) fun _ => ?_
  refine .bind (stopsAt_core (Decider.stopsAt_decide (isResourcePattern_of_isRef htool)))
    fun decision => ?_
  split_ifs with houtcome
  · exact Raises.stopsAt_pure _
  · exact .bind stopsAt_now fun now => .bind stopsAt_uuid4 fun requestId =>
      .bind stopsAt_create fun _ => .bind stopsAt_recordEvent fun _ => .bind stopsAt_notify fun _ =>
        Raises.stopsAt_pure _

/-- `x or y` is `x`, for a reference. -/
theorem strOr_ref {tool y : String} (htool : isRef tool "tool" = true) :
    strOr (some tool) y = tool := by
  refine if_neg ?_
  rintro rfl
  exact absurd htool (by decide)

theorem stopsAt_redeem {requestId tool : String} {args : Option Args}
    (htool : isRef tool "tool" = true) :
    Raises.StopsAt Trips (G.redeem chain requestId args (some tool)) := by
  refine .bind stopsAt_get fun found => ?_
  match found with
  | none => exact stopsAt_deny
  | some request =>
    have hpattern : validateResourcePattern tool = .ok tool :=
      validateResourcePattern_eq_ok.mpr ⟨isResourcePattern_of_isRef htool, rfl⟩
    dsimp only
    rw [strOr_ref htool, hpattern]
    refine .bind (Raises.stopsAt_pure _) fun _ => .bind stopsAt_expireIfNeeded fun request => ?_
    match G.mismatch request chain tool (args.getD []) with
    | some reason => exact stopsAt_deny
    | none =>
      refine .bind stopsAt_now fun now => .bind stopsAt_consume fun consumed => ?_
      match consumed with
      | none => exact stopsAt_deny
      | some consumed =>
        refine .bind (stopsAt_core (Decider.stopsAt_decide (isResourcePattern_of_isRef htool)))
          fun decision => ?_
        exact .bind stopsAt_recordEvent fun _ => Raises.stopsAt_pure _

/-! ### What the gate has journaled when it raises -/

section Hushed

variable {α β : Type} {resource : String}

/-- A call of the core. -/
def IsCore : GateOp → Prop
  | .core _ => True
  | _ => False

theorem denies_of_undecided {e : Event GateSig} (he : GateOp.Undecided e.op) :
    GateOp.denies resource e = false := by
  obtain ⟨o, r⟩ := e
  match o, r with
  | .core (.record e), .ok () =>
    have hkind : e.kind ≠ .decision := he
    simp [GateOp.denies, AuditEvent.isDenial, hkind]
  | .core (.record e), .error x => rfl
  | .core .now, _ => rfl
  | .core .uuid4, _ => rfl
  | .core .elapsedMs, _ => rfl
  | .core (.check _ _ _), _ => rfl
  | .core (.batchCheck _ _), _ => rfl
  | .core (.policy _ _ _ _ _), _ => rfl
  | .create _, _ => rfl
  | .get _, _ => rfl
  | .update _, _ => rfl
  | .transition _ _ _ _, _ => rfl
  | .consume _ _, _ => rfl
  | .listPending _, _ => rfl
  | .expirePending _, _ => rfl
  | .notify _ _, _ => rfl

theorem filter_denies_of_calls {p : Gated α} (hp : Raises.Calls (S := GateSig) GateOp.Undecided p)
    {tr : Trace GateSig} {r : Except Exn α} (h : Raises.Run p tr r) :
    tr.filter (GateOp.denies resource) = [] := by
  refine List.filter_eq_nil_iff.mpr fun e he => ?_
  rw [denies_of_undecided (hp.of_run h he)]
  exact Bool.false_ne_true

/-- Where the program raises and the sink has not failed, nothing was denied. -/
def Hushed (resource : String) (p : Gated α) : Prop :=
  ∀ tr x, Raises.Run p tr (.error x) →
    (∃ e ∈ tr, GateOp.SinkFails e) ∨ tr.filter (GateOp.denies resource) = []

theorem hushed_of_calls {p : Gated α} (hp : Raises.Calls (S := GateSig) GateOp.Undecided p) :
    Hushed resource p := fun _ _ h => .inr (filter_denies_of_calls hp h)

theorem Hushed.bind {p : Gated α} {f : α → Gated β}
    (hp : Raises.Calls (S := GateSig) GateOp.Undecided p) (hf : ∀ a, Hushed resource (f a)) :
    Hushed resource (p >>= f) := by
  intro tr x h
  rcases Raises.run_bind.mp h with ⟨y, h₁, -⟩ | ⟨a, tr₁, tr₂, rfl, h₁, h₂⟩
  · exact .inr (filter_denies_of_calls hp h₁)
  · rcases hf a tr₂ x h₂ with ⟨e, he, hfails⟩ | hnone
    · exact .inl ⟨e, List.mem_append_right _ he, hfails⟩
    · right
      rw [List.filter_append, filter_denies_of_calls hp h₁, hnone, List.append_nil]

/-- A program that only calls the core raises only when the sink does. -/
theorem hushed_of_core {p : Gated α} (hstops : Raises.StopsAt Trips p)
    (hp : Raises.Calls (S := GateSig) IsCore p) : Hushed resource p := by
  intro tr x h
  obtain ⟨pre, e, rfl, -, hbad⟩ := (hstops.run h).2 x rfl
  have hmem : e ∈ pre ++ [e] := List.mem_append_right _ (List.mem_singleton.mpr rfl)
  refine .inl ⟨e, hmem, hbad.resolve_right fun hescapes => ?_⟩
  have hcore : IsCore e.op := hp.of_run h hmem
  obtain ⟨o, r⟩ := e
  cases o with
  | core o => exact hescapes
  | _ => exact hcore

theorem undecided_incidental : GateOp.Incidental GateOp.Undecided :=
  ⟨trivial, trivial, fun _ h => h, fun _ _ => trivial⟩

theorem undecided_expireIfNeeded {request : ApprovalRequest} :
    Raises.Calls (S := GateSig) GateOp.Undecided (expireIfNeeded request) :=
  undecided_incidental.calls_expireIfNeeded (fun _ _ => trivial) trivial

theorem core_now : Raises.Calls (S := GateSig) IsCore Gated.now := Raises.calls_lift_invoke trivial

theorem core_uuid4 : Raises.Calls (S := GateSig) IsCore Gated.uuid4 :=
  Raises.calls_lift_invoke trivial

theorem core_record {e : AuditEvent} : Raises.Calls (S := GateSig) IsCore (Gated.record e) :=
  ⟨trivial, fun _ => trivial⟩

theorem core_core {p : Core α} : Raises.Calls (S := GateSig) IsCore (Gated.core p) :=
  Raises.Calls.embed fun _ => trivial

theorem hushed_deny {chain : PrincipalChain} {tool : String} {args : Args} {reason : String} :
    Hushed resource (G.deny chain tool args reason) :=
  hushed_of_core stopsAt_deny (.bind core_now fun _ => .bind core_uuid4 fun _ =>
    .bind core_uuid4 fun _ => .bind core_record fun _ => Raises.calls_pure _)

end Hushed

/-! ### What the gate has journaled when it returns -/

section Records

variable {resource tool : String} {args : Option Args} {tr : Trace GateSig} {d : Decision}

/-- The decision path journals its decision, and nothing else. -/
theorem decide_journals (resource : String) {context : Option DecisionContext}
    (h : Raises.Run (Gated.core (G.decider.decide chain .invoke tool args context)) tr (.ok d)) :
    (∃ e ∈ tr, GateOp.Records d e) ∧
      (d.outcome ≠ .deny → tr.filter (GateOp.denies resource) = []) := by
  obtain ⟨tr₀, rfl, h₀⟩ := Gated.run_core.mp h
  have hjournal := (Decider.decide_run h₀).journal
  obtain ⟨entry, rest, hentry, hrest, heq⟩ := List.forall₂_cons_left_iff.mp hjournal
  obtain rfl := List.forall₂_nil_left_iff.mp hrest
  -- the trace of `decide` holds one journaling call, the one of its decision
  have hread : ∀ {e : AuditEvent} {r : Except Exn Unit},
      (⟨.record e, r⟩ : Event CoreSig) ∈ tr₀ ↔ (e, r) = entry := by
    intro e r
    rw [← List.mem_singleton, ← heq, recordings, List.mem_filterMap]
    constructor
    · intro hmem
      exact ⟨_, hmem, rfl⟩
    · rintro ⟨⟨o, r'⟩, hmem, hrec⟩
      cases o with
      | record e' =>
        obtain ⟨rfl, rfl⟩ := Prod.mk.inj (Option.some.inj hrec)
        exact hmem
      | _ => exact nomatch hrec
  refine ⟨⟨⟨.core (.record entry.1), entry.2⟩, ?_, hentry⟩, fun hne => ?_⟩
  · exact List.mem_map.mpr ⟨_, hread.mpr rfl, rfl⟩
  · refine List.filter_eq_nil_iff.mpr fun e he hdenies => ?_
    obtain ⟨⟨o, r⟩, hmem, rfl⟩ := List.mem_map.mp he
    -- a denial in the journal would be that entry, whose outcome is the one of the decision
    match o, r with
    | .record e, .ok () =>
      obtain rfl := hread.mp hmem
      have hdenial : e.isDenial resource = true := hdenies
      have houtcome : e.outcome = (d.outcome.str : Json) := hentry.outcome
      rw [AuditEvent.isDenial, houtcome] at hdenial
      cases hd : d.outcome with
      | deny => exact hne hd
      | allow => simp [hd, isText, Outcome.str, PyStr.ofString] at hdenial
      | requireApproval => simp [hd, isText, Outcome.str, PyStr.ofString] at hdenial
    | .record e, .error x => exact nomatch hdenies
    | .now, _ => exact nomatch hdenies
    | .uuid4, _ => exact nomatch hdenies
    | .elapsedMs, _ => exact nomatch hdenies
    | .check _ _ _, _ => exact nomatch hdenies
    | .batchCheck _ _, _ => exact nomatch hdenies
    | .policy _ _ _ _ _, _ => exact nomatch hdenies

theorem deny_journals {reason : String} {args : Args}
    (h : Raises.Run (G.deny chain tool args reason) tr (.ok d)) :
    ∃ e ∈ tr, GateOp.Records d e := by
  unfold deny at h
  obtain ⟨now, tr₁, tr₂, rfl, -, h₂⟩ := Raises.run_bind_ok.mp h
  obtain ⟨decisionId, tr₃, tr₄, rfl, -, h₃⟩ := Raises.run_bind_ok.mp h₂
  obtain ⟨eventId, tr₅, tr₆, rfl, -, h₄⟩ := Raises.run_bind_ok.mp h₃
  obtain ⟨_, tr₇, tr₈, rfl, hrecord, h₅⟩ := Raises.run_bind_ok.mp h₄
  obtain rfl := Raises.run_invoke.mp hrecord
  obtain ⟨rfl, rfl⟩ := Raises.run_pure_ok.mp h₅
  refine ⟨_, by simp; exact .inr (.inr (.inr rfl)), ?_⟩
  exact ⟨rfl, rfl, rfl, rfl, rfl⟩

theorem gate_journals {result : GateResult}
    (h : Raises.Run (G.gate chain tool args) tr (.ok result)) :
    ∃ e ∈ tr, GateOp.Records result.decision e := by
  obtain ⟨tr₀, tr₁, tr₂, rfl, hdecide⟩ := gate_decides h
  obtain ⟨⟨e, he, hrecords⟩, -⟩ := decide_journals tool hdecide
  exact ⟨e, List.mem_append_right _ (List.mem_append_left _ he), hrecords⟩

/-- A gate call that raises has denied nothing. -/
theorem hushed_gate : Hushed resource (G.gate chain tool args) := by
  by_cases htool : isRef tool "tool" = true
  · have href : validateRef tool "tool" = .ok tool := validateRef_eq_ok.mpr ⟨htool, rfl⟩
    unfold gate
    rw [href]
    refine .bind trivial fun _ => ?_
    intro tr x h
    rcases Raises.run_bind.mp h with ⟨y, h₁, -⟩ | ⟨decision, tr₁, tr₂, rfl, h₁, h₂⟩
    · exact hushed_of_core
        (stopsAt_core (Decider.stopsAt_decide (isResourcePattern_of_isRef htool))) core_core _ _ h₁
    · -- the decision was to ask, and the rest journals no decision
      split_ifs at h₂ with houtcome
      · exact absurd (Raises.run_pure.mp h₂).2 (by simp)
      · have hnone := (decide_journals resource h₁).2
          (by rw [not_not.mp houtcome]; decide)
        have hrest : tr₂.filter (GateOp.denies resource) = [] := by
          refine filter_denies_of_calls ?_ h₂
          exact .bind undecided_incidental.calls_now fun now =>
            .bind undecided_incidental.calls_uuid4 fun requestId =>
            .bind (Raises.calls_invoke trivial) fun _ =>
              .bind (undecided_incidental.calls_recordEvent (by decide)) fun _ =>
              .bind undecided_incidental.calls_notify fun _ => Raises.calls_pure _
        right
        rw [List.filter_append, hnone, hrest, List.append_nil]
  · have href : validateRef tool "tool" = .error _ := if_neg htool
    unfold gate
    rw [href]
    exact hushed_of_calls (Raises.calls_raise _)

theorem redeem_journals {requestId : String} {wanted : Option String}
    (h : Raises.Run (G.redeem chain requestId args wanted) tr (.ok d)) :
    ∃ e ∈ tr, GateOp.Records d e := by
  unfold redeem at h
  obtain ⟨found, tr₁, tr₂, rfl, -, h₂⟩ := Raises.run_bind_ok.mp h
  -- a redeem that returns ends in `_deny` or in the decision that it journals
  match found with
  | none =>
    obtain ⟨e, he, hrecords⟩ := deny_journals h₂
    exact ⟨e, List.mem_append_right _ he, hrecords⟩
  | some r₀ =>
    obtain ⟨_, tr₃, tr₄, rfl, -, h₃⟩ := Raises.run_bind_ok.mp h₂
    obtain ⟨r, tr₅, tr₆, rfl, -, h₄⟩ := Raises.run_bind_ok.mp h₃
    suffices hrest : ∃ e ∈ tr₆, GateOp.Records d e by
      obtain ⟨e, he, hrecords⟩ := hrest
      exact ⟨e, List.mem_append_right _ (List.mem_append_right _ (List.mem_append_right _ he)),
        hrecords⟩
    cases hmismatch : G.mismatch r chain (strOr wanted r₀.tool) (args.getD []) with
    | some reason =>
      simp only [hmismatch] at h₄
      exact deny_journals h₄
    | none =>
      simp only [hmismatch] at h₄
      obtain ⟨now, tr₇, tr₈, rfl, -, h₅⟩ := Raises.run_bind_ok.mp h₄
      obtain ⟨consumed, tr₉, tr₁₀, rfl, -, h₆⟩ := Raises.run_bind_ok.mp h₅
      match consumed with
      | none =>
        obtain ⟨e, he, hrecords⟩ := deny_journals h₆
        exact ⟨e, List.mem_append_right _ (List.mem_append_right _ he), hrecords⟩
      | some row =>
        obtain ⟨decision, tr₁₁, tr₁₂, rfl, hdecide, h₇⟩ := Raises.run_bind_ok.mp h₆
        obtain ⟨_, tr₁₃, tr₁₄, rfl, -, h₈⟩ := Raises.run_bind_ok.mp h₇
        obtain ⟨-, rfl⟩ := Raises.run_pure_ok.mp h₈
        obtain ⟨⟨e, he, hrecords⟩, -⟩ := decide_journals "" hdecide
        exact ⟨e, List.mem_append_right _ (List.mem_append_right _ (List.mem_append_left _ he)),
          hrecords⟩

/-- A redeem that raises has denied nothing. -/
theorem hushed_redeem {requestId : String} (htool : isRef tool "tool" = true) :
    Hushed resource (G.redeem chain requestId args (some tool)) := by
  refine .bind (Raises.calls_invoke trivial) fun found => ?_
  match found with
  | none => exact hushed_deny
  | some request =>
    have hpattern := isResourcePattern_of_isRef htool
    dsimp only
    rw [strOr_ref htool]
    refine .bind trivial fun _ => .bind undecided_expireIfNeeded fun request => ?_
    match G.mismatch request chain tool (args.getD []) with
    | some reason => exact hushed_deny
    | none =>
      refine .bind undecided_incidental.calls_now fun now =>
        .bind (Raises.calls_invoke trivial) fun consumed => ?_
      match consumed with
      | none => exact hushed_deny
      | some consumed =>
        refine hushed_of_core ?_ ?_
        · exact .bind (stopsAt_core (Decider.stopsAt_decide hpattern)) fun decision =>
            .bind stopsAt_recordEvent fun _ => Raises.stopsAt_pure _
        · refine .bind core_core fun decision => .bind ?_ fun _ => Raises.calls_pure _
          exact .bind core_now fun _ => .bind core_uuid4 fun _ => core_record

end Records

end ActionGate

end HeadOfContext
