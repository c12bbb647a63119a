import HeadOfContext.Actions.Gate

/-!
# What the helpers of the gate call

Which calls a gate method makes is read off its helpers. They are stated once, for any condition
`A` on calls that allows what the gate does on the side: it reads the clock, draws identifiers,
journals events that are no decisions, and tells the channels.
-/

namespace HeadOfContext

open Effects

/-- `A` allows what the gate does on the side. -/
structure GateOp.Incidental (A : GateOp → Prop) : Prop where
  now : A (.core .now)
  uuid4 : A (.core .uuid4)
  record : ∀ e : AuditEvent, e.kind ≠ .decision → A (.core (.record e))
  notify : ∀ channel request, A (.notify channel request)

namespace GateOp.Incidental

variable {A : GateOp → Prop} {G : ActionGate} {request : ApprovalRequest}

variable (hA : GateOp.Incidental A)
include hA

theorem calls_now : Raises.Calls (S := GateSig) A Gated.now := Raises.calls_lift_invoke hA.now

theorem calls_uuid4 : Raises.Calls (S := GateSig) A Gated.uuid4 :=
  Raises.calls_lift_invoke hA.uuid4

theorem calls_recordEvent {kind : EventKind} {outcome reason : String} (hkind : kind ≠ .decision) :
    Raises.Calls (S := GateSig) A (ActionGate.recordEvent kind request outcome reason) :=
  .bind hA.calls_now fun _ => .bind hA.calls_uuid4 fun _ => Raises.calls_invoke (hA.record _ hkind)

/-- The loop over the channels: each is told, and a failure is journaled. -/
theorem calls_notify {channels : List String} :
    Raises.Calls (S := GateSig) A (ActionGate.notify request channels) := by
  induction channels with
  | nil => exact Raises.calls_pure _
  | cons channel rest ih =>
    refine .bind (.attempt (Raises.calls_invoke (hA.notify channel request))) fun answer => ?_
    match answer with
    | .ok () => exact ih
    | .error (.other name) => exact Raises.calls_raise _
    | .error (.hoc exc) =>
      change Raises.Calls _ (if exc.cls = .approvalChannelError then _ else _)
      split_ifs
      · exact .bind (hA.calls_recordEvent (by decide)) fun _ => ih
      · exact Raises.calls_raise _

/-- A denial is a decision, so its event has to be allowed on its own. -/
theorem calls_deny {chain : PrincipalChain} {tool reason : String} {args : Args}
    (hdecision : ∀ e, A (.core (.record e))) :
    Raises.Calls (S := GateSig) A (G.deny chain tool args reason) :=
  .bind hA.calls_now fun _ => .bind hA.calls_uuid4 fun _ => .bind hA.calls_uuid4 fun _ =>
    .bind (Raises.calls_invoke (hdecision _)) fun _ => Raises.calls_pure _

theorem calls_expireIfNeeded
    (htransition : ∀ fromStatuses changes,
      A (.transition request.requestId fromStatuses .expired changes))
    (hget : A (.get request.requestId)) :
    Raises.Calls (S := GateSig) A (ActionGate.expireIfNeeded request) := by
  unfold ActionGate.expireIfNeeded
  split_ifs with hopen
  · refine .bind hA.calls_now fun now => ?_
    split_ifs with hdue
    · refine .bind (Raises.calls_invoke (htransition _ _)) fun expired => ?_
      match expired with
      | some expired => exact Raises.calls_pure _
      | none => exact .bind (Raises.calls_invoke hget) fun again => Raises.calls_pure _
    · exact Raises.calls_pure _
  · exact Raises.calls_pure _

end GateOp.Incidental

/-- **A gate call that returns has decided**, and it returns its decision, parked or not. -/
theorem ActionGate.gate_decides {G : ActionGate} {chain : PrincipalChain} {tool : String}
    {args : Option Args} {tr : Trace GateSig} {result : GateResult}
    (h : Raises.Run (G.gate chain tool args) tr (.ok result)) :
    ∃ tr₀ tr₁ tr₂, tr = tr₀ ++ (tr₁ ++ tr₂) ∧
      Raises.Run (Gated.core (G.decider.decide chain .invoke tool (some (args.getD [])) none)) tr₁
        (.ok result.decision) := by
  unfold gate at h
  obtain ⟨_, tr₁, tr₂, rfl, -, h₂⟩ := Raises.run_bind_ok.mp h
  obtain ⟨decision, tr₃, tr₄, rfl, hdecide, h₃⟩ := Raises.run_bind_ok.mp h₂
  suffices hdecision : result.decision = decision from ⟨tr₁, tr₃, tr₄, rfl, hdecision ▸ hdecide⟩
  split_ifs at h₃ with houtcome
  · obtain ⟨-, rfl⟩ := Raises.run_pure_ok.mp h₃
    rfl
  · obtain ⟨now, tr₅, tr₆, -, -, h₄⟩ := Raises.run_bind_ok.mp h₃
    obtain ⟨requestId, tr₇, tr₈, -, -, h₅⟩ := Raises.run_bind_ok.mp h₄
    obtain ⟨_, tr₉, tr₁₀, -, -, h₆⟩ := Raises.run_bind_ok.mp h₅
    obtain ⟨_, tr₁₁, tr₁₂, -, -, h₇⟩ := Raises.run_bind_ok.mp h₆
    obtain ⟨_, tr₁₃, tr₁₄, -, -, h₈⟩ := Raises.run_bind_ok.mp h₇
    obtain ⟨-, rfl⟩ := Raises.run_pure_ok.mp h₈
    rfl

end HeadOfContext
