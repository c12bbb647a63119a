import HeadOfContext.Actions.Spent
import HeadOfContext.Core.DeciderSafety

/-!
# Telling the channels

Once a request is stored and journaled, `gate` tells every channel about it. A channel is
third-party code: it may raise anything, and `_notify` catches one class of exceptions. The
rule of the module is `gate_eq`: the gate is the gate without channels, followed by `notify`.
So a run of the gate is a run without channels, with the answers it had, and then the
attempts.

What the channels may not do is `Harmless`: the same result, nothing more asked of the store,
every channel attempted once in order, and one event for each that fails. A run is harmless
exactly where the channels raise nothing but `ApprovalChannelError` and the audit sink takes
the events of the failures (`channels_harmless_iff`).
-/

namespace HeadOfContext

open Effects Except

/-! ### The calls of the decision path -/

namespace Decider

variable {D : Decider} {chain : PrincipalChain} {action : Action} {A : CoreOp → Prop}

/-- What a decision calls: it asks the engine about its resource alone, and journals a decision
and nothing else. -/
theorem calls_decide {resource : String} (hother : ∀ o, (∀ e, o ≠ .record e) →
      (∀ r, isEngine ⟨o, r⟩ = true → ∃ subject relation, o = .check subject relation resource) →
        A o)
    (hrecord : ∀ e : AuditEvent, e.kind = .decision → A (.record e))
    (args : Option Args) (context : Option DecisionContext) :
    Raises.Calls (S := CoreSig) A (D.decide chain action resource args context) := by
  -- calls that are neither an engine call nor a record
  have hlift : ∀ {o : CoreOp}, (∀ e, o ≠ .record e) → (∀ r, isEngine ⟨o, r⟩ = false) →
      Raises.Calls (S := CoreSig) A (.lift (.invoke (S := CoreSig) o) : Core (CoreOp.Res o)) :=
    fun h hcheck => Raises.calls_lift_invoke
      (hother _ h fun r hr => absurd ((hcheck r).symm.trans hr) Bool.false_ne_true)
  -- the policies ask the engine nothing
  have hverdict : ∀ (args : Args) (context : DecisionContext),
      Raises.Calls (S := CoreSig) A (D.policyVerdict chain action resource args context) := by
    intro args context
    unfold policyVerdict
    split_ifs with hpolicy
    · refine .bind (.attempt (Raises.calls_invoke (hother _ (by simp) fun _ h =>
        absurd h (by simp [isEngine])))) fun answer => ?_
      cases answer with
      | error _ => exact Raises.calls_pure _
      | ok verdict =>
        change Raises.Calls _ (if verdict.outcome = .allow then _ else _)
        split_ifs
        · exact Raises.calls_pure _
        · exact Raises.calls_pure _
    · exact Raises.calls_pure _
  -- the one engine call is the check of the resource
  have hevaluate : ∀ (args : Args) (context : DecisionContext),
      Raises.Calls (S := CoreSig) A (D.evaluate chain action resource args context) := by
    intro args context
    unfold evaluate
    split_ifs with hscope
    · exact Raises.calls_pure _
    refine .bind (.attempt (Raises.calls_invoke (hother _ (by simp) fun _ _ => ⟨_, _, rfl⟩)))
      fun answer => ?_
    refine .bind (hlift (by simp) fun _ => rfl) fun latencyMs => ?_
    cases answer with
    | error exc => cases exc <;> exact Raises.calls_pure _
    | ok related =>
      cases related with
      | false => exact Raises.calls_pure _
      | true => exact .bind (hverdict args context) fun verdict => Raises.calls_pure _
  unfold decide
  refine .bind (Raises.calls_ofExcept _) fun _ => .bind (Raises.calls_ofExcept _) fun _ => ?_
  refine .bind (hevaluate _ _) fun judged =>
    .bind (hlift (by simp) fun _ => rfl) fun timestamp => ?_
  refine .bind (hlift (by simp) fun _ => rfl) fun decisionId => ?_
  refine .bind (hlift (by simp) fun _ => rfl) fun eventId => ?_
  exact .bind (Raises.calls_invoke (hrecord _ rfl)) fun _ => Raises.calls_pure _

end Decider

/-! ### What an event says about a channel -/

namespace GateOp

/-- The attempt that an event is: the channel, and the request it is told. -/
def attempt : Event GateSig → Option (String × ApprovalRequest)
  | ⟨.notify channel request, _⟩ => some (channel, request)
  | _ => none

/-- The channel raised. -/
def channelFails : Event GateSig → Bool
  | ⟨.notify _ _, .error _⟩ => true
  | _ => false

/-- The audit sink took the event of a channel that failed. -/
def journalsFailure : Event GateSig → Bool
  | ⟨.core (.record e), .ok ()⟩ => e.kind = .approvalNotifyFailed
  | _ => false

/-- The event is one that `_notify` does not survive: a channel raised an exception that is no
`ApprovalChannelError`, or the audit sink refused the event of a failure. -/
def breaksNotify : Event GateSig → Bool
  | ⟨.notify _ _, .error (.hoc exc)⟩ => exc.cls ≠ .approvalChannelError
  | ⟨.notify _ _, .error (.other _)⟩ => true
  | ⟨.core (.record e), .error _⟩ => e.kind = .approvalNotifyFailed
  | _ => false

/-- The call has nothing to do with the channels. -/
def Unannounced : GateOp → Prop
  | .core (.record e) => e.kind ≠ .approvalNotifyFailed
  | .notify _ _ => False
  | _ => True

/-- The call is not one of the approval store. -/
def OffStore : GateOp → Prop
  | .core _ | .notify _ _ => True
  | _ => False

/-- A call that is not one of the store leaves its rows as they are. -/
theorem OffStore.rows {o : GateOp} {r : o.Res} {s s' : GateState} (ho : o.OffStore)
    (hstep : gateWorld.step s o r s') : s'.rows = s.rows := by
  cases o with
  | core o =>
    cases o with
    | _ =>
      obtain rfl := hstep
      rfl
  | notify channel request =>
    obtain rfl := hstep
    rfl
  | _ => exact ho.elim

theorem breaksNotify_of_unannounced {e : Event GateSig} (he : Unannounced e.op) :
    breaksNotify e = false := by
  obtain ⟨o, r⟩ := e
  match o, r with
  | .core (.record e), .error x => exact decide_eq_false he
  | .notify _ _, _ => exact he.elim
  | .core (.record e), .ok () => rfl
  | .core .now, _ => rfl
  | .core .uuid4, _ => rfl
  | .core .elapsedMs, _ => rfl
  | .core (.check _ _ _), _ => rfl
  | .core (.batchCheck _ _), _ => rfl
  | .core (.policy _ _ _ _ _), _ => rfl
  | .create _, _ => rfl
  | .get _, _ => rfl
  | .update _, _ => rfl
  | .transition _ _ _ _, _ => rfl
  | .consume _ _, _ => rfl
  | .listPending _, _ => rfl
  | .expirePending _, _ => rfl

end GateOp

namespace ActionGate

variable {G : ActionGate} {chain : PrincipalChain} {tool : String} {args : Option Args}

/-! ### The gate without channels -/

/-- The gate with no channel to tell. -/
def silent (G : ActionGate) : ActionGate := { G with channels := [] }

/-- What `gate` does after the request is stored and journaled. -/
def announce (G : ActionGate) (result : GateResult) : Gated GateResult :=
  match result.approval with
  | none => return result
  | some request => do
    notify request G.channels
    return result

/-- **The gate is the gate without channels, then the channels.** -/
theorem gate_eq (G : ActionGate) (chain : PrincipalChain) (tool : String) (args : Option Args) :
    G.gate chain tool args = G.silent.gate chain tool args >>= G.announce := by
  unfold gate
  simp only [Raises.bind_assoc]
  refine congrArg _ (funext fun _ => congrArg _ (funext fun decision => ?_))
  split_ifs with hpark
  · rfl
  · simp only [Raises.bind_assoc]
    rfl

/-- Without channels, the gate has nothing to do with them. -/
theorem unannounced_silent :
    Raises.Calls (S := GateSig) GateOp.Unannounced (G.silent.gate chain tool args) := by
  have hnow : Raises.Calls (S := GateSig) GateOp.Unannounced Gated.now :=
    Raises.calls_lift_invoke trivial
  have huuid4 : Raises.Calls (S := GateSig) GateOp.Unannounced Gated.uuid4 :=
    Raises.calls_lift_invoke trivial
  have hdecide : ∀ args : Args, Raises.Calls (S := GateSig) GateOp.Unannounced
      (Gated.core (G.decider.decide chain .invoke tool (some args) none)) := by
    intro args
    refine Raises.Calls.widen (Decider.calls_decide (fun o ho _ => ?_) (fun e he => ?_) _ _)
    · cases o with
      | record e => exact absurd rfl (ho e)
      | _ => trivial
    · show e.kind ≠ .approvalNotifyFailed
      simp [he]
  unfold gate
  refine .bind trivial fun _ => .bind (hdecide _) fun decision => ?_
  split_ifs with hpark
  · exact Raises.calls_pure _
  refine .bind hnow fun now => .bind huuid4 fun id => ?_
  refine .bind (Raises.calls_invoke trivial) fun _ => .bind ?_ fun _ => Raises.calls_pure _
  refine .bind hnow fun _ => .bind huuid4 fun _ => Raises.calls_invoke ?_
  simp [event, GateOp.Unannounced]

/-! ### The attempts -/

section Notify

variable {request : ApprovalRequest}

/-- Build an event and journal it: what the run looks like. -/
theorem recordEvent_run {kind : EventKind} {outcome reason : String} {tr : Trace GateSig}
    {r : Except Exn Unit} (h : Raises.Run (recordEvent kind request outcome reason) tr r) :
    ∃ at_ id, tr = [⟨.core .now, at_⟩, ⟨.core .uuid4, id⟩,
      ⟨.core (.record (event kind request outcome reason at_ id)), r⟩] := by
  unfold recordEvent at h
  obtain ⟨at_, tr₁, rfl, h₁⟩ := Raises.run_lift_bind.mp h
  obtain ⟨id, tr₂, rfl, h₂⟩ := Raises.run_lift_bind.mp h₁
  obtain rfl := Raises.run_invoke.mp h₂
  exact ⟨at_, id, rfl⟩

/-- **What the attempts of a returning `notify` are**: every channel once, in order, off the
store, with one event for each that failed, and nothing that `notify` does not survive. -/
structure Attempts (request : ApprovalRequest) (channels : List String) (tr : Trace GateSig) :
    Prop where
  off : ∀ e ∈ tr, GateOp.OffStore e.op
  once : tr.filterMap GateOp.attempt = channels.map (·, request)
  journaled : tr.countP GateOp.journalsFailure = tr.countP GateOp.channelFails
  unbroken : tr.any GateOp.breaksNotify = false

theorem notify_attempts {channels : List String} {tr : Trace GateSig}
    (h : Raises.Run (notify request channels) tr (.ok ())) : Attempts request channels tr := by
  -- the induction is on the channels that are left; a channel that fails is journaled at once
  induction channels generalizing tr with
  | nil =>
    obtain ⟨rfl, -⟩ := Raises.run_pure_ok.mp h
    exact ⟨fun _ he => absurd he List.not_mem_nil, rfl, rfl, rfl⟩
  | cons channel rest ih =>
    obtain ⟨answer, tr₁, tr₂, rfl, hnotify, hrest⟩ := Raises.run_bind_ok.mp h
    obtain rfl := Raises.run_invoke.mp (Raises.run_attempt_ok.mp hnotify)
    match answer with
    | .ok () =>
      obtain ⟨hoff, honce, hjournaled, hunbroken⟩ := ih hrest
      refine ⟨?_, ?_, ?_, ?_⟩
      · exact List.forall_mem_cons.mpr ⟨trivial, hoff⟩
      · simp [GateOp.attempt, honce]
      · simpa [GateOp.journalsFailure, GateOp.channelFails] using hjournaled
      · simpa [GateOp.breaksNotify] using hunbroken
    -- any other exception leaves the loop, so the call does not return
    | .error (.other name) => exact absurd (Raises.run_raise.mp hrest).2 (by simp)
    | .error (.hoc exc) =>
      by_cases hclass : exc.cls = .approvalChannelError
      · simp only [if_pos hclass] at hrest
        obtain ⟨⟨⟩, tr₃, tr₄, rfl, hrecord, htail⟩ := Raises.run_bind_ok.mp hrest
        obtain ⟨at_, id, rfl⟩ := recordEvent_run hrecord
        obtain ⟨hoff, honce, hjournaled, hunbroken⟩ := ih htail
        refine ⟨?_, ?_, ?_, ?_⟩
        · -- the attempt, the clock, the id and the event
          intro e he
          simp only [List.cons_append, List.nil_append, List.mem_cons] at he
          rcases he with rfl | rfl | rfl | rfl | he
          · trivial
          · trivial
          · trivial
          · trivial
          · exact hoff e he
        · rw [List.filterMap_append, List.filterMap_append, honce]
          rfl
        · -- one failure, and one event for it
          calc List.countP GateOp.journalsFailure _
              = 0 + (1 + tr₄.countP GateOp.journalsFailure) := by
                rw [List.countP_append, List.countP_append]
                rfl
            _ = 1 + (0 + tr₄.countP GateOp.channelFails) := by
                rw [hjournaled]
                omega
            _ = List.countP GateOp.channelFails _ := by
                rw [List.countP_append, List.countP_append]
                rfl
        · rw [List.any_append, List.any_append, hunbroken]
          simp [GateOp.breaksNotify, hclass]
      · simp only [if_neg hclass] at hrest
        exact absurd (Raises.run_raise.mp hrest).2 (by simp)

/-- Where nothing breaks it, `notify` returns. -/
theorem notify_returns {channels : List String} {tr : Trace GateSig} {r : Except Exn Unit}
    (h : Raises.Run (notify request channels) tr r)
    (hunbroken : tr.any GateOp.breaksNotify = false) : r = .ok () := by
  induction channels generalizing tr with
  | nil => exact (Raises.run_pure.mp h).2
  | cons channel rest ih =>
    obtain ⟨answer, tr₁, tr₂, rfl, hnotify, hrest⟩ := Raises.run_attempt_bind.mp h
    obtain rfl := Raises.run_invoke.mp hnotify
    rw [List.any_append, Bool.or_eq_false_iff] at hunbroken
    obtain ⟨hattempt, hrest'⟩ := hunbroken
    match answer with
    | .ok () => exact ih hrest hrest'
    | .error (.other name) => exact absurd hattempt (by simp [GateOp.breaksNotify])
    | .error (.hoc exc) =>
      have hclass : exc.cls = .approvalChannelError := by
        simpa [GateOp.breaksNotify] using hattempt
      simp only [if_pos hclass] at hrest
      rcases Raises.run_bind.mp hrest with ⟨x, hrecord, -⟩ | ⟨u, tr₃, tr₄, rfl, -, htail⟩
      · -- the sink would have refused the event
        obtain ⟨at_, id, rfl⟩ := recordEvent_run hrecord
        exact absurd hrest' (by simp [GateOp.breaksNotify, event])
      · rw [List.any_append, Bool.or_eq_false_iff] at hrest'
        exact ih htail hrest'.2

end Notify

/-! ### Harmless runs -/

/-- What the channels are to be told, by the result of the gate. -/
def toTell (G : ActionGate) : Except Exn GateResult → List (String × ApprovalRequest)
  | .ok ⟨_, some request⟩ => G.channels.map (·, request)
  | _ => []

/-- **The channels changed nothing in a run of the gate.** With the answers it had, the gate
without channels ends in the same result; the rest of the run never calls the store, attempts
every channel once and in order, and journals one event for each that raised. -/
def Harmless (G : ActionGate) (chain : PrincipalChain) (tool : String) (args : Option Args)
    (tr : Trace GateSig) (r : Except Exn GateResult) : Prop :=
  ∃ tr₀ tr₁, tr = tr₀ ++ tr₁ ∧ Raises.Run (G.silent.gate chain tool args) tr₀ r ∧
    (∀ e ∈ tr₁, GateOp.OffStore e.op) ∧ tr₁.filterMap GateOp.attempt = G.toTell r ∧
    tr₁.countP GateOp.journalsFailure = tr₁.countP GateOp.channelFails

/-- Nothing of a run without channels breaks `notify`. -/
theorem unbroken_silent {tr : Trace GateSig} {r : Except Exn GateResult}
    (h : Raises.Run (G.silent.gate chain tool args) tr r) :
    tr.any GateOp.breaksNotify = false := by
  refine List.any_eq_false.mpr fun e he => ?_
  rw [GateOp.breaksNotify_of_unannounced (unannounced_silent.of_run h he)]
  exact Bool.false_ne_true

theorem harmless_of_unbroken {tr : Trace GateSig} {r : Except Exn GateResult}
    (h : Raises.Run (G.gate chain tool args) tr r)
    (hunbroken : tr.any GateOp.breaksNotify = false) : Harmless G chain tool args tr r := by
  rw [gate_eq] at h
  rcases Raises.run_bind.mp h with ⟨x, hsilent, rfl⟩ | ⟨result, tr₀, tr₁, rfl, hsilent, hannounce⟩
  · -- the gate raised before it came to the channels
    exact ⟨tr, [], (List.append_nil tr).symm, hsilent, fun _ he => absurd he List.not_mem_nil, rfl,
      rfl⟩
  · obtain ⟨decision, approval⟩ := result
    match approval with
    | none =>
      obtain ⟨rfl, rfl⟩ := Raises.run_pure.mp hannounce
      exact ⟨tr₀, [], rfl, hsilent, fun _ he => absurd he List.not_mem_nil, rfl, rfl⟩
    | some request =>
      rw [List.any_append, Bool.or_eq_false_iff] at hunbroken
      rcases Raises.run_bind.mp hannounce with
        ⟨x, hnotify, -⟩ | ⟨u, tr₂, tr₃, rfl, hnotify, hreturn⟩
      · exact absurd (notify_returns hnotify hunbroken.2) (by simp)
      · obtain ⟨rfl, rfl⟩ := Raises.run_pure.mp hreturn
        rw [List.append_nil]
        have hattempts := notify_attempts hnotify
        exact ⟨tr₀, tr₂, rfl, hsilent, hattempts.off, hattempts.once, hattempts.journaled⟩

theorem Harmless.unbroken {tr : Trace GateSig} {r : Except Exn GateResult}
    (hharmless : Harmless G chain tool args tr r)
    (h : Raises.Run (G.gate chain tool args) tr r) : tr.any GateOp.breaksNotify = false := by
  obtain ⟨tr₀, tr₁, heq, hsilent₀, -⟩ := hharmless
  rw [gate_eq] at h
  rcases Raises.run_bind.mp h with ⟨x, hsilent, -⟩ | ⟨result, tr₂, tr₃, rfl, hsilent, hannounce⟩
  · exact unbroken_silent hsilent
  · -- the run without channels is the same, so the gate has returned its result
    obtain ⟨rfl, rfl⟩ := Prog.Run.unique_prefix hsilent hsilent₀ heq
    rw [List.any_append, unbroken_silent hsilent, Bool.false_or]
    obtain ⟨decision, approval⟩ := result
    match approval with
    | none =>
      obtain ⟨rfl, -⟩ := Raises.run_pure.mp hannounce
      rfl
    | some request =>
      obtain ⟨u, tr₄, tr₅, rfl, hnotify, hreturn⟩ := Raises.run_bind_ok.mp hannounce
      obtain ⟨rfl, -⟩ := Raises.run_pure.mp hreturn
      rw [List.append_nil]
      exact (notify_attempts hnotify).unbroken

/-- **The channels cannot change an outcome exactly where nothing breaks `_notify`**: no
channel raises anything but an `ApprovalChannelError`, and the audit sink takes the event of
every failure. -/
theorem channels_harmless_iff {tr : Trace GateSig} {r : Except Exn GateResult}
    (h : Raises.Run (G.gate chain tool args) tr r) :
    Harmless G chain tool args tr r ↔ tr.any GateOp.breaksNotify = false :=
  ⟨fun hharmless => hharmless.unbroken h, harmless_of_unbroken h⟩

/-! ### A webhook that fails -/

/-- Everyone may call everything after approval, and the channel "webhook" raises. -/
def webhookRaises (e : Exn) : ∀ o : GateOp, o.Res
  | .core .now => 7
  | .core .uuid4 => "a"
  | .core .elapsedMs => zeroMs
  | .core (.check _ _ _) => .ok true
  | .core (.batchCheck _ items) => .ok (items.map fun _ => true)
  | .core (.policy _ _ _ _ _) => .ok ⟨.requireApproval, "approval_required"⟩
  | .core (.record _) => .ok ()
  | .create _ => .ok ()
  | .get _ => .ok none
  | .update _ => .ok ()
  | .transition _ _ _ _ => .ok none
  | .consume _ _ => .ok none
  | .listPending _ => .ok []
  | .expirePending _ => .ok 0
  | .notify channel _ => if channel = "webhook" then .error e else .ok ()

/-- A gate that tells the webhook, and then the log. -/
def telling : ActionGate := { waiting 100 with channels := ["webhook", "log"] }

/-- alice's agent asks for a deployment. -/
def askDeploy : Gated GateResult := telling.gate aliceDeployer "tool:deploy" none

/-- A webhook with a malformed address raises what `_notify` does not catch, and the gate
raises it: the request is stored, and the caller is not told. -/
theorem invalid_webhook_escapes : ¬ ∀ (G : ActionGate) (chain : PrincipalChain) (tool : String)
    (args : Option Args) (tr : Trace GateSig) (r : Except Exn GateResult),
    Raises.Run (G.gate chain tool args) tr r → Harmless G chain tool args tr r := by
  intro hall
  have hrun := Raises.run_result (webhookRaises (.other "InvalidURL")) askDeploy
  have hunbroken := (hall telling aliceDeployer "tool:deploy" none _ _ hrun).unbroken hrun
  have hbroken : (askDeploy.run.exec (webhookRaises (.other "InvalidURL"))).1.any
      GateOp.breaksNotify = true := by
    decide +kernel
  exact absurd (hunbroken.symm.trans hbroken) (by simp)

/-- A webhook that is unreachable is journaled, the log is told after it, and the agent gets
the request. -/
theorem channels_harmless_webhook :
    ∃ tr r, Raises.Run askDeploy tr r ∧ tr.any GateOp.channelFails = true ∧
      Harmless telling aliceDeployer "tool:deploy" none tr r := by
  have hrun := Raises.run_result
    (webhookRaises (.hoc (HocClass.approvalChannelError.error "webhook unreachable"))) askDeploy
  refine ⟨_, _, hrun, ?_, (channels_harmless_iff hrun).mpr ?_⟩
  · decide +kernel
  · decide +kernel

end ActionGate

end HeadOfContext
