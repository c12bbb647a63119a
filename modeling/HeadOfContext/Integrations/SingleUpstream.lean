import HeadOfContext.Actions.Channels
import HeadOfContext.Core.Grammar
import HeadOfContext.Integrations.Catalog
import HeadOfContext.Integrations.Mcp

/-!
# A proxy over one upstream

With one upstream and no `tool_map`, a name is forwarded as it is and gated as `tool_resource` of
it, which puts `tool:` in front unless it is there already. So `x` and `tool:x` are two names with
one resource, and no others are (`prefixedTool_eq_iff`).

`Authorizes` is what the session must have been answered for a name to be forwarded. An
authorization asks the engine about the resource of the name and about no other
(`Authorizes.asks`), so names with different resources have no authorization in common.
-/

namespace HeadOfContext

open Effects Except PyText

/-! ### Two names of one resource -/

/-- The name behind the prefix of a valid resource holds no colon. -/
theorem colon_notMem_of_isRef {name : String} (h : isRef (TOOL_PREFIX ++ name) "tool" = true) :
    ':' ∉ name.toList := by
  obtain ⟨i, hbody, -, -, hi⟩ := isRef_shape h
  have hcolon : ':' ∉ i := fun hmem => absurd (hi ':' hmem) (by decide)
  obtain ⟨rest, hrest, heq⟩ := append_matchBody (TOOL_PREFIX ++ name).toList
  rw [hbody, String.toList_append] at heq
  have hname : name.toList = i ++ rest :=
    @List.append_cancel_left _ TOOL_PREFIX.toList _ _ (by rw [heq]; rfl)
  rw [hname, List.mem_append, not_or]
  refine ⟨hcolon, ?_⟩
  rcases hrest with rfl | rfl
  · exact List.not_mem_nil
  · decide

theorem prefixedTool_of_startsWith {name : String} (h : startsWith name TOOL_PREFIX = true) :
    prefixedTool name = name := if_pos h

theorem prefixedTool_of_not_startsWith {name : String} (h : startsWith name TOOL_PREFIX = false) :
    prefixedTool name = TOOL_PREFIX ++ name := if_neg (by rw [h]; exact Bool.false_ne_true)

theorem startsWith_append (s p : String) : startsWith (p ++ s) p = true := by
  rw [startsWith_iff, String.toList_append]
  exact List.prefix_append _ _

/-- **Two valid names have one resource exactly when one is the other behind the prefix.** -/
theorem prefixedTool_eq_iff {a b : String} (hne : a ≠ b)
    (ha : isRef (prefixedTool a) "tool" = true) (hb : isRef (prefixedTool b) "tool" = true) :
    prefixedTool a = prefixedTool b ↔ a = TOOL_PREFIX ++ b ∨ b = TOOL_PREFIX ++ a := by
  constructor
  · intro heq
    cases hsa : startsWith a TOOL_PREFIX with
    | true =>
      rw [prefixedTool_of_startsWith hsa] at heq
      cases hsb : startsWith b TOOL_PREFIX with
      | true => exact absurd (heq.trans (prefixedTool_of_startsWith hsb)) hne
      | false => exact .inl (heq.trans (prefixedTool_of_not_startsWith hsb))
    | false =>
      rw [prefixedTool_of_not_startsWith hsa] at heq
      cases hsb : startsWith b TOOL_PREFIX with
      | true => exact .inr (heq.trans (prefixedTool_of_startsWith hsb)).symm
      | false =>
        have hsame := heq.trans (prefixedTool_of_not_startsWith hsb)
        rw [← String.toList_inj, String.toList_append, String.toList_append] at hsame
        exact absurd (String.toList_inj.mp (List.append_cancel_left hsame)) hne
  · have hbehind : ∀ {x y : String}, isRef (prefixedTool x) "tool" = true → x = TOOL_PREFIX ++ y →
        prefixedTool x = prefixedTool y := by
      rintro x y hx rfl
      rw [prefixedTool_of_startsWith (startsWith_append y TOOL_PREFIX)] at hx ⊢
      -- a name that starts with the prefix holds a colon
      have hy : startsWith y TOOL_PREFIX = false := by
        rw [Bool.eq_false_iff, ne_eq, startsWith_iff]
        intro hstart
        exact colon_notMem_of_isRef hx (hstart.subset (by decide))
      exact (prefixedTool_of_not_startsWith hy).symm
    rintro (heq | heq)
    · exact hbehind ha heq
    · exact (hbehind hb heq).symm

/-! ### What an authorization asks -/

/-- A question to the engine is about this resource. -/
def CoreOp.AsksAbout (resource : String) : CoreOp → Prop
  | .check _ _ obj => obj = resource
  | .batchCheck _ _ => False
  | _ => True

/-- A question of the gate, likewise. -/
def GateOp.AsksAbout (resource : String) : GateOp → Prop
  | .core o => o.AsksAbout resource
  | _ => True

/-- A question of the session, likewise. -/
def SessionOp.AsksAbout (resource : String) : SessionOp → Prop
  | .gate o => o.AsksAbout resource
  | .token _ => True

section Asks

variable {resource : String} {chain : PrincipalChain} {args : Option Args}

theorem asks_decide (D : Decider) (context : Option DecisionContext) :
    Raises.Calls (S := GateSig) (GateOp.AsksAbout resource)
      (Gated.core (D.decide chain .invoke resource args context)) := by
  refine Raises.Calls.widen (Decider.calls_decide (fun o _ hengine => ?_) (fun e he => trivial) _ _)
  cases o with
  | check subject relation obj =>
    obtain ⟨_, _, heq⟩ := hengine (.ok true) rfl
    cases heq
    rfl
  | batchCheck subject items =>
    obtain ⟨_, _, heq⟩ := hengine (.ok []) rfl
    cases heq
  | _ => trivial

theorem asks_incidental : GateOp.Incidental (GateOp.AsksAbout resource) :=
  ⟨trivial, trivial, fun _ _ => trivial, fun _ _ => trivial⟩

namespace ActionGate

variable {G : ActionGate} {request : ApprovalRequest}

/-- **The gate asks the engine about its tool.** -/
theorem asks_gate : Raises.Calls (S := GateSig) (GateOp.AsksAbout resource)
    (G.gate chain resource args) := by
  unfold gate
  refine .bind (Raises.calls_ofExcept _) fun _ => .bind (asks_decide _ _) fun decision => ?_
  split_ifs
  · exact Raises.calls_pure _
  · refine .bind asks_incidental.calls_now fun _ => .bind asks_incidental.calls_uuid4 fun _ =>
      .bind (Raises.calls_invoke trivial) fun _ => ?_
    exact .bind (asks_incidental.calls_recordEvent (by decide)) fun _ =>
      .bind asks_incidental.calls_notify fun _ => Raises.calls_pure _

theorem asks_deny {tool reason : String} {args : Args} :
    Raises.Calls (S := GateSig) (GateOp.AsksAbout resource) (G.deny chain tool args reason) :=
  asks_incidental.calls_deny fun _ => trivial

/-- **A redemption asks the engine about the tool it names.** -/
theorem asks_redeem {requestId : String} (hresource : isRef resource "tool" = true) :
    Raises.Calls (S := GateSig) (GateOp.AsksAbout resource)
      (G.redeem chain requestId args (some resource)) := by
  unfold redeem
  refine .bind (Raises.calls_invoke trivial) fun found => ?_
  match found with
  | none => exact asks_deny
  | some request =>
    dsimp only
    rw [strOr_ref hresource]
    refine .bind (Raises.calls_ofExcept _) fun _ =>
      .bind (asks_incidental.calls_expireIfNeeded (fun _ _ => trivial) trivial) fun request => ?_
    cases G.mismatch request chain resource (args.getD []) with
    | some reason => exact asks_deny
    | none =>
      refine .bind asks_incidental.calls_now fun now =>
        .bind (Raises.calls_invoke trivial) fun consumed => ?_
      match consumed with
      | none => exact asks_deny
      | some consumed =>
        exact .bind (asks_decide _ _) fun _ =>
          .bind (asks_incidental.calls_recordEvent (by decide)) fun _ => Raises.calls_pure _

end ActionGate

end Asks

/-! ### What an authorization was answered -/

/-- The engine relates the resource to somebody. -/
def GateOp.Relates (resource : String) (tr : Trace GateSig) : Prop :=
  ∃ subject relation, ⟨.core (.check subject relation resource), .ok true⟩ ∈ tr

section Relates

variable {resource : String} {chain : PrincipalChain} {tr : Trace GateSig}

/-- An ALLOW rests on the engine. -/
theorem relates_of_decide {D : Decider} {args : Option Args} {context : Option DecisionContext}
    {d : Decision} (h : Raises.Run (Gated.core (D.decide chain .invoke resource args context)) tr
      (.ok d))
    (hallow : d.outcome = .allow) : GateOp.Relates resource tr := by
  obtain ⟨tr₀, rfl, h₀⟩ := Gated.run_core.mp h
  obtain ⟨-, hearned⟩ := (Decider.decide_run h₀).allow hallow
  rcases hearned.related with hmem | ⟨items, related, hmem, -⟩
  · exact ⟨_, _, List.mem_map.mpr ⟨_, hmem, rfl⟩⟩
  · -- a single decision asks no batch
    have hcalls := (asks_decide D context).of_run h (List.mem_map_of_mem hmem)
    exact absurd hcalls id

namespace ActionGate

variable {G : ActionGate} {args : Option Args}

theorem relates_of_gate {result : GateResult}
    (h : Raises.Run (G.gate chain resource args) tr (.ok result))
    (hallow : result.allowed = true) : GateOp.Relates resource tr := by
  obtain ⟨tr₀, tr₁, tr₂, rfl, hdecide⟩ := gate_decides h
  obtain ⟨subject, relation, hmem⟩ := relates_of_decide hdecide (of_decide_eq_true hallow)
  exact ⟨subject, relation, List.mem_append_right _ (List.mem_append_left _ hmem)⟩

theorem relates_of_redeem {requestId : String} {d : Decision}
    (hresource : isRef resource "tool" = true)
    (h : Raises.Run (G.redeem chain requestId args (some resource)) tr (.ok d))
    (hallow : d.outcome = .allow) : GateOp.Relates resource tr := by
  obtain ⟨r₀, r, now, row, -, -, tr', context, hsub, hdecide⟩ := redeem_decided h hallow
  rw [strOr_ref hresource] at hdecide
  obtain ⟨subject, relation, hmem⟩ := relates_of_decide hdecide hallow
  exact ⟨subject, relation, hsub hmem⟩

end ActionGate

end Relates

/-! ### Sessions -/

namespace AgentSession

variable {Text : Type} (s : AgentSession Text) {name resource : String} {tr : Trace SessionSig}

/-- The engine relates the resource to somebody. -/
def Relates (resource : String) (tr : Trace SessionSig) : Prop :=
  ∃ subject relation, ⟨.gate (.core (.check subject relation resource)), .ok true⟩ ∈ tr

theorem asks_gated {α : Type} {p : Gated α}
    (hp : Raises.Calls (S := GateSig) (GateOp.AsksAbout resource) p) :
    Raises.Calls (S := SessionSig) (SessionOp.AsksAbout resource) (Sessions.gated p) :=
  Raises.Calls.widen hp

/-- The token is verified without the engine. -/
theorem asks_verify (tool : String) :
    Raises.Calls (S := SessionSig) (SessionOp.AsksAbout resource) (s.verify tool) := by
  refine .bind (.attempt (Raises.Calls.embed fun _ => trivial)) fun answer => ?_
  match answer with
  | .ok verified => exact Raises.calls_pure _
  | .error (.other _) => exact Raises.calls_raise _
  | .error (.hoc exc) =>
    change Raises.Calls _ (if exc.cls.isTokenInvalid then _ else _)
    split_ifs
    · refine asks_gated (.bind asks_incidental.calls_now fun _ =>
        .bind asks_incidental.calls_uuid4 fun _ => ?_)
      exact .bind (Raises.calls_invoke trivial) fun _ => Raises.calls_raise _
    · exact Raises.calls_raise _

/-- **`authorize`** gates the resource of the tool, or nothing. -/
theorem asks_authorize (name : String) (args : Option Args) :
    Raises.Calls (S := SessionSig) (SessionOp.AsksAbout (prefixedTool name))
      (s.authorize name args) := by
  rw [authorize]
  cases hresource : toolResource name with
  | error exc => exact Raises.calls_raise _
  | ok resource =>
    obtain ⟨-, rfl⟩ := toolResource_eq_ok.mp hresource
    have hrest : Raises.Calls (S := SessionSig) (SessionOp.AsksAbout (prefixedTool name))
        (s.verify (prefixedTool name) >>= fun chain =>
          Sessions.gated (s.gate.gate chain (prefixedTool name) args)) :=
      (s.asks_verify _).bind fun chain => asks_gated ActionGate.asks_gate
    exact hrest

/-- **`redeem`** likewise. -/
theorem asks_redeem (requestId name : String) (args : Option Args) :
    Raises.Calls (S := SessionSig) (SessionOp.AsksAbout (prefixedTool name))
      (s.redeem requestId name args) := by
  rw [redeem]
  cases hresource : toolResource name with
  | error exc => exact Raises.calls_raise _
  | ok resource =>
    obtain ⟨hvalid, rfl⟩ := toolResource_eq_ok.mp hresource
    have hrest : Raises.Calls (S := SessionSig) (SessionOp.AsksAbout (prefixedTool name))
        (s.verify (prefixedTool name) >>= fun chain =>
          Sessions.gated (s.gate.redeem chain requestId args (some (prefixedTool name)))) :=
      (s.asks_verify _).bind fun chain => asks_gated (ActionGate.asks_redeem hvalid)
    exact hrest

variable {s}

/-- A name that is authorized is valid, and the engine relates its resource to somebody. -/
theorem relates_of_authorize {args : Option Args} {result : GateResult}
    (h : Raises.Run (s.authorize name args) tr (.ok result)) (hallow : result.allowed = true) :
    isRef (prefixedTool name) "tool" = true ∧ Relates (prefixedTool name) tr := by
  unfold authorize at h
  obtain ⟨resource, tr₁, tr₂, rfl, hresource, h₂⟩ := Raises.run_bind_ok.mp h
  obtain ⟨rfl, hok⟩ := Core.run_ofHoc_ok.mp hresource
  obtain ⟨hvalid, rfl⟩ := toolResource_eq_ok.mp hok
  obtain ⟨chain, tr₃, tr₄, rfl, -, h₃⟩ := Raises.run_bind_ok.mp h₂
  obtain ⟨tr₀, rfl, hgate⟩ := Sessions.run_gated.mp h₃
  obtain ⟨subject, relation, hmem⟩ := ActionGate.relates_of_gate hgate hallow
  refine ⟨hvalid, subject, relation, ?_⟩
  exact List.mem_append_right _ (List.mem_append_right _ (List.mem_map.mpr ⟨_, hmem, rfl⟩))

theorem relates_of_redeem {requestId : String} {args : Option Args} {d : Decision}
    (h : Raises.Run (s.redeem requestId name args) tr (.ok d)) (hallow : d.outcome = .allow) :
    isRef (prefixedTool name) "tool" = true ∧ Relates (prefixedTool name) tr := by
  unfold redeem at h
  obtain ⟨resource, tr₁, tr₂, rfl, hresource, h₂⟩ := Raises.run_bind_ok.mp h
  obtain ⟨rfl, hok⟩ := Core.run_ofHoc_ok.mp hresource
  obtain ⟨hvalid, rfl⟩ := toolResource_eq_ok.mp hok
  obtain ⟨chain, tr₃, tr₄, rfl, -, h₃⟩ := Raises.run_bind_ok.mp h₂
  obtain ⟨tr₀, rfl, hredeem⟩ := Sessions.run_gated.mp h₃
  obtain ⟨subject, relation, hmem⟩ := ActionGate.relates_of_redeem hvalid hredeem hallow
  refine ⟨hvalid, subject, relation, ?_⟩
  exact List.mem_append_right _ (List.mem_append_right _ (List.mem_map.mpr ⟨_, hmem, rfl⟩))

end AgentSession

/-! ### What a proxy over one upstream forwards -/

namespace GuardedMcpProxy

variable {Text Client Result : Type} (p : GuardedMcpProxy Text Client)

/-- What the session was answered lets the proxy forward the name: the gate allows it, or a
redemption of an approval does. -/
def Authorizes (tr : Trace SessionSig) (name : String) : Prop :=
  (∃ args result, Raises.Run (p.session.authorize (p.guard.resourceFor name) args) tr (.ok result) ∧
      result.allowed = true) ∨
    ∃ requestId args d, Raises.Run (p.session.redeem requestId (p.guard.resourceFor name) args) tr
      (.ok d) ∧ d.outcome = .allow

/-- A call of the session, as the proxy sees it. -/
def ofSession (e : Event SessionSig) : Event (ProxySig Client Result) := ⟨.session e.op, e.res⟩

/-- The proxy may forward the name: some call of it runs the tool of that name upstream. -/
def MayForward (Result : Type) (name : String) : Prop :=
  ∃ (call : String) (args : Args) (tr : Trace (ProxySig Client Result))
    (r : Except Exn (CallToolResult Result)) (client : Client) (toolArgs : Args)
    (answer : Except Exn Result),
    Raises.Run (p.callTool call args) tr r ∧ ⟨.callTool client name toolArgs, answer⟩ ∈ tr

variable {p} {name tool : String} {args toolArgs : Args} {client client' : Client}
  {tr : Trace (ProxySig Client Result)} {r : Except Exn (CallToolResult Result)}
  {answer : Except Exn Result}

theorem run_session {α : Type} {q : Sessions α} {x : Except Exn α} :
    Raises.Run (Proxied.session q) tr x ↔
      ∃ tr₀ : Trace SessionSig, tr = tr₀.map ofSession ∧ Raises.Run q tr₀ x :=
  Prog.run_embed_iff (fun _ => rfl) fun e => ⟨⟨e.op, e.res⟩, rfl⟩

theorem not_mem_session {tr₀ : Trace SessionSig} :
    (⟨.callTool client name args, answer⟩ : Event (ProxySig Client Result)) ∉
      tr₀.map ofSession := by
  intro hmem
  obtain ⟨e, -, heq⟩ := List.mem_map.mp hmem
  nomatch heq

theorem route_one (hone : p.upstreams = .one client) : p.route name = some (client, name) := by
  rw [route, hone]

/-- A forwarded name is the one that is asked for. -/
theorem forward_run (hone : p.upstreams = .one client) (h : Raises.Run (p.forward name args) tr r)
    (he : ⟨.callTool client' tool toolArgs, answer⟩ ∈ tr) : tool = name := by
  have hroute : p.route name = some (client', tool) := (p.forwards_forward name args).of_run h he
  rw [route_one hone] at hroute
  exact (Prod.mk.inj (Option.some.inj hroute)).2.symm

/-- **A redemption forwards the tool it names**, once the session has redeemed the approval. -/
theorem redeemCall_run {requestId : String} (hone : p.upstreams = .one client)
    (h : Raises.Run (p.redeemCall requestId name args) tr r)
    (he : ⟨.callTool client' tool toolArgs, answer⟩ ∈ tr) :
    tool = name ∧ ∃ tr₀, p.Authorizes tr₀ name := by
  unfold redeemCall at h
  obtain ⟨x, tr₁, tr₂, rfl, hsession, h₂⟩ := Raises.run_attempt_bind.mp h
  obtain ⟨tr₀, rfl, hredeem⟩ := run_session.mp hsession
  have he₂ := (List.mem_append.mp he).resolve_left not_mem_session
  match x with
  | .error (.hoc exc) =>
    obtain ⟨rfl, -⟩ := Raises.run_pure.mp h₂
    exact absurd he₂ List.not_mem_nil
  | .error (.other _) =>
    obtain ⟨rfl, -⟩ := Raises.run_raise.mp h₂
    exact absurd he₂ List.not_mem_nil
  | .ok d =>
    dsimp only at h₂
    by_cases hallow : d.outcome = .allow
    · rw [if_neg (not_not.mpr hallow)] at h₂
      exact ⟨forward_run hone h₂ he₂, tr₀, .inr ⟨requestId, _, d, hredeem, hallow⟩⟩
    · rw [if_pos hallow] at h₂
      obtain ⟨rfl, -⟩ := Raises.run_pure.mp h₂
      exact absurd he₂ List.not_mem_nil

/-- The guard lets a call through that the session allows. -/
theorem authorizes_of_guard {tr₀ : Trace SessionSig} {result : GateResult}
    (h : Raises.Run (p.guard.authorize name args) tr₀ (.ok (.ok result))) :
    p.Authorizes tr₀ name := by
  unfold ToolGuard.authorize at h
  obtain ⟨result', tr₁, tr₂, rfl, hauthorize, h₂⟩ := Raises.run_bind_ok.mp h
  by_cases hallowed : result'.allowed = true
  · rw [if_pos hallowed] at h₂
    obtain ⟨rfl, -⟩ := Raises.run_pure_ok.mp h₂
    rw [List.append_nil]
    exact .inl ⟨_, result', hauthorize, hallowed⟩
  · rw [if_neg hallowed] at h₂
    split at h₂
    · obtain ⟨-, heq⟩ := Raises.run_pure_ok.mp h₂
      nomatch heq
    · obtain ⟨-, heq⟩ := Raises.run_raise.mp h₂
      nomatch heq

/-- **What is forwarded has been authorized**, under its own name. -/
theorem MayForward.authorized (hone : p.upstreams = .one client) (h : p.MayForward Result name) :
    name ≠ REDEEM_TOOL ∧ ∃ tr₀, p.Authorizes tr₀ name := by
  obtain ⟨call, args, tr, r, client', toolArgs, answer, hrun, he⟩ := h
  -- a call that answers at once forwards nothing
  have hnothing : ∀ {x : CallToolResult Result},
      ¬ Raises.Run (pure x : Proxied Client Result _) tr r := by
    intro x hpure
    obtain ⟨rfl, -⟩ := Raises.run_pure.mp hpure
    exact absurd he List.not_mem_nil
  unfold callTool at hrun
  by_cases hcall : call = REDEEM_TOOL
  · -- a redeem: of its exits, only the last one reaches the upstream
    rw [if_pos hcall, redeem] at hrun
    cases hid : textOf (args.get "request_id") with
    | none =>
      simp only [hid] at hrun
      exact absurd hrun hnothing
    | some requestId =>
      cases htool : textOf (args.get "tool") with
      | none =>
        simp only [hid, htool] at hrun
        exact absurd hrun hnothing
      | some tool =>
        simp only [hid, htool] at hrun
        generalize (if isFalsy ((args.get "args").getD .null) = true then Json.obj []
          else (args.get "args").getD .null) = value at hrun
        by_cases hredeem : tool = REDEEM_TOOL
        · rw [if_pos hredeem] at hrun
          exact absurd hrun hnothing
        · rw [if_neg hredeem] at hrun
          cases value with
          | obj toolArgs =>
            obtain ⟨rfl, hauthorized⟩ := redeemCall_run hone hrun he
            exact ⟨hredeem, hauthorized⟩
          | _ => exact absurd hrun hnothing
  · rw [if_neg hcall] at hrun
    obtain ⟨x, tr₁, tr₂, rfl, hsession, h₂⟩ := Raises.run_attempt_bind.mp hrun
    obtain ⟨tr₀, rfl, hauthorize⟩ := run_session.mp hsession
    have he₂ := (List.mem_append.mp he).resolve_left not_mem_session
    -- a plain call: forwarded only where the session has returned the arguments
    match x with
    | .ok (.ok result) =>
      obtain rfl := forward_run hone h₂ he₂
      exact ⟨hcall, tr₀, authorizes_of_guard hauthorize⟩
    | .ok (.error pending) =>
      obtain ⟨rfl, -⟩ := Raises.run_pure.mp h₂
      exact absurd he₂ List.not_mem_nil
    | .error (.other _) =>
      obtain ⟨rfl, -⟩ := Raises.run_raise.mp h₂
      exact absurd he₂ List.not_mem_nil
    | .error (.hoc exc) =>
      dsimp only at h₂
      split_ifs at h₂
      · obtain ⟨rfl, -⟩ := Raises.run_pure.mp h₂
        exact absurd he₂ List.not_mem_nil
      · obtain ⟨rfl, -⟩ := Raises.run_raise.mp h₂
        exact absurd he₂ List.not_mem_nil

/-- **An authorization of a name is about its resource**, which is valid. -/
theorem Authorizes.asks {tr₀ : Trace SessionSig} (h : p.Authorizes tr₀ name) :
    isRef (p.gatedAs name) "tool" = true ∧
      (∀ e ∈ tr₀, SessionOp.AsksAbout (p.gatedAs name) e.op) ∧
        AgentSession.Relates (p.gatedAs name) tr₀ := by
  rcases h with ⟨args, result, hrun, hallowed⟩ | ⟨requestId, args, d, hrun, hallow⟩
  · obtain ⟨hvalid, hrelates⟩ := AgentSession.relates_of_authorize hrun hallowed
    exact ⟨hvalid, fun e he => (p.session.asks_authorize _ _).of_run hrun he, hrelates⟩
  · obtain ⟨hvalid, hrelates⟩ := AgentSession.relates_of_redeem hrun hallow
    exact ⟨hvalid, fun e he => (p.session.asks_redeem _ _ _).of_run hrun he, hrelates⟩

/-- Two names with an authorization in common have one resource. -/
theorem Authorizes.same {tr₀ : Trace SessionSig} (h : p.Authorizes tr₀ name)
    (h' : p.Authorizes tr₀ tool) : p.gatedAs name = p.gatedAs tool := by
  obtain ⟨subject, relation, hmem⟩ := h.asks.2.2
  exact h'.asks.2.1 _ hmem

/-- **Nothing that lets the proxy forward one of the names lets it forward the other**: they are
gated as different resources, and no authorization is one of both. -/
structure Apart (p : GuardedMcpProxy Text Client) (a b : String) : Prop where
  gated : p.gatedAs a ≠ p.gatedAs b
  authorized : ∀ tr, p.Authorizes tr a → ¬ p.Authorizes tr b

/-- A name that the gate allows may be forwarded. -/
theorem mayForward_of_authorize {tr₀ : Trace SessionSig} {result : GateResult}
    (hone : p.upstreams = .one client) (hname : name ≠ REDEEM_TOOL) (answer : Except Exn Result)
    (h : Raises.Run (p.session.authorize (p.guard.resourceFor name) (some args)) tr₀ (.ok result))
    (hallowed : result.allowed = true) : p.MayForward Result name := by
  have hguard : Raises.Run (p.guard.authorize name args) tr₀ (.ok (.ok result)) := by
    unfold ToolGuard.authorize
    refine Raises.run_bind_ok.mpr ⟨result, tr₀, [], (List.append_nil _).symm, h, ?_⟩
    rw [if_pos hallowed]
    exact Raises.run_pure_ok.mpr ⟨rfl, rfl⟩
  have hforward : Raises.Run (p.forward name args) [⟨.callTool client name args, answer⟩]
      (answer.map .upstream) := by
    rw [forward, route_one hone]
    cases answer with
    | error exc => exact Raises.run_bind.mpr (.inl ⟨exc, Raises.run_invoke.mpr rfl, rfl⟩)
    | ok result =>
      refine Raises.run_bind_ok.mpr ⟨result, _, [], rfl, Raises.run_invoke.mpr rfl, ?_⟩
      exact Raises.run_pure_ok.mpr ⟨rfl, rfl⟩
  refine ⟨name, args, tr₀.map ofSession ++ [⟨.callTool client name args, answer⟩],
    answer.map .upstream, client, args, answer, ?_, List.mem_append_right _ List.mem_cons_self⟩
  unfold callTool
  rw [if_neg hname]
  exact Raises.run_attempt_bind.mpr
    ⟨.ok (.ok result), _, _, rfl, run_session.mpr ⟨tr₀, rfl, hguard⟩, hforward⟩

/-- **Names of one upstream are kept apart**, unless one is the other with `tool:` in front. -/
theorem single_upstream_apart_iff {Text Client Result : Type} {p : GuardedMcpProxy Text Client}
    {client : Client} (hone : p.upstreams = .one client) (hmap : p.toolMap = .empty)
    {a b : String} (hne : a ≠ b) (ha : p.MayForward Result a) (hb : p.MayForward Result b) :
    p.Apart a b ↔ a ≠ TOOL_PREFIX ++ b ∧ b ≠ TOOL_PREFIX ++ a := by
  have hgated : ∀ name, p.gatedAs name = prefixedTool name := by
    intro name
    rw [gatedAs, guard, ToolGuard.resourceFor, hone, hmap]
    rfl
  obtain ⟨-, tra, hauthorizesa⟩ := ha.authorized hone
  obtain ⟨-, trb, hauthorizesb⟩ := hb.authorized hone
  have hvalida := hauthorizesa.asks.1
  have hvalidb := hauthorizesb.asks.1
  rw [hgated] at hvalida hvalidb
  rw [← not_or, ← prefixedTool_eq_iff hne hvalida hvalidb]
  constructor
  · intro h
    rw [← hgated, ← hgated]
    exact h.gated
  · intro h
    rw [← hgated, ← hgated] at h
    exact ⟨h, fun tr htra htrb => h (htra.same htrb)⟩

/-! ### A proxy with one upstream -/

/-- A token for all tools, for an hour. -/
def toolsToken : Biscuit :=
  { authorityBuilder "user:alice" "agent:a" (.fromIterable [⟨.act, "tool:*", Eq.refl true⟩]) 0
      3600000000 none with
    rootKeyId := some 1 }.build TokenService.oneKey.lib [] ""

/-- A proxy over one upstream, for the session with the token. -/
def mailProxy : GuardedMcpProxy Biscuit String :=
  ⟨{ AgentSession.readerSession with token := toolsToken }, .one "https://mail", .empty,
    fun _ h => absurd h List.not_mem_nil⟩

/-- With an engine that relates everything, a tool that the gate allows is forwarded. -/
theorem mailProxy_forwards {name : String} (hname : name ≠ REDEEM_TOOL)
    (hallow : AgentSession.secondOne.gateOutcome mailProxy.session name = .allow) :
    mailProxy.MayForward Unit name := by
  have hrun := Raises.run_result (S := SessionSig) AgentSession.secondOne.answer
    (mailProxy.session.authorize name (some []))
  have houtcome := (mailProxy.session.under_authorize AgentSession.secondOne name).run hrun
    (Prog.exec_answered AgentSession.secondOne.gives_answer _)
  generalize Raises.result _ _ = x at hrun houtcome
  cases x with
  | error exc => exact nomatch houtcome.trans hallow
  | ok result =>
    refine mayForward_of_authorize rfl hname (.ok ()) hrun ?_
    exact decide_eq_true (houtcome.trans hallow)

/-- Sending and reading are two tools. -/
theorem single_upstream_apart_mail : mailProxy.Apart "mail.send" "mail.read" :=
  (single_upstream_apart_iff rfl rfl (by decide)
    (mailProxy_forwards (by decide) (by decide +kernel))
    (mailProxy_forwards (by decide) (by decide +kernel))).mpr ⟨by decide, by decide⟩

/-- The upstream tools `mail.send` and `tool:mail.send` are one to the gate. -/
theorem prefixed_name_shared :
    mailProxy.MayForward Unit "mail.send" ∧ mailProxy.MayForward Unit "tool:mail.send" ∧
      ¬ mailProxy.Apart "mail.send" "tool:mail.send" := by
  refine ⟨mailProxy_forwards (by decide) (by decide +kernel),
    mailProxy_forwards (by decide) (by decide +kernel), fun h => h.gated ?_⟩
  decide

end GuardedMcpProxy

end HeadOfContext
