import HeadOfContext.Api.Bearers

/-!
# The gate behind the routes

The routes host the calls of the gate: whatever requests do, the rows of the approval store are
those of a run of the gate. Its `resolve` calls are made for the human whose bearer was verified,
and its `gate` and `redeem` calls for the chain of a token that the verified agent holds.
-/

namespace HeadOfContext

open Effects Except Service

/-! ### What the gate's collaborators see -/

/-- A call of the gate that leaves the rows of the approval store as they are. -/
def GateOp.Reads : GateOp → Prop
  | core _ | get _ | listPending _ | notify _ _ => True
  | _ => False

/-- A call of a route that leaves the rows of the approval store as they are. -/
def ApiOp.StrayForGate : ApiOp → Prop
  | session (.gate o) => o.Reads
  | _ => True

section World

variable {s s' t : GateState} {o : GateOp} {r : o.Res}

end World

namespace Services

variable {Text : Type} (s : Services Text)

/-- By this history, the bearer of the request was verified as an agent's, and that agent holds the
token, which is not revoked and permits the tool, with this chain. -/
def Presents (h : Trace ApiSig) (authorization : Option String) (token : Text) (tool : String)
    (chain : PrincipalChain) : Prop :=
  s.Authenticated h authorization ⟨.agent, chain.actor⟩ ∧
    ∃ l now, load s.tokens.lib s.tokens.keyring token = .ok l ∧ l.chain = chain ∧
      ⟨.session (.token (.isRevoked l.revocationIds)), .ok false⟩ ∈ h ∧
      ⟨.session (.token .now), now⟩ ∈ h ∧
      TokenService.authorizeOrRaise l chain.actor .act tool now = .ok ()

/-- **For whom a route calls the gate**, by its history. -/
def GateAuth (req : ApiCall Text) : GateCall → Trace ApiSig → Prop
  | .gate chain tool args, h => ∃ authorization token name args',
      req = .actionsGate authorization token name args' ∧ toolResource name = .ok tool ∧
        args = some args' ∧ s.Presents h authorization token tool chain
  | .redeem chain requestId args tool, h => ∃ authorization token name args' resource,
      req = .actionsRedeem authorization token requestId name args' ∧
        toolResource name = .ok resource ∧ tool = some resource ∧ args = some args' ∧
        s.Presents h authorization token resource chain
  | .resolve requestId approver approved reason, h => ∃ authorization,
      req = .approvalsResolve authorization requestId approved reason ∧
        s.Authenticated h authorization ⟨.user, approver⟩
  | .sweep, _ => req = .sweepApprovals

variable {s}

theorem Presents.mono {h h' : Trace ApiSig} {authorization : Option String} {token : Text}
    {tool : String} {chain : PrincipalChain} (hp : s.Presents h authorization token tool chain)
    (hsub : h ⊆ h') : s.Presents h' authorization token tool chain := by
  obtain ⟨hauth, l, now, hload, hchain, hrevoked, hnow, hauthorized⟩ := hp
  exact ⟨hauth.mono hsub, l, now, hload, hchain, hsub hrevoked, hsub hnow, hauthorized⟩

/-- The hosts of the gate. -/
abbrev HostsGate (s : Services Text) (req : ApiCall Text) {α : Type} (p : Routed α)
    (h : Trace ApiSig) : Prop :=
  Hosts Routed.gateEmbeds s.gate.service ApiOp.StrayForGate (s.GateAuth req) p.run h

section Hosts

variable {req : ApiCall Text} {α β : Type} {h : Trace ApiSig}

theorem HostsGate.seq {p : Routed α} {f : α → Routed β} (hp : s.HostsGate req p h)
    (hf : ∀ tr a, Raises.Run p tr (.ok a) → s.HostsGate req (f a) (h ++ tr)) :
    s.HostsGate req (p >>= f) h := Hosts.seq hp hf

end Hosts

section Actions

variable {req : ApiCall Text} {authorization : Option String} {token : Text} {caller : Caller}
  {hcaller : isRef caller.ref "agent" = true} {h : Trace ApiSig}

end Actions

/-! ### The routes, one by one -/

section Routes

variable {req : ApiCall Text} {h : Trace ApiSig}

end Routes

end Services

end HeadOfContext
