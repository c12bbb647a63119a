import HeadOfContext.Actions.Spent
import HeadOfContext.Api.Routes
import HeadOfContext.Framework.Hosting
import HeadOfContext.Tokens.MandateBounds

/-!
# Who a request is for

What a route knows of its caller, by its history: the identity provider verified the bearer of the
request, and the identity is the caller's. And what a session knows of the chain it acts for: the
token was loaded, no block of it is revoked, and the caller is its last actor.
-/

namespace HeadOfContext

open Effects Except Service

/-! ### Tokens that are held -/

namespace TokenService

variable {Text : Type} {svc : TokenService Text} {token : Text} {caller : String}
  {tr : Trace TokenSig} {l : Loaded} {v : VerifiedToken}

/-- **The holder binding.** A token that passes was loaded, the store says that no id of it is
revoked, and the caller is its last actor. -/
theorem loadHeld_run_ok (h : Raises.Run (svc.loadHeld token caller) tr (.ok l)) :
    load svc.lib svc.keyring token = .ok l ∧ caller = l.chain.actor ∧
      tr = [⟨.isRevoked l.revocationIds, .ok false⟩] := by
  unfold loadHeld at h
  obtain ⟨l', tr₁, tr₂, rfl, hload', h₂⟩ := Raises.run_bind_ok.mp h
  obtain ⟨rfl, hload⟩ := Core.run_ofHoc_ok.mp hload'
  obtain ⟨revoked, tr₃, tr₄, rfl, hrevoked, h₃⟩ := Raises.run_bind_ok.mp h₂
  obtain rfl := run_isRevoked_ok.mp hrevoked
  obtain ⟨_, tr₅, tr₆, rfl, hfree', h₄⟩ := Raises.run_bind_ok.mp h₃
  obtain ⟨rfl, hfree⟩ := Core.run_ofHoc_ok.mp hfree'
  obtain ⟨_, tr₇, tr₈, rfl, hholder', h₅⟩ := Raises.run_bind_ok.mp h₄
  obtain ⟨rfl, hholder⟩ := Core.run_ofHoc_ok.mp hholder'
  obtain ⟨rfl, rfl⟩ := Raises.run_pure_ok.mp h₅
  obtain rfl : revoked = false := by simpa using raiseIf_eq_ok.mp hfree
  exact ⟨hload, not_not.mp (raiseIf_eq_ok.mp hholder), rfl⟩

theorem verify_run_ok {operation : Kind} {resource : String}
    (h : Raises.Run (svc.verify token caller operation resource) tr (.ok v)) :
    ∃ l now, load svc.lib svc.keyring token = .ok l ∧ caller = l.chain.actor ∧
      v = svc.verified token l ∧ authorizeOrRaise l caller operation resource now = .ok () ∧
      tr = [⟨.isRevoked l.revocationIds, .ok false⟩, ⟨.now, now⟩] := by
  unfold verify at h
  obtain ⟨_, tr₁, tr₂, rfl, hcaller, h₂⟩ := Raises.run_bind_ok.mp h
  obtain ⟨rfl, -⟩ := Core.run_ofHoc_ok.mp hcaller
  obtain ⟨_, tr₃, tr₄, rfl, hresource, h₃⟩ := Raises.run_bind_ok.mp h₂
  obtain ⟨rfl, -⟩ := Core.run_ofHoc_ok.mp hresource
  obtain ⟨l, tr₅, tr₆, rfl, hheld, h₄⟩ := Raises.run_bind_ok.mp h₃
  obtain ⟨hload, hholder, rfl⟩ := loadHeld_run_ok hheld
  obtain ⟨now, tr₇, tr₈, rfl, hnow, h₅⟩ := Raises.run_bind_ok.mp h₄
  obtain rfl := Raises.run_lift_invoke_ok.mp hnow
  obtain ⟨_, tr₉, tr₁₀, rfl, hauthorized', h₆⟩ := Raises.run_bind_ok.mp h₅
  obtain ⟨rfl, hauthorized⟩ := Core.run_ofHoc_ok.mp hauthorized'
  obtain ⟨rfl, rfl⟩ := Raises.run_pure_ok.mp h₆
  exact ⟨l, now, hload, hholder, rfl, hauthorized, rfl⟩

theorem inspect_run_ok (h : Raises.Run (svc.inspect token caller) tr (.ok v)) :
    ∃ l now, load svc.lib svc.keyring token = .ok l ∧ caller = l.chain.actor ∧
      v = svc.verified token l ∧ now < l.expiresAt ∧
      tr = [⟨.isRevoked l.revocationIds, .ok false⟩, ⟨.now, now⟩] := by
  unfold inspect at h
  obtain ⟨_, tr₁, tr₂, rfl, hcaller, h₂⟩ := Raises.run_bind_ok.mp h
  obtain ⟨rfl, -⟩ := Core.run_ofHoc_ok.mp hcaller
  obtain ⟨l, tr₃, tr₄, rfl, hheld, h₃⟩ := Raises.run_bind_ok.mp h₂
  obtain ⟨hload, hholder, rfl⟩ := loadHeld_run_ok hheld
  obtain ⟨now, tr₅, tr₆, rfl, hnow, h₄⟩ := Raises.run_bind_ok.mp h₃
  obtain rfl := Raises.run_lift_invoke_ok.mp hnow
  obtain ⟨_, tr₇, tr₈, rfl, hfresh', h₅⟩ := Raises.run_bind_ok.mp h₄
  obtain ⟨rfl, hfresh⟩ := Core.run_ofHoc_ok.mp hfresh'
  obtain ⟨rfl, rfl⟩ := Raises.run_pure_ok.mp h₅
  exact ⟨l, now, hload, hholder, rfl, not_le.mp (raiseIf_eq_ok.mp hfresh), rfl⟩

theorem verifyMany_run_ok {operation : Kind} {resources : List String}
    {permits : List (String × Bool)}
    (h : Raises.Run (svc.verifyMany token caller operation resources) tr (.ok (v, permits))) :
    ∃ l now, load svc.lib svc.keyring token = .ok l ∧ caller = l.chain.actor ∧
      v = svc.verified token l ∧ now < l.expiresAt ∧
      permitsLoop l caller operation now [] resources = .ok permits ∧
      tr = [⟨.isRevoked l.revocationIds, .ok false⟩, ⟨.now, now⟩] := by
  unfold verifyMany at h
  obtain ⟨_, tr₁, tr₂, rfl, hcaller, h₂⟩ := Raises.run_bind_ok.mp h
  obtain ⟨rfl, -⟩ := Core.run_ofHoc_ok.mp hcaller
  obtain ⟨l, tr₃, tr₄, rfl, hheld, h₃⟩ := Raises.run_bind_ok.mp h₂
  obtain ⟨hload, hholder, rfl⟩ := loadHeld_run_ok hheld
  obtain ⟨now, tr₅, tr₆, rfl, hnow, h₄⟩ := Raises.run_bind_ok.mp h₃
  obtain rfl := Raises.run_lift_invoke_ok.mp hnow
  obtain ⟨_, tr₇, tr₈, rfl, hfresh', h₅⟩ := Raises.run_bind_ok.mp h₄
  obtain ⟨rfl, hfresh⟩ := Core.run_ofHoc_ok.mp hfresh'
  obtain ⟨answers, tr₉, tr₁₀, rfl, hloop', h₆⟩ := Raises.run_bind_ok.mp h₅
  obtain ⟨rfl, hloop⟩ := Core.run_ofHoc_ok.mp hloop'
  obtain ⟨rfl, hpair⟩ := Raises.run_pure_ok.mp h₆
  obtain ⟨rfl, rfl⟩ := Prod.mk.inj hpair
  exact ⟨l, now, hload, hholder, rfl, not_le.mp (raiseIf_eq_ok.mp hfresh), hloop, rfl⟩

end TokenService

namespace AgentSession

variable {Text : Type} {s : AgentSession Text}

/-- The chain that a session acts for was proven by its token, for this tool. -/
theorem verify_run_ok {resource : String} {tr : Trace SessionSig} {chain : PrincipalChain}
    (h : Raises.Run (s.verify resource) tr (.ok chain)) :
    ∃ l now, load s.tokens.lib s.tokens.keyring s.token = .ok l ∧ l.chain = chain ∧
      s.caller = chain.actor ∧
      TokenService.authorizeOrRaise l s.caller .act resource now = .ok () ∧
      tr = [⟨.token (.isRevoked l.revocationIds), .ok false⟩, ⟨.token .now, now⟩] := by
  unfold verify at h
  obtain ⟨answer, tr₁, tr₂, rfl, h₁, h₂⟩ := Raises.run_bind_ok.mp h
  obtain ⟨tr₀, rfl, hverify⟩ := Sessions.run_tokens.mp (Raises.run_attempt_ok.mp h₁)
  match answer with
  | .ok verified =>
    obtain ⟨l, now, hload, hholder, rfl, hauthorized, rfl⟩ := TokenService.verify_run_ok hverify
    obtain ⟨rfl, rfl⟩ := Raises.run_pure_ok.mp h₂
    exact ⟨l, now, hload, rfl, hholder, hauthorized, rfl⟩
  | .error (.other name) => exact absurd (Raises.run_raise.mp h₂).2 (by simp)
  | .error (.hoc exc) =>
    -- a refusal raises, after it was journaled
    change Raises.Run (if exc.cls.isTokenInvalid = true then _ else _) tr₂ (.ok chain) at h₂
    split_ifs at h₂ with htoken
    · obtain ⟨tr₃, rfl, hrefuse⟩ := Sessions.run_gated.mp h₂
      unfold refuse at hrefuse
      obtain ⟨_, tr₄, tr₅, rfl, -, h₄⟩ := Raises.run_bind_ok.mp hrefuse
      obtain ⟨_, tr₆, tr₇, rfl, -, h₅⟩ := Raises.run_bind_ok.mp h₄
      obtain ⟨_, tr₈, tr₉, rfl, -, h₆⟩ := Raises.run_bind_ok.mp h₅
      exact absurd (Raises.run_raise.mp h₆).2 (by simp)
    · exact absurd (Raises.run_raise.mp h₂).2 (by simp)

theorem make_eq_ok {token : Text} {caller : String} {tokens : TokenService Text} {gate : ActionGate}
    {ids : List String} (h : make token caller tokens gate ids = .ok s) :
    ∃ hcaller, s = ⟨token, caller, tokens, gate, ids, hcaller⟩ := by
  unfold make at h
  split_ifs at h with hcaller
  exact ⟨hcaller, (Except.ok.inj h).symm⟩

end AgentSession

/-! ### Callers -/

namespace Routed

variable {α : Type} {tr : Trace ApiSig} {r : Except Exn α}

/-- A call of the token layer, as a route sees it. -/
def ofToken (e : Event TokenSig) : Event ApiSig := ⟨.session (.token e.op), e.res⟩

/-- A call of the gate, as a route sees it. -/
def ofGate (e : Event GateSig) : Event ApiSig := ⟨.session (.gate e.op), e.res⟩

/-- A call of a session, as a route sees it. -/
def ofSession (e : Event SessionSig) : Event ApiSig := ⟨.session e.op, e.res⟩

theorem run_tokens {p : Tokens α} : Raises.Run (tokens p) tr r ↔
    ∃ tr₀ : Trace TokenSig, tr = tr₀.map ofToken ∧ Raises.Run p tr₀ r :=
  Prog.run_embed_iff (fun _ => rfl) fun e => ⟨⟨e.op, e.res⟩, rfl⟩

theorem run_session {p : Sessions α} : Raises.Run (session p) tr r ↔
    ∃ tr₀ : Trace SessionSig, tr = tr₀.map ofSession ∧ Raises.Run p tr₀ r :=
  Prog.run_embed_iff (fun _ => rfl) fun e => ⟨⟨e.op, e.res⟩, rfl⟩

end Routed

namespace Services

variable {Text : Type} {s : Services Text}

variable (s) in
/-- By this history, the identity provider verified the bearer of the request as the caller's. -/
def Authenticated (h : Trace ApiSig) (authorization : Option String) (caller : Caller) : Prop :=
  ∃ token identity, bearerToken authorization = .ok token ∧
    ⟨.verifyUserToken token, .ok identity⟩ ∈ h ∧ s.callerOf identity = .ok caller

theorem Authenticated.mono {h h' : Trace ApiSig} {authorization : Option String} {caller : Caller}
    (ha : s.Authenticated h authorization caller) (hsub : h ⊆ h') :
    s.Authenticated h' authorization caller := by
  obtain ⟨token, identity, hbearer, hverified, hcaller⟩ := ha
  exact ⟨token, identity, hbearer, hsub hverified, hcaller⟩

section Callers

variable {authorization : Option String} {caller : Caller} {tr : Trace ApiSig}

theorem identityOf_run (h : Raises.Run (s.identityOf authorization) tr (.ok caller)) :
    s.Authenticated tr authorization caller := by
  unfold identityOf at h
  obtain ⟨token, tr₁, tr₂, rfl, hbearer', h₂⟩ := Raises.run_bind_ok.mp h
  obtain ⟨rfl, hbearer⟩ := Core.run_ofHoc_ok.mp hbearer'
  obtain ⟨identity, tr₃, tr₄, rfl, hverify, h₃⟩ := Raises.run_bind_ok.mp h₂
  obtain rfl := Raises.run_invoke.mp hverify
  obtain ⟨rfl, hcaller⟩ := Core.run_ofHoc_ok.mp h₃
  exact ⟨token, identity, hbearer, by simp, hcaller⟩

/-- **An agent's route** works for an agent. -/
theorem requireAgent_run (h : Raises.Run (s.requireAgent authorization) tr (.ok caller)) :
    s.Authenticated tr authorization caller ∧ caller = ⟨.agent, caller.ref⟩ ∧
      isRef caller.ref "agent" = true := by
  unfold requireAgent at h
  obtain ⟨caller', tr₁, tr₂, rfl, hidentity, h₂⟩ := Raises.run_bind_ok.mp h
  obtain ⟨_, tr₃, tr₄, rfl, hkind', h₃⟩ := Raises.run_bind_ok.mp h₂
  obtain ⟨rfl, hkind⟩ := Core.run_ofHoc_ok.mp hkind'
  obtain ⟨rfl, rfl⟩ := Raises.run_pure_ok.mp h₃
  have hagent : caller.kind = .agent := not_not.mp (raiseIf_eq_ok.mp hkind)
  have hauth := identityOf_run hidentity
  obtain ⟨token, identity, -, -, hcaller⟩ := id hauth
  refine ⟨hauth.mono (by simp), ?_, AgentDetection.isRef_of_agent hcaller hagent⟩
  rw [← hagent]

/-- **A human's route** works for a human. -/
theorem requireUser_run (h : Raises.Run (s.requireUser authorization) tr (.ok caller)) :
    s.Authenticated tr authorization caller ∧ caller = ⟨.user, caller.ref⟩ := by
  unfold requireUser at h
  obtain ⟨caller', tr₁, tr₂, rfl, hidentity, h₂⟩ := Raises.run_bind_ok.mp h
  obtain ⟨_, tr₃, tr₄, rfl, hkind', h₃⟩ := Raises.run_bind_ok.mp h₂
  obtain ⟨rfl, hkind⟩ := Core.run_ofHoc_ok.mp hkind'
  obtain ⟨rfl, rfl⟩ := Raises.run_pure_ok.mp h₃
  have huser : caller.kind = .user := not_not.mp (raiseIf_eq_ok.mp hkind)
  refine ⟨(identityOf_run hidentity).mono (by simp), ?_⟩
  rw [← huser]

/-- What a route is told of its caller calls nobody but the identity provider. -/
theorem calls_identityOf {A : ApiOp → Prop} (hA : ∀ token, A (.verifyUserToken token)) :
    Raises.Calls (S := ApiSig) A (s.identityOf authorization) :=
  .bind (Raises.calls_ofExcept _) fun token => .bind (Raises.calls_invoke (hA token)) fun _ =>
    Raises.calls_ofExcept _

theorem calls_requireAgent {A : ApiOp → Prop} (hA : ∀ token, A (.verifyUserToken token)) :
    Raises.Calls (S := ApiSig) A (s.requireAgent authorization) :=
  .bind (calls_identityOf hA) fun _ => .bind (Raises.calls_ofExcept _) fun _ => Raises.calls_pure _

theorem calls_requireUser {A : ApiOp → Prop} (hA : ∀ token, A (.verifyUserToken token)) :
    Raises.Calls (S := ApiSig) A (s.requireUser authorization) :=
  .bind (calls_identityOf hA) fun _ => .bind (Raises.calls_ofExcept _) fun _ => Raises.calls_pure _

end Callers

end Services

/-! ### The collaborators -/

/-- The state of the collaborators: those of the token layer, and those of the gate. -/
structure ApiState where
  desk : DeskState
  gate : GateState

/-- The collaborators of the routes. The identity provider answers anything. -/
def apiWorld : World ApiSig where
  State := ApiState
  init := ⟨deskWorld.init, gateWorld.init⟩
  step s o r s' :=
    match o, r with
    | .session (.token o), r => deskWorld.step s.desk o r s'.desk ∧ s'.gate = s.gate
    | .session (.gate o), r => gateWorld.step s.gate o r s'.gate ∧ s'.desk = s.desk
    | .verifyUserToken _, _ => s' = s

/-- The record of a run of the routes. -/
abbrev Services.ApiRun {Text : Type} (s : Services Text) := List (s.api.Moment apiWorld)

/-- One way to answer: as the drivers of the two parts do, and with the identities that the
provider knows. -/
def apiDriver (identities : String → Except Exn VerifiedIdentity) : Driver apiWorld where
  answer s
    | .session (.token o) => deskDriver.answer s.desk o
    | .session (.gate o) => gateDriver.answer s.gate o
    | .verifyUserToken token => identities token
  after s
    | .session (.token o) => (deskDriver.after s.desk o).map fun desk => { s with desk := desk }
    | .session (.gate o) => (gateDriver.after s.gate o).map fun gate => { s with gate := gate }
    | .verifyUserToken _ => some s
  sound := by
    intro s o s' h
    cases o with
    | verifyUserToken token => exact (Option.some.inj h).symm
    | session o =>
      cases o with
      | token o =>
        obtain ⟨desk, hafter, rfl⟩ := Option.map_eq_some_iff.mp h
        exact ⟨deskDriver.sound hafter, rfl⟩
      | gate o =>
        obtain ⟨gate, hafter, rfl⟩ := Option.map_eq_some_iff.mp h
        exact ⟨gateDriver.sound hafter, rfl⟩

/-! ### A small deployment -/

namespace Services

/-- A service with one key, whose approvals wait for `100`. -/
def oneKey : Services Biscuit :=
  ⟨.default, fun _ => [], MandateService.boundToEngine, ActionGate.waiting 100⟩

/-- The identities behind two bearers: the agent's, and bob's. -/
def agentAndBob (bearer : String) : Except Exn VerifiedIdentity :=
  if bearer = "a" then .ok ⟨"user:service-account-a", "idp", [], 0,
    .obj [(.ofString "clientId", .str (.ofString "a"))]⟩
  else if bearer = "bob" then .ok ⟨"user:bob", "idp", [], 0, .obj []⟩
  else .error (.hoc (HocClass.identityError.error "token verification failed"))

/-- Start the request `c`, and let the request number `i` go on `n` times. -/
def requestThen (c : ApiCall Biscuit) (i n : ℕ) : List oneKey.api.Move :=
  .spawn c :: List.replicate n (.next i)

end Services

end HeadOfContext
