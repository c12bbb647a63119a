import HeadOfContext.Api.Bearers

/-!
# The token layer behind the routes

The routes host the calls of the mandate service and of the token service: whatever requests do, the
mandates, the revoked ids and the ids drawn for blocks are those of a run of the desk. A mandate is
created, listed and revoked for the human whose bearer was verified, a token is issued to the agent
whose bearer was verified, and presented by it.

Routes read the clock and journal by themselves too, and so the clock of the desk may be behind
theirs (`DeskState.Follows`).
-/

namespace HeadOfContext

open Effects Except Service

/-! ### What the desk's collaborators see -/

/-- A call of the token layer that asks no store. -/
def TokenOp.Idle : TokenOp → Prop
  | now | uuid4 | record _ | check _ _ _ => True
  | _ => False

/-- A call of a route that asks no store of the token layer. -/
def ApiOp.StrayForDesk : ApiOp → Prop
  | session (.token o) => o.Idle
  | _ => True

/-- The stores are the same, and the clock of `t` is not ahead. -/
structure DeskState.Follows (t s : DeskState) : Prop where
  rows : t.rows = s.rows
  revoked : t.revoked = s.revoked
  signed : t.signed = s.signed
  clock : t.clock ≤ s.clock

section World

variable {s s' t : DeskState} {o : TokenOp} {r : o.Res}

theorem DeskState.Follows.isRevoked (h : t.Follows s) (ids : List String) :
    t.isRevoked ids = s.isRevoked ids := by
  rw [DeskState.isRevoked, DeskState.isRevoked, h.revoked]

theorem DeskState.Follows.row (h : t.Follows s) (id : String) : t.row id = s.row id := by
  rw [DeskState.row, DeskState.row, h.rows]

theorem DeskState.Follows.withRows (h : t.Follows s) (rows : MandateRows) :
    (t.withRows rows).Follows (s.withRows rows) :=
  ⟨rfl, h.revoked, h.signed, h.clock⟩

/-- A call that asks no store moves at most the clock. -/
theorem follows_of_idle (h : deskWorld.step s o r s') (ho : o.Idle) (ht : t.Follows s) :
    t.Follows s' := by
  cases o with
  | now =>
    obtain ⟨hle, rfl⟩ := h
    exact ⟨ht.rows, ht.revoked, ht.signed, ht.clock.trans hle⟩
  | uuid4 =>
    obtain rfl := h
    exact ht
  | record e =>
    obtain rfl := h
    exact ht
  | check subject relation resource =>
    obtain rfl := h
    exact ht
  | _ => exact ho.elim

/-- **The desk allows what the routes' collaborators do.** -/
theorem deskStep_of_follows (h : deskWorld.step s o r s') (ht : t.Follows s) :
    ∃ t', deskWorld.step t o r t' ∧ t'.Follows s' := by
  -- the two states share what the desk looks at, so that every answer fits both
  cases o with
  | now =>
    obtain ⟨hle, rfl⟩ := h
    exact ⟨{ t with clock := r }, ⟨ht.clock.trans hle, rfl⟩,
      ht.rows, ht.revoked, ht.signed, le_refl _⟩
  | uuid4 =>
    obtain rfl := h
    exact ⟨t, rfl, ht⟩
  | sign =>
    obtain ⟨rfl, hfresh, hhex⟩ := h
    refine ⟨{ t with signed := r :: t.signed }, ⟨rfl, ?_, hhex⟩, ht.rows, ht.revoked, ?_, ht.clock⟩
    · rwa [ht.signed]
    · exact congrArg (r :: ·) ht.signed
  | isRevoked ids =>
    match r with
    | .ok b =>
      obtain ⟨rfl, hb⟩ := h
      exact ⟨t, ⟨rfl, hb.trans (ht.isRevoked ids).symm⟩, ht⟩
    | .error e =>
      obtain rfl := h
      exact ⟨t, rfl, ht⟩
  | revoke id reason at_ =>
    match r with
    | .ok () =>
      obtain rfl := h
      exact ⟨{ t with revoked := id :: t.revoked }, rfl, ht.rows, congrArg (id :: ·) ht.revoked,
        ht.signed, ht.clock⟩
    | .error e =>
      obtain rfl := h
      exact ⟨t, rfl, ht⟩
  | record e =>
    obtain rfl := h
    exact ⟨t, rfl, ht⟩
  | check subject relation resource =>
    obtain rfl := h
    exact ⟨t, rfl, ht⟩
  | createMandate m =>
    match r with
    | .ok () =>
      obtain ⟨rows, hcreate, rfl⟩ := h
      exact ⟨t.withRows rows, ⟨rows, ht.rows ▸ hcreate, rfl⟩, ht.withRows rows⟩
    | .error e =>
      obtain rfl := h
      exact ⟨t, rfl, ht⟩
  | getMandate id =>
    match r with
    | .ok found =>
      obtain ⟨hfound, rfl⟩ := h
      exact ⟨t, ⟨hfound.trans (ht.row id).symm, rfl⟩, ht⟩
    | .error e =>
      obtain rfl := h
      exact ⟨t, rfl, ht⟩
  | updateMandate m =>
    match r with
    | .ok () =>
      obtain ⟨rows, hupdate, rfl⟩ := h
      exact ⟨t.withRows rows, ⟨rows, ht.rows ▸ hupdate, rfl⟩, ht.withRows rows⟩
    | .error e =>
      obtain rfl := h
      exact ⟨t, rfl, ht⟩
  | listMandates subject =>
    match r with
    | .ok found =>
      obtain ⟨hfound, rfl⟩ := h
      exact ⟨t, ⟨ht.rows ▸ hfound, rfl⟩, ht⟩
    | .error e =>
      obtain rfl := h
      exact ⟨t, rfl, ht⟩
  | expireActive now =>
    match r with
    | .ok expired =>
      obtain ⟨rows, hexpire, rfl⟩ := h
      exact ⟨t.withRows rows, ⟨rows, ht.rows ▸ hexpire, rfl⟩, ht.withRows rows⟩
    | .error e =>
      obtain rfl := h
      exact ⟨t, rfl, ht⟩

end World

/-- The desk agrees with the collaborators of the routes. -/
def DeskAgrees (s : ApiState) (t : DeskState) : Prop := t.Follows s.desk

theorem simulates_desk :
    Simulates Routed.tokenEmbeds ApiOp.StrayForDesk apiWorld deskWorld DeskAgrees where
  init := ⟨rfl, rfl, rfl, le_refl _⟩
  stray := by
    intro s s' t o r ho hstep hagrees
    cases o with
    | verifyUserToken token =>
      obtain rfl := hstep
      exact hagrees
    | session o =>
      cases o with
      | token o => exact follows_of_idle hstep.1 ho hagrees
      | gate o =>
        obtain ⟨-, hdesk⟩ := hstep
        show t.Follows s'.desk
        rw [hdesk]
        exact hagrees
  served := by
    intro s s' t o r hstep hagrees
    obtain ⟨hdesk, -⟩ := hstep
    exact deskStep_of_follows hdesk hagrees

/-! ### For whom a route calls the desk -/

namespace ApiCall

variable {Text : Type}

/-- The bearer and the token that a request presents. -/
def presented : ApiCall Text → Option (Option String × Text)
  | attenuate authorization token _ _ => some (authorization, token)
  | inspect authorization token => some (authorization, token)
  | revoke authorization token _ => some (authorization, token)
  | actionsGate authorization token _ _ => some (authorization, token)
  | actionsRedeem authorization token _ _ _ => some (authorization, token)
  | _ => none

end ApiCall

namespace Services

variable {Text : Type} (s : Services Text)

/-- A human who is present asks for a token, by this history: the user token was verified as the
subject's, and the engine says that the agent, whose own bearer was verified, may act for them. -/
structure AsksPresent (authorization : Option String) (body : IssueRequest) (chain : PrincipalChain)
    (h : Trace ApiSig) : Prop where
  noMandate : body.mandateId = none
  caller : s.Authenticated h authorization ⟨.agent, chain.actor⟩
  human : ∃ userToken identity, body.userToken = some userToken ∧
    ⟨.verifyUserToken userToken, .ok identity⟩ ∈ h ∧
    s.callerOf identity = .ok ⟨.user, chain.subject⟩
  bound : ⟨.session (.token (.check chain.subject BINDING_RELATION chain.actor)), .ok true⟩ ∈ h
  root : PrincipalChain.root chain.subject chain.actor body.scope.toCore = .ok chain

/-- **For whom a route calls the token layer**, by its history. -/
def TokenAuth (req : ApiCall Text) : TokenCall Text → Trace ApiSig → Prop
  | .issue chain _ mandateId, h => ∃ authorization body, req = .issue authorization body ∧
      mandateId = none ∧ s.AsksPresent authorization body chain h
  | .issueUnder mandateId caller scope _, h => ∃ authorization body,
      req = .issue authorization body ∧ body.mandateId = some mandateId ∧
        scope = body.scope.toCore ∧ s.Authenticated h authorization ⟨.agent, caller⟩
  | .attenuate token toActor scope, h => ∃ authorization scope' caller,
      req = .attenuate authorization token toActor scope' ∧ scope = scope'.toCore ∧
        s.Authenticated h authorization ⟨.agent, caller⟩
  | .revoke token caller reason, h => ∃ authorization,
      req = .revoke authorization token reason ∧ s.Authenticated h authorization ⟨.agent, caller⟩
  | .revokeMandate mandateId by_ _, h => ∃ authorization reason,
      req = .mandatesRevoke authorization mandateId reason ∧
        s.Authenticated h authorization ⟨.user, by_⟩
  | .verify token caller _ _, h => ∃ authorization,
      req.presented = some (authorization, token) ∧ s.Authenticated h authorization ⟨.agent, caller⟩
  | .inspect token caller, h => ∃ authorization,
      req.presented = some (authorization, token) ∧ s.Authenticated h authorization ⟨.agent, caller⟩
  | .verifyMany _ _ _ _, _ => False

/-- **For whom a route calls the desk**, by its history. -/
def DeskAuth (req : ApiCall Text) : MandateCall Text → Trace ApiSig → Prop
  | .create subject agent scope expiresAt createdBy maxTokenTtl, h => ∃ authorization body now,
      req = .mandatesCreate authorization body ∧ createdBy = subject ∧ agent = body.agent ∧
        scope = body.scope.toCore ∧ expiresAt = now + body.expiresInHours * HOUR ∧
        maxTokenTtl = minutesOrNone body.maxTokenTtlMinutes ∧
        s.Authenticated h authorization ⟨.user, subject⟩
  | .listFor subject, h => ∃ authorization, req = .mandatesList authorization ∧
      s.Authenticated h authorization ⟨.user, subject⟩
  | .expire, _ => req = .sweepMandates
  | .token c, h => s.TokenAuth req c h
  | .get _, _ => False

variable {s}

theorem AsksPresent.mono {authorization : Option String} {body : IssueRequest}
    {chain : PrincipalChain} {h h' : Trace ApiSig} (ha : s.AsksPresent authorization body chain h)
    (hsub : h ⊆ h') : s.AsksPresent authorization body chain h' := by
  obtain ⟨userToken, identity, hbody, hverified, hcaller⟩ := ha.human
  exact ⟨ha.noMandate, ha.caller.mono hsub, ⟨userToken, identity, hbody, hsub hverified, hcaller⟩,
    hsub ha.bound, ha.root⟩

/-- The hosts of the desk. -/
abbrev HostsDesk (s : Services Text) (req : ApiCall Text) {α : Type} (p : Routed α)
    (h : Trace ApiSig) : Prop :=
  Hosts Routed.tokenEmbeds s.mandates.desk ApiOp.StrayForDesk (s.DeskAuth req) p.run h

section Hosts

variable {req : ApiCall Text} {α β : Type} {h : Trace ApiSig}

theorem HostsDesk.seq {p : Routed α} {f : α → Routed β} (hp : s.HostsDesk req p h)
    (hf : ∀ tr a, Raises.Run p tr (.ok a) → s.HostsDesk req (f a) (h ++ tr)) :
    s.HostsDesk req (p >>= f) h := Hosts.seq hp hf

/-- What is stray for the desk. -/
theorem hostsDesk_of_calls {p : Routed α}
    (hp : Raises.Calls (S := ApiSig) ApiOp.StrayForDesk p) : s.HostsDesk req p h :=
  Hosts.of_calls hp

theorem hostsDesk_pure {a : α} : s.HostsDesk req (Pure.pure a : Routed α) h := Hosts.ret _ _

theorem hostsDesk_raise {e : Exn} : s.HostsDesk req (.raise e : Routed α) h := Hosts.ret _ _

/-- A step of its own, without a call, before the rest of a host. -/
theorem hostsDesk_ofHoc {x : Except HocError α} {f : α → Routed β}
    (hf : ∀ a, x = .ok a → s.HostsDesk req (f a) h) : s.HostsDesk req (Core.ofHoc x >>= f) h := by
  refine HostsDesk.seq (hostsDesk_of_calls (Raises.calls_ofExcept _)) fun tr a hrun => ?_
  obtain ⟨rfl, hx⟩ := Core.run_ofHoc_ok.mp hrun
  rw [List.append_nil]
  exact hf a hx

/-- An agent's route, once its caller is known. -/
theorem hostsDesk_agent {authorization : Option String} {f : Caller → Routed β}
    (hf : ∀ caller tr, s.Authenticated tr authorization ⟨.agent, caller.ref⟩ →
      isRef caller.ref "agent" = true → s.HostsDesk req (f caller) tr) :
    s.HostsDesk req (s.requireAgent authorization >>= f) [] := by
  refine HostsDesk.seq (hostsDesk_of_calls (calls_requireAgent fun _ => trivial))
    fun tr caller hrun => ?_
  obtain ⟨hauth, hagent, href⟩ := requireAgent_run hrun
  rw [List.nil_append]
  rw [hagent] at hauth
  exact hf caller tr hauth href

/-- A human's route, once its caller is known. -/
theorem hostsDesk_user {authorization : Option String} {f : Caller → Routed β}
    (hf : ∀ caller tr, s.Authenticated tr authorization ⟨.user, caller.ref⟩ →
      s.HostsDesk req (f caller) tr) :
    s.HostsDesk req (s.requireUser authorization >>= f) [] := by
  refine HostsDesk.seq (hostsDesk_of_calls (calls_requireUser fun _ => trivial))
    fun tr caller hrun => ?_
  obtain ⟨hauth, huser⟩ := requireUser_run hrun
  rw [List.nil_append]
  rw [huser] at hauth
  exact hf caller tr hauth

end Hosts

/-! ### The routes, one by one -/

section Routes

variable {req : ApiCall Text} {h : Trace ApiSig} {authorization : Option String} {caller : Caller}

/-- One method of the desk. -/
theorem hostsDesk_one {c : MandateCall Text} (hc : s.DeskAuth req c h) :
    Hosts Routed.tokenEmbeds s.mandates.desk ApiOp.StrayForDesk (s.DeskAuth req)
      ((s.mandates.desk.body c).embed Routed.tokenEmbeds) h := Hosts.one hc

theorem humanOf_run {identity : VerifiedIdentity} {subject : String} {tr : Trace TokenSig}
    (h : Raises.Run (s.humanOf identity caller) tr (.ok subject)) :
    tr = [] ∧ s.callerOf identity = .ok ⟨.user, subject⟩ := by
  unfold humanOf at h
  -- only the identity of a human is returned; every other one raises, journaled or not
  split at h
  · next subject' hhuman =>
    obtain ⟨rfl, rfl⟩ := Raises.run_pure_ok.mp h
    exact ⟨rfl, AgentDetection.requireHuman_eq_ok.mp hhuman⟩
  · next exc _ =>
    split_ifs at h
    · obtain ⟨_, tr₁, tr₂, rfl, -, hraise⟩ := Raises.run_bind_ok.mp h
      exact absurd (Raises.run_raise.mp hraise).2 (by simp)
    · exact absurd (Raises.run_raise.mp h).2 (by simp)

/-- Journaling a refused issue asks no store. -/
theorem idle_denyIssue {subject actor reason : String} :
    Raises.Calls (S := TokenSig) TokenOp.Idle (denyIssue subject actor reason) :=
  .bind (Raises.calls_lift_invoke trivial) fun _ =>
    .bind (Raises.calls_lift_invoke trivial) fun _ => Raises.calls_invoke trivial

theorem idle_humanOf {identity : VerifiedIdentity} :
    Raises.Calls (S := TokenSig) TokenOp.Idle (s.humanOf identity caller) := by
  unfold humanOf
  split
  · exact Raises.calls_pure _
  · split_ifs
    · exact .bind idle_denyIssue fun _ => Raises.calls_raise _
    · exact Raises.calls_raise _

/-- Asking no store of the token layer, a route does not host the desk. -/
theorem hostsDesk_idle {α : Type} {p : Tokens α}
    (hp : Raises.Calls (S := TokenSig) TokenOp.Idle p) : s.HostsDesk req (Routed.tokens p) h :=
  hostsDesk_of_calls (Raises.Calls.widen hp)

/-- A human who is present is asked for before the token is issued. -/
theorem hostsDesk_issuePresent {body : IssueRequest} {userToken : String}
    (hbody : body.userToken = some userToken) (hmandate : body.mandateId = none)
    (hauth : s.Authenticated h authorization ⟨.agent, caller.ref⟩) :
    s.HostsDesk (.issue authorization body)
      (s.issuePresent caller userToken body.scope (minutesOrNone body.ttlMinutes)) h := by
  -- the user token is verified first, then the identity read, then the engine asked
  refine HostsDesk.seq (hostsDesk_of_calls (Raises.calls_invoke trivial))
    fun tr₁ identity hidentity => ?_
  obtain rfl := Raises.run_invoke.mp hidentity
  refine HostsDesk.seq (hostsDesk_idle idle_humanOf) fun tr₂ subject hsubject => ?_
  obtain ⟨tr₀, rfl, hhuman⟩ := Routed.run_tokens.mp hsubject
  obtain ⟨rfl, hcaller⟩ := humanOf_run hhuman
  refine HostsDesk.seq (hostsDesk_idle (Raises.calls_invoke trivial)) fun tr₃ bound hbound => ?_
  obtain ⟨tr₀, rfl, hcheck⟩ := Routed.run_tokens.mp hbound
  obtain rfl := Raises.run_invoke.mp hcheck
  -- an agent that is not bound to the human is journaled and refused
  split_ifs with hfalse
  · exact HostsDesk.seq (hostsDesk_idle idle_denyIssue) fun _ _ _ => hostsDesk_raise
  · obtain rfl : bound = true := by simpa using hfalse
    refine hostsDesk_ofHoc fun chain hroot => ?_
    -- the chain that is issued is that of the human and the caller
    obtain ⟨rfl, hactor, -⟩ := PrincipalChain.make_ok hroot
    refine hostsDesk_one (c := .token (.issue chain (minutesOrNone body.ttlMinutes) none)) ?_
    refine ⟨authorization, body, rfl, rfl, hmandate, ?_, ⟨userToken, identity, hbody, ?_, hcaller⟩,
      ?_, ?_⟩
    · rw [hactor]
      exact hauth.mono (by simp)
    · simp
    · rw [hactor]
      simp [Routed.ofToken, BINDING_RELATION]
    · rwa [hactor]

theorem hostsDesk_issue {body : IssueRequest} :
    s.HostsDesk (.issue authorization body) (s.issue authorization body) [] := by
  refine hostsDesk_agent fun caller tr hauth _ => ?_
  refine HostsDesk.seq ?_ fun _ _ _ => hostsDesk_pure
  unfold issued
  simp only
  -- under a mandate the human need not be present, and otherwise must be
  split
  · next mandateId hmandate =>
    refine hostsDesk_one (c := .token (.issueUnder mandateId caller.ref body.scope.toCore
      (minutesOrNone body.ttlMinutes))) ?_
    exact ⟨authorization, body, rfl, hmandate, rfl, hauth⟩
  next hmandate =>
    split
    · exact hostsDesk_raise
    · next userToken hbody => exact hostsDesk_issuePresent hbody hmandate hauth

/-- Inspecting the token that the request presents. -/
theorem hostsDesk_inspect {token : Text}
    (hpresented : req.presented = some (authorization, token))
    (hauth : s.Authenticated h authorization ⟨.agent, caller.ref⟩) :
    s.HostsDesk req (Routed.tokens (s.tokens.inspect token caller.ref)) h :=
  hostsDesk_one (c := .token (.inspect token caller.ref)) ⟨authorization, hpresented, hauth⟩

theorem hostsDesk_attenuate {token : Text} {toActor : String} {scope : ScopeModel} :
    s.HostsDesk (.attenuate authorization token toActor scope)
      (s.attenuate authorization token toActor scope) [] := by
  refine hostsDesk_agent fun caller tr hauth _ => hostsDesk_ofHoc fun _ _ => ?_
  refine HostsDesk.seq (hostsDesk_inspect rfl hauth) fun tr' _ _ => ?_
  refine HostsDesk.seq ?_ fun _ _ _ => hostsDesk_pure
  refine hostsDesk_one (c := .token (.attenuate token toActor scope.toCore)) ?_
  exact ⟨authorization, scope, caller.ref, rfl, rfl, hauth.mono (List.subset_append_left _ _)⟩

theorem hostsDesk_revoke {token : Text} {reason : String} :
    s.HostsDesk (.revoke authorization token reason) (s.revoke authorization token reason) [] := by
  refine hostsDesk_agent fun caller tr hauth _ => ?_
  refine HostsDesk.seq (hostsDesk_inspect rfl hauth) fun tr' _ _ => ?_
  refine HostsDesk.seq ?_ fun _ _ _ => hostsDesk_pure
  refine hostsDesk_one (c := .token (.revoke token caller.ref reason)) ?_
  exact ⟨authorization, rfl, hauth.mono (List.subset_append_left _ _)⟩

theorem hostsDesk_mandatesCreate {body : MandateCreateRequest} :
    s.HostsDesk (.mandatesCreate authorization body) (s.mandatesCreate authorization body) [] := by
  refine hostsDesk_user fun caller tr hauth => ?_
  refine HostsDesk.seq (hostsDesk_idle (Raises.calls_lift_invoke trivial)) fun tr' now _ => ?_
  refine HostsDesk.seq ?_ fun _ _ _ => hostsDesk_pure
  refine hostsDesk_one (c := .create caller.ref body.agent body.scope.toCore
    (now + body.expiresInHours * HOUR) caller.ref (minutesOrNone body.maxTokenTtlMinutes)) ?_
  exact ⟨authorization, body, now, rfl, rfl, rfl, rfl, rfl, rfl,
    hauth.mono (List.subset_append_left _ _)⟩

/-- The token service inside a session is the one behind the routes, also where it raises. -/
theorem session_attempt {α : Type} (p : Tokens α) :
    Routed.session (Sessions.tokens p).attempt = (Routed.tokens p).attempt := by
  refine congrArg Raises.mk ((Prog.embed_bind _ _ _).trans ?_)
  show ((p.run.embed Sessions.tokenEmbeds).embed Routed.sessionEmbeds).bind _ = _
  rw [Prog.embed_embed]
  rfl

/-- A session verifies the token that the request presents. -/
theorem hostsDesk_verify {token : Text} {hcaller : isRef caller.ref "agent" = true}
    {resource : String} (hpresented : req.presented = some (authorization, token))
    (hauth : s.Authenticated h authorization ⟨.agent, caller.ref⟩) :
    s.HostsDesk req (Routed.session (AgentSession.verify
      ⟨token, caller.ref, s.tokens, s.gate, [], hcaller⟩ resource)) h := by
  rw [Routed.session, AgentSession.verify, Raises.embed_bind]
  refine HostsDesk.seq ?_ fun tr answer _ => ?_
  · -- the token service answers or raises, and the session looks at both
    show s.HostsDesk req (Routed.session (Sessions.tokens
      (s.tokens.verify token caller.ref .act resource)).attempt) h
    rw [session_attempt]
    refine Hosts.bind ?_ fun _ _ _ => Hosts.ret _ _
    exact hostsDesk_one (c := .token (.verify token caller.ref .act resource))
      ⟨authorization, hpresented, hauth⟩
  · match answer with
    | .ok _ => exact hostsDesk_pure
    | .error (.other _) => exact hostsDesk_raise
    | .error (.hoc exc) =>
      simp only
      split_ifs
      · -- the refusal is journaled by the gate's collaborators
        refine hostsDesk_of_calls (Raises.Calls.widen (m := Routed.sessionEmbeds) ?_)
        exact Raises.Calls.embed fun _ => trivial
      · exact hostsDesk_raise

/-- A method of a session asks the desk for its token, and the rest is the gate's. -/
theorem hostsDesk_session {α : Type} {token : Text} {hcaller : isRef caller.ref "agent" = true}
    {name : String} {p : String → PrincipalChain → Gated α}
    (hpresented : req.presented = some (authorization, token))
    (hauth : s.Authenticated h authorization ⟨.agent, caller.ref⟩) :
    s.HostsDesk req (Routed.session (Core.ofHoc (toolResource name) >>= fun resource =>
      AgentSession.verify ⟨token, caller.ref, s.tokens, s.gate, [], hcaller⟩ resource >>=
        fun chain =>
      Sessions.gated (p resource chain))) h := by
  rw [Routed.session, Raises.embed_bind]
  refine hostsDesk_ofHoc (x := toolResource name) fun resource _ => ?_
  rw [Raises.embed_bind]
  refine HostsDesk.seq (hostsDesk_verify hpresented hauth) fun tr chain _ => hostsDesk_of_calls ?_
  refine Raises.Calls.widen (m := Routed.sessionEmbeds) ?_
  exact Raises.Calls.embed fun _ => trivial

/-- **Every route hosts the desk.** -/
theorem hostsDesk (req : ApiCall Text) :
    Hosts Routed.tokenEmbeds s.mandates.desk ApiOp.StrayForDesk (s.DeskAuth req) (s.api.body req)
      [] := by
  -- each route knows its caller before it asks the desk
  cases req with
  | issue authorization body => exact hostsDesk_issue
  | attenuate authorization token toActor scope => exact hostsDesk_attenuate
  | inspect authorization token =>
    refine hostsDesk_agent fun caller tr hauth _ => ?_
    exact HostsDesk.seq (hostsDesk_inspect rfl hauth) fun _ _ _ => hostsDesk_pure
  | revoke authorization token reason => exact hostsDesk_revoke
  | mandatesCreate authorization body => exact hostsDesk_mandatesCreate
  | mandatesList authorization =>
    refine hostsDesk_user fun caller tr hauth => ?_
    refine HostsDesk.seq ?_ fun _ _ _ => hostsDesk_pure
    exact hostsDesk_one (c := .listFor caller.ref) ⟨authorization, rfl, hauth⟩
  | mandatesRevoke authorization mandateId reason =>
    refine hostsDesk_user fun caller tr hauth => ?_
    refine HostsDesk.seq ?_ fun _ _ _ => hostsDesk_pure
    exact hostsDesk_one
      (c := .token (.revokeMandate mandateId caller.ref (reason.getD "revoked by subject")))
      ⟨authorization, reason, rfl, hauth⟩
  -- the routes of the approvals only ask the gate
  | approvalsList authorization =>
    refine hostsDesk_user fun caller tr _ => hostsDesk_of_calls ?_
    exact .bind (Raises.Calls.embed fun _ => trivial) fun _ => Raises.calls_pure _
  | approvalsResolve authorization requestId approved reason =>
    refine hostsDesk_user fun caller tr _ => hostsDesk_of_calls ?_
    exact .bind (Raises.Calls.embed fun _ => trivial) fun _ => Raises.calls_pure _
  | actionsGate authorization token tool args =>
    refine hostsDesk_agent fun caller tr hauth _ => hostsDesk_ofHoc fun session hmake => ?_
    obtain ⟨hcaller, rfl⟩ := AgentSession.make_eq_ok hmake
    refine HostsDesk.seq ?_ fun _ _ _ => hostsDesk_pure
    exact hostsDesk_session (p := fun resource chain => s.gate.gate chain resource (some args)) rfl
      hauth
  | actionsRedeem authorization token requestId tool args =>
    refine hostsDesk_agent fun caller tr hauth _ => hostsDesk_ofHoc fun session hmake => ?_
    obtain ⟨hcaller, rfl⟩ := AgentSession.make_eq_ok hmake
    refine HostsDesk.seq ?_ fun _ _ _ => hostsDesk_pure
    exact hostsDesk_session
      (p := fun resource chain => s.gate.redeem chain requestId (some args) (some resource)) rfl
      hauth
  | sweepMandates => exact hostsDesk_one (h := []) (c := .expire) rfl
  | sweepApprovals =>
    exact hostsDesk_of_calls (p := Routed.gated ActionGate.sweep)
      (Raises.Calls.embed fun _ => trivial)

end Routes

end Services

end HeadOfContext
