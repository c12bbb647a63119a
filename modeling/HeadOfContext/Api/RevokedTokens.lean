import HeadOfContext.Api.IssuedTokens

/-!
# Revocations are obeyed

Once a request that revokes a token or a mandate has been answered, no later request is answered
that rests on it. The store of revoked ids only grows (`revoked_stays`), every request that presents
a token asks it for every id of the token (`presented_answered`), and `POST /v1/tokens/issue` asks
it for the id of the mandate.

A request that was asking while the other was revoking may still be answered.
-/

namespace HeadOfContext

open Effects Except Service

/-! ### What a token that was revoked leaves behind -/

/-- The id that revokes a token is an id of every token that grows from it. -/
theorem ownRevocationId_mem {Text : Type} {lib : BiscuitLib Text} {b : Biscuit}
    {blocks : List Biscuit.Block} {l l' : Loaded} (hl : loadBiscuit lib b = .ok l)
    (hl' : loadBiscuit lib (b.append blocks) = .ok l') : l.ownRevocationId ∈ l'.revocationIds := by
  have hown : l.ownRevocationId ∈ l.biscuit.revocationIds := List.getLast_mem _
  rw [biscuit_of_loadBiscuit hl] at hown
  have hgrown : l.ownRevocationId ∈ (b.append blocks).revocationIds := by
    have happend : (b.append blocks).revocationIds =
        b.revocationIds ++ blocks.map Biscuit.Block.revocationId := by
      simp [Biscuit.revocationIds, Biscuit.append]
    rw [happend]
    exact List.mem_append_left _ hown
  rw [Loaded.revocationIds, biscuit_of_loadBiscuit hl']
  cases l'.mandateId with
  | none => exact hgrown
  | some mandateId => exact List.mem_append_left _ hgrown

/-- The id of its mandate is an id of a token. -/
theorem mandateRevocationId_mem {l : Loaded} {mandateId : String}
    (h : l.mandateId = some mandateId) : mandateRevocationId mandateId ∈ l.revocationIds := by
  rw [Loaded.revocationIds, h]
  exact revocationId_mem

/-! ### What was told -/

namespace TokenService

variable {Text : Type} {svc : TokenService Text} {token : Text} {caller : String}
  {tr : Trace TokenSig}

/-- The store was told to revoke, and did. -/
theorem revokeId_run_ok {id reason : String} {u : Unit}
    (h : Raises.Run (revokeId id reason) tr (.ok u)) :
    ∃ now, ⟨.revoke id reason now, .ok ()⟩ ∈ tr := by
  unfold revokeId at h
  obtain ⟨now, tr₁, tr₂, rfl, -, h₂⟩ := Raises.run_bind_ok.mp h
  obtain ⟨_, tr₃, tr₄, rfl, hrevoke, -⟩ := Raises.run_bind_ok.mp h₂
  obtain rfl := Raises.run_invoke.mp hrevoke
  exact ⟨now, by simp⟩

theorem revoke_run_ok {reason id : String}
    (h : Raises.Run (svc.revoke token caller reason) tr (.ok id)) :
    ∃ l now, load svc.lib svc.keyring token = .ok l ∧
      ⟨.revoke l.ownRevocationId reason now, .ok ()⟩ ∈ tr := by
  unfold revoke at h
  obtain ⟨l, tr₁, tr₂, rfl, hload', h₂⟩ := Raises.run_bind_ok.mp h
  obtain ⟨rfl, hload⟩ := Core.run_ofHoc_ok.mp hload'
  obtain ⟨_, tr₃, tr₄, rfl, -, h₃⟩ := Raises.run_bind_ok.mp h₂
  obtain ⟨_, tr₅, tr₆, rfl, hrevoke, -⟩ := Raises.run_bind_ok.mp h₃
  obtain ⟨now, hmem⟩ := revokeId_run_ok hrevoke
  exact ⟨l, now, hload, by simp [hmem]⟩

end TokenService

namespace MandateService

theorem revoke_run_ok {mandateId by_ reason : String} {tr : Trace TokenSig} {m : Mandate}
    (h : Raises.Run (MandateService.revoke mandateId by_ reason) tr (.ok m)) :
    ∃ stored reason' now, ⟨.getMandate mandateId, .ok (some stored)⟩ ∈ tr ∧ by_ = stored.subject ∧
      ⟨.revoke stored.revocationId reason' now, .ok ()⟩ ∈ tr := by
  unfold MandateService.revoke at h
  obtain ⟨found, tr₁, tr₂, rfl, hget, h₂⟩ := Raises.run_bind_ok.mp h
  obtain rfl := Raises.run_invoke.mp hget
  match found with
  | none => exact absurd (Raises.run_raise.mp h₂).2 (by simp)
  | some stored =>
    obtain ⟨_, tr₃, tr₄, rfl, hsubject, h₃⟩ := Raises.run_bind_ok.mp h₂
    obtain ⟨rfl, hsame⟩ := Core.run_ofHoc_ok.mp hsubject
    obtain ⟨now, tr₅, tr₆, rfl, -, h₄⟩ := Raises.run_bind_ok.mp h₃
    obtain ⟨_, tr₇, tr₈, rfl, hrevoke, -⟩ := Raises.run_bind_ok.mp h₄
    obtain ⟨at_, hmem⟩ := TokenService.revokeId_run_ok hrevoke
    refine ⟨stored, if reason = "" then "mandate revoked" else reason, at_, by simp,
      not_not.mp (raiseIf_eq_ok.mp hsame), ?_⟩
    exact List.mem_append_right _ (List.mem_append_right _ (List.mem_append_right _
      (List.mem_append_left _ hmem)))

end MandateService

namespace Services

variable {Text : Type} {s : Services Text} {run pre post : ApiRun s} {st : ApiState}

/-! ### What a request that was answered has been told -/

/-- By this history, the store was asked for every id of the token, and said that none is
revoked. -/
def Unrevoked (s : Services Text) (tr : Trace ApiSig) (token : Text) : Prop :=
  ∃ l, load s.tokens.lib s.tokens.keyring token = .ok l ∧
    ⟨.session (.token (.isRevoked l.revocationIds)), .ok false⟩ ∈ tr

section Answered

variable {token : Text} {tr tr' : Trace ApiSig}

theorem Unrevoked.mono (h : s.Unrevoked tr token) (hsub : tr ⊆ tr') : s.Unrevoked tr' token := by
  obtain ⟨l, hload, hmem⟩ := h
  exact ⟨l, hload, hsub hmem⟩

theorem inspect_answered {caller : String} {v : VerifiedToken}
    (h : Raises.Run (Routed.tokens (s.tokens.inspect token caller)) tr (.ok v)) :
    s.Unrevoked tr token := by
  obtain ⟨tr₀, rfl, hrun⟩ := Routed.run_tokens.mp h
  obtain ⟨l, now, hload, -, -, -, rfl⟩ := TokenService.inspect_run_ok hrun
  exact ⟨l, hload, by simp [Routed.ofToken]⟩

/-- A session that has verified its token. -/
theorem verify_answered {caller : Caller} {session : AgentSession Text} {resource : String}
    {tr₀ : Trace SessionSig} {chain : PrincipalChain} (hsession : Raises.Run
      (s.sessionOf caller token) tr (.ok session))
    (hverify : Raises.Run (session.verify resource) tr₀ (.ok chain)) :
    s.Unrevoked (tr₀.map Routed.ofSession) token := by
  obtain ⟨-, hmake⟩ := Core.run_ofHoc_ok.mp hsession
  obtain ⟨hcaller, rfl⟩ := AgentSession.make_eq_ok hmake
  -- a token that is verified has been looked up in the store
  obtain ⟨l, now, hload, -, -, -, rfl⟩ := AgentSession.verify_run_ok hverify
  exact ⟨l, hload, by simp [Routed.ofSession]⟩

theorem actionsGate_answered {authorization : Option String} {tool : String} {args : Args}
    {answer : GateResponse}
    (h : Raises.Run (s.actionsGate authorization token tool args) tr (.ok answer)) :
    s.Unrevoked tr token := by
  unfold actionsGate at h
  obtain ⟨caller, tr₁, tr₂, rfl, -, h₂⟩ := Raises.run_bind_ok.mp h
  obtain ⟨session, tr₃, tr₄, rfl, hsession, h₃⟩ := Raises.run_bind_ok.mp h₂
  obtain ⟨result, tr₅, tr₆, rfl, hrun, -⟩ := Raises.run_bind_ok.mp h₃
  -- the session verifies its token before it asks the gate
  obtain ⟨tr₀, rfl, hauthorize⟩ := Routed.run_session.mp hrun
  unfold AgentSession.authorize at hauthorize
  obtain ⟨resource, tr₇, tr₈, rfl, -, h₄⟩ := Raises.run_bind_ok.mp hauthorize
  obtain ⟨chain, tr₉, tr₁₀, rfl, hverify, -⟩ := Raises.run_bind_ok.mp h₄
  exact (verify_answered hsession hverify).mono fun e he => by simp [List.mem_map.mp he]

theorem actionsRedeem_answered {authorization : Option String} {requestId tool : String}
    {args : Args} {answer : DecisionModel}
    (h : Raises.Run (s.actionsRedeem authorization token requestId tool args) tr (.ok answer)) :
    s.Unrevoked tr token := by
  unfold actionsRedeem at h
  obtain ⟨caller, tr₁, tr₂, rfl, -, h₂⟩ := Raises.run_bind_ok.mp h
  obtain ⟨session, tr₃, tr₄, rfl, hsession, h₃⟩ := Raises.run_bind_ok.mp h₂
  obtain ⟨decision, tr₅, tr₆, rfl, hrun, -⟩ := Raises.run_bind_ok.mp h₃
  -- the session verifies its token before it redeems
  obtain ⟨tr₀, rfl, hredeem⟩ := Routed.run_session.mp hrun
  unfold AgentSession.redeem at hredeem
  obtain ⟨resource, tr₇, tr₈, rfl, -, h₄⟩ := Raises.run_bind_ok.mp hredeem
  obtain ⟨chain, tr₉, tr₁₀, rfl, hverify, -⟩ := Raises.run_bind_ok.mp h₄
  exact (verify_answered hsession hverify).mono fun e he => by simp [List.mem_map.mp he]

/-- **A request that presents a token** and is answered was told that no id of it is revoked. -/
theorem presented_answered {req : ApiCall Text} {authorization : Option String}
    {answer : req.Answer} (hpresented : req.presented = some (authorization, token))
    (h : Prog.Run (s.api.body req) tr (.ok answer)) : s.Unrevoked tr token := by
  -- each route asks for its caller first
  cases req with
  | attenuate authorization token toActor scope =>
    cases hpresented
    have hrun : Raises.Run (s.attenuate authorization token toActor scope) tr (.ok answer) := h
    obtain ⟨caller, tr₁, tr₂, rfl, -, h₂⟩ := Raises.run_bind_ok.mp hrun
    obtain ⟨_, tr₃, tr₄, rfl, -, h₃⟩ := Raises.run_bind_ok.mp h₂
    obtain ⟨v, tr₅, tr₆, rfl, hv, -⟩ := Raises.run_bind_ok.mp h₃
    exact (inspect_answered hv).mono fun e he => by simp [he]
  | inspect authorization token =>
    cases hpresented
    have hrun : Raises.Run (s.inspect authorization token) tr (.ok answer) := h
    obtain ⟨caller, tr₁, tr₂, rfl, -, h₂⟩ := Raises.run_bind_ok.mp hrun
    obtain ⟨v, tr₃, tr₄, rfl, hv, -⟩ := Raises.run_bind_ok.mp h₂
    exact (inspect_answered hv).mono fun e he => by simp [he]
  | revoke authorization token reason =>
    cases hpresented
    have hrun : Raises.Run (s.revoke authorization token reason) tr (.ok answer) := h
    obtain ⟨caller, tr₁, tr₂, rfl, -, h₂⟩ := Raises.run_bind_ok.mp hrun
    obtain ⟨v, tr₃, tr₄, rfl, hv, -⟩ := Raises.run_bind_ok.mp h₂
    exact (inspect_answered hv).mono fun e he => by simp [he]
  | actionsGate authorization token tool args =>
    cases hpresented
    exact actionsGate_answered h
  | actionsRedeem authorization token requestId tool args =>
    cases hpresented
    exact actionsRedeem_answered h
  | _ => exact nomatch hpresented

end Answered

end Services

/-! ### The store only grows -/

theorem revoked_subset {s s' : DeskState} {o : TokenOp} {r : o.Res} (h : deskWorld.step s o r s') :
    s.revoked ⊆ s'.revoked := by
  -- only `revoke` writes to the store, and it adds an id
  have hsame : s' = s → s.revoked ⊆ s'.revoked := fun heq => heq ▸ List.Subset.refl _
  cases o with
  | now =>
    obtain ⟨-, rfl⟩ := h
    exact List.Subset.refl _
  | sign =>
    obtain ⟨rfl, -⟩ := h
    exact List.Subset.refl _
  | revoke id reason now =>
    match r with
    | .ok () =>
      obtain rfl := h
      exact List.subset_cons_self _ _
    | .error e => exact hsame h
  | isRevoked ids =>
    match r with
    | .ok b => exact hsame h.1
    | .error e => exact hsame h
  | getMandate id =>
    match r with
    | .ok found => exact hsame h.2
    | .error e => exact hsame h
  | listMandates subject =>
    match r with
    | .ok found => exact hsame h.2
    | .error e => exact hsame h
  | createMandate m =>
    match r with
    | .ok () =>
      obtain ⟨rows, -, rfl⟩ := h
      exact List.Subset.refl _
    | .error e => exact hsame h
  | updateMandate m =>
    match r with
    | .ok () =>
      obtain ⟨rows, -, rfl⟩ := h
      exact List.Subset.refl _
    | .error e => exact hsame h
  | expireActive now =>
    match r with
    | .ok expired =>
      obtain ⟨rows, -, rfl⟩ := h
      exact List.Subset.refl _
    | .error e => exact hsame h
  | _ => exact hsame h

namespace Services

variable {Text : Type} {s : Services Text} {run pre post : ApiRun s} {st : ApiState}

/-- **What was revoked stays revoked.** -/
theorem revoked_stays (h : Exec s.api apiWorld run st) {i : ℕ} {id reason : String} {now : ℤ}
    (hrevoked : ⟨.session (.token (.revoke id reason now)), .ok ()⟩ ∈ history i run) :
    id ∈ st.desk.revoked := by
  -- the induction is on the run; an event either is the revocation or comes after it
  induction h with
  | start => exact absurd hrevoked List.not_mem_nil
  | @step run st st' label hexec hs ih =>
    cases hs with
    | spawn req =>
      rw [history_append, history_spawn, List.append_nil] at hrevoked
      exact ih hrevoked
    | @event j req o k r st' hj hpath hstep =>
      rcases mem_history_event.mp hrevoked with hold | ⟨rfl, hnew⟩
      · -- whatever is called, the store keeps what it has
        have hmem := ih hold
        cases o with
        | verifyUserToken token =>
          obtain rfl := hstep
          exact hmem
        | session o =>
          cases o with
          | token o => exact revoked_subset hstep.1 hmem
          | gate o =>
            obtain ⟨-, hdesk⟩ := hstep
            rwa [hdesk]
      · -- this is the revocation itself
        cases hnew
        obtain ⟨hdesk, -⟩ := hstep
        have hrevoke : st'.desk = { st.desk with revoked := id :: st.desk.revoked } := hdesk
        rw [hrevoke]
        exact List.mem_cons_self

/-- **The store is asked, and knows.** A request that starts after an id was revoked is not told
that it is not. -/
theorem asked_later (h : Exec s.api apiWorld (pre ++ post) st) {i k : ℕ} {id reason : String}
    {now : ℤ} (hrevoked : ⟨.session (.token (.revoke id reason now)), .ok ()⟩ ∈ history i pre)
    (hlater : (calls pre).length ≤ k) {ids : List String}
    (hasked : ⟨.session (.token (.isRevoked ids)), .ok false⟩ ∈ history k (pre ++ post)) :
    id ∉ ids := by
  -- the request has asked after `pre`
  obtain ⟨st₀, -, hpre⟩ := h.of_prefix rfl
  rw [history_append, hpre.history_nil hlater, List.nil_append] at hasked
  obtain ⟨st₁, hmem⟩ := mem_history.mp hasked
  obtain ⟨x, y, rfl⟩ := List.append_of_mem hmem
  rw [← List.append_assoc] at h
  obtain ⟨hupto, st₂, hs⟩ := h.split rfl
  obtain ⟨⟨-, hanswer⟩, -⟩ := hs.world
  -- when the store was asked, it had the id
  have hrevoked' : id ∈ st₁.desk.revoked := by
    have hbefore : ⟨.session (.token (.revoke id reason now)), .ok ()⟩ ∈ history i (pre ++ x) := by
      rw [history_append]
      exact List.mem_append_left _ hrevoked
    exact revoked_stays hupto hbefore
  intro hid
  have htrue : st₁.desk.isRevoked ids = true :=
    List.any_eq_true.mpr ⟨id, hid, List.contains_iff_mem.mpr hrevoked'⟩
  exact absurd (hanswer.trans htrue) (by simp)

/-- A mandate is read by its id. -/
theorem mandateId_of_read (h : Exec s.api apiWorld run st) {i : ℕ} {mandateId : String}
    {row : Mandate}
    (hread : ⟨.session (.token (.getMandate mandateId)), .ok (some row)⟩ ∈ history i run) :
    row.mandateId = mandateId := by
  obtain ⟨st₀, hmoment⟩ := mem_history.mp hread
  obtain ⟨a, b, hsplit⟩ := List.append_of_mem hmoment
  obtain ⟨-, st₁, hs⟩ := h.split hsplit
  obtain ⟨⟨hrow, -⟩, -⟩ := hs.world
  have hfound : st₀.desk.row mandateId = some row := hrow.symm
  exact Rows.key_of_find hfound

/-! ### Requests that were answered -/

/-- By the end of the run, a request that revokes the token has been answered. -/
def TokenRevoked (run : ApiRun s) (b : Biscuit) : Prop :=
  ∃ i authorization reason answer,
    (calls run)[i]? = some (.revoke authorization (s.tokens.lib.toBase64 b) reason) ∧
      Raises.Run (s.revoke authorization (s.tokens.lib.toBase64 b) reason) (history i run)
        (.ok answer)

/-- By the end of the run, a request that revokes the mandate has been answered. -/
def MandateRevoked (run : ApiRun s) (mandateId : String) : Prop :=
  ∃ i authorization reason answer,
    (calls run)[i]? = some (.mandatesRevoke authorization mandateId reason) ∧
      Raises.Run (s.mandatesRevoke authorization mandateId reason) (history i run) (.ok answer)

/-- The request rests on something that has been revoked by the end of the run: it presents a token
that grows from one that was revoked, or that names a mandate that was, or it asks for a token under
such a mandate. -/
inductive RestsOnRevoked (run : ApiRun s) (req : ApiCall Text) : Prop
  | token {authorization : Option String} {b : Biscuit} (blocks : List Biscuit.Block)
      (hpresented : req.presented = some (authorization, s.tokens.lib.toBase64 (b.append blocks)))
      (hrevoked : TokenRevoked run b)
  | mandate {authorization : Option String} {token : Text} {l : Loaded} {mandateId : String}
      (hpresented : req.presented = some (authorization, token))
      (hload : load s.tokens.lib s.tokens.keyring token = .ok l)
      (hmandate : l.mandateId = some mandateId) (hrevoked : MandateRevoked run mandateId)
  | issue {authorization : Option String} {body : IssueRequest} {mandateId : String}
      (hissue : req = .issue authorization body) (hmandate : body.mandateId = some mandateId)
      (hrevoked : MandateRevoked run mandateId)

theorem TokenRevoked.event {b : Biscuit} (h : TokenRevoked run b) :
    ∃ l i reason now, loadBiscuit s.tokens.lib b = .ok l ∧
      ⟨.session (.token (.revoke l.ownRevocationId reason now)), .ok ()⟩ ∈ history i run := by
  -- the route inspects the token and then revokes its own id
  obtain ⟨i, authorization, reason, answer, -, hrun⟩ := h
  unfold revoke at hrun
  obtain ⟨caller, tr₁, tr₂, hhist, -, h₂⟩ := Raises.run_bind_ok.mp hrun
  obtain ⟨v, tr₃, tr₄, rfl, -, h₃⟩ := Raises.run_bind_ok.mp h₂
  obtain ⟨id, tr₅, tr₆, rfl, hrevoke', -⟩ := Raises.run_bind_ok.mp h₃
  obtain ⟨tr₀, rfl, hrevoke⟩ := Routed.run_tokens.mp hrevoke'
  obtain ⟨l, now, hload, hmem⟩ := TokenService.revoke_run_ok hrevoke
  refine ⟨l, i, reason, now, (load_toBase64.mp hload).2, ?_⟩
  have hmem' : Routed.ofToken ⟨.revoke l.ownRevocationId reason now, .ok ()⟩ ∈
      tr₀.map Routed.ofToken := List.mem_map_of_mem hmem
  rw [hhist]
  exact List.mem_append_right _ (List.mem_append_right _ (List.mem_append_left _ hmem'))

theorem MandateRevoked.event (h : Exec s.api apiWorld run st) {mandateId : String}
    (hrevoked : MandateRevoked run mandateId) : ∃ i reason now,
      ⟨.session (.token (.revoke (mandateRevocationId mandateId) reason now)), .ok ()⟩ ∈
        history i run := by
  obtain ⟨i, authorization, reason, answer, -, hrun⟩ := hrevoked
  unfold mandatesRevoke at hrun
  obtain ⟨caller, tr₁, tr₂, hhist, -, h₂⟩ := Raises.run_bind_ok.mp hrun
  obtain ⟨m, tr₃, tr₄, rfl, hrevoke', -⟩ := Raises.run_bind_ok.mp h₂
  obtain ⟨tr₀, rfl, hrevoke⟩ := Routed.run_tokens.mp hrevoke'
  obtain ⟨stored, reason', now, hget, -, hmem⟩ := MandateService.revoke_run_ok hrevoke
  have hsub : tr₀.map Routed.ofToken ⊆ history i run := by
    rw [hhist]
    exact fun e he => List.mem_append_right _ (List.mem_append_left _ he)
  -- the row that was read is that of the mandate
  have hkey : stored.mandateId = mandateId := mandateId_of_read h (hsub (List.mem_map_of_mem hget))
  refine ⟨i, reason', now, ?_⟩
  rw [← hkey]
  exact hsub (List.mem_map_of_mem hmem)

/-- **Revocations are obeyed.** In every run of the routes, once a request that revokes a token or a
mandate has been answered, every request that starts later and rests on it fails: presenting the
token or any token that grows from it, presenting a token under the mandate, or asking for one. -/
theorem revocations_obeyed (h : Exec s.api apiWorld (pre ++ post) st) {k : ℕ} {req : ApiCall Text}
    (hlater : (calls pre).length ≤ k) (_hcall : (calls (pre ++ post))[k]? = some req) {r : req.Out}
    (hreturned : Prog.Run (s.api.body req) (history k (pre ++ post)) r)
    (hrests : RestsOnRevoked pre req) : ∃ e, r = .error e := by
  match r with
  | .error e => exact ⟨e, rfl⟩
  | .ok answer =>
    exfalso
    obtain ⟨st₀, -, hpre⟩ := h.of_prefix rfl
    -- an answered request was told that nothing it rests on is revoked
    cases hrests with
    | token blocks hpresented hrevoked =>
      obtain ⟨l', hload', hasked⟩ := presented_answered hpresented hreturned
      obtain ⟨l, i, reason, now, hload, hevent⟩ := hrevoked.event
      exact asked_later h hevent hlater hasked
        (ownRevocationId_mem hload (load_toBase64.mp hload').2)
    | mandate hpresented hload hmandate hrevoked =>
      obtain ⟨l', hload', hasked⟩ := presented_answered hpresented hreturned
      obtain rfl := Except.ok.inj (hload.symm.trans hload')
      obtain ⟨i, reason, now, hevent⟩ := hrevoked.event hpre
      exact asked_later h hevent hlater hasked (mandateRevocationId_mem hmandate)
    -- an issue request presents no token: it reads the mandate and asks for its id
    | @issue authorization body mandateId hissue hmandate hrevoked =>
      subst hissue
      obtain ⟨i, reason, now, hevent⟩ := hrevoked.event hpre
      obtain ⟨issued, agent, tr₁, tr₂, -, hhist, -, hissued⟩ := issue_run hreturned
      rcases hissued with ⟨chain, -, hpresent, -⟩ | ⟨mandateId', hmandate', hrun⟩
      · exact nomatch hmandate.symm.trans hpresent.noMandate
      obtain rfl := Option.some.inj (hmandate.symm.trans hmandate')
      -- the mandate was read, and its id was asked for
      obtain ⟨row, t₁, t₂, chain, tr, -, -, -, -, -, rfl, -⟩ := MandateService.issue_run hrun
      have hread : ⟨.session (.token (.getMandate mandateId)), .ok (some row)⟩ ∈
          history k (pre ++ post) := by
        simp [hhist, Routed.ofToken]
      have hasked : ⟨.session (.token (.isRevoked [row.revocationId])), .ok false⟩ ∈
          history k (pre ++ post) := by
        simp [hhist, Routed.ofToken]
      refine asked_later h hevent hlater hasked (List.mem_singleton.mpr ?_)
      rw [Mandate.revocationId, mandateId_of_read h hread]

/-! ### A mandate that was revoked -/

/-- The request number `i` has revoked the mandate "m". -/
def hasRevokedMandate (p : Pool oneKey.api apiWorld) (i : ℕ) : Bool :=
  match p.threads[i]? with
  | some ⟨.mandatesRevoke _ id _, .ret (.ok _)⟩ => id = "m"
  | _ => false

theorem mandateRevoked_of_has {p : Pool oneKey.api apiWorld} (hp : p.Sound) {i : ℕ}
    (h : hasRevokedMandate p i = true) : MandateRevoked p.run "m" := by
  unfold hasRevokedMandate at h
  split at h
  · next authorization id reason answer heq =>
    obtain rfl := of_decide_eq_true h
    exact ⟨i, authorization, reason, answer, hp.calls_of heq, hp.returned heq⟩
  · exact absurd h (by simp)

/-- The request number `i` has returned. -/
def hasReturned (p : Pool oneKey.api apiWorld) (i : ℕ) : Bool :=
  match p.threads[i]? with
  | some ⟨_, .ret _⟩ => true
  | _ => false

/-- bob mandates the agent and revokes the mandate, and the agent asks for a token under it. -/
theorem revocations_obeyed_mandate :
    ∃ (pre post : ApiRun oneKey) (st : ApiState), Exec oneKey.api apiWorld (pre ++ post) st ∧
      MandateRevoked pre "m" ∧ ∃ k req e, (calls (pre ++ post))[k]? = some req ∧
        Prog.Run (oneKey.api.body req) (history k (pre ++ post)) (.error e) := by
  have hplay : ((apiDriver agentAndBob).play (.start oneKey.api apiWorld)
      (requestThen (.mandatesCreate (some "Bearer bob") readerMandate) 0 9 ++
        requestThen (.mandatesRevoke (some "Bearer bob") "m" none) 1 11)).any (fun p =>
          hasRevokedMandate p 1 && decide ((calls p.run).length = 2) &&
          ((apiDriver agentAndBob).alone p (.issue (some "Bearer a") readerRequest) 2).any
            fun p' => hasReturned p' 2 && decide (p'.threads.length = 3)) = true := by
    decide +kernel
  obtain ⟨p, hp, htest⟩ := (Option.any_eq_true _ _).mp hplay
  obtain ⟨hboth, htest'⟩ := Bool.and_eq_true_iff.mp htest
  obtain ⟨hrevokes, htwo⟩ := Bool.and_eq_true_iff.mp hboth
  obtain ⟨p', hp', htest''⟩ := (Option.any_eq_true _ _).mp htest'
  obtain ⟨hreturned, hthree⟩ := Bool.and_eq_true_iff.mp htest''
  have hsound : p.Sound := Driver.sound_play Pool.sound_start hp
  have hsound' : p'.Sound := Driver.sound_play hsound hp'
  have hrevoked := mandateRevoked_of_has hsound hrevokes
  -- the request for a token is the third one
  obtain ⟨post, hrun, -⟩ := Driver.run_alone hp'
  have hlen : (calls p.run).length = 2 := of_decide_eq_true htwo
  have hthird := Driver.last_alone hsound' hp'
  rw [of_decide_eq_true hthree] at hthird
  unfold hasReturned at hreturned
  split at hreturned
  · next req r heq =>
    have hcall := hsound'.calls_of heq
    have hret := hsound'.returned heq
    obtain rfl := Option.some.inj (hthird.symm.trans hcall)
    have hexec := hsound'.exec
    rw [hrun, List.append_assoc] at hcall hret hexec
    obtain ⟨e, he⟩ := revocations_obeyed hexec hlen.le hcall hret (.issue rfl rfl hrevoked)
    exact ⟨p.run, _, p'.state, hexec, hrevoked, 2, _, e, hcall, he ▸ hret⟩
  · exact absurd hreturned (by simp)

end Services

end HeadOfContext
