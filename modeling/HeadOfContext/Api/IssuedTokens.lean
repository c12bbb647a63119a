import HeadOfContext.Api.DeskGuest

/-!
# Where a token comes from

What a token that a request was given rests on, over all the requests of a run, whatever blocks
anyone has appended to it since. The routes host the desk (`Services.hostsDesk`), so the deeds of
the desk (`MandateService.Deeds`) are about the requests: the mandate that a token names was created
by a request of its human.
-/

namespace HeadOfContext

open Effects Except Service

/-! ### What a root token says -/

theorem PrincipalChain.Within.mono {c : PrincipalChain} {scope bound : Scope} (h : c.Within scope)
    (hsub : scope.isSubsetOf bound = true) : c.Within bound where
  scope := Scope.isSubsetOf_trans h.scope hsub
  rootScope := Scope.isSubsetOf_trans h.rootScope hsub
  links := fun link hlink => Scope.isSubsetOf_trans (h.links link hlink) hsub

/-- **What was written into the root of a token stays**, whoever appended its blocks. -/
theorem chain_of_load {Text : Type} {lib : BiscuitLib Text} {b : Biscuit} {subject actor : String}
    {scope : Scope} {issuedAt expiresAt : ℤ} {mandateId : Option String} {l : Loaded}
    (hauthority : b.authority =
      (authorityBuilder subject actor scope issuedAt expiresAt mandateId).facts)
    (hl : loadBiscuit lib b = .ok l) :
    l.chain.subject = subject ∧ l.chain.rootActor = actor ∧ l.chain.Within scope ∧
      l.mandateId = mandateId := by
  have hmandate := mandateId_of_load hauthority hl
  obtain ⟨-, authority, mandateId', root, chain, ha, -, hroot, hchain, rfl⟩ :=
    loadBiscuit_eq_ok.mp hl
  rw [readAuthority_built lib hauthority] at ha
  obtain rfl := Except.ok.inj ha
  obtain ⟨hsubject, hactor, hdel, -, -⟩ := PrincipalChain.make_ok hroot
  have hnarrows := followTrail_narrows hchain
  refine ⟨hnarrows.subject.trans hsubject, ?_, ?_, hmandate⟩
  · rw [hnarrows.rootActor, PrincipalChain.rootActor, hdel]
    exact hactor
  · exact within_followTrail hchain (within_root hroot (Scope.isSubsetOf_refl _))

namespace TokenService

variable {Text : Type} {svc : TokenService Text}

/-- What is read of a token that grows from the one that `issue` returned. -/
theorem chain_of_issued {c : PrincipalChain} {ttl : Option ℤ} {mandateId : Option String}
    {tr : Trace TokenSig} {issued : IssuedToken Text} {b : Biscuit} {blocks : List Biscuit.Block}
    {l : Loaded} (h : Raises.Run (svc.issue c ttl mandateId) tr (.ok issued))
    (hb : issued.token = svc.lib.toBase64 b)
    (hl : load svc.lib svc.keyring (svc.lib.toBase64 (b.append blocks)) = .ok l) :
    l.chain.subject = c.subject ∧ l.chain.rootActor = c.actor ∧ l.chain.Within c.scope ∧
      l.mandateId = mandateId := by
  obtain ⟨issuedAt, key, id, at_, eventId, -, -, rfl⟩ := issue_run h
  obtain rfl := svc.lib.toBase64_injective hb
  -- the authority block stays under whatever is appended
  have happend : ((svc.rootToken c ttl mandateId issuedAt key id).append blocks).authority =
      (svc.rootToken c ttl mandateId issuedAt key id).authority := rfl
  exact chain_of_load (happend.trans rootToken_authority) (load_toBase64.mp hl).2

end TokenService

namespace Services

variable {Text : Type} {s : Services Text} {run : ApiRun s} {st : ApiState}

/-! ### What an issue request has done -/

/-- **What an issue request that was answered has done**: its bearer was verified as an agent's, and
either the human was present, or a mandate was asked for. -/
theorem issue_run {authorization : Option String} {body : IssueRequest} {tr : Trace ApiSig}
    {response : TokenResponse Text}
    (h : Raises.Run (s.issue authorization body) tr (.ok response)) :
    ∃ issued agent tr₁ tr₂, response = .fromIssued issued ∧
      tr = tr₁ ++ tr₂.map Routed.ofToken ∧ s.Authenticated tr₁ authorization ⟨.agent, agent⟩ ∧
      ((∃ chain, chain.actor = agent ∧ s.AsksPresent authorization body chain tr₁ ∧
          Raises.Run (s.tokens.issue chain (minutesOrNone body.ttlMinutes) none) tr₂ (.ok issued)) ∨
        ∃ mandateId, body.mandateId = some mandateId ∧
          Raises.Run (s.mandates.issue mandateId agent body.scope.toCore
            (minutesOrNone body.ttlMinutes)) tr₂ (.ok issued)) := by
  unfold issue at h
  obtain ⟨caller, tr₁, tr₂, rfl, hcaller, h₂⟩ := Raises.run_bind_ok.mp h
  obtain ⟨hauth, hagent, -⟩ := requireAgent_run hcaller
  rw [hagent] at hauth
  obtain ⟨token, tr₃, tr₄, rfl, hissued, h₃⟩ := Raises.run_bind_ok.mp h₂
  obtain ⟨rfl, rfl⟩ := Raises.run_pure_ok.mp h₃
  unfold issued at hissued
  simp only at hissued
  -- under a mandate the desk issues the token; without one a user token is asked for
  split at hissued
  · next mandateId hmandate =>
    obtain ⟨tr₅, rfl, hrun⟩ := Routed.run_tokens.mp hissued
    exact ⟨token, caller.ref, tr₁, tr₅, rfl, by rw [List.append_nil], hauth,
      .inr ⟨mandateId, hmandate, hrun⟩⟩
  next hmandate =>
    split at hissued
    · exact absurd (Raises.run_raise.mp hissued).2 (by simp)
    next userToken hbody =>
      -- the user token, who it is about, and whether the agent is bound to them
      unfold issuePresent at hissued
      obtain ⟨identity, tr₅, tr₆, rfl, hidentity, h₄⟩ := Raises.run_bind_ok.mp hissued
      obtain rfl := Raises.run_invoke.mp hidentity
      obtain ⟨subject, tr₇, tr₈, rfl, hsubject, h₅⟩ := Raises.run_bind_ok.mp h₄
      obtain ⟨tr₀, rfl, hhuman⟩ := Routed.run_tokens.mp hsubject
      obtain ⟨rfl, hsame⟩ := humanOf_run hhuman
      obtain ⟨bound, tr₉, tr₁₀, rfl, hbound, h₆⟩ := Raises.run_bind_ok.mp h₅
      obtain ⟨tr₀, rfl, hcheck⟩ := Routed.run_tokens.mp hbound
      obtain rfl := Raises.run_invoke.mp hcheck
      split_ifs at h₆ with hfalse
      · obtain ⟨_, tr₁₁, tr₁₂, rfl, -, hraise⟩ := Raises.run_bind_ok.mp h₆
        exact absurd (Raises.run_raise.mp hraise).2 (by simp)
      obtain rfl : bound = true := by simpa using hfalse
      obtain ⟨chain, tr₁₁, tr₁₂, rfl, hroot', h₇⟩ := Raises.run_bind_ok.mp h₆
      obtain ⟨rfl, hroot⟩ := Core.run_ofHoc_ok.mp hroot'
      obtain ⟨tr₁₃, rfl, hrun⟩ := Routed.run_tokens.mp h₇
      obtain ⟨rfl, hactor, -⟩ := PrincipalChain.make_ok hroot
      refine ⟨token, caller.ref, tr₁ ++ [⟨.verifyUserToken userToken, .ok identity⟩,
        ⟨.session (.token (.check chain.subject BINDING_RELATION caller.ref)), .ok true⟩], tr₁₃,
        rfl, ?_, hauth.mono (List.subset_append_left _ _),
        .inl ⟨chain, hactor, ⟨hmandate, ?_, ?_, ?_, ?_⟩, hrun⟩⟩
      · simp [Routed.ofToken, BINDING_RELATION]
      · rw [hactor]
        exact hauth.mono (List.subset_append_left _ _)
      · exact ⟨userToken, identity, hbody, by simp, hsame⟩
      · rw [hactor]
        simp
      · rwa [hactor]

/-! ### The mandate behind it -/

/-- A request of a human created the mandate. -/
def MandatedBy (pre : ApiRun s) (j : ℕ) (m : Mandate) : Prop :=
  ∃ authorization body, (calls pre)[j]? = some (.mandatesCreate authorization body) ∧
    s.Authenticated (history j pre) authorization ⟨.user, m.subject⟩ ∧ body.agent = m.agent ∧
    body.scope.toCore = m.scope ∧ ⟨.session (.token (.createMandate m)), .ok ()⟩ ∈ history j pre

/-- **What the desk says of a mandate**, at the requests: the one that is read was created by a
request of its human, and its terms have not changed. -/
theorem mandatedBy_of_row (h : Exec s.api apiWorld run st) {row : Mandate}
    (hrow : row ∈ st.desk.rows) : ∃ j m, MandatedBy run j m ∧ row.terms = m.terms := by
  obtain ⟨run', t, hguest⟩ := h.guest simulates_desk hostsDesk
  have hd := MandateService.deeds hguest.exec
  have hfollows : t.Follows st.desk := hguest.related
  rw [← hfollows.rows] at hrow
  obtain ⟨j, m, hfounds, hterms⟩ := hd.stored hrow
  obtain ⟨-, c, hj, expiresAt, maxTokenTtl, rfl⟩ := hd.founders hfounds
  -- the call of the desk belongs to a request, and only one kind of request creates mandates
  obtain ⟨i, hbelongs⟩ := hguest.belongs j _ hj
  obtain ⟨req, h₀, hi, hsub, authorization, body, now, rfl, -, hagent, hscope, -, -, hauth⟩ :=
    hbelongs.auth hj
  obtain ⟨x, hx, hmem⟩ := hbelongs.outer_mem hfounds
  have hcreated : Routed.ofToken ⟨.createMandate m, .ok ()⟩ ∈ history i run := by
    rw [← hx]
    exact hmem
  exact ⟨i, m, ⟨authorization, body, hi, hauth.mono hsub, hagent.symm, hscope.symm, hcreated⟩,
    hterms⟩

/-- The token was issued under the mandate, which had been created by a request of its human, and
read ACTIVE and not revoked. -/
structure UnderMandate (run : ApiRun s) (k : ℕ) (body : IssueRequest) (l : Loaded) (m : Mandate) :
    Prop where
  asked : body.mandateId = some m.mandateId
  carried : l.mandateId = some m.mandateId
  bounds : m.Bounds l.chain l.revocationIds
  unrevoked : ⟨.session (.token (.isRevoked [m.revocationId])), .ok false⟩ ∈ history k run
  read : ∃ pre st₀ row post j, run = pre ++
      ⟨st₀, .event k ⟨.session (.token (.getMandate m.mandateId)), .ok (some row)⟩⟩ :: post ∧
    row.status = .active ∧ row.terms = m.terms ∧ MandatedBy pre j m

/-- **Where a token comes from.** In every run of the routes, take a token that an issue request was
given, with any blocks that anyone has appended. If it loads, the first agent of its chain is the
one whose bearer the request carried, the engine answered that this agent may act for the subject,
and no link of the chain has more than the scope that was asked for. And the subject had agreed:
they were present with a user token of their own, or the token names a mandate for this agent, and
stays within it, which an earlier request of the subject had created. -/
theorem issued_grounded (h : Exec s.api apiWorld run st) {k : ℕ} {authorization : Option String}
    {body : IssueRequest} (_hcall : (calls run)[k]? = some (.issue authorization body))
    {response : TokenResponse Text}
    (hreturned : Raises.Run (s.issue authorization body) (history k run) (.ok response))
    {b : Biscuit} {blocks : List Biscuit.Block} {l : Loaded}
    (hb : response.token = s.tokens.lib.toBase64 b)
    (hl : load s.tokens.lib s.tokens.keyring (s.tokens.lib.toBase64 (b.append blocks)) = .ok l) :
    s.Authenticated (history k run) authorization ⟨.agent, l.chain.rootActor⟩ ∧
      ⟨.session (.token (.check l.chain.subject BINDING_RELATION l.chain.rootActor)), .ok true⟩ ∈
        history k run ∧
      l.chain.Within body.scope.toCore ∧
      ((l.mandateId = none ∧ ∃ userToken identity, body.userToken = some userToken ∧
          ⟨.verifyUserToken userToken, .ok identity⟩ ∈ history k run ∧
          s.callerOf identity = .ok ⟨.user, l.chain.subject⟩) ∨
        ∃ m, UnderMandate run k body l m) := by
  obtain ⟨issued, agent, tr₁, tr₂, rfl, hhist, hauth, hissued⟩ := issue_run hreturned
  have hsub : tr₁ ⊆ history k run := hhist ▸ List.subset_append_left _ _
  rcases hissued with ⟨chain, rfl, hpresent, hrun⟩ | ⟨mandateId, hmandate, hrun⟩
  · -- the human is present
    obtain ⟨hsubject, hactor, hwithin, hnone⟩ := TokenService.chain_of_issued hrun hb hl
    have hpresent' := hpresent.mono hsub
    obtain ⟨userToken, identity, hbody, hverified, hcaller⟩ := hpresent'.human
    obtain ⟨-, -, -, hscope, -⟩ := PrincipalChain.make_ok hpresent.root
    rw [hsubject, hactor]
    refine ⟨hpresent'.caller, hpresent'.bound, ?_, .inl ⟨hnone, userToken, identity, hbody,
      hverified, hcaller⟩⟩
    rwa [hscope] at hwithin
  · -- a mandate was read, and the desk knows who created it
    obtain ⟨row, t₁, t₂, chain, tr, hactive, rfl, hscope, ht, hroot, rfl, htoken⟩ :=
      MandateService.issue_run hrun
    obtain ⟨hsubject, hactor, hwithin, hcarried⟩ := TokenService.chain_of_issued htoken hb hl
    obtain ⟨hsubject', hactor', -, hscope', -⟩ := PrincipalChain.make_ok hroot
    have hget : ⟨.session (.token (.getMandate mandateId)), .ok (some row)⟩ ∈ history k run := by
      simp [hhist, Routed.ofToken]
    have hunrevoked : ⟨.session (.token (.isRevoked [row.revocationId])), .ok false⟩ ∈
        history k run := by
      simp [hhist, Routed.ofToken]
    have hbound : ⟨.session (.token (.check row.subject BINDING_RELATION row.agent)), .ok true⟩ ∈
        history k run := by
      simp [hhist, Routed.ofToken]
    -- the mandate was read at some moment of the run, from the rows of that moment
    obtain ⟨st₀, hmem⟩ := mem_history.mp hget
    obtain ⟨pre, post, hsplit⟩ := List.append_of_mem hmem
    obtain ⟨hpre, st', hs⟩ := h.split hsplit
    obtain ⟨⟨hrow, -⟩, -⟩ := hs.world
    have hfound : st₀.desk.row mandateId = some row := hrow.symm
    obtain ⟨j, m, hby, hterms⟩ := mandatedBy_of_row hpre (Rows.mem_of_find hfound)
    obtain ⟨hid, hsubject₀, hagent₀, hscope₀⟩ := Mandate.terms_eq hterms
    have hkey : row.mandateId = mandateId := Rows.key_of_find hfound
    rw [hsubject, hsubject', hactor, hactor']
    refine ⟨hauth.mono hsub, hbound, ?_, .inr ⟨m, ?_, ?_, ?_, ?_, ?_⟩⟩
    · rwa [hscope'] at hwithin
    · rw [hmandate, ← hid, hkey]
    · rw [hcarried, hid]
    · refine Mandate.Bounds.of_terms ⟨hsubject.trans hsubject', hactor.trans hactor',
        hwithin.mono (hscope' ▸ hscope), ?_⟩ hterms
      rw [Loaded.revocationIds, hcarried]
      exact revocationId_mem
    · rwa [Mandate.revocationId, ← hid]
    · refine ⟨pre, st₀, row, post, j, ?_, hactive, hterms, hby⟩
      rw [← hid, hkey]
      exact hsplit

/-! ### A token under a mandate -/

/-- A request for a token under the mandate "m". -/
def readerRequest : IssueRequest :=
  ⟨none, some "m", .fromCore PrincipalChain.aliceReader.scope, none, by decide, nofun⟩

/-- A mandate of a day for `agent:a`. -/
def readerMandate : MandateCreateRequest :=
  ⟨"agent:a", .fromCore PrincipalChain.aliceReader.scope, 24, none, by decide, nofun⟩

/-- The request number `i` was given a token, which loads, and names a mandate. -/
def issuedUnder (p : Pool oneKey.api apiWorld) (i : ℕ) : Bool :=
  match p.threads[i]? with
  | some ⟨.issue _ _, .ret (.ok response)⟩ =>
    (load oneKey.tokens.lib oneKey.tokens.keyring response.token).returns
      fun l => decide (l.mandateId ≠ none)
  | _ => false

/-- bob mandates the agent, who is issued a token. -/
theorem issued_grounded_mandate :
    ∃ (run : ApiRun oneKey) (st : ApiState), Exec oneKey.api apiWorld run st ∧
      ∃ body l m, UnderMandate run 1 body l m := by
  have hplay : ((apiDriver agentAndBob).play (.start oneKey.api apiWorld)
      (requestThen (.mandatesCreate (some "Bearer bob") readerMandate) 0 8 ++
        requestThen (.issue (some "Bearer a") readerRequest) 1 12)).any (issuedUnder · 1) =
          true := by
    decide +kernel
  obtain ⟨p, hp, htest⟩ := (Option.any_eq_true _ _).mp hplay
  have hsound : p.Sound := Driver.sound_play Pool.sound_start hp
  unfold issuedUnder at htest
  split at htest
  · next authorization body response heq =>
    obtain ⟨l, hl, hmandate⟩ := Except.returns_iff.mp htest
    have happend : response.token = oneKey.tokens.lib.toBase64 (Biscuit.append response.token []) :=
      congrArg (fun blocks => { response.token with blocks := blocks }) (List.append_nil _).symm
    rw [happend] at hl
    obtain ⟨-, -, -, hground⟩ := issued_grounded hsound.exec (hsound.calls_of heq)
      (hsound.returned heq) rfl hl
    rcases hground with ⟨hnone, -⟩ | ⟨m, hunder⟩
    · exact absurd hnone (of_decide_eq_true hmandate)
    · exact ⟨p.run, p.state, hsound.exec, body, l, m, hunder⟩
  · exact absurd htest (by simp)

end Services

end HeadOfContext
