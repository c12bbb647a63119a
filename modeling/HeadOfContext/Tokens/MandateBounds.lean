import HeadOfContext.Tokens.MandateFinality

/-!
# A mandate bounds every token under it

A token under a mandate is a root token that carries the mandate's id, with any blocks
appended to it by anyone. The root was issued by `MandateService.issue`, which reads the row of
the mandate, and rows keep the terms of the mandate they were created for (`Deeds`). The trail
of the appended blocks only narrows what the root allows (`within_followTrail`). The two meet in
`mandate_bounds`.

`TokenService.issue` is told which mandate id to write and does not look it up: a caller that
passes one is outside the theorem (`mandate_of_direct_issue`).
-/

namespace HeadOfContext

open Effects Except Service

/-! ### One token -/

/-- Every scope of the chain is within `bound`, at every link. -/
structure PrincipalChain.Within (c : PrincipalChain) (bound : Scope) : Prop where
  scope : c.scope.isSubsetOf bound = true
  rootScope : c.rootScope.isSubsetOf bound = true
  links : ∀ link ∈ c.delegation, link.scope.isSubsetOf bound = true

theorem within_root {subject actor : String} {scope bound : Scope} {c : PrincipalChain}
    (h : PrincipalChain.root subject actor scope = .ok c) (hscope : scope.isSubsetOf bound = true) :
    c.Within bound := by
  obtain ⟨-, -, hdel, hsc, hroot⟩ := PrincipalChain.make_ok h
  refine ⟨by rwa [hsc], ?_, fun link hlink => ?_⟩
  · rw [PrincipalChain.rootScope, hroot, Option.getD_none, hsc]
    exact hscope
  · rw [hdel] at hlink
    exact absurd hlink List.not_mem_nil

/-- One hop stays within. -/
theorem within_delegate {c c' : PrincipalChain} {toActor : String} {scope bound : Scope}
    (h : c.delegate toActor scope = .ok c') (hc : c.Within bound) : c'.Within bound := by
  have hroot : c'.rootScope = c.rootScope := by
    simp only [PrincipalChain.delegate, bind_eq_ok] at h
    obtain ⟨_, -, link, -, hmake⟩ := h
    obtain ⟨-, -, -, -, hknown⟩ := PrincipalChain.make_ok hmake
    rw [PrincipalChain.rootScope, hknown]
    rfl
  obtain ⟨hsub, -, -, hsc, link, hlink, hdel⟩ := PrincipalChain.delegate_ok h
  have hscope : scope.isSubsetOf bound = true := Scope.isSubsetOf_trans hsub hc.scope
  refine ⟨by rwa [hsc], by rw [hroot]; exact hc.rootScope, fun link' hlink' => ?_⟩
  rw [hdel] at hlink'
  rcases List.mem_append.mp hlink' with hold | hnew
  · exact hc.links link' hold
  · obtain rfl := List.mem_singleton.mp hnew
    rw [(Delegation.make_ok hlink).2.2]
    exact hscope

/-- **The trail stays within**, whatever its blocks say. -/
theorem within_followTrail {c c' : PrincipalChain} {blocks : List Biscuit.Block} {bound : Scope}
    (h : followTrail c blocks = .ok c') (hc : c.Within bound) : c'.Within bound := by
  induction blocks generalizing c with
  | nil =>
    obtain rfl := Except.ok.inj h
    exact hc
  | cons block rest ih =>
    rw [followTrail] at h
    obtain ⟨parsed, -, h⟩ := bind_eq_ok.mp h
    cases parsed with
    | none => exact ih h hc
    | some hop =>
      obtain ⟨⟨fromActor, toActor⟩, declared⟩ := hop
      obtain ⟨_, -, h⟩ := bind_eq_ok.mp h
      obtain ⟨c₁, hc₁, h⟩ := bind_eq_ok.mp h
      exact ih h (within_delegate hc₁ hc)

/-- The chain and the revocation ids are those of a token under the mandate. -/
structure Mandate.Bounds (m : Mandate) (c : PrincipalChain) (ids : List String) : Prop where
  subject : c.subject = m.subject
  rootActor : c.rootActor = m.agent
  within : c.Within m.scope
  revocable : m.revocationId ∈ ids

theorem revocationId_mem {ids : List String} {mandateId : String} :
    mandateRevocationId mandateId ∈ withMandate ids (some mandateId) := by simp [withMandate]

/-- A token is read with the mandate its authority block was written for. -/
theorem mandateId_of_load {Text : Type} {lib : BiscuitLib Text} {b : Biscuit}
    {subject actor : String}
    {scope : Scope} {issuedAt expiresAt : ℤ} {mandateId : Option String} {l : Loaded}
    (hauthority : b.authority =
      (authorityBuilder subject actor scope issuedAt expiresAt mandateId).facts)
    (hl : loadBiscuit lib b = .ok l) : l.mandateId = mandateId := by
  obtain ⟨-, _, mandateId', _, _, -, hm, -, -, rfl⟩ := loadBiscuit_eq_ok.mp hl
  rw [readMandate_built lib hauthority] at hm
  exact (Except.ok.inj hm).symm

/-- **A token whose authority block was written for a mandate is bounded by it**, whoever
appended its blocks. -/
theorem bounds_of_load {Text : Type} {lib : BiscuitLib Text} {m : Mandate} {b : Biscuit}
    {scope : Scope} {issuedAt expiresAt : ℤ} {l : Loaded}
    (hauthority : b.authority =
      (authorityBuilder m.subject m.agent scope issuedAt expiresAt (some m.mandateId)).facts)
    (hscope : scope.isSubsetOf m.scope = true) (hl : loadBiscuit lib b = .ok l) :
    m.Bounds l.chain l.revocationIds := by
  have hmandate := mandateId_of_load hauthority hl
  obtain ⟨-, authority, mandateId', root, chain, ha, -, hroot, hchain, rfl⟩ :=
    loadBiscuit_eq_ok.mp hl
  obtain rfl : mandateId' = some m.mandateId := hmandate
  rw [readAuthority_built lib hauthority] at ha
  obtain rfl := Except.ok.inj ha
  obtain ⟨hsubject, hactor, hdel, -, -⟩ := PrincipalChain.make_ok hroot
  have hnarrows := followTrail_narrows hchain
  refine ⟨hnarrows.subject.trans hsubject, ?_, within_followTrail hchain (within_root hroot hscope),
    revocationId_mem⟩
  rw [hnarrows.rootActor, PrincipalChain.rootActor, hdel]
  exact hactor

theorem Mandate.Bounds.delegate {m : Mandate} {c c' : PrincipalChain} {toActor : String}
    {scope : Scope} {ids ids' : List String} (h : m.Bounds c ids)
    (hc : c.delegate toActor scope = .ok c') (hids : m.revocationId ∈ ids') : m.Bounds c' ids' where
  subject := (narrows_delegate hc).subject.trans h.subject
  rootActor := (narrows_delegate hc).rootActor.trans h.rootActor
  within := within_delegate hc h.within
  revocable := hids

theorem Mandate.Bounds.of_terms {m m' : Mandate} {c : PrincipalChain} {ids : List String}
    (h : m.Bounds c ids) (hterms : m.terms = m'.terms) : m'.Bounds c ids := by
  obtain ⟨hid, hsubject, hagent, hscope⟩ := Mandate.terms_eq hterms
  refine ⟨h.subject.trans hsubject, h.rootActor.trans hagent, hscope ▸ h.within, ?_⟩
  rw [Mandate.revocationId, ← hid]
  exact h.revocable

namespace MandateService

variable {Text : Type} {svc : MandateService Text} {run : List (svc.desk.Moment deskWorld)}
  {s s' : DeskState}

/-! ### What a run keeps about every mandate -/

/-- The call number `j` created the mandate. -/
def Founds (run : List (svc.desk.Moment deskWorld)) (j : ℕ) (m : Mandate) : Prop :=
  ⟨.createMandate m, .ok ()⟩ ∈ history j run

/-- The row has the terms of a mandate that was created. -/
def Founded (run : List (svc.desk.Moment deskWorld)) (m : Mandate) : Prop :=
  ∃ j m₀, Founds run j m₀ ∧ m.terms = m₀.terms

/-- **What a run keeps about every mandate**: its row, and whatever row anyone was told, has the
terms it was created with, by its own subject, and it was created once. -/
structure Deeds (run : List (svc.desk.Moment deskWorld)) (s : DeskState) : Prop where
  stored : ∀ {m}, m ∈ s.rows → Founded run m
  told : ∀ {i m}, ToldMandate (history i run) m → Founded run m
  founders : ∀ {j m}, Founds run j m →
    m.createdBy = m.subject ∧ ∃ c, (calls run)[j]? = some c ∧ Creates c m
  registered : ∀ {j m}, Founds run j m → ∃ row, s.row m.mandateId = some row
  foundedOnce : ∀ {i j m m'}, Founds run i m → Founds run j m' → m.mandateId = m'.mandateId → m = m'

theorem Founded.mono {m : Mandate} {last : svc.desk.Moment deskWorld} (h : Founded run m) :
    Founded (run ++ [last]) m := by
  obtain ⟨j, m₀, hfounds, hterms⟩ := h
  refine ⟨j, m₀, ?_, hterms⟩
  rw [Founds, history_append]
  exact List.mem_append_left _ hfounds

theorem Founded.of_terms {m m' : Mandate} (h : Founded run m') (hterms : m.terms = m'.terms) :
    Founded run m := by
  obtain ⟨j, m₀, hfounds, hterms'⟩ := h
  exact ⟨j, m₀, hfounds, hterms.trans hterms'⟩

section Event

open InMemoryMandateStore

variable {i : ℕ} {c : MandateCall Text} {o : TokenOp} {r : o.Res}

/-- What an event tells is stored. -/
theorem mem_rows_of_told {m : Mandate} (hstep : deskWorld.step s o r s')
    (htold : ToldMandate [⟨o, r⟩] m) : m ∈ s.rows := by
  rcases htold with ⟨id, hget⟩ | ⟨subject, found, hlist, hm⟩
  · cases List.mem_singleton.mp hget
    obtain ⟨hrow, -⟩ := hstep
    exact Rows.mem_of_find hrow.symm
  · cases List.mem_singleton.mp hlist
    obtain ⟨rfl, -⟩ := hstep
    exact (mem_listFor.mp hm).1

/-- What is stored after an event was stored before, or has the same terms, or was just
written. -/
theorem mem_rows_step {m : Mandate} (hstep : deskWorld.step s o r s') (hm : m ∈ s'.rows) :
    (∃ m' ∈ s.rows, m.terms = m'.terms) ∨
      (⟨o, r⟩ : Event TokenSig) = ⟨.createMandate m, .ok ()⟩ ∨ o = .updateMandate m := by
  have hsame : s'.rows = s.rows → ∃ m' ∈ s.rows, m.terms = m'.terms :=
    fun h => ⟨m, h ▸ hm, rfl⟩
  -- creating adds a row, updating puts one, and expiring keeps the terms of each
  cases o with
  | createMandate m' =>
    match r with
    | .error e =>
      obtain rfl := hstep
      exact .inl (hsame rfl)
    | .ok () =>
      obtain ⟨rows, hcreate, rfl⟩ := hstep
      obtain ⟨-, rfl⟩ := create_eq_ok.mp hcreate
      rcases List.mem_append.mp hm with hold | hnew
      · exact .inl ⟨m, hold, rfl⟩
      · obtain rfl := List.mem_singleton.mp hnew
        exact .inr (.inl rfl)
  | updateMandate m' =>
    match r with
    | .error e =>
      obtain rfl := hstep
      exact .inl (hsame rfl)
    | .ok () =>
      obtain ⟨rows, hupdate, rfl⟩ := hstep
      obtain ⟨-, rfl⟩ := update_eq_ok.mp hupdate
      obtain ⟨m₁, hold, heq⟩ := List.mem_map.mp hm
      split_ifs at heq with hid
      · exact .inr (.inr (by rw [heq]))
      · exact .inl ⟨m₁, hold, by rw [heq]⟩
  | expireActive now =>
    match r with
    | .error e =>
      obtain rfl := hstep
      exact .inl (hsame rfl)
    | .ok expired =>
      obtain ⟨rows, hexpire, rfl⟩ := hstep
      obtain ⟨rfl, -⟩ := Prod.mk.inj hexpire
      obtain ⟨m₁, hold, rfl⟩ := List.mem_map.mp hm
      refine .inl ⟨m₁, hold, ?_⟩
      unfold swept
      split <;> rfl
  | _ => exact .inl (hsame (rows_eq hstep not_false))

/-- What is stored stays stored. -/
theorem row_stays {id : String} {row : Mandate} (hstep : deskWorld.step s o r s')
    (hrow : s.row id = some row) : ∃ row', s'.row id = some row' := by
  cases mandateStep id hstep with
  | same ha => exact ⟨row, ha.trans hrow⟩
  | created _ _ ha => exact ⟨_, ha⟩
  | updated _ _ ha => exact ⟨_, ha⟩
  | swept _ _ ha => exact ⟨_, ha⟩

/-- A mandate is created once: its id is free before, and taken after. -/
theorem row_founded {m : Mandate} (hstep : deskWorld.step s (.createMandate m) (.ok ()) s') :
    s.row m.mandateId = none ∧ s'.row m.mandateId = some m := by
  obtain ⟨rows, hcreate, rfl⟩ := hstep
  obtain ⟨hfree, rfl⟩ := create_eq_ok.mp hcreate
  refine ⟨hfree, ?_⟩
  have hrow : Rows.find Mandate.mandateId (s.rows ++ [m]) m.mandateId =
      if m.mandateId = m.mandateId then some m else s.row m.mandateId := Rows.find_append hfree
  exact hrow.trans (if_pos rfl)

/-- **An event keeps the deeds.** -/
theorem Deeds.event (hd : Deeds run s) (hcall : (calls run)[i]? = some c)
    (hwrites : Writes c (history i run) o) (hstep : deskWorld.step s o r s') :
    Deeds (run ++ [⟨s, .event i ⟨o, r⟩⟩]) s' where
  stored := by
    intro m hm
    rcases mem_rows_step hstep hm with ⟨m', hm', hterms⟩ | heq | rfl
    · exact ((hd.stored hm').of_terms hterms).mono
    · exact ⟨i, m, mem_history_event.mpr (.inr ⟨rfl, heq.symm⟩), rfl⟩
    · obtain ⟨-, m', htold, hterms⟩ := hwrites
      exact ((hd.told htold).of_terms hterms).mono
  told := by
    intro j m htold
    have hsplit : ToldMandate (history j run) m ∨ ToldMandate [⟨o, r⟩] m := by
      rcases htold with ⟨id, hget⟩ | ⟨subject, found, hlist, hm⟩
      · rcases mem_history_event.mp hget with hold | ⟨-, heq⟩
        · exact .inl (.inl ⟨id, hold⟩)
        · exact .inr (.inl ⟨id, List.mem_singleton.mpr heq⟩)
      · rcases mem_history_event.mp hlist with hold | ⟨-, heq⟩
        · exact .inl (.inr ⟨subject, found, hold, hm⟩)
        · exact .inr (.inr ⟨subject, found, List.mem_singleton.mpr heq, hm⟩)
    rcases hsplit with hold | hnow
    · exact (hd.told hold).mono
    · exact (hd.stored (mem_rows_of_told hstep hnow)).mono
  founders := by
    intro j m hfounds
    rcases mem_history_event.mp hfounds with hold | ⟨rfl, heq⟩
    · obtain ⟨hcreator, c', hc', hcreates⟩ := hd.founders hold
      exact ⟨hcreator, c', calls_getElem?_append hc', hcreates⟩
    · cases heq
      obtain ⟨-, hcreator, hcreates⟩ := hwrites
      exact ⟨hcreator, c, calls_getElem?_append hcall, hcreates⟩
  registered := by
    intro j m hfounds
    rcases mem_history_event.mp hfounds with hold | ⟨-, heq⟩
    · obtain ⟨row, hrow⟩ := hd.registered hold
      exact row_stays hstep hrow
    · cases heq
      exact ⟨m, (row_founded hstep).2⟩
  foundedOnce := by
    intro j k m m' hfounds hfounds' hid
    -- nobody creates a mandate whose id is taken
    have hfree : ∀ {j m₁ m₂}, Founds run j m₁ →
        (⟨.createMandate m₂, .ok ()⟩ : Event TokenSig) = ⟨o, r⟩ →
        m₁.mandateId ≠ m₂.mandateId := by
      intro j m₁ m₂ hold heq hsame
      cases heq
      obtain ⟨row, hrow⟩ := hd.registered hold
      rw [hsame, (row_founded hstep).1] at hrow
      exact nomatch hrow
    rcases mem_history_event.mp hfounds with hold | ⟨-, heq⟩
    · rcases mem_history_event.mp hfounds' with hold' | ⟨-, heq'⟩
      · exact hd.foundedOnce hold hold' hid
      · exact absurd hid (hfree hold heq')
    · rcases mem_history_event.mp hfounds' with hold' | ⟨-, heq'⟩
      · exact absurd hid.symm (hfree hold' heq)
      · cases heq.trans heq'.symm
        rfl

end Event

/-- **Every run keeps the deeds.** -/
theorem deeds (h : Exec svc.desk deskWorld run s) : Deeds run s := by
  refine h.invariant spec_desk (I := Deeds) ?_ ?_ ?_
  · refine ⟨fun hm => absurd hm List.not_mem_nil, fun htold => ?_,
      fun hfounds => absurd hfounds List.not_mem_nil,
      fun hfounds => absurd hfounds List.not_mem_nil,
      fun hfounds => absurd hfounds List.not_mem_nil⟩
    rcases htold with ⟨_, hget⟩ | ⟨_, _, hlist, -⟩
    · exact absurd hget List.not_mem_nil
    · exact absurd hlist List.not_mem_nil
  · -- starting a call changes no history
    intro run s c _ hd
    have hhist : ∀ i, history i (run ++ [⟨s, .spawn c⟩]) = history i run := by
      intro i
      rw [history_append, history_spawn, List.append_nil]
    refine ⟨fun hm => (hd.stored hm).mono, fun htold => ?_, fun hfounds => ?_, fun hfounds => ?_,
      fun hfounds hfounds' => ?_⟩
    · rw [hhist] at htold
      exact (hd.told htold).mono
    · rw [Founds, hhist] at hfounds
      obtain ⟨hcreator, c', hc', hcreates⟩ := hd.founders hfounds
      exact ⟨hcreator, c', calls_getElem?_append hc', hcreates⟩
    · rw [Founds, hhist] at hfounds
      exact hd.registered hfounds
    · rw [Founds, hhist] at hfounds hfounds'
      exact hd.foundedOnce hfounds hfounds'
  · intro run s i c o r s' _ hd hcall hwrites hstep
    exact hd.event hcall hwrites hstep

/-! ### The tokens of a run -/

/-- The call number `k` issued a root token. -/
inductive IssuedBy (run : List (svc.desk.Moment deskWorld)) (k : ℕ) (issued : IssuedToken Text) :
    Prop
  | issue {chain : PrincipalChain} {ttl : Option ℤ} {mandateId : Option String}
      (hcall : (calls run)[k]? = some (.token (.issue chain ttl mandateId)))
      (hrun : Raises.Run (svc.tokens.issue chain ttl mandateId) (history k run) (.ok issued))
  | issueUnder {mandateId caller : String} {scope : Scope} {ttl : Option ℤ}
      (hcall : (calls run)[k]? = some (.token (.issueUnder mandateId caller scope ttl)))
      (hrun : Raises.Run (svc.issue mandateId caller scope ttl) (history k run) (.ok issued))

/-- The tokens that grow from the one that the call number `k` issued. Anyone may append any
block to them, by `attenuate` or without it. -/
inductive Grown (run : List (svc.desk.Moment deskWorld)) (k : ℕ) : Biscuit → Prop
  | root {issued : IssuedToken Text} {b : Biscuit} (hissued : IssuedBy run k issued)
      (hb : issued.token = svc.tokens.lib.toBase64 b) : Grown run k b
  | append {b : Biscuit} {block : Biscuit.Block} (hb : Grown run k b) :
      Grown run k (b.appendBlock block)

/-- **A token whose root the call number `k` issued bears the chain, the revocation ids and the
mandate**: it was issued or attenuated with them, or it is read so. -/
inductive Bears (run : List (svc.desk.Moment deskWorld)) (k : ℕ) :
    PrincipalChain → List String → Option String → Prop
  | issued {issued : IssuedToken Text} (hissued : IssuedBy run k issued) :
      Bears run k issued.chain issued.revocationIds issued.mandateId
  | attenuated {b : Biscuit} {toActor : String} {scope : Scope} {tr : Trace TokenSig}
      {issued : IssuedToken Text} (hb : Grown run k b)
      (hrun : Raises.Run (svc.tokens.attenuate (svc.tokens.lib.toBase64 b) toActor scope) tr
        (.ok issued)) :
      Bears run k issued.chain issued.revocationIds issued.mandateId
  | read {b : Biscuit} {l : Loaded} (hb : Grown run k b)
      (hl : load svc.tokens.lib svc.tokens.keyring (svc.tokens.lib.toBase64 b) = .ok l) :
      Bears run k l.chain l.revocationIds l.mandateId

/-- **What a mandate promises of a token under it**, whose root the call number `k` issued. The
caller was the agent of the mandate. The mandate had been created by its own subject, and
nobody else created one of its id; it read ACTIVE, in time and not revoked, and the engine
answered that the agent is bound to the subject. -/
structure Mandated (run : List (svc.desk.Moment deskWorld)) (k : ℕ) (c : PrincipalChain)
    (ids : List String) (m : Mandate) : Prop where
  bounds : m.Bounds c ids
  caller : ∃ scope ttl, (calls run)[k]? = some (.token (.issueUnder m.mandateId m.agent scope ttl))
  asked : ∃ pre s₀ post row t rest,
    run = pre ++ ⟨s₀, .event k ⟨.getMandate m.mandateId, .ok (some row)⟩⟩ :: post ∧
      row.status = .active ∧ row.terms = m.terms ∧
      (∃ j call, Founds pre j m ∧ (calls pre)[j]? = some call ∧ Creates call m) ∧
      t < m.expiresAt ∧
      history k run = ⟨.getMandate m.mandateId, .ok (some row)⟩ :: ⟨.now, t⟩ ::
        ⟨.isRevoked [m.revocationId], .ok false⟩ ::
        ⟨.check m.subject BINDING_RELATION m.agent, .ok true⟩ :: rest
  creator : m.createdBy = m.subject
  unique : ∀ j m', Founds run j m' → m'.mandateId = m.mandateId → m' = m

/-- The authority block of a grown token is that of its root. -/
theorem Grown.authority {k : ℕ} {b : Biscuit} (h : Grown run k b) :
    ∃ issued b₀, IssuedBy run k issued ∧ issued.token = svc.tokens.lib.toBase64 b₀ ∧
      b.authority = b₀.authority := by
  induction h with
  | root hissued hb => exact ⟨_, _, hissued, hb, rfl⟩
  | append hb ih => exact ih

/-- What a mandate bounds, of the root and of what grows from it. -/
structure Rooted (svc : MandateService Text) (m : Mandate) (issued : IssuedToken Text) : Prop where
  bounds : m.Bounds issued.chain issued.revocationIds
  mandateId : issued.mandateId = some m.mandateId
  authority : ∀ {b}, issued.token = svc.tokens.lib.toBase64 b → ∃ scope issuedAt expiresAt,
    b.authority = (authorityBuilder m.subject m.agent scope issuedAt expiresAt
      (some m.mandateId)).facts ∧ scope.isSubsetOf m.scope = true

/-- What `MandateService.issue` returns is rooted in the mandate it read. -/
theorem rooted_of_issue {m : Mandate} {scope : Scope} {chain : PrincipalChain} {ttl : Option ℤ}
    {tr : Trace TokenSig} {issued : IssuedToken Text} (hscope : scope.isSubsetOf m.scope = true)
    (hroot : PrincipalChain.root m.subject m.agent scope = .ok chain)
    (h : Raises.Run (svc.tokens.issue chain ttl (some m.mandateId)) tr (.ok issued)) :
    Rooted svc m issued := by
  obtain ⟨hsubject, hactor, hdel, hsc, -⟩ := PrincipalChain.make_ok hroot
  obtain ⟨issuedAt, key, id, at_, eventId, -, -, rfl⟩ := TokenService.issue_run h
  refine ⟨⟨hsubject, ?_, within_root hroot hscope, revocationId_mem⟩, rfl, fun {b} hb => ?_⟩
  · rw [PrincipalChain.rootActor, hdel]
    exact hactor
  · obtain rfl := svc.tokens.lib.toBase64_injective hb
    refine ⟨scope, issuedAt, issuedAt + TokenService.ttlOr ttl svc.tokens.ttl, ?_, hscope⟩
    rw [TokenService.rootToken_authority, hsubject, hactor, hsc]

/-- **Every token that grows from the root is bounded by its mandate.** -/
theorem Rooted.bounds_of_bears {k : ℕ} {m : Mandate} {c : PrincipalChain} {ids : List String}
    {mandateId : Option String} (hrooted : ∀ issued, IssuedBy run k issued → Rooted svc m issued)
    (h : Bears run k c ids mandateId) : mandateId = some m.mandateId ∧ m.Bounds c ids := by
  have hloaded : ∀ {b l}, Grown run k b →
      load svc.tokens.lib svc.tokens.keyring (svc.tokens.lib.toBase64 b) = .ok l →
      l.mandateId = some m.mandateId ∧ m.Bounds l.chain l.revocationIds := by
    intro b l hb hl
    obtain ⟨issued, b₀, hissued, htext, hsame⟩ := hb.authority
    obtain ⟨scope, issuedAt, expiresAt, hfacts, hscope⟩ := (hrooted issued hissued).authority htext
    have hl' := (load_toBase64.mp hl).2
    have hfacts' := hsame.trans hfacts
    exact ⟨mandateId_of_load hfacts' hl', bounds_of_load hfacts' hscope hl'⟩
  cases h with
  | issued hissued => exact ⟨(hrooted _ hissued).mandateId, (hrooted _ hissued).bounds⟩
  | attenuated hb hrun =>
    obtain ⟨l, c, id, at_, eventId, -, hl, -, hc, -, rfl⟩ := TokenService.attenuate_run hrun
    obtain ⟨hm, hbounds⟩ := hloaded hb hl
    refine ⟨hm, hbounds.delegate hc ?_⟩
    rw [hm]
    exact revocationId_mem
  | read hb hl => exact hloaded hb hl

/-- Who borrows no mandate carries the one that was handed over. -/
theorem Bears.mandateId_eq {k : ℕ} {chain c : PrincipalChain} {ttl : Option ℤ}
    {mandateId mandateId' : Option String} {ids : List String}
    (hcall : (calls run)[k]? = some (.token (.issue chain ttl mandateId)))
    (h : Bears run k c ids mandateId') : mandateId' = mandateId := by
  have hroot : ∀ {issued}, IssuedBy run k issued →
      Raises.Run (svc.tokens.issue chain ttl mandateId) (history k run) (.ok issued) := by
    intro issued hissued
    cases hissued with
    | issue hcall' hrun =>
      cases hcall.symm.trans hcall'
      exact hrun
    | issueUnder hcall' _ => exact nomatch hcall.symm.trans hcall'
  -- an attenuated token has the authority block of its root, where the mandate is
  have hloaded : ∀ {b l}, Grown run k b →
      load svc.tokens.lib svc.tokens.keyring (svc.tokens.lib.toBase64 b) = .ok l →
      l.mandateId = mandateId := by
    intro b l hb hl
    obtain ⟨issued, b₀, hissued, htext, hsame⟩ := hb.authority
    obtain ⟨issuedAt, key, id, at_, eventId, -, -, rfl⟩ := TokenService.issue_run (hroot hissued)
    obtain rfl := svc.tokens.lib.toBase64_injective htext
    exact mandateId_of_load (hsame.trans TokenService.rootToken_authority) (load_toBase64.mp hl).2
  cases h with
  | issued hissued =>
    obtain ⟨issuedAt, key, id, at_, eventId, -, -, rfl⟩ := TokenService.issue_run (hroot hissued)
    rfl
  | attenuated hb hrun =>
    obtain ⟨l, c, id, at_, eventId, -, hl, -, -, -, rfl⟩ := TokenService.attenuate_run hrun
    exact hloaded hb hl
  | read hb hl => exact hloaded hb hl

/-- A root token was issued. -/
theorem Bears.issuedBy {k : ℕ} {c : PrincipalChain} {ids : List String} {mandateId : Option String}
    (h : Bears run k c ids mandateId) : ∃ issued, IssuedBy run k issued := by
  cases h with
  | issued hissued => exact ⟨_, hissued⟩
  | attenuated hb _ =>
    obtain ⟨issued, _, hissued, -⟩ := hb.authority
    exact ⟨issued, hissued⟩
  | read hb _ =>
    obtain ⟨issued, _, hissued, -⟩ := hb.authority
    exact ⟨issued, hissued⟩

/-- What has been created stays created. -/
theorem Founds.mono {pre post : List (svc.desk.Moment deskWorld)} {j : ℕ} {m : Mandate}
    (h : Founds pre j m) : Founds (pre ++ post) j m := by
  rw [Founds, history_append]
  exact List.mem_append_left _ h

/-- **A mandate bounds every token under it.** The run is any run, with any answers of the
engine. A token whose root `MandateService.issue` issued, or any call that was not handed the
mandate id by its caller, keeps what its mandate promises, whoever appended its blocks. -/
theorem mandate_bounds (h : Exec svc.desk deskWorld run s) {k : ℕ} {c : PrincipalChain}
    {ids : List String} {mandateId : String} (hbears : Bears run k c ids (some mandateId))
    (hdirect : ∀ chain ttl, (calls run)[k]? ≠ some (.token (.issue chain ttl (some mandateId)))) :
    ∃ m, m.mandateId = mandateId ∧ Mandated run k c ids m := by
  have hd := deeds h
  obtain ⟨issued, hissued⟩ := hbears.issuedBy
  cases hissued with
  | @issue chain ttl mandateId' hcall hrun =>
    obtain rfl := hbears.mandateId_eq hcall
    exact absurd hcall (hdirect chain ttl)
  | @issueUnder asked caller scope ttl hcall hrun =>
    obtain ⟨row, t, t₂, chain, rest, hactive, rfl, hscope, ht, hroot, hhist, htoken⟩ :=
      MandateService.issue_run hrun
    -- whoever issued the root has read the same row
    have hrooted : ∀ issued', IssuedBy run k issued' → Rooted svc row issued' := by
      intro issued' hissued'
      cases hissued' with
      | issue hcall' _ => exact nomatch hcall.symm.trans hcall'
      | issueUnder hcall' hrun' =>
        cases hcall.symm.trans hcall'
        obtain rfl := Except.ok.inj (Prog.Run.unique hrun hrun')
        exact rooted_of_issue hscope hroot htoken
    obtain ⟨hm, hbounds⟩ := Rooted.bounds_of_bears hrooted hbears
    obtain rfl := Option.some.inj hm
    -- the moment at which the mandate was read
    have hget : ⟨.getMandate asked, .ok (some row)⟩ ∈ history k run := by
      rw [hhist]
      exact List.mem_cons_self
    obtain rfl : row.mandateId = asked := mandateId_of_get h hget
    obtain ⟨s₀, hmem⟩ := mem_history.mp hget
    obtain ⟨pre, post, hrun'⟩ := List.append_of_mem hmem
    obtain ⟨hpre, s₁, hs⟩ := h.split hrun'
    have hd₀ := deeds hpre
    have hstored : row ∈ s₀.rows := by
      cases hs with
      | event _ _ hstep =>
        obtain ⟨hrow, -⟩ := hstep
        exact Rows.mem_of_find hrow.symm
    obtain ⟨j, m, hfounds, hterms⟩ := hd₀.stored hstored
    obtain ⟨hid, hsubject, hagent, -⟩ := Mandate.terms_eq hterms
    obtain ⟨hcreator, call, hj, hcreates⟩ := hd₀.founders hfounds
    have hexpires : row.expiresAt = m.expiresAt := by
      simp only [Mandate.terms, Prod.mk.injEq] at hterms
      exact hterms.2.2.2.2.2.1
    refine ⟨m, hid.symm, hbounds.of_terms hterms, ⟨scope, ttl, ?_⟩,
      ⟨pre, s₀, post, row, t, ⟨.now, t₂⟩ :: rest, ?_, hactive, hterms,
        ⟨j, call, hfounds, hj, hcreates⟩,
        hexpires ▸ ht, ?_⟩, hcreator, fun j' m' hfounds' hid' => ?_⟩
    · rw [← hid, ← hagent]
      exact hcall
    · rw [← hid]
      exact hrun'
    · rw [hhist, ← hid, ← hsubject, ← hagent, Mandate.revocationId, Mandate.revocationId, hid]
    · have hfounds₀ : Founds run j m := by
        rw [hrun']
        exact hfounds.mono
      exact hd.foundedOnce hfounds' hfounds₀ hid'

/-! ### Two runs -/

/-- The call number `k` has returned a token, and `mandateId` is its mandate. -/
def hasIssued (p : DeskPool) (k : ℕ) (mandateId : String) : Bool :=
  match p.threads[k]? with
  | some ⟨.token (.issue _ _ _), .ret (.ok issued)⟩ => issued.mandateId = some mandateId
  | some ⟨.token (.issueUnder _ _ _ _), .ret (.ok issued)⟩ => issued.mandateId = some mandateId
  | _ => false

theorem bears_of_hasIssued {p : DeskPool} (hp : p.Sound) {k : ℕ} {mandateId : String}
    (h : hasIssued p k mandateId = true) : ∃ c ids, Bears p.run k c ids (some mandateId) := by
  unfold hasIssued at h
  split at h
  · next issued heq =>
    have hissued : IssuedBy p.run k issued := .issue (hp.calls_of heq) (hp.returned heq)
    rw [← of_decide_eq_true h]
    exact ⟨_, _, .issued hissued⟩
  · next issued heq =>
    have hissued : IssuedBy p.run k issued := .issueUnder (hp.calls_of heq) (hp.returned heq)
    rw [← of_decide_eq_true h]
    exact ⟨_, _, .issued hissued⟩
  · exact absurd h (by simp)

/-- The call creates a mandate. -/
def createsOne : MandateCall Biscuit → Bool
  | .create _ _ _ _ _ _ => true
  | _ => false

/-- The caller hands over a mandate id. -/
def handsOver : MandateCall Biscuit → Bool
  | .token (.issue _ _ (some _)) => true
  | _ => false

/-- **It can fail.** `TokenService.issue` writes the mandate id that it is handed, and nobody
has created that mandate. -/
theorem mandate_of_direct_issue :
    ∃ (run : DeskRun boundToEngine) (s : DeskState), Exec boundToEngine.desk deskWorld run s ∧
      ∃ c ids, Bears run 0 c ids (some "m") ∧
        ¬ ∃ m, m.mandateId = "m" ∧ Mandated run 0 c ids m := by
  have hplay : (deskDriver.play (.start boundToEngine.desk deskWorld)
      (deskThen (.token (.issue PrincipalChain.aliceReader none (some "m"))) 0 5)).any (fun p =>
          hasIssued p 0 "m" && (calls p.run).all (fun c => !createsOne c)) = true := by
    decide +kernel
  obtain ⟨p, hp, htest⟩ := (Option.any_eq_true _ _).mp hplay
  have hsound : p.Sound := Driver.sound_play Pool.sound_start hp
  obtain ⟨hissued, hnone⟩ := Bool.and_eq_true_iff.mp htest
  obtain ⟨c, ids, hbears⟩ := bears_of_hasIssued hsound hissued
  refine ⟨p.run, p.state, hsound.exec, c, ids, hbears, ?_⟩
  rintro ⟨m, -, hmandated⟩
  obtain ⟨pre, s₀, post, row, t, rest, hrun, -, -, ⟨j, call, -, hcall, expiresAt, ttl, rfl⟩, -⟩ :=
    hmandated.asked
  have hmem := List.mem_of_getElem? hcall
  have hall := List.all_eq_true.mp hnone (.create m.subject m.agent m.scope expiresAt m.subject ttl)
  rw [hrun, calls_append] at hall
  exact absurd (hall (List.mem_append_left _ hmem)) (by simp [createsOne])

/-- alice mandates `agent:a`, who is issued a token. -/
theorem mandate_bounds_aliceMandates :
    ∃ (run : DeskRun boundToEngine) (c : PrincipalChain) (ids : List String),
      Bears run 1 c ids (some "m") ∧ ∃ m, m.mandateId = "m" ∧ Mandated run 1 c ids m := by
  have hplay : (deskDriver.play (.start boundToEngine.desk deskWorld)
      (deskThen aliceMandates 0 7 ++
        deskThen (.token (.issueUnder "m" "agent:a" PrincipalChain.aliceReader.scope none)) 1
          10)).any
          (fun p => hasIssued p 1 "m" && (calls p.run).all fun c => !handsOver c) = true := by
    decide +kernel
  obtain ⟨p, hp, htest⟩ := (Option.any_eq_true _ _).mp hplay
  have hsound : p.Sound := Driver.sound_play Pool.sound_start hp
  obtain ⟨hissued, hnever⟩ := Bool.and_eq_true_iff.mp htest
  obtain ⟨c, ids, hbears⟩ := bears_of_hasIssued hsound hissued
  refine ⟨p.run, c, ids, hbears, mandate_bounds hsound.exec hbears fun chain ttl hcall => ?_⟩
  have hall := List.all_eq_true.mp hnever _ (List.mem_of_getElem? hcall)
  exact absurd hall (by simp [handsOver])

end MandateService

end HeadOfContext
