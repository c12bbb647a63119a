import HeadOfContext.Tokens.Authority
import HeadOfContext.Tokens.Service

/-!
# What loading and verifying check

The methods of the token service, inverted. `load` succeeds exactly when the token
decodes, its authority block reads, and its trail replays from the root chain
(`loadBiscuit_eq_ok`). At a fixed clock and revocation state `verify` accepts exactly when
it loads, none of its ids is revoked, the caller is its last actor, and the authorizer
permits (`accepts_iff`).
-/

namespace HeadOfContext

open Effects Biscuit Except

variable {Text : Type} {lib : BiscuitLib Text}

/-! ### The trail -/

/-- Replaying two parts of a trail, one after the other. -/
theorem followTrail_append {c c' : PrincipalChain} {pre rest : List Block} :
    followTrail c (pre ++ rest) = .ok c' ↔
      ∃ c₁, followTrail c pre = .ok c₁ ∧ followTrail c₁ rest = .ok c' := by
  induction pre generalizing c with
  | nil => simp [followTrail]
  | cons block pre ih =>
    rw [List.cons_append, followTrail, followTrail]
    cases parseTrailBlock block.source with
    | error e => simp
    | ok parsed =>
      rw [ok_bind, ok_bind]
      match parsed with
      | none => exact ih
      | some ((fromActor, toActor), declared) =>
        simp only [bind_eq_ok, ih]
        constructor
        · rintro ⟨u, hu, c₂, hc₂, c₁, h₁, h₂⟩
          exact ⟨c₁, ⟨u, hu, c₂, hc₂, h₁⟩, h₂⟩
        · rintro ⟨c₁, ⟨u, hu, c₂, hc₂, h₁⟩, h₂⟩
          exact ⟨u, hu, c₂, hc₂, c₁, h₁, h₂⟩

/-- What a trail keeps of the chain it starts from. -/
structure Narrows (c c' : PrincipalChain) : Prop where
  subject : c'.subject = c.subject
  rootActor : c'.rootActor = c.rootActor
  scope : c'.scope.isSubsetOf c.scope = true

theorem Narrows.refl (c : PrincipalChain) : Narrows c c := ⟨rfl, rfl, Scope.isSubsetOf_refl _⟩

theorem Narrows.trans {c c' c'' : PrincipalChain} (h : Narrows c c') (h' : Narrows c' c'') :
    Narrows c c'' :=
  ⟨h'.subject.trans h.subject, h'.rootActor.trans h.rootActor,
    Scope.isSubsetOf_trans h'.scope h.scope⟩

theorem narrows_delegate {c c' : PrincipalChain} {b : String} {sc : Scope}
    (h : c.delegate b sc = .ok c') : Narrows c c' := by
  obtain ⟨hsub, hs, -, hsc, -⟩ := PrincipalChain.delegate_ok h
  refine ⟨hs, PrincipalChain.rootActor_delegate h, ?_⟩
  rw [hsc]
  exact hsub

/-- **A trail only narrows**, whatever its blocks say. -/
theorem followTrail_narrows {c c' : PrincipalChain} {blocks : List Block}
    (h : followTrail c blocks = .ok c') : Narrows c c' := by
  induction blocks generalizing c with
  | nil =>
    obtain rfl := Except.ok.inj h
    exact .refl _
  | cons block rest ih =>
    rw [followTrail] at h
    obtain ⟨parsed, -, h⟩ := bind_eq_ok.mp h
    match parsed with
    | none => exact ih h
    | some ((fromActor, toActor), declared) =>
      obtain ⟨_, -, h⟩ := bind_eq_ok.mp h
      obtain ⟨c₁, hc₁, h⟩ := bind_eq_ok.mp h
      exact (narrows_delegate hc₁).trans (ih h)

/-! ### Loading -/

theorem loadBiscuit_eq_ok {b : Biscuit} {l : Loaded} :
    loadBiscuit lib b = .ok l ↔
      b.blocks.length ≤ MAX_DELEGATION_DEPTH ∧ ∃ authority mandateId root chain,
        readAuthority lib b = .ok authority ∧ readMandate lib b = .ok mandateId ∧
        PrincipalChain.root authority.subject authority.actor authority.scope = .ok root ∧
        followTrail root b.blocks = .ok chain ∧
        l = ⟨b, chain, authority.expiresAt, mandateId⟩ := by
  have hdepth : b.blockCount - 1 = b.blocks.length := rfl
  simp only [loadBiscuit, bind_eq_ok, raiseIf_eq_ok, mapError_eq_ok, pure_eq_ok, ok.injEq, hdepth,
    gt_iff_lt, not_lt]
  constructor
  · rintro ⟨_, hd, _, ⟨authority, ha, mandateId, hm, rfl⟩, chain, ⟨root, hr, hc⟩, rfl⟩
    exact ⟨hd, authority, mandateId, root, chain, ha, hm, hr, hc, rfl⟩
  · rintro ⟨hd, authority, mandateId, root, chain, ha, hm, hr, hc, rfl⟩
    exact ⟨(), hd, _, ⟨authority, ha, mandateId, hm, rfl⟩, chain, ⟨root, hr, hc⟩, rfl⟩

/-- The text of a token loads as the token, under its root key. -/
theorem load_toBase64 {keyring : KeyRing} {b : Biscuit} {l : Loaded} :
    load lib keyring (lib.toBase64 b) = .ok l ↔
      keyring.publicKey b.rootKeyId = .ok b.rootKey ∧ loadBiscuit lib b = .ok l := by
  rw [load, lib.rootKeyId_toBase64]
  simp only [bind_eq_ok, lib.fromBase64_toBase64]
  constructor
  · rintro ⟨key, hkey, h⟩
    by_cases hk : key = b.rootKey
    · rw [if_pos hk] at h
      exact ⟨hk ▸ hkey, h⟩
    · rw [if_neg hk] at h
      exact absurd h (by simp)
  · rintro ⟨hkey, h⟩
    exact ⟨b.rootKey, hkey, by rwa [if_pos rfl]⟩

/-- What was loaded is the token itself. -/
theorem biscuit_of_loadBiscuit {b : Biscuit} {l : Loaded} (h : loadBiscuit lib b = .ok l) :
    l.biscuit = b := by
  obtain ⟨-, -, -, -, -, -, -, -, -, rfl⟩ := loadBiscuit_eq_ok.mp h
  rfl

/-! ### Verifying at a fixed clock and revocation state -/

/-- The collaborators at the clock reading `now`, with the revocation state `revoked` and
no mandates. -/
def fixedAt (now : ℤ) (revoked : String → Bool) : ∀ o, TokenOp.Res o
  | .now => now
  | .uuid4 => ""
  | .sign => ""
  | .isRevoked ids => .ok (ids.any revoked)
  | .revoke _ _ _ => .ok ()
  | .record _ => .ok ()
  | .check _ _ _ => .ok true
  | .createMandate _ => .ok ()
  | .getMandate _ => .ok none
  | .updateMandate _ => .ok ()
  | .listMandates _ => .ok []
  | .expireActive _ => .ok []

namespace TokenService

variable (svc : TokenService Text)

variable {svc}

theorem authorizeOrRaise_eq_ok {l : Loaded} {caller : String} {operation : Kind}
    {resource : String} {now : ℤ} {u : Unit} :
    authorizeOrRaise l caller operation resource now = .ok u ↔
      (authorizer caller operation resource now).authorize l.biscuit = .ok () := by
  unfold authorizeOrRaise
  cases (authorizer caller operation resource now).authorize l.biscuit with
  | ok => simp
  | error exc =>
    simp only [reduceCtorEq, iff_false]
    split_ifs <;> simp

/-- The token that `issue` signs. -/
def rootToken (svc : TokenService Text) (c : PrincipalChain) (ttl : Option ℤ)
    (mandateId : Option String) (issuedAt : ℤ) (key : PrivateKey) (id : String) : Biscuit :=
  { authorityBuilder c.subject c.actor c.scope issuedAt (issuedAt + ttlOr ttl svc.ttl)
    mandateId with
    rootKeyId := some svc.keyId }.build svc.lib key id

theorem rootToken_authority {c : PrincipalChain} {ttl : Option ℤ} {mandateId : Option String}
    {issuedAt : ℤ} {key : PrivateKey} {id : String} :
    (svc.rootToken c ttl mandateId issuedAt key id).authority =
      (authorityBuilder c.subject c.actor c.scope issuedAt (issuedAt + ttlOr ttl svc.ttl)
        mandateId).facts := rfl

/-- **What `issue` returns**, and the calls it makes. -/
theorem issue_run {c : PrincipalChain} {ttl : Option ℤ} {mandateId : Option String}
    {tr : Trace TokenSig} {issued : IssuedToken Text}
    (h : Raises.Run (svc.issue c ttl mandateId) tr (.ok issued)) :
    ∃ issuedAt key id at_ eventId, c.depth = 0 ∧
      tr = [⟨.now, issuedAt⟩, ⟨.sign, id⟩, ⟨.now, at_⟩, ⟨.uuid4, eventId⟩,
        ⟨.record (svc.tokenEvent .tokenIssued issued "issued" at_ eventId), .ok ()⟩] ∧
      issued =
        { token := svc.lib.toBase64 (svc.rootToken c ttl mandateId issuedAt key id)
          chain := c
          expiresAt := issuedAt + ttlOr ttl svc.ttl
          revocationIds := withMandate [id] mandateId
          mandateId := mandateId } := by
  unfold issue at h
  -- the calls in the order of the source; the checks leave no trace
  obtain ⟨_, tr₁, tr₂, rfl, hdepth, h₂⟩ := Raises.run_bind_ok.mp h
  obtain ⟨rfl, hroot⟩ := Core.run_ofHoc_ok.mp hdepth
  obtain ⟨issuedAt, tr₁, tr₃, rfl, hnow, h₃⟩ := Raises.run_bind_ok.mp h₂
  obtain rfl := Raises.run_lift_invoke_ok.mp hnow
  obtain ⟨key, tr₁, tr₄, rfl, hkey, h₄⟩ := Raises.run_bind_ok.mp h₃
  obtain ⟨rfl, -⟩ := Core.run_ofHoc_ok.mp hkey
  obtain ⟨id, tr₁, tr₅, rfl, hsign, h₅⟩ := Raises.run_bind_ok.mp h₄
  obtain rfl := Raises.run_lift_invoke_ok.mp hsign
  obtain ⟨at_, tr₁, tr₆, rfl, hat, h₆⟩ := Raises.run_bind_ok.mp h₅
  obtain rfl := Raises.run_lift_invoke_ok.mp hat
  obtain ⟨eventId, tr₂, tr₇, rfl, huuid, h₇⟩ := Raises.run_bind_ok.mp h₆
  obtain rfl := Raises.run_lift_invoke_ok.mp huuid
  obtain ⟨_, tr₃, tr₈, rfl, hrecord, h₈⟩ := Raises.run_bind_ok.mp h₇
  obtain rfl := Raises.run_invoke.mp hrecord
  obtain ⟨rfl, rfl⟩ := Raises.run_pure_ok.mp h₈
  exact ⟨issuedAt, key, id, at_, eventId, by simpa using raiseIf_eq_ok.mp hroot, rfl, rfl⟩

/-- The token that `attenuate` signs. -/
def hopToken (svc : TokenService Text) (l : Loaded) (toActor : String) (scope : Scope)
    (id : String) : Biscuit :=
  l.biscuit.appendBlock ((attenuationBuilder l.chain.actor toActor scope).build svc.lib id)

@[simp] theorem rootToken_revocationIds {c : PrincipalChain} {ttl : Option ℤ}
    {mandateId : Option String} {issuedAt : ℤ} {key : PrivateKey} {id : String} :
    (svc.rootToken c ttl mandateId issuedAt key id).revocationIds = [id] := rfl

@[simp] theorem hopToken_revocationIds {l : Loaded} {toActor : String} {scope : Scope}
    {id : String} :
    (svc.hopToken l toActor scope id).revocationIds = l.biscuit.revocationIds ++ [id] := by
  simp [hopToken, Biscuit.revocationIds, Biscuit.appendBlock, BlockBuilder.build]

@[simp] theorem hopToken_authority {l : Loaded} {toActor : String} {scope : Scope} {id : String} :
    (svc.hopToken l toActor scope id).authority = l.biscuit.authority := rfl

/-- **What `attenuate` returns**, and the calls it makes. -/
theorem attenuate_run {token : Text} {toActor : String} {scope : Scope} {tr : Trace TokenSig}
    {issued : IssuedToken Text}
    (h : Raises.Run (svc.attenuate token toActor scope) tr (.ok issued)) :
    ∃ l c id at_ eventId, isRef toActor "agent" = true ∧ load svc.lib svc.keyring token = .ok l ∧
      l.chain.depth < MAX_DELEGATION_DEPTH ∧ l.chain.delegate toActor scope = .ok c ∧
      tr = [⟨.sign, id⟩, ⟨.now, at_⟩, ⟨.uuid4, eventId⟩,
        ⟨.record (svc.tokenEvent .tokenDelegated issued "delegated" at_ eventId), .ok ()⟩] ∧
      issued =
        { token := svc.lib.toBase64 (svc.hopToken l toActor scope id)
          chain := c
          expiresAt := l.expiresAt
          revocationIds := withMandate (svc.hopToken l toActor scope id).revocationIds l.mandateId
          mandateId := l.mandateId } := by
  unfold attenuate HeadOfContext.attenuate at h
  obtain ⟨issued', tr₁, tr₂, rfl, hattenuate, h₂⟩ := Raises.run_bind_ok.mp h
  obtain ⟨_, tr₁, tr₉, rfl, href, h₆⟩ := Raises.run_bind_ok.mp hattenuate
  obtain ⟨rfl, hto⟩ := Core.run_ofHoc_ok.mp href
  obtain ⟨l, tr₁, tr₁₀, rfl, hloading, h₇⟩ := Raises.run_bind_ok.mp h₆
  obtain ⟨rfl, hload⟩ := Core.run_ofHoc_ok.mp hloading
  obtain ⟨_, tr₁, tr₁₁, rfl, hguard, h₈⟩ := Raises.run_bind_ok.mp h₇
  obtain ⟨rfl, hdepth⟩ := Core.run_ofHoc_ok.mp hguard
  obtain ⟨c, tr₁, tr₁₂, rfl, hdelegate, h₉⟩ := Raises.run_bind_ok.mp h₈
  obtain ⟨rfl, hchild⟩ := Core.run_ofHoc_ok.mp hdelegate
  obtain ⟨id, tr₁, tr₁₃, rfl, hsign, h₁₀⟩ := Raises.run_bind_ok.mp h₉
  obtain rfl := Raises.run_lift_invoke_ok.mp hsign
  obtain ⟨rfl, rfl⟩ := Raises.run_pure_ok.mp h₁₀
  -- the token is built; what remains is its event
  obtain ⟨at_, tr₁, tr₃, rfl, hat, h₃⟩ := Raises.run_bind_ok.mp h₂
  obtain rfl := Raises.run_lift_invoke_ok.mp hat
  obtain ⟨eventId, tr₁, tr₄, rfl, huuid, h₄⟩ := Raises.run_bind_ok.mp h₃
  obtain rfl := Raises.run_lift_invoke_ok.mp huuid
  obtain ⟨_, tr₁, tr₅, rfl, hrecord, h₅⟩ := Raises.run_bind_ok.mp h₄
  obtain rfl := Raises.run_invoke.mp hrecord
  obtain ⟨rfl, rfl⟩ := Raises.run_pure_ok.mp h₅
  refine ⟨l, c, id, at_, eventId, (validateRef_eq_ok.mp hto).1, hload, ?_, hchild, rfl, rfl⟩
  exact not_le.mp (raiseIf_eq_ok.mp hdepth)

end TokenService

end HeadOfContext
