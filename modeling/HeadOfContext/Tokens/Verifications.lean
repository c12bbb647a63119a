import HeadOfContext.Tokens.Layers
import HeadOfContext.Tokens.Attenuation

/-!
# Three verifications of a token

`verify`, `verify_many` and `inspect` load a token in the same way (`Holds`) and then part: the
expiry is a check of the authority block for `verify`, and a date read back from a fact for the
other two. `inspect` and `verify_many` agree about every token. `verify` agrees with them about a
request unless the token has outlived the date that its authority block states and its checks
permit the request all the same (`Outlives`); no token of the service does.
-/

namespace HeadOfContext

open Effects Biscuit Except

variable {Text : Type}

/-- The collaborators at the clock reading `now`, with a revocation store that answers by a
function of the ids, or raises. -/
def withStore (now : ℤ) (revoked : List String → Except Exn Bool) : ∀ o, TokenOp.Res o
  | .isRevoked ids => revoked ids
  | o => fixedAt now (fun _ => false) o

namespace TokenService

variable (svc : TokenService Text) (now : ℤ) (revoked : List String → Except Exn Bool)
  (token : Text) (caller : String)

/-- What `verify` comes to. -/
def verifies (operation : Kind) (resource : String) : Except Exn VerifiedToken :=
  (svc.verify token caller operation resource).result (S := TokenSig) (withStore now revoked)

/-- What `verify_many` comes to. -/
def verifiesMany (operation : Kind) (resources : List String) :
    Except Exn (VerifiedToken × List (String × Bool)) :=
  (svc.verifyMany token caller operation resources).result (S := TokenSig) (withStore now revoked)

/-- What `inspect` comes to. -/
def inspects : Except Exn VerifiedToken :=
  (svc.inspect token caller).result (S := TokenSig) (withStore now revoked)

/-- The caller holds the token, which loads so and of which no block is revoked. -/
structure Holds (l : Loaded) : Prop where
  load : load svc.lib svc.keyring token = .ok l
  fresh : revoked l.revocationIds = .ok false
  holder : caller = l.chain.actor

/-- The token is past the date that its authority block states, and its checks permit the request
all the same. -/
def Outlives (operation : Kind) (resource : String) : Prop :=
  isResourcePattern resource = true ∧ ∃ l, svc.Holds revoked token caller l ∧ l.expiresAt ≤ now ∧
    authorized l caller operation resource now = true

/-- The token is one that the service has issued, with any blocks appended to it. -/
def Issued : Prop :=
  ∃ c ttl mandateId issuedAt key id blocks, token = svc.lib.toBase64
    ((svc.rootToken c ttl mandateId issuedAt key id).append blocks)

/-- `verify` says what `verify_many` says of the resource, whatever else is asked. -/
def VerifiesAlike (operation : Kind) (resource : String) : Prop :=
  ∀ resources : List String, (∀ r ∈ resources, isResourcePattern r = true) →
    resource ∈ resources → ∀ v,
    (svc.verifies now revoked token caller operation resource = .ok v ↔
      ∃ permits, svc.verifiesMany now revoked token caller operation resources = .ok (v, permits) ∧
        permits.lookup resource = some true)

variable {svc now revoked token caller} {operation : Kind} {resource : String} {l : Loaded}

theorem Holds.isRef (h : svc.Holds revoked token caller l) : isRef caller "agent" = true := by
  rw [h.holder]
  exact l.chain.actor_isRef

/-- A token loads in one way. -/
theorem Holds.unique {l' : Loaded} (h : svc.Holds revoked token caller l)
    (h' : svc.Holds revoked token caller l') : l = l' :=
  Except.ok.inj (h.load.symm.trans h'.load)

/-! ### Each of the three -/

theorem isRevoked_ok {ids : List String} {b : Bool} :
    (isRevoked ids).result (S := TokenSig) (withStore now revoked) = .ok b ↔
      revoked ids = .ok b := by
  have hasked : (Tokens.isRevoked ids).result (S := TokenSig) (withStore now revoked) =
      revoked ids := rfl
  simp only [isRevoked, Raises.result_bind, Raises.result_attempt, hasked, ok_bind]
  rcases revoked ids with (exc | name) | answer
  · simp
  · simp
  · simp

theorem loadHeld_ok : (svc.loadHeld token caller).result (S := TokenSig) (withStore now revoked) =
    .ok l ↔ svc.Holds revoked token caller l := by
  simp only [loadHeld, Raises.result_bind, Core.result_ofHoc, bind_eq_ok, mapError_eq_ok,
    isRevoked_ok, raiseIf_eq_ok, Raises.result_pure, ok.injEq]
  constructor
  · rintro ⟨l', hload, b, hb, _, hfresh, _, hholder, rfl⟩
    rw [Bool.not_eq_true] at hfresh
    exact ⟨hload, hfresh ▸ hb, not_not.mp hholder⟩
  · intro h
    exact ⟨l, h.load, false, h.fresh, (), Bool.false_ne_true, (), not_not.mpr h.holder, rfl⟩

theorem now_ok : Tokens.now.result (S := TokenSig) (withStore now revoked) = .ok now := rfl

theorem authorized_iff : authorized l caller operation resource now = true ↔
    (authorizer caller operation resource now).authorize l.biscuit = .ok () := by
  rw [authorized]
  cases (authorizer caller operation resource now).authorize l.biscuit with
  | ok _ => simp
  | error _ => simp

/-- What `verify` checks: the authorizer knows of the expiry. -/
theorem verifies_ok {v : VerifiedToken} :
    svc.verifies now revoked token caller operation resource = .ok v ↔
      isResourcePattern resource = true ∧ ∃ l, svc.Holds revoked token caller l ∧
        authorized l caller operation resource now = true ∧ v = svc.verified token l := by
  simp only [verifies, verify, Raises.result_bind, Core.result_ofHoc, bind_eq_ok, mapError_eq_ok,
    validateRef_eq_ok, validateResourcePattern_eq_ok, loadHeld_ok, now_ok, authorizeOrRaise_eq_ok,
    Raises.result_pure, ok.injEq, authorized_iff]
  constructor
  · rintro ⟨_, _, _, ⟨hvalid, -⟩, l, hl, _, rfl, _, hauth, rfl⟩
    exact ⟨hvalid, l, hl, hauth, rfl⟩
  · rintro ⟨hvalid, l, hl, hauth, rfl⟩
    exact ⟨caller, ⟨hl.isRef, rfl⟩, resource, ⟨hvalid, rfl⟩, l, hl, now, rfl, (), hauth, rfl⟩

/-- What `inspect` checks: the date is read from the token. -/
theorem inspects_ok {v : VerifiedToken} :
    svc.inspects now revoked token caller = .ok v ↔
      ∃ l, svc.Holds revoked token caller l ∧ now < l.expiresAt ∧ v = svc.verified token l := by
  simp only [inspects, inspect, Raises.result_bind, Core.result_ofHoc, bind_eq_ok, mapError_eq_ok,
    validateRef_eq_ok, loadHeld_ok, now_ok, raiseIf_eq_ok, Raises.result_pure, ok.injEq]
  constructor
  · rintro ⟨_, _, l, hl, _, rfl, _, hfresh, rfl⟩
    exact ⟨l, hl, not_le.mp hfresh, rfl⟩
  · rintro ⟨l, hl, hfresh, rfl⟩
    exact ⟨caller, ⟨hl.isRef, rfl⟩, l, hl, now, rfl, (), not_le.mpr hfresh, rfl⟩

/-- The loop of `verify_many` asks about each resource, and keeps its first answer. -/
theorem permitsLoop_lookup (l : Loaded) (caller : String) (operation : Kind) (now : ℤ)
    (permits : List (String × Bool)) {resources : List String}
    (hvalid : ∀ r ∈ resources, isResourcePattern r = true) :
    ∃ answers, permitsLoop l caller operation now permits resources = .ok answers ∧
      ∀ r, answers.lookup r = (permits.lookup r).or
        (if r ∈ resources then some (authorized l caller operation r now) else none) := by
  -- the induction is on the resources that are left, over the answers so far
  induction resources generalizing permits with
  | nil =>
    refine ⟨permits, rfl, fun r => ?_⟩
    rw [if_neg List.not_mem_nil, Option.or_none]
  | cons resource rest ih =>
    obtain ⟨hhead, htail⟩ := List.forall_mem_cons.mp hvalid
    rw [permitsLoop]
    by_cases hseen : (permits.lookup resource).isSome = true
    · -- a duplicate: its answer is there
      rw [if_pos hseen]
      obtain ⟨answers, hloop, hlookup⟩ := ih permits htail
      refine ⟨answers, hloop, fun r => ?_⟩
      rw [hlookup]
      by_cases hr : r = resource
      · subst hr
        rw [Option.or_of_isSome hseen, Option.or_of_isSome hseen]
      · simp only [List.mem_cons, hr, false_or]
    · rw [if_neg hseen, validateResourcePattern_eq_ok.mpr ⟨hhead, rfl⟩]
      obtain ⟨answers, hloop, hlookup⟩ :=
        ih (permits ++ [(resource, authorized l caller operation resource now)]) htail
      refine ⟨answers, hloop, fun r => ?_⟩
      rw [hlookup, List.lookup_append]
      by_cases hr : r = resource
      · subst hr
        rw [if_pos List.mem_cons_self, List.lookup_cons_self,
          Option.not_isSome_iff_eq_none.mp hseen]
        rfl
      · rw [List.lookup_cons, beq_false_of_ne hr]
        simp only [List.mem_cons, hr, false_or, List.lookup_nil, Option.or_none]

/-- What `verify_many` checks, and its answer for each resource. -/
theorem verifiesMany_ok {resources : List String} {v : VerifiedToken}
    {permits : List (String × Bool)} :
    svc.verifiesMany now revoked token caller operation resources = .ok (v, permits) ↔
      ∃ l, svc.Holds revoked token caller l ∧ now < l.expiresAt ∧ v = svc.verified token l ∧
        permitsLoop l caller operation now [] resources = .ok permits := by
  simp only [verifiesMany, verifyMany, Raises.result_bind, Core.result_ofHoc, bind_eq_ok,
    mapError_eq_ok, validateRef_eq_ok, loadHeld_ok, now_ok, raiseIf_eq_ok, Raises.result_pure,
    ok.injEq, Prod.mk.injEq]
  constructor
  · rintro ⟨_, _, l, hl, _, rfl, _, hfresh, _, hloop, rfl, rfl⟩
    exact ⟨l, hl, not_le.mp hfresh, rfl, hloop⟩
  · rintro ⟨l, hl, hfresh, rfl, hloop⟩
    exact ⟨caller, ⟨hl.isRef, rfl⟩, l, hl, now, rfl, (), not_le.mpr hfresh, permits, hloop,
      rfl, rfl⟩

/-! ### Agreement -/

/-- **`inspect` and `verify_many` agree.** -/
theorem inspects_iff {resources : List String} {v : VerifiedToken}
    (hvalid : ∀ r ∈ resources, isResourcePattern r = true) :
    svc.inspects now revoked token caller = .ok v ↔
      ∃ permits, svc.verifiesMany now revoked token caller operation resources =
        .ok (v, permits) := by
  rw [inspects_ok]
  constructor
  · rintro ⟨l, hl, hfresh, hv⟩
    obtain ⟨permits, hloop, -⟩ := permitsLoop_lookup l caller operation now [] hvalid
    exact ⟨permits, verifiesMany_ok.mpr ⟨l, hl, hfresh, hv, hloop⟩⟩
  · rintro ⟨permits, hmany⟩
    obtain ⟨l, hl, hfresh, hv, -⟩ := verifiesMany_ok.mp hmany
    exact ⟨l, hl, hfresh, hv⟩

/-- `verify_many` maps a resource to True where the token is not past its date and its checks
permit the request; nothing else that is asked matters. -/
theorem verifiesMany_true_iff {resources : List String} {v : VerifiedToken}
    (hvalid : ∀ r ∈ resources, isResourcePattern r = true) (hmem : resource ∈ resources) :
    (∃ permits, svc.verifiesMany now revoked token caller operation resources = .ok (v, permits) ∧
        permits.lookup resource = some true) ↔
      ∃ l, svc.Holds revoked token caller l ∧ now < l.expiresAt ∧
        authorized l caller operation resource now = true ∧ v = svc.verified token l := by
  have hanswer : ∀ {l : Loaded} {permits : List (String × Bool)},
      permitsLoop l caller operation now [] resources = .ok permits →
      permits.lookup resource = some (authorized l caller operation resource now) := by
    intro l permits hloop
    obtain ⟨answers, hanswers, hlookup⟩ := permitsLoop_lookup l caller operation now [] hvalid
    obtain rfl : answers = permits := Except.ok.inj (hanswers.symm.trans hloop)
    rw [hlookup, if_pos hmem]
    rfl
  constructor
  · rintro ⟨permits, hmany, htrue⟩
    obtain ⟨l, hl, hfresh, hv, hloop⟩ := verifiesMany_ok.mp hmany
    exact ⟨l, hl, hfresh, Option.some.inj ((hanswer hloop).symm.trans htrue), hv⟩
  · rintro ⟨l, hl, hfresh, hauth, hv⟩
    obtain ⟨permits, hloop, -⟩ := permitsLoop_lookup l caller operation now [] hvalid
    refine ⟨permits, verifiesMany_ok.mpr ⟨l, hl, hfresh, hv, hloop⟩, ?_⟩
    rw [hanswer hloop, hauth]

/-- **`verify` agrees unless the token has outlived its date.** -/
theorem verifiesAlike_iff : svc.VerifiesAlike now revoked token caller operation resource ↔
    ¬ svc.Outlives now revoked token caller operation resource := by
  constructor
  · rintro halike ⟨hvalid, l, hl, hexpired, hauth⟩
    have hlist : ∀ r ∈ [resource], isResourcePattern r = true := by
      intro r hr
      rw [List.mem_singleton.mp hr]
      exact hvalid
    have hmem : resource ∈ [resource] := List.mem_singleton.mpr rfl
    have hverifies := verifies_ok.mpr ⟨hvalid, l, hl, hauth, rfl⟩
    obtain ⟨l', hl', hfresh, -, -⟩ :=
      (verifiesMany_true_iff hlist hmem).mp ((halike [resource] hlist hmem _).mp hverifies)
    obtain rfl := hl.unique hl'
    exact absurd hexpired (not_le.mpr hfresh)
  · intro houtlives resources hvalid hmem v
    rw [verifies_ok, verifiesMany_true_iff hvalid hmem]
    constructor
    · rintro ⟨hresource, l, hl, hauth, hv⟩
      refine ⟨l, hl, ?_, hauth, hv⟩
      by_contra hexpired
      exact houtlives ⟨hresource, l, hl, not_lt.mp hexpired, hauth⟩
    · rintro ⟨l, hl, -, hauth, hv⟩
      exact ⟨hvalid resource hmem, l, hl, hauth, hv⟩

/-! ### The tokens of the service -/

/-- **The checks of an issued token know of its date**: its authority block carries the check. -/
theorem Issued.authorized_lt (h : svc.Issued token) (hload : load svc.lib svc.keyring token = .ok l)
    (hvalid : isResourcePattern resource = true)
    (hauth : authorized l caller operation resource now = true) : now < l.expiresAt := by
  obtain ⟨c, ttl, mandateId, issuedAt, key, id, blocks, rfl⟩ := h
  obtain ⟨-, authority, mandate, root, chain, hread, -, -, -, rfl⟩ :=
    loadBiscuit_eq_ok.mp (load_toBase64.mp hload).2
  have hauthority : ((svc.rootToken c ttl mandateId issuedAt key id).append blocks).authority =
      (authorityBuilder c.subject c.actor c.scope issuedAt (issuedAt + ttlOr ttl svc.ttl)
        mandateId).facts := rfl
  obtain ⟨-, hchecks⟩ := Authorizer.authorize_eq_ok.mp (authorized_iff.mp hauth)
  have hcheck := hchecks _ (List.mem_append_left _ List.mem_cons_self)
  let target : Capability := ⟨operation, resource, hvalid⟩
  have hdates : now / 1000000 < (issuedAt + ttlOr ttl svc.ttl) / 1000000 :=
    (expiryCheck_holds target hauthority).mp hcheck
  rw [readAuthority_built svc.lib hauthority] at hread
  obtain rfl := Except.ok.inj hread
  dsimp only
  omega

theorem Issued.not_outlives (h : svc.Issued token) :
    ¬ svc.Outlives now revoked token caller operation resource := by
  rintro ⟨hvalid, l, hl, hexpired, hauth⟩
  exact absurd (h.authorized_lt hl.load hvalid hauth) (not_lt.mpr hexpired)

/-- **The three verifications agree** about a token, `verify` exactly when the token has not
outlived its date; in particular about every token that the service has issued. -/
theorem verifications_agree (svc : TokenService Text) (now : ℤ)
    (revoked : List String → Except Exn Bool) (token : Text) (caller : String)
    (operation : Kind) :
    (∀ resources : List String, (∀ r ∈ resources, isResourcePattern r = true) →
      ∀ v, svc.inspects now revoked token caller = .ok v ↔
        ∃ permits, svc.verifiesMany now revoked token caller operation resources =
          .ok (v, permits)) ∧
    ∀ resource, (svc.VerifiesAlike now revoked token caller operation resource ↔
        ¬ svc.Outlives now revoked token caller operation resource) ∧
      (svc.Issued token → svc.VerifiesAlike now revoked token caller operation resource) :=
  ⟨fun _ hvalid _ => inspects_iff hvalid,
    fun _ => ⟨verifiesAlike_iff, fun h => verifiesAlike_iff.mpr h.not_outlives⟩⟩

/-- The reader's token, and a list of resources with a duplicate. -/
theorem verifications_agree_reader :
    (∀ v, oneKey.inspects 0 (fun _ => .ok false) readerToken "agent:a" = .ok v ↔
      ∃ permits, oneKey.verifiesMany 0 (fun _ => .ok false) readerToken "agent:a" .read
        ["doc:1", "doc:2", "doc:1"] = .ok (v, permits)) ∧
      oneKey.VerifiesAlike 0 (fun _ => .ok false) readerToken "agent:a" .read "doc:1" := by
  have hagree := verifications_agree oneKey 0 (fun _ => .ok false) readerToken "agent:a" .read
  refine ⟨hagree.1 _ ?_, (hagree.2 "doc:1").2 ⟨.aliceReader, none, none, 0, [], "", [], rfl⟩⟩
  decide

/-- The reader's token without the check of its authority block. -/
def undatedToken : Biscuit := { readerToken with authorityChecks := [] }

/-- An hour after the epoch `verify` accepts the undated token, which `verify_many` and `inspect`
take for expired. -/
theorem undated_disagrees :
    (oneKey.verifies 3600000000 (fun _ => .ok false) undatedToken "agent:a" .read "doc:1").returns
        (fun _ => true) = true ∧
      ¬ oneKey.VerifiesAlike 3600000000 (fun _ => .ok false) undatedToken "agent:a" .read
        "doc:1" := by
  have haccepted : (oneKey.verifies 3600000000 (fun _ => .ok false) undatedToken "agent:a" .read
      "doc:1").returns (fun _ => true) = true := by
    decide +kernel
  have hrefused : (oneKey.verifiesMany 3600000000 (fun _ => .ok false) undatedToken "agent:a" .read
      ["doc:1"]).returns (fun _ => true) = false := by
    decide +kernel
  refine ⟨haccepted, fun halike => ?_⟩
  obtain ⟨v, hv, -⟩ := Except.returns_iff.mp haccepted
  obtain ⟨permits, hmany, -⟩ := (halike ["doc:1"] (by decide) List.mem_cons_self v).mp hv
  rw [hmany] at hrefused
  exact absurd hrefused (by simp [Except.returns])

end TokenService

end HeadOfContext
