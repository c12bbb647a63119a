import HeadOfContext.Tokens.Datalog
import HeadOfContext.Tokens.Effects

/-!
# Issue, attenuate, verify and revoke tokens

`load` decodes a token, reads its authority block and replays the trail of its appended
blocks through `PrincipalChain.delegate`. `TokenService` is built on it.
-/

namespace HeadOfContext

open Effects Biscuit Except PyText

/-! ### Keys -/

/-- `KeyRing`: the latest entry of a key id is the one that counts. -/
structure KeyRing where
  publicKeys : List (ℤ × PublicKey)
  privateKeys : List (ℤ × PrivateKey)

namespace KeyRing

/-- `KeyRing()`. -/
def empty : KeyRing := ⟨[], []⟩

/-- `add_private_key`. -/
def addPrivateKey {Text : Type} (lib : BiscuitLib Text) (ring : KeyRing) (keyId : ℤ)
    (key : PrivateKey) : KeyRing :=
  ⟨(keyId, lib.publicKey key) :: ring.publicKeys, (keyId, key) :: ring.privateKeys⟩

/-- `add_public_key`. -/
def addPublicKey (ring : KeyRing) (keyId : ℤ) (key : PublicKey) : KeyRing :=
  { ring with publicKeys := (keyId, key) :: ring.publicKeys }

/-- `public_key`. -/
def publicKey (ring : KeyRing) (keyId : Option ℤ) : Except HocError PublicKey :=
  match keyId.bind (ring.publicKeys.lookup ·) with
  | some key => .ok key
  | none => .error (HocClass.tokenInvalid.error ("unknown root key id " ++
      (match keyId with
        | none => "None"
        | some n => String.ofList (Decimal.intText n))))

/-- `private_key`. -/
def privateKey (ring : KeyRing) (keyId : ℤ) : Except HocError PrivateKey :=
  match ring.privateKeys.lookup keyId with
  | some key => .ok key
  | none => .error (HocClass.tokenInvalid.error
      ("no private key for key id " ++ String.ofList (Decimal.intText keyId)))

end KeyRing

/-! ### Tokens -/

/-- `IssuedToken`. -/
structure IssuedToken (Text : Type) where
  token : Text
  chain : PrincipalChain
  expiresAt : ℤ
  revocationIds : List String
  mandateId : Option String

/-- `VerifiedToken`. -/
structure VerifiedToken where
  chain : PrincipalChain
  expiresAt : ℤ
  revocationIds : List String
  fingerprint : String
  mandateId : Option String

/-- `_Loaded`. -/
structure Loaded where
  biscuit : Biscuit
  chain : PrincipalChain
  expiresAt : ℤ
  mandateId : Option String

/-- `mandate_revocation_id`. -/
def mandateRevocationId (mandateId : String) : String := "mandate:" ++ mandateId

/-- The block ids, and the id of the mandate if there is one. -/
def withMandate (ids : List String) : Option String → List String
  | none => ids
  | some id => ids ++ [mandateRevocationId id]

namespace Loaded

/-- Block ids plus the mandate's own id, so one revocation covers every derived token. -/
def revocationIds (l : Loaded) : List String := withMandate l.biscuit.revocationIds l.mandateId

/-- The id of this token's last block. -/
def ownRevocationId (l : Loaded) : String :=
  l.biscuit.revocationIds.getLast (List.cons_ne_nil _ _)

end Loaded

/-! ### Loading -/

section Load

variable {Text : Type} (lib : BiscuitLib Text)

/-- `except InvariantViolation as exc: raise TokenInvalid(…, reason=exc.reason)`. -/
def trailError (e : HocError) : HocError :=
  if e.cls.isInvariantViolation then
    HocClass.tokenInvalid.errorWith ("delegation trail violates an invariant: " ++ e.message)
      e.reason
  else e

/-- `except TokenInvalid: raise`, and anything else is a token that could not be read. -/
def factsError (e : HocError) : HocError :=
  if e.cls.isTokenInvalid then e else HocClass.tokenInvalid.error "token facts could not be read"

/-- The loop of `load` over the appended blocks: opaque blocks restrict, and never change
the chain. -/
def followTrail : PrincipalChain → List Block → Except HocError PrincipalChain
  | chain, [] => .ok chain
  | chain, block :: rest => do
    let parsed ← parseTrailBlock block.source
    match parsed with
    | none => followTrail chain rest
    | some ((fromActor, toActor), declared) =>
      raiseIf (fromActor ≠ chain.actor)
        (HocClass.tokenInvalid.error "delegation trail is not contiguous")
      let chain ← chain.delegate toActor declared
      followTrail chain rest

/-- The part of `load` after the signatures were verified. -/
def loadBiscuit (biscuit : Biscuit) : Except HocError Loaded := do
  raiseIf (biscuit.blockCount - 1 > MAX_DELEGATION_DEPTH) (HocClass.tokenInvalid.error
    ("delegation depth " ++ String.ofList (Decimal.natText (biscuit.blockCount - 1)) ++
      " exceeds 8"))
  let (authority, mandateId) ← (do
    let authority ← readAuthority lib biscuit
    let mandateId ← readMandate lib biscuit
    return (authority, mandateId) : Except HocError _).mapError factsError
  let chain ← (do
    let chain ← PrincipalChain.root authority.subject authority.actor authority.scope
    followTrail chain biscuit.blocks : Except HocError _).mapError trailError
  return ⟨biscuit, chain, authority.expiresAt, mandateId⟩

/-- `load`. -/
def load (keyring : KeyRing) (token : Text) : Except HocError Loaded := do
  match lib.rootKeyId token with
  | none => .error (HocClass.tokenInvalid.error "token is not a biscuit")
  | some keyId => do
    let key ← keyring.publicKey keyId
    match lib.fromBase64 token key with
    | none => .error (HocClass.tokenInvalid.error "signature verification failed")
    | some biscuit => loadBiscuit lib biscuit

/-- Offline delegation: needs the public key only. Raises `ScopeEscalation` on
widening. -/
def attenuate (keyring : KeyRing) (token : Text) (toActor : String) (scope : Scope) :
    Tokens (IssuedToken Text) := do
  let _ ← Core.ofHoc (validateRef toActor "agent")
  let loaded ← Core.ofHoc (load lib keyring token)
  Core.ofHoc (raiseIf (loaded.chain.depth ≥ MAX_DELEGATION_DEPTH)
    (HocClass.tokenInvalid.error "delegation depth would exceed 8"))
  let childChain ← Core.ofHoc (loaded.chain.delegate toActor scope)
  let id ← Tokens.sign
  let block := (attenuationBuilder loaded.chain.actor toActor scope).build lib id
  let child := loaded.biscuit.appendBlock block
  return {
    token := lib.toBase64 child
    chain := childChain
    expiresAt := loaded.expiresAt
    revocationIds := withMandate child.revocationIds loaded.mandateId
    mandateId := loaded.mandateId }

end Load

/-! ### The service -/

/-- `TokenService`: its configuration, the printing of dates in audit events and
`fingerprint`. -/
structure TokenService (Text : Type) where
  lib : BiscuitLib Text
  isoformat : Datetime → PyStr
  fingerprint : Text → String
  keyring : KeyRing
  keyId : ℤ
  ttl : ℤ

namespace TokenService

variable {Text : Type} (svc : TokenService Text)

/-- `_token_event`, at the reading `at_` of the clock, with the event id drawn for it. -/
def tokenEvent (kind : EventKind) (issued : IssuedToken Text) (outcome : String) (at_ : ℤ)
    (eventId : String) : AuditEvent where
  kind := kind
  timestamp := .utc at_
  subject := issued.chain.subject
  actor := issued.chain.actor
  delegationDepth := issued.chain.depth
  action := ("token:" ++ outcome : String)
  resource := issued.chain.actor
  outcome := outcome
  reason := .str (PyStr.ofString "expires_at=" ++ svc.isoformat (.utc issued.expiresAt) ++
    (match issued.mandateId with
      | none => []
      | some id => if id = "" then [] else PyStr.ofString (" mandate=" ++ id)))
  engineLatencyMs := zeroMs
  tokenFingerprint := svc.fingerprint issued.token
  argsHash := .null
  decisionId := .null
  eventId := eventId

/-- `x or y` for a duration: a zero duration is false. -/
def ttlOr (ttl : Option ℤ) (fallback : ℤ) : ℤ :=
  match ttl with
  | none => fallback
  | some t => if t = 0 then fallback else t

/-- The authorizer of `verify`: the request as facts, and the policies. -/
def authorizer (caller : String) (operation : Kind) (resource : String) (now : ℤ) : Authorizer where
  facts := [⟨"caller", [.str caller]⟩, ⟨"operation", [.str operation.str]⟩,
    ⟨"resource", [.str resource]⟩, ⟨"time", [.ofInstant now]⟩]
  policies := authorizerPolicies

/-- `issue`. -/
def issue (chain : PrincipalChain) (ttl : Option ℤ) (mandateId : Option String) :
    Tokens (IssuedToken Text) := do
  Core.ofHoc (raiseIf (chain.depth ≠ 0) (HocClass.tokenInvalid.error
    "only root chains are issued; use attenuate for delegation"))
  let issuedAt ← Tokens.now
  let expiresAt := issuedAt + ttlOr ttl svc.ttl
  let builder := authorityBuilder chain.subject chain.actor chain.scope issuedAt expiresAt mandateId
  let key ← Core.ofHoc (svc.keyring.privateKey svc.keyId)
  let id ← Tokens.sign
  let biscuit := { builder with rootKeyId := some svc.keyId }.build svc.lib key id
  let issued : IssuedToken Text :=
    { token := svc.lib.toBase64 biscuit
      chain := chain
      expiresAt := expiresAt
      revocationIds := withMandate biscuit.revocationIds mandateId
      mandateId := mandateId }
  let at_ ← Tokens.now
  let eventId ← Tokens.uuid4
  Tokens.record (svc.tokenEvent .tokenIssued issued "issued" at_ eventId)
  return issued

/-- `attenuate`, the method of the service. -/
def attenuate (token : Text) (toActor : String) (scope : Scope) : Tokens (IssuedToken Text) := do
  let issued ← HeadOfContext.attenuate svc.lib svc.keyring token toActor scope
  let at_ ← Tokens.now
  let eventId ← Tokens.uuid4
  Tokens.record (svc.tokenEvent .tokenDelegated issued "delegated" at_ eventId)
  return issued

/-- `is_revoked`: raises if the store cannot answer. -/
def isRevoked (ids : List String) : Tokens Bool := do
  let answer ← (Tokens.isRevoked ids).attempt
  match answer with
  | .ok revoked => return revoked
  | .error (.hoc exc) => .raise (.hoc exc)
  | .error (.other _) =>
    .raise (.hoc (HocClass.tokenInvalid.error "revocation store unavailable"))

/-- Load the token, and refuse it if a block is revoked or `caller` is not the last
actor of its chain: the common part of `verify`, `verify_many` and `inspect`. -/
def loadHeld (token : Text) (caller : String) : Tokens Loaded := do
  let loaded ← Core.ofHoc (load svc.lib svc.keyring token)
  let revoked ← isRevoked loaded.revocationIds
  Core.ofHoc (raiseIf (revoked = true)
    (HocClass.tokenRevoked.error "token contains a revoked block"))
  Core.ofHoc (raiseIf (caller ≠ loaded.chain.actor) (HocClass.tokenInvalid.error
    ("caller " ++ quoted caller ++ " is not the token holder")))
  return loaded

/-- The answer of `verify`, `verify_many` and `inspect` for a loaded token. -/
def verified (token : Text) (loaded : Loaded) : VerifiedToken where
  chain := loaded.chain
  expiresAt := loaded.expiresAt
  revocationIds := loaded.revocationIds
  fingerprint := svc.fingerprint token
  mandateId := loaded.mandateId

/-- `authorize()` and the error that `verify` makes of a refusal. -/
def authorizeOrRaise (loaded : Loaded) (caller : String) (operation : Kind) (resource : String)
    (now : ℤ) : Except HocError Unit :=
  match (authorizer caller operation resource now).authorize loaded.biscuit with
  | .ok () => .ok ()
  | .error exc =>
    if exc.mentions "check if time" then .error (HocClass.tokenInvalid.error "token expired")
    else .error (HocClass.tokenInvalid.error "operation not permitted by token checks")

/-- `verify`. -/
def verify (token : Text) (caller : String) (operation : Kind) (resource : String) :
    Tokens VerifiedToken := do
  let _ ← Core.ofHoc (validateRef caller "agent")
  let _ ← Core.ofHoc (validateResourcePattern resource)
  let loaded ← svc.loadHeld token caller
  let now ← Tokens.now
  Core.ofHoc (authorizeOrRaise loaded caller operation resource now)
  return svc.verified token loaded

/-- `_authorized`. -/
def authorized (loaded : Loaded) (caller : String) (operation : Kind) (resource : String)
    (now : ℤ) : Bool :=
  match (authorizer caller operation resource now).authorize loaded.biscuit with
  | .ok () => true
  | .error _ => false

/-- The loop of `verify_many`: each distinct resource once. -/
def permitsLoop (loaded : Loaded) (caller : String) (operation : Kind) (now : ℤ) :
    List (String × Bool) → List String → Except HocError (List (String × Bool))
  | permits, [] => .ok permits
  | permits, resource :: rest =>
    if (permits.lookup resource).isSome then permitsLoop loaded caller operation now permits rest
    else do
      let _ ← validateResourcePattern resource
      permitsLoop loaded caller operation now
        (permits ++ [(resource, authorized loaded caller operation resource now)]) rest

/-- `verify_many`. -/
def verifyMany (token : Text) (caller : String) (operation : Kind) (resources : List String) :
    Tokens (VerifiedToken × List (String × Bool)) := do
  let _ ← Core.ofHoc (validateRef caller "agent")
  let loaded ← svc.loadHeld token caller
  let now ← Tokens.now
  Core.ofHoc (raiseIf (now ≥ loaded.expiresAt) (HocClass.tokenInvalid.error "token expired"))
  let permits ← Core.ofHoc (permitsLoop loaded caller operation now [] resources)
  return (svc.verified token loaded, permits)

/-- `inspect`: signature, revocation, expiry and holder binding, without an operation. -/
def inspect (token : Text) (caller : String) : Tokens VerifiedToken := do
  let _ ← Core.ofHoc (validateRef caller "agent")
  let loaded ← svc.loadHeld token caller
  let now ← Tokens.now
  Core.ofHoc (raiseIf (now ≥ loaded.expiresAt) (HocClass.tokenInvalid.error "token expired"))
  return svc.verified token loaded

/-- The event of `revoke_id`. -/
def revokedEvent (revocationId reason : String) (now : ℤ) (eventId : String) : AuditEvent where
  kind := .tokenRevoked
  timestamp := .utc now
  subject := "-"
  actor := "-"
  delegationDepth := 0
  action := "token:revoke"
  resource := ("revocation:" ++ revocationId : String)
  outcome := "revoked"
  reason := reason
  engineLatencyMs := zeroMs
  tokenFingerprint := .null
  argsHash := .null
  decisionId := .null
  eventId := eventId

/-- `revoke_id`. -/
def revokeId (revocationId reason : String) : Tokens Unit := do
  let now ← Tokens.now
  Tokens.revoke revocationId reason now
  let eventId ← Tokens.uuid4
  Tokens.record (revokedEvent revocationId reason now eventId)

/-- `revoke`: only the token's own last block is revoked, never a mandate. -/
def revoke (token : Text) (caller reason : String) : Tokens String := do
  let loaded ← Core.ofHoc (load svc.lib svc.keyring token)
  Core.ofHoc (raiseIf (caller ≠ loaded.chain.actor) (HocClass.tokenInvalid.error
    ("caller " ++ quoted caller ++ " is not the token holder")))
  revokeId loaded.ownRevocationId reason
  return loaded.ownRevocationId

end TokenService

end HeadOfContext
