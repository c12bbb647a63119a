import HeadOfContext.Core.Events
import HeadOfContext.Framework.JsonRead
import Mathlib.Data.Int.ConditionallyCompleteOrder
import Mathlib.Order.Monotone.Basic

/-!
# The OIDC provider

`OidcProvider` verifies user tokens with the key set of an issuer, which it keeps for a while. It
asks for the keys when it has none that are fresh, and once more when a token fails with those it
has, but then at most once in `jwks_min_refresh`.

The endpoints, the library that decodes tokens and the clock are parameters: any sequence of
answers, and readings of a clock that does not go back.
-/

namespace HeadOfContext

/-- Why the keys are asked for: there are no fresh ones, or a token failed with those there are. -/
inductive JwksRequest where
  | needed | forced
  deriving DecidableEq

/-- What the provider keeps, and, which the code does not keep, how often it has read the clock
and asked for the metadata, and its requests for the keys. -/
structure OidcState (K : Type) where
  metadata : Option String
  keys : Option K
  keysFetchedAt : Option ℤ
  lastForcedAt : Option ℤ
  readings : ℕ
  discoveries : ℕ
  requests : List JwksRequest

/-- The configuration, with the answers to each request in turn and the readings of the clock, in
microseconds. Of an answer to the discovery request the `jwks_uri` is kept. `decode` is
`jwt.decode`, and `registry` what `JWTClaimsRegistry.validate` accepts: the issuer and the end of
life of the claims. -/
structure OidcProvider (K : Type) where
  subjectClaim : PyStr
  groupsClaim : PyStr
  jwksTtl : ℤ
  jwksMinRefresh : ℤ
  groupName : PyStr → PyStr
  clock : ℕ → ℤ
  monotonic : Monotone clock
  discovery : ℕ → Except HocError String
  jwks : ℕ → Option K
  decode : String → K → Option Json
  registry : Json → ℤ → Except String (String × ℤ)

/-- `VerifiedIdentity`. -/
structure VerifiedIdentity where
  subject : String
  issuer : String
  groups : List String
  expiresAt : ℤ
  claims : Json

/-- `KeycloakProvider._group_name`. -/
def keycloakGroupName (raw : PyStr) : PyStr := raw.dropWhile (· == CodePoint.ofChar '/')

namespace OidcProvider

variable {K : Type} (self : OidcProvider K)

/-- `self._now()`. -/
def now (s : OidcState K) : ℤ × OidcState K :=
  (self.clock s.readings, { s with readings := s.readings + 1 })

/-- `_decode`. -/
def decodeToken (token : String) (keys : K) : Except HocError Json :=
  match self.decode token keys with
  | none => .error (HocClass.identityError.error "token signature or structure invalid")
  | some claims => .ok claims

/-- `_subject`. -/
def subject (claims : Json) : Except HocError String :=
  let first := (claims.get self.subjectClaim).getD .null
  let raw := if isFalsy first then (claims.item "sub").getD .null else first
  match raw with
  | .str raw =>
    if raw = [] then .error (HocClass.identityError.error "token has no usable subject claim")
    else match (PyStr.text raw).map fun raw => validateRef ("user:" ++ raw) "user" with
      | some (.ok user) => .ok user
      | _ => .error (HocClass.identityError.error "subject claim contains unsupported characters")
  | _ => .error (HocClass.identityError.error "token has no usable subject claim")

/-- The group of an item of the groups claim, unless the item is ignored. -/
def groupOf : Json → Option String
  | .str item =>
    match (PyStr.text (self.groupName item)).map fun name =>
      validateRef ("group:" ++ name) "group" with
    | some (.ok group) => some group
    | _ => none
  | _ => none

/-- `_groups`. -/
def groups (claims : Json) : List String :=
  match claims.get self.groupsClaim with
  | some (.arr items) => items.filterMap self.groupOf
  | _ => []

/-- What `verify_user_token` does with the claims of a decoded token. -/
def identity (claims : Json) (s : OidcState K) : Except HocError VerifiedIdentity × OidcState K :=
  let (now, s) := self.now s
  match self.registry claims (now / 1000000) with
  | .error exc => (.error (HocClass.identityError.error ("claim validation failed: " ++ exc)), s)
  | .ok (issuer, exp) =>
    match self.subject claims with
    | .error exc => (.error exc, s)
    | .ok subject => (.ok ⟨subject, issuer, self.groups claims, exp, claims⟩, s)

/-- `_discover`. -/
def discover (s : OidcState K) : Except HocError String × OidcState K :=
  match s.metadata with
  | some uri => (.ok uri, s)
  | none =>
    let answer := self.discovery s.discoveries
    let s := { s with discoveries := s.discoveries + 1 }
    match answer with
    | .error exc => (.error exc, s)
    | .ok uri => (.ok uri, { s with metadata := some uri })

/-- `_may_force_refresh`. -/
def mayForceRefresh (s : OidcState K) : Bool × OidcState K :=
  match s.lastForcedAt with
  | none => (true, s)
  | some last =>
    let (now, s) := self.now s
    (decide (self.jwksMinRefresh ≤ now - last), s)

/-- `fresh` of `_key_set`. -/
def fresh (s : OidcState K) : Bool × OidcState K :=
  match s.keys, s.keysFetchedAt with
  | some _, some fetched =>
    let (now, s) := self.now s
    (decide (now - fetched < self.jwksTtl), s)
  | _, _ => (false, s)

/-- The second half of `_key_set`, which asks for the keys. -/
def fetch (why : JwksRequest) (s : OidcState K) : Except HocError K × OidcState K :=
  match self.discover s with
  | (.error exc, s) => (.error exc, s)
  | (.ok _, s) =>
    let answer := self.jwks s.requests.length
    let s := { s with requests := s.requests ++ [why] }
    match answer with
    | none => (.error (HocClass.identityError.error "JWKS fetch failed"), s)
    | some keys =>
      let (now, s) := self.now s
      (.ok keys, { s with keys := some keys, keysFetchedAt := some now })

/-- `_key_set`. -/
def keySet (force : Bool) (s : OidcState K) : Except HocError K × OidcState K :=
  match self.fresh s with
  | (fresh, s) =>
    match s.keys with
    | some keys =>
      if fresh && !force then (.ok keys, s) else self.fetch (if force then .forced else .needed) s
    | none => self.fetch (if force then .forced else .needed) s

/-- `verify_user_token`. -/
def verifyUserToken (token : String) (s : OidcState K) :
    Except HocError VerifiedIdentity × OidcState K :=
  match self.keySet false s with
  | (.error exc, s) => (.error exc, s)
  | (.ok keys, s) =>
    match self.decodeToken token keys with
    | .ok claims => self.identity claims s
    | .error exc =>
      match self.mayForceRefresh s with
      | (false, s) => (.error exc, s)
      | (true, s) =>
        let (now, s) := self.now s
        match self.keySet true { s with lastForcedAt := some now } with
        | (.error exc, s) => (.error exc, s)
        | (.ok keys, s) =>
          match self.decodeToken token keys with
          | .error exc => (.error exc, s)
          | .ok claims => self.identity claims s

/-- The state after the calls, one after the other. -/
def after (tokens : List String) (s : OidcState K) : OidcState K :=
  tokens.foldl (fun s token => (self.verifyUserToken token s).2) s

end OidcProvider

end HeadOfContext
