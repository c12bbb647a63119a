import HeadOfContext.Core.Effects

/-!
# The collaborators of the token layer

The calls of `TokenService` and `MandateService` outside themselves: the clock,
identifiers, signatures, the revocation store, the mandate store, the engine and the
audit sink. Signing a block draws its revocation id, which is the only effect of signing
that the services see.
-/

namespace HeadOfContext

open Effects

/-! ### Mandates -/

inductive MandateStatus where
  | active | revoked | expired
  deriving DecidableEq, Repr

/-- `Mandate`: a human authorizes an agent once, the agent works alone after. -/
structure Mandate where
  mandateId : String
  subject : String
  agent : String
  scope : Scope
  createdAt : ℤ
  expiresAt : ℤ
  maxTokenTtl : ℤ
  createdBy : String
  status : MandateStatus
  revokedAt : Option ℤ
  revocationReason : Option String
  deriving DecidableEq

/-! ### Calls -/

/-- A call of the token layer. -/
inductive TokenOp where
  /-- `clock.now()`, in microseconds. -/
  | now
  /-- `uuid.uuid4().hex`. -/
  | uuid4
  /-- Sign a block: its revocation id. -/
  | sign
  /-- `revocations.is_revoked(ids)`. -/
  | isRevoked (ids : List String)
  /-- `revocations.revoke(id, reason, at)`. -/
  | revoke (id reason : String) (at_ : ℤ)
  /-- `audit.record(event)`. -/
  | record (event : AuditEvent)
  /-- `engine.check(subject, relation, obj)`. -/
  | check (subject relation obj : String)
  /-- `store.create(mandate)`. -/
  | createMandate (mandate : Mandate)
  /-- `store.get(mandate_id)`. -/
  | getMandate (mandateId : String)
  /-- `store.update(mandate)`. -/
  | updateMandate (mandate : Mandate)
  /-- `store.list_for(subject)`. -/
  | listMandates (subject : String)
  /-- `store.expire_active(now)`. -/
  | expireActive (now : ℤ)

/-- The answer to each call. -/
abbrev TokenOp.Res : TokenOp → Type
  | now => ℤ
  | uuid4 => String
  | sign => String
  | isRevoked _ => Except Exn Bool
  | revoke _ _ _ => Except Exn Unit
  | record _ => Except Exn Unit
  | check _ _ _ => Except Exn Bool
  | createMandate _ => Except Exn Unit
  | getMandate _ => Except Exn (Option Mandate)
  | updateMandate _ => Except Exn Unit
  | listMandates _ => Except Exn (List Mandate)
  | expireActive _ => Except Exn (List Mandate)

/-- The interface of the token layer. -/
abbrev TokenSig : Sig := ⟨TokenOp, TokenOp.Res⟩

/-- A method of the token layer. -/
abbrev Tokens := Raises TokenSig Exn

namespace Tokens

def now : Tokens ℤ := .lift (.invoke (S := TokenSig) .now)

def uuid4 : Tokens String := .lift (.invoke (S := TokenSig) .uuid4)

def sign : Tokens String := .lift (.invoke (S := TokenSig) .sign)

def isRevoked (ids : List String) : Tokens Bool := ⟨.invoke (S := TokenSig) (.isRevoked ids)⟩

def revoke (id reason : String) (at_ : ℤ) : Tokens Unit :=
  ⟨.invoke (S := TokenSig) (.revoke id reason at_)⟩

def record (event : AuditEvent) : Tokens Unit := ⟨.invoke (S := TokenSig) (.record event)⟩

def check (subject relation obj : String) : Tokens Bool :=
  ⟨.invoke (S := TokenSig) (.check subject relation obj)⟩

def createMandate (mandate : Mandate) : Tokens Unit :=
  ⟨.invoke (S := TokenSig) (.createMandate mandate)⟩

def getMandate (mandateId : String) : Tokens (Option Mandate) :=
  ⟨.invoke (S := TokenSig) (.getMandate mandateId)⟩

def updateMandate (mandate : Mandate) : Tokens Unit :=
  ⟨.invoke (S := TokenSig) (.updateMandate mandate)⟩

def listMandates (subject : String) : Tokens (List Mandate) :=
  ⟨.invoke (S := TokenSig) (.listMandates subject)⟩

def expireActive (now : ℤ) : Tokens (List Mandate) :=
  ⟨.invoke (S := TokenSig) (.expireActive now)⟩

end Tokens

end HeadOfContext
