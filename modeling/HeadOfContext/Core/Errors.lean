import Mathlib.Data.String.Basic

/-!
# Typed errors

Every error of the package carries a class, a message and a short machine-readable
`reason`, the one used in audit events. Handlers read the class (`except
InvariantViolation`), so the subclass relation is part of the model; exceptions that
are not errors of the package are kept by name.
-/

namespace HeadOfContext

/-- The classes of `core/errors.py`, the store errors that derive from `Unavailable`, and
the error of approval channels. -/
inductive HocClass where
  | hocError | unavailable | configurationError | invariantViolation | scopeEscalation
  | invalidResource | engineUnavailable | connectorStale | tokenInvalid | tokenRevoked
  | identityError | auditUnavailable | memoryDenied | mandateDenied | actionDenied
  | approvalError | approvalChannelError | approvalStoreUnavailable | mandateStoreUnavailable
  | ledgerUnavailable | connectorStateUnavailable | revocationStoreUnavailable
  deriving DecidableEq, Repr

namespace HocClass

/-- The `reason` attribute of the class. -/
def reason : HocClass → String
  | hocError => "error"
  | unavailable => "unavailable"
  | configurationError => "configuration_error"
  | invariantViolation => "invariant_violation"
  | scopeEscalation => "scope_escalation"
  | invalidResource => "invalid_resource"
  | engineUnavailable => "engine_unavailable"
  | connectorStale => "connector_stale"
  | tokenInvalid => "token_invalid"
  | tokenRevoked => "token_revoked"
  | identityError => "identity_error"
  | auditUnavailable => "audit_unavailable"
  | memoryDenied => "memory_denied"
  | mandateDenied => "mandate_denied"
  | actionDenied => "action_denied"
  | approvalError => "approval_error"
  | approvalChannelError => "approval_channel_failed"
  | approvalStoreUnavailable => "approval_store_unavailable"
  | mandateStoreUnavailable => "mandate_store_unavailable"
  | ledgerUnavailable => "ledger_unavailable"
  | connectorStateUnavailable => "connector_state_unavailable"
  | revocationStoreUnavailable => "revocation_store_unavailable"

/-- `isinstance(exc, InvariantViolation)`. -/
def isInvariantViolation : HocClass → Bool
  | invariantViolation | scopeEscalation | invalidResource => true
  | _ => false

/-- `isinstance(exc, TokenInvalid)`. -/
def isTokenInvalid : HocClass → Bool
  | tokenInvalid | tokenRevoked => true
  | _ => false

end HocClass

/-- An instance of `HocError`. -/
structure HocError where
  cls : HocClass
  message : String
  reason : String
  deriving DecidableEq, Repr

/-- `cls(message)`: an empty message is replaced by the reason of the class. -/
def HocClass.error (cls : HocClass) (message : String) : HocError :=
  ⟨cls, if message = "" then cls.reason else message, cls.reason⟩

/-- `cls(message, reason=reason)`. -/
def HocClass.errorWith (cls : HocClass) (message reason : String) : HocError :=
  ⟨cls, if message = "" then cls.reason else message, reason⟩

/-- Anything a handler of `Exception` may meet. -/
inductive Exn where
  /-- An error of the package. -/
  | hoc (e : HocError)
  /-- Any other exception, by the name of its class. -/
  | other (name : String)
  deriving DecidableEq, Repr

@[simp] theorem HocClass.error_cls (cls : HocClass) (m : String) : (cls.error m).cls = cls := rfl

@[simp] theorem HocClass.error_reason (cls : HocClass) (m : String) :
    (cls.error m).reason = cls.reason := rfl

@[simp] theorem HocClass.errorWith_cls (cls : HocClass) (m r : String) :
    (cls.errorWith m r).cls = cls := rfl

@[simp] theorem HocClass.errorWith_reason (cls : HocClass) (m r : String) :
    (cls.errorWith m r).reason = r := rfl

end HeadOfContext
