import HeadOfContext.Core.Chain
import HeadOfContext.Framework.Json

/-!
# Audit events

The value written to the journal for every decision, token, memory and approval, and
the fingerprints of arguments and secrets. The dataclass does not check the types of
its fields, and an event read back from a stored payload may carry any JSON value
where the writer put a string, so those fields are `Json` values; writers put strings.

What the model does not compute is collected in `Runtime`: the printing of floats and
datetimes, and SHA-256.
-/

namespace HeadOfContext

/-- `GENESIS_HASH`. -/
def GENESIS_HASH : String := String.ofList (List.replicate 64 '0')

/-- A `datetime`: the wall clock reading in microseconds, and the UTC offset in
microseconds of an aware one. -/
structure Datetime where
  wall : ℤ
  offset : Option ℤ
  deriving DecidableEq

/-- The UTC datetime of an instant in microseconds. Clocks return such datetimes, and
outside the journal an instant stands for its datetime. -/
def Datetime.utc (t : ℤ) : Datetime := ⟨t, some 0⟩

/-- `not value`. -/
def isFalsy : Json → Bool
  | .null | .bool false | .int 0 | .str [] | .arr [] | .obj [] => true
  | .float (.finite x) => x.val.val % 2 ^ 63 = 0
  | _ => false

/-- The text of a string; none where it holds a surrogate. -/
def PyStr.text (s : PyStr) : Option String :=
  (s.mapM fun c => if (Char.ofNat c.val).toNat = c.val then some (Char.ofNat c.val) else none).map
    String.ofList

/-- Reading a text gives the text. -/
theorem PyStr.text_ofString (s : String) : PyStr.text (.ofString s) = some s := by
  have hchars : ∀ cs : List Char, (cs.map CodePoint.ofChar).mapM (fun c =>
      if (Char.ofNat c.val).toNat = c.val then some (Char.ofNat c.val) else none) = some cs := by
    intro cs
    induction cs with
    | nil => rfl
    | cons c cs ih =>
      have hval : (CodePoint.ofChar c).val = c.toNat := rfl
      rw [List.map_cons, List.mapM_cons, ih, hval, Char.ofNat_toNat, if_pos rfl]
      rfl
  unfold PyStr.text PyStr.ofString
  rw [hchars, Option.map_some, String.ofList_toList]

/-- The parts of the standard library that stay parameters. -/
structure Runtime where
  floatText : Json.FloatText
  /-- `datetime.isoformat`. -/
  isoformat : Datetime → PyStr
  /-- `sha256(text.encode()).hexdigest()`. -/
  sha256 : List Char → String

inductive EventKind where
  | decision | tokenIssued | tokenDelegated | tokenRevoked | memoryWritten | memoryRead
  | approvalRequested | approvalResolved | approvalConsumed | approvalNotifyFailed
  | mandateCreated | mandateRevoked | mandateExpired | readFiltered | toolsListed
  | connectorSynced
  deriving DecidableEq, Repr

/-- `str(kind)`. -/
def EventKind.str : EventKind → String
  | decision => "decision"
  | tokenIssued => "token_issued"
  | tokenDelegated => "token_delegated"
  | tokenRevoked => "token_revoked"
  | memoryWritten => "memory_written"
  | memoryRead => "memory_read"
  | approvalRequested => "approval_requested"
  | approvalResolved => "approval_resolved"
  | approvalConsumed => "approval_consumed"
  | approvalNotifyFailed => "approval_notify_failed"
  | mandateCreated => "mandate_created"
  | mandateRevoked => "mandate_revoked"
  | mandateExpired => "mandate_expired"
  | readFiltered => "read_filtered"
  | toolsListed => "tools_listed"
  | connectorSynced => "connector_synced"

/-- `AuditEvent`. -/
structure AuditEvent where
  kind : EventKind
  timestamp : Datetime
  subject : Json
  actor : Json
  delegationDepth : ℤ
  action : Json
  resource : Json
  outcome : Json
  reason : Json
  engineLatencyMs : PyFloat
  tokenFingerprint : Json
  argsHash : Json
  decisionId : Json
  eventId : Json

namespace AuditEvent

/-- `asdict(self)`, with its keys in increasing order and the timestamp printed by
`_json_default`. -/
def toJson (rt : Runtime) (e : AuditEvent) : Json :=
  .obj [(.ofString "action", e.action),
    (.ofString "actor", e.actor),
    (.ofString "args_hash", e.argsHash),
    (.ofString "decision_id", e.decisionId),
    (.ofString "delegation_depth", .int e.delegationDepth),
    (.ofString "engine_latency_ms", .float e.engineLatencyMs),
    (.ofString "event_id", e.eventId),
    (.ofString "kind", e.kind.str),
    (.ofString "outcome", e.outcome),
    (.ofString "reason", e.reason),
    (.ofString "resource", e.resource),
    (.ofString "subject", e.subject),
    (.ofString "timestamp", .str (rt.isoformat e.timestamp)),
    (.ofString "token_fingerprint", e.tokenFingerprint)]

/-- `canonical_json`. -/
def canonicalJson (rt : Runtime) (e : AuditEvent) : List Char :=
  Json.dumps rt.floatText (e.toJson rt)

end AuditEvent

/-- `compute_hash`. -/
def computeHash (rt : Runtime) (prevHash : String) (event : AuditEvent) : String :=
  rt.sha256 (prevHash.toList ++ event.canonicalJson rt)

/-- `0.0`. -/
def zeroMs : PyFloat := .finite ⟨0, by decide⟩

/-- The arguments of a tool call: a JSON object. -/
abbrev Args := List (PyStr × Json)

/-- Fingerprint of tool arguments. The arguments themselves are never stored. -/
def hashArgs (rt : Runtime) : Option Args → Option String
  | none => none
  | some args => some (rt.sha256 (Json.dumps rt.floatText (.obj args)))

/-- `_digest`: the hash of the sorted references, one on each line. -/
def digest (rt : Runtime) (refs : List String) : String :=
  rt.sha256 ("\n".intercalate (refs.mergeSort fun a b => decide (a ≤ b))).toList

end HeadOfContext
