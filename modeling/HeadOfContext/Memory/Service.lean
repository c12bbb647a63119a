import HeadOfContext.Memory.Model

/-!
# The memory service

`remember`, `recall` and `forget`. The backend stores text; the service owns the provenance, in
the ledger and in the tuples. `remember` writes to four collaborators in a row and undoes its
writes by hand (`rollback`) where the middle ones fail; `recall` asks again, for each candidate,
whether the subject may view every source; `forget` deletes from three stores in a row.
-/

namespace HeadOfContext

open Effects PyText

/-- `MAX_LIMIT`. -/
def MAX_LIMIT : ℤ := 50

/-- The configuration of a memory service: its decider, the name of the backend, and the
namespace of the content. -/
structure MemoryService where
  decider : Decider
  backend : String
  space : String

/-- `MemoryDenied(message, reason=reason)`. -/
def memoryDenied (message reason : String) : Thrown :=
  .exception (.hoc (HocClass.memoryDenied.errorWith message reason))

/-- `_dedupe`. -/
def dedupe (items : List String) : List String := (Dict.fromKeys items ()).keys

/-- Validate references of one type, in order. -/
def validateRefs (expectedType : String) : List String → Except HocError Unit
  | [] => .ok ()
  | item :: rest => do
    let _ ← validateRef item expectedType
    validateRefs expectedType rest

/-- `kind.value.split("_")[1]`. -/
def secondWord (value : String) : String := (partition (partition value '_').2 '_').1

namespace MemoryService

variable (svc : MemoryService)

/-- `_content_hash`: a text with a lone surrogate cannot be encoded. -/
def contentHash (content : PyStr) : Except Thrown String :=
  match PyStr.text content with
  | some text => .ok (svc.decider.rt.sha256 text.toList)
  | none => .error (.exception (.other "UnicodeEncodeError"))

/-- `_refused`: the resources the token's checks refuse; none without a callable. -/
def refused (hasPermits : Bool) (operation : Kind) (resources : List String) :
    Remembering (List String) := do
  if hasPermits = false ∨ resources = [] then
    return []
  else
    let answers ← Remembering.permits operation resources
    return resources.filter fun r => (answers.get r).getD false = false

/-- `_memory_event`. -/
def memoryEvent (kind : EventKind) (chain : PrincipalChain) (memoryId outcome : String)
    (contentHash : Option String) (sourceCount : ℕ) (reason : Option String) :
    Remembering AuditEvent := do
  let timestamp ← Remembering.now
  let eventId ← Remembering.eventId
  let counted := "sources=" ++ String.ofList (Decimal.natText sourceCount)
  return {
    kind := kind
    timestamp := .utc timestamp
    subject := chain.subject
    actor := chain.actor
    delegationDepth := chain.depth
    action := ("memory:" ++ secondWord kind.str : String)
    resource := memoryId
    outcome := outcome
    reason := (match reason with
      | none | some "" => counted
      | some reason => reason : String)
    engineLatencyMs := zeroMs
    tokenFingerprint := .null
    argsHash := .ofOption contentHash
    decisionId := .null
    eventId := eventId }

/-! ### Writing -/

/-- `_rollback`: what fails is logged. -/
def rollback (memoryId : String) (provenance : List Tuple) (backendRef : Option String) :
    Remembering Unit := do
  match backendRef with
  | none => pure ()
  | some ref =>
    match ← (Remembering.deleteContent ref svc.space).attempt with
    | .ok () => pure ()
    | .error e => if e.isException then pure () else .raise e
  match ← (Remembering.deleteTuples provenance).attempt with
  | .ok () => pure ()
  | .error e => if e.hoc?.isSome then pure () else .raise e
  match ← (Remembering.deleteRow memoryId).attempt with
  | .ok () => pure ()
  | .error e => if e.hoc?.isSome then pure () else .raise e

/-- The handler of the content and ledger writes: `except Exception`. -/
def undo {α : Type} (memoryId : String) (provenance : List Tuple) (backendRef : Option String)
    (e : Thrown) : Remembering α := do
  if e.isException then
    svc.rollback memoryId provenance backendRef
    .raise e
  else
    .raise e

/-- `remember`, from its first write on. -/
def write (chain : PrincipalChain) (content : PyStr) (sources : List String)
    (hash memoryId : String) : Remembering Memory := do
  let now ← Remembering.now
  let provenance := (sources.map fun d => (⟨d, "derived_from", memoryId⟩ : Tuple)) ++
    [⟨chain.actor, "writer", memoryId⟩]
  match ← (Remembering.writeTuples provenance).attempt with
  | .error e =>
    match e.hoc? with
    | some exc => .raise (memoryDenied ("remember refused: " ++ exc.reason) exc.reason)
    | none => .raise e
  | .ok () =>
  match ← (Remembering.store memoryId content svc.space).attempt with
  | .error e => svc.undo memoryId provenance none e
  | .ok backendRef =>
  let record : MemoryRecord := ⟨memoryId, chain.subject, chain.actor, sources, hash, svc.backend,
    backendRef, now⟩
  match ← (Remembering.put record).attempt with
  | .error e => svc.undo memoryId provenance (some backendRef) e
  | .ok () =>
  let event ← memoryEvent .memoryWritten chain memoryId "written" (some record.contentHash)
    sources.length none
  Remembering.record event
  return ⟨memoryId, content, sources, chain.subject, chain.actor, now⟩

/-- `remember`. -/
def remember (chain : PrincipalChain) (content : PyStr) (derivedFrom : List String)
    (hasPermits : Bool) : Remembering Memory := do
  let sources := dedupe derivedFrom
  Remembering.ofHoc (validateRefs "document" sources)
  let hex ← Remembering.memoryId
  let memoryId := "memory:" ++ hex
  let targets := if sources = [] then [memoryId] else sources
  let refused ← refused hasPermits .remember targets
  if refused ≠ [] then
    let hash ← (.ofExcept (svc.contentHash content) : Remembering String)
    let event ← memoryEvent .memoryWritten chain memoryId "DENY" (some hash) sources.length
      (some "token_check_failed")
    Remembering.record event
    .raise (memoryDenied "remember refused: token_check_failed" "token_check_failed")
  else
  let hash ← (.ofExcept (svc.contentHash content) : Remembering String)
  let decision ← Remembering.core (svc.decider.decideAll chain .remember sources (some targets)
    (some memoryId) (some [(.ofString "content_sha256", .str (.ofString hash))]) none)
  if decision.outcome ≠ .allow then
    .raise (memoryDenied ("remember refused: " ++ decision.reason) decision.reason)
  else
  svc.write chain content sources hash memoryId

/-! ### Reading -/

/-- `_deny_read`. -/
def denyRead (chain : PrincipalChain) (memoryId reason : String) : Remembering Unit := do
  let event ← memoryEvent .memoryRead chain memoryId "DENY" none 0 (some reason)
  Remembering.record event

/-- The ledger rows of the references of a candidate. -/
def lookUp : List String → Remembering (List (Option MemoryRecord))
  | [] => return []
  | ref :: rest => do
    let row ← Remembering.getByBackendRef svc.backend ref
    let rows ← lookUp rest
    return row :: rows

/-- The loop of `_sources` over the rows. -/
def collectSources (found : FrozenSet String) : List MemoryRecord → Remembering (FrozenSet String)
  | [] => return found
  | row :: rest => do
    let tuples ← Remembering.readTuples row.memoryId "derived_from"
    collectSources (((FrozenSet.ofList row.derivedFrom).union
      (.ofList (tuples.map Tuple.user))).union found) rest

/-- `_sources`: the provenance of the ledger and of the tuples together. -/
def sources (rows : List MemoryRecord) : Remembering (List String) := do
  let found ← collectSources .empty rows
  return found.items

/-- `_admit_unguarded`. -/
def admitUnguarded (chain : PrincipalChain) (candidate : Candidate) (hasPermits : Bool) :
    Remembering (Option Memory) := do
  let records ← svc.lookUp candidate.backendRefs
  match records.reduceOption with
  | [] =>
    denyRead chain "memory:unknown" "no_provenance"
    return none
  | primary :: others =>
  if records.any Option.isNone then
    -- no provenance we can vouch for
    denyRead chain "memory:unknown" "no_provenance"
    return none
  else
  let rows := primary :: others
  let sources ← sources rows
  let refusedRead ← refused hasPermits .read (rows.map MemoryRecord.memoryId ++ sources)
  if refusedRead ≠ [] then
    denyRead chain primary.memoryId "token_check_failed"
    return none
  else if sources = [] ∧ (rows.any fun r => r.writtenFor ≠ chain.subject) then
    -- no source at all: readable by the subject it was written for
    let event ← memoryEvent .memoryRead chain primary.memoryId "DENY" none 0
      (some "not_written_for")
    Remembering.record event
    return none
  else
  let decision ← Remembering.core (svc.decider.decideAll chain .readMemory sources
    (some (rows.map MemoryRecord.memoryId)) (some primary.memoryId) none none)
  let event ← memoryEvent .memoryRead chain primary.memoryId decision.outcome.str
    (some primary.contentHash) sources.length (some decision.reason)
  Remembering.record event
  if decision.outcome ≠ .allow then
    return none
  else
    return some ⟨primary.memoryId, candidate.content, sources, primary.writtenFor,
      primary.writtenBy, primary.createdAt⟩

/-- `_admit`: trouble while checking the provenance means "not now". -/
def admitCandidate (chain : PrincipalChain) (candidate : Candidate) (hasPermits : Bool) :
    Remembering (Option Memory) := do
  match ← (svc.admitUnguarded chain candidate hasPermits).attempt with
  | .ok memory => return memory
  | .error e =>
    match e.hoc? with
    | some exc =>
      denyRead chain (candidate.backendRefs.headD "memory:unknown") exc.reason
      return none
    | none => .raise e

/-- The loop of `recall` over the candidates, up to the limit. -/
def admitAll (chain : PrincipalChain) (hasPermits : Bool) (limit : ℤ) :
    List Candidate → List Memory → Remembering (List Memory)
  | [], kept => return kept
  | candidate :: rest, kept => do
    let memory ← svc.admitCandidate chain candidate hasPermits
    let kept := kept ++ memory.toList
    if limit ≤ kept.length then
      return kept
    else
      admitAll chain hasPermits limit rest kept

/-- `recall`. -/
def «recall» (chain : PrincipalChain) (query : PyStr) (limit : ℤ) (hasPermits : Bool) :
    Remembering (List Memory) := do
  let limit := max 1 (min limit MAX_LIMIT)
  match ← (Remembering.search query svc.space limit).attempt with
  | .error e =>
    if e.isException then
      denyRead chain "memory:*" "backend_unavailable"
      return []
    else
      .raise e
  | .ok candidates => svc.admitAll chain hasPermits limit candidates []

/-! ### Deleting -/

/-- `forget`. -/
def forget (chain : PrincipalChain) (memoryId : String) (hasPermits : Bool) :
    Remembering Unit := do
  Remembering.ofHoc (do let _ ← validateRef memoryId "memory"; return ())
  let refused ← refused hasPermits .remember [memoryId]
  if refused ≠ [] then
    denyRead chain memoryId "token_check_failed"
    .raise (memoryDenied "forget refused: token_check_failed" "token_check_failed")
  else
  let found ← Remembering.get memoryId
  match found.filter fun r => r.writtenFor = chain.subject with
  | none =>
    let event ← memoryEvent .memoryRead chain memoryId "DENY" none 0 (some "not_written_for")
    Remembering.record event
    .raise (.exception (.hoc (HocClass.memoryDenied.error
      "forget refused: not the subject this memory was written for")))
  | some record =>
  let decision ← Remembering.core (svc.decider.decideAll chain .remember [] (some [memoryId])
    (some memoryId) none none)
  if decision.outcome ≠ .allow then
    .raise (memoryDenied ("forget refused: " ++ decision.reason) decision.reason)
  else
  Remembering.deleteContent record.backendRef svc.space
  Remembering.deleteRow memoryId
  let derived ← Remembering.readTuples memoryId "derived_from"
  let writers ← Remembering.readTuples memoryId "writer"
  Remembering.deleteTuples (derived ++ writers)

end MemoryService

end HeadOfContext
