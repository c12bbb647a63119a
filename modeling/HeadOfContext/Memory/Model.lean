import HeadOfContext.Core.Decider
import HeadOfContext.Core.Tuples
import HeadOfContext.Framework.Dict

/-!
# Memories and their provenance

The value objects of the memory service, and its collaborators: the decider, the tuple store,
the backend that holds the content, the provenance ledger, the audit sink, and the token's own
checks. Any of them may raise anything. `except Exception` lets some of that pass, so what is
raised is a `Thrown`: an exception, or one that does not derive from `Exception`.
-/

namespace HeadOfContext

open Effects

/-! ### The value objects -/

/-- `MemoryRecord`: a row of the ledger. It has the hash of the content, never the content. -/
structure MemoryRecord where
  memoryId : String
  writtenFor : String
  writtenBy : String
  derivedFrom : List String
  contentHash : String
  backend : String
  backendRef : String
  createdAt : ℤ
  deriving DecidableEq

/-- `Memory`: what callers get back. -/
structure Memory where
  memoryId : String
  content : PyStr
  derivedFrom : List String
  writtenFor : String
  writtenBy : String
  createdAt : ℤ
  deriving DecidableEq

/-- `Candidate`: a search hit, with the backend references it was built from. -/
structure Candidate where
  content : PyStr
  backendRefs : List String
  deriving DecidableEq

/-! ### What may be raised -/

/-- Anything that a call may raise. -/
inductive Thrown where
  /-- What a handler of `Exception` meets. -/
  | exception (e : Exn)
  /-- What it does not meet, by the name of its class: a cancellation, the end of the process. -/
  | base (name : String)
  deriving DecidableEq

namespace Thrown

/-- `isinstance(exc, Exception)`. -/
def isException : Thrown → Bool
  | exception _ => true
  | base _ => false

/-- The error that a handler of `HocError` meets. -/
def hoc? : Thrown → Option HocError
  | exception (.hoc e) => some e
  | _ => none

end Thrown

/-! ### The collaborators -/

/-- A call of the memory service. -/
inductive MemoryOp where
  /-- A call of the decider. -/
  | core (o : CoreOp)
  | now
  /-- `uuid.uuid4().hex`, for a memory. -/
  | memoryId
  /-- `uuid.uuid4().hex`, for an event. -/
  | eventId
  /-- `permits(operation, resources)`. -/
  | permits (operation : Kind) (resources : List String)
  | writeTuples (tuples : List Tuple)
  | deleteTuples (tuples : List Tuple)
  | readTuples (obj relation : String)
  /-- `adapter.store(memory_id, content, namespace)`. -/
  | store (memoryId : String) (content : PyStr) (space : String)
  /-- `adapter.search(query, namespace, limit)`. -/
  | search (query : PyStr) (space : String) (limit : ℤ)
  /-- `adapter.delete(backend_ref, namespace)`. -/
  | deleteContent (backendRef space : String)
  /-- `ledger.put(record)`. -/
  | put (record : MemoryRecord)
  /-- `ledger.get(memory_id)`. -/
  | get (memoryId : String)
  /-- `ledger.get_by_backend_ref(backend, backend_ref)`. -/
  | getByBackendRef (backend backendRef : String)
  /-- `ledger.delete(memory_id)`. -/
  | deleteRow (memoryId : String)
  /-- `audit.record(event)`. -/
  | record (event : AuditEvent)

/-- The answer to each call. A call of the decider may raise what no handler of the decider
meets. -/
abbrev MemoryOp.Res : MemoryOp → Type
  | core o => Except String o.Res
  | now => ℤ
  | memoryId => String
  | eventId => String
  | permits _ _ => Except Thrown (Dict String Bool)
  | writeTuples _ => Except Thrown Unit
  | deleteTuples _ => Except Thrown Unit
  | readTuples _ _ => Except Thrown (List Tuple)
  | store _ _ _ => Except Thrown String
  | search _ _ _ => Except Thrown (List Candidate)
  | deleteContent _ _ => Except Thrown Unit
  | put _ => Except Thrown Unit
  | get _ => Except Thrown (Option MemoryRecord)
  | getByBackendRef _ _ => Except Thrown (Option MemoryRecord)
  | deleteRow _ => Except Thrown Unit
  | record _ => Except Thrown Unit

/-- The interface of the memory service. -/
abbrev MemorySig : Sig := ⟨MemoryOp, MemoryOp.Res⟩

/-- A method of the memory service. -/
abbrev Remembering := Raises MemorySig Thrown

namespace Remembering

variable {α : Type}

/-- A call of the decider, as a call of the memory service. -/
def decider : Prog.Guards CoreSig MemorySig String where
  op := .core
  res _ r := r

/-- What a program of the decider has come to. -/
def concluded : Except String (Except Exn α) → Except Thrown α
  | .error name => .error (.base name)
  | .ok (.error e) => .error (.exception e)
  | .ok (.ok a) => .ok a

/-- A method of the decider. -/
def core (p : Core α) : Remembering α :=
  ⟨(p.run.guarded decider).bind fun r => .ret (concluded r)⟩

/-- A computation that may raise an error of the package. -/
def ofHoc (x : Except HocError α) : Remembering α :=
  .ofExcept (x.mapError fun e => .exception (.hoc e))

def now : Remembering ℤ := .lift (.invoke (S := MemorySig) .now)

def memoryId : Remembering String := .lift (.invoke (S := MemorySig) .memoryId)

def eventId : Remembering String := .lift (.invoke (S := MemorySig) .eventId)

def permits (operation : Kind) (resources : List String) : Remembering (Dict String Bool) :=
  ⟨.invoke (S := MemorySig) (.permits operation resources)⟩

def writeTuples (tuples : List Tuple) : Remembering Unit :=
  ⟨.invoke (S := MemorySig) (.writeTuples tuples)⟩

def deleteTuples (tuples : List Tuple) : Remembering Unit :=
  ⟨.invoke (S := MemorySig) (.deleteTuples tuples)⟩

def readTuples (obj relation : String) : Remembering (List Tuple) :=
  ⟨.invoke (S := MemorySig) (.readTuples obj relation)⟩

def store (memoryId : String) (content : PyStr) (space : String) : Remembering String :=
  ⟨.invoke (S := MemorySig) (.store memoryId content space)⟩

def search (query : PyStr) (space : String) (limit : ℤ) : Remembering (List Candidate) :=
  ⟨.invoke (S := MemorySig) (.search query space limit)⟩

def deleteContent (backendRef space : String) : Remembering Unit :=
  ⟨.invoke (S := MemorySig) (.deleteContent backendRef space)⟩

def put (record : MemoryRecord) : Remembering Unit := ⟨.invoke (S := MemorySig) (.put record)⟩

def get (memoryId : String) : Remembering (Option MemoryRecord) :=
  ⟨.invoke (S := MemorySig) (.get memoryId)⟩

def getByBackendRef (backend backendRef : String) : Remembering (Option MemoryRecord) :=
  ⟨.invoke (S := MemorySig) (.getByBackendRef backend backendRef)⟩

def deleteRow (memoryId : String) : Remembering Unit :=
  ⟨.invoke (S := MemorySig) (.deleteRow memoryId)⟩

def record (event : AuditEvent) : Remembering Unit :=
  ⟨.invoke (S := MemorySig) (.record event)⟩

end Remembering

end HeadOfContext
