import HeadOfContext.Core.FixedEngine
import HeadOfContext.Memory.Stores

/-!
# Histories of the memory service

The methods as the calls of one service, so that a history of them is a `Session`; and
collaborators that play such histories: they answer by fixed functions, and refuse, with no
effect, the calls that they are told to refuse.
-/

namespace HeadOfContext

open Effects Service

/-! ### The calls -/

/-- A call of the memory service. -/
inductive MemoryCall where
  | remember (chain : PrincipalChain) (content : PyStr) (derivedFrom : List String)
      (hasPermits : Bool)
  | «recall» (chain : PrincipalChain) (query : PyStr) (limit : ℤ) (hasPermits : Bool)
  | forget (chain : PrincipalChain) (memoryId : String) (hasPermits : Bool)

/-- What each call returns or raises. -/
abbrev MemoryCall.Out : MemoryCall → Type
  | remember _ _ _ _ => Except Thrown Memory
  | «recall» _ _ _ _ => Except Thrown (List Memory)
  | forget _ _ _ => Except Thrown Unit

/-- The memory service, for callers that wait for each other. -/
def MemoryService.calls (svc : MemoryService) : Service MemorySig where
  Call := MemoryCall
  Out := MemoryCall.Out
  body
    | .remember chain content derivedFrom hasPermits =>
      (svc.remember chain content derivedFrom hasPermits).run
    | .recall chain query limit hasPermits => (svc.recall chain query limit hasPermits).run
    | .forget chain memoryId hasPermits => (svc.forget chain memoryId hasPermits).run

section Turns

variable {svc : MemoryService} {W : World MemorySig}

/-- The memory that a turn has remembered. -/
def remembered : svc.calls.Turn W → Option Memory
  | ⟨_, .remember _ _ _ _, _, .ok memory, _⟩ => some memory
  | _ => none

/-- The memories that a turn has recalled. -/
def recalled : svc.calls.Turn W → List Memory
  | ⟨_, .recall _ _ _ _, _, .ok memories, _⟩ => memories
  | _ => []

end Turns

/-! ### Collaborators that refuse -/

/-- Collaborators that answer by fixed functions, except for the calls that they refuse. -/
structure Refusing where
  engine : FixedAnswers
  refuses : MemoryState → MemoryOp → Option Thrown
  /-- What a search finds in a namespace. -/
  found : MemoryState → String → List Candidate

namespace Refusing

variable (w : Refusing)

/-- What these collaborators do. -/
def conduct : Conduct where
  raises o e s s' := w.refuses s o = some e ∧ s' = s.raised o e
  permits _ resources r := r = .ok (Dict.fromKeys resources true)
  core o r := r = .ok (w.engine.answer o)
  finds s space candidates := candidates = w.found s space

/-- The answer of a call that may be refused. -/
def orRefuse {α : Type} (s : MemoryState) (o : MemoryOp) (a : α) : Except Thrown α :=
  match w.refuses s o with
  | some e => .error e
  | none => .ok a

/-- The state after a call that may be refused. -/
def unlessRefused (s : MemoryState) (o : MemoryOp) (s' : MemoryState) : MemoryState :=
  match w.refuses s o with
  | some e => s.raised o e
  | none => s'

/-- The answer to each call. The ids that are drawn count the events of the journal. -/
def answer (s : MemoryState) : ∀ o, MemorySig.Res o
  | .core o => .ok (w.engine.answer o)
  | .now => (0 : ℤ)
  | .memoryId => String.ofList (Decimal.natText s.journal.length)
  | .eventId => ""
  | .permits _ resources => .ok (Dict.fromKeys resources true)
  | .writeTuples ts => w.orRefuse s (.writeTuples ts) ()
  | .deleteTuples ts => w.orRefuse s (.deleteTuples ts) ()
  | .readTuples obj relation => w.orRefuse s (.readTuples obj relation)
      (s.tuples.items.filter fun t => t.obj = obj ∧ t.relation = relation)
  | .store memoryId content space => w.orRefuse s (.store memoryId content space) memoryId
  | .search query space limit => w.orRefuse s (.search query space limit) (w.found s space)
  | .deleteContent ref space => w.orRefuse s (.deleteContent ref space) ()
  | .put record => w.orRefuse s (.put record) ()
  | .get memoryId => w.orRefuse s (.get memoryId) (s.ledger.get memoryId)
  | .getByBackendRef backend ref => w.orRefuse s (.getByBackendRef backend ref)
      (s.ledger.values.find? fun row => row.backend = backend ∧ row.backendRef = ref)
  | .deleteRow memoryId => w.orRefuse s (.deleteRow memoryId) ()
  | .record event => w.orRefuse s (.record event) ()

/-- The state after each call; none where an id or a reference is in use. -/
def after (s : MemoryState) (o : MemoryOp) : Option MemoryState :=
  match o with
  | .core (.record event) => some (s.journaled event)
  | .memoryId =>
    let hex := String.ofList (Decimal.natText s.journal.length)
    if IsUuidHex hex ∧ s.Fresh hex then some s else none
  | .store memoryId content space =>
    if s.content.get (space, memoryId) = none then
      some (w.unlessRefused s o (s.keep memoryId content space memoryId))
    else none
  | .writeTuples ts => some (w.unlessRefused s o (s.write ts))
  | .deleteTuples ts => some (w.unlessRefused s o (s.delete ts))
  | .deleteContent ref space => some (w.unlessRefused s o (s.discard ref space))
  | .put record => some (w.unlessRefused s o (s.put record))
  | .deleteRow memoryId => some (w.unlessRefused s o (s.deleteRow memoryId))
  | .record event => some (w.unlessRefused s o (s.journaled event))
  | .readTuples _ _ | .search _ _ _ | .get _ | .getByBackendRef _ _ =>
    some (w.unlessRefused s o s)
  | .core _ | .now | .eventId | .permits _ _ => some s

/-- A call is refused and has no effect, or it is answered and has its effect. -/
theorem orRefuse_unlessRefused {α : Type} {P : Except Thrown α → MemoryState → Prop}
    {s s' : MemoryState} {o : MemoryOp} {a : α} (hok : P (.ok a) s')
    (herr : ∀ e, w.refuses s o = some e → P (.error e) (s.raised o e)) :
    P (w.orRefuse s o a) (w.unlessRefused s o s') := by
  unfold orRefuse unlessRefused
  cases h : w.refuses s o with
  | none => exact hok
  | some e => exact herr e h

/-- Collaborators that refuse, as ones that a program can be run against. -/
def driver (start : MemoryState) : Driver (memoryWorld w.conduct start) where
  answer := w.answer
  after := w.after
  sound := by
    intro s o s' h
    -- what a call that may be refused has to satisfy
    have hrefuse : ∀ e, w.refuses s o = some e → w.conduct.raises o e s (s.raised o e) :=
      fun e he => ⟨he, rfl⟩
    cases o with
    | core o =>
      cases o with
      | record event => exact ⟨rfl, (Option.some.inj h).symm⟩
      | _ => exact ⟨rfl, (Option.some.inj h).symm⟩
    | now => exact (Option.some.inj h).symm
    | eventId => exact (Option.some.inj h).symm
    | permits operation resources => exact ⟨rfl, (Option.some.inj h).symm⟩
    | memoryId =>
      obtain ⟨hfresh, heq⟩ := Option.ite_none_right_eq_some.mp h
      exact ⟨hfresh.1, hfresh.2, (Option.some.inj heq).symm⟩
    | store memoryId content space =>
      obtain ⟨hnew, heq⟩ := Option.ite_none_right_eq_some.mp h
      rw [← Option.some.inj heq]
      exact w.orRefuse_unlessRefused ⟨hnew, rfl⟩ hrefuse
    | writeTuples ts =>
      rw [← Option.some.inj h]
      exact w.orRefuse_unlessRefused rfl hrefuse
    | deleteTuples ts =>
      rw [← Option.some.inj h]
      exact w.orRefuse_unlessRefused rfl hrefuse
    | deleteContent ref space =>
      rw [← Option.some.inj h]
      exact w.orRefuse_unlessRefused rfl hrefuse
    | put record =>
      rw [← Option.some.inj h]
      exact w.orRefuse_unlessRefused rfl hrefuse
    | deleteRow memoryId =>
      rw [← Option.some.inj h]
      exact w.orRefuse_unlessRefused rfl hrefuse
    | record event =>
      rw [← Option.some.inj h]
      exact w.orRefuse_unlessRefused rfl hrefuse
    | search query space limit =>
      rw [← Option.some.inj h]
      exact w.orRefuse_unlessRefused ⟨rfl, rfl⟩ hrefuse
    | get memoryId =>
      rw [← Option.some.inj h]
      exact w.orRefuse_unlessRefused ⟨rfl, rfl⟩ hrefuse
    | readTuples obj relation =>
      rw [← Option.some.inj h]
      refine w.orRefuse_unlessRefused ⟨fun t => ?_, rfl⟩ hrefuse
      rw [List.mem_filter, decide_eq_true_eq]
      exact Iff.rfl
    | getByBackendRef backend ref =>
      rw [← Option.some.inj h]
      refine w.orRefuse_unlessRefused ⟨?_, rfl⟩ hrefuse
      cases hfound : s.ledger.values.find? fun row =>
        row.backend = backend ∧ row.backendRef = ref with
      | none => exact fun row hrow => by simpa using List.find?_eq_none.mp hfound row hrow
      | some row => exact ⟨List.mem_of_find?_eq_some hfound, by simpa using List.find?_some hfound⟩

end Refusing

/-! ### An agent of alice -/

/-- An agent that may remember and read what is in documents, and its memories, for alice. -/
def aliceKeeper : PrincipalChain :=
  ⟨"user:alice", "agent:a", [], .fromIterable [⟨.remember, "document:*", by decide⟩,
    ⟨.remember, "memory:*", by decide⟩, ⟨.read, "document:*", by decide⟩,
    ⟨.read, "memory:*", by decide⟩], none, by decide⟩

/-- A memory service over one backend, without a policy. -/
def notebook : MemoryService :=
  ⟨⟨⟨Json.FloatText.ofBits, fun _ => [], fun _ => ""⟩, false⟩, "local", "hoc"⟩

/-- A candidate for each content of a namespace. -/
def everything (s : MemoryState) (space : String) : List Candidate :=
  (s.content.entries.filter fun entry => entry.1.1 = space).map fun entry =>
    ⟨entry.2.2, [entry.1.2]⟩

/-- An engine for which everybody may view everything. -/
def openEngine : FixedAnswers where
  engine _ _ _ := true
  policy _ _ _ _ _ := .ok ⟨.allow, "allowed"⟩

/-- Collaborators with this engine, whose search finds everything, with the calls that they
refuse. -/
def obliging (refuses : MemoryState → MemoryOp → Option Thrown) : Refusing :=
  ⟨openEngine, refuses, everything⟩

end HeadOfContext
