import HeadOfContext.Core.Effects
import HeadOfContext.Core.Tuples
import HeadOfContext.Framework.Decimal
import HeadOfContext.Framework.Handlers

/-!
# The OpenFGA adapter

`OpenFgaEngine` asks the OpenFGA client. Every question is guarded: its subject is a human, its
object a reference, and the connectors are fresh. A call that raises is made again, at most
`retries` times, and a failure that survives is an `EngineUnavailable`. `call_run` says what a
retried call can do, `fill_eq_ok_iff` what a batch makes of the answers it gets, in whatever order
and number they come.
-/

namespace HeadOfContext

open Effects Except PyText

/-! ### The collaborators -/

/-- `ClientBatchCheckItem`. -/
structure BatchCheckItem where
  user : String
  relation : String
  obj : String
  correlationId : String
  deriving DecidableEq

/-- One answer of a batch, as the adapter reads it. -/
structure BatchSingle where
  /-- `int(getattr(single, "correlation_id", -1))`: the number, or what `int` raises. -/
  index : Except Exn ℤ
  /-- `getattr(single, "error", None) is not None`. -/
  errored : Bool
  /-- `bool(getattr(single, "allowed", False))`. -/
  allowed : Bool

/-- One page of the tuples that are read. -/
structure TuplePage where
  tuples : List Tuple
  continuationToken : Option String

/-- A call of the adapter: the freshness guard, the OpenFGA client, and the pause before a call is
made again. -/
inductive EngineOp where
  /-- `freshness.assert_fresh()`. -/
  | assertFresh
  /-- `client.check(request)`. -/
  | check (user relation obj : String)
  /-- `client.batch_check(request)`. -/
  | batchCheck (checks : List BatchCheckItem)
  /-- `client.list_objects(request)`. -/
  | listObjects (user relation type_ : String)
  /-- `client.write_tuples(body)`. -/
  | writeTuples (body : List Tuple)
  /-- `client.delete_tuples(body)`. -/
  | deleteTuples (body : List Tuple)
  /-- `client.read(key, options)`. -/
  | read (obj relation : String) (continuation : Option String)
  /-- `asyncio.sleep(retry_delay)`. -/
  | sleep

/-- The answer to each call. -/
abbrev EngineOp.Res : EngineOp → Type
  | assertFresh => Except Exn Unit
  -- `getattr(response, "allowed", False)`, if the attribute is there
  | check _ _ _ => Except Exn (Option Bool)
  | batchCheck _ => Except Exn (List BatchSingle)
  | listObjects _ _ _ => Except Exn (List String)
  | writeTuples _ => Except Exn Unit
  | deleteTuples _ => Except Exn Unit
  | read _ _ _ => Except Exn TuplePage
  | sleep => Unit

/-- The interface of the adapter. -/
abbrev EngineSig : Sig := ⟨EngineOp, EngineOp.Res⟩

/-- A method of the adapter. -/
abbrev Adapter := Raises EngineSig Exn

namespace Adapter

def assertFresh : Adapter Unit := ⟨.invoke (S := EngineSig) .assertFresh⟩

def check (user relation obj : String) : Adapter (Option Bool) :=
  ⟨.invoke (S := EngineSig) (.check user relation obj)⟩

def batchCheck (checks : List BatchCheckItem) : Adapter (List BatchSingle) :=
  ⟨.invoke (S := EngineSig) (.batchCheck checks)⟩

def listObjects (user relation type_ : String) : Adapter (List String) :=
  ⟨.invoke (S := EngineSig) (.listObjects user relation type_)⟩

def writeTuples (body : List Tuple) : Adapter Unit :=
  ⟨.invoke (S := EngineSig) (.writeTuples body)⟩

def deleteTuples (body : List Tuple) : Adapter Unit :=
  ⟨.invoke (S := EngineSig) (.deleteTuples body)⟩

def read (obj relation : String) (continuation : Option String) : Adapter TuplePage :=
  ⟨.invoke (S := EngineSig) (.read obj relation continuation)⟩

def sleep : Adapter Unit := .lift (.invoke (S := EngineSig) .sleep)

end Adapter

/-! ### Calls that are made again -/

/-- `cls.__name__`. -/
def HocClass.name : HocClass → String
  | hocError => "HocError"
  | unavailable => "Unavailable"
  | configurationError => "ConfigurationError"
  | invariantViolation => "InvariantViolation"
  | scopeEscalation => "ScopeEscalation"
  | invalidResource => "InvalidResource"
  | engineUnavailable => "EngineUnavailable"
  | connectorStale => "ConnectorStale"
  | tokenInvalid => "TokenInvalid"
  | tokenRevoked => "TokenRevoked"
  | identityError => "IdentityError"
  | auditUnavailable => "AuditUnavailable"
  | memoryDenied => "MemoryDenied"
  | mandateDenied => "MandateDenied"
  | actionDenied => "ActionDenied"
  | approvalError => "ApprovalError"
  | approvalChannelError => "ApprovalChannelError"
  | approvalStoreUnavailable => "ApprovalStoreUnavailable"
  | mandateStoreUnavailable => "MandateStoreUnavailable"
  | ledgerUnavailable => "LedgerUnavailable"
  | connectorStateUnavailable => "ConnectorStateUnavailable"
  | revocationStoreUnavailable => "RevocationStoreUnavailable"

/-- `type(exc).__name__`. -/
def Exn.typeName : Exn → String
  | .hoc e => e.cls.name
  | .other name => name

/-- The error of a call that has failed as often as it may. -/
def engineFailed (what : String) (exc : Exn) : HocError :=
  HocClass.engineUnavailable.error ("openfga " ++ what ++ " failed: " ++ exc.typeName)

namespace OpenFgaEngine

/-- `_call`, with the number of times that the operation may still be made again. -/
def call {α : Type} (what : String) (operation : Adapter α) : ℕ → Adapter α
  | 0 => do
    let answer ← operation.attempt
    match answer with
    | .ok a => return a
    | .error exc => .raise (.hoc (engineFailed what exc))
  | left + 1 => do
    let answer ← operation.attempt
    match answer with
    | .ok a => return a
    | .error _ =>
      Adapter.sleep
      call what operation left

/-- The operation was made `n` times, and raised each time; after each a pause. -/
inductive Failed {α : Type} (operation : Adapter α) : ℕ → Trace EngineSig → Prop
  | nil : Failed operation 0 []
  | cons {n : ℕ} {seg rest : Trace EngineSig} {exc : Exn}
      (hseg : Raises.Run operation seg (.error exc)) (hrest : Failed operation n rest) :
      Failed operation (n + 1) (seg ++ ⟨.sleep, ()⟩ :: rest)

/-- **What a retried call does**: it makes the operation until it returns, at most once more than
it has retries, and returns its first answer; or the operation has raised every time, and then the
call raises. -/
theorem call_run {α : Type} {what : String} {operation : Adapter α} {left : ℕ}
    {tr : Trace EngineSig} {r : Except Exn α} :
    Raises.Run (call what operation left) tr r ↔
      ∃ n failed last, Failed operation n failed ∧ tr = failed ++ last ∧
        ((n ≤ left ∧ ∃ a, Raises.Run operation last (.ok a) ∧ r = .ok a) ∨
          (n = left ∧ ∃ exc, Raises.Run operation last (.error exc) ∧
            r = .error (.hoc (engineFailed what exc)))) := by
  induction left generalizing tr with
  | zero =>
    rw [call]
    refine Raises.run_attempt_bind.trans ⟨?_, ?_⟩
    · rintro ⟨x, tr₁, tr₂, rfl, hoperation, hrest⟩
      cases x with
      | ok a =>
        obtain ⟨rfl, rfl⟩ := Raises.run_pure.mp hrest
        refine ⟨0, [], tr₁, .nil, ?_, .inl ⟨Nat.le_refl _, a, hoperation, rfl⟩⟩
        rw [List.append_nil, List.nil_append]
      | error exc =>
        obtain ⟨rfl, rfl⟩ := Raises.run_raise.mp hrest
        refine ⟨0, [], tr₁, .nil, ?_, .inr ⟨rfl, exc, hoperation, rfl⟩⟩
        rw [List.append_nil, List.nil_append]
    · rintro ⟨n, failed, last, hfailed, rfl, ⟨hn, a, hoperation, rfl⟩ | ⟨rfl, exc, hoperation, rfl⟩⟩
      · obtain rfl := Nat.le_zero.mp hn
        cases hfailed
        exact ⟨.ok a, last, [], (List.append_nil _).symm, hoperation,
          Raises.run_pure.mpr ⟨rfl, rfl⟩⟩
      · cases hfailed
        exact ⟨.error exc, last, [], (List.append_nil _).symm, hoperation,
          Raises.run_raise.mpr ⟨rfl, rfl⟩⟩
  | succ left ih =>
    rw [call]
    refine Raises.run_attempt_bind.trans ⟨?_, ?_⟩
    · rintro ⟨x, tr₁, tr₂, rfl, hoperation, hrest⟩
      cases x with
      | ok a =>
        obtain ⟨rfl, rfl⟩ := Raises.run_pure.mp hrest
        refine ⟨0, [], tr₁, .nil, ?_, .inl ⟨Nat.zero_le _, a, hoperation, rfl⟩⟩
        rw [List.append_nil, List.nil_append]
      | error exc =>
        obtain ⟨u, tr₃, rfl, hcall⟩ := Raises.run_lift_bind.mp hrest
        -- the attempt failed: it goes before the failures of the attempts that are left
        obtain ⟨n, failed, last, hfailed, rfl, hlast⟩ := ih.mp hcall
        refine ⟨n + 1, tr₁ ++ ⟨.sleep, ()⟩ :: failed, last, .cons hoperation hfailed, ?_, ?_⟩
        · rw [List.append_assoc, List.cons_append]
        · exact hlast.imp (fun h => ⟨Nat.succ_le_succ h.1, h.2⟩) fun h =>
            ⟨congrArg (· + 1) h.1, h.2⟩
    · -- the other way, the first failure decides whether this attempt is the last one
      rintro ⟨n, failed, last, hfailed, rfl, hlast⟩
      cases hfailed with
      | nil =>
        rcases hlast with ⟨-, a, hoperation, rfl⟩ | ⟨hn, -⟩
        · exact ⟨.ok a, last, [], (List.append_nil _).symm, hoperation,
            Raises.run_pure.mpr ⟨rfl, rfl⟩⟩
        · exact absurd hn (Nat.succ_ne_zero left).symm
      | @cons n seg rest exc hseg hrest =>
        refine ⟨.error exc, seg, ⟨.sleep, ()⟩ :: (rest ++ last), ?_, hseg, ?_⟩
        · rw [List.append_assoc, List.cons_append]
        · refine Raises.run_lift_bind.mpr ⟨(), rest ++ last, rfl, ih.mpr ?_⟩
          refine ⟨n, rest, last, hrest, rfl, ?_⟩
          exact hlast.imp (fun h => ⟨Nat.le_of_succ_le_succ h.1, h.2⟩) fun h =>
            ⟨Nat.succ.inj h.1, h.2⟩

end OpenFgaEngine

/-! ### The methods -/

/-- `OpenFgaEngine`, with `str.isidentifier`. -/
structure OpenFgaEngine where
  retries : ℤ
  isidentifier : String → Bool

namespace OpenFgaEngine

/-- `self._retries`. -/
def maxRetries (E : OpenFgaEngine) : ℕ := (max 0 E.retries).toNat

/-- The first check of `_guard`: the subject is a human. -/
def humanSubject (subject : String) : Except HocError Unit :=
  match validateRef subject "user" with
  | .ok _ => .ok ()
  | .error _ => .error (HocClass.invariantViolation.error
      ("engine subject must be a user, got " ++ quoted subject))

/-- `_guard`: an engine question is only ever asked about a human subject, while the connectors are
fresh. -/
def guard (subject obj : String) : Adapter Unit := do
  Core.ofHoc (humanSubject subject)
  let _ ← Core.ofHoc (validateResourcePattern obj)
  Adapter.assertFresh

/-- The guard of every item of a batch. -/
def guardAll (subject : String) : List (String × String) → Adapter Unit
  | [] => return ()
  | (_, obj) :: rest => do
    guard subject obj
    guardAll subject rest

/-- The checks of a batch, each under its position as its correlation id. -/
def checksOf (subject : String) (items : List (String × String)) : List BatchCheckItem :=
  items.zipIdx.map fun ((relation, obj), i) =>
    ⟨subject, relation, obj, String.ofList (Decimal.natText i)⟩

/-- The loop over the answers of a batch: an answer with an error and an answer for no item of the
batch leave the results as they are. -/
def fill (results : List Bool) : List BatchSingle → Except Exn (List Bool)
  | [] => .ok results
  | single :: rest => do
    let index ← single.index
    if single.errored then
      fill results rest
    else if 0 ≤ index ∧ index < results.length then
      fill (results.set index.toNat single.allowed) rest
    else
      fill results rest

variable (E : OpenFgaEngine)

/-- `check`. -/
def check (subject relation obj : String) : Adapter Bool := do
  guard subject obj
  let allowed ← call "check" (Adapter.check subject relation obj) E.maxRetries
  return allowed.getD false

/-- `batch_check`. -/
def batchCheck (subject : String) (items : List (String × String)) : Adapter (List Bool) := do
  if items = [] then
    return []
  else
    guardAll subject items
    let singles ← call "batch_check" (Adapter.batchCheck (checksOf subject items)) E.maxRetries
    .ofExcept (fill (List.replicate items.length false) singles)

/-- `list_objects`. -/
def listObjects (subject relation type_ : String) : Adapter (List String) := do
  guard subject (type_ ++ ":*")
  call "list_objects" (Adapter.listObjects subject relation type_) E.maxRetries

/-- `_validate_relation`. -/
def validateRelation (relation : String) : Except HocError Unit :=
  raiseIf (E.isidentifier relation = false)
    (HocClass.invariantViolation.error ("invalid relation " ++ quoted relation))

/-- `_validated`, for one tuple. -/
def validated (t : Tuple) : Except HocError Tuple := do
  let (base, userset) := partition t.user '#'
  let _ ← validateResourcePattern base
  if userset ≠ "" then E.validateRelation userset else .ok ()
  E.validateRelation t.relation
  let _ ← validateResourcePattern t.obj
  return t

/-- `_validated`. -/
def validatedAll : List Tuple → Except HocError (List Tuple)
  | [] => .ok []
  | t :: rest => do
    let t ← E.validated t
    let rest ← validatedAll rest
    return t :: rest

/-- `write_tuples`: no tuple is written before all of them have been validated. -/
def writeTuples (tuples : List Tuple) : Adapter Unit := do
  let body ← Core.ofHoc (E.validatedAll tuples)
  if body = [] then
    return ()
  else
    call "write" (Adapter.writeTuples body) E.maxRetries

/-- `delete_tuples`. -/
def deleteTuples (tuples : List Tuple) : Adapter Unit := do
  let body ← Core.ofHoc (E.validatedAll tuples)
  if body = [] then
    return ()
  else
    call "delete" (Adapter.deleteTuples body) E.maxRetries

/-! ### What the guard asks -/

variable {E} {subject relation obj : String} {items : List (String × String)}
  {tr : Trace EngineSig}

theorem humanSubject_eq_ok {u : Unit} :
    humanSubject subject = .ok u ↔ isRef subject "user" = true := by
  unfold humanSubject validateRef
  by_cases h : isRef subject "user" = true
  · rw [if_pos h]
    exact iff_of_true rfl h
  · rw [if_neg h]
    exact iff_of_false (fun hok => by cases hok) h

theorem guard_run :
    Raises.Run (guard subject obj) tr (.ok ()) ↔
      isRef subject "user" = true ∧ isResourcePattern obj = true ∧
        tr = [⟨.assertFresh, .ok ()⟩] := by
  unfold guard
  refine Raises.run_bind_ok.trans ⟨?_, ?_⟩
  · -- both checks only look at their argument, so the one event is the question about freshness
    rintro ⟨u, tr₁, tr₂, rfl, hsubject, hrest⟩
    obtain ⟨rfl, hhuman⟩ := Core.run_ofHoc_ok.mp hsubject
    obtain ⟨_, tr₁, tr₃, rfl, hobj, hfresh⟩ := Raises.run_bind_ok.mp hrest
    obtain ⟨rfl, hpattern⟩ := Core.run_ofHoc_ok.mp hobj
    exact ⟨humanSubject_eq_ok.mp hhuman, (validateResourcePattern_eq_ok.mp hpattern).1,
      Raises.run_invoke.mp hfresh⟩
  · rintro ⟨hhuman, hpattern, rfl⟩
    refine ⟨(), [], _, rfl, Core.run_ofHoc_ok.mpr ⟨rfl, humanSubject_eq_ok.mpr hhuman⟩, ?_⟩
    refine Raises.run_bind_ok.mpr ⟨obj, [], _, rfl, Core.run_ofHoc_ok.mpr ⟨rfl, ?_⟩,
      Raises.run_invoke.mpr rfl⟩
    exact validateResourcePattern_eq_ok.mpr ⟨hpattern, rfl⟩

/-- The guard of a batch asks about freshness once for each item. -/
theorem guardAll_run :
    Raises.Run (guardAll subject items) tr (.ok ()) ↔
      (∀ item ∈ items, isRef subject "user" = true ∧ isResourcePattern item.2 = true) ∧
        tr = items.map fun _ => ⟨.assertFresh, .ok ()⟩ := by
  induction items generalizing tr with
  | nil => exact Raises.run_pure_ok.trans (by simp)
  | cons item rest ih =>
    refine Raises.run_bind_ok.trans ⟨?_, ?_⟩
    · rintro ⟨u, tr₁, tr₂, rfl, hguard, hrest⟩
      obtain ⟨hhuman, hpattern, rfl⟩ := guard_run.mp hguard
      obtain ⟨hall, rfl⟩ := ih.mp hrest
      exact ⟨List.forall_mem_cons.mpr ⟨⟨hhuman, hpattern⟩, hall⟩, rfl⟩
    · rintro ⟨hall, rfl⟩
      obtain ⟨⟨hhuman, hpattern⟩, hrest⟩ := List.forall_mem_cons.mp hall
      exact ⟨(), _, _, rfl, guard_run.mpr ⟨hhuman, hpattern, rfl⟩, ih.mpr ⟨hrest, rfl⟩⟩

/-! ### What a batch makes of its answers -/

end OpenFgaEngine

/-- The answer counts for a position: it has no error, and the position is its correlation id. -/
def BatchSingle.answers (single : BatchSingle) (i : ℕ) : Bool :=
  match single.index with
  | .ok index => index == i && !single.errored
  | .error _ => false

namespace OpenFgaEngine

/-- What the answers say about a position: the last one that counts for it, if any does. -/
def answerFor (singles : List BatchSingle) (i : ℕ) : Option Bool :=
  (singles.filter fun single => single.answers i).getLast?.map BatchSingle.allowed

theorem answerFor_cons {single : BatchSingle} {rest : List BatchSingle} {i : ℕ} :
    answerFor (single :: rest) i = (answerFor rest i).or
      (if single.answers i then some single.allowed else none) := by
  unfold answerFor
  by_cases h : single.answers i = true
  · rw [List.filter_cons, if_pos h, if_pos h, List.getLast?_cons]
    cases (rest.filter fun single => single.answers i).getLast? <;> rfl
  · rw [List.filter_cons, if_neg h, if_neg h, Option.or_none]

/-- **A batch is read position by position**: in whatever order and number the answers come, a
position gets the last answer that counts for it, and keeps what it had if there is none. -/
theorem fill_eq_ok_iff {results out : List Bool} {singles : List BatchSingle} :
    fill results singles = .ok out ↔
      (∀ single ∈ singles, ∃ index, single.index = .ok index) ∧
        ∀ i, out[i]? = results[i]?.map fun old => (answerFor singles i).getD old := by
  -- the induction is on the answers that are still to come
  induction singles generalizing results with
  | nil =>
    rw [fill]
    refine ⟨fun h => ⟨fun _ hs => absurd hs List.not_mem_nil, fun i => ?_⟩, fun h => ?_⟩
    · obtain rfl := Except.ok.inj h
      cases results[i]? <;> rfl
    · refine congrArg Except.ok (List.ext_getElem? fun i => ?_)
      rw [h.2 i]
      cases results[i]? <;> rfl
  | cons single rest ih =>
    rw [fill]
    cases hindex : single.index with
    | error exc =>
      refine iff_of_false (fun h => by cases h) fun h => ?_
      obtain ⟨index, hok⟩ := h.1 single List.mem_cons_self
      rw [hindex] at hok
      cases hok
    | ok index =>
      have hread : ∀ i, single.answers i = true ↔ index = i ∧ single.errored = false := by
        intro i
        simp [BatchSingle.answers, hindex]
      have hall : (∀ s ∈ single :: rest, ∃ index, s.index = .ok index) ↔
          ∀ s ∈ rest, ∃ index, s.index = .ok index :=
        List.forall_mem_cons.trans (and_iff_right ⟨index, hindex⟩)
      rw [hall]
      change (if single.errored then fill results rest else
        if 0 ≤ index ∧ index < results.length then
          fill (results.set index.toNat single.allowed) rest
        else fill results rest) = .ok out ↔ _
      -- an answer with an error counts for no position
      by_cases herrored : single.errored = true
      · rw [if_pos herrored, ih]
        refine and_congr_right fun _ => forall_congr' fun i => ?_
        have hno : ¬ single.answers i = true := fun h =>
          Bool.noConfusion (((hread i).mp h).2.symm.trans herrored)
        rw [answerFor_cons, if_neg hno, Option.or_none]
      rw [if_neg herrored]
      by_cases hrange : 0 ≤ index ∧ index < results.length
      · rw [if_pos hrange, ih]
        refine and_congr_right fun _ => forall_congr' fun i => ?_
        rw [answerFor_cons]
        -- the answer is written at its own position, and a later one may replace it
        by_cases hi : i = index.toNat
        · have hyes : single.answers i = true := by
            refine (hread i).mpr ⟨?_, by simpa using herrored⟩
            omega
          have hlt : i < results.length := by omega
          subst hi
          rw [if_pos hyes, List.getElem?_set_self hlt, List.getElem?_eq_getElem hlt,
            Option.map_some, Option.map_some]
          cases answerFor rest index.toNat <;> rfl
        · have hno : ¬ single.answers i = true := fun h => hi (by
            have := ((hread i).mp h).1
            omega)
          rw [if_neg hno, Option.or_none, List.getElem?_set_ne (Ne.symm hi)]
      · rw [if_neg hrange, ih]
        refine and_congr_right fun _ => forall_congr' fun i => ?_
        rw [answerFor_cons]
        by_cases hyes : single.answers i = true
        · -- the correlation id is none of the batch, so the position is not there
          have hout : results.length ≤ i := by
            have := ((hread i).mp hyes).1
            omega
          rw [List.getElem?_eq_none hout, Option.map_none, Option.map_none]
        · rw [if_neg hyes, Option.or_none]

/-! ### When a question is asked -/

end OpenFgaEngine

/-- The event leaves the guard standing: the connectors were fresh once more, a call raised, or the
adapter paused. -/
def Standing : Event EngineSig → Prop
  | ⟨.assertFresh, r⟩ => r = .ok ()
  | ⟨.check _ _ _, r⟩ => ∃ exc, r = .error exc
  | ⟨.batchCheck _, r⟩ => ∃ exc, r = .error exc
  | ⟨.listObjects _ _ _, r⟩ => ∃ exc, r = .error exc
  | ⟨.sleep, _⟩ => True
  | _ => False

/-- The connectors were fresh, and nothing but failures has happened since. -/
def Backed (h : Trace EngineSig) : Prop :=
  ∃ earlier since, h = earlier ++ ⟨.assertFresh, .ok ()⟩ :: since ∧ ∀ e ∈ since, Standing e

theorem Backed.snoc {h : Trace EngineSig} {e : Event EngineSig} (hb : Backed h)
    (he : Standing e) : Backed (h ++ [e]) := by
  obtain ⟨earlier, since, rfl, hsince⟩ := hb
  refine ⟨earlier, since ++ [e], ?_, fun x hx => ?_⟩
  · rw [List.append_assoc, List.cons_append]
  · rcases List.mem_append.mp hx with hx | hx
    · exact hsince x hx
    · rw [List.mem_singleton.mp hx]
      exact he

/-- The call is a question to OpenFGA about the subject. -/
def EngineOp.AsksAbout (subject : String) : EngineOp → Prop
  | .check user _ _ => user = subject
  | .batchCheck checks => ∃ check ∈ checks, check.user = subject
  | .listObjects user _ _ => user = subject
  | _ => False

/-- A question is only asked about a human, and only while the guard stands. -/
def Guarded (h : Trace EngineSig) (o : EngineOp) : Prop :=
  ∀ subject, o.AsksAbout subject → isRef subject "user" = true ∧ Backed h

namespace OpenFgaEngine

variable {E : OpenFgaEngine} {subject relation obj : String} {items : List (String × String)}
  {tr : Trace EngineSig}

/-- After the guard has returned, it stands. -/
theorem backed_guard {h : Trace EngineSig} (hguard : Raises.Run (guard subject obj) tr (.ok ())) :
    isRef subject "user" = true ∧ Backed (h ++ tr) := by
  obtain ⟨hhuman, -, rfl⟩ := guard_run.mp hguard
  exact ⟨hhuman, h, [], rfl, fun _ he => absurd he List.not_mem_nil⟩

theorem spec_guard {h : Trace EngineSig} :
    Raises.Spec Guarded (fun _ _ => True) (guard subject obj) h := by
  refine Raises.Spec.seq (Raises.spec_ofExcept.mpr trivial) fun _ _ _ => ?_
  refine Raises.Spec.seq (Raises.spec_ofExcept.mpr trivial) fun _ _ _ => ?_
  exact ⟨fun _ hasks => absurd hasks id, fun _ => trivial⟩

theorem spec_guardAll {h : Trace EngineSig} :
    Raises.Spec Guarded (fun _ _ => True) (guardAll subject items) h := by
  induction items generalizing h with
  | nil => trivial
  | cons item rest ih => exact spec_guard.seq fun _ _ _ => ih

/-- The guard of a batch stands where the batch asks about something. -/
theorem backed_guardAll {h : Trace EngineSig} (hitems : items ≠ [])
    (hguard : Raises.Run (guardAll subject items) tr (.ok ())) :
    isRef subject "user" = true ∧ Backed (h ++ tr) := by
  obtain ⟨item, rest, rfl⟩ := List.exists_cons_of_ne_nil hitems
  -- the first item has the guard stand, and the others find the connectors fresh once more
  obtain ⟨hall, rfl⟩ := guardAll_run.mp hguard
  refine ⟨(hall item List.mem_cons_self).1, h, rest.map fun _ => ⟨.assertFresh, .ok ()⟩, rfl, ?_⟩
  intro e he
  obtain ⟨_, -, rfl⟩ := List.mem_map.mp he
  rfl

/-- A question that is asked again after a failure is asked under the same guard. -/
theorem spec_call {α : Type} (what : String) (left : ℕ) {o : EngineOp} {k : o.Res → Except Exn α}
    {h : Trace EngineSig} (hb : Backed h) (hasks : ∀ s, o.AsksAbout s → isRef s "user" = true)
    (hk : ∀ r exc, k r = .error exc → Standing ⟨o, r⟩) :
    Raises.Spec Guarded (fun _ _ => True)
      (call what (⟨.call o fun r => .ret (k r)⟩ : Adapter α) left) h := by
  have hoperation : ∀ h', Backed h' → Raises.Spec Guarded
      (fun h'' x => ∀ exc, x = .error exc → Backed h'')
      (⟨.call o fun r => .ret (k r)⟩ : Adapter α) h' := by
    intro h' hb'
    exact ⟨fun s hs => ⟨hasks s hs, hb'⟩, fun r exc hexc => hb'.snoc (hk r exc hexc)⟩
  -- the induction is on the attempts left; what carries it is that the guard still stands
  induction left generalizing h with
  | zero =>
    rw [call]
    refine Raises.spec_bind.mpr (Raises.spec_attempt.mpr ((hoperation h hb).imp fun h' x _ => ?_))
    cases x with
    | ok a => trivial
    | error exc => trivial
  | succ left ih =>
    rw [call]
    refine Raises.spec_bind.mpr (Raises.spec_attempt.mpr ((hoperation h hb).imp fun h' x hx => ?_))
    cases x with
    | ok a => trivial
    | error exc =>
      -- the pause asks nothing, and the next attempt comes after a failure
      refine ⟨fun _ hs => absurd hs id, fun u => ?_⟩
      exact ih ((hx exc rfl).snoc trivial)

theorem spec_check {h : Trace EngineSig} :
    Raises.Spec Guarded (fun _ _ => True) (E.check subject relation obj) h := by
  refine spec_guard.seq fun tr _ hguard => ?_
  obtain ⟨hhuman, hb⟩ := backed_guard hguard (h := h)
  have hcall := spec_call "check" E.maxRetries (o := .check subject relation obj) (k := id)
    hb (fun s hs => hs ▸ hhuman) fun r exc hr => ⟨exc, hr⟩
  exact Raises.Spec.seq hcall fun _ _ _ => trivial

theorem spec_batchCheck {h : Trace EngineSig} :
    Raises.Spec Guarded (fun _ _ => True) (E.batchCheck subject items) h := by
  unfold batchCheck
  by_cases hitems : items = []
  · rw [if_pos hitems]
    trivial
  rw [if_neg hitems]
  refine spec_guardAll.seq fun tr _ hguard => ?_
  obtain ⟨hhuman, hb⟩ := backed_guardAll hitems hguard (h := h)
  -- every check of the batch is about the one subject
  have hasks : ∀ s, EngineOp.AsksAbout s (.batchCheck (checksOf subject items)) →
      isRef s "user" = true := by
    rintro s ⟨check, hcheck, rfl⟩
    obtain ⟨_, -, rfl⟩ := List.mem_map.mp hcheck
    exact hhuman
  have hcall := spec_call "batch_check" E.maxRetries (k := id) hb hasks
    fun r exc hr => ⟨exc, hr⟩
  exact Raises.Spec.seq hcall fun _ _ _ => trivial

theorem spec_listObjects {type_ : String} {h : Trace EngineSig} :
    Raises.Spec Guarded (fun _ _ => True) (E.listObjects subject relation type_) h := by
  refine spec_guard.seq fun tr _ hguard => ?_
  obtain ⟨hhuman, hb⟩ := backed_guard hguard (h := h)
  exact spec_call "list_objects" E.maxRetries
    (o := .listObjects subject relation type_) (k := id) hb (fun s hs => hs ▸ hhuman)
    fun r exc hr => ⟨exc, hr⟩

/-! ### What an answer rests on -/

end OpenFgaEngine

/-- OpenFGA has answered that the subject is related to the object: by a check, or by the last
answer that counts for its position in a batch. -/
def Vouches (subject relation obj : String) : Event EngineSig → Prop
  | ⟨.check s r o, answer⟩ => s = subject ∧ r = relation ∧ o = obj ∧ answer = .ok (some true)
  | ⟨.batchCheck checks, answer⟩ => ∃ i singles,
      checks[i]? = some ⟨subject, relation, obj, String.ofList (Decimal.natText i)⟩ ∧
        answer = .ok singles ∧ OpenFgaEngine.answerFor singles i = some true
  | _ => False

namespace OpenFgaEngine

variable {E : OpenFgaEngine} {subject relation obj : String} {items : List (String × String)}
  {tr : Trace EngineSig}

/-- A retried call that returns has its answer from its last event. -/
theorem call_ok {what : String} {o : EngineOp} {α : Type} {k : o.Res → Except Exn α} {left : ℕ}
    {a : α}
    (h : Raises.Run (call what (⟨.call o fun r => .ret (k r)⟩ : Adapter α) left) tr (.ok a)) :
    ∃ r, ⟨o, r⟩ ∈ tr ∧ k r = .ok a := by
  -- what the failures before it were does not matter
  obtain ⟨n, failed, last, -, rfl, ⟨-, a', hlast, heq⟩ | ⟨-, exc, -, heq⟩⟩ := call_run.mp h
  · obtain rfl := Except.ok.inj heq
    obtain ⟨r, tr', rfl, hret⟩ := Prog.run_call.mp hlast
    obtain ⟨rfl, hk⟩ := Prog.run_ret.mp hret
    exact ⟨r, List.mem_append_right _ List.mem_cons_self, hk.symm⟩
  · cases heq

/-- A check is True only where OpenFGA has answered so. -/
theorem check_true (h : Raises.Run (E.check subject relation obj) tr (.ok true)) :
    ∃ e ∈ tr, Vouches subject relation obj e := by
  obtain ⟨_, tr₁, tr₂, rfl, -, hrest⟩ := Raises.run_bind_ok.mp h
  obtain ⟨allowed, tr₃, tr₄, rfl, hcall, hret⟩ := Raises.run_bind_ok.mp hrest
  obtain ⟨rfl, hallowed⟩ := Raises.run_pure_ok.mp hret
  obtain ⟨r, hmem, hr⟩ := call_ok (o := .check subject relation obj) (k := id) hcall
  refine ⟨_, List.mem_append_right _ (List.mem_append_left _ hmem), rfl, rfl, rfl, ?_⟩
  -- an answer without `allowed` counts as False
  cases allowed with
  | none => cases hallowed
  | some b =>
    obtain rfl : true = b := hallowed
    exact hr

theorem checksOf_getElem? {i : ℕ} :
    (checksOf subject items)[i]? = items[i]?.map fun item =>
      ⟨subject, item.1, item.2, String.ofList (Decimal.natText i)⟩ := by
  unfold checksOf
  rw [List.getElem?_map, List.getElem?_zipIdx, Nat.zero_add, Option.map_map]
  rfl

/-- **A batch answers for its items**: there is one answer for each, and it is True only where
OpenFGA has answered so for this position. -/
theorem batchCheck_run {related : List Bool}
    (h : Raises.Run (E.batchCheck subject items) tr (.ok related)) :
    related.length = items.length ∧
      ∀ (i : ℕ) (item : String × String), items[i]? = some item → related[i]? = some true →
        ∃ e ∈ tr, Vouches subject item.1 item.2 e := by
  unfold batchCheck at h
  by_cases hitems : items = []
  · rw [if_pos hitems] at h
    obtain ⟨rfl, rfl⟩ := Raises.run_pure_ok.mp h
    subst hitems
    exact ⟨rfl, fun i item hi => by cases hi⟩
  rw [if_neg hitems] at h
  obtain ⟨_, tr₁, tr₂, rfl, -, hrest⟩ := Raises.run_bind_ok.mp h
  obtain ⟨singles, tr₃, tr₄, rfl, hcall, hfill⟩ := Raises.run_bind_ok.mp hrest
  obtain ⟨rfl, hfilled⟩ := Raises.run_ofExcept.mp hfill
  obtain ⟨r, hmem, hr⟩ :=
    call_ok (o := .batchCheck (checksOf subject items)) (k := id) hcall
  have hread := (fill_eq_ok_iff.mp hfilled.symm).2
  -- `fill` writes into a list of its own length
  have hlength : related.length = items.length := by
    have hnone : ∀ i, related[i]? = none ↔ items.length ≤ i := by
      intro i
      rw [hread i, Option.map_eq_none_iff, List.getElem?_eq_none_iff, List.length_replicate]
    refine Nat.le_antisymm ?_ ?_
    · exact List.getElem?_eq_none_iff.mp ((hnone _).mpr (Nat.le_refl _))
    · exact (hnone _).mp (List.getElem?_eq_none (Nat.le_refl _))
  refine ⟨hlength, fun i item hi htrue => ?_⟩
  refine ⟨_, List.mem_append_right _ (List.mem_append_left _ hmem), i, singles, ?_, hr, ?_⟩
  · rw [checksOf_getElem?, hi]
    rfl
  · -- before the answers every position is False
    have hlt : i < items.length := (List.getElem?_eq_some_iff.mp hi).1
    rw [hread i, List.getElem?_replicate, if_pos hlt, Option.map_some] at htrue
    cases hanswer : answerFor singles i with
    | none =>
      rw [hanswer] at htrue
      cases htrue
    | some b =>
      rw [hanswer] at htrue
      exact congrArg some (Option.some.inj htrue)

/-- **The batches that return**: every guard lets its item through, the batch is asked until it
answers, no more often than the retries allow, every answer has a number for its correlation id,
and an item has the last answer that counts for its position, and False if there is none. -/
theorem batchCheck_ok_iff {related : List Bool} (hitems : items ≠ []) :
    Raises.Run (E.batchCheck subject items) tr (.ok related) ↔
      isRef subject "user" = true ∧ (∀ item ∈ items, isResourcePattern item.2 = true) ∧
        ∃ n failed singles, n ≤ E.maxRetries ∧
          Failed (Adapter.batchCheck (checksOf subject items)) n failed ∧
          tr = (items.map fun _ => ⟨.assertFresh, .ok ()⟩) ++ failed ++
            [⟨.batchCheck (checksOf subject items), .ok singles⟩] ∧
          (∀ single ∈ singles, ∃ index, single.index = .ok index) ∧
          ∀ i, related[i]? = items[i]?.map fun _ => (answerFor singles i).getD false := by
  -- a position without an answer that counts stays False
  have hread : ∀ {singles : List BatchSingle},
      fill (List.replicate items.length false) singles = .ok related ↔
        (∀ single ∈ singles, ∃ index, single.index = .ok index) ∧
          ∀ i, related[i]? = items[i]?.map fun _ => (answerFor singles i).getD false := by
    intro singles
    refine fill_eq_ok_iff.trans (and_congr_right fun _ => forall_congr' fun i => ?_)
    rw [List.getElem?_replicate]
    by_cases hi : i < items.length
    · rw [if_pos hi, List.getElem?_eq_getElem hi]
      rfl
    · rw [if_neg hi, List.getElem?_eq_none (Nat.le_of_not_lt hi)]
      rfl
  -- the subject is checked with every item, and there is one
  have hhuman : (∀ item ∈ items, isRef subject "user" = true ∧ isResourcePattern item.2 = true) ↔
      isRef subject "user" = true ∧ ∀ item ∈ items, isResourcePattern item.2 = true := by
    refine ⟨fun h => ⟨?_, fun item hitem => (h item hitem).2⟩,
      fun h item hitem => ⟨h.1, h.2 item hitem⟩⟩
    obtain ⟨item, hitem⟩ := List.exists_mem_of_ne_nil items hitems
    exact (h item hitem).1
  unfold batchCheck
  rw [if_neg hitems]
  refine Raises.run_bind_ok.trans ⟨?_, ?_⟩
  · -- the run in its three parts: the guards, the attempts, the answers read
    rintro ⟨_, tr₁, tr₂, rfl, hguard, hrest⟩
    obtain ⟨hall, rfl⟩ := guardAll_run.mp hguard
    obtain ⟨hsubject, hpatterns⟩ := hhuman.mp hall
    obtain ⟨singles, tr₃, tr₄, rfl, hcall, hfill⟩ := Raises.run_bind_ok.mp hrest
    obtain ⟨rfl, hfilled⟩ := Raises.run_ofExcept.mp hfill
    obtain ⟨n, failed, last, hfailed, rfl, ⟨hn, a, hlast, heq⟩ | ⟨-, exc, -, heq⟩⟩ :=
      call_run.mp hcall
    · obtain rfl := Except.ok.inj heq
      obtain rfl := Raises.run_invoke.mp hlast
      refine ⟨hsubject, hpatterns, n, failed, singles, hn, hfailed, ?_, hread.mp hfilled.symm⟩
      rw [List.append_nil, List.append_assoc]
    · cases heq
  · rintro ⟨hsubject, hpatterns, n, failed, singles, hn, hfailed, rfl, hsingles⟩
    refine ⟨(), _, failed ++ _, List.append_assoc _ _ _,
      guardAll_run.mpr ⟨hhuman.mpr ⟨hsubject, hpatterns⟩, rfl⟩, ?_⟩
    refine Raises.run_bind_ok.mpr ⟨singles, _, [], (List.append_nil _).symm, ?_,
      Raises.run_ofExcept.mpr ⟨rfl, (hread.mpr hsingles).symm⟩⟩
    exact call_run.mpr ⟨n, failed, _, hfailed, rfl,
      .inl ⟨hn, singles, Raises.run_invoke.mpr rfl, rfl⟩⟩

/-- A batch that is asked twice, and answered out of order. -/
theorem batchCheck_ok_iff_outOfOrder :
    ∃ tr, Raises.Run ((⟨1, fun _ => true⟩ : OpenFgaEngine).batchCheck "user:alice"
      [("viewer", "doc:1"), ("viewer", "doc:2")]) tr (.ok [true, false]) := by
  have hfailed := Raises.run_invoke.mpr (rfl : ([⟨.batchCheck (checksOf "user:alice"
    [("viewer", "doc:1"), ("viewer", "doc:2")]), .error (.other "TimeoutError")⟩] :
      Trace EngineSig) = _)
  refine ⟨_, (batchCheck_ok_iff (by decide)).mpr ⟨by decide, by decide, 1, _,
    [⟨.ok 1, true, true⟩, ⟨.ok 0, false, true⟩, ⟨.ok 7, false, true⟩], by decide,
    .cons hfailed .nil, rfl, ?_, fun i => ?_⟩⟩
  · simp
  · rcases i with _ | _ | i <;> rfl

end OpenFgaEngine

end HeadOfContext
