import HeadOfContext.Core.Decision
import HeadOfContext.Framework.Sequential

/-!
# The collaborators of the core

The calls the core makes outside itself: the clock, identifiers, the authorization
engine, the decision policy and the audit sink. A collaborator that may fail answers
with an exception or a value. Nothing else is assumed of any answer here.
-/

namespace HeadOfContext

open Effects

/-- A call of the core. -/
inductive CoreOp where
  /-- `clock.now()`, in microseconds. -/
  | now
  /-- `uuid.uuid4().hex`. -/
  | uuid4
  /-- `_elapsed_ms(started)`. -/
  | elapsedMs
  /-- `engine.check(subject, relation, obj)`. -/
  | check (subject relation obj : String)
  /-- `engine.batch_check(subject, items)`. -/
  | batchCheck (subject : String) (items : List (String × String))
  /-- `policy.evaluate(chain, action, resource, args, context)`. -/
  | policy (chain : PrincipalChain) (action : Action) (resource : String) (args : Args)
      (context : DecisionContext)
  /-- `audit.record(event)`. -/
  | record (event : AuditEvent)

/-- The answer to each call. -/
abbrev CoreOp.Res : CoreOp → Type
  | now => ℤ
  | uuid4 => String
  | elapsedMs => PyFloat
  | check _ _ _ => Except Exn Bool
  | batchCheck _ _ => Except Exn (List Bool)
  | policy _ _ _ _ _ => Except Exn Verdict
  | record _ => Except Exn Unit

/-- The interface of the core. -/
abbrev CoreSig : Sig := ⟨CoreOp, CoreOp.Res⟩

/-- A method of the core. -/
abbrev Core := Raises CoreSig Exn

namespace Core

variable {S : Sig} {α : Type}

/-- A computation that may raise an error of the package. -/
def ofHoc (x : Except HocError α) : Raises S Exn α :=
  .ofExcept (match x with
    | .error e => .error (.hoc e)
    | .ok a => .ok a)

/-- A computation that returned issued no call. -/
theorem run_ofHoc_ok {x : Except HocError α} {tr : Trace S} {a : α} :
    Raises.Run (ofHoc x : Raises S Exn α) tr (.ok a) ↔ tr = [] ∧ x = .ok a := by
  unfold ofHoc
  rw [Raises.run_ofExcept]
  cases x with
  | error e => simp
  | ok b => simp [eq_comm]

/-- Against fixed answers, a computation that may raise is itself. -/
@[simp] theorem result_ofHoc {answer : ∀ o, S.Res o} {x : Except HocError α} :
    Raises.result answer (ofHoc x : Raises S Exn α) = x.mapError .hoc := by
  cases x <;> rfl

theorem returns_ofHoc {W : World S} {Q : α → W.State → Prop} {s : W.State} {x : Except HocError α} :
    Raises.Returns W Q (ofHoc x : Raises S Exn α) s ↔ ∀ a, x = .ok a → Q a s := by
  refine Raises.returns_ofExcept.trans ?_
  cases x <;> simp

def now : Core ℤ := .lift (.invoke (S := CoreSig) .now)

def uuid4 : Core String := .lift (.invoke (S := CoreSig) .uuid4)

def elapsedMs : Core PyFloat := .lift (.invoke (S := CoreSig) .elapsedMs)

def check (subject relation obj : String) : Core Bool :=
  ⟨.invoke (S := CoreSig) (.check subject relation obj)⟩

def batchCheck (subject : String) (items : List (String × String)) : Core (List Bool) :=
  ⟨.invoke (S := CoreSig) (.batchCheck subject items)⟩

def policy (chain : PrincipalChain) (action : Action) (resource : String) (args : Args)
    (context : DecisionContext) : Core Verdict :=
  ⟨.invoke (S := CoreSig) (.policy chain action resource args context)⟩

def record (event : AuditEvent) : Core Unit := ⟨.invoke (S := CoreSig) (.record event)⟩

end Core

end HeadOfContext
