import HeadOfContext.Actions.ApprovalStores
import HeadOfContext.Framework.JsonText
import HeadOfContext.Framework.Line
import HeadOfContext.Framework.Upsert
import HeadOfContext.Tokens.PostgresMandates

/-!
# The base of the PostgreSQL stores

`PostgresStore` takes a connection from the pool for each statement and turns an error of the
driver into the error of the store: the database refuses the statement, or the connection fails
before or after it is carried out. A statement that returned nothing may have changed the table.
-/

namespace HeadOfContext

open Sql

namespace PostgresStore

variable {R : Relation} (cls : HocClass) (line : Line)

/-- `raise self.unavailable(failure)`. -/
def failed {α : Type} (failure : String) : Except Exn α := .error (.hoc (cls.error failure))

/-- `_run`: a statement that changes the table. -/
def run (t : KeyedRows R) (statement : Option (KeyedRows R)) (failure : String) :
    KeyedRows R × Except Exn Unit :=
  match line, statement with
  | .up, some t' => (t', .ok ())
  | .lost, some t' => (t', failed cls failure)
  | _, _ => (t, failed cls failure)

/-- `_query`. -/
def query (rows : Option (List Row)) (failure : String) : Except Exn (List Row) :=
  match line, rows with
  | .up, some rows => .ok rows
  | _, _ => failed cls failure

/-- `_one`. -/
def one (rows : Option (List Row)) (failure : String) : Except Exn (Option Row) :=
  (query cls line rows failure).map List.head?

variable {cls} {t t' : KeyedRows R} {failure : String}

@[simp] theorem run_up : run cls .up t (some t') failure = (t', .ok ()) := rfl

@[simp] theorem run_refused {statement : Option (KeyedRows R)} :
    run cls .refused t statement failure = (t, failed cls failure) := rfl

@[simp] theorem run_none : run cls line t none failure = (t, failed cls failure) := by
  cases line <;> rfl

/-- A statement whose answer is lost changes what it would have changed. -/
theorem run_lost {statement : Option (KeyedRows R)} :
    run cls .lost t statement failure =
      ((run cls .up t statement failure).1, failed cls failure) := by
  cases statement <;> rfl

@[simp] theorem query_up {rows : List Row} :
    query cls .up (some rows) failure = .ok rows := rfl

@[simp] theorem query_refused {rows : Option (List Row)} :
    query cls .refused rows failure = failed cls failure := rfl

@[simp] theorem query_lost {rows : Option (List Row)} :
    query cls .lost rows failure = failed cls failure := rfl

@[simp] theorem one_refused {rows : Option (List Row)} :
    one cls .refused rows failure = failed cls failure := rfl

@[simp] theorem one_lost {rows : Option (List Row)} :
    one cls .lost rows failure = failed cls failure := rfl

/-! ### JSON in a column -/

/-- `str(value)`. A text with a surrogate is none that a store was given. -/
def textOf (repr : Json → PyStr) (v : Json) : Except Exn String :=
  match PyStr.text (Scope.strOf repr v) with
  | some s => .ok s
  | none => .error (.other "UnicodeEncodeError")

@[simp] theorem textOf_str (repr : Json → PyStr) (s : String) : textOf repr (s : Json) = .ok s := by
  simp [textOf, Scope.strOf, PyStr.text_ofString]

/-- The text of any value is one that the database takes. -/
theorem plain_text (ft : Json.FloatText) (v : Json) : plain (Json.text ft v) = true := by
  refine decide_eq_true fun hmem => ?_
  have hgraphic := Json.graphic_text ft _ _ hmem
  exact absurd hgraphic (by decide)

end PostgresStore

/-- The same outcome is one of the same. -/
theorem SameOutcome.refl {α : Type} {R : α → α → Prop} (hR : ∀ a, R a a) (x : Except Exn α) :
    SameOutcome R x x := by
  cases x with
  | ok a => exact .ok (hR a)
  | error e =>
    cases e with
    | hoc e => exact .error ⟨rfl, rfl⟩
    | other name => exact .error rfl

end HeadOfContext
