import Mathlib.Algebra.Group.Int.Defs
import Mathlib.Data.List.Forall2
import Mathlib.Data.List.Sort
import Mathlib.Tactic.Common

/-!
# Tables and statements

A table is the list of its rows, each a list of values in the order of the columns. It carries
its constraints: every value is one that its column holds, and no two rows share their primary
key. `Table.insert`, `Table.update` and `Table.select` run one statement, whose parameters
stand for its placeholders in the order of the text; `none` is an error of the database, which
leaves the table as it was.

A comparison with null is not known to hold, so it selects nothing. The order in which a table
lists its rows is not observed: a query that returns several rows orders them itself.
-/

namespace Sql

/-- What a row holds in a column. -/
inductive Value where
  | null
  | text (s : String)
  | int (n : ℤ)
  | timestamp (t : ℤ)
  deriving DecidableEq

/-- What a placeholder stands for: a value, or an array of texts. -/
inductive Param where
  | value (v : Value)
  | texts (l : List String)
  deriving DecidableEq

/-- A text that the database takes: none of its characters is U+0000. -/
def plain (s : String) : Bool := decide (Char.ofNat 0 ∉ s.toList)

/-- A parameter that can be sent. -/
def Param.sendable : Param → Bool
  | .value (.text s) => plain s
  | .value _ => true
  | .texts l => l.all plain

inductive ColumnType where
  | text | integer | timestamptz
  deriving DecidableEq

/-- A column with its type, and whether it may be null. -/
structure Column where
  name : String
  type : ColumnType
  nullable : Bool := false

/-- The values of a type: an `INTEGER` has 32 bits. -/
def ColumnType.holds : ColumnType → Value → Bool
  | text, .text s => plain s
  | integer, .int n => decide (-2 ^ 31 ≤ n ∧ n < 2 ^ 31)
  | timestamptz, .timestamp _ => true
  | _, _ => false

/-- The values of a column. -/
def Column.Holds (c : Column) : Value → Prop
  | .null => c.nullable = true
  | v => c.type.holds v = true

instance (c : Column) : DecidablePred c.Holds := fun v => by
  cases v <;> exact inferInstanceAs (Decidable (_ = _))

@[simp] theorem holds_text {name : String} {b : Bool} {s : String} :
    (Column.mk name .text b).Holds (.text s) ↔ plain s = true := Iff.rfl

@[simp] theorem holds_integer {name : String} {b : Bool} {n : ℤ} :
    (Column.mk name .integer b).Holds (.int n) ↔ -2 ^ 31 ≤ n ∧ n < 2 ^ 31 := decide_eq_true_iff

@[simp] theorem holds_timestamptz {name : String} {b : Bool} {t : ℤ} :
    (Column.mk name .timestamptz b).Holds (.timestamp t) ↔ True := iff_of_true rfl trivial

@[simp] theorem holds_null {c : Column} : c.Holds .null ↔ c.nullable = true := Iff.rfl

theorem sendable_of_holds {c : Column} {v : Value} (h : c.Holds v) :
    (Param.value v).sendable = true := by
  cases v with
  | text s =>
    obtain ⟨name, type, b⟩ := c
    cases type with
    | text => exact h
    | integer => exact nomatch h
    | timestamptz => exact nomatch h
  | null => rfl
  | int n => rfl
  | timestamp t => rfl

/-- The columns of a table, and the column of its primary key. -/
structure Schema where
  columns : List Column
  key : String

/-- The values of a row, in the order of the columns. -/
abbrev Row := List Value

namespace Schema

def names (S : Schema) : List String := S.columns.map Column.name

/-- The value of the row in a column. -/
def value (S : Schema) (row : Row) (name : String) : Value :=
  ((S.names.zip row).lookup name).getD .null

/-- Every value is one that its column holds. -/
def Holds (S : Schema) (row : Row) : Prop := List.Forall₂ Column.Holds S.columns row

/-- The rows meet the constraints of the table. -/
structure Valid (S : Schema) (rows : List Row) : Prop where
  holds : ∀ row ∈ rows, S.Holds row
  unique : (rows.map fun row => S.value row S.key).Nodup

instance (S : Schema) (row : Row) : Decidable (S.Holds row) :=
  inferInstanceAs (Decidable (List.Forall₂ Column.Holds S.columns row))

instance (S : Schema) (rows : List Row) : Decidable (S.Valid rows) :=
  decidable_of_iff ((∀ row ∈ rows, S.Holds row) ∧
    (rows.map fun row => S.value row S.key).Nodup) ⟨fun h => ⟨h.1, h.2⟩, fun h => ⟨h.1, h.2⟩⟩

/-- The row with other values in some columns. -/
def assign (S : Schema) (values : List (String × Value)) (row : Row) : Row :=
  (S.names.zip row).map fun e => (values.lookup e.1).getD e.2

/-- The columns of the row, as a query lists them. -/
def project (S : Schema) (columns : List String) (row : Row) : Row := columns.map (S.value row)

end Schema

/-- A condition on a column and a parameter. -/
inductive Test where
  /-- `column = %s` -/
  | eq (column : String)
  /-- `column < %s`, on integers or instants -/
  | lt (column : String)
  /-- `column = ANY(%s)` -/
  | any (column : String)

/-- The condition is known to hold of the row. -/
def Test.passes (S : Schema) : Test → Param → Row → Bool
  | .eq column, .value v, row => v ≠ .null && S.value row column = v
  | .lt column, .value v, row =>
    match S.value row column, v with
    | .int a, .int b => a < b
    | .timestamp a, .timestamp b => a < b
    | _, _ => false
  | .any column, .texts l, row =>
    match S.value row column with
    | .text s => l.contains s
    | _ => false
  | _, _, _ => false

/-- The conditions of a `WHERE` are all known to hold of the row. -/
def selects (S : Schema) (tests : List Test) (params : List Param) (row : Row) : Bool :=
  (tests.zip params).all fun e => e.1.passes S e.2 row

/-- The value for an assignment, unless it is an array. -/
def Param.value? : Param → Option Value
  | .value v => some v
  | .texts _ => none

/-- The order of `ORDER BY` on integers or instants: null stands last. -/
def Value.le : Value → Value → Bool
  | .int a, .int b => a ≤ b
  | .timestamp a, .timestamp b => a ≤ b
  | _, .null => true
  | _, _ => false

/-- A table whose rows meet its constraints. -/
structure Table (S : Schema) where
  rows : List Row
  valid : S.Valid rows

namespace Table

variable {S : Schema}

/-- `CREATE TABLE`. -/
def empty : Table S := ⟨[], ⟨fun _ h => absurd h List.not_mem_nil, .nil⟩⟩

/-- The end of a statement: the constraints are checked. -/
def commit (rows : List Row) : Option (Table S) :=
  if h : S.Valid rows then some ⟨rows, h⟩ else none

/-- `INSERT INTO … (columns) VALUES (%s, …)`: a column that is not named is null. -/
def insert (t : Table S) (columns : List String) (values : List Value) : Option (Table S) :=
  if columns.length = values.length ∧ values.all (fun v => (Param.value v).sendable) then
    commit (t.rows ++ [S.names.map fun name => ((columns.zip values).lookup name).getD .null])
  else none

/-- `UPDATE … SET column = %s, … WHERE …`: the table after it, and the rows it changed, as they
are then. -/
def update (t : Table S) (columns : List String) (tests : List Test) (params : List Param) :
    Option (Table S × List Row) :=
  if params.length = columns.length + tests.length ∧ params.all Param.sendable ∧ columns.Nodup then
    match (params.take columns.length).mapM Param.value? with
    | none => none
    | some values =>
      let changes := selects S tests (params.drop columns.length)
      let change := S.assign (columns.zip values)
      (commit (t.rows.map fun row => if changes row then change row else row)).map fun t' =>
        (t', (t.rows.filter changes).map change)
  else none

/-- `SELECT columns FROM … WHERE … ORDER BY column`. -/
def select (t : Table S) (columns : List String) (tests : List Test) (params : List Param)
    (orderBy : String) : Option (List Row) :=
  if params.length = tests.length ∧ params.all Param.sendable then
    some (((t.rows.filter (selects S tests params)).insertionSort fun a b =>
      (S.value a orderBy).le (S.value b orderBy) = true).map (S.project columns))
  else none

/-! ### What a statement does -/

theorem commit_of_valid {rows : List Row} (h : S.Valid rows) : commit rows = some ⟨rows, h⟩ :=
  dif_pos h

theorem commit_of_not_valid {rows : List Row} (h : ¬S.Valid rows) :
    (commit rows : Option (Table S)) = none := dif_neg h

/-- Listing all the columns of a row in their order gives the row. -/
theorem project_names {row : Row} (hnames : S.names.Nodup) (hlen : row.length = S.names.length) :
    S.project S.names row = row := by
  have hzip : ∀ (names : List String) (row : Row), names.Nodup → row.length = names.length →
      names.map (fun name => ((names.zip row).lookup name).getD .null) = row := by
    intro names
    induction names with
    | nil =>
      intro row _ hlen
      exact (List.length_eq_zero_iff.mp hlen).symm
    | cons name names ih =>
      intro row hnodup hlen
      obtain ⟨hnew, hrest⟩ := List.nodup_cons.mp hnodup
      match row, hlen with
      | v :: row, hlen =>
        have htail := ih row hrest (Nat.succ.inj hlen)
        simp only [List.zip_cons_cons, List.map_cons, List.lookup_cons_self, Option.getD_some]
        congr 1
        refine Eq.trans (List.map_congr_left fun n hn => ?_) htail
        -- the first column is not among the others
        have hne : (n == name) = false := by
          refine beq_false_of_ne fun h => hnew ?_
          exact h ▸ hn
        rw [List.lookup_cons, hne]
  exact hzip S.names row hnames hlen

theorem length_of_holds {row : Row} (h : S.Holds row) : row.length = S.names.length := by
  rw [Schema.names, List.length_map]
  exact h.length_eq.symm

theorem sendable_of_mem {row : Row} (h : S.Holds row) :
    ∀ v ∈ row, (Param.value v).sendable = true := by
  intro v hv
  obtain ⟨i, hi, rfl⟩ := List.getElem_of_mem hv
  have hlen : i < S.columns.length := by
    rwa [h.length_eq]
  exact sendable_of_holds (h.get hlen hi)

/-- **An insertion of a whole row** adds it, unless that breaks a constraint. -/
theorem insert_names {t : Table S} {row : Row} (hnames : S.names.Nodup) (h : S.Holds row) :
    t.insert S.names row = commit (t.rows ++ [row]) := by
  have hlen := length_of_holds h
  rw [insert, if_pos ⟨hlen.symm, List.all_eq_true.mpr (sendable_of_mem h)⟩]
  exact congrArg (fun r => commit (t.rows ++ [r])) (project_names hnames hlen)

/-- What an insertion of a whole row adds. -/
theorem rows_of_insert {t t' : Table S} {row : Row} (hnames : S.names.Nodup)
    (hlen : row.length = S.names.length) (h : t.insert S.names row = some t') :
    t'.rows = t.rows ++ [row] := by
  unfold insert at h
  split_ifs at h with hsent
  have hrow : (S.names.map fun name => ((S.names.zip row).lookup name).getD .null) = row :=
    project_names hnames hlen
  rw [hrow] at h
  unfold commit at h
  split_ifs at h with hvalid
  exact congrArg Table.rows (Option.some.inj h).symm

/-- **A query for a primary key** lists the one row that has it. -/
theorem select_key {t : Table S} {row : Row} {v : Value} {orderBy : String}
    (hnames : S.names.Nodup) (hmem : row ∈ t.rows) (hkey : S.value row S.key = v)
    (hv : v ≠ .null) (hsend : (Param.value v).sendable = true) :
    t.select S.names [.eq S.key] [.value v] orderBy = some [row] := by
  have hselects : ∀ r, selects S [.eq S.key] [.value v] r = decide (S.value r S.key = v) := by
    intro r
    simp [selects, Test.passes, hv]
  have hfilter : t.rows.filter (selects S [.eq S.key] [.value v]) = [row] := by
    obtain ⟨pre, post, hrows⟩ := List.append_of_mem hmem
    have hunique := t.valid.unique
    rw [hrows, List.map_append, List.map_cons, List.nodup_append] at hunique
    obtain ⟨-, hpost, hpre⟩ := hunique
    -- no other row has the key
    have hbefore : pre.filter (selects S [.eq S.key] [.value v]) = [] := by
      refine List.filter_eq_nil_iff.mpr fun r hr hsel => ?_
      rw [hselects, decide_eq_true_iff] at hsel
      exact hpre _ (List.mem_map_of_mem hr) _ List.mem_cons_self (hsel.trans hkey.symm)
    have hafter : post.filter (selects S [.eq S.key] [.value v]) = [] := by
      refine List.filter_eq_nil_iff.mpr fun r hr hsel => ?_
      rw [hselects, decide_eq_true_iff] at hsel
      exact (List.nodup_cons.mp hpost).1 (List.mem_map.mpr ⟨r, hr, hsel.trans hkey.symm⟩)
    rw [hrows, List.filter_append, List.filter_cons, hbefore, hafter, hselects,
      if_pos (decide_eq_true hkey), List.nil_append]
  have hrow : S.project S.names row = row :=
    project_names hnames (length_of_holds (t.valid.holds row hmem))
  have hsent : ([.value v] : List Param).all Param.sendable = true := by
    rw [List.all_cons, List.all_nil, hsend, Bool.true_and]
  rw [select, if_pos ⟨rfl, hsent⟩, hfilter]
  show some [S.project S.names row] = some [row]
  rw [hrow]

theorem mapM_value? (values : List Value) :
    (values.map Param.value).mapM Param.value? = some values := by
  induction values with
  | nil => rfl
  | cons v values ih => rw [List.map_cons, List.mapM_cons, ih]; rfl

/-- **An update** changes the rows that its conditions select, if the rows it leaves meet the
constraints. -/
theorem update_eq {t : Table S} {columns : List String} {tests : List Test} {values : List Value}
    {params : List Param} (hcolumns : columns.Nodup) (hvalues : values.length = columns.length)
    (hparams : params.length = tests.length)
    (hsend : ∀ p ∈ values.map Param.value ++ params, p.sendable = true)
    (hvalid : S.Valid (t.rows.map fun row =>
      if selects S tests params row then S.assign (columns.zip values) row else row)) :
    t.update columns tests (values.map .value ++ params) =
      some (⟨_, hvalid⟩, (t.rows.filter (selects S tests params)).map
        (S.assign (columns.zip values))) := by
  have hlen : (values.map Param.value ++ params).length = columns.length + tests.length := by
    rw [List.length_append, List.length_map, hvalues, hparams]
  have htake : (values.map Param.value ++ params).take columns.length = values.map .value := by
    rw [← hvalues, ← List.length_map (f := Param.value), List.take_left]
  have hdrop : (values.map Param.value ++ params).drop columns.length = params := by
    rw [← hvalues, ← List.length_map (f := Param.value), List.drop_left]
  have hmap := mapM_value? values
  rw [update, if_pos ⟨hlen, List.all_eq_true.mpr hsend, hcolumns⟩, htake, hmap, hdrop]
  simp only [commit_of_valid hvalid, Option.map_some]

/-- **A query** lists the rows that its conditions select, in some order. -/
theorem select_perm {t : Table S} {columns : List String} {tests : List Test}
    {params : List Param} {orderBy : String} (hlen : params.length = tests.length)
    (hsend : ∀ p ∈ params, p.sendable = true) :
    ∃ rows, t.select columns tests params orderBy = some rows ∧
      rows.Perm ((t.rows.filter (selects S tests params)).map (S.project columns)) :=
  ⟨_, if_pos ⟨hlen, List.all_eq_true.mpr hsend⟩, (List.perm_insertionSort _ _).map _⟩

end Table

end Sql
