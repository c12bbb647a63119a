import HeadOfContext.Framework.Dict
import HeadOfContext.Framework.Sql

/-!
# Tables under a key of several columns

A `Relation` has a primary key of any number of columns and further `UNIQUE` constraints, and a
`KeyedRows` table carries both. `KeyedRows.insertOrIgnore` and `KeyedRows.upsert` are the two
insertions with an `ON CONFLICT (key)`; they resolve a conflict on the primary key alone, so a row
that meets another `UNIQUE` is refused. `none` is an error of the database, as in `Sql.Table`.

A query without `ORDER BY` lists its rows in an order of the database's own, an `Arrangement`.

A `Layout` says how the entries of a dictionary stand in such a table, one row each. Under it an
insertion that ignores a conflict is `Dict.setdefault`, one that updates is `Dict.set`, a
deletion by key is `Dict.pop` and a query by key is `Dict.get`.
-/

namespace Sql

/-- The columns of a table, those of its primary key, and those of each further `UNIQUE`. None
of these may be null. -/
structure Relation where
  columns : List Column
  key : List String
  unique : List (List String) := []

namespace Relation

/-- The columns. Nothing here asks for the key of the schema. -/
abbrev schema (R : Relation) : Schema := ⟨R.columns, R.key.headD ""⟩

/-- The values of the row in the columns of the primary key. -/
def keyOf (R : Relation) (row : Row) : List Value := R.schema.project R.key row

/-- The rows meet the constraints of the table. -/
structure Valid (R : Relation) (rows : List Row) : Prop where
  holds : ∀ row ∈ rows, R.schema.Holds row
  key : (rows.map R.keyOf).Nodup
  unique : ∀ columns ∈ R.unique, (rows.map (R.schema.project columns)).Nodup

instance decidableValid (R : Relation) (rows : List Row) : Decidable (R.Valid rows) :=
  decidable_of_iff ((∀ row ∈ rows, R.schema.Holds row) ∧ (rows.map R.keyOf).Nodup ∧
    ∀ columns ∈ R.unique, (rows.map (R.schema.project columns)).Nodup)
    ⟨fun h => ⟨h.1, h.2.1, h.2.2⟩, fun h => ⟨h.holds, h.key, h.unique⟩⟩

/-- The row of `INSERT INTO … (columns) VALUES (…)`: a column that is not named is null. -/
def filled (R : Relation) (columns : List String) (values : List Value) : Row :=
  R.schema.names.map fun name => ((columns.zip values).lookup name).getD .null

/-- `SET column = EXCLUDED.column, …`: the row that is there, with the columns of the one that
was proposed. -/
def excluded (R : Relation) (columns : List String) (proposed row : Row) : Row :=
  R.schema.assign (columns.map fun name => (name, R.schema.value proposed name)) row

theorem Valid.sublist {R : Relation} {rows rows' : List Row} (h : R.Valid rows)
    (hsub : List.Sublist rows' rows) : R.Valid rows' where
  holds := fun row hrow => h.holds row (hsub.subset hrow)
  key := h.key.sublist (hsub.map _)
  unique := fun columns hcolumns => (h.unique columns hcolumns).sublist (hsub.map _)

end Relation

/-- The order in which the database lists the rows of a query that does not ask for one. -/
structure Arrangement where
  order : List Row → List Row
  perm : ∀ rows, (order rows).Perm rows

/-- A table whose rows meet its constraints. -/
structure KeyedRows (R : Relation) where
  rows : List Row
  valid : R.Valid rows

/-- The rows as they are stored. -/
def asStored : Arrangement := ⟨id, fun _ => .refl _⟩

namespace KeyedRows

variable {R : Relation}

/-- `CREATE TABLE`. -/
def empty : KeyedRows R where
  rows := []
  valid := ⟨fun _ h => absurd h List.not_mem_nil, .nil, fun _ _ => .nil⟩

/-- The end of a statement: the constraints are checked. -/
def commit (rows : List Row) : Option (KeyedRows R) :=
  if h : R.Valid rows then some ⟨rows, h⟩ else none

/-- A row of the table has the primary key of this one. -/
def has (t : KeyedRows R) (row : Row) : Bool := t.rows.any fun r => R.keyOf r = R.keyOf row

/-- The values can be sent, and make up a row that the columns hold. -/
def Insertable (R : Relation) (columns : List String) (values : List Value) : Prop :=
  columns.length = values.length ∧ (values.all fun v => (Param.value v).sendable) = true ∧
    R.schema.Holds (R.filled columns values)

instance decidableInsertable (columns : List String) (values : List Value) :
    Decidable (Insertable R columns values) := inferInstanceAs (Decidable (_ ∧ _ ∧ _))

/-- `INSERT INTO … (columns) VALUES (…) ON CONFLICT (key) DO NOTHING`. -/
def insertOrIgnore (t : KeyedRows R) (columns : List String) (values : List Value) :
    Option (KeyedRows R) :=
  if Insertable R columns values then
    if t.has (R.filled columns values) then some t
    else commit (t.rows ++ [R.filled columns values])
  else none

/-- `INSERT INTO … (columns) VALUES (…) ON CONFLICT (key) DO UPDATE SET column =
EXCLUDED.column, …`, where the columns set are `assigned`. -/
def upsert (t : KeyedRows R) (columns : List String) (values : List Value)
    (assigned : List String) :
    Option (KeyedRows R) :=
  if Insertable R columns values then
    let proposed := R.filled columns values
    if t.has proposed then
      commit (t.rows.map fun row =>
        if R.keyOf row = R.keyOf proposed then R.excluded assigned proposed row else row)
    else commit (t.rows ++ [proposed])
  else none

/-- `DELETE FROM … WHERE …`. -/
def delete (t : KeyedRows R) (tests : List Test) (params : List Param) : Option (KeyedRows R) :=
  if params.length = tests.length ∧ params.all Param.sendable then
    some ⟨t.rows.filter fun row => !selects R.schema tests params row,
      t.valid.sublist List.filter_sublist⟩
  else none

/-- `SELECT columns FROM … WHERE …`. -/
def select (a : Arrangement) (t : KeyedRows R) (columns : List String) (tests : List Test)
    (params : List Param) : Option (List Row) :=
  if params.length = tests.length ∧ params.all Param.sendable then
    some ((a.order (t.rows.filter (selects R.schema tests params))).map
      (R.schema.project columns))
  else none

theorem commit_of_valid {rows : List Row} (h : R.Valid rows) : commit rows = some ⟨rows, h⟩ :=
  dif_pos h

theorem commit_of_not_valid {rows : List Row} (h : ¬R.Valid rows) :
    (commit rows : Option (KeyedRows R)) = none := dif_neg h

theorem has_iff {t : KeyedRows R} {row : Row} :
    t.has row = true ↔ R.keyOf row ∈ t.rows.map R.keyOf := by
  unfold has
  rw [List.any_eq_true, List.mem_map]
  simp only [decide_eq_true_eq]

end KeyedRows

/-! ### Dictionaries in a table -/

/-- How the entries of a dictionary stand in a table: one row each, under a primary key that
tells the keys of the dictionary apart. -/
structure Layout (R : Relation) (κ ν : Type) where
  row : κ → ν → Row
  keyOf_iff : ∀ {k v k' v'}, R.keyOf (row k v) = R.keyOf (row k' v') ↔ k = k'

namespace Layout

variable {R : Relation} {κ ν : Type} (L : Layout R κ ν)

/-- The row of an entry. -/
def entry (e : κ × ν) : Row := L.row e.1 e.2

/-- The table holds the entries of the dictionary and nothing else. -/
def Represents (t : KeyedRows R) (d : Dict κ ν) : Prop := t.rows = d.entries.map L.entry

/-- No other entry has the values of this one in the columns of a `UNIQUE`. -/
def Apart (d : Dict κ ν) (k : κ) (v : ν) : Prop :=
  ∀ columns ∈ R.unique, ∀ e ∈ d.entries, e.1 ≠ k →
    R.schema.project columns (L.entry e) ≠ R.schema.project columns (L.row k v)

variable {L} {t : KeyedRows R} {d : Dict κ ν} {k : κ} {v : ν}

theorem has_iff (h : L.Represents t d) : t.has (L.row k v) = true ↔ k ∈ d.keys := by
  rw [KeyedRows.has_iff, h, List.map_map, List.mem_map, Dict.keys, List.mem_map]
  constructor
  · rintro ⟨e, he, hkey⟩
    exact ⟨e, he, L.keyOf_iff.mp hkey⟩
  · rintro ⟨e, he, rfl⟩
    exact ⟨e, he, L.keyOf_iff.mpr rfl⟩

/-- Rows with keys of the dictionary that are apart meet the constraints. -/
theorem valid_iff {d : Dict κ ν} : R.Valid (d.entries.map L.entry) ↔
    (∀ e ∈ d.entries, R.schema.Holds (L.entry e)) ∧
      ∀ columns ∈ R.unique,
        (d.entries.map fun e => R.schema.project columns (L.entry e)).Nodup := by
  constructor
  · intro h
    refine ⟨fun e he => h.holds _ (List.mem_map_of_mem he), fun columns hcolumns => ?_⟩
    have hunique := h.unique columns hcolumns
    rwa [List.map_map] at hunique
  · rintro ⟨hholds, hunique⟩
    refine ⟨fun row hrow => ?_, ?_, fun columns hcolumns => ?_⟩
    · obtain ⟨e, he, rfl⟩ := List.mem_map.mp hrow
      exact hholds e he
    · rw [List.map_map]
      refine List.Nodup.map_on (fun e he e' he' hkey => ?_) (List.Nodup.of_map _ d.nodup)
      -- two entries under one key are the same entry
      exact List.inj_on_of_nodup_map d.nodup he he' (L.keyOf_iff.mp hkey)
    · rw [List.map_map]
      exact hunique columns hcolumns

/-- **A query** lists the rows of the entries that its conditions select. -/
theorem select (a : Arrangement) (columns : List String) {tests : List Test}
    {params : List Param} {p : κ × ν → Bool} (h : L.Represents t d)
    (hlen : params.length = tests.length) (hsend : ∀ q ∈ params, q.sendable = true)
    (hp : ∀ e ∈ d.entries, selects R.schema tests params (L.entry e) = p e) :
    ∃ rows, t.select a columns tests params = some rows ∧
      rows.Perm ((d.entries.filter p).map fun e => R.schema.project columns (L.entry e)) := by
  refine ⟨_, if_pos ⟨hlen, List.all_eq_true.mpr hsend⟩, ?_⟩
  refine ((a.perm _).map _).trans ?_
  have hfilter : t.rows.filter (selects R.schema tests params) =
      (d.entries.filter p).map L.entry := by
    rw [show t.rows = _ from h, List.filter_map]
    exact congrArg (List.map L.entry) (List.filter_congr hp)
  rw [hfilter, List.map_map]
  exact .refl _

variable [DecidableEq κ]

/-- What the constraints ask of an entry that is set: that its row is one the columns hold, and
that no other entry has its values in the columns of a `UNIQUE`. -/
theorem valid_set (h : L.Represents t d) :
    R.Valid ((d.set k v).entries.map L.entry) ↔ R.schema.Holds (L.row k v) ∧ L.Apart d k v := by
  have hvalid : R.Valid (d.entries.map L.entry) := h ▸ t.valid
  obtain ⟨hholds, hunique⟩ := valid_iff.mp hvalid
  -- the entries after the assignment: this one, and those under other keys
  have hmem : ∀ e, e ∈ (d.set k v).entries ↔ e = (k, v) ∨ e ∈ d.entries ∧ e.1 ≠ k := by
    rintro ⟨k', v'⟩
    rw [Dict.mem_entries, Dict.get_set, Dict.mem_entries, Prod.mk.injEq]
    by_cases hk : k' = k
    · rw [if_pos hk, Option.some.injEq]
      constructor
      · intro hv
        exact .inl ⟨hk, hv.symm⟩
      · rintro (⟨-, hv⟩ | ⟨-, hne⟩)
        · exact hv.symm
        · exact absurd hk hne
    · rw [if_neg hk]
      constructor
      · intro hget
        exact .inr ⟨hget, hk⟩
      · rintro (⟨heq, -⟩ | ⟨hget, -⟩)
        · exact absurd heq hk
        · exact hget
  rw [valid_iff]
  constructor
  · rintro ⟨hset, hapart⟩
    refine ⟨hset (k, v) ((hmem _).mpr (.inl rfl)), fun columns hcolumns e he hne heq => hne ?_⟩
    have hnodup := hapart columns hcolumns
    have hsame := List.inj_on_of_nodup_map hnodup ((hmem e).mpr (.inr ⟨he, hne⟩))
      ((hmem (k, v)).mpr (.inl rfl)) heq
    exact congrArg Prod.fst hsame
  · rintro ⟨hrow, hapart⟩
    refine ⟨fun e he => ?_, fun columns hcolumns => ?_⟩
    · rcases (hmem e).mp he with rfl | ⟨hold, -⟩
      · exact hrow
      · exact hholds e hold
    · refine List.Nodup.map_on (fun e he e' he' heq => ?_)
        (List.Nodup.of_map _ (d.set k v).nodup)
      -- the entry that is set is apart from the others, and these are apart among themselves
      rcases (hmem e).mp he with rfl | ⟨hold, hne⟩
      · rcases (hmem e').mp he' with rfl | ⟨hold', hne'⟩
        · rfl
        · exact absurd heq.symm (hapart columns hcolumns e' hold' hne')
      · rcases (hmem e').mp he' with rfl | ⟨hold', hne'⟩
        · exact absurd heq (hapart columns hcolumns e hold hne)
        · exact List.inj_on_of_nodup_map (hunique columns hcolumns) hold hold' heq

/-- **An insertion that ignores conflicts** is `setdefault`: it is refused where the entry is
new and a `UNIQUE` stands in its way. -/
theorem insertOrIgnore {columns : List String} {values : List Value} (h : L.Represents t d)
    (hins : KeyedRows.Insertable R columns values) (hrow : R.filled columns values = L.row k v)
    (hapart : L.Apart d k v) :
    ∃ t', t.insertOrIgnore columns values = some t' ∧ L.Represents t' (d.setdefault k v) := by
  have hholds : R.schema.Holds (L.row k v) := hrow ▸ hins.2.2
  rw [KeyedRows.insertOrIgnore, if_pos hins, hrow]
  -- a conflict is an entry under the key, which `setdefault` leaves as well
  by_cases hk : k ∈ d.keys
  · refine ⟨t, if_pos ((has_iff h).mpr hk), ?_⟩
    obtain ⟨v', hget⟩ := Dict.mem_keys.mp hk
    rw [Dict.setdefault, if_pos (by rw [hget]; rfl)]
    exact h
  · have hget : d.get k = none := by
      refine Option.eq_none_iff_forall_ne_some.mpr fun v' hget => hk ?_
      exact Dict.mem_keys.mpr ⟨v', hget⟩
    have hentries : (d.set k v).entries.map L.entry = t.rows ++ [L.row k v] := by
      rw [Dict.entries_set_of_notMem hk, List.map_append, ← show t.rows = _ from h]
      rfl
    have hvalid : R.Valid (t.rows ++ [L.row k v]) :=
      hentries ▸ (valid_set h).mpr ⟨hholds, hapart⟩
    refine ⟨⟨_, hvalid⟩, ?_, ?_⟩
    · rw [if_neg fun hhas => hk ((has_iff h).mp hhas), KeyedRows.commit_of_valid hvalid]
    · rw [Dict.setdefault, if_neg (by rw [hget]; exact Bool.false_ne_true)]
      exact hentries.symm

/-- The rows that an upsert of the entry leaves. -/
theorem rows_upsert {assigned : List String} (h : L.Represents t d)
    (hassign : ∀ v', R.excluded assigned (L.row k v) (L.row k v') = L.row k v) :
    (if t.has (L.row k v) then
      t.rows.map fun row => if R.keyOf row = R.keyOf (L.row k v)
        then R.excluded assigned (L.row k v) row else row
    else t.rows ++ [L.row k v]) = (d.set k v).entries.map L.entry := by
  -- the entry is written in its place where the key is there, and at the end where it is not
  by_cases hk : k ∈ d.keys
  · rw [if_pos ((has_iff h).mpr hk), Dict.entries_set_of_mem hk, List.map_map,
      show t.rows = _ from h, List.map_map]
    refine List.map_congr_left fun e he => ?_
    obtain ⟨k', v'⟩ := e
    by_cases hkey : k' = k
    · subst hkey
      -- the row of the key is replaced, whatever value it had
      have hsame : R.keyOf (L.row k' v') = R.keyOf (L.row k' v) := L.keyOf_iff.mpr rfl
      show (if R.keyOf (L.row k' v') = R.keyOf (L.row k' v) then _ else _) =
        L.entry (if _ then _ else _)
      rw [if_pos hsame, if_pos rfl]
      exact hassign v'
    · have hother : ¬R.keyOf (L.row k' v') = R.keyOf (L.row k v) := fun heq =>
        hkey (L.keyOf_iff.mp heq)
      show (if R.keyOf (L.row k' v') = R.keyOf (L.row k v) then _ else _) =
        L.entry (if _ then _ else _)
      rw [if_neg hother, if_neg hkey]
  · rw [if_neg fun hhas => hk ((has_iff h).mp hhas), Dict.entries_set_of_notMem hk,
      List.map_append, show t.rows = _ from h]
    rfl

theorem upsert_eq_commit {columns assigned : List String} {values : List Value}
    (h : L.Represents t d) (hins : KeyedRows.Insertable R columns values)
    (hrow : R.filled columns values = L.row k v)
    (hassign : ∀ v', R.excluded assigned (L.row k v) (L.row k v') = L.row k v) :
    t.upsert columns values assigned = KeyedRows.commit ((d.set k v).entries.map L.entry) := by
  rw [← rows_upsert h hassign, KeyedRows.upsert, if_pos hins, hrow]
  by_cases hhas : t.has (L.row k v) = true
  · simp only [if_pos hhas]
  · simp only [if_neg hhas]

/-- **An upsert of a whole entry** is an assignment, where no `UNIQUE` stands in its way. -/
theorem upsert {columns assigned : List String} {values : List Value} (h : L.Represents t d)
    (hins : KeyedRows.Insertable R columns values) (hrow : R.filled columns values = L.row k v)
    (hassign : ∀ v', R.excluded assigned (L.row k v) (L.row k v') = L.row k v)
    (hapart : L.Apart d k v) :
    ∃ t', t.upsert columns values assigned = some t' ∧ L.Represents t' (d.set k v) := by
  have hvalid : R.Valid ((d.set k v).entries.map L.entry) :=
    (valid_set h).mpr ⟨hrow ▸ hins.2.2, hapart⟩
  refine ⟨⟨_, hvalid⟩, ?_, rfl⟩
  rw [upsert_eq_commit h hins hrow hassign, KeyedRows.commit_of_valid hvalid]

/-- **An upsert is refused** where another entry has the values of a `UNIQUE`. -/
theorem upsert_refused {columns assigned : List String} {values : List Value}
    (h : L.Represents t d) (hins : KeyedRows.Insertable R columns values)
    (hrow : R.filled columns values = L.row k v)
    (hassign : ∀ v', R.excluded assigned (L.row k v) (L.row k v') = L.row k v)
    (hapart : ¬L.Apart d k v) : t.upsert columns values assigned = none := by
  rw [upsert_eq_commit h hins hrow hassign, KeyedRows.commit_of_not_valid]
  intro hvalid
  exact hapart ((valid_set h).mp hvalid).2

/-- **A query for a key** lists the one entry under it. -/
theorem select_key {a : Arrangement} {columns : List String} {tests : List Test}
    {params : List Param} (h : L.Represents t d)
    (hlen : params.length = tests.length) (hsend : ∀ q ∈ params, q.sendable = true)
    (hp : ∀ e, selects R.schema tests params (L.entry e) = decide (e.1 = k)) :
    t.select a columns tests params =
      some (((d.get k).map fun v => R.schema.project columns (L.row k v)).toList) := by
  obtain ⟨rows, hselect, hperm⟩ := select a columns h hlen hsend
    fun e _ => hp e
  rw [hselect]
  refine congrArg some ?_
  cases hget : d.get k with
  | none =>
    have hfilter : d.entries.filter (fun e => decide (e.1 = k)) = [] := by
      refine List.filter_eq_nil_iff.mpr fun e he heq => ?_
      exact Dict.ne_of_get_eq_none hget e he (of_decide_eq_true heq)
    rw [hfilter] at hperm
    exact hperm.eq_nil
  | some v =>
    have hmem : (k, v) ∈ d.entries := Dict.mem_entries.mpr hget
    -- the keys of a dictionary differ, so nothing before or after the entry is under its key
    have hfilter : d.entries.filter (fun e => decide (e.1 = k)) = [(k, v)] := by
      obtain ⟨pre, post, hentries⟩ := List.append_of_mem hmem
      have hnodup := d.nodup
      rw [hentries, List.map_append, List.map_cons, List.nodup_append] at hnodup
      obtain ⟨-, hpost, hpre⟩ := hnodup
      have hbefore : pre.filter (fun e => decide (e.1 = k)) = [] := by
        refine List.filter_eq_nil_iff.mpr fun e he heq => ?_
        exact hpre _ (List.mem_map_of_mem he) _ List.mem_cons_self (of_decide_eq_true heq)
      have hafter : post.filter (fun e => decide (e.1 = k)) = [] := by
        refine List.filter_eq_nil_iff.mpr fun e he heq => (List.nodup_cons.mp hpost).1 ?_
        exact List.mem_map.mpr ⟨e, he, of_decide_eq_true heq⟩
      rw [hentries, List.filter_append, List.filter_cons, hbefore, hafter,
        if_pos (decide_eq_true rfl), List.nil_append]
    rw [hfilter] at hperm
    exact List.perm_singleton.mp hperm

/-- **A deletion by key** is `pop`. -/
theorem delete {tests : List Test} {params : List Param} (h : L.Represents t d)
    (hlen : params.length = tests.length) (hsend : ∀ q ∈ params, q.sendable = true)
    (hp : ∀ e, selects R.schema tests params (L.entry e) = decide (e.1 = k)) :
    ∃ t', t.delete tests params = some t' ∧ L.Represents t' (d.pop k) := by
  refine ⟨_, if_pos ⟨hlen, List.all_eq_true.mpr hsend⟩, ?_⟩
  show t.rows.filter _ = (d.entries.filter _).map L.entry
  rw [show t.rows = _ from h, List.filter_map]
  -- a row goes where its entry does
  refine congrArg (List.map L.entry) (List.filter_congr fun e _ => ?_)
  rw [Function.comp_apply, hp e, decide_not]

end Layout

end Sql
