import HeadOfContext.Audit.Archive
import HeadOfContext.Framework.Pairs

/-!
# Exporting a journal that grows

`PostgresAuditSink.export` is a generator. It holds no connection between two rows that it yields,
and the sinks go on writing. An append takes the journal's lock before it takes a number, so the
table grows at its end, and that is all that is assumed of the other writers.

The generator follows the library's loop (`Exporting.follows`), so what it has yielded are at every
moment the first rows of the range, each once and in their order; what the loop cannot see are the
two ways to raise, at a query that the database refuses and at a payload that is no JSON. Over a
table that does not change, the generator returns exactly if every payload in the range loads, and
then it has yielded the range (`export_once`).
-/

namespace HeadOfContext

/-! ### The generator -/

/-- The table `audit_events`: its rows in the order of their numbers, which increase. -/
structure AuditTable where
  rows : List ChainRow
  increasing : rows.Pairwise fun a b => a.seq < b.seq

/-- The rows of a range. -/
def AuditTable.range (table : AuditTable) (sinceSeq : ℤ) (untilSeq : Option ℤ) : List ChainRow :=
  table.rows.filter (inRange sinceSeq untilSeq)

/-- Where the generator stands: in front of a query, in the loop over the rows of an answer, behind
its `return`, or behind an exception. -/
inductive ExportStage where
  | query (last : ℤ)
  | rows (rows : List ChainRow) (count : ℕ) (last : ℤ)
  | returned
  | raised (exc : Exn)

/-- The generator, with the values that it has yielded. -/
structure Export where
  yielded : List Json
  stage : ExportStage

namespace Export

/-- `export(since_seq=…)`, before the first value is asked for. -/
def start (sinceSeq : ℤ) : Export := ⟨[], .query sinceSeq⟩

/-- One step of `PostgresAuditSink.export`, over the table as it stands: a query that the database
answers, a row of the answer, or the test after its last row. -/
def advance (rt : DecodeRuntime) (untilSeq : Option ℤ) (batch : ℕ) (table : AuditTable)
    (g : Export) : Export :=
  match g.stage with
  | .query last =>
    let rows := exportBatch table.rows untilSeq batch last
    ⟨g.yielded, .rows rows rows.length last⟩
  | .rows (row :: rest) count _ =>
    match Json.loads rt.floatText row.payload with
    | none => ⟨g.yielded, .raised (.other "JSONDecodeError")⟩
    | some event => ⟨g.yielded ++ [exportedRow row event], .rows rest count row.seq⟩
  | .rows [] count last => ⟨g.yielded, if count < batch then .returned else .query last⟩
  | .returned | .raised _ => g

/-- A query that the database refuses. -/
def refuse (g : Export) : Export :=
  ⟨g.yielded, .raised (.hoc (HocClass.auditUnavailable.error "audit journal read failed"))⟩

/-- The generator is exhausted. -/
def Over (g : Export) : Prop := g.stage = .returned ∨ ∃ exc, g.stage = .raised exc

end Export

/-- The payload of the row is JSON. -/
def ChainRow.Loads (rt : DecodeRuntime) (row : ChainRow) : Prop :=
  (Json.loads rt.floatText row.payload).isSome = true

/-- What the generator yields for the row. -/
def ChainRow.YieldedAs (rt : DecodeRuntime) (row : ChainRow) (value : Json) : Prop :=
  ∃ event, Json.loads rt.floatText row.payload = some event ∧ value = exportedRow row event

/-- The generator has yielded the rows, each once and in the order of their numbers. -/
structure Export.Yielded (rt : DecodeRuntime) (rows : List ChainRow) (g : Export) : Prop where
  increasing : rows.Pairwise fun a b => a.seq < b.seq
  values : List.Forall₂ (ChainRow.YieldedAs rt) rows g.yielded

/-- The runs of the generator while rows are appended, with the number of its steps. -/
inductive Exporting (rt : DecodeRuntime) (sinceSeq : ℤ) (untilSeq : Option ℤ) (batch : ℕ)
    (table₀ : AuditTable) : ℕ → AuditTable → Export → Prop
  | start : Exporting rt sinceSeq untilSeq batch table₀ 0 table₀ (.start sinceSeq)
  | append {n : ℕ} {table table' : AuditTable} {g : Export}
      (h : Exporting rt sinceSeq untilSeq batch table₀ n table g)
      (hgrown : table.rows <+: table'.rows) :
      Exporting rt sinceSeq untilSeq batch table₀ n table' g
  | advance {n : ℕ} {table : AuditTable} {g : Export}
      (h : Exporting rt sinceSeq untilSeq batch table₀ n table g) (hrun : ¬ g.Over) :
      Exporting rt sinceSeq untilSeq batch table₀ (n + 1) table
        (g.advance rt untilSeq batch table)
  | refuse {n : ℕ} {table : AuditTable} {g : Export} {last : ℤ}
      (h : Exporting rt sinceSeq untilSeq batch table₀ n table g)
      (hquery : g.stage = .query last) :
      Exporting rt sinceSeq untilSeq batch table₀ (n + 1) table g.refuse

/-! ### The generator follows the loop -/

/-- Where the loop of the library stands, as long as the generator has not raised. -/
def ExportStage.loop : ExportStage → Option (Keyset.Stage ℤ ChainRow)
  | .query last => some (.asking last)
  | .rows page count last => some (.reading page count last)
  | .returned => some .finished
  | .raised _ => none

/-- The generator has yielded what the loop has read. It stands where the loop does, or it has
raised there. -/
structure Export.Follows (rt : DecodeRuntime) (g : Export) (r : Keyset.Reader ℤ ChainRow) :
    Prop where
  values : List.Forall₂ (ChainRow.YieldedAs rt) r.seen g.yielded
  stage : ∀ stage, g.stage.loop = some stage → r.stage = stage

/-- The step of the loop over the table. -/
def AuditTable.next (table : AuditTable) (untilSeq : Option ℤ) (batch : ℕ) :
    Keyset.Reader ℤ ChainRow → Keyset.Reader ℤ ChainRow :=
  Keyset.Reader.next ChainRow.seq
    (Keyset.pageAfter ChainRow.seq (upTo untilSeq table.rows) batch) batch

section Following

variable {rt : DecodeRuntime} {sinceSeq : ℤ} {untilSeq : Option ℤ} {batch n : ℕ}
  {table₀ table : AuditTable} {g : Export} {r : Keyset.Reader ℤ ChainRow}

namespace Export

theorem follows_start : (start sinceSeq).Follows rt (.start sinceSeq) :=
  ⟨.nil, fun _ h => Option.some.inj h⟩

/-- As long as the generator runs, so does the loop. -/
theorem Follows.running (h : g.Follows rt r) (hrun : ¬ g.Over) : r.stage ≠ .finished := by
  intro hend
  match hstage : g.stage with
  | .query last =>
    have hask := h.stage (.asking last) (by rw [hstage]; rfl)
    exact nomatch hend.symm.trans hask
  | .rows rows count last =>
    have hread := h.stage (.reading rows count last) (by rw [hstage]; rfl)
    exact nomatch hend.symm.trans hread
  | .returned => exact hrun (.inl hstage)
  | .raised exc => exact hrun (.inr ⟨exc, hstage⟩)

/-- **One step of the generator** is one step of the loop, but at a payload that is no JSON: there
the generator raises, and it has yielded what it had. -/
theorem Follows.advance (h : g.Follows rt r) (hrun : ¬ g.Over) (untilSeq : Option ℤ) (batch : ℕ)
    (table : AuditTable) :
    ((g.advance rt untilSeq batch table).Follows rt (table.next untilSeq batch r) ∧
        ∀ exc, (g.advance rt untilSeq batch table).stage ≠ .raised exc) ∨
      (g.advance rt untilSeq batch table = ⟨g.yielded, .raised (.other "JSONDecodeError")⟩ ∧
        ∃ row rest count last, r.stage = .reading (row :: rest) count last ∧ ¬ row.Loads rt) := by
  obtain ⟨yielded, stage⟩ := g
  obtain ⟨seen, stage'⟩ := r
  obtain ⟨hvalues, hstage⟩ := h
  -- one case for each point at which the export is suspended
  cases stage with
  | query last =>
    obtain rfl : stage' = .asking last := hstage _ rfl
    refine .inl ⟨⟨hvalues, fun s hs => ?_⟩, fun _ hraised => by cases hraised⟩
    rw [← Option.some.inj hs, exportBatch_eq]
    rfl
  | rows rows count last =>
    obtain rfl : stage' = .reading rows count last := hstage _ rfl
    cases rows with
    | nil =>
      rw [Export.advance, AuditTable.next, Keyset.Reader.next]
      dsimp only
      by_cases hshort : count < batch
      · rw [if_pos hshort, if_pos hshort]
        exact .inl ⟨⟨hvalues, fun s hs => Option.some.inj hs⟩, fun _ hraised => by cases hraised⟩
      · rw [if_neg hshort, if_neg hshort]
        exact .inl ⟨⟨hvalues, fun s hs => Option.some.inj hs⟩, fun _ hraised => by cases hraised⟩
    | cons row rest =>
      rw [Export.advance]
      dsimp only
      cases hload : Json.loads rt.floatText row.payload with
      | none =>
        refine .inr ⟨rfl, row, rest, count, last, rfl, ?_⟩
        rw [ChainRow.Loads, hload]
        exact Bool.false_ne_true
      | some event =>
        refine .inl ⟨⟨?_, fun s hs => Option.some.inj hs⟩, fun _ hraised => by cases hraised⟩
        exact List.rel_append hvalues (.cons ⟨event, hload, rfl⟩ .nil)
  | returned => exact absurd (.inl rfl) hrun
  | raised exc => exact absurd (.inr ⟨exc, rfl⟩) hrun

end Export

/-- The rows after the start, up to the last number asked for, are the range. -/
theorem AuditTable.after_upTo (table : AuditTable) (sinceSeq : ℤ) (untilSeq : Option ℤ) :
    Keyset.after ChainRow.seq (upTo untilSeq table.rows) sinceSeq =
      table.range sinceSeq untilSeq := HeadOfContext.after_upTo _ _ _

theorem upTo_append (untilSeq : Option ℤ) (rows rows' : List ChainRow) :
    upTo untilSeq (rows ++ rows') = upTo untilSeq rows ++ upTo untilSeq rows' :=
  List.filter_append ..

/-- **The generator follows the loop** through every run. Once it has raised it is one step ahead,
as the loop has not ended there. -/
theorem Exporting.follows (h : Exporting rt sinceSeq untilSeq batch table₀ n table g) :
    ∃ k r, Keyset.Reads ChainRow.seq batch sinceSeq (upTo untilSeq table₀.rows) k
        (upTo untilSeq table.rows) r ∧ g.Follows rt r ∧
      (k = n ∨ k + 1 = n ∧ (∃ exc, g.stage = .raised exc) ∧ r.stage ≠ .finished) := by
  -- the induction is on the steps; the reader makes every step but the one that raises
  induction h with
  | start => exact ⟨0, .start sinceSeq, .start, Export.follows_start, .inl rfl⟩
  | @append n table table' g _ hgrown ih =>
    obtain ⟨k, r, hreads, hfollows, hk⟩ := ih
    obtain ⟨rows, hrows⟩ := hgrown
    refine ⟨k, r, ?_, hfollows, hk⟩
    rw [← hrows, upTo_append]
    refine hreads.grow ?_
    rw [← upTo_append, hrows]
    exact increasing_upTo table'.increasing untilSeq
  | @advance n table g _ hrun ih =>
    obtain ⟨k, r, hreads, hfollows, hk⟩ := ih
    obtain rfl : k = n := hk.resolve_right fun ⟨_, hraised, _⟩ => hrun (.inr hraised)
    have hloop := hfollows.running hrun
    obtain ⟨hnext, -⟩ | ⟨hraises, -⟩ := hfollows.advance hrun untilSeq batch table
    · exact ⟨k + 1, _, hreads.next hloop, hnext, .inl rfl⟩
    · rw [hraises]
      exact ⟨k, r, hreads, ⟨hfollows.values, fun _ hs => nomatch hs⟩,
        .inr ⟨rfl, ⟨_, rfl⟩, hloop⟩⟩
  | @refuse n table g last _ hquery ih =>
    obtain ⟨k, r, hreads, hfollows, hk⟩ := ih
    have hrun : ¬ g.Over := by
      rintro (hreturned | ⟨exc, hraised⟩)
      · exact nomatch hquery.symm.trans hreturned
      · exact nomatch hquery.symm.trans hraised
    obtain rfl : k = n := hk.resolve_right fun ⟨_, hraised, _⟩ => hrun (.inr hraised)
    exact ⟨k, r, hreads, ⟨hfollows.values, fun _ hs => nomatch hs⟩,
      .inr ⟨rfl, ⟨_, rfl⟩, hfollows.running hrun⟩⟩

/-- What the loop has read, the generator has yielded. -/
theorem Export.Follows.yielded (h : g.Follows rt r)
    (hread : r.seen <+: table.range sinceSeq untilSeq) : g.Yielded rt r.seen := by
  have hrange : (table.range sinceSeq untilSeq).Pairwise fun a b => a.seq < b.seq :=
    table.increasing.sublist List.filter_sublist
  exact ⟨hrange.sublist hread.sublist, h.values⟩

/-- **At every moment of a run** the generator has yielded the first rows of the range; and once it
has returned, all those that were there when it started. -/
theorem Exporting.yielded (h : Exporting rt sinceSeq untilSeq batch table₀ n table g) :
    ∃ rows, rows <+: table.range sinceSeq untilSeq ∧ g.Yielded rt rows ∧
      (g.stage = .returned → table₀.range sinceSeq untilSeq <+: rows) := by
  obtain ⟨k, r, hreads, hfollows, -⟩ := h.follows
  have hsorted := increasing_upTo table₀.increasing untilSeq
  have hprefix : r.seen <+: table.range sinceSeq untilSeq := by
    rw [← AuditTable.after_upTo]
    exact hreads.seen_prefix hsorted
  refine ⟨r.seen, hprefix, hfollows.yielded hprefix, fun hreturned => ?_⟩
  have hend : r.stage = .finished := hfollows.stage _ (by rw [hreturned]; rfl)
  obtain ⟨t, hfirst, -, hseen⟩ := hreads.whole hsorted hend
  rw [hseen, ← AuditTable.after_upTo]
  exact Keyset.after_prefix hfirst sinceSeq

/-- **The generator makes no more steps** than three for each row of the range, and two. -/
theorem Exporting.steps_le (h : Exporting rt sinceSeq untilSeq batch table₀ n table g)
    (hbatch : 1 ≤ batch) : n ≤ 3 * (table.range sinceSeq untilSeq).length + 2 := by
  obtain ⟨k, r, hreads, -, hk⟩ := h.follows
  have hsteps := hreads.steps_le (increasing_upTo table₀.increasing untilSeq) hbatch
  rw [AuditTable.after_upTo] at hsteps
  obtain rfl | ⟨rfl, -, hloop⟩ := hk
  · omega
  · -- where the generator raised, the loop had a step left
    have hwork : 0 < r.work batch (table.range sinceSeq untilSeq).length :=
      Keyset.Reader.work_pos hloop
    omega

/-! ### Over a table that does not change -/

/-- An exhausted generator stays as it is. -/
theorem Export.advance_over (h : g.Over) : g.advance rt untilSeq batch table = g := by
  rw [Export.advance]
  obtain hreturned | ⟨exc, hraised⟩ := h
  · rw [hreturned]
  · rw [hraised]

/-- After any number of steps the generator stands where the loop does, or it has raised at a
payload of the range that is no JSON. -/
theorem follows_iterate (rt : DecodeRuntime) (table : AuditTable) (sinceSeq : ℤ)
    (untilSeq : Option ℤ) (batch m : ℕ) :
    (((Export.advance rt untilSeq batch table)^[m] (.start sinceSeq)).Follows rt
        ((table.next untilSeq batch)^[m] (.start sinceSeq)) ∧
      ∀ exc, ((Export.advance rt untilSeq batch table)^[m] (.start sinceSeq)).stage ≠
        .raised exc) ∨
    ((∃ exc, ((Export.advance rt untilSeq batch table)^[m] (.start sinceSeq)).stage =
        .raised exc) ∧
      ∃ row ∈ table.range sinceSeq untilSeq, ¬ row.Loads rt) := by
  -- the induction is on the steps: the export and the reader advance together
  induction m with
  | zero => exact .inl ⟨Export.follows_start, fun _ hraised => nomatch hraised⟩
  | succ m ih =>
    obtain ⟨k, hreads, -⟩ :=
      Keyset.reads_iterate ChainRow.seq batch sinceSeq (upTo untilSeq table.rows) m
    have hstep := hreads.inStep (increasing_upTo table.increasing untilSeq)
    rw [Function.iterate_succ_apply', Function.iterate_succ_apply']
    change Keyset.Reader.InStep _ _ _ _ _ ((table.next untilSeq batch)^[m] (.start sinceSeq))
      at hstep
    generalize (Export.advance rt untilSeq batch table)^[m] (.start sinceSeq) = g at ih ⊢
    generalize (table.next untilSeq batch)^[m] (.start sinceSeq) = r at ih hstep ⊢
    obtain ⟨hfollows, hquiet⟩ | ⟨⟨exc, hraised⟩, hbroken⟩ := ih
    · by_cases hover : g.Over
      · -- both have ended
        have hreturned : g.stage = .returned :=
          hover.resolve_right fun ⟨exc, hraised⟩ => hquiet exc hraised
        have hend : r.stage = .finished := hfollows.stage _ (by rw [hreturned]; rfl)
        rw [Export.advance_over hover, AuditTable.next, Keyset.Reader.next_finished hend]
        exact .inl ⟨hfollows, hquiet⟩
      · obtain hnext | ⟨hraises, row, rest, count, last, hstage, hbroken⟩ :=
          hfollows.advance hover untilSeq batch table
        · exact .inl hnext
        · -- the row is part of the page, and so of the range
          rw [Keyset.Reader.InStep, hstage] at hstep
          obtain ⟨-, hpage, -⟩ := hstep
          rw [AuditTable.after_upTo] at hpage
          have hrow : row ∈ table.range sinceSeq untilSeq :=
            hpage.subset (List.mem_append_right _ List.mem_cons_self)
          rw [hraises]
          exact .inr ⟨⟨_, rfl⟩, row, hrow, hbroken⟩
    · rw [Export.advance_over (.inr ⟨exc, hraised⟩)]
      exact .inr ⟨⟨exc, hraised⟩, hbroken⟩

/-- **Over a table that does not change** the generator ends. It returns exactly if every payload
of the range is JSON, and then it has yielded the range. -/
theorem export_unchanged (hbatch : 1 ≤ batch) {m : ℕ}
    (hm : 3 * (table.range sinceSeq untilSeq).length + 2 ≤ m)
    (hg : g = (Export.advance rt untilSeq batch table)^[m] (.start sinceSeq)) :
    g.Over ∧ (g.stage = .returned ↔ ∀ row ∈ table.range sinceSeq untilSeq, row.Loads rt) ∧
      (g.stage = .returned → g.Yielded rt (table.range sinceSeq untilSeq)) := by
  -- after this many steps the reader has finished, with the rows of the range
  have hend : (table.next untilSeq batch)^[m] (.start sinceSeq) =
      ⟨table.range sinceSeq untilSeq, .finished⟩ := by
    rw [← AuditTable.after_upTo] at hm ⊢
    exact Keyset.iterate_finished (increasing_upTo table.increasing untilSeq) hbatch hm
  obtain ⟨hfollows, hquiet⟩ | ⟨⟨exc, hraised⟩, row, hrow, hbroken⟩ :=
    follows_iterate rt table sinceSeq untilSeq batch m
  · rw [← hg, hend] at hfollows
    rw [← hg] at hquiet
    -- the export is where the reader is
    have hreturned : g.stage = .returned := by
      match hstage : g.stage with
      | .query last =>
        have hloop := hfollows.stage (.asking last) (by rw [hstage]; rfl)
        exact nomatch hloop
      | .rows rows count last =>
        have hloop := hfollows.stage (.reading rows count last) (by rw [hstage]; rfl)
        exact nomatch hloop
      | .returned => rfl
      | .raised exc => exact absurd hstage (hquiet exc)
    have hyielded : g.Yielded rt (table.range sinceSeq untilSeq) :=
      hfollows.yielded List.prefix_rfl
    refine ⟨.inl hreturned, iff_of_true hreturned fun row hrow => ?_, fun _ => hyielded⟩
    obtain ⟨value, -, event, hevent, -⟩ := hyielded.values.exists_left hrow
    rw [ChainRow.Loads, hevent]
    rfl
  · rw [← hg] at hraised
    have hnot : g.stage ≠ .returned := fun hreturned => nomatch hraised.symm.trans hreturned
    exact ⟨.inr ⟨exc, hraised⟩, iff_of_false hnot fun hall => hbroken (hall row hrow),
      fun hreturned => absurd hreturned hnot⟩

/-- A run goes on by any number of steps of the generator, up to where it is exhausted. -/
theorem Exporting.iterate (h : Exporting rt sinceSeq untilSeq batch table₀ n table g) (m : ℕ) :
    ∃ k, Exporting rt sinceSeq untilSeq batch table₀ k table
      ((Export.advance rt untilSeq batch table)^[m] g) := by
  induction m with
  | zero => exact ⟨n, h⟩
  | succ m ih =>
    obtain ⟨k, hrun⟩ := ih
    rw [Function.iterate_succ_apply']
    by_cases hover : ((Export.advance rt untilSeq batch table)^[m] g).Over
    · rw [Export.advance_over hover]
      exact ⟨k, hrun⟩
    · exact ⟨k + 1, hrun.advance hover⟩

/-- Every payload that the sink has written loads. -/
theorem Recorded.loads {events : List AuditEvent} {rows : List ChainRow}
    (h : Recorded rt events rows) (hevents : ∀ e ∈ events, e.ReadsBack rt) :
    ∀ row ∈ rows, row.Loads rt := by
  intro row hrow
  obtain ⟨event, hevent, -⟩ := ((h.spec hevents).1 row hrow).hash
  obtain ⟨data, hdata, -⟩ := eventFromPayload_eq_some.mp hevent
  rw [ChainRow.Loads, hdata]
  rfl

/-- **The export of a journal that the sink has written** returns, and it has yielded the rows that
`cmd_journal_export` goes through. -/
theorem Recorded.export_returns {events : List AuditEvent} (h : Recorded rt events table.rows)
    (hevents : ∀ e ∈ events, e.ReadsBack rt) (hbatch : 1 ≤ batch) {fuel m : ℕ}
    (hfuel : table.rows.length < fuel) (hm : 3 * (table.range sinceSeq untilSeq).length + 2 ≤ m)
    (hg : g = (Export.advance rt untilSeq batch table)^[m] (.start sinceSeq)) :
    g.stage = .returned ∧
      ∃ rows, exportRows table.rows sinceSeq untilSeq batch fuel = some rows ∧
        g.Yielded rt rows := by
  obtain ⟨-, hreturned, hyielded⟩ := export_unchanged hbatch hm hg
  have hend : g.stage = .returned :=
    hreturned.mpr fun row hrow => h.loads hevents row (List.mem_filter.mp hrow).1
  exact ⟨hend, _, exportRows_eq table.increasing sinceSeq untilSeq hbatch hfuel, hyielded hend⟩

end Following

/-! ### Each row once -/

/-- **The export neither loses nor repeats a row.** For every table, every range and every size of
a batch:

* over a table that does not change, the generator ends. It returns exactly if every payload of
  the range is JSON, and then it has yielded the range, each row once and in order;
* while rows are appended, and whether its queries are answered or not, the generator has at every
  moment yielded the first rows of the range, and if it has returned, no fewer than there were
  when it started. It has made at most three steps for each row of the range, and two. -/
theorem export_once (rt : DecodeRuntime) (table : AuditTable) (sinceSeq : ℤ) (untilSeq : Option ℤ)
    {batch : ℕ} (hbatch : 1 ≤ batch) :
    (∀ m, 3 * (table.range sinceSeq untilSeq).length + 2 ≤ m →
      ∀ g, g = (Export.advance rt untilSeq batch table)^[m] (.start sinceSeq) →
        g.Over ∧ (g.stage = .returned ↔ ∀ row ∈ table.range sinceSeq untilSeq, row.Loads rt) ∧
          (g.stage = .returned → g.Yielded rt (table.range sinceSeq untilSeq))) ∧
    ∀ n later g, Exporting rt sinceSeq untilSeq batch table n later g →
      n ≤ 3 * (later.range sinceSeq untilSeq).length + 2 ∧
      ∃ rows, rows <+: later.range sinceSeq untilSeq ∧ g.Yielded rt rows ∧
        (g.stage = .returned → table.range sinceSeq untilSeq <+: rows) :=
  ⟨fun _ hm _ hg => export_unchanged hbatch hm hg,
    fun _ _ _ hrun => ⟨hrun.steps_le hbatch, hrun.yielded⟩⟩

/-- A row of the journal, without what the export does not look at. -/
def numberedRow (seq : ℤ) : ChainRow := ⟨seq, .ofString "\x7b\x7d", "", "", none⟩

/-- A table with gaps. -/
def gapped : AuditTable := ⟨[numberedRow 2, numberedRow 3, numberedRow 7, numberedRow 9], by decide⟩

/-- The table with one more row. -/
def appended : AuditTable := ⟨gapped.rows ++ [numberedRow 12], by decide⟩

/-- The rows after 2, up to 8, fill a batch of two; the next query finds none. And while the first
batch of all rows after 2 is yielded, a row is appended: it is yielded with the second batch. -/
theorem export_once_gapped :
    (∃ g, g = (Export.advance decisionRuntime (some 8) 2 gapped)^[8] (.start 2) ∧
      g.stage = .returned ∧ g.Yielded decisionRuntime [numberedRow 3, numberedRow 7]) ∧
    ∃ n g, Exporting decisionRuntime 2 none 2 gapped n appended g ∧ g.stage = .returned ∧
      g.Yielded decisionRuntime [numberedRow 3, numberedRow 7, numberedRow 9, numberedRow 12] := by
  constructor
  · have hrange : gapped.range 2 (some 8) = [numberedRow 3, numberedRow 7] := by rfl
    obtain ⟨-, hreturned, hyielded⟩ :=
      (export_once decisionRuntime gapped 2 (some 8) (by decide : 1 ≤ 2)).1 8
        (by rw [hrange]; decide) _ rfl
    have hloads : ∀ row ∈ gapped.range 2 (some 8), row.Loads decisionRuntime := by
      rw [hrange]
      exact List.forall_mem_cons.mpr ⟨rfl, List.forall_mem_singleton.mpr rfl⟩
    exact ⟨_, rfl, hreturned.mpr hloads, hrange ▸ hyielded (hreturned.mpr hloads)⟩
  · -- the query and one row, then the append, then the rest
    have hstart : Exporting decisionRuntime 2 none 2 gapped 0 gapped (.start 2) := .start
    have hgrown : gapped.rows <+: appended.rows := List.prefix_append _ _
    obtain ⟨k, hbefore⟩ := hstart.iterate 2
    obtain ⟨n, hrun⟩ := (hbefore.append hgrown).iterate 9
    have hrange : appended.range 2 none =
        [numberedRow 3, numberedRow 7, numberedRow 9, numberedRow 12] := by rfl
    obtain ⟨-, rows, hrows, hyielded, -⟩ :=
      (export_once decisionRuntime gapped 2 none (by decide : 1 ≤ 2)).2 n appended _ hrun
    refine ⟨n, _, hrun, by rfl, ?_⟩
    have hlength : rows.length = (appended.range 2 none).length :=
      hyielded.values.length_eq
    rw [hrows.eq_of_length hlength, hrange] at hyielded
    exact hyielded

end HeadOfContext
