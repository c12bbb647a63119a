import Mathlib.Data.List.Infix
import Mathlib.Logic.Function.Iterate
import Mathlib.Order.Lattice
import Mathlib.Tactic.Common

/-!
# Reading a table page by page

A loop that asks for the next rows after the last key it has seen, at most `batch` of them, and
stops at a page that is not full. Over rows in increasing order of their keys it reads the rows
after its start, each once and in their order (`fetchFrom_eq`), however large the pages.

The table may also grow while the loop runs: a `Reader` is the loop taken step by step, and in
`Reads` rows are added to the end of the table between any two steps. Then there are two things to
say, and one invariant for each.

* `Reader.InStep`: what was read, with what is left of the page, are the first rows after the
  start. It knows nothing of later rows, so growth keeps it. A page that is not full was the last
  one of the table that it was asked of, and that table had every row of the first one.
* `Reads.steps_le`: each step is paid for by the rows that are there. So the loop ends unless rows
  are added faster than it reads.
-/

namespace Keyset

variable {κ ρ : Type}

/-- The loop over pages: its rows, unless the fuel runs out. -/
def fetchFrom (key : ρ → κ) (query : κ → List ρ) (batch : ℕ) : ℕ → κ → Option (List ρ)
  | 0, _ => none
  | fuel + 1, last =>
    let rows := query last
    if rows.length < batch then some rows
    else (fetchFrom key query batch fuel ((rows.getLast?.map key).getD last)).map (rows ++ ·)

section Sorted

variable [LinearOrder κ] {key : ρ → κ} {rows : List ρ}

/-- The rows after a key. -/
def after (key : ρ → κ) (table : List ρ) (last : κ) : List ρ :=
  table.filter fun row => decide (last < key row)

/-- The first rows after a key. -/
def pageAfter (key : ρ → κ) (table : List ρ) (batch : ℕ) (last : κ) : List ρ :=
  (after key table last).take batch

/-- The rows after the last one of a page are those that the page leaves. -/
theorem filter_lt_last {page rest : List ρ} {row : ρ}
    (h : (page ++ row :: rest).Pairwise fun a b => key a < key b) :
    (page ++ row :: rest).filter (fun x => decide (key row < key x)) = rest := by
  obtain ⟨-, hrest, hpage⟩ := List.pairwise_append.mp h
  obtain ⟨hrow, -⟩ := List.pairwise_cons.mp hrest
  have hbefore : page.filter (fun x => decide (key row < key x)) = [] := by
    refine List.filter_eq_nil_iff.mpr fun x hx => ?_
    have hlt : key x < key row := hpage x hx row List.mem_cons_self
    simpa using hlt.le
  have hafter : rest.filter (fun x => decide (key row < key x)) = rest :=
    List.filter_eq_self.mpr fun x hx => decide_eq_true (hrow x hx)
  rw [List.filter_append, hbefore, List.nil_append, List.filter_cons, if_neg (by simp), hafter]

/-- The rows after one that was found after a key are those that were found behind it. -/
theorem after_row (hrows : rows.Pairwise fun a b => key a < key b) {last : κ} {page rest : List ρ}
    {row : ρ} (h : after key rows last = page ++ row :: rest) :
    after key rows (key row) = rest := by
  have hlast : last < key row := by
    have hmem : row ∈ after key rows last := by
      rw [h]
      exact List.mem_append_right _ List.mem_cons_self
    exact of_decide_eq_true (List.mem_filter.mp hmem).2
  have hsorted : (page ++ row :: rest).Pairwise fun a b => key a < key b :=
    h ▸ hrows.sublist List.filter_sublist
  calc after key rows (key row)
      = (after key rows last).filter fun x => decide (key row < key x) := by
        rw [after, after, List.filter_filter]
        refine List.filter_congr fun x _ => ?_
        by_cases hx : key row < key x
        · simp [hx, hlast.trans hx]
        · simp [hx]
    _ = (page ++ row :: rest).filter fun x => decide (key row < key x) := by rw [h]
    _ = rest := filter_lt_last hsorted

/-- **Reading page by page reads every row once.** For sorted rows, from any key, and for pages
of any size but zero. -/
theorem fetchFrom_eq (hrows : rows.Pairwise fun a b => key a < key b) {batch : ℕ}
    (hbatch : 1 ≤ batch) {fuel : ℕ} {last : κ} (hfuel : (after key rows last).length < fuel) :
    fetchFrom key (pageAfter key rows batch) batch fuel last = some (after key rows last) := by
  induction fuel generalizing last with
  | zero => exact absurd hfuel (Nat.not_lt_zero _)
  | succ fuel ih =>
    rw [fetchFrom, pageAfter]
    generalize htodo : after key rows last = todo at hfuel
    split
    · next hshort =>
      have hle : todo.length ≤ batch := by
        rw [List.length_take] at hshort
        omega
      rw [List.take_of_length_le hle]
    · next hfull =>
      -- the page is not empty; what follows its last row is what it leaves
      have hne : todo.take batch ≠ [] := by
        intro hnil
        rw [hnil] at hfull
        exact hfull hbatch
      obtain ⟨page, row, hpage⟩ := (List.eq_nil_or_concat' _).resolve_left hne
      have hsplit : todo = page ++ row :: todo.drop batch := by
        calc todo = todo.take batch ++ todo.drop batch := (List.take_append_drop _ _).symm
          _ = page ++ row :: todo.drop batch := by
            rw [hpage, List.append_assoc, List.singleton_append]
      have hrest : after key rows (key row) = todo.drop batch :=
        after_row hrows (htodo.trans hsplit)
      have hlength : (todo.drop batch).length < fuel := by
        have hlen := congrArg List.length hsplit
        rw [List.length_append, List.length_cons] at hlen
        omega
      rw [hpage, List.getLast?_concat, Option.map_some, Option.getD_some,
        ih (by rw [hrest]; exact hlength), hrest, Option.map_some, ← hpage, List.take_append_drop]

end Sorted

/-! ### The loop, step by step -/

/-- Where the loop stands: in front of a query for the rows after a key, at what is left of a page
with so many rows, or behind a page that was not full. -/
inductive Stage (κ ρ : Type) where
  | asking (last : κ)
  | reading (page : List ρ) (size : ℕ) (last : κ)
  | finished

/-- The loop, with the rows that it has gone through. -/
structure Reader (κ ρ : Type) where
  seen : List ρ
  stage : Stage κ ρ

/-- The loop in front of its first query. -/
def Reader.start (since : κ) : Reader κ ρ := ⟨[], .asking since⟩

/-- One step: a query that is answered, a row, or the end of a page. -/
def Reader.next (key : ρ → κ) (query : κ → List ρ) (batch : ℕ) (r : Reader κ ρ) : Reader κ ρ :=
  match r.stage with
  | .asking last => ⟨r.seen, .reading (query last) (query last).length last⟩
  | .reading (row :: page) size _ => ⟨r.seen ++ [row], .reading page size (key row)⟩
  | .reading [] size last => ⟨r.seen, if size < batch then .finished else .asking last⟩
  | .finished => r

/-- A finished loop stays as it is. -/
theorem Reader.next_finished {key : ρ → κ} {query : κ → List ρ} {batch : ℕ} {r : Reader κ ρ}
    (h : r.stage = .finished) : r.next key query batch = r := by
  rw [Reader.next, h]

section Growing

variable [LinearOrder κ]

/-- The runs of the loop over a table that grows at its end, with the number of its steps. -/
inductive Reads (key : ρ → κ) (batch : ℕ) (since : κ) (table₀ : List ρ) :
    ℕ → List ρ → Reader κ ρ → Prop
  | start : Reads key batch since table₀ 0 table₀ (.start since)
  | grow {n : ℕ} {table rows : List ρ} {r : Reader κ ρ} (h : Reads key batch since table₀ n table r)
      (hrows : (table ++ rows).Pairwise fun a b => key a < key b) :
      Reads key batch since table₀ n (table ++ rows) r
  | next {n : ℕ} {table : List ρ} {r : Reader κ ρ} (h : Reads key batch since table₀ n table r)
      (hrun : r.stage ≠ .finished) :
      Reads key batch since table₀ (n + 1) table (r.next key (pageAfter key table batch) batch)

variable {key : ρ → κ} {batch : ℕ} {since : κ} {table₀ table rows : List ρ} {r : Reader κ ρ}
  {n : ℕ}

/-- The key of the last row, or the start. -/
def lastKey (key : ρ → κ) (since : κ) (seen : List ρ) : κ := (seen.getLast?.map key).getD since

omit [LinearOrder κ] in
theorem lastKey_concat {seen : List ρ} {row : ρ} :
    lastKey key since (seen ++ [row]) = key row := by
  rw [lastKey, List.getLast?_concat, Option.map_some, Option.getD_some]

/-- What is left to read, once some rows were read. -/
theorem after_lastKey (hsorted : table.Pairwise fun a b => key a < key b) {seen rest : List ρ}
    (h : after key table since = seen ++ rest) :
    after key table (lastKey key since seen) = rest := by
  obtain rfl | ⟨page, row, rfl⟩ := List.eq_nil_or_concat' seen
  · exact h
  · rw [lastKey_concat]
    have hpage : after key table since = page ++ row :: rest := by
      rw [h, List.append_assoc, List.singleton_append]
    exact after_row hsorted hpage

theorem pageAfter_lastKey (hsorted : table.Pairwise fun a b => key a < key b) {seen rest : List ρ}
    (h : after key table since = seen ++ rest) (batch : ℕ) :
    pageAfter key table batch (lastKey key since seen) = rest.take batch := by
  rw [pageAfter, after_lastKey hsorted h]

/-- Growth adds rows behind those that are there. -/
theorem after_prefix (h : table₀ <+: table) (last : κ) :
    after key table₀ last <+: after key table last := h.filter _

/-- The rows after the start in some table that the loop has been through. -/
def Whole (key : ρ → κ) (since : κ) (table₀ table read : List ρ) : Prop :=
  ∃ t, table₀ <+: t ∧ t <+: table ∧ read = after key t since

theorem Whole.grow {read : List ρ} (h : Whole key since table₀ table read) :
    Whole key since table₀ (table ++ rows) read := by
  obtain ⟨t, hfirst, ht, hread⟩ := h
  exact ⟨t, hfirst, ht.trans (List.prefix_append _ _), hread⟩

theorem Whole.prefix_after {read : List ρ} (h : Whole key since table₀ table read) :
    read <+: after key table since := by
  obtain ⟨t, -, ht, rfl⟩ := h
  exact after_prefix ht since

/-- **What holds of the loop at every step.** -/
def Reader.InStep (key : ρ → κ) (batch : ℕ) (since : κ) (table₀ table : List ρ)
    (r : Reader κ ρ) : Prop :=
  match r.stage with
  | .asking last => last = lastKey key since r.seen ∧ r.seen <+: after key table since
  | .reading page size last => last = lastKey key since r.seen ∧
      r.seen ++ page <+: after key table since ∧
      (size < batch → Whole key since table₀ table (r.seen ++ page))
  | .finished => Whole key since table₀ table r.seen

theorem inStep_start : (Reader.start since).InStep key batch since table₀ table₀ :=
  ⟨rfl, List.nil_prefix⟩

/-- Rows that come later change nothing of what was read. -/
theorem Reader.InStep.grow (h : r.InStep key batch since table₀ table) :
    r.InStep key batch since table₀ (table ++ rows) := by
  have hlater : after key table since <+: after key (table ++ rows) since :=
    after_prefix (List.prefix_append _ _) since
  unfold Reader.InStep at h ⊢
  match r.stage, h with
  | .asking last, ⟨hlast, hseen⟩ => exact ⟨hlast, hseen.trans hlater⟩
  | .reading page size last, ⟨hlast, hseen, hwhole⟩ =>
    exact ⟨hlast, hseen.trans hlater, fun hshort => (hwhole hshort).grow⟩
  | .finished, hwhole => exact hwhole.grow

/-- A page that was asked for leads on to the rows after what was read. -/
theorem append_page_prefix {seen rest : List ρ} (h : after key table since = seen ++ rest) :
    seen ++ rest.take batch <+: after key table since := by
  rw [h]
  exact (List.prefix_append_right_inj _).mpr (List.take_prefix _ _)

/-- **One step keeps the loop in step.** -/
theorem Reader.InStep.next (hsorted : table.Pairwise fun a b => key a < key b)
    (hgrown : table₀ <+: table) (h : r.InStep key batch since table₀ table) :
    (r.next key (pageAfter key table batch) batch).InStep key batch since table₀ table := by
  obtain ⟨seen, stage⟩ := r
  -- the reader asks for a page, reads it row by row, and ends after a short one
  match stage, h with
  | .asking last, ⟨hlast, rest, hrest⟩ =>
    obtain rfl : last = lastKey key since seen := hlast
    have hpage := pageAfter_lastKey hsorted hrest.symm batch
    refine ⟨rfl, ?_, fun hshort => ?_⟩
    · rw [hpage]
      exact append_page_prefix hrest.symm
    · -- the page has all that is left, as the table stands now
      rw [hpage, List.length_take] at hshort
      rw [hpage, List.take_of_length_le (by omega)]
      exact ⟨table, hgrown, List.prefix_rfl, hrest⟩
  | .reading (row :: page) size last, ⟨_, hseen, hwhole⟩ =>
    refine ⟨lastKey_concat.symm, ?_, fun hshort => ?_⟩
    · show (seen ++ [row]) ++ page <+: after key table since
      rw [← List.append_cons]
      exact hseen
    · show Whole key since table₀ table ((seen ++ [row]) ++ page)
      rw [← List.append_cons]
      exact hwhole hshort
  | .reading [] size last, ⟨hlast, hseen, hwhole⟩ =>
    rw [List.append_nil] at hseen hwhole
    by_cases hshort : size < batch
    · rw [Reader.next, Reader.InStep]
      dsimp only
      rw [if_pos hshort]
      exact hwhole hshort
    · rw [Reader.next, Reader.InStep]
      dsimp only
      rw [if_neg hshort]
      exact ⟨hlast, hseen⟩
  | .finished, hwhole => exact hwhole

/-- The table of a run has grown out of the first one, in order. -/
theorem Reads.ordered (h : Reads key batch since table₀ n table r)
    (hsorted : table₀.Pairwise fun a b => key a < key b) :
    table₀ <+: table ∧ table.Pairwise fun a b => key a < key b := by
  induction h with
  | start => exact ⟨List.prefix_rfl, hsorted⟩
  | grow _ hrows ih => exact ⟨ih.1.trans (List.prefix_append _ _), hrows⟩
  | next _ _ ih => exact ih

/-- **Every run is in step**, however the table grows. -/
theorem Reads.inStep (h : Reads key batch since table₀ n table r)
    (hsorted : table₀.Pairwise fun a b => key a < key b) :
    r.InStep key batch since table₀ table := by
  induction h with
  | start => exact inStep_start
  | grow _ _ ih => exact ih.grow
  | next h _ ih =>
    obtain ⟨hgrown, hnow⟩ := h.ordered hsorted
    exact ih.next hnow hgrown

/-- **What was read are the first rows after the start**, no row twice and none left out. -/
theorem Reads.seen_prefix (h : Reads key batch since table₀ n table r)
    (hsorted : table₀.Pairwise fun a b => key a < key b) : r.seen <+: after key table since := by
  have hstep := h.inStep hsorted
  unfold Reader.InStep at hstep
  match hstage : r.stage, hstep with
  | .asking last, ⟨_, hseen⟩ => exact hseen
  | .reading page size last, ⟨_, hseen, _⟩ => exact (List.prefix_append _ _).trans hseen
  | .finished, hwhole => exact hwhole.prefix_after

/-- **A finished loop has read a whole table**, the first one or a later one. -/
theorem Reads.whole (h : Reads key batch since table₀ n table r)
    (hsorted : table₀.Pairwise fun a b => key a < key b) (hend : r.stage = .finished) :
    Whole key since table₀ table r.seen := by
  have hstep := h.inStep hsorted
  unfold Reader.InStep at hstep
  rwa [hend] at hstep

/-! ### The end of the loop -/

/-- The steps that are left at most, if the table has so many rows after the start. A row of a
full page pays for three: for itself, and for the query and the end of a page. -/
def Reader.work (batch total : ℕ) (r : Reader κ ρ) : ℕ :=
  match r.stage with
  | .asking _ => 3 * (total - r.seen.length) + 2
  | .reading page size _ =>
    if size < batch then page.length + 1
    else 3 * (total - (r.seen.length + page.length)) + page.length + 3
  | .finished => 0

omit [LinearOrder κ] in
/-- Rows that are added make no more work than three steps each. -/
theorem Reader.work_add (batch total more : ℕ) (r : Reader κ ρ) :
    r.work batch (total + more) ≤ r.work batch total + 3 * more := by
  unfold Reader.work
  match r.stage with
  | .asking last =>
    dsimp only
    omega
  | .reading page size last =>
    dsimp only
    split <;> omega
  | .finished => exact Nat.zero_le _

omit [LinearOrder κ] in
theorem Reader.work_pos {total : ℕ} (h : r.stage ≠ .finished) : 0 < r.work batch total := by
  unfold Reader.work
  match hstage : r.stage with
  | .asking last => exact Nat.succ_pos _
  | .reading page size last =>
    dsimp only
    split <;> exact Nat.succ_pos _
  | .finished => exact absurd hstage h

/-- **Each step is work done.** -/
theorem Reader.InStep.work_next (hsorted : table.Pairwise fun a b => key a < key b)
    (hbatch : 1 ≤ batch) (h : r.InStep key batch since table₀ table) (hrun : r.stage ≠ .finished) :
    (r.next key (pageAfter key table batch) batch).work batch (after key table since).length + 1 ≤
      r.work batch (after key table since).length := by
  obtain ⟨seen, stage⟩ := r
  match stage, h with
  | .asking last, ⟨hlast, rest, hrest⟩ =>
    obtain rfl : last = lastKey key since seen := hlast
    have hpage := pageAfter_lastKey hsorted hrest.symm batch
    simp only [Reader.next, Reader.work, hpage, ← hrest, List.length_append, List.length_take]
    -- a full page is at least one row, and that row pays for asking again
    split <;> omega
  | .reading (row :: page) size last, _ =>
    simp only [Reader.next, Reader.work, List.length_append, List.length_cons, List.length_nil]
    split <;> omega
  | .reading [] size last, _ =>
    by_cases hshort : size < batch
    · simp [Reader.next, Reader.work, hshort]
    · simp [Reader.next, Reader.work, hshort]
  | .finished, _ => exact absurd rfl hrun

/-- **The steps of a run are paid for by the rows of its table.** -/
theorem Reads.steps_le (h : Reads key batch since table₀ n table r)
    (hsorted : table₀.Pairwise fun a b => key a < key b) (hbatch : 1 ≤ batch) :
    n + r.work batch (after key table since).length ≤ 3 * (after key table since).length + 2 := by
  induction h with
  | start =>
    show 0 + (3 * ((after key table₀ since).length - 0) + 2) ≤ _
    omega
  | @grow n table rows r _ _ ih =>
    have hlength : (after key (table ++ rows) since).length =
        (after key table since).length + (after key rows since).length := by
      rw [after, List.filter_append, List.length_append]
      rfl
    have hwork := r.work_add batch (after key table since).length (after key rows since).length
    rw [hlength]
    omega
  | next h hrun ih =>
    have hwork := (h.inStep hsorted).work_next (h.ordered hsorted).2 hbatch hrun
    omega

/-- The loop over a table that does not change is one of its runs, up to where it is finished. -/
theorem reads_iterate (key : ρ → κ) (batch : ℕ) (since : κ) (table₀ : List ρ) (m : ℕ) : ∃ k,
    Reads key batch since table₀ k table₀
      ((Reader.next key (pageAfter key table₀ batch) batch)^[m] (.start since)) ∧
    (((Reader.next key (pageAfter key table₀ batch) batch)^[m] (.start since)).stage = .finished ∨
      k = m) := by
  induction m with
  | zero => exact ⟨0, .start, .inr rfl⟩
  | succ m ih =>
    obtain ⟨k, hreads, hk⟩ := ih
    rw [Function.iterate_succ_apply']
    generalize (Reader.next key (pageAfter key table₀ batch) batch)^[m] (.start since) = r
      at hreads hk
    by_cases hend : r.stage = .finished
    · rw [Reader.next_finished hend]
      exact ⟨k, hreads, .inl hend⟩
    · obtain rfl := hk.resolve_left hend
      exact ⟨k + 1, hreads.next hend, .inr rfl⟩

/-- **Over a table that does not change, the loop ends** and has read every row after its start. -/
theorem iterate_finished (hsorted : table₀.Pairwise fun a b => key a < key b) (hbatch : 1 ≤ batch)
    {m : ℕ} (hm : 3 * (after key table₀ since).length + 2 ≤ m) :
    (Reader.next key (pageAfter key table₀ batch) batch)^[m] (.start since) =
      ⟨after key table₀ since, .finished⟩ := by
  obtain ⟨k, hreads, hk⟩ := reads_iterate key batch since table₀ m
  generalize (Reader.next key (pageAfter key table₀ batch) batch)^[m] (.start since) = r
    at hreads hk
  have hend : r.stage = .finished := by
    by_contra hrun
    obtain rfl := hk.resolve_left hrun
    have hsteps := hreads.steps_le hsorted hbatch
    have hwork : 0 < r.work batch (after key table₀ since).length := Reader.work_pos hrun
    omega
  obtain ⟨t, hfirst, hlast, hseen⟩ := hreads.whole hsorted hend
  -- between the table and itself there is no other
  obtain rfl : t = table₀ := (hfirst.eq_of_length_le hlast.length_le).symm
  obtain ⟨seen, stage⟩ := r
  obtain rfl : seen = after key t since := hseen
  obtain rfl : stage = .finished := hend
  rfl

end Growing

end Keyset
