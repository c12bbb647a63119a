import Mathlib.Data.List.Infix
import Mathlib.Data.List.TakeWhile
import Mathlib.Tactic.Common

/-!
# Regular expressions with anchors and groups

A backtracking matcher for expressions whose repetitions are of one character class. `runs r s`
lists every way in which `r` matches at the front of a text, in the order in which the engine
tries them (a repetition takes as much as it can first), and `match?` is the first of them, as
`re.match` is.

* `start` is `^`: nothing has been read.
* `finish` is `$`: the end of the text, or the line feed that ends it.

`Reads` says what a match is, without the order, and `mem_runs` that the engine finds exactly
those (`exists_match?`, `reads_of_match?`).
-/

/-- A regular expression. -/
inductive Regex where
  | start
  | finish
  /-- `[…]`. -/
  | one (p : Char → Bool)
  /-- `[…]*`. -/
  | many (p : Char → Bool)
  /-- `[…]?`. -/
  | maybe (p : Char → Bool)
  /-- `(?P<name>…)`. -/
  | named (name : String) (r : Regex)
  | seq (r r' : Regex)

namespace Regex

/-- A match at the front of a text: what the groups hold, the text that was read, and the rest. -/
structure Found where
  groups : List (String × List Char)
  read : List Char
  rest : List Char
  deriving DecidableEq

/-- The readings of `[…]*`, the longest first. -/
def runsMany (p : Char → Bool) : List Char → List Found
  | [] => [⟨[], [], []⟩]
  | c :: cs =>
    (if p c then (runsMany p cs).map fun m => ⟨[], c :: m.read, m.rest⟩ else []) ++
      [⟨[], [], c :: cs⟩]

/-- The readings of `[…]`. -/
def runsOne (p : Char → Bool) : List Char → List Found
  | [] => []
  | c :: cs => if p c then [⟨[], [c], cs⟩] else []

/-- Every way in which the expression matches at the front of the text, in the order in which
they are tried. `begun` says that characters have been read before. -/
def runs : Regex → Bool → List Char → List Found
  | start, begun, s => if begun then [] else [⟨[], [], s⟩]
  | finish, _, s => if s = [] ∨ s = ['\n'] then [⟨[], [], s⟩] else []
  | one p, _, s => runsOne p s
  | many p, _, s => runsMany p s
  | maybe p, _, s => runsOne p s ++ [⟨[], [], s⟩]
  | named name r, begun, s =>
    (r.runs begun s).map fun m => { m with groups := (name, m.read) :: m.groups }
  | seq r r', begun, s =>
    (r.runs begun s).flatMap fun m =>
      (r'.runs (begun || !m.read.isEmpty) m.rest).map fun m' =>
        ⟨m.groups ++ m'.groups, m.read ++ m'.read, m'.rest⟩

/-- `re.match`. -/
def match? (r : Regex) (s : List Char) : Option Found := (r.runs false s).head?

/-- The text of a group. -/
def Found.group (m : Found) (name : String) : Option (List Char) := m.groups.lookup name

/-- **What a match is.** The expression reads the text `w` in front of `rest`, and its groups are
`g`. -/
def Reads : Regex → Bool → List (String × List Char) → List Char → List Char → Prop
  | start, begun, g, w, _ => begun = false ∧ g = [] ∧ w = []
  | finish, _, g, w, rest => g = [] ∧ w = [] ∧ (rest = [] ∨ rest = ['\n'])
  | one p, _, g, w, _ => g = [] ∧ ∃ c, p c = true ∧ w = [c]
  | many p, _, g, w, _ => g = [] ∧ ∀ c ∈ w, p c = true
  | maybe p, _, g, w, _ => g = [] ∧ (w = [] ∨ ∃ c, p c = true ∧ w = [c])
  | named name r, begun, g, w, rest => ∃ g', Reads r begun g' w rest ∧ g = (name, w) :: g'
  | seq r r', begun, g, w, rest => ∃ g₁ x g₂ y, Reads r begun g₁ x (y ++ rest) ∧
      Reads r' (begun || !x.isEmpty) g₂ y rest ∧ g = g₁ ++ g₂ ∧ w = x ++ y

variable {p : Char → Bool} {begun : Bool} {s w rest : List Char} {g : List (String × List Char)}

theorem mem_runsOne : ⟨g, w, rest⟩ ∈ runsOne p s ↔
    (g = [] ∧ ∃ c, p c = true ∧ w = [c]) ∧ s = w ++ rest := by
  cases s with
  | nil =>
    rw [runsOne]
    constructor
    · exact fun h => absurd h List.not_mem_nil
    · rintro ⟨⟨-, c, -, rfl⟩, h⟩
      exact absurd h (by simp)
  | cons c cs =>
    rw [runsOne]
    constructor
    · intro h
      split at h
      · next hc =>
        obtain ⟨rfl, rfl, rfl⟩ := Found.mk.inj (List.mem_singleton.mp h)
        exact ⟨⟨rfl, c, hc, rfl⟩, rfl⟩
      · exact absurd h List.not_mem_nil
    · rintro ⟨⟨rfl, d, hd, rfl⟩, h⟩
      obtain ⟨rfl, rfl⟩ := List.cons.inj h
      rw [if_pos hd]
      exact List.mem_singleton_self _

theorem mem_runsMany : ⟨g, w, rest⟩ ∈ runsMany p s ↔
    (g = [] ∧ ∀ c ∈ w, p c = true) ∧ s = w ++ rest := by
  induction s generalizing g w with
  | nil =>
    rw [runsMany, List.mem_singleton, Found.mk.injEq]
    constructor
    · rintro ⟨rfl, rfl, rfl⟩
      exact ⟨⟨rfl, fun c hc => absurd hc List.not_mem_nil⟩, rfl⟩
    · rintro ⟨⟨rfl, -⟩, hs⟩
      obtain ⟨rfl, rfl⟩ := List.append_eq_nil_iff.mp hs.symm
      exact ⟨rfl, rfl, rfl⟩
  | cons c cs ih =>
    rw [runsMany, List.mem_append, List.mem_singleton, Found.mk.injEq]
    constructor
    · rintro (hmem | ⟨rfl, rfl, rfl⟩)
      · split at hmem
        · next hc =>
          obtain ⟨⟨g', w', rest'⟩, hm, heq⟩ := List.mem_map.mp hmem
          obtain ⟨rfl, rfl, rfl⟩ := Found.mk.inj heq
          obtain ⟨⟨-, hall⟩, rfl⟩ := ih.mp hm
          exact ⟨⟨rfl, List.forall_mem_cons.mpr ⟨hc, hall⟩⟩, rfl⟩
        · exact absurd hmem List.not_mem_nil
      · exact ⟨⟨rfl, fun c hc => absurd hc List.not_mem_nil⟩, rfl⟩
    · rintro ⟨⟨rfl, hall⟩, hs⟩
      cases w with
      | nil => exact .inr ⟨rfl, rfl, hs.symm⟩
      | cons d w =>
        -- one more character is read
        obtain ⟨rfl, rfl⟩ := List.cons.inj hs
        obtain ⟨hc, hall⟩ := List.forall_mem_cons.mp hall
        rw [if_pos hc]
        exact .inl (List.mem_map.mpr ⟨⟨[], w, rest⟩, ih.mpr ⟨⟨rfl, hall⟩, rfl⟩, rfl⟩)

/-- **The engine finds exactly the matches.** -/
theorem mem_runs {r : Regex} :
    ⟨g, w, rest⟩ ∈ r.runs begun s ↔ Reads r begun g w rest ∧ s = w ++ rest := by
  -- the induction is on the expression; `seq` threads the captured groups from left to right
  induction r generalizing begun s g w rest with
  | start =>
    rw [runs, Reads]
    constructor
    · intro h
      cases begun with
      | true => exact absurd h List.not_mem_nil
      | false =>
        obtain ⟨rfl, rfl, rfl⟩ := Found.mk.inj (List.mem_singleton.mp h)
        exact ⟨⟨rfl, rfl, rfl⟩, rfl⟩
    · rintro ⟨⟨rfl, rfl, rfl⟩, rfl⟩
      exact List.mem_singleton_self _
  | finish =>
    rw [runs, Reads]
    constructor
    · intro h
      split at h
      · next hend =>
        obtain ⟨rfl, rfl, rfl⟩ := Found.mk.inj (List.mem_singleton.mp h)
        exact ⟨⟨rfl, rfl, hend⟩, rfl⟩
      · exact absurd h List.not_mem_nil
    · rintro ⟨⟨rfl, rfl, hend⟩, rfl⟩
      rw [if_pos hend]
      exact List.mem_singleton_self _
  | one p => exact mem_runsOne
  | many p => exact mem_runsMany
  | maybe p =>
    rw [runs, Reads, List.mem_append, mem_runsOne, List.mem_singleton, Found.mk.injEq]
    constructor
    · rintro (⟨⟨rfl, hc⟩, rfl⟩ | ⟨rfl, rfl, rfl⟩)
      · exact ⟨⟨rfl, .inr hc⟩, rfl⟩
      · exact ⟨⟨rfl, .inl rfl⟩, rfl⟩
    · rintro ⟨⟨rfl, rfl | hc⟩, rfl⟩
      · exact .inr ⟨rfl, rfl, rfl⟩
      · exact .inl ⟨⟨rfl, hc⟩, rfl⟩
  | named name r ih =>
    rw [runs, Reads, List.mem_map]
    constructor
    · rintro ⟨⟨g', w', rest'⟩, hm, heq⟩
      obtain ⟨rfl, rfl, rfl⟩ := Found.mk.inj heq
      obtain ⟨hreads, rfl⟩ := ih.mp hm
      exact ⟨⟨g', hreads, rfl⟩, rfl⟩
    · rintro ⟨⟨g', hreads, rfl⟩, rfl⟩
      exact ⟨⟨g', w, rest⟩, ih.mpr ⟨hreads, rfl⟩, rfl⟩
  | seq r r' ih ih' =>
    rw [runs, Reads, List.mem_flatMap]
    constructor
    · rintro ⟨⟨g₁, x, s'⟩, hmem₁, hmem⟩
      obtain ⟨⟨g₂, y, rest'⟩, hmem₂, heq⟩ := List.mem_map.mp hmem
      obtain ⟨rfl, rfl, rfl⟩ := Found.mk.inj heq
      obtain ⟨hfirst, rfl⟩ := ih.mp hmem₁
      obtain ⟨hsecond, rfl⟩ := ih'.mp hmem₂
      exact ⟨⟨g₁, x, g₂, y, hfirst, hsecond, rfl, rfl⟩, (List.append_assoc _ _ _).symm⟩
    · rintro ⟨⟨g₁, x, g₂, y, hfirst, hsecond, rfl, rfl⟩, rfl⟩
      exact ⟨⟨g₁, x, y ++ rest⟩, ih.mpr ⟨hfirst, List.append_assoc _ _ _⟩,
        List.mem_map.mpr ⟨⟨g₂, y, rest⟩, ih'.mpr ⟨hsecond, rfl⟩, rfl⟩⟩

theorem reads_of_match? {r : Regex} {m : Found} (h : r.match? s = some m) :
    Reads r false m.groups m.read m.rest ∧ s = m.read ++ m.rest :=
  mem_runs.mp (List.mem_of_mem_head? h)

/-- Where there is a match, one is found. -/
theorem exists_match? {r : Regex} (hreads : Reads r false g w rest) (hs : s = w ++ rest) :
    ∃ m, r.match? s = some m := by
  have hmem : ⟨g, w, rest⟩ ∈ r.runs false s := mem_runs.mpr ⟨hreads, hs⟩
  rw [match?]
  cases hruns : r.runs false s with
  | nil => exact absurd (hruns ▸ hmem) List.not_mem_nil
  | cons m ms => exact ⟨m, rfl⟩

end Regex
