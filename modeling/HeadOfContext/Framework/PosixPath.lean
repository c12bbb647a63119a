import HeadOfContext.Framework.PyText
import Mathlib.Data.List.Sort
import Mathlib.Data.String.Basic
import Mathlib.Data.List.Lex

/-!
# Paths

A path is the list of its components, and the components of a file below a root are names: not
empty, without a slash, and neither `.` nor `..`. The two ways of cutting an extension off are
given with what they say about the text (`beforeLast_iff`, `stem_iff`), and the order of paths
below a root does not depend on the root (`sorted_append`).
-/

namespace PosixPath

/-- A name that a directory can hold. -/
def IsName (part : String) : Prop := part ≠ "" ∧ '/' ∉ part.toList ∧ part ≠ "." ∧ part ≠ ".."

instance (part : String) : Decidable (IsName part) := inferInstanceAs (Decidable (_ ∧ _))

/-- The components of a file below a root. -/
def IsRelative (path : List String) : Prop := path ≠ [] ∧ ∀ part ∈ path, IsName part

instance (path : List String) : Decidable (IsRelative path) := inferInstanceAs (Decidable (_ ∧ _))

/-- `path.as_posix()`, of a relative path. -/
def asPosix (path : List String) : String :=
  String.ofList (['/'].intercalate (path.map String.toList))

/-- `text.split("/")`. -/
def splitSlash (text : String) : List String := (text.toList.splitOn '/').map String.ofList

/-- **Splitting undoes joining**, on names. -/
theorem splitSlash_asPosix {path : List String} (h : IsRelative path) :
    splitSlash (asPosix path) = path := by
  have hslash : ∀ part ∈ path.map String.toList, '/' ∉ part := by
    intro part hpart
    obtain ⟨name, hname, rfl⟩ := List.mem_map.mp hpart
    exact (h.2 name hname).2.1
  have hne : path.map String.toList ≠ [] := by
    rw [Ne, List.map_eq_nil_iff]
    exact h.1
  rw [splitSlash, asPosix, String.toList_ofList, List.splitOn_intercalate '/' hslash hne,
    List.map_map]
  calc path.map (String.ofList ∘ String.toList)
      = path.map id := List.map_congr_left fun part _ => String.ofList_toList
    _ = path := List.map_id path

theorem asPosix_injective {path path' : List String} (h : IsRelative path) (h' : IsRelative path')
    (heq : asPosix path = asPosix path') : path = path' := by
  rw [← splitSlash_asPosix h, heq, splitSlash_asPosix h']

/-! ### Extensions -/

/-- `text.rsplit(c, 1)[0]`. -/
def beforeLast (c : Char) (text : String) : String :=
  if c ∈ text.toList then
    String.ofList (text.toList.reverse.dropWhile (· ≠ c)).tail.reverse
  else text

/-- `path.stem`, of the last component of the path: the name without its extension, where it has
one that is not all of it. -/
def stem (name : String) : String :=
  if beforeLast '.' name ≠ "" ∧ '.' ∈ name.toList ∧ name.toList.getLast? ≠ some '.' then
    beforeLast '.' name
  else name

/-- The text is `base`, the character, and an extension without it. -/
def Extends (c : Char) (base text : String) (ext : List Char) : Prop :=
  c ∉ ext ∧ text.toList = base.toList ++ c :: ext

theorem beforeLast_extends {c : Char} {base text : String} {ext : List Char}
    (h : Extends c base text ext) : beforeLast c text = base := by
  have hmem : c ∈ text.toList := by
    rw [h.2]
    exact List.mem_append_right _ List.mem_cons_self
  have hskip : ∀ d ∈ ext.reverse, decide (d ≠ c) = true := by
    intro d hd
    rw [decide_eq_true_iff]
    rintro rfl
    exact h.1 (List.mem_reverse.mp hd)
  rw [beforeLast, if_pos hmem, h.2, List.reverse_append, List.reverse_cons, List.append_assoc,
    List.dropWhile_append_of_pos hskip, List.singleton_append, List.dropWhile_cons_of_neg (by simp),
    List.tail_cons, List.reverse_reverse, String.ofList_toList]

/-- A text that holds the character extends what stands before its last occurrence. -/
theorem exists_extends {c : Char} {text : String} (h : c ∈ text.toList) :
    ∃ base ext, Extends c base text ext := by
  obtain ⟨after, before, hreverse, hafter⟩ := List.eq_append_cons_of_mem (List.mem_reverse.mpr h)
  refine ⟨String.ofList before.reverse, after.reverse, ?_, ?_⟩
  · rwa [List.mem_reverse]
  · rw [String.toList_ofList, ← text.toList.reverse_reverse, hreverse]
    simp

/-- The text is cut to `base` at its last `c`, or it holds none. -/
def CutTo (c : Char) (base text : String) : Prop :=
  (∃ ext, Extends c base text ext) ∨ base = text ∧ c ∉ text.toList

theorem beforeLast_iff {c : Char} {base text : String} :
    beforeLast c text = base ↔ CutTo c base text := by
  constructor
  · rintro rfl
    by_cases hmem : c ∈ text.toList
    · obtain ⟨base, ext, hext⟩ := exists_extends hmem
      rw [beforeLast_extends hext]
      exact .inl ⟨ext, hext⟩
    · rw [beforeLast, if_neg hmem]
      exact .inr ⟨rfl, hmem⟩
  · rintro (⟨ext, hext⟩ | ⟨rfl, hmem⟩)
    · exact beforeLast_extends hext
    · exact if_neg hmem

/-- The name has the stem: it is the stem with an extension, or it has no extension that leaves
something before it and is not empty. -/
def HasStem (base name : String) : Prop :=
  (∃ ext, ext ≠ [] ∧ base ≠ "" ∧ Extends '.' base name ext) ∨
    base = name ∧ ∀ b ext, Extends '.' b name ext → ext = [] ∨ b = ""

theorem getLast?_extends {c : Char} {base text : String} {ext : List Char}
    (h : Extends c base text ext) : text.toList.getLast? = some c ↔ ext = [] := by
  rw [h.2, List.getLast?_append_of_ne_nil _ (List.cons_ne_nil _ _)]
  cases ext with
  | nil => simp
  | cons d ds =>
    rw [List.getLast?_cons_of_ne_nil (List.cons_ne_nil _ _)]
    constructor
    · intro hlast
      exact absurd (List.mem_of_getLast? hlast) h.1
    · intro hnil
      exact absurd hnil (List.cons_ne_nil _ _)

theorem stem_iff {base name : String} : stem name = base ↔ HasStem base name := by
  by_cases hdot : '.' ∈ name.toList
  · obtain ⟨before, ext, hext⟩ := exists_extends hdot
    have hcut := beforeLast_extends hext
    -- there is one cut at the last dot
    have hunique : ∀ b e, Extends '.' b name e → b = before ∧ e = ext := by
      intro b e he
      have hb : b = before := (beforeLast_extends he).symm.trans hcut
      subst hb
      exact ⟨rfl, by simpa using he.2.symm.trans hext.2⟩
    have hlast : name.toList.getLast? ≠ some '.' ↔ ext ≠ [] := not_congr (getLast?_extends hext)
    rw [stem, hcut]
    -- the cut counts if something is before the dot and something after it
    by_cases hproper : before ≠ "" ∧ ext ≠ []
    · rw [if_pos ⟨hproper.1, hdot, hlast.mpr hproper.2⟩]
      constructor
      · rintro rfl
        exact .inl ⟨ext, hproper.2, hproper.1, hext⟩
      · rintro (⟨e, -, -, he⟩ | ⟨rfl, hnone⟩)
        · exact (hunique base e he).1.symm
        · exact ((hnone before ext hext).elim hproper.2 hproper.1).elim
    · rw [if_neg fun h => hproper ⟨h.1, hlast.mp h.2.2⟩]
      constructor
      · rintro rfl
        refine .inr ⟨rfl, fun b e he => ?_⟩
        obtain ⟨rfl, rfl⟩ := hunique b e he
        tauto
      · rintro (⟨e, hne, hb, he⟩ | ⟨rfl, -⟩)
        · obtain ⟨rfl, rfl⟩ := hunique base e he
          exact absurd ⟨hb, hne⟩ hproper
        · rfl
  · rw [stem, if_neg fun h => hdot h.2.1]
    have hnone : ∀ b ext, ¬ Extends '.' b name ext := by
      intro b ext hext
      rw [hext.2] at hdot
      exact hdot (List.mem_append_right _ List.mem_cons_self)
    constructor
    · rintro rfl
      exact .inr ⟨rfl, fun b ext hext => absurd hext (hnone b ext)⟩
    · rintro (⟨ext, -, -, hext⟩ | ⟨rfl, -⟩)
      · exact absurd hext (hnone base ext)
      · rfl

/-! ### The order of paths -/

/-- `sorted(paths)`: paths are compared component by component. -/
def sorted (paths : List (List String)) : List (List String) := paths.insertionSort (· ≤ ·)

@[simp] theorem mem_sorted {paths : List (List String)} {path : List String} :
    path ∈ sorted paths ↔ path ∈ paths := List.mem_insertionSort _

theorem append_le_append_iff {root path path' : List String} :
    root ++ path ≤ root ++ path' ↔ path ≤ path' := by
  constructor
  · intro h
    by_contra hlt
    exact absurd (List.append_left_lt (not_le.mp hlt)) (not_lt.mpr h)
  · intro h
    rcases h.lt_or_eq with hlt | rfl
    · exact le_of_lt (List.append_left_lt hlt)
    · exact le_rfl

/-- **The order below a root does not depend on the root.** -/
theorem sorted_append (root : List String) (paths : List (List String)) :
    sorted (paths.map (root ++ ·)) = (sorted paths).map (root ++ ·) :=
  (List.map_insertionSort _ _ (root ++ ·) paths fun _ _ _ _ => append_le_append_iff.symm).symm

end PosixPath
