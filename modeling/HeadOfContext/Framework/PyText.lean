import Mathlib.Data.String.Basic
import Mathlib.Data.List.Infix

/-!
# Text operations

The string operations of the Python standard library that services use on
references, tokens and log lines, over Lean's `String` (sequences of Unicode scalar
values). They are written on character lists, so that they evaluate in the kernel
and so that list lemmas apply.

* `startsWith`, `endsWith`, `dropLast`: `s.startswith(p)`, `s.endswith(p)`, `s[:-1]`.
* `partition`: `s.partition(c)`, at a character; `partitionAt`: at a separator of any length, with
  the rule for when splitting undoes joining (`splitFirst_append`).
* `contains`: `p in s`.
* `splitLines`, `strip`: `s.splitlines()` and `s.strip()`, with the line boundaries
  and the white space of the Unicode tables that Python uses.
* `universalNewlines`: what reading a file in text mode does to the ends of its lines.
* `quoted`: the quoting of `{value!r}`. Characters beyond ASCII are printed as they
  are.
-/

/-- A property of the characters of a text is decided along the text. The instance for a property
of all characters would go through all of Unicode. -/
instance Char.decidableForallMem {p : Char → Prop} [DecidablePred p] (cs : List Char) :
    Decidable (∀ c ∈ cs, p c) := List.decidableBAll p cs

namespace PyText

/-- `s.startswith(p)`. -/
def startsWith (s p : String) : Bool := p.toList.isPrefixOf s.toList

/-- `s.endswith(p)`. -/
def endsWith (s p : String) : Bool := p.toList.isSuffixOf s.toList

/-- `s[:-1]`. -/
def dropLast (s : String) : String := String.ofList s.toList.dropLast

theorem startsWith_iff {s p : String} : startsWith s p = true ↔ p.toList <+: s.toList := by
  rw [startsWith, List.isPrefixOf_iff_prefix]

theorem endsWith_iff {s p : String} : endsWith s p = true ↔ p.toList <:+ s.toList := by
  rw [endsWith, List.isSuffixOf_iff_suffix]

@[simp] theorem toList_dropLast (s : String) : (dropLast s).toList = s.toList.dropLast := by
  rw [dropLast, String.toList_ofList]

/-- `s.partition(c)` without its middle: the text before the first `c`, and the text after it. -/
def partition (s : String) (c : Char) : String × String :=
  (String.ofList (s.toList.takeWhile (· ≠ c)), String.ofList (s.toList.dropWhile (· ≠ c)).tail)

/-- `p in s`. -/
def contains (s p : String) : Bool := decide (p.toList <:+: s.toList)

theorem contains_iff {s p : String} : contains s p = true ↔ p.toList <:+: s.toList := by
  rw [contains, decide_eq_true_iff]

/-! ### Splitting at a separator -/

/-- The text before the first occurrence of the separator, and the text after it. -/
def splitFirst (sep : List Char) : List Char → Option (List Char × List Char)
  | [] => none
  | c :: cs =>
    if sep.isPrefixOf (c :: cs) then some ([], (c :: cs).drop sep.length)
    else (splitFirst sep cs).map fun (a, b) => (c :: a, b)

/-- `s.partition(sep)` for a separator of any length, without its middle: nothing where the
separator does not occur. -/
def partitionAt (s sep : String) : Option (String × String) :=
  (splitFirst sep.toList s.toList).map fun (a, b) => (String.ofList a, String.ofList b)

/-- **Splitting undoes joining** when no occurrence of the separator starts before the join. -/
theorem splitFirst_append {sep a b : List Char} (hsep : sep ≠ [])
    (h : ¬ sep <:+: a ++ sep.dropLast) : splitFirst sep (a ++ sep ++ b) = some (a, b) := by
  induction a with
  | nil =>
    obtain ⟨c, cs, rfl⟩ := List.exists_cons_of_ne_nil hsep
    have hprefix : (c :: cs).isPrefixOf (c :: (cs ++ b)) = true :=
      List.isPrefixOf_iff_prefix.mpr (List.prefix_append (c :: cs) b)
    rw [List.nil_append, List.cons_append, splitFirst, if_pos hprefix, ← List.cons_append,
      List.drop_left]
  | cons c cs ih =>
    have htail : ¬ sep <:+: cs ++ sep.dropLast := fun hin =>
      h (hin.trans (List.suffix_cons c _).isInfix)
    have hhead : ¬ sep.isPrefixOf (c :: (cs ++ sep ++ b)) = true := by
      intro hprefix
      -- an occurrence at the front would fit into the part that holds none
      have hlen : sep.length ≤ (c :: cs ++ sep.dropLast).length := by
        have hpos : 0 < sep.length := List.length_pos_iff.mpr hsep
        rw [List.length_append, List.length_cons, List.length_dropLast]
        omega
      have hfront : c :: cs ++ sep.dropLast <+: c :: (cs ++ sep ++ b) := by
        have hdrop : sep.dropLast <+: sep ++ b :=
          (List.dropLast_prefix sep).trans (List.prefix_append sep b)
        rw [List.append_assoc, ← List.cons_append]
        exact (List.prefix_append_right_inj _).mpr hdrop
      exact h (List.prefix_of_prefix_length_le (List.isPrefixOf_iff_prefix.mp hprefix) hfront
        hlen).isInfix
    rw [List.cons_append, List.cons_append, splitFirst, if_neg hhead, ih htail]
    rfl

theorem partitionAt_append {a sep b : String} (hsep : sep.toList ≠ [])
    (h : ¬ sep.toList <:+: a.toList ++ sep.toList.dropLast) :
    partitionAt (a ++ sep ++ b) sep = some (a, b) := by
  rw [partitionAt, String.toList_append, String.toList_append, splitFirst_append hsep h]
  simp only [Option.map_some, String.ofList_toList]

/-- A character that the first part does not hold separates the two parts. -/
theorem partitionAt_char {a b sep : String} {c : Char} (hsep : sep.toList = [c])
    (h : c ∉ a.toList) : partitionAt (a ++ sep ++ b) sep = some (a, b) := by
  refine partitionAt_append (by rw [hsep]; exact List.cons_ne_nil c []) fun hin => h ?_
  rw [hsep, List.dropLast_singleton, List.append_nil] at hin
  exact hin.subset (List.mem_singleton_self c)

/-! ### Lines -/

/-- The line boundaries of `str.splitlines`. -/
def isLineBreak (c : Char) : Bool :=
  c.toNat ∈ [0x0a, 0x0b, 0x0c, 0x0d, 0x1c, 0x1d, 0x1e, 0x85, 0x2028, 0x2029]

/-- The characters that `str.strip` removes. -/
def isSpace (c : Char) : Bool :=
  c.toNat ∈ [0x09, 0x0a, 0x0b, 0x0c, 0x0d, 0x1c, 0x1d, 0x1e, 0x1f, 0x20, 0x85, 0xa0, 0x1680,
    0x2000, 0x2001, 0x2002, 0x2003, 0x2004, 0x2005, 0x2006, 0x2007, 0x2008, 0x2009, 0x200a,
    0x2028, 0x2029, 0x202f, 0x205f, 0x3000]

/-- The lines of a text, given the part of the current line already read. A carriage
return followed by a line feed is one boundary, and a boundary at the end of the text
opens no further line. -/
def splitLinesFrom : List Char → List Char → List (List Char)
  | cur, [] => if cur = [] then [] else [cur]
  | cur, '\r' :: '\n' :: cs => cur :: splitLinesFrom [] cs
  | cur, c :: cs =>
    if isLineBreak c then cur :: splitLinesFrom [] cs else splitLinesFrom (cur ++ [c]) cs

/-- `s.splitlines()`. -/
def splitLines (s : String) : List (List Char) := splitLinesFrom [] s.toList

/-- The text that a file opened for reading in text mode gives: each line ending as a line
feed. -/
def universalNewlines : List Char → List Char
  | [] => []
  | '\r' :: '\n' :: cs => '\n' :: universalNewlines cs
  | c :: cs => (if c = '\r' then '\n' else c) :: universalNewlines cs

theorem universalNewlines_eq_self {cs : List Char} (h : '\r' ∉ cs) : universalNewlines cs = cs := by
  induction cs with
  | nil => rfl
  | cons c cs ih =>
    have hc : c ≠ '\r' := fun hcr => h (hcr ▸ List.mem_cons_self)
    rw [universalNewlines, if_neg hc, ih fun hcs => h (List.mem_cons_of_mem _ hcs)]
    intro cs' hcr
    exact absurd hcr hc

/-- `s.strip()`. -/
def strip (cs : List Char) : List Char :=
  ((cs.dropWhile isSpace).reverse.dropWhile isSpace).reverse

/-- A line is split off at its first boundary. -/
theorem splitLinesFrom_break (cur line rest : List Char) {b : Char}
    (h : ∀ c ∈ line, isLineBreak c = false) (hb : isLineBreak b = true) (hr : b ≠ '\r') :
    splitLinesFrom cur (line ++ b :: rest) = (cur ++ line) :: splitLinesFrom [] rest := by
  induction line generalizing cur with
  | nil =>
    rw [List.nil_append, splitLinesFrom, if_pos hb, List.append_nil]
    intro cs hcs
    exact absurd hcs hr
  | cons c line ih =>
    have hc : isLineBreak c = false := h c List.mem_cons_self
    have hcr : c ≠ '\r' := by
      rintro rfl
      exact absurd hc (by decide)
    rw [List.cons_append, splitLinesFrom, if_neg (by simp [hc]),
      ih _ fun c hc => h c (List.mem_cons_of_mem _ hc)]
    · simp
    · intro cs hcs
      exact absurd hcs hcr

/-- A line without boundaries, ended by a line feed, is split off as it is. -/
theorem splitLinesFrom_line (cur line rest : List Char)
    (h : ∀ c ∈ line, isLineBreak c = false) :
    splitLinesFrom cur (line ++ '\n' :: rest) = (cur ++ line) :: splitLinesFrom [] rest :=
  splitLinesFrom_break cur line rest h (by decide) (by decide)

/-- Lines without boundaries are split off as they were written. -/
theorem splitLinesFrom_join {lines : List String}
    (h : ∀ line ∈ lines, ∀ c ∈ line.toList, isLineBreak c = false) (rest : List Char) :
    splitLinesFrom [] ((String.join (lines.map fun line => line ++ "\n")).toList ++ rest) =
      lines.map String.toList ++ splitLinesFrom [] rest := by
  rw [String.toList_join]
  induction lines with
  | nil => rfl
  | cons line lines ih =>
    obtain ⟨hline, hlines⟩ := List.forall_mem_cons.mp h
    rw [List.map_cons, List.flatMap_cons, String.toList_append, List.append_assoc,
      List.append_assoc]
    have hfeed : "\n".toList = ['\n'] := rfl
    rw [hfeed, List.singleton_append, splitLinesFrom_line _ _ _ hline, ih hlines, List.nil_append]
    rfl

/-- Stripping a text whose ends are not white space changes nothing. -/
theorem strip_eq_self {a b : Char} {mid : List Char} (ha : isSpace a = false)
    (hb : isSpace b = false) : strip (a :: mid ++ [b]) = a :: mid ++ [b] := by
  have h₁ : (a :: mid ++ [b]).dropWhile isSpace = a :: mid ++ [b] := by
    simp [ha]
  have h₂ : (a :: mid ++ [b]).reverse.dropWhile isSpace = (a :: mid ++ [b]).reverse := by
    simp [hb]
  rw [strip, h₁, h₂, List.reverse_reverse]

/-- No line holds a boundary. -/
theorem isLineBreak_of_mem_splitLinesFrom {cur cs : List Char}
    (hcur : ∀ c ∈ cur, isLineBreak c = false) {line : List Char}
    (hl : line ∈ splitLinesFrom cur cs) :
    ∀ c ∈ line, isLineBreak c = false := by
  have hnil : ∀ c ∈ ([] : List Char), isLineBreak c = false := fun c hc =>
    absurd hc List.not_mem_nil
  -- the induction is on the text; what carries it is that the line so far has no boundary
  fun_induction splitLinesFrom cur cs with
  | case1 => exact absurd hl List.not_mem_nil
  | case2 cur _ =>
    rw [List.mem_singleton.mp hl]
    exact hcur
  | case3 cur cs ih =>
    rcases List.mem_cons.mp hl with rfl | hl
    · exact hcur
    · exact ih hnil hl
  | case4 cur c cs _ _ ih =>
    rcases List.mem_cons.mp hl with rfl | hl
    · exact hcur
    · exact ih hnil hl
  | case5 cur c cs _ hc ih =>
    refine ih (fun d hd => ?_) hl
    rcases List.mem_append.mp hd with hd | hd
    · exact hcur d hd
    · rw [List.mem_singleton.mp hd]
      simpa using hc

theorem isLineBreak_of_mem_splitLines {s : String} {line : List Char} (hl : line ∈ splitLines s)
    {c : Char} (hc : c ∈ line) : isLineBreak c = false :=
  isLineBreak_of_mem_splitLinesFrom (fun _ hd => absurd hd List.not_mem_nil) hl c hc

/-- Stripping only removes. -/
theorem mem_of_mem_strip {c : Char} {cs : List Char} (h : c ∈ strip cs) : c ∈ cs := by
  have hback := (List.dropWhile_sublist isSpace).subset (List.mem_reverse.mp h)
  exact (List.dropWhile_sublist isSpace).subset (List.mem_reverse.mp hback)

/-! ### Quoting -/

/-- One hexadecimal digit. -/
def hexDigit (n : ℕ) : Char :=
  if n < 10 then Char.ofNat ('0'.toNat + n) else Char.ofNat ('a'.toNat + (n - 10))

/-- One character of a quoted string. -/
def quotedChar (quote c : Char) : List Char :=
  if c = quote ∨ c = '\\' then ['\\', c]
  else if c = '\n' then ['\\', 'n']
  else if c = '\r' then ['\\', 'r']
  else if c = '\t' then ['\\', 't']
  else if c.toNat < 0x20 ∨ c.toNat = 0x7f then
    ['\\', 'x', hexDigit (c.toNat / 16), hexDigit (c.toNat % 16)]
  else [c]

/-- `repr(s)`: single quotes, unless the text has single quotes and no double ones. -/
def quoted (s : String) : String :=
  let quote := if '\x27' ∈ s.toList ∧ '\x22' ∉ s.toList then '\x22' else '\x27'
  String.ofList (quote :: s.toList.flatMap (quotedChar quote) ++ [quote])

end PyText
