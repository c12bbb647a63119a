import HeadOfContext.Framework.JsonRead
import Mathlib.Data.List.Chain

/-!
# Printing JSON values and reading them back

`print style v` is the text that `json.dumps` prints with the given separators and escapes.
`compact` is the style of canonical texts, `(",", ":")` with every character beyond ASCII
escaped, and `spaced` the default separators with `ensure_ascii=False`.

Reading inverts printing (`loads_print`): the scanners are given the printed text and some
text after it that cannot continue a number, and stop where the printing stopped. So two
values with one printed text are equal (`print_injective`).
-/

namespace Json

open Decimal CodePoint

/-! ### Styles -/

/-- How values are printed: the white space after a separator, and the escape of a code
point of a string. -/
structure Style where
  pad : PyStr
  escape : CodePoint → PyStr
  pad_space : ∀ c ∈ pad, isSpace c = true
  /-- An escaped string reads as the string. -/
  scan_escape : ∀ s, Joined s → ∀ rest,
    scanString (s.flatMap escape ++ ofChar '"' :: rest) = some (s, rest)

namespace Style

/-- A string literal. -/
def quote (style : Style) (s : PyStr) : PyStr :=
  ofChar '"' :: (s.flatMap style.escape ++ [ofChar '"'])

end Style

mutual

/-- `json.dumps(value)`, in the given style. -/
def print (ft : FloatText) (style : Style) : Json → PyStr
  | null => ascii "null".toList
  | bool true => ascii "true".toList
  | bool false => ascii "false".toList
  | int n => ascii (intText n)
  | float x => ascii (floatText ft x)
  | str s => style.quote s
  | arr [] => [ofChar '[', ofChar ']']
  | arr (x :: xs) => ofChar '[' :: (print ft style x ++ printItems ft style xs)
  | obj [] => [ofChar '\x7b', ofChar '\x7d']
  | obj ((k, v) :: ms) =>
    ofChar '\x7b' :: (style.quote k ++ ofChar ':' ::
      (style.pad ++ (print ft style v ++ printMembers ft style ms)))

/-- The items of an array after the first, and the closing bracket. -/
def printItems (ft : FloatText) (style : Style) : List Json → PyStr
  | [] => [ofChar ']']
  | x :: xs => ofChar ',' :: (style.pad ++ (print ft style x ++ printItems ft style xs))

/-- The members of an object after the first, and the closing brace. -/
def printMembers (ft : FloatText) (style : Style) : List (PyStr × Json) → PyStr
  | [] => [ofChar '\x7d']
  | (k, v) :: ms =>
    ofChar ',' :: (style.pad ++ (style.quote k ++ ofChar ':' ::
      (style.pad ++ (print ft style v ++ printMembers ft style ms))))

end

/-! ### Escapes -/

/-- Whether a code point is printed as itself or by a short escape. -/
def isShort (c : CodePoint) : Bool :=
  c.val ∈ [0x22, 0x5c, 0x0a, 0x0d, 0x09, 0x0c, 0x08] || (0x20 ≤ c.val && c.val ≤ 0x7e)

/-- The surrogates of a code point beyond the basic plane. -/
def highOf (c : CodePoint) : CodePoint := Fin.ofNat _ (0xd800 + (c.val - 0x10000) / 0x400)

def lowOf (c : CodePoint) : CodePoint := Fin.ofNat _ (0xdc00 + (c.val - 0x10000) % 0x400)

/-- What the escape of a code point reads as. -/
def escapeUnits (c : CodePoint) : List StrUnit :=
  if isShort c then [.raw c]
  else if c.val < 0x10000 then [.unit c]
  else [.unit (highOf c), .unit (lowOf c)]

theorem hexValue_hexDigit {n : ℕ} (h : n < 16) : (ofChar (hexDigit n)).hexValue = some n := by
  interval_cases n <;> decide

theorem hexUnit_hex4 {n : ℕ} (h : n < 0x10000) :
    hexUnit (ofChar (hexDigit (n / 4096 % 16))) (ofChar (hexDigit (n / 256 % 16)))
      (ofChar (hexDigit (n / 16 % 16))) (ofChar (hexDigit (n % 16))) = some (Fin.ofNat _ n) := by
  have hsum : ((n / 4096 % 16 * 16 + n / 256 % 16) * 16 + n / 16 % 16) * 16 + n % 16 = n := by
    omega
  simp only [hexUnit, hexValue_hexDigit (Nat.mod_lt _ (by decide : 0 < 16)), Option.bind_eq_bind,
    Option.bind_some, hsum]
  rfl

theorem scanUnits_unitEscape {n : ℕ} (h : n < 0x10000) (rest : PyStr) :
    scanUnits (ascii (unitEscape n) ++ rest) =
      (scanUnits rest).map fun (units, rest) => (.unit (Fin.ofNat _ n) :: units, rest) := by
  have htext : ascii (unitEscape n) ++ rest = ofChar '\\' :: ofChar 'u' ::
      ofChar (hexDigit (n / 4096 % 16)) :: ofChar (hexDigit (n / 256 % 16)) ::
      ofChar (hexDigit (n / 16 % 16)) :: ofChar (hexDigit (n % 16)) :: rest := rfl
  rw [htext, scanUnits.eq_def]
  dsimp only
  rw [if_neg (by decide), if_pos rfl, if_pos rfl, hexUnit_hex4 h, Option.bind_some]

theorem scanUnits_short {e c : CodePoint} (h : shortEscape e = some c) (hu : e ≠ ofChar 'u')
    (rest : PyStr) :
    scanUnits (ofChar '\\' :: e :: rest) =
      (scanUnits rest).map fun (units, rest) => (.raw c :: units, rest) := by
  rw [scanUnits.eq_def]
  dsimp only
  rw [if_neg (by decide), if_pos rfl, if_neg hu, h, Option.bind_some]

theorem scanUnits_raw_cons {c : CodePoint} (hquote : c ≠ ofChar '"') (hslash : c ≠ ofChar '\\')
    (hcontrol : ¬ c.val < 0x20) (rest : PyStr) :
    scanUnits (c :: rest) =
      (scanUnits rest).map fun (units, rest) => (.raw c :: units, rest) := by
  rw [scanUnits.eq_def]
  dsimp only
  rw [if_neg hquote, if_neg hslash, if_neg hcontrol]

/-- The escape of a code point reads as its parts. -/
theorem scanUnits_escape (c : CodePoint) (rest : PyStr) :
    scanUnits (ascii (escape c) ++ rest) =
      (scanUnits rest).map fun (units, rest) => (escapeUnits c ++ units, rest) := by
  have hofNat : ∀ {n}, c.val = n → c = Fin.ofNat _ n := fun h => by
    rw [← h, Fin.ofNat_val_eq_self]
  have hshort : ∀ {e : CodePoint}, shortEscape e = some c → e ≠ ofChar 'u' → isShort c = true →
      ascii (escape c) = [ofChar '\\', e] → scanUnits (ascii (escape c) ++ rest) =
        (scanUnits rest).map fun (units, rest) => (escapeUnits c ++ units, rest) := by
    intro e he hu hc htext
    rw [htext, List.cons_append, List.singleton_append, scanUnits_short he hu, escapeUnits,
      if_pos hc]
    rfl
  -- the seven code points that have a short escape
  by_cases h₁ : c.val = 0x22
  · obtain rfl := hofNat h₁
    exact hshort (e := ofChar '"') (by decide) (by decide) (by decide) (by decide)
  by_cases h₂ : c.val = 0x5c
  · obtain rfl := hofNat h₂
    exact hshort (e := ofChar '\\') (by decide) (by decide) (by decide) (by decide)
  by_cases h₃ : c.val = 0x0a
  · obtain rfl := hofNat h₃
    exact hshort (e := ofChar 'n') (by decide) (by decide) (by decide) (by decide)
  by_cases h₄ : c.val = 0x0d
  · obtain rfl := hofNat h₄
    exact hshort (e := ofChar 'r') (by decide) (by decide) (by decide) (by decide)
  by_cases h₅ : c.val = 0x09
  · obtain rfl := hofNat h₅
    exact hshort (e := ofChar 't') (by decide) (by decide) (by decide) (by decide)
  by_cases h₆ : c.val = 0x0c
  · obtain rfl := hofNat h₆
    exact hshort (e := ofChar 'f') (by decide) (by decide) (by decide) (by decide)
  by_cases h₇ : c.val = 0x08
  · obtain rfl := hofNat h₇
    exact hshort (e := ofChar 'b') (by decide) (by decide) (by decide) (by decide)
  -- every other code point is printed as itself or by its UTF-16 units
  have hlisted : ¬ c.val ∈ [0x22, 0x5c, 0x0a, 0x0d, 0x09, 0x0c, 0x08] := by
    simp only [List.mem_cons, List.not_mem_nil, or_false, not_or]
    exact ⟨h₁, h₂, h₃, h₄, h₅, h₆, h₇⟩
  rw [escape, if_neg h₁, if_neg h₂, if_neg h₃, if_neg h₄, if_neg h₅, if_neg h₆, if_neg h₇]
  by_cases hprint : 0x20 ≤ c.val ∧ c.val ≤ 0x7e
  · -- printable ASCII is printed as itself
    have hself : ofChar (Char.ofNat c.val) = c := by
      have hvalid : Nat.isValidChar c.val := .inl (by omega)
      refine Fin.ext ?_
      change (Char.ofNat c.val).toNat = c.val
      rw [Char.ofNat, dif_pos hvalid]
      rfl
    have hquote : c ≠ ofChar '"' := fun h => h₁ (congrArg Fin.val h)
    have hslash : c ≠ ofChar '\\' := fun h => h₂ (congrArg Fin.val h)
    have hc : isShort c = true := by simp [isShort, hprint]
    rw [if_pos hprint, ascii, List.map_singleton, hself, List.singleton_append,
      scanUnits_raw_cons hquote hslash (by omega), escapeUnits, if_pos hc]
    rfl
  · have hc : ¬ isShort c = true := by
      simp only [isShort, Bool.or_eq_true, decide_eq_true_eq, Bool.and_eq_true, not_or]
      exact ⟨hlisted, hprint⟩
    rw [if_neg hprint, escapeUnits, if_neg hc]
    -- below `0x10000` there is one unit, above it there are two surrogates
    by_cases hplane : c.val < 0x10000
    · rw [if_pos hplane, if_pos hplane, scanUnits_unitEscape hplane, Fin.ofNat_val_eq_self]
      rfl
    · have hlt := c.isLt
      rw [if_neg hplane, if_neg hplane, ascii, List.map_append, List.append_assoc, ← ascii, ← ascii,
        scanUnits_unitEscape (by omega), scanUnits_unitEscape (by omega), Option.map_map]
      rfl

theorem scanUnits_close (rest : PyStr) : scanUnits (ofChar '"' :: rest) = some ([], rest) := by
  rw [scanUnits.eq_def]
  exact if_pos rfl

/-- A unit that makes no pair with what follows it stays as it is. -/
theorem joinUnits_unit {c : CodePoint} {units : List StrUnit}
    (h : ∀ m rest, units = .unit m :: rest → ¬ (isHigh c = true ∧ isLow m = true)) :
    joinUnits (.unit c :: units) = c :: joinUnits units := by
  match units with
  | [] => rw [joinUnits, joinUnits]
  | .raw d :: units => rw [joinUnits, joinUnits]
  | .unit m :: units =>
    rw [joinUnits, if_neg]
    exact fun hpair => h m units rfl (Bool.and_eq_true_iff.mp hpair)

theorem pair_of_surrogates {c : CodePoint} (h : ¬ c.val < 0x10000) :
    isHigh (highOf c) = true ∧ isLow (lowOf c) = true ∧ isLow (highOf c) = false ∧
      joined (highOf c) (lowOf c) = c := by
  have hlt := c.isLt
  have hhigh : (highOf c).val = 0xd800 + (c.val - 0x10000) / 0x400 := by
    rw [highOf, Fin.val_ofNat, Nat.mod_eq_of_lt (by omega)]
  have hlow : (lowOf c).val = 0xdc00 + (c.val - 0x10000) % 0x400 := by
    rw [lowOf, Fin.val_ofNat, Nat.mod_eq_of_lt (by omega)]
  refine ⟨?_, ?_, ?_, ?_⟩
  · simp only [isHigh, hhigh, Bool.and_eq_true, decide_eq_true_eq]
    omega
  · simp only [isLow, hlow, Bool.and_eq_true, decide_eq_true_eq]
    omega
  · simp only [isLow, hhigh, Bool.and_eq_false_iff, decide_eq_false_iff_not]
    omega
  · refine Fin.ext ?_
    rw [joined, Fin.val_ofNat, hhigh, hlow, Nat.mod_eq_of_lt (by omega)]
    omega

/-- The parts of an escaped string join to the string. -/
theorem joinUnits_escapeUnits {s : PyStr} (h : Joined s) :
    joinUnits (s.flatMap escapeUnits) = s := by
  induction s with
  | nil => rfl
  | cons c s ih =>
    have hs : joinUnits (s.flatMap escapeUnits) = s := ih h.tail
    rw [List.flatMap_cons]
    by_cases hc : isShort c = true
    · rw [escapeUnits, if_pos hc, List.singleton_append, joinUnits, hs]
    by_cases hplane : c.val < 0x10000
    · rw [escapeUnits, if_neg hc, if_pos hplane, List.singleton_append, joinUnits_unit, hs]
      -- the next part is low only if the next code point is
      intro m rest hrest
      match s, h with
      | [], _ => exact absurd hrest (by simp)
      | d :: s, h =>
        rw [List.flatMap_cons] at hrest
        by_cases hd : isShort d = true
        · rw [escapeUnits, if_pos hd] at hrest
          exact absurd hrest (by simp)
        by_cases hdplane : d.val < 0x10000
        · rw [escapeUnits, if_neg hd, if_pos hdplane] at hrest
          obtain rfl : d = m := by simpa using (List.cons.inj hrest).1
          exact (List.isChain_cons_cons.mp h).1
        · rw [escapeUnits, if_neg hd, if_neg hdplane] at hrest
          obtain rfl : highOf d = m := by simpa using (List.cons.inj hrest).1
          exact fun hpair => absurd hpair.2 (by simp [(pair_of_surrogates hdplane).2.2.1])
    · obtain ⟨hhigh, hlow, -, hjoined⟩ := pair_of_surrogates hplane
      rw [escapeUnits, if_neg hc, if_neg hplane, List.cons_append, List.singleton_append, joinUnits,
        hhigh, hlow, Bool.and_self, if_pos rfl, hjoined, hs]

theorem scanUnits_flatMap_escape (s rest : PyStr) :
    scanUnits (s.flatMap (fun c => ascii (escape c)) ++ ofChar '"' :: rest) =
      some (s.flatMap escapeUnits, rest) := by
  induction s with
  | nil => exact scanUnits_close rest
  | cons c s ih =>
    rw [List.flatMap_cons, List.append_assoc, scanUnits_escape, ih, List.flatMap_cons]
    rfl

namespace Style

/-- `separators=(",", ":")`. -/
def compact : Style where
  pad := []
  escape c := ascii (Json.escape c)
  pad_space _ hc := absurd hc List.not_mem_nil
  scan_escape s hs rest :=
    scanString_eq_some.mpr ⟨_, scanUnits_flatMap_escape s rest, joinUnits_escapeUnits hs⟩

/-- The escape of a code point with `ensure_ascii=False`: only controls, quotes and
backslashes. -/
def escapeControl (c : CodePoint) : PyStr :=
  if c.val < 0x20 ∨ c = ofChar '"' ∨ c = ofChar '\\' then ascii (Json.escape c) else [c]

/-- What the escape of a code point reads as, with `ensure_ascii=False`. -/
def controlUnits (c : CodePoint) : List StrUnit :=
  if c.val < 0x20 ∨ c = ofChar '"' ∨ c = ofChar '\\' then escapeUnits c else [.raw c]

theorem scanUnits_escapeControl (s rest : PyStr) :
    scanUnits (s.flatMap escapeControl ++ ofChar '"' :: rest) =
      some (s.flatMap controlUnits, rest) := by
  induction s with
  | nil => exact scanUnits_close rest
  | cons c s ih =>
    rw [List.flatMap_cons, List.append_assoc, List.flatMap_cons, escapeControl, controlUnits]
    split
    · rw [scanUnits_escape, ih]
      rfl
    · next h =>
      obtain ⟨hcontrol, hquote, hslash⟩ : ¬ c.val < 0x20 ∧ c ≠ ofChar '"' ∧ c ≠ ofChar '\\' := by
        simpa only [not_or] using h
      rw [List.singleton_append, scanUnits_raw_cons hquote hslash hcontrol, ih]
      rfl

/-- Controls are no surrogates, so nothing is joined. -/
theorem joinUnits_controlUnits (s : PyStr) : joinUnits (s.flatMap controlUnits) = s := by
  -- character by character: each unit stands for itself, as no high surrogate comes from an escape
  induction s with
  | nil => rfl
  | cons c s ih =>
    rw [List.flatMap_cons, controlUnits]
    split
    · next h =>
      have hsmall : c.val < 0x10000 := by
        rcases h with h | rfl | rfl
        · omega
        · decide
        · decide
      have hlow : ¬ isHigh c = true := by
        have hval : c.val < 0x80 := by
          rcases h with h | rfl | rfl
          · omega
          · decide
          · decide
        simp only [isHigh, Bool.and_eq_true, decide_eq_true_eq]
        omega
      by_cases hc : isShort c = true
      · rw [escapeUnits, if_pos hc, List.singleton_append, joinUnits, ih]
      · rw [escapeUnits, if_neg hc, if_pos hsmall, List.singleton_append,
          joinUnits_unit fun m rest _ hpair => hlow hpair.1, ih]
    · rw [List.singleton_append, joinUnits, ih]

/-- `ensure_ascii=False`, with the default separators. -/
def spaced : Style where
  pad := [ofChar ' ']
  escape := escapeControl
  pad_space c hc := by
    rw [List.mem_singleton.mp hc]
    decide
  scan_escape s _ rest :=
    scanString_eq_some.mpr ⟨_, scanUnits_escapeControl s rest, joinUnits_controlUnits s⟩

end Style

/-! ### Numbers -/

/-- A text that cannot continue a number: a separator, or nothing. -/
def Delimited (rest : PyStr) : Prop :=
  ∀ c ∈ rest.head?, c = ofChar ',' ∨ c = ofChar ']' ∨ c = ofChar '\x7d'

theorem delimited_nil : Delimited [] := fun _ hc => absurd hc (by simp)

theorem delimited_cons {c : CodePoint} {rest : PyStr}
    (h : c = ofChar ',' ∨ c = ofChar ']' ∨ c = ofChar '\x7d') : Delimited (c :: rest) := by
  intro d hd
  rwa [← Option.some.inj hd]

theorem after_append (literal : List Char) (rest : PyStr) :
    after literal (ascii literal ++ rest) = some rest := after_eq_some.mpr rfl

/-- A literal does not match a text that starts otherwise. -/
theorem after_eq_none {c : Char} {literal : List Char} {text : PyStr}
    (h : ∀ d ∈ text.head?, d ≠ ofChar c) : after (c :: literal) text = none := by
  cases hafter : after (c :: literal) text with
  | none => rfl
  | some rest =>
    rw [after_eq_some.mp hafter] at h
    exact absurd rfl (h (ofChar c) rfl)

theorem head_ascii_append {cs : List Char} {rest : PyStr} {d : CodePoint}
    (h : d ∈ (ascii cs ++ rest).head?) :
    (∃ c tail, cs = c :: tail ∧ d = ofChar c) ∨ (cs = [] ∧ d ∈ rest.head?) := by
  cases cs with
  | nil => exact .inr ⟨rfl, h⟩
  | cons c tail => exact .inl ⟨c, tail, rfl, (Option.some.inj h).symm⟩

theorem ofChar_injective : Function.Injective ofChar := by
  intro a b h
  have hval : a.toNat = b.toNat := congrArg (fun c : CodePoint => c.val) h
  exact Char.toNat_inj.mp hval

theorem toChar_ofChar (c : Char) : toChar (ofChar c) = c := Char.ofNat_toNat c

theorem isDigit_ofChar {c : Char} : (ofChar c).isDigit = Decimal.isDigit c := by
  rw [CodePoint.isDigit, Decimal.isDigit]
  rfl

/-- The digits of a text are found up to the next character. -/
theorem scanDigits_append {ds : List Char} {rest : PyStr}
    (hds : ∀ c ∈ ds, Decimal.isDigit c = true) (hrest : ∀ c ∈ rest.head?, c.isDigit = false) :
    scanDigits (ascii ds ++ rest) = (ds, rest) := by
  have hdigits : ∀ c ∈ ascii ds, CodePoint.isDigit c = true := by
    intro c hc
    obtain ⟨d, hd, rfl⟩ := List.mem_map.mp hc
    rw [isDigit_ofChar, hds d hd]
  have hmap : (ascii ds).map toChar = ds := by
    rw [ascii, List.map_map]
    refine (List.map_congr_left fun c _ => ?_).trans (List.map_id ds)
    exact toChar_ofChar c
  have hend : rest.takeWhile CodePoint.isDigit = [] ∧ rest.dropWhile CodePoint.isDigit = rest := by
    cases rest with
    | nil => exact ⟨rfl, rfl⟩
    | cons c rest =>
      have hc : c.isDigit = false := hrest c rfl
      rw [List.takeWhile_cons, List.dropWhile_cons, hc]
      exact ⟨rfl, rfl⟩
  rw [scanDigits, List.takeWhile_append_of_pos hdigits, List.dropWhile_append_of_pos hdigits,
    hend.1,
    hend.2, List.append_nil, hmap]

/-- A sign in front of a text is found. -/
theorem scanSign_pos {signs : List Char} {c : Char} (hc : c ∈ signs) (rest : PyStr) :
    scanSign signs (ofChar c :: rest) = ([c], rest) := by
  induction signs with
  | nil => exact absurd hc List.not_mem_nil
  | cons s signs ih =>
    rw [scanSign]
    by_cases hs : c = s
    · rw [← hs, show after [c] (ofChar c :: rest) = some rest from after_append [c] rest]
    · have hnone : after [s] (ofChar c :: rest) = none := by
        refine after_eq_none fun d hd => ?_
        rw [← Option.some.inj hd]
        exact fun h => hs (ofChar_injective h)
      rw [hnone]
      exact ih ((List.mem_cons.mp hc).resolve_left hs)

theorem scanSign_neg {signs : List Char} {text : PyStr}
    (h : ∀ d ∈ text.head?, ∀ c ∈ signs, d ≠ ofChar c) : scanSign signs text = ([], text) := by
  induction signs with
  | nil => rfl
  | cons s signs ih =>
    rw [scanSign, after_eq_none fun d hd => h d hd s List.mem_cons_self]
    exact ih fun d hd c hc => h d hd c (List.mem_cons_of_mem _ hc)

/-- The fraction of a number in the grammar. -/
def IsFraction (frac : List Char) : Prop := frac = [] ∨ ∃ ds, frac = '.' :: ds ∧ IsDigits ds

/-- The exponent of a number in the grammar. -/
def IsExponent (exp : List Char) : Prop :=
  exp = [] ∨ ∃ e s ds, exp = e :: (s ++ ds) ∧ (e = 'e' ∨ e = 'E') ∧
    (s = [] ∨ s = ['+'] ∨ s = ['-']) ∧ IsDigits ds

theorem not_isDigit_of_delimited {rest : PyStr} (h : Delimited rest) :
    ∀ c ∈ rest.head?, c.isDigit = false := by
  intro c hc
  rcases h c hc with rfl | rfl | rfl <;> decide

theorem isDigit_ne {c : Char} (h : Decimal.isDigit c = true) :
    c ≠ '+' ∧ c ≠ '-' ∧ c ≠ 'n' ∧ c ≠ 't' ∧ c ≠ 'f' ∧ c ≠ 'N' ∧ c ≠ 'I' := by
  refine ⟨?_, ?_, ?_, ?_, ?_, ?_, ?_⟩ <;>
    · rintro rfl
      exact absurd h (by decide)

theorem scanExponent_append {exp : List Char} (hexp : IsExponent exp) {rest : PyStr}
    (hrest : Delimited rest) : scanExponent (ascii exp ++ rest) = (exp, rest) := by
  -- either there is no exponent, and what follows a number starts none, or its three parts are read
  rcases hexp with rfl | ⟨e, s, ds, rfl, he, hs, hds⟩
  · have hnone : scanSign ['e', 'E'] (ascii [] ++ rest) = ([], rest) := by
      refine scanSign_neg fun d hd c hc => ?_
      have hd' : d = ofChar ',' ∨ d = ofChar ']' ∨ d = ofChar '\x7d' := hrest d hd
      have hc' : c = 'e' ∨ c = 'E' := by simpa using hc
      rcases hd' with rfl | rfl | rfl <;> rcases hc' with rfl | rfl <;> decide
    rw [scanExponent, hnone]
    rfl
  · have hmem : e ∈ ['e', 'E'] := by simpa using he
    have hsome : scanSign ['e', 'E'] (ascii (e :: (s ++ ds)) ++ rest) =
        ([e], ascii (s ++ ds) ++ rest) := scanSign_pos hmem _
    have hdigits : scanDigits (ascii ds ++ rest) = (ds, rest) :=
      scanDigits_append hds.2 (not_isDigit_of_delimited hrest)
    have hsign : scanSign ['+', '-'] (ascii (s ++ ds) ++ rest) = (s, ascii ds ++ rest) := by
      rcases hs with rfl | rfl | rfl
      · refine scanSign_neg fun d hd c hc => ?_
        obtain ⟨x, tail, rfl⟩ := List.exists_cons_of_ne_nil hds.1
        obtain rfl := Option.some.inj hd
        obtain ⟨hplus, hminus, -⟩ := isDigit_ne (hds.2 x List.mem_cons_self)
        have hc' : c = '+' ∨ c = '-' := by simpa using hc
        rcases hc' with rfl | rfl
        · exact fun h => hplus (ofChar_injective h)
        · exact fun h => hminus (ofChar_injective h)
      · exact scanSign_pos (by decide) _
      · exact scanSign_pos (by decide) _
    obtain ⟨x, tail, rfl⟩ := List.exists_cons_of_ne_nil hds.1
    rw [scanExponent, hsome]
    dsimp only
    rw [hsign, hdigits]

theorem scanFraction_append {frac exp : List Char} (hfrac : IsFraction frac) (hexp : IsExponent exp)
    {rest : PyStr} (hrest : Delimited rest) :
    scanFraction (ascii frac ++ (ascii exp ++ rest)) = (frac, ascii exp ++ rest) := by
  -- what follows the digits is no digit and no point
  have hhead : ∀ d ∈ (ascii exp ++ rest).head?, d ≠ ofChar '.' ∧ d.isDigit = false := by
    intro d hd
    rcases head_ascii_append hd with ⟨c, tail, hcons, rfl⟩ | ⟨-, hd⟩
    · rcases hexp with rfl | ⟨e, s, ds, rfl, he, -, -⟩
      · exact absurd hcons (by simp)
      · obtain ⟨rfl, -⟩ := List.cons.inj hcons
        rcases he with rfl | rfl <;> exact ⟨by decide, by decide⟩
    · rcases hrest d hd with rfl | rfl | rfl <;> exact ⟨by decide, by decide⟩
  rcases hfrac with rfl | ⟨ds, rfl, hds⟩
  · rw [scanFraction]
    have hnone : after ['.'] (ascii [] ++ (ascii exp ++ rest)) = none :=
      after_eq_none fun d hd => (hhead d hd).1
    rw [hnone]
    rfl
  · have hsome : after ['.'] (ascii ('.' :: ds) ++ (ascii exp ++ rest)) =
        some (ascii ds ++ (ascii exp ++ rest)) := after_append ['.'] _
    have hdigits := scanDigits_append hds.2 fun d hd => (hhead d hd).2
    obtain ⟨x, tail, rfl⟩ := List.exists_cons_of_ne_nil hds.1
    rw [scanFraction, hsome]
    dsimp only
    rw [hdigits]

theorem scanIntPart_append {ip : List Char} (hip : IsIntPart ip) {rest : PyStr}
    (hrest : ∀ c ∈ rest.head?, c.isDigit = false) :
    scanIntPart (ascii ip ++ rest) = some (ip, rest) := by
  have hdigits := scanDigits_append hip.isDigits.2 hrest
  rw [scanIntPart, hdigits]
  rcases hip with rfl | ⟨d, ds, rfl, hd, -⟩
  · rfl
  · dsimp only
    rw [if_neg hd]

/-- **A number of the grammar is read up to the next separator.** -/
theorem scanNumber_append {ft : FloatText} {sign ip frac exp : List Char}
    (hsign : sign = [] ∨ sign = ['-']) (hip : IsIntPart ip) (hfrac : IsFraction frac)
    (hexp : IsExponent exp) {rest : PyStr} (hrest : Delimited rest) :
    scanNumber ft (ascii (sign ++ ip ++ frac ++ exp) ++ rest) =
      (number ft sign ip frac exp).map fun v => (v, rest) := by
  have htext : ascii (sign ++ ip ++ frac ++ exp) ++ rest =
      ascii sign ++ (ascii ip ++ (ascii frac ++ (ascii exp ++ rest))) := by
    simp only [ascii, List.map_append, List.append_assoc]
  -- the integer part ends where a fraction, an exponent or a delimiter begins
  have hnext : ∀ c ∈ (ascii frac ++ (ascii exp ++ rest)).head?, c.isDigit = false := by
    intro c hc
    rcases head_ascii_append hc with ⟨x, tail, hcons, rfl⟩ | ⟨-, hc⟩
    · rcases hfrac with rfl | ⟨ds, rfl, -⟩
      · exact absurd hcons (by simp)
      · obtain ⟨rfl, -⟩ := List.cons.inj hcons
        decide
    · rcases head_ascii_append hc with ⟨x, tail, hcons, rfl⟩ | ⟨-, hc⟩
      · rcases hexp with rfl | ⟨e, s, ds, rfl, he, -, -⟩
        · exact absurd hcons (by simp)
        · obtain ⟨rfl, -⟩ := List.cons.inj hcons
          rcases he with rfl | rfl <;> decide
      · exact not_isDigit_of_delimited hrest c hc
  have hs : scanSign ['-'] (ascii sign ++ (ascii ip ++ (ascii frac ++ (ascii exp ++ rest)))) =
      (sign, ascii ip ++ (ascii frac ++ (ascii exp ++ rest))) := by
    rcases hsign with rfl | rfl
    · refine scanSign_neg fun d hd c hc => ?_
      obtain ⟨x, tail, rfl⟩ := List.exists_cons_of_ne_nil hip.isDigits.1
      obtain rfl := Option.some.inj hd
      obtain rfl := List.mem_singleton.mp hc
      exact fun h => (isDigit_ne (hip.isDigits.2 x List.mem_cons_self)).2.1 (ofChar_injective h)
    · exact scanSign_pos (by decide) _
  rw [htext, scanNumber, hs]
  dsimp only
  rw [scanIntPart_append hip hnext, Option.bind_some]
  dsimp only
  rw [scanFraction_append hfrac hexp hrest]
  dsimp only
  rw [scanExponent_append hexp hrest]

theorem scanWord_eq_none {text : PyStr} {table : List (List Char × Json)}
    (h : ∀ entry ∈ table, after entry.1 text = none) : scanWord text table = none := by
  induction table with
  | nil => rfl
  | cons entry table ih =>
    obtain ⟨hentry, htable⟩ := List.forall_mem_cons.mp h
    rw [scanWord, hentry]
    exact ih htable

/-- No word matches a number. -/
theorem scanWord_number {sign ip tail : List Char} (hsign : sign = [] ∨ sign = ['-'])
    (hip : IsIntPart ip) (rest : PyStr) :
    scanWord (ascii (sign ++ ip ++ tail) ++ rest) words = none := by
  obtain ⟨d, ds, rfl⟩ := List.exists_cons_of_ne_nil hip.isDigits.1
  obtain ⟨-, hminus, hn, ht, hf, hN, hI⟩ := isDigit_ne (hip.isDigits.2 d List.mem_cons_self)
  have hne : ∀ {c : Char}, c ≠ d → c ≠ '-' → ∀ literal,
      after (c :: literal) (ascii (sign ++ d :: ds ++ tail) ++ rest) = none := by
    intro c hc hc' literal
    refine after_eq_none fun x hx heq => ?_
    rcases hsign with rfl | rfl
    · exact hc (ofChar_injective ((Option.some.inj hx).trans heq)).symm
    · exact hc' (ofChar_injective ((Option.some.inj hx).trans heq)).symm
  -- only this word starts like a negative number, and its next character is no digit
  have hinfinity : after "-Infinity".toList (ascii (sign ++ d :: ds ++ tail) ++ rest) = none := by
    cases hafter : after "-Infinity".toList (ascii (sign ++ d :: ds ++ tail) ++ rest) with
    | none => rfl
    | some rest' =>
      have heq := after_eq_some.mp hafter
      rcases hsign with rfl | rfl
      · exact absurd (ofChar_injective (List.cons.inj heq).1) hminus
      · exact absurd (ofChar_injective (List.cons.inj (List.cons.inj heq).2).1) hI
  refine scanWord_eq_none fun entry hentry => ?_
  simp only [words, List.mem_cons, List.not_mem_nil, or_false] at hentry
  rcases hentry with rfl | rfl | rfl | rfl | rfl | rfl
  · exact hne hn.symm (by decide) _
  · exact hne ht.symm (by decide) _
  · exact hne hf.symm (by decide) _
  · exact hne hN.symm (by decide) _
  · exact hne hI.symm (by decide) _
  · exact hinfinity

/-- A number is no word, so it is read as a number. -/
theorem scanAtom_append {ft : FloatText} {sign ip frac exp : List Char}
    (hsign : sign = [] ∨ sign = ['-']) (hip : IsIntPart ip) (hfrac : IsFraction frac)
    (hexp : IsExponent exp) {rest : PyStr} (hrest : Delimited rest) :
    scanAtom ft (ascii (sign ++ ip ++ frac ++ exp) ++ rest) =
      (number ft sign ip frac exp).map fun v => (v, rest) := by
  have hword : scanWord (ascii (sign ++ ip ++ frac ++ exp) ++ rest) words = none := by
    rw [List.append_assoc _ frac]
    exact scanWord_number hsign hip rest
  rw [scanAtom, hword]
  exact scanNumber_append hsign hip hfrac hexp hrest

theorem natText_length {n : ℕ} (h : n < 10 ^ maxDigits) : (natText n).length ≤ maxDigits :=
  natText_length_le (by decide) h

theorem scanAtom_int (ft : FloatText) {n : ℤ} (hn : n.natAbs < 10 ^ maxDigits) {rest : PyStr}
    (hrest : Delimited rest) :
    scanAtom ft (ascii (intText n) ++ rest) = some (.int n, rest) := by
  have hlast : ∀ {sign ip v}, number ft sign ip [] [] = some v →
      (number ft sign ip [] []).map (fun v => (v, rest)) = some (v, rest) := fun h => by
    rw [h, Option.map_some]
  -- the two signs of an integer are printed, and read, apart
  cases n with
  | ofNat n =>
    have hint : number ft [] (natText n) [] [] = some (.int (.ofNat n)) := by
      have hlen : (natText n).length ≤ maxDigits := natText_length hn
      rw [number, if_pos ⟨rfl, rfl⟩, if_pos hlen, readInt, if_pos rfl, readNat_natText]
      rfl
    have htext : intText (.ofNat n) = [] ++ natText n ++ [] ++ [] := by
      rw [List.append_nil, List.append_nil, List.nil_append, intText]
    rw [htext, scanAtom_append (.inl rfl) (isIntPart_natText n) (.inl rfl) (.inl rfl) hrest,
      hlast hint]
  | negSucc n =>
    have hint : number ft ['-'] (natText (n + 1)) [] [] = some (.int (.negSucc n)) := by
      have hlen : (natText (n + 1)).length ≤ maxDigits := natText_length hn
      rw [number, if_pos ⟨rfl, rfl⟩, if_pos hlen, readInt, if_neg (List.cons_ne_nil _ _),
        readNat_natText]
      rfl
    have htext : intText (.negSucc n) = ['-'] ++ natText (n + 1) ++ [] ++ [] := by
      rw [List.append_nil, List.append_nil, List.singleton_append, intText]
    rw [htext, scanAtom_append (.inr rfl) (isIntPart_natText _) (.inl rfl) (.inl rfl) hrest,
      hlast hint]

theorem scanWord_append {word : List Char} {v : Json} {table rest : List (List Char × Json)}
    (text : PyStr) (hfirst : ∀ entry ∈ table, after entry.1 (ascii word ++ text) = none) :
    scanWord (ascii word ++ text) (table ++ (word, v) :: rest) = some (v, text) := by
  induction table with
  | nil => rw [List.nil_append, scanWord, after_append]
  | cons entry table ih =>
    obtain ⟨hentry, htable⟩ := List.forall_mem_cons.mp hfirst
    rw [List.cons_append, scanWord, hentry]
    exact ih htable

/-- Each word is read as its value: no earlier one starts with the same character. -/
theorem scanAtom_word (ft : FloatText) {word : List Char} {v : Json} (h : (word, v) ∈ words)
    (rest : PyStr) : scanAtom ft (ascii word ++ rest) = some (v, rest) := by
  have hword : scanWord (ascii word ++ rest) words = some (v, rest) := by
    obtain ⟨before, behind, hsplit⟩ := List.append_of_mem h
    have hheads : words.Pairwise fun a b => ∃ c d cs ds, a.1 = c :: cs ∧ b.1 = d :: ds ∧ c ≠ d := by
      simp only [words, List.pairwise_cons, List.mem_cons, List.not_mem_nil, or_false,
        forall_eq_or_imp, forall_eq]
      refine ⟨⟨?_, ?_, ?_, ?_, ?_⟩, ⟨?_, ?_, ?_, ?_⟩, ⟨?_, ?_, ?_⟩, ⟨?_, ?_⟩, ?_, ?_, .nil⟩ <;>
        first
        | exact ⟨_, _, _, _, rfl, rfl, by decide⟩
        | exact fun _ hc => absurd hc (by simp)
    rw [hsplit] at hheads ⊢
    refine scanWord_append rest fun entry hentry => ?_
    obtain ⟨c, d, cs, ds, hc, hd, hne⟩ :=
      (List.pairwise_append.mp hheads).2.2 entry hentry _ List.mem_cons_self
    have hd' : word = d :: ds := hd
    rw [hc, hd']
    refine after_eq_none fun x hx heq => hne ?_
    exact (ofChar_injective ((Option.some.inj hx).trans heq)).symm
  rw [scanAtom, hword]

/-- The text of a float that is no number is a word. -/
theorem special_mem_words (ft : FloatText) {x : PyFloat} (hx : ∀ y, x ≠ .finite y) :
    (floatText ft x, Json.float x) ∈ words := by
  match x with
  | .nan =>
    have htext : floatText ft .nan = ['N', 'a', 'N'] := rfl
    simp [words, htext]
  | .infinity false =>
    have htext : floatText ft (.infinity false) = "Infinity".toList := rfl
    simp [words, htext]
  | .infinity true =>
    have htext : floatText ft (.infinity true) = '-' :: "Infinity".toList := rfl
    simp [words, htext]
  | .finite y => exact absurd rfl (hx y)

theorem scanAtom_float (ft : FloatText) (x : PyFloat) {rest : PyStr} (hrest : Delimited rest) :
    scanAtom ft (ascii (floatText ft x) ++ rest) = some (.float x, rest) := by
  match x with
  | .nan => exact scanAtom_word ft (special_mem_words ft (by simp)) rest
  | .infinity _ => exact scanAtom_word ft (special_mem_words ft (by simp)) rest
  | .finite y =>
    obtain ⟨sign, ip, frac, exp, htext, hsign, hip, hfrac, hexp, hne⟩ := ft.repr_isFloatText y
    have hfloat : number ft sign ip frac exp = some (.float (.finite y)) := by
      rw [number, if_neg (not_and_or.mpr hne), ← htext, ft.parse_repr]
    rw [show floatText ft (.finite y) = ft.repr y from rfl, htext,
      scanAtom_append hsign hip hfrac hexp hrest, hfloat, Option.map_some]

/-! ### Values -/

section Values

variable {ft : FloatText} {style : Style}

theorem skipSpace_cons {c : CodePoint} (hc : isSpace c = false) (rest : PyStr) :
    skipSpace (c :: rest) = c :: rest := by
  rw [skipSpace, List.dropWhile_cons_of_neg (by simp [hc])]

/-- The white space after a separator is skipped. -/
theorem skipSpace_pad {c : CodePoint} (hc : isSpace c = false) (rest : PyStr) :
    skipSpace (style.pad ++ c :: rest) = c :: rest := by
  rw [skipSpace, List.dropWhile_append_of_pos style.pad_space]
  exact skipSpace_cons hc rest

/-- What the first character of a printed value is not. -/
structure Opens (c : CodePoint) : Prop where
  mark : c ≠ byteOrderMark
  space : isSpace c = false
  bracket : c ≠ ofChar ']'
  brace : c ≠ ofChar '\x7d'

theorem opens_of_isDigit {c : Char} (h : Decimal.isDigit c = true) : Opens (ofChar c) := by
  refine ⟨?_, ?_, ?_, ?_⟩
  · rintro heq
    rw [← isDigit_ofChar, heq] at h
    exact absurd h (by decide)
  · rw [← isDigit_ofChar] at h
    simp only [CodePoint.isDigit, Bool.and_eq_true, decide_eq_true_eq] at h
    simp only [isSpace, Bool.or_eq_false_iff, beq_eq_false_iff_ne]
    omega
  · rintro heq
    obtain rfl := ofChar_injective heq
    exact absurd h (by decide)
  · rintro heq
    obtain rfl := ofChar_injective heq
    exact absurd h (by decide)

/-- A printed number opens with a sign or a digit. -/
theorem opens_number (tail : List Char) {sign ip : List Char} (hsign : sign = [] ∨ sign = ['-'])
    (hip : IsIntPart ip) : ∃ c cs, ascii (sign ++ ip ++ tail) = c :: cs ∧ Opens c ∧
      c ≠ ofChar '"' ∧ c ≠ ofChar '[' ∧ c ≠ ofChar '\x7b' := by
  obtain ⟨d, ds, rfl⟩ := List.exists_cons_of_ne_nil hip.isDigits.1
  have hd := hip.isDigits.2 d List.mem_cons_self
  have hne : ∀ {x : Char}, Decimal.isDigit x = false → ofChar d ≠ ofChar x := by
    intro x hx heq
    rw [ofChar_injective heq, hx] at hd
    exact absurd hd (by simp)
  rcases hsign with rfl | rfl
  · exact ⟨_, _, rfl, opens_of_isDigit hd, hne (by decide), hne (by decide), hne (by decide)⟩
  · exact ⟨_, _, rfl, ⟨by decide, by decide, by decide, by decide⟩, by decide, by decide, by decide⟩

/-- A value that is neither a string nor a container is read by `scanAtom`. -/
theorem scanValue_atom {text : PyStr} {fuel : ℕ} {c : CodePoint} {cs : PyStr}
    (htext : text = c :: cs)
    (h₁ : c ≠ ofChar '"') (h₂ : c ≠ ofChar '[') (h₃ : c ≠ ofChar '\x7b') :
    scanValue ft (fuel + 1) text = scanAtom ft text := by
  rw [htext, scanValue, if_neg h₁, if_neg h₂, if_neg h₃]

/-- How a printed atom starts, and that reading it stops where it ends. -/
structure Atom (ft : FloatText) (v : Json) (text : PyStr) : Prop where
  opens : ∃ c cs, text = c :: cs ∧ Opens c ∧ c ≠ ofChar '"' ∧ c ≠ ofChar '[' ∧ c ≠ ofChar '\x7b'
  scan : ∀ rest, Delimited rest → scanAtom ft (text ++ rest) = some (v, rest)

theorem Atom.word {word : List Char} {v : Json} (h : (word, v) ∈ words) :
    Atom ft v (ascii word) := by
  refine ⟨?_, fun rest _ => scanAtom_word ft h rest⟩
  simp only [words, List.mem_cons, Prod.mk.injEq, List.not_mem_nil, or_false] at h
  rcases h with ⟨rfl, -⟩ | ⟨rfl, -⟩ | ⟨rfl, -⟩ | ⟨rfl, -⟩ | ⟨rfl, -⟩ | ⟨rfl, -⟩ <;>
    exact ⟨_, _, rfl, ⟨by decide, by decide, by decide, by decide⟩, by decide, by decide, by decide⟩

theorem Atom.int {n : ℤ} (hn : n.natAbs < 10 ^ maxDigits) :
    Atom ft (.int n) (ascii (intText n)) := by
  refine ⟨?_, fun rest hrest => scanAtom_int ft hn hrest⟩
  cases n with
  | ofNat n =>
    have hopens := opens_number [] (.inl rfl) (isIntPart_natText n)
    rwa [List.append_nil, List.nil_append] at hopens
  | negSucc n =>
    have hopens := opens_number [] (.inr rfl) (isIntPart_natText (n + 1))
    rwa [List.append_nil, List.singleton_append] at hopens

theorem Atom.float (x : PyFloat) : Atom ft (.float x) (ascii (floatText ft x)) := by
  match x with
  | .nan => exact .word (special_mem_words ft (by simp))
  | .infinity _ => exact .word (special_mem_words ft (by simp))
  | .finite y =>
    refine ⟨?_, fun rest hrest => scanAtom_float ft _ hrest⟩
    obtain ⟨sign, ip, frac, exp, htext, hsign, hip, -⟩ := ft.repr_isFloatText y
    rw [show floatText ft (.finite y) = ft.repr y from rfl, htext, List.append_assoc _ frac]
    exact opens_number _ hsign hip

/-- A printed value starts with a character that opens it. -/
theorem print_opens (ft : FloatText) (style : Style) {v : Json} (hv : Wf Joined v) :
    ∃ c cs, print ft style v = c :: cs ∧ Opens c := by
  have hatom : ∀ {v text}, Atom ft v text → ∃ c cs, text = c :: cs ∧ Opens c := fun h => by
    obtain ⟨c, cs, htext, hopens, -⟩ := h.opens
    exact ⟨c, cs, htext, hopens⟩
  match v, hv with
  | .null, _ => exact hatom (.word (v := .null) (by simp [words]))
  | .bool true, _ => exact hatom (.word (v := .bool true) (by simp [words]))
  | .bool false, _ => exact hatom (.word (v := .bool false) (by simp [words]))
  | .int n, .int hn => exact hatom (.int hn)
  | .float x, _ => exact hatom (.float x)
  | .str s, _ => exact ⟨_, _, rfl, by decide, by decide, by decide, by decide⟩
  | .arr [], _ => exact ⟨_, _, rfl, by decide, by decide, by decide, by decide⟩
  | .arr (x :: xs), _ => exact ⟨_, _, rfl, by decide, by decide, by decide, by decide⟩
  | .obj [], _ => exact ⟨_, _, rfl, by decide, by decide, by decide, by decide⟩
  | .obj ((k, v) :: ms), _ => exact ⟨_, _, rfl, by decide, by decide, by decide, by decide⟩

/-- Reading the printed value stops where the printing did. -/
def ReadsBack (ft : FloatText) (style : Style) (v : Json) : Prop :=
  ∀ rest fuel, Delimited rest → 2 * (print ft style v ++ rest).length < fuel →
    scanValue ft fuel (print ft style v ++ rest) = some (v, rest)

theorem Atom.readsBack {v : Json} {text : PyStr} (h : Atom ft v text)
    (htext : print ft style v = text) : ReadsBack ft style v := by
  intro rest fuel hrest hfuel
  obtain ⟨fuel, rfl⟩ := Nat.exists_eq_succ_of_ne_zero (Nat.ne_zero_of_lt hfuel)
  obtain ⟨c, cs, hcons, -, h₁, h₂, h₃⟩ := h.opens
  have happ : text ++ rest = c :: (cs ++ rest) := by rw [hcons, List.cons_append]
  rw [htext, scanValue_atom happ h₁ h₂ h₃, h.scan rest hrest]

theorem delimited_printItems (xs : List Json) (rest : PyStr) :
    Delimited (printItems ft style xs ++ rest) := by
  cases xs with
  | nil => exact delimited_cons (.inr (.inl rfl))
  | cons x xs => exact delimited_cons (.inl rfl)

theorem delimited_printMembers (ms : List (PyStr × Json)) (rest : PyStr) :
    Delimited (printMembers ft style ms ++ rest) := by
  cases ms with
  | nil => exact delimited_cons (.inr (.inr rfl))
  | cons m ms => exact delimited_cons (.inl rfl)

theorem after_close (c : Char) (rest : PyStr) (hc : isSpace (ofChar c) = false) :
    after [c] (skipSpace (ofChar c :: rest)) = some rest := by
  rw [skipSpace_cons hc]
  exact after_append [c] rest

theorem after_comma (close : Char) (hclose : ',' ≠ close) (rest : PyStr) :
    after [close] (skipSpace (ofChar ',' :: rest)) = none := by
  rw [skipSpace_cons (by decide)]
  refine after_eq_none fun d hd heq => hclose ?_
  exact ofChar_injective ((Option.some.inj hd).trans heq)

/-- Reading the items of an array. -/
theorem scanItems_print {x : Json} {xs : List Json} (hwf : ∀ y ∈ x :: xs, Wf Joined y)
    (hread : ∀ y ∈ x :: xs, ReadsBack ft style y) (rest : PyStr) {fuel : ℕ}
    (hfuel : 2 * (print ft style x ++ (printItems ft style xs ++ rest)).length + 1 < fuel) :
    scanItems ft fuel (print ft style x ++ (printItems ft style xs ++ rest)) =
      some (x :: xs, rest) := by
  -- the induction is on the items that follow
  induction xs generalizing x fuel with
  | nil =>
    obtain ⟨fuel, rfl⟩ := Nat.exists_eq_succ_of_ne_zero (Nat.ne_zero_of_lt hfuel)
    have hx := hread x List.mem_cons_self (printItems ft style [] ++ rest) fuel
      (delimited_printItems [] rest) (by omega)
    rw [scanItems, hx, Option.bind_some]
    dsimp only
    rw [printItems, List.singleton_append, after_close ']' rest (by decide)]
  | cons y ys ih =>
    obtain ⟨fuel, rfl⟩ := Nat.exists_eq_succ_of_ne_zero (Nat.ne_zero_of_lt hfuel)
    obtain ⟨-, hwf'⟩ := List.forall_mem_cons.mp hwf
    obtain ⟨hreadx, hread'⟩ := List.forall_mem_cons.mp hread
    have hx := hreadx (printItems ft style (y :: ys) ++ rest) fuel
      (delimited_printItems (y :: ys) rest) (by omega)
    obtain ⟨c, cs, hy, hopens⟩ := print_opens ft style
      (hwf' y List.mem_cons_self)
    have htext : printItems ft style (y :: ys) ++ rest = ofChar ',' :: (style.pad ++
        (print ft style y ++ (printItems ft style ys ++ rest))) := by
      simp only [printItems, List.cons_append, List.append_assoc]
    have hskip : skipSpace (style.pad ++ (print ft style y ++ (printItems ft style ys ++ rest))) =
        print ft style y ++ (printItems ft style ys ++ rest) := by
      rw [hy, List.cons_append]
      exact skipSpace_pad hopens.space _
    rw [htext, List.length_append, List.length_cons, List.length_append] at hfuel
    rw [scanItems, hx, Option.bind_some]
    dsimp only
    rw [htext, after_comma ']' (by decide), after_close ',' _ (by decide), Option.bind_some, hskip,
      ih hwf' hread' (by omega), Option.map_some]

/-- The key, the colon and the value are read the same way, whatever follows. -/
theorem scanMembers_member {k : PyStr} {v : Json} {tail : PyStr} {fuel : ℕ} (hk : Joined k)
    (hv : Wf Joined v) (hread : ReadsBack ft style v) (htail : Delimited tail)
    (hfuel : 2 * (style.quote k ++ ofChar ':' :: (style.pad ++ (print ft style v ++ tail))).length
      + 1 < fuel + 1) :
    scanMembers ft (fuel + 1) (style.quote k ++ ofChar ':' :: (style.pad ++
      (print ft style v ++ tail))) =
      match after ['\x7d'] (skipSpace tail) with
      | some rest => some ([(k, v)], rest)
      | none => (after [','] (skipSpace tail)).bind fun rest =>
        (scanMembers ft fuel (skipSpace rest)).map fun (ms, rest) => ((k, v) :: ms, rest) := by
  have hquote : style.quote k ++ ofChar ':' :: (style.pad ++ (print ft style v ++ tail)) =
      ofChar '"' :: (k.flatMap style.escape ++ ofChar '"' :: ofChar ':' ::
        (style.pad ++ (print ft style v ++ tail))) := by
    rw [Style.quote, List.cons_append, List.append_assoc, List.singleton_append]
  obtain ⟨c, cs, hc, hopens⟩ := print_opens ft style hv
  -- the pad after the colon is skipped, up to the value
  have hskip : skipSpace (style.pad ++ (print ft style v ++ tail)) =
      print ft style v ++ tail := by
    rw [hc, List.cons_append]
    exact skipSpace_pad hopens.space _
  have hopen : after ['"'] (ofChar '"' :: (k.flatMap style.escape ++ ofChar '"' :: ofChar ':' ::
      (style.pad ++ (print ft style v ++ tail)))) = some (k.flatMap style.escape ++ ofChar '"' ::
        ofChar ':' :: (style.pad ++ (print ft style v ++ tail))) := after_append ['"'] _
  simp only [List.length_append, List.length_cons] at hfuel
  have hv' := hread tail fuel htail (by rw [List.length_append]; omega)
  rw [hquote, scanMembers, hopen, Option.bind_some, style.scan_escape k hk, Option.bind_some]
  dsimp only
  rw [after_close ':' _ (by decide), Option.bind_some, hskip, hv']
  rfl

/-- Reading the members of an object. -/
theorem scanMembers_print {k : PyStr} {v : Json} {ms : List (PyStr × Json)}
    (hkeys : ∀ m ∈ (k, v) :: ms, Joined m.1) (hwf : ∀ m ∈ (k, v) :: ms, Wf Joined m.2)
    (hread : ∀ m ∈ (k, v) :: ms, ReadsBack ft style m.2) (rest : PyStr) {fuel : ℕ}
    (hfuel : 2 * (style.quote k ++ ofChar ':' :: (style.pad ++
      (print ft style v ++ (printMembers ft style ms ++ rest)))).length + 1 < fuel) :
    scanMembers ft fuel (style.quote k ++ ofChar ':' :: (style.pad ++
      (print ft style v ++ (printMembers ft style ms ++ rest)))) = some ((k, v) :: ms, rest) := by
  -- the induction is on the members that follow
  induction ms generalizing k v fuel with
  | nil =>
    obtain ⟨fuel, rfl⟩ := Nat.exists_eq_succ_of_ne_zero (Nat.ne_zero_of_lt hfuel)
    rw [scanMembers_member (hkeys _ List.mem_cons_self) (hwf _ List.mem_cons_self)
      (hread _ List.mem_cons_self) (delimited_printMembers [] rest) hfuel, printMembers,
      List.singleton_append, after_close '\x7d' rest (by decide)]
  | cons m ms ih =>
    obtain ⟨k', v'⟩ := m
    obtain ⟨fuel, rfl⟩ := Nat.exists_eq_succ_of_ne_zero (Nat.ne_zero_of_lt hfuel)
    have htext : printMembers ft style ((k', v') :: ms) ++ rest = ofChar ',' :: (style.pad ++
        (style.quote k' ++ ofChar ':' :: (style.pad ++
          (print ft style v' ++ (printMembers ft style ms ++ rest))))) := by
      simp only [printMembers, List.cons_append, List.append_assoc]
    have hskip : skipSpace (style.pad ++ (style.quote k' ++ ofChar ':' :: (style.pad ++
        (print ft style v' ++ (printMembers ft style ms ++ rest))))) =
        style.quote k' ++ ofChar ':' :: (style.pad ++
          (print ft style v' ++ (printMembers ft style ms ++ rest))) :=
      skipSpace_pad (c := ofChar '"') (by decide) _
    have hfuel' := hfuel
    rw [htext] at hfuel'
    simp only [List.length_append, List.length_cons] at hfuel'
    have hrec : scanMembers ft fuel (style.quote k' ++ ofChar ':' :: (style.pad ++
        (print ft style v' ++ (printMembers ft style ms ++ rest)))) =
          some ((k', v') :: ms, rest) := by
      refine ih (fun m hm => hkeys m (List.mem_cons_of_mem _ hm))
        (fun m hm => hwf m (List.mem_cons_of_mem _ hm))
        (fun m hm => hread m (List.mem_cons_of_mem _ hm)) ?_
      simp only [List.length_append, List.length_cons]
      omega
    rw [scanMembers_member (hkeys _ List.mem_cons_self) (hwf _ List.mem_cons_self)
      (hread _ List.mem_cons_self) (delimited_printMembers _ rest) hfuel, htext,
      after_comma '\x7d' (by decide), after_close ',' _ (by decide), Option.bind_some, hskip, hrec,
      Option.map_some]

/-- Reading a printed object, whatever the order of its members. -/
theorem scanValue_obj {ms : List (PyStr × Json)} (hkeys : ∀ m ∈ ms, Joined m.1)
    (hvalues : ∀ m ∈ ms, Wf Joined m.2) (hread : ∀ m ∈ ms, ReadsBack ft style m.2) (rest : PyStr)
    {fuel : ℕ} (hfuel : 2 * (print ft style (.obj ms) ++ rest).length < fuel) :
    scanValue ft fuel (print ft style (.obj ms) ++ rest) = some (.obj (dictOf ms), rest) := by
  obtain ⟨fuel, rfl⟩ := Nat.exists_eq_succ_of_ne_zero (Nat.ne_zero_of_lt hfuel)
  cases ms with
  | nil =>
    change scanValue ft (fuel + 1) (ofChar '\x7b' :: ofChar '\x7d' :: rest) = _
    rw [scanValue, if_neg (by decide), if_neg (by decide), if_pos rfl,
      after_close '\x7d' rest (by decide)]
    rfl
  | cons m ms =>
    obtain ⟨k, v⟩ := m
    have htext : print ft style (.obj ((k, v) :: ms)) ++ rest =
        ofChar '\x7b' :: (style.quote k ++ ofChar ':' :: (style.pad ++
          (print ft style v ++ (printMembers ft style ms ++ rest)))) := by
      simp only [print, List.cons_append, List.append_assoc]
    -- what follows the brace is a key, and no blank or closing brace
    have hskip : skipSpace (style.quote k ++ ofChar ':' :: (style.pad ++
        (print ft style v ++ (printMembers ft style ms ++ rest)))) =
        style.quote k ++ ofChar ':' :: (style.pad ++
          (print ft style v ++ (printMembers ft style ms ++ rest))) :=
      skipSpace_cons (c := ofChar '"') (by decide) _
    have hclose : after ['\x7d'] (style.quote k ++ ofChar ':' :: (style.pad ++
        (print ft style v ++ (printMembers ft style ms ++ rest)))) = none := by
      refine after_eq_none fun d hd => ?_
      rw [← Option.some.inj hd]
      decide
    rw [htext, List.length_cons] at hfuel
    rw [htext, scanValue, if_neg (by decide), if_neg (by decide), if_pos rfl, hskip, hclose]
    dsimp only
    rw [scanMembers_print hkeys hvalues hread rest (by omega), Option.map_some]

/-- **Reading inverts printing**, up to the next separator. -/
theorem readsBack (ft : FloatText) (style : Style) {v : Json} (hv : Wf Joined v) :
    ReadsBack ft style v := by
  -- the induction is on the value; a container reads its parts by the induction hypothesis
  induction hv with
  | null => exact (Atom.word (v := .null) (by simp [words])).readsBack rfl
  | bool b =>
    cases b with
    | true => exact (Atom.word (v := .bool true) (by simp [words])).readsBack rfl
    | false => exact (Atom.word (v := .bool false) (by simp [words])).readsBack rfl
  | int hn => exact (Atom.int hn).readsBack rfl
  | float x => exact (Atom.float x).readsBack rfl
  | @str s hs =>
    intro rest fuel hrest hfuel
    obtain ⟨fuel, rfl⟩ := Nat.exists_eq_succ_of_ne_zero (Nat.ne_zero_of_lt hfuel)
    have htext : print ft style (.str s) ++ rest =
        ofChar '"' :: (s.flatMap style.escape ++ ofChar '"' :: rest) := by
      rw [print, Style.quote, List.cons_append, List.append_assoc, List.singleton_append]
    rw [htext, scanValue, if_pos rfl, style.scan_escape s hs, Option.map_some]
  | @arr xs hxs ih =>
    intro rest fuel hrest hfuel
    obtain ⟨fuel, rfl⟩ := Nat.exists_eq_succ_of_ne_zero (Nat.ne_zero_of_lt hfuel)
    cases xs with
    | nil =>
      change scanValue ft (fuel + 1) (ofChar '[' :: ofChar ']' :: rest) = _
      rw [scanValue, if_neg (by decide), if_pos rfl, after_close ']' rest (by decide)]
    | cons x xs =>
      obtain ⟨c, cs, hx, hopens⟩ := print_opens ft style
        (hxs x List.mem_cons_self)
      have htext : print ft style (.arr (x :: xs)) ++ rest =
          ofChar '[' :: (print ft style x ++ (printItems ft style xs ++ rest)) := by
        simp only [print, List.cons_append, List.append_assoc]
      have hskip : skipSpace (print ft style x ++ (printItems ft style xs ++ rest)) =
          print ft style x ++ (printItems ft style xs ++ rest) := by
        rw [hx, List.cons_append, skipSpace_cons hopens.space]
      have hclose : after [']'] (print ft style x ++ (printItems ft style xs ++ rest)) = none := by
        refine after_eq_none fun d hd => ?_
        rw [hx, List.cons_append] at hd
        rw [← Option.some.inj hd]
        exact hopens.bracket
      rw [htext, List.length_cons] at hfuel
      rw [htext, scanValue, if_neg (by decide), if_pos rfl, hskip, hclose]
      dsimp only
      rw [scanItems_print hxs ih rest (by omega), Option.map_some]
  | @obj ms hsorted hkeys hvalues ih =>
    intro rest fuel _ hfuel
    rw [scanValue_obj hkeys hvalues ih rest hfuel, dictOf_sorted hsorted]

/-- A text that is scanned to its end loads. -/
theorem loads_of_scan {text : PyStr} {v : Json} (hopens : ∃ c cs, text = c :: cs ∧ Opens c)
    (hscan : scanValue ft (2 * text.length + 1) text = some (v, [])) : loads ft text = some v := by
  obtain ⟨c, cs, hc, hopens⟩ := hopens
  have hskip : skipSpace text = text := by
    rw [hc, skipSpace_cons hopens.space]
  have hmark : text.head? ≠ some byteOrderMark := by
    intro hhead
    rw [hc] at hhead
    exact hopens.mark (Option.some.inj hhead)
  rw [loads, if_neg hmark, hskip, hscan, Option.bind_some]
  exact if_pos rfl

/-- **`json.loads` inverts `json.dumps`**, on values whose strings hold no pair of
surrogates. -/
theorem loads_print {v : Json} (hv : Wf Joined v) : loads ft (print ft style v) = some v := by
  refine loads_of_scan (print_opens ft style hv) ?_
  have hscan := readsBack ft style hv [] (2 * (print ft style v).length + 1)
    delimited_nil (by rw [List.append_nil]; omega)
  rwa [List.append_nil] at hscan

/-- A printed object starts with its brace. -/
theorem print_obj_opens (ft : FloatText) (style : Style) (ms : List (PyStr × Json)) :
    ∃ cs, print ft style (.obj ms) = ofChar '\x7b' :: cs := by
  cases ms with
  | nil => exact ⟨_, rfl⟩
  | cons m ms => exact ⟨_, rfl⟩

/-- An object is read as a dictionary, whatever the order in which its members were printed. -/
theorem loads_obj {ms : List (PyStr × Json)} (hkeys : ∀ m ∈ ms, Joined m.1)
    (hvalues : ∀ m ∈ ms, Wf Joined m.2) :
    loads ft (print ft style (.obj ms)) = some (.obj (dictOf ms)) := by
  obtain ⟨cs, hcs⟩ := print_obj_opens ft style ms
  refine loads_of_scan ⟨_, cs, hcs, by decide, by decide, by decide, by decide⟩ ?_
  have hscan := scanValue_obj hkeys hvalues (fun m hm => readsBack ft style (hvalues m hm)) []
    (show 2 * (print ft style (.obj ms) ++ []).length < 2 * (print ft style (.obj ms)).length + 1 by
      rw [List.append_nil]; omega)
  rwa [List.append_nil] at hscan

/-- **Two values with one printed text are equal.** -/
theorem print_injective {v w : Json} (hv : Wf Joined v) (hw : Wf Joined w)
    (h : print ft style v = print ft style w) : v = w := by
  have hread : loads ft (print ft style v) = some v := loads_print hv
  rw [h, loads_print hw] at hread
  exact (Option.some.inj hread).symm

end Values

/-! ### Canonical texts -/

theorem ascii_append (cs ds : List Char) : ascii (cs ++ ds) = ascii cs ++ ascii ds :=
  List.map_append

theorem ascii_flatMap (s : PyStr) (f : CodePoint → List Char) :
    ascii (s.flatMap f) = s.flatMap fun c => ascii (f c) :=
  List.map_flatMap

theorem quote_compact (s : PyStr) : Style.compact.quote s = ascii (strText s) := by
  change ofChar '"' :: (s.flatMap (fun c => ascii (escape c)) ++ [ofChar '"']) = _
  rw [← ascii_flatMap]
  change _ = ofChar '"' :: ascii (s.flatMap escape ++ ['"'])
  rw [ascii_append]
  rfl

mutual

/-- The canonical text of a value is printed in the compact style. -/
theorem print_compact (ft : FloatText) (v : Json) : print ft .compact v = ascii (dumps ft v) := by
  match v with
  | .null => rw [print, dumps]
  | .bool true => rw [print, dumps]
  | .bool false => rw [print, dumps]
  | .int n => rw [print, dumps]
  | .float x => rw [print, dumps]
  | .str s => rw [print, dumps, quote_compact]
  | .arr [] => rw [print, dumps]; rfl
  | .arr (x :: xs) =>
    rw [print, dumps, print_compact ft x, printItems_compact ft xs, ← ascii_append]
    rfl
  | .obj [] => rw [print, dumps]; rfl
  | .obj ((k, v) :: ms) =>
    rw [print, dumps, quote_compact, print_compact ft v, printMembers_compact ft ms]
    change _ = ofChar '\x7b' :: ascii (strText k ++ ([':'] ++ (dumps ft v ++ dumpsMembers ft ms)))
    rw [ascii_append, ascii_append, ascii_append]
    rfl

theorem printItems_compact (ft : FloatText) (xs : List Json) :
    printItems ft .compact xs = ascii (dumpsItems ft xs) := by
  match xs with
  | [] => rw [printItems, dumpsItems]; rfl
  | x :: xs =>
    rw [printItems, dumpsItems, print_compact ft x, printItems_compact ft xs, ← ascii_append]
    rfl

theorem printMembers_compact (ft : FloatText) (ms : List (PyStr × Json)) :
    printMembers ft .compact ms = ascii (dumpsMembers ft ms) := by
  match ms with
  | [] => rw [printMembers, dumpsMembers]; rfl
  | (k, v) :: ms =>
    rw [printMembers, dumpsMembers, quote_compact, print_compact ft v, printMembers_compact ft ms]
    change _ = ofChar ',' :: ascii (strText k ++ ([':'] ++ (dumps ft v ++ dumpsMembers ft ms)))
    rw [ascii_append, ascii_append, ascii_append]
    rfl

end

/-- Reading a canonical text gives the value. -/
theorem loads_dumps {ft : FloatText} {v : Json} (hv : Wf Joined v) :
    loads ft (ascii (dumps ft v)) = some v := by
  rw [← print_compact]
  exact loads_print hv

/-- **Two values with one canonical text are equal.** -/
theorem dumps_injective {ft : FloatText} {v w : Json} (hv : Wf Joined v) (hw : Wf Joined w)
    (h : dumps ft v = dumps ft w) : v = w := by
  have htext : print ft .compact v = print ft .compact w := by
    rw [print_compact, h, print_compact]
  exact print_injective hv hw htext

/-! ### Texts -/

theorem isScalar_ofChar (c : Char) : IsScalar (ofChar c) := by
  have hvalid : c.toNat < 0xd800 ∨ 0xdfff < c.toNat ∧ c.toNat < 0x110000 := c.valid
  have hval : (ofChar c).val = c.toNat := rfl
  constructor
  · simp only [isHigh, hval, Bool.and_eq_false_iff, decide_eq_false_iff_not]
    omega
  · simp only [isLow, hval, Bool.and_eq_false_iff, decide_eq_false_iff_not]
    omega

/-- Without surrogates there is nothing to join. -/
theorem joined_of_isScalar {s : PyStr} (h : ∀ c ∈ s, IsScalar c) : Joined s := by
  induction s with
  | nil => exact .nil
  | cons c s ih =>
    obtain ⟨hc, hs⟩ := List.forall_mem_cons.mp h
    exact (ih hs).cons fun d _ hpair => absurd hpair.1 (by simp [hc.1])

theorem joined_ofString (s : String) : Joined (.ofString s) := by
  refine joined_of_isScalar fun c hc => ?_
  obtain ⟨d, -, rfl⟩ := List.mem_map.mp hc
  exact isScalar_ofChar d

theorem ofString_injective : Function.Injective PyStr.ofString := by
  intro s t h
  exact String.toList_injective (List.map_injective_iff.mpr ofChar_injective h)

/-! ### Pairs that were not joined -/

/-- The string with every pair of surrogates joined: what its literal reads as. -/
def joinPairs (s : PyStr) : PyStr := joinUnits (s.map .unit)

theorem joined_joinPairs (s : PyStr) : Joined (joinPairs s) := by
  refine (joinUnits_joined fun c hc => ?_).1
  obtain ⟨d, -, hd⟩ := List.mem_map.mp hc
  nomatch hd

/-- A joined string stays as it is. -/
theorem joinPairs_of_joined {s : PyStr} (h : Joined s) : joinPairs s = s := by
  induction s with
  | nil => rfl
  | cons c s ih =>
    rw [joinPairs, List.map_cons, joinUnits_unit, ← joinPairs, ih h.tail]
    intro m rest hrest
    match s, h with
    | [], _ => exact absurd hrest (by simp)
    | d :: s, h =>
      obtain rfl : d = m := by simpa using (List.cons.inj hrest).1
      exact (List.isChain_cons_cons.mp h).1

/-- A pair has one escape, whether it is joined or not. -/
theorem escape_joined {n m : CodePoint} (hn : isHigh n = true) (hm : isLow m = true) :
    escape (joined n m) = escape n ++ escape m := by
  obtain ⟨hn₁, hn₂⟩ : 0xd800 ≤ n.val ∧ n.val ≤ 0xdbff := by simpa [isHigh] using hn
  obtain ⟨hm₁, hm₂⟩ : 0xdc00 ≤ m.val ∧ m.val ≤ 0xdfff := by simpa [isLow] using hm
  have hval : (joined n m).val = 0x10000 + (n.val - 0xd800) * 0x400 + (m.val - 0xdc00) := by
    rw [joined, Fin.val_ofNat, Nat.mod_eq_of_lt]
    omega
  have hunit : ∀ c : CodePoint, 0xd800 ≤ c.val → c.val ≤ 0xdfff → escape c = unitEscape c.val := by
    intro c hc₁ hc₂
    rw [escape, if_neg (by omega), if_neg (by omega), if_neg (by omega), if_neg (by omega),
      if_neg (by omega), if_neg (by omega), if_neg (by omega), if_neg (by omega), if_pos (by omega)]
  have hhigh : 0xd800 + ((joined n m).val - 0x10000) / 0x400 = n.val := by omega
  have hlow : 0xdc00 + ((joined n m).val - 0x10000) % 0x400 = m.val := by omega
  rw [hunit n hn₁ (by omega), hunit m (by omega) hm₂, escape, if_neg (by omega), if_neg (by omega),
    if_neg (by omega), if_neg (by omega), if_neg (by omega), if_neg (by omega), if_neg (by omega),
    if_neg (by omega), if_neg (by omega), hhigh, hlow]

/-- What the parts of a literal are escaped as. -/
theorem flatMap_escape_joinUnits (units : List StrUnit) : (joinUnits units).flatMap escape =
    units.flatMap fun
      | .raw c => escape c
      | .unit c => escape c := by
  fun_induction joinUnits units with
  | case1 => rfl
  | case2 c units ih => rw [List.flatMap_cons, List.flatMap_cons, ih]
  | case3 n => rfl
  | case4 n c units ih =>
    rw [List.flatMap_cons, List.flatMap_cons, List.flatMap_cons, List.flatMap_cons, ih]
  | case5 n m units hpair ih =>
    obtain ⟨hn, hm⟩ := Bool.and_eq_true_iff.mp hpair
    rw [List.flatMap_cons, List.flatMap_cons, List.flatMap_cons, ih, escape_joined hn hm,
      List.append_assoc]
  | case6 n m units hpair ih => rw [List.flatMap_cons, List.flatMap_cons, ih]

/-- **Joining changes no literal.** -/
theorem strText_joinPairs (s : PyStr) : strText (joinPairs s) = strText s := by
  rw [strText, strText, joinPairs, flatMap_escape_joinUnits, List.flatMap_map]

/-- The value with the pairs of a text joined. -/
def joinText : Json → Json
  | .str s => .str (joinPairs s)
  | v => v

@[simp] theorem dumps_joinText (ft : FloatText) (v : Json) : dumps ft v.joinText = dumps ft v := by
  cases v with
  | str s => exact strText_joinPairs s
  | _ => rfl

/-- A text or `null`, joined, can be read back. -/
theorem wf_joinText {v : Json} (h : v = .null ∨ ∃ s, v = .str s) : Wf Joined v.joinText := by
  rcases h with rfl | ⟨s, rfl⟩
  · exact .null
  · exact .str (joined_joinPairs s)

end Json
