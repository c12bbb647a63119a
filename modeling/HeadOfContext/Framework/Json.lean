import HeadOfContext.Framework.Decimal
import Mathlib.Data.Fin.Basic
import Mathlib.Data.String.Basic
import Mathlib.Tactic.Common

/-!
# JSON values and their canonical text

The values of a dynamically typed language that JSON can carry, and the canonical
text `json.dumps(value, sort_keys=True, separators=(",", ":"))` of a value.

* A string is a list of code points, surrogates included: the escape `\ud800` of a
  JSON text is a legal string of the language, and not a text a database can hold.
* An object is the list of its members in increasing key order, which is the order
  `sort_keys` prints. Two objects are equal as dictionaries exactly when their lists
  are equal.
* A float is `NaN`, an infinity or a finite double. The printing of finite doubles is
  a parameter, `FloatText`, with the two documented facts about it: `repr` prints a
  number with a fraction or an exponent, and reading it back gives the same double.
-/

/-- A code point, `0 ≤ c < 0x110000`. -/
abbrev CodePoint := Fin 0x110000

instance CodePoint.instNeZero : NeZero 0x110000 := ⟨by decide⟩

/-- A string: a list of code points. -/
abbrev PyStr := List CodePoint

/-- The code point of a Unicode scalar value. -/
def CodePoint.ofChar (c : Char) : CodePoint :=
  ⟨c.toNat, c.valid.elim (fun h => h.trans (by decide)) And.right⟩

/-- The string of a text. -/
def PyStr.ofString (s : String) : PyStr := s.toList.map CodePoint.ofChar

/-- A finite IEEE 754 double, by its bits: the exponent field is not all ones. -/
def FiniteDouble := {bits : Fin (2 ^ 64) // bits.val / 2 ^ 52 % 2 ^ 11 ≠ 2047}

instance : DecidableEq FiniteDouble := inferInstanceAs (DecidableEq {_bits : Fin (2 ^ 64) // _})

/-- A float. -/
inductive PyFloat where
  | nan
  | infinity (negative : Bool)
  | finite (x : FiniteDouble)
  deriving DecidableEq

/-- A JSON value. -/
inductive Json where
  | null
  | bool (b : Bool)
  | int (n : ℤ)
  | float (x : PyFloat)
  | str (s : PyStr)
  | arr (xs : List Json)
  /-- The members in increasing key order. -/
  | obj (members : List (PyStr × Json))

instance : Coe String Json := ⟨fun s => .str (PyStr.ofString s)⟩

namespace Json

open Decimal

/-- The text, or `None`. -/
def ofOption : Option String → Json
  | none => .null
  | some s => (s : Json)

/-! ### Numbers -/

/-- A number with a fraction or an exponent, in the grammar of JSON. -/
def IsFloatText (cs : List Char) : Prop :=
  ∃ sign ip frac exp, cs = sign ++ ip ++ frac ++ exp ∧ (sign = [] ∨ sign = ['-']) ∧ IsIntPart ip ∧
    (frac = [] ∨ ∃ ds, frac = '.' :: ds ∧ IsDigits ds) ∧
    (exp = [] ∨ ∃ e s ds, exp = e :: (s ++ ds) ∧ (e = 'e' ∨ e = 'E') ∧
      (s = [] ∨ s = ['+'] ∨ s = ['-']) ∧ IsDigits ds) ∧
    (frac ≠ [] ∨ exp ≠ [])

/-- The printing and the reading of finite doubles. -/
structure FloatText where
  /-- `float.__repr__`. -/
  repr : FiniteDouble → List Char
  /-- `float(text)`, for a number with a fraction or an exponent. -/
  parse : List Char → PyFloat
  repr_isFloatText : ∀ x, IsFloatText (repr x)
  parse_repr : ∀ x, parse (repr x) = .finite x

/-- A printing that is right at zero: the bits as a number, and a zero fraction. -/
def FloatText.ofBits : FloatText where
  repr x := natText x.1.val ++ ['.', '0']
  parse cs :=
    let n := readNat (cs.takeWhile isDigit)
    if h : n < 2 ^ 64 then
      if hfin : n / 2 ^ 52 % 2 ^ 11 ≠ 2047 then .finite ⟨⟨n, h⟩, hfin⟩ else .nan
    else .nan
  repr_isFloatText x :=
    ⟨[], natText x.1.val, ['.', '0'], [], by simp, .inl rfl, isIntPart_natText _,
      .inr ⟨['0'], rfl, by decide, by decide⟩, .inl rfl, .inl (by decide)⟩
  parse_repr x := by
    have hdig := (isIntPart_natText x.1.val).isDigits.2
    have htake : (natText x.1.val ++ ['.', '0']).takeWhile isDigit = natText x.1.val := by
      rw [List.takeWhile_append_of_pos hdig]
      exact List.append_nil _
    simp only [htake, readNat_natText]
    rw [dif_pos x.1.isLt, dif_pos x.2]
    rfl

/-- The JSON text of a float. -/
def floatText (ft : FloatText) : PyFloat → List Char
  | .nan => ['N', 'a', 'N']
  | .infinity false => "Infinity".toList
  | .infinity true => '-' :: "Infinity".toList
  | .finite x => ft.repr x

/-! ### Strings -/

/-- A lowercase hexadecimal digit. -/
def hexDigit (n : ℕ) : Char := if n < 10 then Char.ofNat (48 + n) else Char.ofNat (87 + n)

/-- The four hexadecimal digits of `n < 0x10000`. -/
def hex4 (n : ℕ) : List Char :=
  [hexDigit (n / 4096 % 16), hexDigit (n / 256 % 16), hexDigit (n / 16 % 16), hexDigit (n % 16)]

/-- The escape of a code unit. -/
def unitEscape (n : ℕ) : List Char := '\\' :: 'u' :: hex4 n

/-- One code point of a string literal, with `ensure_ascii`: beyond the basic plane as
a pair of surrogates. -/
def escape (c : CodePoint) : List Char :=
  if c.val = 0x22 then ['\\', '"']
  else if c.val = 0x5c then ['\\', '\\']
  else if c.val = 0x0a then ['\\', 'n']
  else if c.val = 0x0d then ['\\', 'r']
  else if c.val = 0x09 then ['\\', 't']
  else if c.val = 0x0c then ['\\', 'f']
  else if c.val = 0x08 then ['\\', 'b']
  else if 0x20 ≤ c.val ∧ c.val ≤ 0x7e then [Char.ofNat c.val]
  else if c.val < 0x10000 then unitEscape c.val
  else unitEscape (0xd800 + (c.val - 0x10000) / 0x400) ++
    unitEscape (0xdc00 + (c.val - 0x10000) % 0x400)

/-- A string literal. -/
def strText (s : PyStr) : List Char := '"' :: (s.flatMap escape ++ ['"'])

/-! ### Values -/

mutual

/-- `json.dumps(value, sort_keys=True, separators=(",", ":"))`. -/
def dumps (ft : FloatText) : Json → List Char
  | null => "null".toList
  | bool true => "true".toList
  | bool false => "false".toList
  | int n => intText n
  | float x => floatText ft x
  | str s => strText s
  | arr [] => ['[', ']']
  | arr (x :: xs) => '[' :: (dumps ft x ++ dumpsItems ft xs)
  | obj [] => ['\x7b', '\x7d']
  | obj ((k, v) :: ms) => '\x7b' :: (strText k ++ ':' :: (dumps ft v ++ dumpsMembers ft ms))

/-- The items of an array after the first, and the closing bracket. -/
def dumpsItems (ft : FloatText) : List Json → List Char
  | [] => [']']
  | x :: xs => ',' :: (dumps ft x ++ dumpsItems ft xs)

/-- The members of an object after the first, and the closing brace. -/
def dumpsMembers (ft : FloatText) : List (PyStr × Json) → List Char
  | [] => ['\x7d']
  | (k, v) :: ms => ',' :: (strText k ++ ':' :: (dumps ft v ++ dumpsMembers ft ms))

end

end Json
