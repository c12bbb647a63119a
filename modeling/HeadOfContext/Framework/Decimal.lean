import HeadOfContext.Framework.PyText
import Mathlib.Data.Nat.Basic
import Mathlib.Data.Int.Basic
import Mathlib.Tactic.Common
import Mathlib.Tactic.IntervalCases
import Mathlib.Tactic.Ring

/-!
# Decimal numbers

`natText` and `intText` print an integer the way `str` does, `readNat` is the value of
a list of digits. Reading back a printed number gives the number, and a printed number
has no superfluous zero in front.
-/

namespace Decimal

/-- A decimal digit. -/
def isDigit (c : Char) : Bool := '0' ≤ c && c ≤ '9'

/-- The character of a digit. -/
def digitChar (d : ℕ) : Char := Char.ofNat (48 + d)

/-- The value of a digit. -/
def digitValue (c : Char) : ℕ := c.toNat - 48

/-- The decimal digits of `n`, in front of `acc`. The fuel bounds the number of
digits. -/
def natTextAux : ℕ → ℕ → List Char → List Char
  | 0, _, acc => acc
  | fuel + 1, n, acc =>
    if n < 10 then digitChar n :: acc else natTextAux fuel (n / 10) (digitChar (n % 10) :: acc)

/-- `str(n)` of a natural number. -/
def natText (n : ℕ) : List Char := natTextAux (n + 1) n []

/-- `str(n)` of an integer. -/
def intText : ℤ → List Char
  | .ofNat n => natText n
  | .negSucc n => '-' :: natText (n + 1)

/-- The number whose digits are `cs`, read after the digits of `n`. -/
def readNatFrom (n : ℕ) (cs : List Char) : ℕ := cs.foldl (fun m c => m * 10 + digitValue c) n

/-- The value of a list of digits. -/
def readNat (cs : List Char) : ℕ := readNatFrom 0 cs

/-- One or more digits. -/
def IsDigits (cs : List Char) : Prop := cs ≠ [] ∧ ∀ c ∈ cs, isDigit c = true

/-- `0`, or digits that do not start with a zero. -/
def IsIntPart (cs : List Char) : Prop :=
  cs = ['0'] ∨ ∃ d ds, cs = d :: ds ∧ d ≠ '0' ∧ ∀ c ∈ cs, isDigit c = true

/-! ### Digits -/

theorem isDigit_digitChar {d : ℕ} (hd : d < 10) : isDigit (digitChar d) = true := by
  interval_cases d <;> decide

theorem digitValue_digitChar {d : ℕ} (hd : d < 10) : digitValue (digitChar d) = d := by
  interval_cases d <;> decide

theorem digitChar_ne_zero {d : ℕ} (hd : d < 10) (hpos : 0 < d) : digitChar d ≠ '0' := by
  interval_cases d <;> decide

theorem digitValue_lt {c : Char} (h : isDigit c = true) : digitValue c < 10 := by
  simp only [isDigit, Bool.and_eq_true, decide_eq_true_eq] at h
  have hle : c.toNat ≤ 57 := h.2
  rw [digitValue]
  omega

/-! ### Printing and reading -/

/-- A number is as long as its digits. -/
theorem readNatFrom_lt {n : ℕ} {cs : List Char} (h : ∀ c ∈ cs, isDigit c = true) :
    readNatFrom n cs < (n + 1) * 10 ^ cs.length := by
  induction cs generalizing n with
  | nil =>
    rw [readNatFrom, List.foldl_nil, List.length_nil, Nat.pow_zero, Nat.mul_one]
    exact Nat.lt_succ_self n
  | cons c cs ih =>
    obtain ⟨hc, hcs⟩ := List.forall_mem_cons.mp h
    have hstep : n * 10 + digitValue c + 1 ≤ (n + 1) * 10 := by
      have hlt := digitValue_lt hc
      omega
    calc readNatFrom (n * 10 + digitValue c) cs
        < (n * 10 + digitValue c + 1) * 10 ^ cs.length := ih hcs
      _ ≤ (n + 1) * 10 * 10 ^ cs.length := Nat.mul_le_mul_right _ hstep
      _ = (n + 1) * 10 ^ (c :: cs).length := by rw [List.length_cons, Nat.pow_succ']; ring

theorem readNat_lt {cs : List Char} (h : IsDigits cs) : readNat cs < 10 ^ cs.length := by
  have hlt := readNatFrom_lt (n := 0) h.2
  rwa [Nat.zero_add, Nat.one_mul] at hlt

/-- Reading the printed digits, and then what follows them. -/
theorem readNatFrom_natTextAux {fuel n : ℕ} (hn : n < fuel) (acc : List Char) :
    readNatFrom 0 (natTextAux fuel n acc) = readNatFrom n acc := by
  induction fuel generalizing n acc with
  | zero => exact absurd hn (Nat.not_lt_zero n)
  | succ fuel ih =>
    rw [natTextAux]
    by_cases hsmall : n < 10
    · rw [if_pos hsmall]
      unfold readNatFrom
      rw [List.foldl_cons, digitValue_digitChar hsmall, Nat.zero_mul, Nat.zero_add]
    · rw [if_neg hsmall, ih (by omega)]
      unfold readNatFrom
      rw [List.foldl_cons, digitValue_digitChar (Nat.mod_lt n (by decide)),
        Nat.div_add_mod' n 10]

@[simp] theorem readNat_natText (n : ℕ) : readNat (natText n) = n :=
  readNatFrom_natTextAux (Nat.lt_succ_self n) []

/-- The digits in front of `acc` are an integer part. -/
theorem natTextAux_spec {fuel n : ℕ} (hn : n < fuel) (acc : List Char) :
    ∃ cs, natTextAux fuel n acc = cs ++ acc ∧ (∀ c ∈ cs, isDigit c = true) ∧
      ∃ d ds, cs = d :: ds ∧ (0 < n → d ≠ '0') ∧ (n = 0 → cs = ['0']) := by
  induction fuel generalizing n acc with
  | zero => exact absurd hn (Nat.not_lt_zero n)
  | succ fuel ih =>
    rw [natTextAux]
    -- one digit is left, or the last digit is put in front of the accumulator
    by_cases hsmall : n < 10
    · rw [if_pos hsmall]
      refine ⟨[digitChar n], rfl, fun c hc => ?_, _, _, rfl, digitChar_ne_zero hsmall, ?_⟩
      · rw [List.mem_singleton.mp hc]
        exact isDigit_digitChar hsmall
      · rintro rfl
        rfl
    · rw [if_neg hsmall]
      obtain ⟨cs, hcs, hdig, d, ds, rfl, hpos, -⟩ := ih (n := n / 10) (by omega)
        (digitChar (n % 10) :: acc)
      refine ⟨d :: ds ++ [digitChar (n % 10)], ?_, ?_, d, _, rfl, fun _ => hpos (by omega), ?_⟩
      · rw [hcs, List.append_assoc, List.singleton_append]
      · intro c hc
        rcases List.mem_append.mp hc with hc | hc
        · exact hdig c hc
        · rw [List.mem_singleton.mp hc]
          exact isDigit_digitChar (Nat.mod_lt n (by decide))
      · rintro rfl
        exact absurd (by decide) hsmall

/-- A printed number is an integer part. -/
theorem isIntPart_natText (n : ℕ) : IsIntPart (natText n) := by
  obtain ⟨cs, hcs, hdig, d, ds, rfl, hpos, hzero⟩ := natTextAux_spec (Nat.lt_succ_self n) []
  rw [List.append_nil] at hcs
  rw [natText, hcs]
  rcases Nat.eq_zero_or_pos n with h | h
  · exact .inl (hzero h)
  · exact .inr ⟨d, ds, rfl, hpos h, hdig⟩

theorem natTextAux_length {k fuel n : ℕ} (hk : 0 < k) (hn : n < 10 ^ k) (acc : List Char) :
    (natTextAux fuel n acc).length ≤ k + acc.length := by
  induction k generalizing fuel n acc with
  | zero => exact absurd hk (Nat.lt_irrefl 0)
  | succ k ih =>
    cases fuel with
    | zero => exact Nat.le_add_left _ _
    | succ fuel =>
      rw [natTextAux]
      split
      · rw [List.length_cons]
        omega
      · next hlarge =>
        have hk' : 0 < k := by
          rcases Nat.eq_zero_or_pos k with rfl | hpos
          · exact absurd hn (by simpa using hlarge)
          · exact hpos
        have hdiv : n / 10 < 10 ^ k := by
          rw [Nat.pow_succ] at hn
          exact Nat.div_lt_of_lt_mul (by rwa [Nat.mul_comm] at hn)
        refine (ih hk' hdiv _).trans ?_
        rw [List.length_cons]
        omega

/-- A number below `10 ^ k` has at most `k` digits. -/
theorem natText_length_le {k n : ℕ} (hk : 0 < k) (hn : n < 10 ^ k) : (natText n).length ≤ k :=
  natTextAux_length hk hn []

theorem IsIntPart.isDigits {cs : List Char} (h : IsIntPart cs) : IsDigits cs := by
  rcases h with rfl | ⟨d, ds, rfl, -, hdig⟩
  · exact ⟨by decide, by decide⟩
  · exact ⟨List.cons_ne_nil _ _, hdig⟩

end Decimal
