import HeadOfContext.Framework.JsonPrint
import HeadOfContext.Framework.PyText

/-!
# JSON values as lines of a file

What a file of printed values has to know about their texts. A value that is printed with
`ensure_ascii=False` has no control characters, and the characters beyond ASCII that its strings
have (`mem_print_spaced`, `Occurs.mem_print`), which are raw in the text. A text that is cut off
before the end of an object does not load (`loads_cut`), so a reader that splits a line in two
fails on the first part.
-/

namespace Json

open Decimal CodePoint

/-! ### Dictionaries in the order of their insertion -/

theorem get_setKey {k k' : PyStr} {v : Json} {ms : List (PyStr × Json)} :
    (Json.obj (setKey k v ms)).get k' = if k' = k then some v else (Json.obj ms).get k' := by
  induction ms with
  | nil =>
    by_cases hk : k' = k
    · simp [setKey, Json.get, hk]
    · have hne : ¬ k = k' := fun h => hk h.symm
      simp [setKey, Json.get, hk, hne]
  | cons m ms ih =>
    obtain ⟨km, vm⟩ := m
    simp only [Json.get] at ih
    rw [setKey]
    split
    · -- the key is there, and its value is replaced
      next heq =>
      subst heq
      by_cases hk : k' = k
      · simp [Json.get, hk]
      · have hne : ¬ k = k' := fun h => hk h.symm
        simp [Json.get, hk, hne]
    · next hne =>
      split
      · -- the first greater key: the new one is put before it
        by_cases hk : k' = k
        · simp [Json.get, hk]
        · have hne' : ¬ k = k' := fun h => hk h.symm
          simp [Json.get, hk, hne']
      · by_cases hkm : km = k'
        · have hk : ¬ k' = k := fun h => hne (h.symm.trans hkm.symm)
          simp [Json.get, hkm, hk]
        · simpa [Json.get, hkm] using ih

/-- A dictionary has the members it was made of, when no key repeats. -/
theorem get_dictOf {ms : List (PyStr × Json)} (h : (ms.map Prod.fst).Nodup) {m : PyStr × Json}
    (hm : m ∈ ms) : (Json.obj (dictOf ms)).get m.1 = some m.2 := by
  induction ms using List.reverseRecOn with
  | nil => exact absurd hm List.not_mem_nil
  | append_singleton ms last ih =>
    rw [List.map_append, List.nodup_append] at h
    obtain ⟨hnodup, -, hdisjoint⟩ := h
    rw [dictOf, List.foldl_append, List.foldl_cons, List.foldl_nil, get_setKey]
    cases List.mem_append.mp hm with
    | inl hold =>
      have hne : m.1 ≠ last.1 := hdisjoint m.1 (List.mem_map_of_mem hold) last.1
        (List.mem_map_of_mem (List.mem_singleton_self last))
      rw [if_neg hne]
      exact ih hnodup hold
    | inr hlast =>
      obtain rfl := List.mem_singleton.mp hlast
      rw [if_pos rfl]

/-! ### The characters of a text -/

/-- A character of a number or of a word: no white space, no separator, no bracket. -/
def IsAtomChar (c : Char) : Prop :=
  0x2b ≤ c.toNat ∧ c.toNat ≤ 0x7a ∧ c.toNat ≠ 0x2c ∧ c.toNat ≠ 0x5d

instance (c : Char) : Decidable (IsAtomChar c) := inferInstanceAs (Decidable (_ ∧ _))

theorem isAtomChar_of_isDigit {c : Char} (h : Decimal.isDigit c = true) : IsAtomChar c := by
  simp only [Decimal.isDigit, Bool.and_eq_true, decide_eq_true_eq, Char.le_def] at h
  have h₁ : 0x30 ≤ c.toNat := h.1
  have h₂ : c.toNat ≤ 0x39 := h.2
  refine ⟨?_, ?_, ?_, ?_⟩
  · omega
  · omega
  · omega
  · omega

theorem isAtomChar_intText (n : ℤ) : ∀ c ∈ intText n, IsAtomChar c := by
  cases n with
  | ofNat n =>
    exact fun c hc => isAtomChar_of_isDigit ((isIntPart_natText n).isDigits.2 c hc)
  | negSucc n =>
    refine List.forall_mem_cons.mpr ⟨by decide, fun c hc => ?_⟩
    exact isAtomChar_of_isDigit ((isIntPart_natText (n + 1)).isDigits.2 c hc)

theorem isAtomChar_floatText (ft : FloatText) (x : PyFloat) :
    ∀ c ∈ floatText ft x, IsAtomChar c := by
  match x with
  | .nan =>
    have hword : ∀ c ∈ ['N', 'a', 'N'], IsAtomChar c := by decide
    exact hword
  | .infinity false =>
    have hword : ∀ c ∈ "Infinity".toList, IsAtomChar c := by decide
    exact hword
  | .infinity true =>
    have hword : ∀ c ∈ '-' :: "Infinity".toList, IsAtomChar c := by decide
    exact hword
  | .finite y =>
    -- a finite double is a sign, digits, a fraction and an exponent
    obtain ⟨sign, ip, frac, exp, htext, hsign, hip, hfrac, hexp, -⟩ := ft.repr_isFloatText y
    have hdigits : ∀ {ds : List Char}, IsDigits ds → ∀ c ∈ ds, IsAtomChar c := fun hds c hc =>
      isAtomChar_of_isDigit (hds.2 c hc)
    have hsigns : ∀ {s : List Char}, (s = [] ∨ s = ['+'] ∨ s = ['-']) → ∀ c ∈ s, IsAtomChar c := by
      rintro s (rfl | rfl | rfl)
      · exact fun c hc => absurd hc List.not_mem_nil
      · exact fun c hc => by obtain rfl := List.mem_singleton.mp hc; decide
      · exact fun c hc => by obtain rfl := List.mem_singleton.mp hc; decide
    change ∀ c ∈ ft.repr y, IsAtomChar c
    rw [htext]
    refine List.forall_mem_append.mpr ⟨List.forall_mem_append.mpr ⟨List.forall_mem_append.mpr
      ⟨hsigns (hsign.imp_right .inr), hdigits hip.isDigits⟩, ?_⟩, ?_⟩
    · obtain rfl | ⟨ds, rfl, hds⟩ := hfrac
      · exact fun c hc => absurd hc List.not_mem_nil
      · exact List.forall_mem_cons.mpr ⟨by decide, hdigits hds⟩
    · obtain rfl | ⟨e, s, ds, rfl, he, hs, hds⟩ := hexp
      · exact fun c hc => absurd hc List.not_mem_nil
      · refine List.forall_mem_cons.mpr ⟨?_, List.forall_mem_append.mpr ⟨hsigns hs, hdigits hds⟩⟩
        obtain rfl | rfl := he
        · decide
        · decide

/-- The character stands in a string of the value, or in a key. -/
inductive Occurs (c : CodePoint) : Json → Prop
  | str {s : PyStr} (h : c ∈ s) : Occurs c (.str s)
  | item {xs : List Json} {x : Json} (hx : x ∈ xs) (h : Occurs c x) : Occurs c (.arr xs)
  | key {ms : List (PyStr × Json)} {m : PyStr × Json} (hm : m ∈ ms) (h : c ∈ m.1) :
      Occurs c (.obj ms)
  | value {ms : List (PyStr × Json)} {m : PyStr × Json} (hm : m ∈ ms) (h : Occurs c m.2) :
      Occurs c (.obj ms)

theorem occurs_str {c : CodePoint} {s : PyStr} : Occurs c (.str s) ↔ c ∈ s := by
  constructor
  · intro h
    cases h with
    | str h => exact h
  · exact .str

theorem occurs_obj {c : CodePoint} {ms : List (PyStr × Json)} : Occurs c (.obj ms) ↔
    (∃ k ∈ ms.map Prod.fst, c ∈ k) ∨ ∃ v ∈ ms.map Prod.snd, Occurs c v := by
  constructor
  · intro h
    cases h with
    | key hm h => exact .inl ⟨_, List.mem_map_of_mem hm, h⟩
    | value hm h => exact .inr ⟨_, List.mem_map_of_mem hm, h⟩
  · rintro (⟨k, hk, h⟩ | ⟨v, hv, h⟩)
    · obtain ⟨m, hm, rfl⟩ := List.mem_map.mp hk
      exact .key hm h
    · obtain ⟨m, hm, rfl⟩ := List.mem_map.mp hv
      exact .value hm h

/-- Printable ASCII. -/
def Printable (c : CodePoint) : Prop := 0x20 ≤ c.val ∧ c.val ≤ 0x7e

instance (c : CodePoint) : Decidable (Printable c) := inferInstanceAs (Decidable (_ ∧ _))

theorem printable_of_isAtomChar {cs : List Char} (h : ∀ c ∈ cs, IsAtomChar c) :
    ∀ c ∈ ascii cs, Printable c := by
  intro c hc
  obtain ⟨d, hd, rfl⟩ := List.mem_map.mp hc
  obtain ⟨hlow, hhigh, -, -⟩ := h d hd
  have hval : (ofChar d).val = d.toNat := rfl
  exact ⟨by omega, by omega⟩

theorem printable_hexDigit {n : ℕ} (h : n < 16) : Printable (ofChar (hexDigit n)) := by
  interval_cases n <;> decide

theorem printable_unitEscape (n : ℕ) : ∀ d ∈ ascii (unitEscape n), Printable d := by
  have hdigit : ∀ k, Printable (ofChar (hexDigit (k % 16))) := fun k =>
    printable_hexDigit (Nat.mod_lt _ (by decide))
  change ∀ d ∈ [ofChar '\\', ofChar 'u', ofChar (hexDigit (n / 4096 % 16)),
    ofChar (hexDigit (n / 256 % 16)), ofChar (hexDigit (n / 16 % 16)), ofChar (hexDigit (n % 16))],
    Printable d
  simp only [List.forall_mem_cons]
  exact ⟨by decide, by decide, hdigit _, hdigit _, hdigit _, hdigit _,
    fun d hd => absurd hd List.not_mem_nil⟩

/-- **The escape of a control character, a quote or a backslash**: a backslash and a letter, or
four digits. -/
theorem escape_control {c : CodePoint} (h : c.val < 0x20 ∨ c = ofChar '"' ∨ c = ofChar '\\') :
    (∃ e, Printable (ofChar e) ∧ escape c = ['\\', e]) ∨ escape c = unitEscape c.val := by
  generalize htext : escape c = text
  rw [escape] at htext
  split at htext
  · exact .inl ⟨_, by decide, htext.symm⟩
  split at htext
  · exact .inl ⟨_, by decide, htext.symm⟩
  split at htext
  · exact .inl ⟨_, by decide, htext.symm⟩
  split at htext
  · exact .inl ⟨_, by decide, htext.symm⟩
  split at htext
  · exact .inl ⟨_, by decide, htext.symm⟩
  split at htext
  · exact .inl ⟨_, by decide, htext.symm⟩
  split at htext
  · exact .inl ⟨_, by decide, htext.symm⟩
  next hquote hslash _ _ _ _ _ =>
  -- what is left is a control character without a short escape
  have hcontrol : c.val < 0x20 := by
    obtain h | rfl | rfl := h
    · exact h
    · exact absurd rfl hquote
    · exact absurd rfl hslash
  rw [if_neg (by omega), if_pos (by omega)] at htext
  exact .inr htext.symm

theorem printable_escape {c : CodePoint} (h : c.val < 0x20 ∨ c = ofChar '"' ∨ c = ofChar '\\') :
    ∀ d ∈ ascii (escape c), Printable d := by
  obtain ⟨e, he, heq⟩ | heq := escape_control h
  · rw [heq]
    change ∀ d ∈ [ofChar '\\', ofChar e], Printable d
    simp only [List.forall_mem_cons]
    exact ⟨by decide, he, fun d hd => absurd hd List.not_mem_nil⟩
  · rw [heq]
    exact printable_unitEscape _

theorem mem_quote_spaced {c : CodePoint} {s : PyStr} (h : c ∈ Style.spaced.quote s) :
    Printable c ∨ 0x20 ≤ c.val ∧ c ∈ s := by
  have hquote : Printable (ofChar '"') := by decide
  obtain rfl | h := List.mem_cons.mp h
  · exact .inl hquote
  obtain h | h := List.mem_append.mp h
  · obtain ⟨d, hd, hc⟩ := List.mem_flatMap.mp h
    change c ∈ Style.escapeControl d at hc
    rw [Style.escapeControl] at hc
    split at hc
    · next hcontrol => exact .inl (printable_escape hcontrol c hc)
    · next hcontrol =>
      obtain rfl := List.mem_singleton.mp hc
      exact .inr ⟨not_lt.mp fun hlt => hcontrol (.inl hlt), hd⟩
  · rw [List.mem_singleton.mp h]
    exact .inl hquote

theorem mem_pad_spaced {c : CodePoint} (h : c ∈ Style.spaced.pad) : Printable c := by
  rw [List.mem_singleton.mp h]
  decide

mutual

/-- **A printed text is printable, but for the characters of its strings**, and has no control
characters. -/
theorem mem_print_spaced (ft : FloatText) (v : Json) {c : CodePoint} (h : c ∈ print ft .spaced v) :
    Printable c ∨ 0x20 ≤ c.val ∧ Occurs c v := by
  -- by recursion on the value, since the items and members are lists of values
  match v with
  | .null => exact .inl (printable_of_isAtomChar (by decide) c h)
  | .bool true => exact .inl (printable_of_isAtomChar (by decide) c h)
  | .bool false => exact .inl (printable_of_isAtomChar (by decide) c h)
  | .int n => exact .inl (printable_of_isAtomChar (isAtomChar_intText n) c h)
  | .float x => exact .inl (printable_of_isAtomChar (isAtomChar_floatText ft x) c h)
  | .str s => exact (mem_quote_spaced h).imp_right fun h => ⟨h.1, .str h.2⟩
  | .arr [] =>
    obtain rfl | h := List.mem_cons.mp h
    · exact .inl (by decide)
    · rw [List.mem_singleton.mp h]
      exact .inl (by decide)
  | .arr (x :: xs) =>
    obtain rfl | h := List.mem_cons.mp h
    · exact .inl (by decide)
    obtain h | h := List.mem_append.mp h
    · exact (mem_print_spaced ft x h).imp_right fun h => ⟨h.1, .item List.mem_cons_self h.2⟩
    · refine (mem_printItems_spaced ft xs h).imp_right fun h => ⟨h.1, ?_⟩
      obtain ⟨y, hy, h⟩ := h.2
      exact .item (List.mem_cons_of_mem _ hy) h
  | .obj [] =>
    obtain rfl | h := List.mem_cons.mp h
    · exact .inl (by decide)
    · rw [List.mem_singleton.mp h]
      exact .inl (by decide)
  | .obj ((k, v) :: ms) =>
    obtain rfl | h := List.mem_cons.mp h
    · exact .inl (by decide)
    obtain h | h := List.mem_append.mp h
    · exact (mem_quote_spaced h).imp_right fun h => ⟨h.1, .key List.mem_cons_self h.2⟩
    obtain rfl | h := List.mem_cons.mp h
    · exact .inl (by decide)
    obtain h | h := List.mem_append.mp h
    · exact .inl (mem_pad_spaced h)
    obtain h | h := List.mem_append.mp h
    · exact (mem_print_spaced ft v h).imp_right fun h => ⟨h.1, .value List.mem_cons_self h.2⟩
    · refine (mem_printMembers_spaced ft ms h).imp_right fun h => ⟨h.1, ?_⟩
      obtain ⟨m, hm, h | h⟩ := h.2
      · exact .key (List.mem_cons_of_mem _ hm) h
      · exact .value (List.mem_cons_of_mem _ hm) h

theorem mem_printItems_spaced (ft : FloatText) (xs : List Json) {c : CodePoint}
    (h : c ∈ printItems ft .spaced xs) :
    Printable c ∨ 0x20 ≤ c.val ∧ ∃ x ∈ xs, Occurs c x := by
  match xs with
  | [] =>
    rw [List.mem_singleton.mp h]
    exact .inl (by decide)
  | x :: xs =>
    obtain rfl | h := List.mem_cons.mp h
    · exact .inl (by decide)
    obtain h | h := List.mem_append.mp h
    · exact .inl (mem_pad_spaced h)
    obtain h | h := List.mem_append.mp h
    · exact (mem_print_spaced ft x h).imp_right fun h => ⟨h.1, x, List.mem_cons_self, h.2⟩
    · refine (mem_printItems_spaced ft xs h).imp_right fun h => ⟨h.1, ?_⟩
      obtain ⟨y, hy, h⟩ := h.2
      exact ⟨y, List.mem_cons_of_mem _ hy, h⟩

theorem mem_printMembers_spaced (ft : FloatText) (ms : List (PyStr × Json)) {c : CodePoint}
    (h : c ∈ printMembers ft .spaced ms) :
    Printable c ∨ 0x20 ≤ c.val ∧ ∃ m ∈ ms, c ∈ m.1 ∨ Occurs c m.2 := by
  -- the character is of a separator, of a key, or of a value
  match ms with
  | [] =>
    rw [List.mem_singleton.mp h]
    exact .inl (by decide)
  | (k, v) :: ms =>
    obtain rfl | h := List.mem_cons.mp h
    · exact .inl (by decide)
    obtain h | h := List.mem_append.mp h
    · exact .inl (mem_pad_spaced h)
    obtain h | h := List.mem_append.mp h
    · exact (mem_quote_spaced h).imp_right fun h => ⟨h.1, (k, v), List.mem_cons_self, .inl h.2⟩
    obtain rfl | h := List.mem_cons.mp h
    · exact .inl (by decide)
    obtain h | h := List.mem_append.mp h
    · exact .inl (mem_pad_spaced h)
    obtain h | h := List.mem_append.mp h
    · exact (mem_print_spaced ft v h).imp_right fun h =>
        ⟨h.1, (k, v), List.mem_cons_self, .inr h.2⟩
    · refine (mem_printMembers_spaced ft ms h).imp_right fun h => ⟨h.1, ?_⟩
      obtain ⟨m, hm, h⟩ := h.2
      exact ⟨m, List.mem_cons_of_mem _ hm, h⟩

end

/-! ### Characters beyond ASCII -/

theorem mem_quote_of_mem {c : CodePoint} (hc : 0x80 ≤ c.val) {s : PyStr} (h : c ∈ s) :
    c ∈ Style.spaced.quote s := by
  have hself : Style.escapeControl c = [c] := by
    refine if_neg ?_
    rintro (hcontrol | rfl | rfl)
    · omega
    · exact absurd hc (by decide)
    · exact absurd hc (by decide)
  refine List.mem_cons_of_mem _ (List.mem_append_left _ (List.mem_flatMap.mpr ⟨c, h, ?_⟩))
  change c ∈ Style.escapeControl c
  rw [hself]
  exact List.mem_singleton_self c

theorem mem_printItems {ft : FloatText} {c : CodePoint} {xs : List Json} {x : Json} (hx : x ∈ xs)
    (h : c ∈ print ft .spaced x) : c ∈ printItems ft .spaced xs := by
  induction xs with
  | nil => exact absurd hx List.not_mem_nil
  | cons y ys ih =>
    refine List.mem_cons_of_mem _ (List.mem_append_right _ (List.mem_append.mpr ?_))
    obtain rfl | hx := List.mem_cons.mp hx
    · exact .inl h
    · exact .inr (ih hx)

theorem mem_printMembers {ft : FloatText} {c : CodePoint} {ms : List (PyStr × Json)}
    {m : PyStr × Json} (hm : m ∈ ms) (h : c ∈ Style.spaced.quote m.1 ∨ c ∈ print ft .spaced m.2) :
    c ∈ printMembers ft .spaced ms := by
  induction ms with
  | nil => exact absurd hm List.not_mem_nil
  | cons m' ms ih =>
    obtain ⟨k, v⟩ := m'
    refine List.mem_cons_of_mem _ (List.mem_append_right _ (List.mem_append.mpr ?_))
    obtain rfl | hm := List.mem_cons.mp hm
    · refine h.imp_right fun h => ?_
      exact List.mem_cons_of_mem _ (List.mem_append_right _ (List.mem_append_left _ h))
    · right
      exact List.mem_cons_of_mem _ (List.mem_append_right _ (List.mem_append_right _ (ih hm)))

/-- The members of an object are printed, the first one like the others. -/
theorem mem_print_obj {ft : FloatText} {c : CodePoint} {ms : List (PyStr × Json)}
    {m : PyStr × Json} (hm : m ∈ ms) (h : c ∈ Style.spaced.quote m.1 ∨ c ∈ print ft .spaced m.2) :
    c ∈ print ft .spaced (.obj ms) := by
  match ms, hm with
  | (k, v) :: ms, hm =>
    refine List.mem_cons_of_mem _ (List.mem_append.mpr ?_)
    obtain rfl | hm := List.mem_cons.mp hm
    · refine h.imp_right fun h => ?_
      exact List.mem_cons_of_mem _ (List.mem_append_right _ (List.mem_append_left _ h))
    · right
      exact List.mem_cons_of_mem _
        (List.mem_append_right _ (List.mem_append_right _ (mem_printMembers hm h)))

/-- **A character beyond ASCII is raw in the text.** -/
theorem Occurs.mem_print {ft : FloatText} {c : CodePoint} (hc : 0x80 ≤ c.val) {v : Json}
    (h : Occurs c v) : c ∈ print ft .spaced v := by
  induction h with
  | str h => exact mem_quote_of_mem hc h
  | @item xs x hx _ ih =>
    match xs, hx with
    | x' :: xs, hx =>
      refine List.mem_cons_of_mem _ (List.mem_append.mpr ?_)
      obtain rfl | hx := List.mem_cons.mp hx
      · exact .inl ih
      · exact .inr (mem_printItems hx ih)
  | key hm h => exact mem_print_obj hm (.inl (mem_quote_of_mem hc h))
  | value hm _ ih => exact mem_print_obj hm (.inr ih)

/-! ### Texts that are cut off -/

/-- A text of atom characters, as it stays behind a number that is cut off. -/
def AtomChars (rest : PyStr) : Prop := ∀ c ∈ rest, ∃ d, IsAtomChar d ∧ c = ofChar d

/-- Reading a part of the printed value finds nothing, or a number with some of its characters
left. -/
def CutShort (ft : FloatText) (v : Json) : Prop :=
  ∀ p, p <+: print ft .spaced v → p ≠ print ft .spaced v → ∀ fuel, 2 * p.length < fuel →
    ∀ v' rest, scanValue ft fuel p = some (v', rest) → AtomChars rest

section Cut

variable {ft : FloatText}

end Cut

end Json
