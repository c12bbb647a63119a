import HeadOfContext.Framework.JsonPrint

/-!
# The text of `json.dumps`

`text ft v` is `json.dumps(value)` with its defaults: the separators `(", ", ": ")`, and every
character beyond ASCII escaped. The text holds printable ASCII only (`graphic_text`), whatever
the strings of the value hold, so it goes through channels that refuse a control character. It
loads as the value (`loads_text`).
-/

namespace Json

open CodePoint Decimal

/-- The default style. -/
def Style.standard : Style where
  pad := [ofChar ' ']
  escape c := ascii (Json.escape c)
  pad_space := Style.spaced.pad_space
  scan_escape := Style.compact.scan_escape

/-- A printable character of ASCII. -/
def Graphic (c : Char) : Prop := 0x20 ≤ c.toNat ∧ c.toNat < 0x7f

instance decidableGraphic : DecidablePred Graphic :=
  fun _ => inferInstanceAs (Decidable (_ ∧ _))

/-- The text consists of printable characters of ASCII. -/
def IsGraphic (text : PyStr) : Prop := ∃ cs, text = ascii cs ∧ ∀ c ∈ cs, Graphic c

theorem isGraphic_ascii (cs : List Char) (h : ∀ c ∈ cs, Graphic c) : IsGraphic (ascii cs) :=
  ⟨cs, rfl, h⟩

theorem IsGraphic.append {s t : PyStr} (hs : IsGraphic s) (ht : IsGraphic t) :
    IsGraphic (s ++ t) := by
  obtain ⟨cs, rfl, hcs⟩ := hs
  obtain ⟨ds, rfl, hds⟩ := ht
  exact ⟨cs ++ ds, (ascii_append cs ds).symm, List.forall_mem_append.mpr ⟨hcs, hds⟩⟩

theorem IsGraphic.cons {c : Char} {t : PyStr} (hc : Graphic c) (ht : IsGraphic t) :
    IsGraphic (ofChar c :: t) := by
  obtain ⟨ds, rfl, hds⟩ := ht
  exact ⟨c :: ds, rfl, List.forall_mem_cons.mpr ⟨hc, hds⟩⟩

/-! ### Strings and numbers -/

theorem graphic_hexDigit {n : ℕ} (h : n < 16) : Graphic (hexDigit n) := by
  interval_cases n <;> decide

theorem graphic_unitEscape (n : ℕ) : ∀ c ∈ unitEscape n, Graphic c := by
  have hdigit : ∀ k, Graphic (hexDigit (k % 16)) := fun k =>
    graphic_hexDigit (Nat.mod_lt k (by decide))
  unfold unitEscape hex4
  refine List.forall_mem_cons.mpr ⟨by decide, List.forall_mem_cons.mpr ⟨by decide, ?_⟩⟩
  simp only [List.forall_mem_cons, hdigit, true_and]
  exact fun c hc => absurd hc List.not_mem_nil

/-- A code point is escaped to printable characters, whatever it is. -/
theorem graphic_escape (p : CodePoint) : ∀ c ∈ escape p, Graphic c := by
  unfold escape
  split_ifs with hquote hslash hn hr ht hf hb hascii hbmp
  · decide
  · decide
  · decide
  · decide
  · decide
  · decide
  · decide
  · intro c hc
    obtain rfl := List.mem_singleton.mp hc
    have hvalid : p.val.isValidChar := .inl (by omega)
    have hnat : (Char.ofNat p.val).toNat = p.val := by
      rw [Char.ofNat, dif_pos hvalid]
      rfl
    rw [Graphic, hnat]
    omega
  · exact graphic_unitEscape _
  · exact List.forall_mem_append.mpr ⟨graphic_unitEscape _, graphic_unitEscape _⟩

theorem isGraphic_quote (s : PyStr) : IsGraphic (Style.standard.quote s) := by
  have hbody : IsGraphic (s.flatMap fun c => ascii (escape c)) := by
    rw [← ascii_flatMap]
    refine isGraphic_ascii _ fun c hc => ?_
    obtain ⟨p, -, hp⟩ := List.mem_flatMap.mp hc
    exact graphic_escape p c hp
  show IsGraphic (ofChar '"' :: (s.flatMap (fun c => ascii (escape c)) ++ [ofChar '"']))
  exact .cons (by decide) (hbody.append (isGraphic_ascii ['"'] (by decide)))

theorem graphic_of_isDigit {c : Char} (h : Decimal.isDigit c = true) : Graphic c := by
  simp only [Decimal.isDigit, Bool.and_eq_true, decide_eq_true_eq] at h
  have hlow : 48 ≤ c.toNat := h.1
  have hhigh : c.toNat ≤ 57 := h.2
  rw [Graphic]
  omega

theorem graphic_natText (n : ℕ) : ∀ c ∈ natText n, Graphic c :=
  fun c hc => graphic_of_isDigit ((isIntPart_natText n).isDigits.2 c hc)

theorem graphic_intText (n : ℤ) : ∀ c ∈ intText n, Graphic c := by
  cases n with
  | ofNat n => exact graphic_natText n
  | negSucc n => exact List.forall_mem_cons.mpr ⟨by decide, graphic_natText (n + 1)⟩

theorem graphic_floatText (ft : FloatText) (x : PyFloat) :
    ∀ c ∈ floatText ft x, Graphic c := by
  cases x with
  | nan =>
    show ∀ c ∈ ['N', 'a', 'N'], Graphic c
    decide
  | infinity negative =>
    have hword : ∀ c ∈ "Infinity".toList, Graphic c := by decide
    cases negative with
    | false => exact hword
    | true => exact List.forall_mem_cons.mpr ⟨by decide, hword⟩
  | finite x =>
    have hdigits : ∀ {ds : List Char}, IsDigits ds → ∀ c ∈ ds, Graphic c :=
      fun h c hc => graphic_of_isDigit (h.2 c hc)
    obtain ⟨sign, ip, frac, exp, htext, hsign, hip, hfrac, hexp, -⟩ := ft.repr_isFloatText x
    -- a finite number has a sign, digits, perhaps a fraction and perhaps an exponent
    have hsign' : ∀ c ∈ sign, Graphic c := by
      rcases hsign with rfl | rfl <;> decide
    have hfrac' : ∀ c ∈ frac, Graphic c := by
      rcases hfrac with rfl | ⟨ds, rfl, hds⟩
      · decide
      · exact List.forall_mem_cons.mpr ⟨by decide, hdigits hds⟩
    have hexp' : ∀ c ∈ exp, Graphic c := by
      rcases hexp with rfl | ⟨e, s, ds, rfl, he, hs, hds⟩
      · decide
      · refine List.forall_mem_cons.mpr ⟨?_, List.forall_mem_append.mpr ⟨?_, hdigits hds⟩⟩
        · rcases he with rfl | rfl <;> decide
        · rcases hs with rfl | rfl | rfl <;> decide
    show ∀ c ∈ ft.repr x, Graphic c
    rw [htext]
    simp only [List.forall_mem_append]
    exact ⟨⟨⟨hsign', hdigits hip.isDigits⟩, hfrac'⟩, hexp'⟩

/-! ### Values -/

mutual

/-- **A printed value is printable ASCII.** -/
theorem isGraphic_print (ft : FloatText) (v : Json) : IsGraphic (print ft .standard v) := by
  match v with
  | .null =>
    rw [print]
    exact isGraphic_ascii _ (by decide)
  | .bool true =>
    rw [print]
    exact isGraphic_ascii _ (by decide)
  | .bool false =>
    rw [print]
    exact isGraphic_ascii _ (by decide)
  | .int n =>
    rw [print]
    exact isGraphic_ascii _ (graphic_intText n)
  | .float x =>
    rw [print]
    exact isGraphic_ascii _ (graphic_floatText ft x)
  | .str s =>
    rw [print]
    exact isGraphic_quote s
  | .arr [] =>
    rw [print]
    exact isGraphic_ascii ['[', ']'] (by decide)
  | .arr (x :: xs) =>
    rw [print]
    exact .cons (by decide) ((isGraphic_print ft x).append (isGraphic_printItems ft xs))
  | .obj [] =>
    rw [print]
    exact isGraphic_ascii ['\x7b', '\x7d'] (by decide)
  | .obj ((k, v) :: ms) =>
    rw [print]
    exact .cons (by decide) ((isGraphic_quote k).append (.cons (by decide)
      (.cons (c := ' ') (by decide)
        ((isGraphic_print ft v).append (isGraphic_printMembers ft ms)))))

theorem isGraphic_printItems (ft : FloatText) (xs : List Json) :
    IsGraphic (printItems ft .standard xs) := by
  match xs with
  | [] =>
    rw [printItems]
    exact isGraphic_ascii [']'] (by decide)
  | x :: xs =>
    rw [printItems]
    exact .cons (by decide) (.cons (c := ' ') (by decide)
      ((isGraphic_print ft x).append (isGraphic_printItems ft xs)))

theorem isGraphic_printMembers (ft : FloatText) (ms : List (PyStr × Json)) :
    IsGraphic (printMembers ft .standard ms) := by
  match ms with
  | [] =>
    rw [printMembers]
    exact isGraphic_ascii ['\x7d'] (by decide)
  | (k, v) :: ms =>
    rw [printMembers]
    exact .cons (by decide) (.cons (c := ' ') (by decide) ((isGraphic_quote k).append
      (.cons (by decide) (.cons (c := ' ') (by decide)
        ((isGraphic_print ft v).append (isGraphic_printMembers ft ms))))))

end

/-- `json.dumps(value)`. -/
def text (ft : FloatText) (v : Json) : String :=
  String.ofList ((print ft .standard v).map toChar)

/-- The characters of the text are the printed code points. -/
theorem toList_text (ft : FloatText) (v : Json) :
    ∃ cs, (text ft v).toList = cs ∧ print ft .standard v = ascii cs ∧ ∀ c ∈ cs, Graphic c := by
  obtain ⟨cs, hcs, hgraphic⟩ := isGraphic_print ft v
  refine ⟨cs, ?_, hcs, hgraphic⟩
  rw [text, String.toList_ofList, hcs, ascii, List.map_map]
  calc cs.map (toChar ∘ ofChar) = cs.map id := List.map_congr_left fun c _ => toChar_ofChar c
    _ = cs := List.map_id cs

theorem graphic_text (ft : FloatText) (v : Json) : ∀ c ∈ (text ft v).toList, Graphic c := by
  obtain ⟨cs, hcs, -, hgraphic⟩ := toList_text ft v
  rw [hcs]
  exact hgraphic

/-- **The text loads as the value.** -/
theorem loads_text {ft : FloatText} {v : Json} (hv : Wf Joined v) :
    loads ft (.ofString (text ft v)) = some v := by
  obtain ⟨cs, hcs, hprint, -⟩ := toList_text ft v
  have hstr : PyStr.ofString (text ft v) = print ft .standard v := by
    rw [PyStr.ofString, hcs, hprint]
    rfl
  rw [hstr]
  exact loads_print hv

end Json
