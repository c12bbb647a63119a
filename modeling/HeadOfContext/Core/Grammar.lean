import HeadOfContext.Core.Refs
import HeadOfContext.Framework.Regex

/-!
# The grammar of references

The two expressions of `core/refs.py` as the matcher reads them, with the proof that
`matchResource` and `matchPlain` are `re.match` of them, and the strings that a reader of the
comment over them expects: `IsPatternText` and `IsRefText`. The two agree but for a final line
feed, which `$` lets through (`isResourcePattern_iff`, `isRef_iff`).
-/

namespace HeadOfContext

open Regex

/-! ### The expressions -/

/-- `^(?P<type>[a-z][a-z0-9_-]*):(?P<id>…)$`. -/
def refRe (id : Regex) : Regex :=
  .seq .start (.seq (.named "type" (.seq (.one isLower) (.many isTypeChar)))
    (.seq (.one (· == ':')) (.seq (.named "id" id) .finish)))

/-- `_RESOURCE_RE`: the id is `_ID_CHARS*\*?`. -/
def RESOURCE_RE : Regex := refRe (.seq (.many isIdChar) (.maybe (· == '*')))

/-- `_PLAIN_RE`: the id is `_ID_CHARS+`. -/
def PLAIN_RE : Regex := refRe (.seq (.one isIdChar) (.many isIdChar))

theorem not_idChar_lineFeed {c : Char} (h : isIdChar c = true) : c ≠ '\n' := by
  rintro rfl
  exact absurd h (by decide)

theorem not_typeChar_colon {c : Char} (h : isTypeChar c = true) : c ≠ ':' := by
  rintro rfl
  exact absurd h (by decide)

/-- The id of a pattern: characters of the charset, then at most one star. -/
theorem stripStar_iff {cs : List Char} : (∀ c ∈ stripStar cs, isIdChar c = true) ↔
    ∃ i star, cs = i ++ star ∧ (∀ c ∈ i, isIdChar c = true) ∧ (star = [] ∨ star = ['*']) := by
  rw [stripStar]
  constructor
  · intro h
    by_cases hlast : cs.getLast? = some '*'
    · rw [if_pos hlast] at h
      exact ⟨cs.dropLast, ['*'], (List.dropLast_append_getLast? _ hlast).symm, h, .inr rfl⟩
    · rw [if_neg hlast] at h
      exact ⟨cs, [], (List.append_nil cs).symm, h, .inl rfl⟩
  · rintro ⟨i, star, rfl, hi, rfl | rfl⟩
    · have hlast : i.getLast? ≠ some '*' := by
        intro hlast
        exact absurd (hi '*' (List.mem_of_getLast? hlast)) (by decide)
      rw [List.append_nil, if_neg hlast]
      exact hi
    · rw [List.getLast?_concat, if_pos rfl, List.dropLast_concat]
      exact hi

/-- The ids that an expression reads. -/
def IdOf (id : Regex) (p : List Char → Prop) : Prop :=
  ∀ begun g w rest, Reads id begun g w rest ↔ g = [] ∧ p w

theorem idOf_resource : IdOf (.seq (.many isIdChar) (.maybe (· == '*')))
    fun i => ∀ c ∈ stripStar i, isIdChar c = true := by
  intro begun g w rest
  simp only [stripStar_iff, Reads]
  constructor
  · rintro ⟨g₁, i, g₂, star, ⟨rfl, hi⟩, ⟨rfl, hstar⟩, rfl, rfl⟩
    refine ⟨rfl, i, star, rfl, hi, hstar.imp_right ?_⟩
    rintro ⟨c, hc, rfl⟩
    rw [beq_iff_eq.mp hc]
  · rintro ⟨rfl, i, star, rfl, hi, hstar⟩
    refine ⟨[], i, [], star, ⟨rfl, hi⟩, ⟨rfl, hstar.imp_right ?_⟩, rfl, rfl⟩
    rintro rfl
    exact ⟨'*', by decide, rfl⟩

theorem idOf_plain : IdOf (.seq (.one isIdChar) (.many isIdChar))
    fun i => i ≠ [] ∧ ∀ c ∈ i, isIdChar c = true := by
  intro begun g w rest
  simp only [Reads]
  constructor
  · rintro ⟨g₁, x, g₂, i, ⟨rfl, c, hc, rfl⟩, ⟨rfl, hi⟩, rfl, rfl⟩
    exact ⟨rfl, List.cons_ne_nil _ _, List.forall_mem_cons.mpr ⟨hc, hi⟩⟩
  · rintro ⟨rfl, hne, hall⟩
    obtain ⟨c, i, rfl⟩ := List.exists_cons_of_ne_nil hne
    obtain ⟨hc, hi⟩ := List.forall_mem_cons.mp hall
    exact ⟨[], [c], [], i, ⟨rfl, c, hc, rfl⟩, ⟨rfl, hi⟩, rfl, rfl⟩

/-- A type name is one lowercase letter and further characters. -/
theorem reads_typeName {begun : Bool} {g : List (String × List Char)} {w rest : List Char} :
    Reads (.seq (.one isLower) (.many isTypeChar)) begun g w rest ↔
      g = [] ∧ isTypeName w = true := by
  simp only [Reads]
  constructor
  · rintro ⟨g₁, x, g₂, cs, ⟨rfl, c, hc, rfl⟩, ⟨rfl, hcs⟩, rfl, rfl⟩
    exact ⟨rfl, Bool.and_eq_true_iff.mpr ⟨hc, List.all_eq_true.mpr hcs⟩⟩
  · rintro ⟨rfl, ht⟩
    cases w with
    | nil => exact absurd ht (by decide)
    | cons c cs =>
      obtain ⟨hc, hcs⟩ := Bool.and_eq_true_iff.mp ht
      exact ⟨[], [c], [], cs, ⟨rfl, c, hc, rfl⟩, ⟨rfl, List.all_eq_true.mp hcs⟩, rfl, rfl⟩

/-- **What the expressions match**: a type name, a colon and an id, then the end of the text or
its last line feed. -/
theorem reads_refRe {id : Regex} {p : List Char → Prop} (hid : IdOf id p)
    {g : List (String × List Char)} {w rest : List Char} :
    Reads (refRe id) false g w rest ↔ ∃ t i, isTypeName t = true ∧ p i ∧
      (rest = [] ∨ rest = ['\n']) ∧ g = [("type", t), ("id", i)] ∧ w = t ++ ':' :: i := by
  constructor
  · rintro ⟨g₀, w₀, g₁, w₁, ⟨-, rfl, rfl⟩, ⟨g₂, t, g₃, w₂, ⟨g₄, htype, rfl⟩, ⟨g₅, colon, g₆, w₃,
      ⟨rfl, c, hc, rfl⟩, ⟨g₇, i, g₈, w₄, ⟨g₉, hid', rfl⟩, ⟨rfl, rfl, hend⟩, rfl, rfl⟩, rfl, rfl⟩,
        rfl,
      rfl⟩, rfl, rfl⟩
    obtain ⟨rfl, ht⟩ := reads_typeName.mp htype
    obtain ⟨rfl, hi⟩ := (hid _ _ _ _).mp hid'
    obtain rfl := beq_iff_eq.mp hc
    exact ⟨t, i, ht, hi, hend, rfl, by simp⟩
  · rintro ⟨t, i, ht, hi, hend, rfl, rfl⟩
    -- the reading of the expression, from the id outwards
    have hinner : Reads (.seq (.named "id" id) .finish) true [("id", i)] i rest :=
      ⟨[("id", i)], i, [], [], ⟨[], (hid _ _ _ _).mpr ⟨rfl, hi⟩, rfl⟩, ⟨rfl, rfl, hend⟩, rfl,
        (List.append_nil i).symm⟩
    have hname : Reads (.named "type" (.seq (.one isLower) (.many isTypeChar))) false
        [("type", t)] t (':' :: i ++ rest) :=
      ⟨[], reads_typeName.mpr ⟨rfl, ht⟩, rfl⟩
    have hne : (false || !t.isEmpty) = true := by
      cases t with
      | nil => exact absurd ht (by decide)
      | cons c cs => rfl
    refine ⟨[], [], _, _, ⟨rfl, rfl, rfl⟩, ⟨_, t, _, ':' :: i, hname, ?_, rfl, rfl⟩, rfl, rfl⟩
    exact ⟨[], [':'], _, i, ⟨rfl, ':', by decide, rfl⟩, by simpa [hne] using hinner, rfl, rfl⟩

/-! ### The final line feed -/

/-- A text is what the expression has to match, and at most one line feed. -/
theorem matchBody_append {w rest : List Char} (hw : w.getLast? ≠ some '\n')
    (hrest : rest = [] ∨ rest = ['\n']) : matchBody (w ++ rest) = w := by
  rw [matchBody]
  rcases hrest with rfl | rfl
  · rw [List.append_nil, if_neg hw]
  · rw [List.getLast?_concat, if_pos rfl, List.dropLast_concat]

theorem append_matchBody (cs : List Char) :
    ∃ rest, (rest = [] ∨ rest = ['\n']) ∧ cs = matchBody cs ++ rest := by
  rw [matchBody]
  by_cases hlast : cs.getLast? = some '\n'
  · rw [if_pos hlast]
    exact ⟨['\n'], .inr rfl, (List.dropLast_append_getLast? _ hlast).symm⟩
  · rw [if_neg hlast]
    exact ⟨[], .inl rfl, (List.append_nil cs).symm⟩

/-- A type name has no colon. -/
theorem colon_notMem {t : List Char} (ht : isTypeName t = true) : ':' ∉ t :=
  fun hmem => not_typeChar_colon (isTypeName_mem ht hmem) rfl

/-- An id that cannot end in a line feed leaves it to `$`. -/
theorem getLast?_ref {t i : List Char} (hi : i.getLast? ≠ some '\n') :
    (t ++ ':' :: i).getLast? ≠ some '\n' := by
  rw [List.getLast?_append_of_ne_nil _ (List.cons_ne_nil _ _)]
  cases i with
  | nil => simp
  | cons c cs => rwa [List.getLast?_cons_of_ne_nil (List.cons_ne_nil _ _)]

/-- **The model's match is the engine's.** Splitting at the colon what stands before a final line
feed finds the groups that `re.match` finds. -/
theorem match?_refRe {id : Regex} {p : List Char → Prop} (hid : IdOf id p)
    (hline : ∀ i, p i → i.getLast? ≠ some '\n') {cs t i : List Char} :
    (splitColon (matchBody cs) = some (t, i) ∧ isTypeName t = true ∧ p i) ↔
      ∃ m, (refRe id).match? cs = some m ∧ m.groups = [("type", t), ("id", i)] := by
  constructor
  · rintro ⟨hsplit, ht, hi⟩
    obtain ⟨rest, hrest, hcs⟩ := append_matchBody cs
    rw [splitColon_some hsplit] at hcs
    obtain ⟨m, hm⟩ := exists_match? ((reads_refRe hid).mpr ⟨t, i, ht, hi, hrest, rfl, rfl⟩) hcs
    refine ⟨m, hm, ?_⟩
    obtain ⟨hreads, hs⟩ := reads_of_match? hm
    obtain ⟨t', i', ht', hi', hrest', hgroups, hread⟩ := (reads_refRe hid).mp hreads
    -- both splits are at the first colon
    rw [hread] at hs
    have hbody : splitColon (matchBody cs) = some (t', i') := by
      rw [hs, matchBody_append (getLast?_ref (hline i' hi')) hrest']
      exact splitColon_append (colon_notMem ht')
    obtain ⟨rfl, rfl⟩ := Prod.mk.inj (Option.some.inj (hsplit.symm.trans hbody))
    exact hgroups
  · rintro ⟨m, hm, hgroups⟩
    obtain ⟨hreads, hs⟩ := reads_of_match? hm
    obtain ⟨t', i', ht', hi', hrest', hgroups', hread⟩ := (reads_refRe hid).mp hreads
    obtain ⟨rfl, rfl⟩ : t' = t ∧ i' = i := by simpa [hgroups] using hgroups'.symm
    rw [hread] at hs
    refine ⟨?_, ht', hi'⟩
    rw [hs, matchBody_append (getLast?_ref (hline i' hi')) hrest']
    exact splitColon_append (colon_notMem ht')

theorem getLast?_idChars {i : List Char} (hi : ∀ c ∈ i, isIdChar c = true) :
    i.getLast? ≠ some '\n' :=
  fun hlast => not_idChar_lineFeed (hi '\n' (List.mem_of_getLast? hlast)) rfl

theorem getLast?_patternId {i : List Char} (hi : ∀ c ∈ stripStar i, isIdChar c = true) :
    i.getLast? ≠ some '\n' := by
  obtain ⟨cs, star, rfl, hcs, rfl | rfl⟩ := stripStar_iff.mp hi
  · rw [List.append_nil]
    exact getLast?_idChars hcs
  · rw [List.getLast?_concat]
    decide

/-- `matchResource` is `_RESOURCE_RE.match`. -/
theorem matchResource_eq_some {value : String} {t i : List Char} :
    matchResource value = some (t, i) ↔
      ∃ m, RESOURCE_RE.match? value.toList = some m ∧ m.groups = [("type", t), ("id", i)] := by
  rw [RESOURCE_RE, ← match?_refRe idOf_resource fun i hi => getLast?_patternId hi, matchResource]
  cases splitColon (matchBody value.toList) with
  | none => simp
  | some groups =>
    obtain ⟨t', i'⟩ := groups
    simp only [Option.ite_none_right_eq_some, Bool.and_eq_true, List.all_eq_true]
    constructor
    · rintro ⟨⟨ht, hi⟩, heq⟩
      obtain ⟨rfl, rfl⟩ := Prod.mk.inj (Option.some.inj heq)
      exact ⟨rfl, ht, hi⟩
    · rintro ⟨heq, ht, hi⟩
      obtain ⟨rfl, rfl⟩ := Prod.mk.inj (Option.some.inj heq)
      exact ⟨⟨ht, hi⟩, rfl⟩

/-- `matchPlain` is `_PLAIN_RE.match`. -/
theorem matchPlain_eq_some {value : String} {t i : List Char} :
    matchPlain value = some (t, i) ↔
      ∃ m, PLAIN_RE.match? value.toList = some m ∧ m.groups = [("type", t), ("id", i)] := by
  rw [PLAIN_RE, ← match?_refRe idOf_plain fun i hi => getLast?_idChars hi.2, matchPlain]
  cases splitColon (matchBody value.toList) with
  | none => simp
  | some groups =>
    obtain ⟨t', i'⟩ := groups
    simp only [Option.ite_none_right_eq_some, Bool.and_eq_true, List.all_eq_true,
      Bool.not_eq_true', List.isEmpty_eq_false_iff]
    constructor
    · rintro ⟨⟨⟨ht, hi⟩, hne⟩, heq⟩
      obtain ⟨rfl, rfl⟩ := Prod.mk.inj (Option.some.inj heq)
      exact ⟨rfl, ht, hne, hi⟩
    · rintro ⟨heq, ht, hne, hi⟩
      obtain ⟨rfl, rfl⟩ := Prod.mk.inj (Option.some.inj heq)
      exact ⟨⟨⟨ht, hi⟩, hne⟩, rfl⟩

/-! ### The references that the comment promises -/

/-- A resource pattern: a type, a colon, then characters of the id charset and at most one star,
with something after the colon. -/
def IsPatternText (cs : List Char) : Prop :=
  ∃ t i star, cs = t ++ ':' :: (i ++ star) ∧ isTypeName t = true ∧ (∀ c ∈ i, isIdChar c = true) ∧
    (star = [] ∨ star = ['*']) ∧ i ++ star ≠ []

/-- A reference to a `t`: that type, a colon, and one or more characters of the id charset. -/
def IsRefText (t cs : List Char) : Prop :=
  ∃ i, cs = t ++ ':' :: i ∧ i ≠ [] ∧ ∀ c ∈ i, isIdChar c = true

/-- The characters of references. -/
def isRefChar (c : Char) : Bool := isTypeChar c || c == ':' || isIdChar c || c == '*'

/-- The text with one line feed after it. -/
def ThenLineFeed (P : List Char → Prop) (cs : List Char) : Prop := ∃ w, P w ∧ cs = w ++ ['\n']

theorem IsPatternText.isRefChar {cs : List Char} (h : IsPatternText cs) {c : Char} (hc : c ∈ cs) :
    isRefChar c = true := by
  obtain ⟨t, i, star, rfl, ht, hi, hstar, -⟩ := h
  have hcases : c ∈ t ∨ c = ':' ∨ c ∈ i ∨ c ∈ star := by simpa using hc
  rcases hcases with hc | rfl | hc | hc
  · simp [HeadOfContext.isRefChar, isTypeName_mem ht hc]
  · decide
  · simp [HeadOfContext.isRefChar, hi c hc]
  · rcases hstar with rfl | rfl
    · exact absurd hc List.not_mem_nil
    · obtain rfl := List.mem_singleton.mp hc
      decide

theorem IsPatternText.getLast? {cs : List Char} (h : IsPatternText cs) : cs.getLast? ≠ some '\n' :=
  fun hlast => absurd (h.isRefChar (List.mem_of_getLast? hlast)) (by decide)

/-- A reference is a pattern. -/
theorem IsRefText.isPatternText {t cs : List Char} (ht : isTypeName t = true)
    (h : IsRefText t cs) : IsPatternText cs := by
  obtain ⟨i, rfl, hne, hi⟩ := h
  exact ⟨t, i, [], by rw [List.append_nil], ht, hi, .inl rfl, by rwa [List.append_nil]⟩

/-- **What `validate_resource_pattern` accepts.** -/
theorem isResourcePattern_iff {value : String} :
    isResourcePattern value = true ↔ IsPatternText (matchBody value.toList) := by
  constructor
  · intro h
    obtain ⟨t, i, hbody, hne, ht, hi⟩ := isResourcePattern_shape h
    obtain ⟨cs, star, rfl, hcs, hstar⟩ := stripStar_iff.mp hi
    exact ⟨t, cs, star, hbody, ht, hcs, hstar, hne⟩
  · rintro ⟨t, i, star, hbody, ht, hi, hstar, hne⟩
    have hsplit : splitColon (matchBody value.toList) = some (t, i ++ star) := by
      rw [hbody]
      exact splitColon_append (colon_notMem ht)
    have hstrip : (stripStar (i ++ star)).all isIdChar = true :=
      List.all_eq_true.mpr (stripStar_iff.mpr ⟨i, star, rfl, hi, hstar⟩)
    have hmatch : matchResource value = some (t, i ++ star) := by
      rw [matchResource, hsplit]
      exact if_pos (Bool.and_eq_true_iff.mpr ⟨ht, hstrip⟩)
    rw [isResourcePattern, hmatch]
    simpa using hne

/-- **What `validate_ref` accepts.** -/
theorem isRef_iff {value expectedType : String} : isRef value expectedType = true ↔
    isTypeName expectedType.toList = true ∧
      IsRefText expectedType.toList (matchBody value.toList) := by
  constructor
  · intro h
    obtain ⟨i, hbody, hne, ht, hi⟩ := isRef_shape h
    exact ⟨ht, i, hbody, hne, hi⟩
  · rintro ⟨ht, i, hbody, hne, hi⟩
    have hsplit : splitColon (matchBody value.toList) = some (expectedType.toList, i) := by
      rw [hbody]
      exact splitColon_append (colon_notMem ht)
    have hmatch : matchPlain value = some (expectedType.toList, i) := by
      rw [matchPlain, hsplit]
      exact if_pos (by simp [ht, hne, List.all_eq_true.mpr hi])
    rw [isRef, hmatch]
    exact beq_self_eq_true _

/-- What the expression has to match is the text itself, or the text without its line feed. -/
theorem matchBody_iff {P : List Char → Prop} (hP : ∀ cs, P cs → cs.getLast? ≠ some '\n')
    {cs : List Char} : P (matchBody cs) ↔ P cs ∨ ThenLineFeed P cs := by
  obtain ⟨rest, hrest, hcs⟩ := append_matchBody cs
  constructor
  · intro h
    rcases hrest with rfl | rfl
    · rw [List.append_nil] at hcs
      exact .inl (hcs ▸ h)
    · exact .inr ⟨_, h, hcs⟩
  · rintro (h | ⟨w, hw, rfl⟩)
    · have hbody := matchBody_append (hP cs h) (.inl rfl)
      rw [List.append_nil] at hbody
      rwa [hbody]
    · rwa [matchBody_append (hP w hw) (.inr rfl)]

theorem accepts_pattern_iff {value : String} : validateResourcePattern value = .ok value ↔
    IsPatternText value.toList ∨ ThenLineFeed IsPatternText value.toList := by
  rw [validateResourcePattern_eq_ok, isResourcePattern_iff,
    matchBody_iff fun _ => IsPatternText.getLast?]
  exact and_iff_left rfl

theorem accepts_ref_iff {value t : String} : validateRef value t = .ok value ↔
    isTypeName t.toList = true ∧
      (IsRefText t.toList value.toList ∨ ThenLineFeed (IsRefText t.toList) value.toList) := by
  rw [validateRef_eq_ok, isRef_iff]
  by_cases ht : isTypeName t.toList = true
  · rw [matchBody_iff (P := IsRefText t.toList) fun _ h => (h.isPatternText ht).getLast?]
    exact and_iff_left rfl
  · simp [ht]

/-- **References are accepted by their grammar, but for a final line feed.** Of a string and a
type, the two validations accept exactly what the comment over the expressions promises, in the
documented characters, unless the string is a pattern or reference with one line feed after it.
(A string that looks like a reference to something that is no type name is refused.) -/
theorem references_by_grammar (value t : String) :
    ((validateResourcePattern value = .ok value ↔ IsPatternText value.toList) ∧
      (validateRef value t = .ok value ↔ IsRefText t.toList value.toList) ∧
      (validateResourcePattern value = .ok value ∨ validateRef value t = .ok value →
        ∀ c ∈ value.toList, isRefChar c = true)) ↔
    ¬ ThenLineFeed IsPatternText value.toList ∧
      ¬ (isTypeName t.toList = false ∧ IsRefText t.toList value.toList) := by
  rw [accepts_pattern_iff, accepts_ref_iff]
  constructor
  · rintro ⟨hpattern, href, -⟩
    constructor
    · rintro ⟨w, hw, hvalue⟩
      -- what is accepted ends in the line feed
      refine (hpattern.mp (.inr ⟨w, hw, hvalue⟩)).getLast? ?_
      rw [hvalue, List.getLast?_concat]
    · rintro ⟨ht, hmatch⟩
      rw [(href.mpr hmatch).1] at ht
      exact absurd ht (by simp)
  · rintro ⟨hline, htype⟩
    have hpattern : IsPatternText value.toList ∨ ThenLineFeed IsPatternText value.toList ↔
        IsPatternText value.toList := or_iff_left hline
    have href : isTypeName t.toList = true ∧
        (IsRefText t.toList value.toList ∨ ThenLineFeed (IsRefText t.toList) value.toList) ↔
          IsRefText t.toList value.toList := by
      constructor
      · rintro ⟨ht, hmatch | ⟨w, hw, hvalue⟩⟩
        · exact hmatch
        · exact absurd ⟨w, hw.isPatternText ht, hvalue⟩ hline
      · intro hmatch
        have ht : isTypeName t.toList = true := by
          by_contra ht
          exact htype ⟨eq_false_of_ne_true ht, hmatch⟩
        exact ⟨ht, .inl hmatch⟩
    refine ⟨hpattern, href, ?_⟩
    rintro (haccepted | haccepted) c hc
    · exact (hpattern.mp haccepted).isRefChar hc
    · exact ((href.mp haccepted).isPatternText haccepted.1).isRefChar hc

/-- A tool and a user with a line feed after them are accepted. -/
theorem line_feed_accepted :
    validateResourcePattern "tool:mail\n" = .ok "tool:mail\n" ∧
      ¬ IsPatternText "tool:mail\n".toList ∧ validateRef "user:bob\n" "user" = .ok "user:bob\n" ∧
      ¬ IsRefText "user".toList "user:bob\n".toList := by
  refine ⟨by decide +kernel, fun h => absurd rfl h.getLast?, by decide +kernel, fun h => ?_⟩
  exact absurd rfl (h.isPatternText (by decide)).getLast?

end HeadOfContext
