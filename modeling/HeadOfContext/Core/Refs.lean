import HeadOfContext.Core.Errors
import HeadOfContext.Framework.PyText

/-!
# Object references

References are `type:id` strings; a trailing `*` in a resource pattern turns the id
into a prefix. The two regular expressions of `core/refs.py` are anchored with `^`
and `$`, and `$` also matches before a final line feed: `matchBody` drops that line
feed before the rest is matched. A reference without it is `Documented`: it is what
the comment over the expressions promises (no quotes, spaces, backslashes, line
breaks).
-/

namespace HeadOfContext

open PyText

/-- `[a-z]`. -/
def isLower (c : Char) : Bool := 'a' ≤ c && c ≤ 'z'

/-- `[a-z0-9_-]`. -/
def isTypeChar (c : Char) : Bool := isLower c || ('0' ≤ c && c ≤ '9') || c == '_' || c == '-'

/-- `_ID_CHARS`: `[A-Za-z0-9._~/@+=-]`. -/
def isIdChar (c : Char) : Bool :=
  isLower c || ('A' ≤ c && c ≤ 'Z') || ('0' ≤ c && c ≤ '9') ||
    c == '.' || c == '_' || c == '~' || c == '/' || c == '@' || c == '+' || c == '=' || c == '-'

/-- `[a-z][a-z0-9_-]*`. -/
def isTypeName : List Char → Bool
  | [] => false
  | c :: cs => isLower c && cs.all isTypeChar

/-- Split at the first colon. -/
def splitColon : List Char → Option (List Char × List Char)
  | [] => none
  | c :: cs => if c = ':' then some ([], cs) else (splitColon cs).map fun (t, i) => (c :: t, i)

/-- The part of the text that `^…$` has to match: `$` also matches before a final
line feed. -/
def matchBody (cs : List Char) : List Char :=
  if cs.getLast? = some '\n' then cs.dropLast else cs

/-- The id with at most one trailing star removed: `_ID_CHARS*\*?`. -/
def stripStar (cs : List Char) : List Char :=
  if cs.getLast? = some '*' then cs.dropLast else cs

/-- `_RESOURCE_RE.match`: the groups `type` and `id`. -/
def matchResource (value : String) : Option (List Char × List Char) :=
  match splitColon (matchBody value.toList) with
  | none => none
  | some (t, i) => if isTypeName t && (stripStar i).all isIdChar then some (t, i) else none

/-- `_PLAIN_RE.match`: the groups `type` and `id`. -/
def matchPlain (value : String) : Option (List Char × List Char) :=
  match splitColon (matchBody value.toList) with
  | none => none
  | some (t, i) => if isTypeName t && i.all isIdChar && !i.isEmpty then some (t, i) else none

/-- The strings `validate_resource_pattern` accepts. -/
def isResourcePattern (value : String) : Bool :=
  match matchResource value with
  | none => false
  | some (_, i) => !i.isEmpty

/-- The strings `validate_ref` accepts for a type. -/
def isRef (value expectedType : String) : Bool :=
  match matchPlain value with
  | none => false
  | some (t, _) => t == expectedType.toList

/-- `validate_resource_pattern`. -/
def validateResourcePattern (value : String) : Except HocError String :=
  if isResourcePattern value then .ok value
  else .error (HocClass.invalidResource.error ("invalid resource pattern " ++ quoted value))

/-- `validate_ref`. -/
def validateRef (value expectedType : String) : Except HocError String :=
  if isRef value expectedType then .ok value
  else .error (HocClass.invariantViolation.error
    ("expected a " ++ quoted expectedType ++ " reference, got " ++ quoted value))

/-- A reference in the charset that `refs.py` documents: it does not end in the line
feed that `$` lets through. -/
def Documented (value : String) : Prop := value.toList.getLast? ≠ some '\n'

instance (value : String) : Decidable (Documented value) :=
  inferInstanceAs (Decidable (_ ≠ _))

example : isRef "user:alice" "user" = true := by decide
example : isResourcePattern "tool:mail.*" = true := by decide
example : isResourcePattern "tool:" = false := by decide

theorem validateRef_eq_ok {value expectedType v : String} :
    validateRef value expectedType = .ok v ↔ isRef value expectedType = true ∧ v = value := by
  unfold validateRef
  split <;> simp [*, eq_comm]

theorem validateResourcePattern_eq_ok {value v : String} :
    validateResourcePattern value = .ok v ↔ isResourcePattern value = true ∧ v = value := by
  unfold validateResourcePattern
  split <;> simp [*, eq_comm]

/-- A reference is a pattern without a star. -/
theorem isResourcePattern_of_isRef {value expectedType : String}
    (h : isRef value expectedType = true) : isResourcePattern value = true := by
  rw [isRef, matchPlain] at h
  rw [isResourcePattern, matchResource]
  cases hs : splitColon (matchBody value.toList) with
  | none => simp [hs] at h
  | some p =>
    obtain ⟨t, i⟩ := p
    by_cases hti : (isTypeName t && i.all isIdChar && !i.isEmpty) = true
    · obtain ⟨⟨ht, hi⟩, hne⟩ : (isTypeName t = true ∧ ∀ c ∈ i, isIdChar c = true) ∧ i ≠ [] := by
        simpa [List.isEmpty_iff] using hti
      have hstrip : (isTypeName t && (stripStar i).all isIdChar) = true := by
        rw [ht, Bool.true_and, List.all_eq_true]
        intro c hc
        unfold stripStar at hc
        split_ifs at hc with hstar
        · exact hi c (List.mem_of_mem_dropLast hc)
        · exact hi c hc
      simpa [hstrip, List.isEmpty_iff] using hne
    · rw [hs] at h
      simp only [hti] at h
      exact absurd h (by simp)

/-! ### Splitting at the colon -/

theorem splitColon_some {cs t i : List Char} (h : splitColon cs = some (t, i)) :
    cs = t ++ ':' :: i := by
  induction cs generalizing t with
  | nil => exact absurd h (by simp [splitColon])
  | cons c cs ih =>
    rw [splitColon] at h
    split at h
    · next hc =>
      obtain ⟨rfl, rfl⟩ : t = [] ∧ i = cs := by simpa [eq_comm] using h
      rw [hc, List.nil_append]
    · obtain ⟨⟨t', i'⟩, hs, heq⟩ := Option.map_eq_some_iff.mp h
      obtain ⟨rfl, rfl⟩ : c :: t' = t ∧ i' = i := by simpa using heq
      rw [ih hs, List.cons_append]

theorem splitColon_append {t i : List Char} (ht : ':' ∉ t) :
    splitColon (t ++ ':' :: i) = some (t, i) := by
  induction t with
  | nil => rfl
  | cons c t ih =>
    have hc : ¬ c = ':' := fun heq => ht (heq ▸ List.mem_cons_self)
    have hrest : ':' ∉ t := fun hmem => ht (List.mem_cons_of_mem c hmem)
    rw [List.cons_append, splitColon, if_neg hc, ih hrest]
    rfl

/-- No character of a reference but the last one is outside the charset. -/
theorem isTypeName_mem {t : List Char} {c : Char} (h : isTypeName t = true) (hc : c ∈ t) :
    isTypeChar c = true := by
  cases t with
  | nil => exact absurd hc List.not_mem_nil
  | cons d t =>
    obtain ⟨hd, ht⟩ : isLower d = true ∧ ∀ x ∈ t, isTypeChar x = true := by
      simpa [isTypeName] using h
    rcases List.mem_cons.mp hc with rfl | hc
    · simp [isTypeChar, hd]
    · exact ht c hc

/-- The expression sees every character but a final line feed. -/
theorem mem_matchBody {cs : List Char} {c : Char} (hc : c ∈ cs) : c ∈ matchBody cs ∨ c = '\n' := by
  rw [matchBody]
  by_cases hlast : cs.getLast? = some '\n'
  · rw [if_pos hlast]
    have hcs : cs.dropLast ++ ['\n'] = cs := List.dropLast_append_getLast? _ hlast
    rw [← hcs] at hc
    exact (List.mem_append.mp hc).imp_right List.mem_singleton.mp
  · rw [if_neg hlast]
    exact .inl hc

/-- What an accepted pattern looks like: a type, a colon, an id, and the final line
feed if there is one. -/
theorem isResourcePattern_shape {value : String} (h : isResourcePattern value = true) :
    ∃ t i, matchBody value.toList = t ++ ':' :: i ∧ i ≠ [] ∧ isTypeName t = true ∧
      ∀ c ∈ stripStar i, isIdChar c = true := by
  rw [isResourcePattern, matchResource] at h
  cases hs : splitColon (matchBody value.toList) with
  | none => simp [hs] at h
  | some p =>
    obtain ⟨t, i⟩ := p
    by_cases hti : (isTypeName t && (stripStar i).all isIdChar) = true
    · rw [hs] at h
      simp only [hti, if_true] at h
      obtain ⟨ht, hi⟩ : isTypeName t = true ∧ ∀ c ∈ stripStar i, isIdChar c = true := by
        simpa using hti
      refine ⟨t, i, splitColon_some hs, ?_, ht, hi⟩
      rintro rfl
      simp at h
    · rw [hs] at h
      simp [hti] at h

/-- What an accepted reference looks like. -/
theorem isRef_shape {value expectedType : String} (h : isRef value expectedType = true) :
    ∃ i, matchBody value.toList = expectedType.toList ++ ':' :: i ∧ i ≠ [] ∧
      isTypeName expectedType.toList = true ∧ ∀ c ∈ i, isIdChar c = true := by
  rw [isRef, matchPlain] at h
  cases hs : splitColon (matchBody value.toList) with
  | none => simp [hs] at h
  | some p =>
    obtain ⟨t, i⟩ := p
    by_cases hti : (isTypeName t && i.all isIdChar && !i.isEmpty) = true
    · rw [hs] at h
      simp only [hti, if_true] at h
      obtain ⟨⟨ht, hi⟩, hne⟩ : (isTypeName t = true ∧ ∀ c ∈ i, isIdChar c = true) ∧ i ≠ [] := by
        simpa [List.isEmpty_iff] using hti
      obtain rfl : t = expectedType.toList := by simpa using h
      exact ⟨i, splitColon_some hs, hne, ht, hi⟩
    · rw [hs] at h
      simp [hti] at h

end HeadOfContext
