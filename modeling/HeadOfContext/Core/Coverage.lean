import HeadOfContext.Core.Grammar
import HeadOfContext.Core.Scope

/-!
# Coverage is inclusion

A capability matches its resource, or, as a pattern, every concrete reference that extends its
prefix (`Matches`). `covers` compares two strings; `inclusion_iff` says what inclusion of the
matched references comes to in each of the four combinations, and `coverage_is_inclusion` that
the two agree but for a resource that ends in a star and a line feed. Such a resource is valid,
is no pattern, and is no concrete reference, and yet every pattern covers it whose prefix it
extends.
-/

namespace HeadOfContext

/-- A concrete reference: what `validate_ref` accepts, for some type. -/
def IsConcrete (value : String) : Prop := ∃ t, isRef value t = true

/-- The two characters that make a resource neither a pattern nor a concrete reference. -/
def StarThenLineFeed (value : String) : Prop := ∃ p, value.toList = p ++ ['*', '\n']

theorem star_notMem_ref {t cs : List Char} (ht : isTypeName t = true) (h : IsRefText t cs) :
    '*' ∉ cs := by
  obtain ⟨i, rfl, -, hi⟩ := h
  intro hmem
  have hcases : '*' ∈ t ∨ '*' ∈ i := by simpa using hmem
  rcases hcases with hmem | hmem
  · exact absurd (isTypeName_mem ht hmem) (by decide)
  · exact absurd (hi '*' hmem) (by decide)

/-- A concrete reference has no star. -/
theorem IsConcrete.star_notMem {value : String} (h : IsConcrete value) : '*' ∉ value.toList := by
  obtain ⟨t, ht⟩ := h
  obtain ⟨htype, href⟩ := isRef_iff.mp ht
  intro hmem
  rcases mem_matchBody hmem with hmem | heq
  · exact star_notMem_ref htype href hmem
  · exact absurd heq (by decide)

namespace Capability

/-- The capability matches the reference: it is the resource, or extends the pattern's prefix. -/
def Matches (c : Capability) (value : String) : Prop :=
  if c.isPattern then IsConcrete value ∧ c.resource.toList.dropLast <+: value.toList
  else value = c.resource

/-- What a pattern looks like. -/
theorem pattern_shape {c : Capability} (h : c.isPattern = true) :
    ∃ t i, c.resource.toList = t ++ ':' :: i ++ ['*'] ∧ isTypeName t = true ∧
      ∀ d ∈ i, isIdChar d = true := by
  obtain ⟨p, hp⟩ := isPattern_iff.mp h
  obtain ⟨t, i, star, hbody, ht, hi, hstar, -⟩ := isResourcePattern_iff.mp c.valid
  have hlast : c.resource.toList.getLast? ≠ some '\n' := by
    rw [hp, List.getLast?_concat]
    decide
  rw [matchBody, if_neg hlast] at hbody
  rcases hstar with rfl | rfl
  · -- without the star, the last character is one of the id or the colon
    have hmem : '*' ∈ t ++ ':' :: (i ++ []) := by
      rw [← hbody, hp]
      exact List.mem_append_right _ (List.mem_singleton_self _)
    have hcases : '*' ∈ t ∨ '*' ∈ i := by simpa using hmem
    rcases hcases with hmem | hmem
    · exact absurd (isTypeName_mem ht hmem) (by decide)
    · exact absurd (hi '*' hmem) (by decide)
  · exact ⟨t, i, by rw [hbody]; simp, ht, hi⟩

/-- One more character of the charset makes a concrete reference of a prefix. -/
theorem matches_extension {c : Capability} (h : c.isPattern = true) {d : Char}
    (hd : isIdChar d = true) :
    c.Matches (String.ofList (c.resource.toList.dropLast ++ [d])) := by
  obtain ⟨t, i, hresource, ht, hi⟩ := pattern_shape h
  rw [Matches, if_pos h, String.toList_ofList]
  refine ⟨⟨String.ofList t, isRef_iff.mpr ?_⟩, List.prefix_append _ _⟩
  rw [String.toList_ofList, String.toList_ofList, hresource, List.dropLast_concat]
  have href : IsRefText t (t ++ ':' :: i ++ [d]) := by
    refine ⟨i ++ [d], by simp, by simp, ?_⟩
    intro c hc
    rcases List.mem_append.mp hc with hc | hc
    · exact hi c hc
    · rwa [List.mem_singleton.mp hc]
  exact ⟨ht, (matchBody_iff fun _ h => (h.isPatternText ht).getLast?).mpr (.inl href)⟩

/-- **A resource that is no pattern is concrete**, unless a line feed hides its star. -/
theorem isConcrete_iff {c : Capability} (h : c.isPattern = false) :
    IsConcrete c.resource ↔ ¬ StarThenLineFeed c.resource := by
  constructor
  · rintro hconcrete ⟨p, hp⟩
    refine hconcrete.star_notMem ?_
    rw [hp]
    simp
  · intro hline
    obtain ⟨t, i, star, hbody, ht, hi, hstar, hne⟩ := isResourcePattern_iff.mp c.valid
    rcases hstar with rfl | rfl
    · refine ⟨String.ofList t, isRef_iff.mpr ?_⟩
      rw [String.toList_ofList]
      rw [List.append_nil] at hbody hne
      exact ⟨ht, i, hbody, hne, hi⟩
    · -- the star is the last character, or the one before the line feed
      exfalso
      obtain ⟨rest, hrest, hcs⟩ := append_matchBody c.resource.toList
      rw [hbody] at hcs
      rcases hrest with rfl | rfl
      · have hpattern : c.isPattern = true := isPattern_iff.mpr ⟨t ++ ':' :: i, by rw [hcs]; simp⟩
        rw [h] at hpattern
        exact absurd hpattern (by decide)
      · exact hline ⟨t ++ ':' :: i, by rw [hcs]; simp⟩

/-- **Inclusion, in the four combinations.** An exact capability is included in what matches it;
a pattern is included in the patterns whose prefix its own prefix extends. -/
theorem inclusion_iff {a b : Capability} : (∀ value, b.Matches value → a.Matches value) ↔
    (b.isPattern = false ∧ a.Matches b.resource) ∨
      (b.isPattern = true ∧ a.isPattern = true ∧
        a.resource.toList.dropLast <+: b.resource.toList.dropLast) := by
  cases hb : b.isPattern with
  | false =>
    have hmatches : ∀ value, b.Matches value ↔ value = b.resource := by
      intro value
      rw [Matches, hb]
      exact Iff.rfl
    constructor
    · intro h
      exact .inl ⟨rfl, h _ ((hmatches _).mpr rfl)⟩
    · rintro (⟨-, h⟩ | ⟨h, -⟩)
      · intro value hvalue
        rwa [(hmatches value).mp hvalue]
      · exact absurd h (by decide)
  | true =>
    have hx := matches_extension hb (d := 'x') (by decide)
    have hy := matches_extension hb (d := 'y') (by decide)
    constructor
    · intro h
      have hx' := h _ hx
      have hy' := h _ hy
      cases ha : a.isPattern with
      | false =>
        -- two references extend the prefix, and an exact capability matches one
        rw [Matches, ha] at hx' hy'
        have heq := congrArg String.toList (hx'.trans hy'.symm)
        rw [String.toList_ofList, String.toList_ofList] at heq
        exact absurd (List.append_cancel_left heq) (by decide)
      | true =>
        rw [Matches, if_pos ha, String.toList_ofList] at hx' hy'
        refine .inr ⟨rfl, rfl, ?_⟩
        rcases List.prefix_concat_iff.mp hx'.2 with heq | hpre
        · rcases List.prefix_concat_iff.mp hy'.2 with heq' | hpre
          · exact absurd (List.append_cancel_left (heq.symm.trans heq')) (by decide)
          · exact hpre
        · exact hpre
    · rintro (⟨h, -⟩ | ⟨-, ha, hpre⟩)
      · exact absurd h (by decide)
      · intro value hvalue
        rw [Matches, if_pos hb] at hvalue
        rw [Matches, if_pos ha]
        exact ⟨hvalue.1, hpre.trans hvalue.2⟩

/-- A pattern's prefix cannot reach into the star of another. -/
theorem prefix_pattern_iff {a b : Capability} (ha : a.isPattern = true) (hb : b.isPattern = true) :
    a.resource.toList.dropLast <+: b.resource.toList ↔
      a.resource.toList.dropLast <+: b.resource.toList.dropLast := by
  constructor
  · intro h
    obtain ⟨p, hp⟩ := isPattern_iff.mp hb
    rw [hp] at h
    rw [hp, List.dropLast_concat]
    rcases List.prefix_concat_iff.mp h with heq | hpre
    · refine absurd ?_ (star_notMem_dropLast ha)
      rw [heq]
      exact List.mem_append_right _ (List.mem_singleton_self _)
    · exact hpre
  · intro h
    exact h.trans (List.dropLast_prefix _)

/-- Coverage is antisymmetric. -/
theorem covers_antisymm {a b : Capability} (hab : a.covers b = true) (hba : b.covers a = true) :
    a = b := by
  obtain ⟨hk, hab⟩ := covers_iff.mp hab
  obtain ⟨-, hba⟩ := covers_iff.mp hba
  rcases hab with ⟨-, hr⟩ | ⟨ha, hpre⟩
  · exact Capability.ext hk hr
  · rcases hba with ⟨-, hr⟩ | ⟨hb, hpre'⟩
    · exact Capability.ext hk hr.symm
    · have hle := (prefix_pattern_iff ha hb).mp hpre
      have hge := (prefix_pattern_iff hb ha).mp hpre'
      have heq := hle.eq_of_length (le_antisymm hle.length_le hge.length_le)
      obtain ⟨p, hp⟩ := isPattern_iff.mp ha
      obtain ⟨q, hq⟩ := isPattern_iff.mp hb
      rw [hp, hq, List.dropLast_concat, List.dropLast_concat] at heq
      refine Capability.ext hk (String.toList_inj.mp ?_)
      rw [hp, hq, heq]

/-- Whether `a` covers `b` by the star that a line feed hides: `b` extends the prefix of `a` and
ends in a star and a line feed. -/
def HiddenStar (a b : Capability) : Prop :=
  a.kind = b.kind ∧ a.isPattern = true ∧ a.resource.toList.dropLast <+: b.resource.toList ∧
    StarThenLineFeed b.resource

/-- A pattern ends in its star. -/
theorem not_starThenLineFeed {c : Capability} (h : c.isPattern = true) :
    ¬ StarThenLineFeed c.resource := by
  rintro ⟨p, hp⟩
  obtain ⟨q, hq⟩ := isPattern_iff.mp h
  have hlast := congrArg List.getLast? (hq.symm.trans hp)
  rw [List.getLast?_concat, List.getLast?_append_of_ne_nil _ (by simp)] at hlast
  exact absurd hlast (by decide)

/-- **Coverage is inclusion, but for a hidden star.** -/
theorem covers_iff_inclusion {a b : Capability} :
    (a.covers b = true ↔ a.kind = b.kind ∧ ∀ value, b.Matches value → a.Matches value) ↔
      ¬ HiddenStar a b := by
  rw [covers_iff, inclusion_iff]
  by_cases hk : a.kind = b.kind
  case neg => simp [hk, HiddenStar]
  cases hb : b.isPattern with
  | true =>
    -- two patterns, or an exact capability that includes no pattern
    have hhidden : ¬ HiddenStar a b := fun h => not_starThenLineFeed hb h.2.2.2
    cases ha : a.isPattern with
    | true => simp [hk, hhidden, prefix_pattern_iff ha hb]
    | false =>
      have hne : a.resource ≠ b.resource := by
        intro heq
        rw [isPattern, heq] at ha
        rw [isPattern, ha] at hb
        exact absurd hb (by decide)
      simp [hk, hhidden, hne]
  | false =>
    cases ha : a.isPattern with
    | false =>
      have hhidden : ¬ HiddenStar a b := fun h => absurd (ha.symm.trans h.2.1) (by decide)
      simp [hk, hhidden, Matches, ha, eq_comm]
    | true =>
      -- the prefix decides, and the reference is concrete unless a line feed hides its star
      have hhidden : HiddenStar a b ↔ a.resource.toList.dropLast <+: b.resource.toList ∧
          StarThenLineFeed b.resource := by simp [HiddenStar, hk, ha]
      have hmatches : a.Matches b.resource ↔ ¬ StarThenLineFeed b.resource ∧
          a.resource.toList.dropLast <+: b.resource.toList := by
        rw [Matches, if_pos ha, isConcrete_iff hb]
      rw [hhidden, hmatches]
      by_cases hpre : a.resource.toList.dropLast <+: b.resource.toList
      · simp [hk, hpre]
      · simp [hpre]

end Capability

/-- **Coverage is language inclusion, but for a hidden star.** Of two capabilities, `covers` says
that they have one kind and that what the second matches is matched by the first, unless the
second ends in a star and a line feed and extends the prefix of the first. It is a partial order
on all capabilities, `is_subset_of` is a preorder on scopes, and a wider scope covers whatever a
narrower one covers. -/
theorem coverage_is_inclusion (a b c cap : Capability) (s t u : Scope) :
    ((a.covers b = true ↔
        a.kind = b.kind ∧ ∀ value, b.Matches value → a.Matches value) ↔ ¬ a.HiddenStar b) ∧
      (a.covers a = true ∧
        (a.covers b = true → b.covers a = true → a = b) ∧
        (a.covers b = true → b.covers c = true → a.covers c = true)) ∧
      (s.isSubsetOf s = true ∧
        (s.isSubsetOf t = true → t.isSubsetOf u = true → s.isSubsetOf u = true)) ∧
      (s.isSubsetOf t = true → s.covers cap = true → t.covers cap = true) := by
  refine ⟨Capability.covers_iff_inclusion, ⟨Capability.covers_refl a, ?_, ?_⟩,
    ⟨Scope.isSubsetOf_refl s, ?_⟩, ?_⟩
  · exact fun hab hba => Capability.covers_antisymm hab hba
  · exact fun hab hbc => Capability.covers_trans hab hbc
  · exact fun hst htu => Scope.isSubsetOf_trans hst htu
  · exact fun hst hcap => Scope.covers_of_isSubsetOf hst hcap

/-- The right to the tools of the mailbox. -/
def mailTools : Capability := ⟨.act, "tool:mail.*", by decide⟩

/-- Its pattern, with a line feed after it. -/
def mailToolsLine : Capability := ⟨.act, "tool:mail.*\n", by decide⟩

/-- A pattern with a line feed after it is covered by the pattern, and matches something that the
pattern does not match. -/
theorem hidden_star_covered : mailTools.covers mailToolsLine = true ∧
    ¬ (mailTools.kind = mailToolsLine.kind ∧
      ∀ value, mailToolsLine.Matches value → mailTools.Matches value) := by
  refine ⟨by decide +kernel, fun h => ?_⟩
  have hself : mailToolsLine.Matches "tool:mail.*\n" := by
    have hpattern : mailToolsLine.isPattern = false := by decide +kernel
    rw [Capability.Matches, hpattern]
    exact rfl
  have hmatch := h.2 _ hself
  have hpattern : mailTools.isPattern = true := by decide +kernel
  rw [Capability.Matches, if_pos hpattern] at hmatch
  exact hmatch.1.star_notMem (by decide +kernel)

end HeadOfContext
