import HeadOfContext.Tokens.Datalog

/-!
# Reading back a trail

`parse_trail_block` inverts `attenuation_builder` on the printed source of the block
(`parseTrailBlock_built`). References in the documented charset are printed as they are,
so every fact is one line, the regular expressions find their two groups, and the check,
whose line starts with `check if`, is skipped.
-/

namespace HeadOfContext

open Datalog Biscuit PyText Except

/-! ### Plain text -/

/-- Text that block sources print as it is. -/
def Plain (cs : List Char) : Prop := ∀ c ∈ cs, isPlainChar c = true

theorem isPlainChar_iff {c : Char} :
    isPlainChar c = true ↔ 0x20 ≤ c.toNat ∧ c.toNat ≤ 0x7e ∧ c.toNat ≠ 0x22 ∧ c.toNat ≠ 0x5c := by
  have hquote : c = '\x22' ↔ c.toNat = 0x22 := ⟨fun h => h ▸ rfl, fun h => Char.toNat_inj.mp h⟩
  have hslash : c = '\\' ↔ c.toNat = 0x5c := ⟨fun h => h ▸ rfl, fun h => Char.toNat_inj.mp h⟩
  simp [isPlainChar, hquote, hslash, and_assoc]

theorem isPlainChar_of_isTypeChar {c : Char} (h : isTypeChar c = true) : isPlainChar c = true := by
  rw [isPlainChar_iff]
  simp only [isTypeChar, isLower, Bool.or_eq_true, Bool.and_eq_true, decide_eq_true_eq,
    beq_iff_eq] at h
  rcases h with ((⟨h₁, h₂⟩ | ⟨h₁, h₂⟩) | rfl) | rfl
  · have h₁ : 97 ≤ c.toNat := h₁
    have h₂ : c.toNat ≤ 122 := h₂
    omega
  · have h₁ : 48 ≤ c.toNat := h₁
    have h₂ : c.toNat ≤ 57 := h₂
    omega
  · decide
  · decide

theorem isPlainChar_of_isIdChar {c : Char} (h : isIdChar c = true) : isPlainChar c = true := by
  simp only [isIdChar, isLower, Bool.or_eq_true, Bool.and_eq_true, decide_eq_true_eq,
    beq_iff_eq] at h
  by_cases hsym : c ∈ ['.', '_', '~', '/', '@', '+', '=', '-']
  · have hall : ∀ d ∈ ['.', '_', '~', '/', '@', '+', '=', '-'], isPlainChar d = true := by decide
    exact hall c hsym
  · -- what remains are the letters and the digits
    have hrange : ('a' ≤ c ∧ c ≤ 'z') ∨ ('A' ≤ c ∧ c ≤ 'Z') ∨ ('0' ≤ c ∧ c ≤ '9') := by
      simp only [List.mem_cons, List.not_mem_nil, or_false, not_or] at hsym
      tauto
    rw [isPlainChar_iff]
    rcases hrange with ⟨h₁, h₂⟩ | ⟨h₁, h₂⟩ | ⟨h₁, h₂⟩
    · have h₁ : 97 ≤ c.toNat := h₁
      have h₂ : c.toNat ≤ 122 := h₂
      omega
    · have h₁ : 65 ≤ c.toNat := h₁
      have h₂ : c.toNat ≤ 90 := h₂
      omega
    · have h₁ : 48 ≤ c.toNat := h₁
      have h₂ : c.toNat ≤ 57 := h₂
      omega

theorem plain_typeName {t : List Char} (h : isTypeName t = true) : Plain t := fun _ hc =>
  isPlainChar_of_isTypeChar (isTypeName_mem h hc)

/-- What the regular expressions match up to the final line feed is all of a documented
reference. -/
theorem matchBody_of_documented {value : String} (h : Documented value) :
    matchBody value.toList = value.toList := if_neg h

theorem plain_ref {value expectedType : String} (h : isRef value expectedType = true)
    (hd : Documented value) : Plain value.toList := by
  obtain ⟨i, hbody, -, ht, hi⟩ := isRef_shape h
  rw [matchBody_of_documented hd] at hbody
  rw [hbody]
  intro c hc
  rcases List.mem_append.mp hc with hc | hc
  · exact plain_typeName ht c hc
  · rcases List.mem_cons.mp hc with rfl | hc
    · decide
    · exact isPlainChar_of_isIdChar (hi c hc)

theorem plain_resource {value : String} (h : isResourcePattern value = true)
    (hd : Documented value) : Plain value.toList := by
  obtain ⟨t, i, hbody, -, ht, hi⟩ := isResourcePattern_shape h
  rw [matchBody_of_documented hd] at hbody
  rw [hbody]
  intro c hc
  rcases List.mem_append.mp hc with hc | hc
  · exact plain_typeName ht c hc
  · rcases List.mem_cons.mp hc with rfl | hc
    · decide
    · rw [stripStar] at hi
      split at hi
      · next hlast =>
        obtain ⟨j, rfl⟩ := List.getLast?_eq_some_iff.mp hlast
        rw [List.dropLast_concat] at hi
        rcases List.mem_append.mp hc with hc | hc
        · exact isPlainChar_of_isIdChar (hi c hc)
        · rw [List.mem_singleton.mp hc]
          decide
      · exact isPlainChar_of_isIdChar (hi c hc)

theorem plain_kind (k : Kind) : Plain k.str.toList := by
  unfold Plain
  cases k <;> decide

theorem isLineBreak_of_plain {c : Char} (h : isPlainChar c = true) : isLineBreak c = false := by
  obtain ⟨h₁, h₂, -, -⟩ := isPlainChar_iff.mp h
  rw [isLineBreak, decide_eq_false_iff_not]
  simp only [List.mem_cons, List.not_mem_nil, or_false]
  omega

theorem isGroupChar_of_plain {c : Char} (h : isPlainChar c = true) : isGroupChar c = true := by
  simp only [isPlainChar, Bool.and_eq_true] at h
  rw [isGroupChar, Bool.and_eq_true]
  exact ⟨h.1.2, h.2⟩

/-! ### Printed lines -/

/-- The text is on one line. -/
def OneLine (s : String) : Prop := ∀ c ∈ s.toList, isLineBreak c = false

theorem oneLine_append {s t : String} (hs : OneLine s) (ht : OneLine t) : OneLine (s ++ t) := by
  intro c hc
  rw [String.toList_append] at hc
  rcases List.mem_append.mp hc with hc | hc
  · exact hs c hc
  · exact ht c hc

theorem oneLine_of_plain {s : String} (h : Plain s.toList) : OneLine s := fun c hc =>
  isLineBreak_of_plain (h c hc)

theorem oneLine_intercalate {sep : String} {l : List String} (hsep : OneLine sep)
    (h : ∀ s ∈ l, OneLine s) : OneLine (sep.intercalate l) := by
  induction l with
  | nil =>
    rw [String.intercalate_nil]
    exact fun c hc => absurd hc (by simp)
  | cons s l ih =>
    obtain ⟨hs, hl⟩ := List.forall_mem_cons.mp h
    cases l with
    | nil => rwa [String.intercalate_singleton]
    | cons t l =>
      rw [String.intercalate_cons_cons]
      exact oneLine_append (oneLine_append hs hsep) (ih hl)

/-- The lines of a printed source, with their semicolons. -/
theorem splitLines_join {lines : List String} (h : ∀ l ∈ lines, OneLine l) :
    splitLines (String.join (lines.map fun l => l ++ ";\n")) =
      lines.map fun l => l.toList ++ [';'] := by
  rw [splitLines, String.toList_join]
  induction lines with
  | nil => rfl
  | cons l lines ih =>
    have hl : ∀ c ∈ l.toList ++ [';'], isLineBreak c = false := by
      intro c hc
      rcases List.mem_append.mp hc with hc | hc
      · exact h l List.mem_cons_self c hc
      · rw [List.mem_singleton.mp hc]
        decide
    rw [List.map_cons, List.flatMap_cons, String.toList_append,
      show (";\n" : String).toList = [';'] ++ ['\n'] from rfl, ← List.append_assoc,
      List.append_assoc, List.singleton_append, splitLinesFrom_line _ _ _ hl,
      ih fun l' hl' => h l' (List.mem_cons_of_mem _ hl')]
    rfl

/-- A printed line keeps its ends when it is stripped. -/
theorem strip_line {c : Char} {cs : List Char} (hc : isSpace c = false) :
    strip (c :: cs ++ [';']) = c :: cs ++ [';'] :=
  strip_eq_self hc (by decide)

/-! ### The regular expressions on printed facts -/

theorem afterLiteral_append (literal rest : List Char) :
    afterLiteral literal (literal ++ rest) = some rest := by
  rw [afterLiteral, if_pos (List.isPrefixOf_iff_prefix.mpr (List.prefix_append _ _)),
    List.drop_left]

theorem matchGroup_append {g rest : List Char} (hg : Plain g) (hne : g ≠ []) :
    matchGroup (g ++ '\x22' :: rest) = some (String.ofList g, '\x22' :: rest) := by
  have htake : (g ++ '\x22' :: rest).takeWhile isGroupChar = g := by
    rw [List.takeWhile_append_of_pos fun c hc => isGroupChar_of_plain (hg c hc)]
    exact List.append_nil _
  rw [matchGroup]
  simp only [htake, if_neg hne, List.drop_left]

/-- A printed fact with two strings, as one line. -/
def factLine (name : String) (a b : List Char) : List Char :=
  name.toList ++ ['(', '\x22'] ++ (a ++ '\x22' :: ([',', ' ', '\x22'] ++
    (b ++ '\x22' :: [')', ';'])))

/-- The regular expression of a fact finds its two strings. -/
theorem matchFactLine_factLine {name : String} {a b : List Char} (ha : Plain a) (hb : Plain b)
    (ha' : a ≠ []) (hb' : b ≠ []) :
    matchFactLine name (factLine name a b) = some (String.ofList a, String.ofList b) := by
  have hsep : ∀ rest : List Char, '\x22' :: ([',', ' ', '\x22'] ++ rest) =
      ['\x22', ',', ' ', '\x22'] ++ rest := fun _ => rfl
  have hend : afterLiteral ['\x22', ')', ';'] ('\x22' :: [')', ';']) = some [] :=
    afterLiteral_append ['\x22', ')', ';'] []
  rw [matchFactLine, factLine, afterLiteral_append]
  simp only [Option.bind_eq_bind, Option.bind_some, matchGroup_append ha ha']
  rw [hsep, afterLiteral_append]
  simp only [Option.bind_some, matchGroup_append hb hb']
  rw [hend]
  simp

/-- A line that starts with another character does not match. -/
theorem matchFactLine_none {name : String} {x c : Char} {xs cs : List Char}
    (hname : name.toList = x :: xs) (hne : x ≠ c) : matchFactLine name (c :: cs) = none := by
  have hlit : afterLiteral (name.toList ++ ['(', '\x22']) (c :: cs) = none := by
    refine if_neg fun hp => ?_
    obtain ⟨rest, hrest⟩ := List.isPrefixOf_iff_prefix.mp hp
    rw [hname] at hrest
    exact hne (List.cons.inj hrest).1
  rw [matchFactLine, hlit]
  rfl

variable {Text : Type} (lib : BiscuitLib Text)

/-- How a fact with two plain strings is printed. -/
theorem printFact_two {name a b : String} (ha : Plain a.toList) (hb : Plain b.toList) :
    (lib.printFact ⟨name, [.str a, .str b]⟩ ++ ";").toList = factLine name a.toList b.toList := by
  rw [BiscuitLib.printFact, List.map_cons, List.map_cons, List.map_nil, lib.printValue_str a ha,
    lib.printValue_str b hb, String.intercalate_cons_cons, String.intercalate_singleton]
  simp [factLine]

theorem strip_factLine {name : String} {a b cs : List Char} {c : Char}
    (hname : name.toList = c :: cs) (hc : isSpace c = false) :
    strip (factLine name a b) = factLine name a b := by
  have hends : factLine name a b =
      c :: (cs ++ ['(', '\x22'] ++ (a ++ '\x22' :: ([',', ' ', '\x22'] ++
        (b ++ ['\x22', ')'])))) ++ [';'] := by
    simp [factLine, hname]
  rw [hends, strip_line hc]

/-! ### Reading the block -/

/-- The line of the hop. -/
theorem readTrailLine_delegation {a b : String} (ha : Plain a.toList) (hb : Plain b.toList)
    (ha' : a.toList ≠ []) (hb' : b.toList ≠ []) :
    readTrailLine ⟨none, []⟩ (strip (factLine "delegation" a.toList b.toList)) =
      .ok ⟨some (a, b), []⟩ := by
  have hstrip : strip (factLine "delegation" a.toList b.toList) =
      factLine "delegation" a.toList b.toList :=
    strip_factLine rfl (by decide)
  rw [hstrip, readTrailLine, matchFactLine_factLine ha hb ha' hb', String.ofList_toList,
    String.ofList_toList]
  rfl

/-- The line of a capability. -/
theorem readTrailLine_scopeCap {trail : Trail} {cap : Capability} (hd : Documented cap.resource) :
    readTrailLine trail (strip (factLine "scope_cap" cap.kind.str.toList cap.resource.toList)) =
      .ok { trail with caps := trail.caps ++ [cap] } := by
  have hres : cap.resource.toList ≠ [] := by
    intro h
    obtain ⟨t, i, hbody, -⟩ := isResourcePattern_shape cap.valid
    rw [matchBody_of_documented hd, h] at hbody
    exact absurd hbody (by simp)
  have hkind : cap.kind.str.toList ≠ [] := by
    cases cap.kind <;> decide
  have hother : matchFactLine "delegation"
      (factLine "scope_cap" cap.kind.str.toList cap.resource.toList) = none :=
    matchFactLine_none (x := 'd') rfl (by decide)
  have hstrip : strip (factLine "scope_cap" cap.kind.str.toList cap.resource.toList) =
      factLine "scope_cap" cap.kind.str.toList cap.resource.toList :=
    strip_factLine rfl (by decide)
  rw [hstrip, readTrailLine, hother,
    matchFactLine_factLine (plain_kind _) (plain_resource cap.valid hd) hkind hres,
    String.ofList_toList, String.ofList_toList]
  simp only [capability, Kind.ofStr_str, cap.make_self, ok_bind]
  rfl

/-- The line of a check. -/
theorem readTrailLine_check {trail : Trail} {cs : List Char} :
    readTrailLine trail (strip ("check if ".toList ++ cs ++ [';'])) = .ok trail := by
  have hstrip : strip ("check if ".toList ++ cs ++ [';']) = "check if ".toList ++ cs ++ [';'] :=
    @strip_line 'c' ("heck if ".toList ++ cs) (by decide)
  have hdelegation : matchFactLine "delegation" ("check if ".toList ++ cs ++ [';']) = none :=
    matchFactLine_none (x := 'd') rfl (by decide)
  have hscope : matchFactLine "scope_cap" ("check if ".toList ++ cs ++ [';']) = none :=
    matchFactLine_none (x := 's') rfl (by decide)
  rw [hstrip, readTrailLine, hdelegation]
  simp only [hscope]
  rfl

theorem readTrailLines_scopeCaps {caps : List Capability}
    (hd : ∀ cap ∈ caps, Documented cap.resource)
    {trail : Trail} {rest : List (List Char)} :
    readTrailLines trail
        ((caps.map fun cap =>
          factLine "scope_cap" cap.kind.str.toList cap.resource.toList) ++ rest) =
      readTrailLines { trail with caps := trail.caps ++ caps } rest := by
  induction caps generalizing trail with
  | nil => rw [List.map_nil, List.nil_append, List.append_nil]
  | cons cap caps ih =>
    obtain ⟨hcap, hcaps⟩ := List.forall_mem_cons.mp hd
    rw [List.map_cons, List.cons_append, readTrailLines, readTrailLine_scopeCap hcap, ok_bind,
      ih hcaps, List.append_assoc, List.singleton_append]

/-! ### The printed check is one line -/

theorem oneLine_literal {s : String} (h : s.toList.all (fun c => !isLineBreak c) = true) :
    OneLine s := by
  intro c hc
  simpa using List.all_eq_true.mp h c hc

theorem oneLine_var {x : String} (hx : OneLine x) : OneLine (lib.printTerm (.var x)) :=
  oneLine_append (oneLine_literal (by decide)) hx

theorem oneLine_str {s : String} (hs : Plain s.toList) :
    OneLine (lib.printTerm (.val (.str s))) := by
  have hquote : OneLine "\"" := oneLine_literal (by decide)
  change OneLine (lib.printValue (.str s))
  rw [lib.printValue_str s hs]
  exact oneLine_append (oneLine_append hquote (oneLine_of_plain hs)) hquote

theorem oneLine_printAtom {a : Atom Value} (hname : OneLine a.name)
    (hterms : ∀ t ∈ a.terms, OneLine (lib.printTerm t)) : OneLine (lib.printAtom a) := by
  refine oneLine_append (oneLine_append (oneLine_append hname (oneLine_literal (by decide)))
    (oneLine_intercalate (oneLine_literal (by decide)) ?_)) (oneLine_literal (by decide))
  intro s hs
  obtain ⟨t, ht, rfl⟩ := List.mem_map.mp hs
  exact hterms t ht

theorem oneLine_eq {a b : Term Value} (ha : OneLine (lib.printTerm a))
    (hb : OneLine (lib.printTerm b)) : OneLine (lib.printExpr (.eq a b)) :=
  oneLine_append (oneLine_append ha (oneLine_literal (by decide))) hb

theorem oneLine_startsWith {a b : Term Value} (ha : OneLine (lib.printTerm a))
    (hb : OneLine (lib.printTerm b)) : OneLine (lib.printExpr (.startsWith a b)) :=
  oneLine_append (oneLine_append (oneLine_append ha (oneLine_literal (by decide))) hb)
    (oneLine_literal (by decide))

theorem plain_dropLast {s : String} (hs : Plain s.toList) : Plain (dropLast s).toList := by
  rw [toList_dropLast]
  exact fun c hc => hs c (List.mem_of_mem_dropLast hc)

theorem oneLine_scopeClause {cap : Capability} (hd : Documented cap.resource) :
    OneLine (lib.printClause (scopeClause cap)) := by
  have hop : OneLine (lib.printTerm (.var "op")) := oneLine_var lib (oneLine_literal (by decide))
  have hr : OneLine (lib.printTerm (.var "r")) := oneLine_var lib (oneLine_literal (by decide))
  have hres : Plain cap.resource.toList := plain_resource cap.valid hd
  have hlast : OneLine (lib.printExpr
      (if cap.isPattern then .startsWith (.var "r") (.val (.str (dropLast cap.resource)))
        else .eq (.var "r") (.val (.str cap.resource)))) := by
    split
    · exact oneLine_startsWith lib hr (oneLine_str lib (plain_dropLast hres))
    · exact oneLine_eq lib hr (oneLine_str lib hres)
  refine oneLine_intercalate (oneLine_literal (by decide)) fun s hs => ?_
  simp only [scopeClause, List.map_cons, List.map_nil, List.cons_append, List.nil_append,
    List.mem_cons, List.not_mem_nil, or_false] at hs
  rcases hs with rfl | rfl | rfl | rfl
  · exact oneLine_printAtom lib (oneLine_literal (by decide)) (by simpa using hop)
  · exact oneLine_printAtom lib (oneLine_literal (by decide)) (by simpa using hr)
  · exact oneLine_eq lib hop (oneLine_str lib (plain_kind _))
  · exact hlast

theorem oneLine_scopeCheck {scope : Scope} (hd : ∀ cap ∈ scope.sorted, Documented cap.resource) :
    OneLine (lib.printCheck (scopeCheck scope)) := by
  refine oneLine_append (oneLine_literal (by decide))
    (oneLine_intercalate (oneLine_literal (by decide)) fun s hs => ?_)
  obtain ⟨k, hk, rfl⟩ := List.mem_map.mp hs
  rw [scopeCheck] at hk
  split at hk
  · have hfalse : lib.printClause ⟨[], [.const false]⟩ = "false" := String.intercalate_singleton
    rw [List.mem_singleton.mp hk, hfalse]
    exact oneLine_literal (by decide)
  · obtain ⟨cap, hcap, rfl⟩ := List.mem_map.mp hk
    exact oneLine_scopeClause lib (hd cap hcap)

theorem oneLine_printFact {name a b : String} (hname : OneLine name) (ha : Plain a.toList)
    (hb : Plain b.toList) : OneLine (lib.printFact ⟨name, [.str a, .str b]⟩) := by
  refine oneLine_append (oneLine_append (oneLine_append hname (oneLine_literal (by decide)))
    (oneLine_intercalate (oneLine_literal (by decide)) ?_)) (oneLine_literal (by decide))
  intro s hs
  simp only [List.map_cons, List.map_nil, List.mem_cons, List.not_mem_nil, or_false] at hs
  rcases hs with rfl | rfl
  · exact oneLine_str lib ha
  · exact oneLine_str lib hb

/-! ### The round trip -/

theorem ref_ne_nil {value expectedType : String} (h : isRef value expectedType = true)
    (hd : Documented value) : value.toList ≠ [] := by
  obtain ⟨i, hbody, -⟩ := isRef_shape h
  rw [matchBody_of_documented hd] at hbody
  rw [hbody]
  simp

/-- **The trail reads back as it was written.** -/
theorem parseTrailBlock_built {fromActor toActor id : String} {scope : Scope}
    (hfrom : isRef fromActor "agent" = true) (hto : isRef toActor "agent" = true)
    (hfromDoc : Documented fromActor) (htoDoc : Documented toActor)
    (hscope : ∀ cap ∈ scope.sorted, Documented cap.resource) :
    parseTrailBlock ((attenuationBuilder fromActor toActor scope).build lib id).source =
      .ok (some ((fromActor, toActor), scope)) := by
  have hfromPlain := plain_ref hfrom hfromDoc
  have htoPlain := plain_ref hto htoDoc
  have hcapPlain : ∀ cap ∈ scope.sorted, Plain cap.resource.toList := fun cap hcap =>
    plain_resource cap.valid (hscope cap hcap)
  -- the printed block has one line for each fact and one for the check
  have hlines : splitLines ((attenuationBuilder fromActor toActor scope).build lib id).source =
      factLine "delegation" fromActor.toList toActor.toList ::
        ((scope.sorted.map fun cap =>
          factLine "scope_cap" cap.kind.str.toList cap.resource.toList) ++
          [(lib.printCheck (scopeCheck scope)).toList ++ [';']]) := by
    -- no printed line holds a line break, since every text in it is documented
    have hone : ∀ l ∈ (attenuationBuilder fromActor toActor scope).facts.map lib.printFact ++
        (attenuationBuilder fromActor toActor scope).checks.map lib.printCheck, OneLine l := by
      intro l hl
      simp only [attenuationBuilder, List.map_cons, List.map_map, List.map_nil, List.cons_append,
        List.mem_cons, List.mem_append, List.mem_map, Function.comp_apply, List.not_mem_nil,
        or_false] at hl
      rcases hl with rfl | ⟨cap, hcap, rfl⟩ | rfl
      · exact oneLine_printFact lib (oneLine_literal (by decide)) hfromPlain htoPlain
      · exact oneLine_printFact lib (oneLine_literal (by decide)) (plain_kind _)
          (hcapPlain cap hcap)
      · exact oneLine_scopeCheck lib hscope
    have hsource : ((attenuationBuilder fromActor toActor scope).build lib id).source =
        String.join (((attenuationBuilder fromActor toActor scope).facts.map lib.printFact ++
          (attenuationBuilder fromActor toActor scope).checks.map lib.printCheck).map
            fun l => l ++ ";\n") := rfl
    have hline : ∀ f : Fact Value, (lib.printFact f).toList ++ [';'] =
        (lib.printFact f ++ ";").toList := fun f => by
      rw [String.toList_append]
      rfl
    have hcaps : ∀ cap ∈ scope.sorted,
        (lib.printFact ⟨"scope_cap", [.str cap.kind.str, .str cap.resource]⟩ ++ ";").toList =
          factLine "scope_cap" cap.kind.str.toList cap.resource.toList := fun cap hcap =>
      printFact_two lib (plain_kind _) (hcapPlain cap hcap)
    rw [hsource, splitLines_join hone]
    simp only [attenuationBuilder, List.map_cons, List.map_map, List.map_nil, List.map_append,
      List.cons_append, hline, printFact_two lib hfromPlain htoPlain]
    refine congrArg (_ :: ·) (congrArg (· ++ _) (List.map_congr_left fun cap hcap => ?_))
    rw [Function.comp_apply, Function.comp_apply, hline]
    exact hcaps cap hcap
  -- the hop and the capabilities are read off their lines; the line of the check is no fact
  rw [parseTrailBlock, hlines, readTrailLines, readTrailLine_delegation hfromPlain htoPlain
    (ref_ne_nil hfrom hfromDoc) (ref_ne_nil hto htoDoc), ok_bind, readTrailLines_scopeCaps hscope]
  have hcheck : (lib.printCheck (scopeCheck scope)).toList ++ [';'] =
      "check if ".toList ++
        (" or ".intercalate ((scopeCheck scope).clauses.map lib.printClause)).toList ++ [';'] := by
    rw [BiscuitLib.printCheck, String.toList_append]
  rw [hcheck, readTrailLines, readTrailLine_check, ok_bind, readTrailLines, ok_bind]
  simp

end HeadOfContext
