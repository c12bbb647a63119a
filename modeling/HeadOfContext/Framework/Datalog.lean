import Mathlib.Data.List.Dedup
import Mathlib.Tactic.Common

/-!
# Queries over facts

Facts over a type `V` of values, and the bodies of checks, policies and queries: atoms
with variables, to be matched against the facts, and guards over the matched values.
There are no recursive rules here; the facts of a query are given.

A body has two readings. `Body.Holds` is the logical one: some valuation of the
variables makes every atom a fact and every guard true. `Body.solutions` is the
evaluation: it matches the atoms one after the other against the facts and keeps the
assignments that pass the guards. `Body.holds_iff` and `Body.mem_select` say that they
agree on safe bodies, whose guards and outputs only use variables of the atoms.
-/

namespace Datalog

variable {V : Type}

/-- A ground fact. -/
structure Fact (V : Type) where
  name : String
  terms : List V
  deriving DecidableEq

/-- A value or a variable. -/
inductive Term (V : Type) where
  | val (v : V)
  | var (x : String)

/-- An atom to be matched against the facts. -/
structure Atom (V : Type) where
  name : String
  terms : List (Term V)

/-- A condition on the values of some terms. -/
structure Guard (V : Type) where
  args : List (Term V)
  test : List V → Bool

/-- A conjunction of atoms and guards. -/
structure Body (V : Type) where
  atoms : List (Atom V)
  guards : List (Guard V)

/-! ### The logical reading -/

/-- The value of a term. -/
def Term.eval (σ : String → V) : Term V → V
  | val v => v
  | var x => σ x

/-- The fact an atom stands for. -/
def Atom.inst (σ : String → V) (a : Atom V) : Fact V := ⟨a.name, a.terms.map (Term.eval σ)⟩

/-- The valuation makes every atom a fact and every guard true. -/
structure Body.Models (facts : List (Fact V)) (b : Body V) (σ : String → V) : Prop where
  atoms : ∀ a ∈ b.atoms, a.inst σ ∈ facts
  guards : ∀ g ∈ b.guards, g.test (g.args.map (Term.eval σ)) = true

/-- The body holds of the facts. -/
def Body.Holds (facts : List (Fact V)) (b : Body V) : Prop := ∃ σ, b.Models facts σ

/-- More facts, more models. -/
theorem Body.Models.mono {facts facts' : List (Fact V)} {b : Body V} {σ : String → V}
    (h : b.Models facts σ) (hsub : facts ⊆ facts') : b.Models facts' σ :=
  ⟨fun a ha => hsub (h.atoms a ha), h.guards⟩

/-- The variables of the terms. -/
def termVars (ts : List (Term V)) : List String :=
  ts.filterMap fun
    | .var x => some x
    | .val _ => none

/-- The variables the atoms bind. -/
def atomVars (as : List (Atom V)) : List String := as.flatMap fun a => termVars a.terms

/-- The variables of the terms are bound by the atoms. -/
def Body.Binds (b : Body V) (ts : List (Term V)) : Prop := termVars ts ⊆ atomVars b.atoms

/-- The guards only read variables of the atoms. -/
def Body.Safe (b : Body V) : Prop := ∀ g ∈ b.guards, b.Binds g.args

/-! ### Assignments -/

/-- The variables bound so far. -/
abbrev Assignment (V : Type) := List (String × V)

/-- The value of a term, if it is bound. -/
def Term.value (s : Assignment V) : Term V → Option V
  | val v => some v
  | var x => s.lookup x

/-- The guard is true; an unbound variable makes it false. -/
def Guard.passes (s : Assignment V) (g : Guard V) : Bool :=
  match g.args.mapM (Term.value s) with
  | some vs => g.test vs
  | none => false

/-- The valuation agrees with the assignment. -/
def Agrees (σ : String → V) (s : Assignment V) : Prop := ∀ x v, s.lookup x = some v → σ x = v

/-- The assignment extends the other one. -/
def Extends (s' s : Assignment V) : Prop := ∀ x v, s.lookup x = some v → s'.lookup x = some v

theorem Extends.refl (s : Assignment V) : Extends s s := fun _ _ h => h

theorem Extends.trans {s s' s'' : Assignment V} (h : Extends s'' s') (h' : Extends s' s) :
    Extends s'' s := fun x v hv => h x v (h' x v hv)

theorem Agrees.of_extends {σ : String → V} {s s' : Assignment V} (h : Agrees σ s')
    (hext : Extends s' s) : Agrees σ s := fun x v hv => h x v (hext x v hv)

theorem value_of_extends {s s' : Assignment V} {t : Term V} {v : V} (h : Extends s' s)
    (hv : t.value s = some v) : t.value s' = some v := by
  cases t with
  | val w => exact hv
  | var x => exact h x v hv

/-- Every variable of the terms is bound in the assignment. -/
def BindsAll (s : Assignment V) (xs : List String) : Prop := ∀ x ∈ xs, ∃ v, s.lookup x = some v

theorem bindsAll_termVars {s : Assignment V} {ts : List (Term V)} {vs : List V}
    (h : ts.map (Term.value s) = vs.map some) : BindsAll s (termVars ts) := by
  intro x hx
  obtain ⟨t, ht, heq⟩ := List.mem_filterMap.mp hx
  cases t with
  | val w => exact absurd heq (by simp)
  | var y =>
    obtain rfl := Option.some.inj heq
    have hmem : Term.value s (.var y) ∈ vs.map some := by
      rw [← h]
      exact List.mem_map_of_mem ht
    obtain ⟨v, -, hv⟩ := List.mem_map.mp hmem
    exact ⟨v, hv.symm⟩

theorem BindsAll.of_extends {s s' : Assignment V} {xs : List String} (h : BindsAll s xs)
    (hext : Extends s' s) : BindsAll s' xs := by
  intro x hx
  obtain ⟨v, hv⟩ := h x hx
  exact ⟨v, hext x v hv⟩

/-- A matched atom is a fact under every valuation that agrees with the match. -/
theorem eval_of_value {σ : String → V} {s : Assignment V} {t : Term V} {v : V} (hσ : Agrees σ s)
    (h : t.value s = some v) : t.eval σ = v := by
  cases t with
  | val w => exact Option.some.inj h
  | var x => exact hσ x v h

theorem map_eval_of_map_value {σ : String → V} {s : Assignment V} {ts : List (Term V)}
    {vs : List V} (hσ : Agrees σ s) (h : ts.map (Term.value s) = vs.map some) :
    ts.map (Term.eval σ) = vs := by
  induction ts generalizing vs with
  | nil =>
    cases vs with
    | nil => rfl
    | cons v vs => exact absurd h (by simp)
  | cons t ts ih =>
    cases vs with
    | nil => exact absurd h (by simp)
    | cons v vs =>
      rw [List.map_cons, List.map_cons] at h
      obtain ⟨hv, hvs⟩ := List.cons.inj h
      rw [List.map_cons, ih hvs, eval_of_value hσ hv]

/-- Bound terms have their values. -/
theorem mapM_value {σ : String → V} {s : Assignment V} {ts : List (Term V)} (hσ : Agrees σ s)
    (hb : BindsAll s (termVars ts)) :
    ts.mapM (Term.value s) = some (ts.map (Term.eval σ)) := by
  induction ts with
  | nil => rfl
  | cons t ts ih =>
    have hrest : BindsAll s (termVars ts) := by
      intro x hx
      obtain ⟨u, hu, heq⟩ := List.mem_filterMap.mp hx
      exact hb x (List.mem_filterMap.mpr ⟨u, List.mem_cons_of_mem _ hu, heq⟩)
    have hhead : t.value s = some (t.eval σ) := by
      cases t with
      | val w => rfl
      | var x =>
        obtain ⟨v, hv⟩ := hb x (List.mem_filterMap.mpr ⟨_, List.mem_cons_self, rfl⟩)
        rw [Term.value, hv, Term.eval, hσ x v hv]
    rw [List.mapM_cons, hhead, ih hrest]
    rfl

/-- The valuation of an assignment. -/
def Assignment.valuation [Inhabited V] (s : Assignment V) : String → V :=
  fun x => (s.lookup x).getD default

theorem agrees_valuation [Inhabited V] (s : Assignment V) : Agrees s.valuation s := by
  intro x v hv
  rw [Assignment.valuation, hv, Option.getD_some]

theorem passes_iff {σ : String → V} {s : Assignment V} {g : Guard V} (hσ : Agrees σ s)
    (hb : BindsAll s (termVars g.args)) :
    g.passes s = true ↔ g.test (g.args.map (Term.eval σ)) = true := by
  rw [Guard.passes, mapM_value hσ hb]

/-! ### The evaluation -/

variable [DecidableEq V]

/-- Match a term against a value. -/
def Term.matchValue (s : Assignment V) (v : V) : Term V → Option (Assignment V)
  | val w => if w = v then some s else none
  | var x =>
    match s.lookup x with
    | some w => if w = v then some s else none
    | none => some ((x, v) :: s)

/-- Match terms against values, position by position. -/
def matchTerms : Assignment V → List (Term V) → List V → Option (Assignment V)
  | s, [], [] => some s
  | s, t :: ts, v :: vs => (t.matchValue s v).bind fun s' => matchTerms s' ts vs
  | _, [], _ :: _ => none
  | _, _ :: _, [] => none

/-- Match an atom against a fact. -/
def Atom.matchFact (s : Assignment V) (a : Atom V) (f : Fact V) : Option (Assignment V) :=
  if a.name = f.name then matchTerms s a.terms f.terms else none

/-- Match the atoms against the facts, one after the other. -/
def matchAtoms (facts : List (Fact V)) : Assignment V → List (Atom V) → List (Assignment V)
  | s, [] => [s]
  | s, a :: rest => (facts.filterMap (a.matchFact s)).flatMap fun s' => matchAtoms facts s' rest

/-- The assignments that match the atoms and pass the guards. -/
def Body.solutions (facts : List (Fact V)) (b : Body V) : List (Assignment V) :=
  (matchAtoms facts [] b.atoms).filter fun s => b.guards.all (Guard.passes s)

/-- The body holds, by evaluation. -/
def Body.holds (facts : List (Fact V)) (b : Body V) : Bool := !(b.solutions facts).isEmpty

/-- The outputs of a query, without repetitions. -/
def Body.select (facts : List (Fact V)) (out : List (Term V)) (b : Body V) : List (List V) :=
  ((b.solutions facts).filterMap fun s => out.mapM (Term.value s)).dedup

/-- What a successful match of one term adds. -/
theorem matchValue_some {s s' : Assignment V} {t : Term V} {v : V}
    (h : t.matchValue s v = some s') :
    Extends s' s ∧ t.value s' = some v := by
  cases t with
  | val w =>
    rw [Term.matchValue] at h
    split at h
    · next hw =>
      obtain rfl := Option.some.inj h
      exact ⟨.refl _, congrArg some hw⟩
    · exact absurd h (by simp)
  | var x =>
    rw [Term.matchValue] at h
    cases hx : s.lookup x with
    | some w =>
      rw [hx] at h
      simp only at h
      split at h
      · next hw =>
        obtain rfl := Option.some.inj h
        exact ⟨.refl _, by rw [Term.value, hx, hw]⟩
      · exact absurd h (by simp)
    -- a free variable is bound, and nothing else is bound anew
    | none =>
      rw [hx] at h
      obtain rfl := Option.some.inj h
      refine ⟨fun y w hy => ?_, List.lookup_cons_self⟩
      have hne : y ≠ x := by
        rintro rfl
        rw [hx] at hy
        exact absurd hy (by simp)
      rw [List.lookup_cons, beq_false_of_ne hne]
      exact hy

/-- A term that has the value under the valuation matches it. -/
theorem matchValue_of_eval {σ : String → V} {s : Assignment V} {t : Term V} {v : V}
    (hσ : Agrees σ s) (h : t.eval σ = v) : ∃ s', t.matchValue s v = some s' ∧ Agrees σ s' := by
  cases t with
  | val w => exact ⟨s, if_pos h, hσ⟩
  | var x =>
    cases hx : s.lookup x with
    | some w =>
      refine ⟨s, ?_, hσ⟩
      rw [Term.matchValue, hx]
      exact if_pos ((hσ x w hx).symm.trans h)
    | none =>
      refine ⟨(x, v) :: s, by rw [Term.matchValue, hx], fun y w hy => ?_⟩
      rw [List.lookup_cons] at hy
      by_cases hyx : y = x
      · subst hyx
        rw [beq_self_eq_true] at hy
        exact h.trans (Option.some.inj hy)
      · rw [beq_false_of_ne hyx] at hy
        exact hσ y w hy

theorem matchTerms_some {s s' : Assignment V} {ts : List (Term V)} {vs : List V}
    (h : matchTerms s ts vs = some s') :
    Extends s' s ∧ ts.map (Term.value s') = vs.map some := by
  induction ts generalizing s vs with
  | nil =>
    cases vs with
    | nil =>
      obtain rfl := Option.some.inj h
      exact ⟨.refl _, rfl⟩
    | cons v vs => exact absurd h (by simp [matchTerms])
  | cons t ts ih =>
    cases vs with
    | nil => exact absurd h (by simp [matchTerms])
    | cons v vs =>
      rw [matchTerms] at h
      obtain ⟨s₁, h₁, h₂⟩ := Option.bind_eq_some_iff.mp h
      obtain ⟨hext₁, hv⟩ := matchValue_some h₁
      obtain ⟨hext₂, hvs⟩ := ih h₂
      refine ⟨hext₂.trans hext₁, ?_⟩
      rw [List.map_cons, List.map_cons, hvs, value_of_extends hext₂ hv]

theorem matchTerms_of_eval {σ : String → V} {s : Assignment V} {ts : List (Term V)} {vs : List V}
    (hσ : Agrees σ s) (h : ts.map (Term.eval σ) = vs) :
    ∃ s', matchTerms s ts vs = some s' ∧ Agrees σ s' := by
  induction ts generalizing s vs with
  | nil =>
    subst h
    exact ⟨s, rfl, hσ⟩
  | cons t ts ih =>
    subst h
    obtain ⟨s₁, h₁, hσ₁⟩ := matchValue_of_eval hσ rfl
    obtain ⟨s₂, h₂, hσ₂⟩ := ih hσ₁ rfl
    refine ⟨s₂, ?_, hσ₂⟩
    rw [List.map_cons, matchTerms, h₁]
    exact h₂

theorem mem_matchAtoms {facts : List (Fact V)} {s s' : Assignment V} {as : List (Atom V)}
    (h : s' ∈ matchAtoms facts s as) :
    Extends s' s ∧ BindsAll s' (atomVars as) ∧
      ∀ σ, Agrees σ s' → ∀ a ∈ as, a.inst σ ∈ facts := by
  -- the induction is on the atoms; a later one extends what an earlier one bound
  induction as generalizing s with
  | nil =>
    rw [List.mem_singleton.mp h]
    exact ⟨.refl _, fun _ hx => absurd hx List.not_mem_nil, fun _ _ _ ha =>
      absurd ha List.not_mem_nil⟩
  | cons a rest ih =>
    obtain ⟨s₁, h₁, h₂⟩ := List.mem_flatMap.mp h
    obtain ⟨f, hf, hmatch⟩ := List.mem_filterMap.mp h₁
    obtain ⟨hext₂, hbinds₂, hfacts₂⟩ := ih h₂
    rw [Atom.matchFact] at hmatch
    split at hmatch
    · next hname =>
      obtain ⟨hext₁, hvals⟩ := matchTerms_some hmatch
      refine ⟨hext₂.trans hext₁, fun x hx => ?_, fun σ hσ b hb => ?_⟩
      · rw [atomVars, List.flatMap_cons] at hx
        rcases List.mem_append.mp hx with hx | hx
        · exact (bindsAll_termVars hvals).of_extends hext₂ x hx
        · exact hbinds₂ x hx
      · rcases List.mem_cons.mp hb with rfl | hb
        · rw [Atom.inst, hname, map_eval_of_map_value (hσ.of_extends hext₂) hvals]
          exact hf
        · exact hfacts₂ σ hσ b hb
    · exact absurd hmatch (by simp)

theorem exists_mem_matchAtoms {facts : List (Fact V)} {σ : String → V} {s : Assignment V}
    {as : List (Atom V)} (hσ : Agrees σ s) (h : ∀ a ∈ as, a.inst σ ∈ facts) :
    ∃ s' ∈ matchAtoms facts s as, Agrees σ s' := by
  induction as generalizing s with
  | nil => exact ⟨s, List.mem_singleton.mpr rfl, hσ⟩
  | cons a rest ih =>
    obtain ⟨s₁, h₁, hσ₁⟩ := matchTerms_of_eval hσ (rfl : a.terms.map (Term.eval σ) = _)
    obtain ⟨s₂, h₂, hσ₂⟩ := ih hσ₁ fun b hb => h b (List.mem_cons_of_mem _ hb)
    refine ⟨s₂, List.mem_flatMap.mpr ⟨s₁, List.mem_filterMap.mpr ⟨a.inst σ, ?_, ?_⟩, h₂⟩, hσ₂⟩
    · exact h a List.mem_cons_self
    · exact (if_pos rfl).trans h₁

/-! ### Adequacy -/

variable {facts : List (Fact V)} {b : Body V}

/-- A model is found by the evaluation. -/
theorem Body.exists_mem_solutions (hb : b.Safe) {σ : String → V} (h : b.Models facts σ) :
    ∃ s ∈ b.solutions facts, Agrees σ s := by
  obtain ⟨s, hs, hσ⟩ := exists_mem_matchAtoms (s := []) (fun x v hv => absurd hv (by simp)) h.atoms
  obtain ⟨-, hbinds, -⟩ := mem_matchAtoms hs
  refine ⟨s, List.mem_filter.mpr ⟨hs, List.all_eq_true.mpr fun g hgm => ?_⟩, hσ⟩
  have hgb : BindsAll s (termVars g.args) := fun x hx => hbinds x (hb g hgm hx)
  exact (passes_iff hσ hgb).mpr (h.guards g hgm)

variable [Inhabited V]

/-- A solution is a model. -/
theorem Body.models_of_mem_solutions (hb : b.Safe) {s : Assignment V}
    (h : s ∈ b.solutions facts) :
    b.Models facts s.valuation ∧ BindsAll s (atomVars b.atoms) := by
  obtain ⟨hs, hg⟩ := List.mem_filter.mp h
  obtain ⟨-, hbinds, hfacts⟩ := mem_matchAtoms hs
  refine ⟨⟨hfacts _ (agrees_valuation s), fun g hgm => ?_⟩, hbinds⟩
  have hgb : BindsAll s (termVars g.args) := fun x hx => hbinds x (hb g hgm hx)
  exact (passes_iff (agrees_valuation s) hgb).mp (List.all_eq_true.mp hg g hgm)

/-- **Adequacy of the evaluation.** -/
theorem Body.holds_iff (hb : b.Safe) : b.holds facts = true ↔ b.Holds facts := by
  rw [Body.holds, Bool.not_eq_true', List.isEmpty_eq_false_iff_exists_mem]
  constructor
  · rintro ⟨s, hs⟩
    exact ⟨_, (models_of_mem_solutions hb hs).1⟩
  · rintro ⟨σ, hσ⟩
    obtain ⟨s, hs, -⟩ := exists_mem_solutions hb hσ
    exact ⟨s, hs⟩

/-- **Adequacy of queries.** -/
theorem Body.mem_select (hb : b.Safe) {out : List (Term V)} (hout : b.Binds out) {vs : List V} :
    vs ∈ b.select facts out ↔ ∃ σ, b.Models facts σ ∧ out.map (Term.eval σ) = vs := by
  rw [Body.select, List.mem_dedup, List.mem_filterMap]
  constructor
  · rintro ⟨s, hs, hvs⟩
    obtain ⟨hmodels, hbinds⟩ := models_of_mem_solutions hb hs
    refine ⟨_, hmodels, ?_⟩
    rw [mapM_value (agrees_valuation s) fun x hx => hbinds x (hout hx)] at hvs
    exact Option.some.inj hvs
  · rintro ⟨σ, hσ, rfl⟩
    obtain ⟨s, hs, hag⟩ := exists_mem_solutions hb hσ
    obtain ⟨-, hbinds⟩ := models_of_mem_solutions hb hs
    exact ⟨s, hs, mapM_value hag fun x hx => hbinds x (hout hx)⟩

end Datalog
