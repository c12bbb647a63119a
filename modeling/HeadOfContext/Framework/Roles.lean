import HeadOfContext.Framework.Pool

/-!
# What a call knows while others run

Between two calls of the interface of one program, any number of others can be answered. What a
program may still rely on is said by its *role*: `knows θ s` is what a program in the role `θ`
knows of the state `s`, and roles that are `apart` can be played at once. A program keeps its role
(`Roles.Keeps`) when each of its calls keeps the invariant and what is known in every role apart
from its own.

`Keeps` is a fold over the program, so it composes along `bind` (`Roles.keeps_bind`). It is sound
for every interleaving (`Roles.sound`): in each state that a run reaches, the invariant holds, every
call that was started knows what its role says, and one that has returned has returned what `Q`
says of its role.
-/

namespace Effects

open Prog

variable {S : Sig} {W : World S} {α β ε : Type}

/-- The roles of the programs over these collaborators. -/
structure Roles (W : World S) where
  Role : Type
  inv : W.State → Prop
  /-- What a program in the role knows. -/
  knows : Role → W.State → Prop
  /-- The roles can be played at once. -/
  apart : Role → Role → Prop
  /-- What a call may do to the state. -/
  moves : W.State → W.State → Prop
  /-- The role that every program starts in. -/
  outside : Role
  knows_outside : ∀ s, knows outside s
  apart_outside : ∀ θ, apart outside θ
  apart_symm : ∀ {θ θ'}, apart θ θ' → apart θ' θ
  moves_refl : ∀ s, moves s s
  moves_trans : ∀ {s s' s''}, moves s s' → moves s' s'' → moves s s''

namespace Roles

variable (R : Roles W)

/-- What a step from the role `θ` to the role `θ'` leaves to the others. -/
structure Leaves (θ θ' : R.Role) (s s' : W.State) : Prop where
  inv : R.inv s'
  moves : R.moves s s'
  own : R.knows θ' s'
  others : ∀ θ₂, R.apart θ θ₂ → R.knows θ₂ s → R.knows θ₂ s' ∧ R.apart θ' θ₂

/-- In the role `θ`, the program leaves to the others what they know, at every call, and returns
what `Q` says of its last role. -/
def Keeps (Q : R.Role → α → Prop) : Prog S α → R.Role → Prop
  | ret a, θ => Q θ a
  | call o k, θ => ∀ s r s', R.inv s → R.knows θ s → W.step s o r s' →
      ∃ θ', R.Leaves θ θ' s s' ∧ Keeps Q (k r) θ'

variable {R} {θ : R.Role} {Q : R.Role → α → Prop}

theorem Keeps.mono {Q' : R.Role → α → Prop} {p : Prog S α} (h : R.Keeps Q p θ)
    (hQ : ∀ θ' a, Q θ' a → Q' θ' a) : R.Keeps Q' p θ := by
  induction p generalizing θ with
  | ret a => exact hQ θ a h
  | call o k ih =>
    intro s r s' hinv hknows hstep
    obtain ⟨θ', hleaves, hrest⟩ := h s r s' hinv hknows hstep
    exact ⟨θ', hleaves, ih r hrest⟩

/-- The sequence rule. -/
theorem keeps_bind {p : Prog S α} {f : α → Prog S β} {Q : R.Role → β → Prop} :
    R.Keeps Q (p.bind f) θ ↔ R.Keeps (fun θ' a => R.Keeps Q (f a) θ') p θ := by
  induction p generalizing θ with
  | ret a => exact Iff.rfl
  | call o k ih =>
    refine forall_congr' fun s => forall_congr' fun r => forall_congr' fun s' => ?_
    refine imp_congr_right fun _ => imp_congr_right fun _ => imp_congr_right fun _ => ?_
    exact exists_congr fun θ' => and_congr_right fun _ => ih r

/-! ### Every interleaving -/

section Sound

variable {V : Service S}

/-- What the calls of a service keep, and what each returns. -/
structure Cast (R : Roles W) (V : Service S) where
  returns : ∀ c, R.Role → V.Out c → Prop
  start : R.inv W.init
  keeps : ∀ c, R.Keeps (returns c) (V.body c) R.outside

/-- The roles of the calls that have started. -/
structure Cast.Holds (K : R.Cast V) (run : List (V.Moment W)) (s : W.State)
    (role : ℕ → R.Role) : Prop where
  knows : ∀ i c, (Service.calls run)[i]? = some c → R.knows (role i) s
  apart : ∀ i j, i < (Service.calls run).length → j < (Service.calls run).length → i ≠ j →
    R.apart (role i) (role j)
  keeps : ∀ i c p, (Service.calls run)[i]? = some c → Path (V.body c) (Service.history i run) p →
    R.Keeps (K.returns c) p (role i)

theorem Cast.Holds.spawn {K : R.Cast V} {run : List (V.Moment W)} {s : W.State}
    {role : ℕ → R.Role} (h : K.Holds run s role) (hexec : Service.Exec V W run s)
    (c : V.Call) :
    K.Holds (run ++ [⟨s, .spawn c⟩]) s
      (Function.update role (Service.calls run).length R.outside) := by
  -- a call is one that had started, or the new one
  have hcases : ∀ {i : ℕ} {c' : V.Call},
      (Service.calls (run ++ [(⟨s, .spawn c⟩ : V.Moment W)]))[i]? = some c' →
      (i ≠ (Service.calls run).length ∧ (Service.calls run)[i]? = some c') ∨
        (i = (Service.calls run).length ∧ c' = c) := by
    intro i c' hi
    rw [Service.calls_append, Service.calls_spawn] at hi
    rcases Nat.lt_or_ge i (Service.calls run).length with hlt | hge
    · rw [List.getElem?_append_left hlt] at hi
      exact .inl ⟨Nat.ne_of_lt hlt, hi⟩
    · rw [List.getElem?_append_right hge, List.getElem?_singleton] at hi
      split_ifs at hi with hzero
      exact .inr ⟨by omega, (Option.some.inj hi).symm⟩
  refine ⟨fun i c' hi => ?_, fun i j hi hj hne => ?_, fun i c' p hi hpath => ?_⟩
  · rcases hcases hi with ⟨hne, hold⟩ | ⟨rfl, rfl⟩
    · rw [Function.update_of_ne hne]
      exact h.knows i c' hold
    · rw [Function.update_self]
      exact R.knows_outside s
  · rw [Service.calls_append, Service.calls_spawn, List.length_append, List.length_singleton]
      at hi hj
    by_cases hi' : i = (Service.calls run).length
    · subst hi'
      rw [Function.update_self]
      exact R.apart_outside _
    · rw [Function.update_of_ne hi']
      by_cases hj' : j = (Service.calls run).length
      · subst hj'
        rw [Function.update_self]
        exact R.apart_symm (R.apart_outside _)
      · rw [Function.update_of_ne hj']
        exact h.apart i j (by omega) (by omega) hne
  · rw [Service.history_append, Service.history_spawn, List.append_nil] at hpath
    rcases hcases hi with ⟨hne, hold⟩ | ⟨rfl, rfl⟩
    · rw [Function.update_of_ne hne]
      exact h.keeps i c' p hold hpath
    · rw [Function.update_self]
      rw [hexec.history_nil (Nat.le_refl _)] at hpath
      obtain rfl := Path.unique (.nil _) hpath
      exact K.keeps c'

theorem Cast.Holds.event {K : R.Cast V} {run : List (V.Moment W)} {s s' : W.State}
    {role : ℕ → R.Role} (h : K.Holds run s role) (hinv : R.inv s) {i : ℕ} {c : V.Call} {o : S.Op}
    {k : S.Res o → Prog S (V.Out c)} {r : S.Res o} (hcall : (Service.calls run)[i]? = some c)
    (hpath : Path (V.body c) (Service.history i run) (.call o k)) (hstep : W.step s o r s') :
    R.inv s' ∧ R.moves s s' ∧
      ∃ θ', K.Holds (run ++ [⟨s, .event i ⟨o, r⟩⟩]) s' (Function.update role i θ') := by
  obtain ⟨θ', hleaves, hrest⟩ := h.keeps i c _ hcall hpath s r s' hinv (h.knows i c hcall) hstep
  obtain ⟨hi, -⟩ := List.getElem?_eq_some_iff.mp hcall
  have hcalls : Service.calls (run ++ [(⟨s, .event i ⟨o, r⟩⟩ : V.Moment W)]) =
      Service.calls run := by
    rw [Service.calls_append, Service.calls_event, List.append_nil]
  refine ⟨hleaves.inv, hleaves.moves, θ', ?_, ?_, ?_⟩
  · intro j c' hj
    rw [hcalls] at hj
    by_cases hji : j = i
    · subst hji
      rw [Function.update_self]
      exact hleaves.own
    · rw [Function.update_of_ne hji]
      obtain ⟨hlt, -⟩ := List.getElem?_eq_some_iff.mp hj
      exact (hleaves.others _ (h.apart i j hi hlt (Ne.symm hji)) (h.knows j c' hj)).1
  · intro j l hj hl hne
    rw [hcalls] at hj hl
    -- the new role of the call that moved is apart from those of the others
    have hnew : ∀ m, m < (Service.calls run).length → m ≠ i → R.apart θ' (role m) := by
      intro m hm hmi
      exact (hleaves.others _ (h.apart i m hi hm (Ne.symm hmi))
        (h.knows m _ (List.getElem?_eq_getElem hm))).2
    by_cases hji : j = i
    · subst hji
      rw [Function.update_self, Function.update_of_ne (Ne.symm hne)]
      exact hnew l hl (Ne.symm hne)
    · rw [Function.update_of_ne hji]
      by_cases hli : l = i
      · subst hli
        rw [Function.update_self]
        exact R.apart_symm (hnew j hj hji)
      · rw [Function.update_of_ne hli]
        exact h.apart j l hj hl hne
  · intro j c' p hj hpath'
    rw [hcalls] at hj
    rw [Service.history_append] at hpath'
    by_cases hji : j = i
    · subst hji
      rw [Function.update_self]
      rw [hcall] at hj
      obtain rfl := Option.some.inj hj
      rw [Service.history_self] at hpath'
      obtain rfl := Path.unique (hpath.snoc r) hpath'
      exact hrest
    · rw [Function.update_of_ne hji]
      rw [Service.history_of_ne (Ne.symm hji), List.append_nil] at hpath'
      exact h.keeps j c' p hj hpath'

/-- **Soundness.** In every state that a run reaches, the invariant holds and the calls know what
their roles say; and each state of the run is related to every later one. -/
theorem Cast.sound (K : R.Cast V) {run : List (V.Moment W)} {s : W.State}
    (h : Service.Exec V W run s) :
    R.inv s ∧ (∃ role, K.Holds run s role) ∧ R.moves W.init s ∧
      (Service.states run s).Pairwise R.moves := by
  -- the induction is on the run; a moment changes the role of the call it belongs to
  induction h with
  | start =>
    have hnone : ∀ i : ℕ, (Service.calls ([] : List (V.Moment W)))[i]? = none := fun _ => rfl
    refine ⟨K.start, ⟨fun _ => R.outside, fun i c hi => ?_, fun i j hi => ?_, fun i c p hi => ?_⟩,
      R.moves_refl _, List.pairwise_singleton _ _⟩
    · exact R.knows_outside _
    · exact absurd hi (Nat.not_lt_zero i)
    · exact absurd ((hnone i).symm.trans hi) (by simp)
  | @step run s s' l hexec hs ih =>
    obtain ⟨hinv, ⟨role, hholds⟩, hstart, hmoves⟩ := ih
    have hstep : R.inv s' ∧ R.moves s s' ∧ ∃ role', K.Holds (run ++ [⟨s, l⟩]) s' role' := by
      cases hs with
      | spawn c => exact ⟨hinv, R.moves_refl s, _, hholds.spawn hexec c⟩
      | event hcall hpath hstep =>
        obtain ⟨hinv', hmoves', θ', hholds'⟩ := hholds.event hinv hcall hpath hstep
        exact ⟨hinv', hmoves', _, hholds'⟩
    refine ⟨hstep.1, hstep.2.2, R.moves_trans hstart hstep.2.1, ?_⟩
    rw [Service.states_snoc, List.pairwise_append]
    refine ⟨hmoves, List.pairwise_singleton _ _, fun a ha b hb => ?_⟩
    obtain rfl := List.mem_singleton.mp hb
    rcases List.mem_append.mp ha with hbefore | hlast
    · have hall := (List.pairwise_append.mp hmoves).2.2
      exact R.moves_trans (hall a hbefore s (List.mem_singleton.mpr rfl)) hstep.2.1
    · obtain rfl := List.mem_singleton.mp hlast
      exact hstep.2.1

/-- What a call that has returned knows. -/
theorem Cast.Holds.returned {K : R.Cast V} {run : List (V.Moment W)} {s : W.State}
    {role : ℕ → R.Role} (h : K.Holds run s role) {i : ℕ} {c : V.Call} {a : V.Out c}
    (hcall : (Service.calls run)[i]? = some c) (hret : Run (V.body c) (Service.history i run) a) :
    K.returns c (role i) a ∧ R.knows (role i) s :=
  ⟨h.keeps i c _ hcall hret, h.knows i c hcall⟩

end Sound

/-! ### Programs that may raise -/

variable {Q : R.Role → Except ε β → Prop}

/-- A program that may raise keeps its role. -/
def KeepsRaising (R : Roles W) (Q : R.Role → Except ε α → Prop) (p : Raises S ε α)
    (θ : R.Role) : Prop := R.Keeps Q p.run θ

theorem KeepsRaising.mono {Q Q' : R.Role → Except ε α → Prop} {p : Raises S ε α}
    (h : R.KeepsRaising Q p θ) (hQ : ∀ θ' a, Q θ' a → Q' θ' a) : R.KeepsRaising Q' p θ :=
  Keeps.mono h hQ

/-- The sequence rule: an exception of the first part ends the whole. -/
theorem KeepsRaising.bind {P : R.Role → Except ε α → Prop} {p : Raises S ε α}
    {f : α → Raises S ε β} (h : R.KeepsRaising P p θ)
    (hok : ∀ θ' a, P θ' (.ok a) → R.KeepsRaising Q (f a) θ')
    (herror : ∀ θ' e, P θ' (.error e) → Q θ' (.error e)) : R.KeepsRaising Q (p >>= f) θ := by
  refine keeps_bind.mpr (Keeps.mono h fun θ' x hx => ?_)
  cases x with
  | ok a => exact hok θ' a hx
  | error e => exact herror θ' e hx

/-- The rule of an attempt: what follows is told what happened. -/
theorem KeepsRaising.attempt_bind {P : R.Role → Except ε α → Prop} {p : Raises S ε α}
    {f : Except ε α → Raises S ε β} (h : R.KeepsRaising P p θ)
    (hnext : ∀ θ' x, P θ' x → R.KeepsRaising Q (f x) θ') :
    R.KeepsRaising Q (p.attempt >>= f) θ := by
  refine keeps_bind.mpr (keeps_bind.mpr (Keeps.mono h fun θ' x hx => ?_))
  exact hnext θ' x hx

end Roles

end Effects
