import HeadOfContext.Framework.Pool

/-!
# One call after another

Where the calls of a service do not overlap, a run is a list of `Turn`s, each a call that ran
from a state of the collaborators to another. What a turn does is computed backwards over its
program: `Prog.wp p Q s` says that `p`, started in the state `s`, only returns results and
leaves states that satisfy `Q`. It is a fold over the program, so it composes along `bind`
(`Prog.wp_bind`), and it is adequate for runs (`Prog.wp_iff`).

`Raises.Returns` is the reading of it for programs that may raise, with a postcondition for
the runs that return and none for the others.
-/

namespace Effects

open Prog

variable {S : Sig} {W : World S} {α β ε : Type}

/-- The calls of the trace, in order, take the collaborators from one state to another. -/
inductive World.Steps (W : World S) : W.State → Trace S → W.State → Prop
  | nil (s : W.State) : Steps W s [] s
  | cons {s s' s'' : W.State} {o : S.Op} {r : S.Res o} {tr : Trace S} (hs : W.step s o r s')
      (h : Steps W s' tr s'') : Steps W s (⟨o, r⟩ :: tr) s''

/-- What each call preserves, a trace preserves. -/
theorem World.Steps.invariant {I : Trace S → W.State → Prop}
    (hstep : ∀ h s o r s', I h s → W.step s o r s' → I (h ++ [⟨o, r⟩]) s') {tr : Trace S}
    {s s' : W.State} (hsteps : W.Steps s tr s') {h : Trace S} (hs : I h s) : I (h ++ tr) s' := by
  induction hsteps generalizing h with
  | nil s => rwa [List.append_nil]
  | cons hcall _ ih =>
    rw [List.append_cons]
    exact ih (hstep _ _ _ _ _ hs hcall)

/-! ### What a program leaves behind -/

namespace Prog

/-- Started in the state `s`, the program only returns results and leaves states that satisfy
`Q`. -/
def wp (W : World S) (Q : α → W.State → Prop) : Prog S α → W.State → Prop
  | ret a, s => Q a s
  | call o k, s => ∀ r s', W.step s o r s' → wp W Q (k r) s'

variable {Q : α → W.State → Prop} {s : W.State}

/-- **Adequacy.** What `wp` says is what holds after every run. -/
theorem wp_iff {p : Prog S α} :
    wp W Q p s ↔ ∀ tr a s', Run p tr a → W.Steps s tr s' → Q a s' := by
  induction p generalizing s with
  | ret a =>
    constructor
    · intro h tr b s' hrun hsteps
      obtain ⟨rfl, rfl⟩ := run_ret.mp hrun
      cases hsteps
      exact h
    · intro h
      exact h [] a s (.nil _) (.nil s)
  | call o k ih =>
    constructor
    · intro h tr a s' hrun hsteps
      obtain ⟨r, tr', rfl, hrun'⟩ := run_call.mp hrun
      cases hsteps with
      | cons hs hsteps' => exact (ih r).mp (h r _ hs) tr' a s' hrun' hsteps'
    · intro h r s' hs
      refine (ih r).mpr fun tr a s'' hrun hsteps => ?_
      exact h _ a s'' (.cons hrun) (.cons hs hsteps)

theorem wp_bind {p : Prog S α} {f : α → Prog S β} {Q : β → W.State → Prop} {s : W.State} :
    wp W Q (p.bind f) s ↔ wp W (fun a => wp W Q (f a)) p s := by
  induction p generalizing s with
  | ret a => exact Iff.rfl
  | call o k ih => exact forall_congr' fun r => forall_congr' fun s' =>
      imp_congr_right fun _ => ih r

theorem wp.mono {Q' : α → W.State → Prop} {p : Prog S α} (h : wp W Q p s)
    (hQ : ∀ a s', Q a s' → Q' a s') : wp W Q' p s := by
  induction p generalizing s with
  | ret a => exact hQ a s h
  | call o k ih => exact fun r s' hs => ih r (h r s' hs)

end Prog

/-! ### Programs that may raise -/

namespace Raises

variable {Q : α → W.State → Prop} {s : W.State}

/-- Started in the state `s`, the program, if it returns, satisfies `Q`. -/
def Returns (W : World S) (Q : α → W.State → Prop) (p : Raises S ε α) (s : W.State) : Prop :=
  p.run.wp W (fun r s' => ∀ a, r = .ok a → Q a s') s

/-- **Adequacy**, for runs that return. -/
theorem Returns.run {p : Raises S ε α} {tr : Trace S} {a : α} {s' : W.State}
    (h : Returns W Q p s) (hrun : Run p tr (.ok a)) (hsteps : W.Steps s tr s') : Q a s' :=
  Prog.wp_iff.mp h tr _ s' hrun hsteps a rfl

@[simp] theorem returns_pure {a : α} : Returns W Q (Pure.pure a : Raises S ε α) s ↔ Q a s :=
  ⟨fun h => h a rfl, fun h _ heq => Except.ok.inj heq ▸ h⟩

@[simp] theorem returns_raise {e : ε} : Returns W Q (raise e : Raises S ε α) s :=
  fun _ heq => nomatch heq

theorem returns_ofExcept {x : Except ε α} :
    Returns W Q (ofExcept x : Raises S ε α) s ↔ ∀ a, x = .ok a → Q a s := Iff.rfl

theorem returns_bind {p : Raises S ε α} {f : α → Raises S ε β} {Q : β → W.State → Prop} :
    Returns W Q (p >>= f) s ↔ Returns W (fun a => Returns W Q (f a)) p s := by
  rw [bind_def, bind, Returns, Prog.wp_bind]
  constructor
  · intro h
    refine h.mono fun r s' hr a heq => ?_
    subst heq
    exact hr
  · intro h
    refine h.mono fun r s' hr => ?_
    cases r with
    | error e =>
      intro b heq
      cases heq
    | ok a => exact hr a rfl

/-- A call that does not raise. -/
theorem returns_lift_invoke {o : S.Op} {Q : S.Res o → W.State → Prop} :
    Returns W Q (lift (Prog.invoke o) : Raises S ε (S.Res o)) s ↔
      ∀ r s', W.step s o r s' → Q r s' :=
  ⟨fun h r s' hs => h r s' hs r rfl, fun h r s' hs _ heq => Except.ok.inj heq ▸ h r s' hs⟩

theorem Returns.mono {Q' : α → W.State → Prop} {p : Raises S ε α} (h : Returns W Q p s)
    (hQ : ∀ a s', Q a s' → Q' a s') : Returns W Q' p s :=
  Prog.wp.mono h fun _ s' hr a heq => hQ a s' (hr a heq)

end Raises

/-! ### Programs and both ways they end -/

namespace Raises

variable {Q : Except ε α → W.State → Prop} {s : W.State}

/-- Started in the state `s`, the program only ends, returning or raising, in a way that
satisfies `Q`. -/
def Ends (W : World S) (Q : Except ε α → W.State → Prop) (p : Raises S ε α) (s : W.State) : Prop :=
  p.run.wp W Q s

/-- **Adequacy**, for all runs. -/
theorem Ends.run {p : Raises S ε α} {tr : Trace S} {r : Except ε α} {s' : W.State}
    (h : Ends W Q p s) (hrun : Run p tr r) (hsteps : W.Steps s tr s') : Q r s' :=
  Prog.wp_iff.mp h tr r s' hrun hsteps

theorem ends_pure {a : α} : Ends W Q (Pure.pure a : Raises S ε α) s ↔ Q (.ok a) s := Iff.rfl

theorem ends_ofExcept {x : Except ε α} : Ends W Q (ofExcept x : Raises S ε α) s ↔ Q x s := Iff.rfl

/-- A call that does not raise. -/
theorem ends_lift_invoke {o : S.Op} {Q : Except ε (S.Res o) → W.State → Prop} :
    Ends W Q (lift (Prog.invoke o) : Raises S ε (S.Res o)) s ↔
      ∀ r s', W.step s o r s' → Q (.ok r) s' := Iff.rfl

/-- A program ends as its first part does where that raises, and as the rest does otherwise. -/
theorem Ends.bind {p : Raises S ε α} {f : α → Raises S ε β} {P : Except ε α → W.State → Prop}
    {Q : Except ε β → W.State → Prop} (h : Ends W P p s)
    (hok : ∀ a s', P (.ok a) s' → Ends W Q (f a) s')
    (herr : ∀ e s', P (.error e) s' → Q (.error e) s') : Ends W Q (p >>= f) s := by
  rw [bind_def, Raises.bind, Ends, Prog.wp_bind]
  refine Prog.wp.mono h fun r s' hr => ?_
  cases r with
  | ok a => exact hok a s' hr
  | error e => exact herr e s' hr

/-- The sequence rule for a first part that does not raise. -/
theorem Ends.bind_ok {p : Raises S ε α} {f : α → Raises S ε β} {P : α → W.State → Prop}
    {Q : Except ε β → W.State → Prop} (h : Ends W (fun r s' => ∃ a, r = .ok a ∧ P a s') p s)
    (hok : ∀ a s', P a s' → Ends W Q (f a) s') : Ends W Q (p >>= f) s := by
  refine h.bind (fun a s' ha => ?_) fun e s' he => ?_
  · obtain ⟨a', heq, hP⟩ := ha
    exact Except.ok.inj heq ▸ hok a' s' hP
  · obtain ⟨a', heq, -⟩ := he
    exact nomatch heq

/-- What is done with a result that may be an exception. -/
theorem Ends.attempt_bind {p : Raises S ε α} {f : Except ε α → Raises S ε β}
    {P : Except ε α → W.State → Prop} {Q : Except ε β → W.State → Prop} (h : Ends W P p s)
    (hnext : ∀ r s', P r s' → Ends W Q (f r) s') : Ends W Q (attempt p >>= f) s := by
  have hattempt : Ends W (fun r s' => ∃ x, r = .ok x ∧ P x s') (attempt p) s :=
    Prog.wp_bind.mpr (Prog.wp.mono h fun r _ hr => ⟨r, rfl, hr⟩)
  exact hattempt.bind_ok hnext

theorem ends_raise {e : ε} : Ends W Q (raise e : Raises S ε α) s ↔ Q (.error e) s := Iff.rfl

theorem Ends.mono {Q' : Except ε α → W.State → Prop} {p : Raises S ε α} (h : Ends W Q p s)
    (hQ : ∀ r s', Q r s' → Q' r s') : Ends W Q' p s :=
  Prog.wp.mono h hQ

end Raises

/-! ### Playing a program -/

namespace Service.Driver

/-- Run the program alone, against collaborators that answer in one way. -/
def execute (d : Driver W) : Prog S α → W.State → Option (Trace S × α × W.State)
  | .ret a, s => some ([], a, s)
  | .call o k, s =>
    match d.after s o with
    | none => none
    | some s' => (d.execute (k (d.answer s o)) s').map fun (tr, a, s'') =>
        (⟨o, d.answer s o⟩ :: tr, a, s'')

theorem sound_execute {d : Driver W} {p : Prog S α} {s s' : W.State} {tr : Trace S} {a : α}
    (h : d.execute p s = some (tr, a, s')) : Run p tr a ∧ W.Steps s tr s' := by
  induction p generalizing s tr with
  | ret b =>
    cases h
    exact ⟨.nil _, .nil _⟩
  | call o k ih =>
    match hafter : d.after s o with
    | none => simp [execute, hafter] at h
    | some s₁ =>
      rw [execute, hafter] at h
      obtain ⟨⟨tr', b, s₂⟩, hrest, heq⟩ := Option.map_eq_some_iff.mp h
      cases heq
      obtain ⟨hrun, hsteps⟩ := ih _ hrest
      exact ⟨.cons hrun, .cons (d.sound hafter) hsteps⟩

end Service.Driver

/-! ### Histories -/

namespace Service

variable {V : Service S}

/-- A call that ran alone, from one state to another. -/
structure Turn (V : Service S) (W : World S) where
  before : W.State
  call : V.Call
  trace : Trace S
  result : V.Out call
  after : W.State

/-- The turn ran the program of its call. -/
structure Turn.Ran (t : V.Turn W) : Prop where
  run : Run (V.body t.call) t.trace t.result
  steps : W.Steps t.before t.trace t.after

/-- The histories of calls that do not overlap, with the state they end in. -/
inductive Session (V : Service S) (W : World S) : List (V.Turn W) → W.State → Prop
  | start : Session V W [] W.init
  | turn {turns : List (V.Turn W)} {t : V.Turn W} (h : Session V W turns t.before) (ht : t.Ran) :
      Session V W (turns ++ [t]) t.after

/-- The last turn of a history ended in the state of the history. -/
theorem Session.of_concat {turns : List (V.Turn W)} {t : V.Turn W} {s : W.State}
    (h : Session V W (turns ++ [t]) s) : Session V W turns t.before ∧ t.Ran ∧ s = t.after := by
  generalize hall : turns ++ [t] = all at h
  cases h with
  | start => exact absurd hall (by simp)
  | turn hprev hran =>
    obtain ⟨rfl, ht⟩ := List.append_inj' hall rfl
    obtain rfl := List.singleton_injective ht
    exact ⟨hprev, hran, rfl⟩

/-- **Induction on a history**, from a turn in it on. -/
theorem Session.suffix_induction {past later : List (V.Turn W)} {t₀ : V.Turn W} {s : W.State}
    {P : List (V.Turn W) → W.State → Prop} (h : Session V W (past ++ t₀ :: later) s)
    (hstart : Session V W past t₀.before → t₀.Ran → P [] t₀.after)
    (hturn : ∀ turns t, t ∈ later → P turns t.before → t.Ran → P (turns ++ [t]) t.after) :
    P later s := by
  induction later using List.reverseRecOn generalizing s with
  | nil =>
    obtain ⟨hprev, hran, rfl⟩ := h.of_concat
    exact hstart hprev hran
  | append_singleton later t ih =>
    rw [← List.cons_append, ← List.append_assoc] at h
    obtain ⟨hprev, hran, rfl⟩ := h.of_concat
    refine hturn later t (List.mem_append_right _ (List.mem_singleton.mpr rfl)) ?_ hran
    exact ih hprev fun turns u hu => hturn turns u (List.mem_append_left _ hu)

/-- Every turn of a history ran its program. -/
theorem Session.ran_of_mem {turns : List (V.Turn W)} {s : W.State} {t : V.Turn W}
    (h : Session V W turns s) (ht : t ∈ turns) : t.Ran := by
  induction h with
  | start => exact absurd ht List.not_mem_nil
  | turn _ hran ih =>
    rcases List.mem_append.mp ht with hold | hnow
    · exact ih hold
    · obtain rfl := List.mem_singleton.mp hnow
      exact hran

/-- Run the program of the call alone. -/
def Driver.turn (d : Driver W) (c : V.Call) (s : W.State) : Option (V.Turn W) :=
  (d.execute (V.body c) s).map fun (tr, a, s') => ⟨s, c, tr, a, s'⟩

theorem Driver.sound_turn {d : Driver W} {c : V.Call} {s : W.State} {t : V.Turn W}
    (h : d.turn c s = some t) : t.Ran ∧ t.before = s ∧ t.call = c := by
  obtain ⟨⟨tr, a, s'⟩, hplay, rfl⟩ := Option.map_eq_some_iff.mp h
  obtain ⟨hrun, hsteps⟩ := Driver.sound_execute hplay
  exact ⟨⟨hrun, hsteps⟩, rfl, rfl⟩

/-- Run the programs of the calls one after another, each against the collaborators that it is
paired with. -/
def Driver.turns : List (Driver W × V.Call) → W.State → Option (List (V.Turn W) × W.State)
  | [], s => some ([], s)
  | (d, c) :: rest, s =>
    match d.turn c s with
    | none => none
    | some t => (turns rest t.after).map fun (ts, s') => (t :: ts, s')

theorem Driver.sound_turns {plan : List (Driver W × V.Call)} {turns played : List (V.Turn W)}
    {s s' : W.State} (h : Session V W turns s) (hplay : Driver.turns plan s = some (played, s')) :
    Session V W (turns ++ played) s' := by
  induction plan generalizing turns played s with
  | nil =>
    obtain ⟨rfl, rfl⟩ := Prod.ext_iff.mp (Option.some.inj hplay)
    rwa [List.append_nil]
  | cons call rest ih =>
    obtain ⟨d, c⟩ := call
    match hturn : d.turn c s with
    | none => simp [Driver.turns, hturn] at hplay
    | some t =>
      rw [Driver.turns, hturn] at hplay
      obtain ⟨⟨ts, s''⟩, hrest, heq⟩ := Option.map_eq_some_iff.mp hplay
      cases heq
      obtain ⟨hran, rfl, -⟩ := Driver.sound_turn hturn
      have hlonger := ih (.turn h hran) hrest
      rwa [List.append_assoc] at hlonger

end Service

end Effects
