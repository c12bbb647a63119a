import HeadOfContext.Framework.Prog

/-!
# Programs with one call of a kind

A call may have a size (`size o = some n`). A program whose calls have none leaves no size in the
traces of its runs, and a program that opens with a call of size `n`, and makes no other, leaves
that one alone (`Opens`). Both are read off the text of the program: they hold of every run, one
that is cut short included.
-/

namespace Effects

variable {S T : Sig} {α β : Type}

/-- The sizes of the calls of a trace. -/
def sizes (size : S.Op → Option ℕ) (tr : Trace S) : List ℕ := tr.filterMap fun e => size e.op

@[simp] theorem sizes_nil {size : S.Op → Option ℕ} : sizes size [] = [] := rfl

@[simp] theorem sizes_append {size : S.Op → Option ℕ} {tr tr' : Trace S} :
    sizes size (tr ++ tr') = sizes size tr ++ sizes size tr' := List.filterMap_append

theorem sizes_eq_nil {size : S.Op → Option ℕ} {tr : Trace S} (h : ∀ e ∈ tr, size e.op = none) :
    sizes size tr = [] := List.filterMap_eq_nil_iff.mpr h

namespace Prog

variable {A : S.Op → Prop}

/-- The program opens with the call; the calls after it satisfy `A`. -/
def Opens (A : S.Op → Prop) (o : S.Op) (p : Prog S α) : Prop :=
  ∃ k, p = call o k ∧ ∀ r, Calls A (k r)

theorem Opens.bind {o : S.Op} {p : Prog S α} {f : α → Prog S β} (hp : Opens A o p)
    (hf : ∀ a, Calls A (f a)) : Opens A o (p.bind f) := by
  obtain ⟨k, rfl, hk⟩ := hp
  exact ⟨fun r => (k r).bind f, rfl, fun r => (hk r).bind hf⟩

theorem Opens.imp {B : S.Op → Prop} {o : S.Op} {p : Prog S α} (hp : Opens A o p)
    (h : ∀ o, A o → B o) : Opens B o p := by
  obtain ⟨k, rfl, hk⟩ := hp
  exact ⟨k, rfl, fun r => (hk r).imp h⟩

/-- Over an interface whose calls may end the program, it issues the same calls. -/
theorem Calls.guarded {m : Guards S T β} {B : T.Op → Prop} {p : Prog S α} (hp : Calls A p)
    (h : ∀ o, A o → B (m.op o)) : Calls B (p.guarded m) := by
  induction p with
  | ret a => trivial
  | call o k ih =>
    rw [Prog.guarded]
    refine ⟨h o hp.1, fun r => ?_⟩
    dsimp only
    cases m.res o r with
    | error b => trivial
    | ok r' => exact ih r' (hp.2 r')

theorem Opens.guarded {m : Guards S T β} {B : T.Op → Prop} {o : S.Op} {p : Prog S α}
    (hp : Opens A o p) (h : ∀ o, A o → B (m.op o)) : Opens B (m.op o) (p.guarded m) := by
  obtain ⟨k, rfl, hk⟩ := hp
  rw [Prog.guarded]
  refine ⟨_, rfl, fun r => ?_⟩
  cases m.res o r with
  | error b => trivial
  | ok r' => exact (hk r').guarded h

theorem Opens.of_run {o : S.Op} {p : Prog S α} {tr : Trace S} {a : α} (hp : Opens A o p)
    (hrun : Run p tr a) : ∃ r tr', tr = ⟨o, r⟩ :: tr' ∧ ∀ e ∈ tr', A e.op := by
  obtain ⟨k, rfl, hk⟩ := hp
  obtain ⟨r, tr', rfl, hrest⟩ := run_call.mp hrun
  exact ⟨r, tr', rfl, fun e he => (hk r).of_run hrest he⟩

/-- A program without calls that have a size. -/
theorem Calls.sizes {size : S.Op → Option ℕ} {p : Prog S α} {tr : Trace S} {a : α}
    (hp : Calls (fun o => size o = none) p) (hrun : Run p tr a) : sizes size tr = [] :=
  sizes_eq_nil fun _ he => hp.of_run hrun he

/-- A program that opens with the one call that has a size. -/
theorem Opens.sizes {size : S.Op → Option ℕ} {o : S.Op} {n : ℕ} {p : Prog S α} {tr : Trace S}
    {a : α} (hp : Opens (fun o => size o = none) o p) (ho : size o = some n)
    (hrun : Run p tr a) : sizes size tr = [n] := by
  obtain ⟨r, tr', rfl, hrest⟩ := hp.of_run hrun
  have hhead : Effects.sizes size (⟨o, r⟩ :: tr') = n :: Effects.sizes size tr' :=
    List.filterMap_cons_some ho
  rw [hhead, sizes_eq_nil hrest]

end Prog

namespace Raises

variable {ε : Type} {A : S.Op → Prop}

/-- `Prog.Opens` for programs that may raise. -/
def Opens (A : S.Op → Prop) (o : S.Op) (p : Raises S ε α) : Prop := Prog.Opens A o p.run

theorem Opens.bind {o : S.Op} {p : Raises S ε α} {f : α → Raises S ε β} (hp : Opens A o p)
    (hf : ∀ a, Calls A (f a)) : Opens A o (p >>= f) := by
  refine Prog.Opens.bind hp fun r => ?_
  cases r with
  | error e => trivial
  | ok a => exact hf a

/-- A computation that returned comes before the first call. -/
theorem Opens.after_ok {o : S.Op} {a : α} {f : α → Raises S ε β} (h : Opens A o (f a)) :
    Opens A o (ofExcept (.ok a) >>= f) := h

end Raises

end Effects
