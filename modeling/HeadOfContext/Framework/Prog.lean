import HeadOfContext.Framework.Except
import Mathlib.Data.List.Basic
import Mathlib.Logic.Basic
import Mathlib.Tactic.Common

/-!
# Programs over an interface of calls

A service method does two things: it computes, and it calls collaborators whose
answers it cannot predict. `Prog S α` is the tree of everything such a method can
do: either it has returned an `α`, or it issues a call of the interface `S` and
goes on with whatever answer it gets. Two layers sit on top of the tree.

* `Prog.Run p tr a`: the program `p` can return `a` after the calls and answers of
  the trace `tr`. No collaborator is modelled: *every* answer is possible, which is
  the reading of "for every behaviour of the collaborators".
* `Prog.Spec C Q p h`: started with the local history `h`, the program only issues
  calls allowed by `C` (given the history before the call) and only returns results
  allowed by `Q` (given the whole history). It is a fold over the tree, so it
  composes along `bind` (`Prog.spec_bind`), and it is adequate for traces
  (`Prog.Spec.run`).

`Raises S ε α` is the variant of a method that may raise: its result is an
`Except ε α`, and `bind` stops at the first exception. `Raises.attempt` is the
`try` of the source, turning an exception into a value.
-/

namespace Effects

/-- An interface of calls: the names of the calls with their arguments, and the
type of the answer to each. -/
structure Sig where
  Op : Type
  Res : Op → Type

/-- A program over the interface `S`. -/
inductive Prog (S : Sig) (α : Type) : Type where
  /-- The program has returned. -/
  | ret (a : α) : Prog S α
  /-- The program issues the call `o` and continues with its answer. -/
  | call (o : S.Op) (k : S.Res o → Prog S α) : Prog S α

/-- A call together with the answer it got. -/
structure Event (S : Sig) where
  op : S.Op
  res : S.Res op

/-- The calls of a program in order, each with its answer. -/
abbrev Trace (S : Sig) := List (Event S)

variable {S : Sig} {α β γ ε : Type}

namespace Prog

/-- Sequencing: run `p`, then go on with its result. -/
def bind : Prog S α → (α → Prog S β) → Prog S β
  | ret a, f => f a
  | call o k, f => call o fun r => (k r).bind f

/-- The program that issues a single call and returns its answer. -/
def invoke (o : S.Op) : Prog S (S.Res o) := call o ret

@[simp] theorem bind_ret (p : Prog S α) : p.bind ret = p := by
  induction p with
  | ret a => rfl
  | call o k ih => exact congrArg (call o) (funext ih)

theorem bind_assoc (p : Prog S α) (f : α → Prog S β) (g : β → Prog S γ) :
    (p.bind f).bind g = p.bind fun a => (f a).bind g := by
  induction p with
  | ret a => rfl
  | call o k ih => exact congrArg (call o) (funext ih)

/-! ### Traces -/

/-- `p` issues the calls of the trace, receives its answers, and has become `q`. -/
inductive Path : Prog S α → Trace S → Prog S α → Prop
  | nil (p : Prog S α) : Path p [] p
  | cons {o : S.Op} {k : S.Res o → Prog S α} {r : S.Res o} {tr : Trace S} {q : Prog S α}
      (h : Path (k r) tr q) : Path (call o k) (⟨o, r⟩ :: tr) q

/-- `p` returns `a` after the calls and answers of the trace. -/
def Run (p : Prog S α) (tr : Trace S) (a : α) : Prop := Path p tr (ret a)

theorem run_ret {a b : α} {tr : Trace S} : Run (ret a) tr b ↔ tr = [] ∧ b = a := by
  constructor
  · intro h
    cases h
    exact ⟨rfl, rfl⟩
  · rintro ⟨rfl, rfl⟩
    exact .nil _

theorem run_call {o : S.Op} {k : S.Res o → Prog S α} {tr : Trace S} {a : α} :
    Run (call o k) tr a ↔ ∃ r tr', tr = ⟨o, r⟩ :: tr' ∧ Run (k r) tr' a := by
  constructor
  · intro h
    cases h with
    | cons h => exact ⟨_, _, rfl, h⟩
  · rintro ⟨r, tr', rfl, h⟩
    exact .cons h

/-- A run of a sequence is a run of its first half followed by a run of the rest. -/
theorem run_bind {p : Prog S α} {f : α → Prog S β} {tr : Trace S} {b : β} :
    Run (p.bind f) tr b ↔
      ∃ a tr₁ tr₂, tr = tr₁ ++ tr₂ ∧ Run p tr₁ a ∧ Run (f a) tr₂ b := by
  induction p generalizing tr with
  | ret a =>
    constructor
    · intro h
      exact ⟨a, [], tr, rfl, .nil _, h⟩
    · rintro ⟨a', tr₁, tr₂, rfl, h₁, h₂⟩
      obtain ⟨rfl, rfl⟩ := run_ret.mp h₁
      exact h₂
  | call o k ih =>
    constructor
    · intro h
      obtain ⟨r, tr', rfl, h'⟩ := run_call.mp h
      obtain ⟨a, tr₁, tr₂, rfl, h₁, h₂⟩ := (ih r).mp h'
      exact ⟨a, ⟨o, r⟩ :: tr₁, tr₂, rfl, .cons h₁, h₂⟩
    · rintro ⟨a, tr₁, tr₂, rfl, h₁, h₂⟩
      obtain ⟨r, tr', rfl, h'⟩ := run_call.mp h₁
      exact .cons ((ih r).mpr ⟨a, tr', tr₂, rfl, h', h₂⟩)

/-- The answers of a trace decide what a program becomes. -/
theorem Path.unique {p q q' : Prog S α} {tr : Trace S} (h : Path p tr q) (h' : Path p tr q') :
    q = q' := by
  induction h with
  | nil p =>
    cases h'
    rfl
  | cons _ ih =>
    cases h' with
    | cons h' => exact ih h'

/-- One call more. -/
theorem Path.snoc {p : Prog S α} {tr : Trace S} {o : S.Op} {k : S.Res o → Prog S α}
    (h : Path p tr (call o k)) (r : S.Res o) : Path p (tr ++ [⟨o, r⟩]) (k r) := by
  generalize hq : call o k = q at h
  induction h with
  | nil =>
    subst hq
    exact .cons (.nil _)
  | cons _ ih => exact .cons (ih hq)

/-- The result of a run is decided by its answers. -/
theorem Run.unique {p : Prog S α} {tr : Trace S} {a b : α} (h : Run p tr a) (h' : Run p tr b) :
    a = b := Prog.ret.inj (Path.unique h h')

/-- One answered trace holds one run of a program. -/
theorem Run.unique_prefix {p : Prog S α} {tr tr' rest rest' : Trace S} {a b : α}
    (h : Run p tr a) (h' : Run p tr' b) (heq : tr ++ rest = tr' ++ rest') : tr = tr' ∧ a = b := by
  induction p generalizing tr tr' with
  | ret c =>
    obtain ⟨rfl, rfl⟩ := run_ret.mp h
    obtain ⟨rfl, rfl⟩ := run_ret.mp h'
    exact ⟨rfl, rfl⟩
  | call o k ih =>
    obtain ⟨r, tr₁, rfl, h₁⟩ := run_call.mp h
    obtain ⟨r', tr₂, rfl, h₂⟩ := run_call.mp h'
    obtain ⟨hevent, htail⟩ := List.cons.inj heq
    obtain rfl := eq_of_heq (Event.mk.inj hevent).2
    obtain ⟨rfl, rfl⟩ := ih r h₁ h₂ htail
    exact ⟨rfl, rfl⟩

/-- Run the program against fixed answers. -/
def exec (answer : ∀ o, S.Res o) : Prog S α → Trace S × α
  | ret a => ([], a)
  | call o k => (⟨o, answer o⟩ :: ((k (answer o)).exec answer).1, ((k (answer o)).exec answer).2)

theorem run_exec (answer : ∀ o, S.Res o) (p : Prog S α) :
    Run p (p.exec answer).1 (p.exec answer).2 := by
  induction p with
  | ret a => exact .nil _
  | call o k ih => exact .cons (ih (answer o))

/-- Every call of the run against fixed answers got its answer. -/
theorem exec_answered {G : Event S → Prop} {answer : ∀ o, S.Res o}
    (h : ∀ o, G ⟨o, answer o⟩) (p : Prog S α) : ∀ e ∈ (p.exec answer).1, G e := by
  induction p with
  | ret a => exact fun e he => absurd he List.not_mem_nil
  | call o k ih => exact List.forall_mem_cons.mpr ⟨h o, ih (answer o)⟩

/-- Run the program against answers that depend on the history. -/
def execFrom (answer : Trace S → ∀ o, S.Res o) : Trace S → Prog S α → Trace S × α
  | _, ret a => ([], a)
  | h, call o k =>
    let rest := (k (answer h o)).execFrom answer (h ++ [⟨o, answer h o⟩])
    (⟨o, answer h o⟩ :: rest.1, rest.2)

theorem run_execFrom (answer : Trace S → ∀ o, S.Res o) (h : Trace S) (p : Prog S α) :
    Run p (p.execFrom answer h).1 (p.execFrom answer h).2 := by
  induction p generalizing h with
  | ret a => exact .nil _
  | call o k ih => exact .cons (ih (answer h o) _)

theorem exec_bind (answer : ∀ o, S.Res o) (p : Prog S α) (f : α → Prog S β) :
    (p.bind f).exec answer =
      ((p.exec answer).1 ++ ((f (p.exec answer).2).exec answer).1,
        ((f (p.exec answer).2).exec answer).2) := by
  induction p with
  | ret a => rfl
  | call o k ih =>
    rw [bind, exec, ih]
    rfl

/-! ### Specifications over the local history -/

/-- Started with the local history `h`, the program issues only calls allowed by
`C` and returns only results allowed by `Q`. -/
def Spec (C : Trace S → S.Op → Prop) (Q : Trace S → α → Prop) : Prog S α → Trace S → Prop
  | ret a, h => Q h a
  | call o k, h => C h o ∧ ∀ r, Spec C Q (k r) (h ++ [⟨o, r⟩])

variable {C : Trace S → S.Op → Prop} {Q : Trace S → α → Prop} {h : Trace S}

@[simp] theorem spec_ret {a : α} : Spec C Q (ret a) h ↔ Q h a := Iff.rfl

@[simp] theorem spec_call {o : S.Op} {k : S.Res o → Prog S α} :
    Spec C Q (call o k) h ↔ C h o ∧ ∀ r, Spec C Q (k r) (h ++ [⟨o, r⟩]) := Iff.rfl

theorem spec_bind {p : Prog S α} {f : α → Prog S β} {Q : Trace S → β → Prop} {h : Trace S} :
    Spec C Q (p.bind f) h ↔ Spec C (fun h' a => Spec C Q (f a) h') p h := by
  induction p generalizing h with
  | ret a => exact Iff.rfl
  | call o k ih => exact and_congr_right fun _ => forall_congr' fun r => ih r

/-- The sequence rule, with the run of the first half at hand for the second. -/
theorem Spec.seq {p : Prog S α} {f : α → Prog S β} {Q : Trace S → β → Prop}
    (hp : Spec C (fun _ _ => True) p h)
    (hf : ∀ tr a, Run p tr a → Spec C Q (f a) (h ++ tr)) : Spec C Q (p.bind f) h := by
  induction p generalizing h with
  | ret a =>
    have hrest := hf [] a (.nil _)
    rw [List.append_nil] at hrest
    exact hrest
  | call o k ih =>
    refine ⟨hp.1, fun r => ih r (hp.2 r) fun tr a hrun => ?_⟩
    simpa using hf (⟨o, r⟩ :: tr) a (.cons hrun)

theorem Spec.mono {C' : Trace S → S.Op → Prop} {Q' : Trace S → α → Prop} {p : Prog S α}
    (hp : Spec C Q p h) (hC : ∀ h o, C h o → C' h o) (hQ : ∀ h a, Q h a → Q' h a) :
    Spec C' Q' p h := by
  induction p generalizing h with
  | ret a => exact hQ h a hp
  | call o k ih => exact ⟨hC h o hp.1, fun r => ih r (hp.2 r)⟩

/-- A program that keeps two specifications keeps both at once. -/
theorem Spec.and {C' : Trace S → S.Op → Prop} {p : Prog S α} (hp : Spec C (fun _ _ => True) p h)
    (hp' : Spec C' (fun _ _ => True) p h) :
    Spec (fun h o => C h o ∧ C' h o) (fun _ _ => True) p h := by
  induction p generalizing h with
  | ret a => trivial
  | call o k ih => exact ⟨⟨hp.1, hp'.1⟩, fun r => ih r (hp.2 r) (hp'.2 r)⟩

/-- Consequence rule for the results alone. -/
theorem Spec.imp {Q' : Trace S → α → Prop} {p : Prog S α}
    (hp : Spec C Q p h) (hQ : ∀ h a, Q h a → Q' h a) : Spec C Q' p h :=
  hp.mono (fun _ _ hc => hc) hQ

/-- A specification is kept along the calls it allows. -/
theorem Spec.path {p q : Prog S α} {tr : Trace S} (hp : Spec C Q p h) (hpath : Path p tr q) :
    Spec C Q q (h ++ tr) := by
  induction hpath generalizing h with
  | nil p => simpa using hp
  | cons _ ih => simpa using ih (hp.2 _)

/-- **Adequacy.** A result of a run satisfies the postcondition. -/
theorem Spec.run {p : Prog S α} {tr : Trace S} {a : α} (hp : Spec C Q p [])
    (hrun : Run p tr a) : Q tr a := by
  simpa using hp.path hrun

/-! ### Wider interfaces -/

/-- Every call of `S` is a call of `T` with an answer for `S`. -/
structure Embeds (S T : Sig) where
  op : S.Op → T.Op
  res : ∀ o, T.Res (op o) → S.Res o

/-- The program over the wider interface. -/
def embed {T : Sig} (m : Embeds S T) : Prog S α → Prog T α
  | ret a => ret a
  | call o k => call (m.op o) fun r => (k (m.res o r)).embed m

namespace Embeds

variable {T : Sig} (m : Embeds S T)

/-- A call of `S` with the answer that `T` gives it. -/
abbrev Answered := Σ o, T.Res (m.op o)

/-- The call as `T` sees it. -/
def outer (x : m.Answered) : Event T := ⟨m.op x.1, x.2⟩

/-- The call as `S` sees it. -/
def inner (x : m.Answered) : Event S := ⟨x.1, m.res x.1 x.2⟩

end Embeds

/-- A run over the wider interface is a run, with its answers read back. -/
theorem run_embed {T : Sig} {m : Embeds S T} {p : Prog S α} {tr : Trace T} {a : α} :
    Run (p.embed m) tr a ↔ ∃ l : List m.Answered, tr = l.map m.outer ∧ Run p (l.map m.inner) a := by
  -- the induction is on the program, with an answer of the wider interface read back at each call
  induction p generalizing tr with
  | ret b =>
    constructor
    · intro h
      obtain ⟨rfl, rfl⟩ := run_ret.mp h
      exact ⟨[], rfl, .nil _⟩
    · rintro ⟨l, rfl, h⟩
      obtain ⟨hnil, rfl⟩ := run_ret.mp h
      rw [List.map_eq_nil_iff.mp hnil]
      exact .nil _
  | call o k ih =>
    constructor
    · intro h
      obtain ⟨r, tr', rfl, h'⟩ := run_call.mp h
      obtain ⟨l, rfl, hrun⟩ := (ih (m.res o r)).mp h'
      exact ⟨⟨o, r⟩ :: l, rfl, .cons hrun⟩
    · rintro ⟨l, rfl, h⟩
      obtain ⟨r, tr', hl, h'⟩ := run_call.mp h
      obtain ⟨⟨o', r'⟩, l', rfl, hhead, rfl⟩ := List.map_eq_cons_iff.mp hl
      obtain rfl : o' = o := congrArg Event.op hhead
      obtain rfl : m.res o' r' = r := by simpa [Embeds.inner] using hhead
      exact .cons ((ih (m.res o' r')).mpr ⟨l', rfl, h'⟩)

/-- `run_embed` where every answer of `S` is an answer of `T`: the run itself, call by call. -/
theorem run_embed_iff {T : Sig} {m : Embeds S T} {lift : Event S → Event T}
    (houter : ∀ x, lift (m.inner x) = m.outer x) (hinner : Function.Surjective m.inner)
    {p : Prog S α} {tr : Trace T} {a : α} :
    Run (p.embed m) tr a ↔ ∃ tr₀ : Trace S, tr = tr₀.map lift ∧ Run p tr₀ a := by
  have hlift : ∀ l : List m.Answered, (l.map m.inner).map lift = l.map m.outer := by
    intro l
    rw [List.map_map]
    exact List.map_congr_left fun x _ => houter x
  refine run_embed.trans ⟨?_, ?_⟩
  · rintro ⟨l, rfl, h⟩
    exact ⟨l.map m.inner, (hlift l).symm, h⟩
  · rintro ⟨tr₀, rfl, h⟩
    obtain ⟨l, rfl⟩ : ∃ l : List m.Answered, l.map m.inner = tr₀ :=
      Function.Surjective.list_map hinner tr₀
    exact ⟨l, hlift l, h⟩

/-! ### Interfaces whose calls may end the program -/

/-- Every call of `S` is a call of `T`, whose answer is one for `S`, or ends the program. -/
structure Guards (S T : Sig) (β : Type) where
  op : S.Op → T.Op
  res : ∀ o, T.Res (op o) → Except β (S.Res o)

/-- The program over the interface whose calls may end it. -/
def guarded {T : Sig} {β : Type} (m : Guards S T β) : Prog S α → Prog T (Except β α)
  | ret a => ret (.ok a)
  | call o k => call (m.op o) fun r =>
    match m.res o r with
    | .error b => ret (.error b)
    | .ok r => (k r).guarded m

/-- The event of `T` is the one of `S`, with its answer read back. -/
def Guards.Reads {T : Sig} {β : Type} (m : Guards S T β) (e : Event S) (e' : Event T) : Prop :=
  ∃ r, e' = ⟨m.op e.op, r⟩ ∧ m.res e.op r = .ok e.res

/-! ### The calls of a program -/

/-- Whatever it is answered, the program issues only calls that satisfy `A`. -/
def Calls (A : S.Op → Prop) : Prog S α → Prop
  | ret _ => True
  | call o k => A o ∧ ∀ r, Calls A (k r)

theorem Calls.bind {A : S.Op → Prop} {p : Prog S α} {f : α → Prog S β} (hp : Calls A p)
    (hf : ∀ a, Calls A (f a)) : Calls A (p.bind f) := by
  induction p with
  | ret a => exact hf a
  | call o k ih => exact ⟨hp.1, fun r => ih r (hp.2 r)⟩

theorem Calls.imp {A B : S.Op → Prop} {p : Prog S α} (hp : Calls A p) (h : ∀ o, A o → B o) :
    Calls B p := by
  induction p with
  | ret a => trivial
  | call o k ih => exact ⟨h o hp.1, fun r => ih r (hp.2 r)⟩

/-- A program whose calls are all allowed, whatever the history. -/
theorem Calls.spec {A : S.Op → Prop} {p : Prog S α} (hp : Calls A p)
    (hA : ∀ h o, A o → C h o) : Spec C (fun _ _ => True) p h := by
  induction p generalizing h with
  | ret a => trivial
  | call o k ih => exact ⟨hA h o hp.1, fun r => ih r (hp.2 r)⟩

/-- The calls of a program over a wider interface. -/
theorem Calls.widen {T : Sig} {m : Embeds S T} {A : T.Op → Prop} {p : Prog S α}
    (hp : Calls (fun o => A (m.op o)) p) : Calls A (p.embed m) := by
  induction p with
  | ret a => trivial
  | call o k ih => exact ⟨hp.1, fun r => ih (m.res o r) (hp.2 _)⟩

/-- Where every call of the narrower interface is allowed, so is every program. -/
theorem Calls.embed {T : Sig} {m : Embeds S T} {A : T.Op → Prop} {p : Prog S α}
    (hA : ∀ o, A (m.op o)) : Calls A (p.embed m) := by
  induction p with
  | ret a => trivial
  | call o k ih => exact ⟨hA o, fun r => ih (m.res o r)⟩

/-- The calls of a run are calls of the program. -/
theorem Calls.of_run {A : S.Op → Prop} {p : Prog S α} {tr : Trace S} {a : α} (hp : Calls A p)
    (h : Run p tr a) {e : Event S} (he : e ∈ tr) : A e.op := by
  induction p generalizing tr with
  | ret b =>
    obtain ⟨rfl, -⟩ := run_ret.mp h
    exact absurd he List.not_mem_nil
  | call o k ih =>
    obtain ⟨r, tr', rfl, h'⟩ := run_call.mp h
    rcases List.mem_cons.mp he with rfl | he
    · exact hp.1
    · exact ih r (hp.2 r) h' he

end Prog

/-! ### Programs that may raise -/

/-- A program whose result may be an exception. -/
structure Raises (S : Sig) (ε α : Type) where
  run : Prog S (Except ε α)

namespace Raises

/-- Return a value. -/
def pure (a : α) : Raises S ε α := ⟨.ret (.ok a)⟩

/-- Sequencing that stops at the first exception. -/
def bind (p : Raises S ε α) (f : α → Raises S ε β) : Raises S ε β :=
  ⟨p.run.bind fun
    | .error e => .ret (.error e)
    | .ok a => (f a).run⟩

/-- Raise an exception. -/
def raise (e : ε) : Raises S ε α := ⟨.ret (.error e)⟩

/-- A computation without calls, which may raise. -/
def ofExcept (x : Except ε α) : Raises S ε α := ⟨.ret x⟩

/-- Run a program that does not raise. -/
def lift (p : Prog S α) : Raises S ε α := ⟨p.bind fun a => .ret (.ok a)⟩

/-- The program over a wider interface. -/
def embed {T : Sig} (m : Prog.Embeds S T) (p : Raises S ε α) : Raises T ε α := ⟨p.run.embed m⟩

/-- Run a program and hand its exception, if any, over as a value. -/
def attempt (p : Raises S ε α) : Raises S ε (Except ε α) := ⟨p.run.bind fun r => .ret (.ok r)⟩

instance : Monad (Raises S ε) where
  pure := pure
  bind := bind

theorem pure_def (a : α) : (Pure.pure a : Raises S ε α) = pure a := rfl

theorem bind_def (p : Raises S ε α) (f : α → Raises S ε β) : (p >>= f) = bind p f := rfl

theorem bind_assoc (p : Raises S ε α) (f : α → Raises S ε β) (g : β → Raises S ε γ) :
    (p >>= f) >>= g = p >>= fun a => f a >>= g := by
  simp only [bind_def, bind]
  rw [Prog.bind_assoc]
  congr 2
  funext r
  cases r <;> rfl

/-- `Prog.Spec` for programs that may raise: the postcondition reads the result or
the exception. -/
def Spec (C : Trace S → S.Op → Prop) (Q : Trace S → Except ε α → Prop)
    (p : Raises S ε α) (h : Trace S) : Prop :=
  Prog.Spec C Q p.run h

/-- `Prog.Run` for programs that may raise. -/
def Run (p : Raises S ε α) (tr : Trace S) (r : Except ε α) : Prop := Prog.Run p.run tr r

theorem run_pure {a : α} {tr : Trace S} {r : Except ε α} :
    Run (Pure.pure a) tr r ↔ tr = [] ∧ r = .ok a := Prog.run_ret

theorem run_raise {e : ε} {tr : Trace S} {r : Except ε α} :
    Run (raise e) tr r ↔ tr = [] ∧ r = .error e := Prog.run_ret

theorem run_ofExcept {x : Except ε α} {tr : Trace S} {r : Except ε α} :
    Run (ofExcept x) tr r ↔ tr = [] ∧ r = x := Prog.run_ret

/-- A sequence that returns is two programs that return. -/
theorem run_bind_ok {p : Raises S ε α} {f : α → Raises S ε β} {tr : Trace S} {b : β} :
    Run (p >>= f) tr (.ok b) ↔
      ∃ a tr₁ tr₂, tr = tr₁ ++ tr₂ ∧ Run p tr₁ (.ok a) ∧ Run (f a) tr₂ (.ok b) := by
  rw [bind_def, bind, Run, Prog.run_bind]
  constructor
  · rintro ⟨r, tr₁, tr₂, rfl, h₁, h₂⟩
    cases r with
    | error e => exact absurd (Prog.run_ret.mp h₂).2 (by simp)
    | ok a => exact ⟨a, tr₁, tr₂, rfl, h₁, h₂⟩
  · rintro ⟨a, tr₁, tr₂, rfl, h₁, h₂⟩
    exact ⟨.ok a, tr₁, tr₂, rfl, h₁, h₂⟩

/-- A sequence raises the first exception of its parts. -/
theorem run_bind {p : Raises S ε α} {f : α → Raises S ε β} {tr : Trace S} {r : Except ε β} :
    Run (p >>= f) tr r ↔
      (∃ e, Run p tr (.error e) ∧ r = .error e) ∨
      ∃ a tr₁ tr₂, tr = tr₁ ++ tr₂ ∧ Run p tr₁ (.ok a) ∧ Run (f a) tr₂ r := by
  rw [bind_def, bind, Run, Prog.run_bind]
  constructor
  · rintro ⟨r', tr₁, tr₂, rfl, h₁, h₂⟩
    cases r' with
    | error e =>
      obtain ⟨rfl, rfl⟩ := Prog.run_ret.mp h₂
      exact .inl ⟨e, by rwa [List.append_nil], rfl⟩
    | ok a => exact .inr ⟨a, tr₁, tr₂, rfl, h₁, h₂⟩
  · rintro (⟨e, h, rfl⟩ | ⟨a, tr₁, tr₂, rfl, h₁, h₂⟩)
    · exact ⟨.error e, tr, [], (List.append_nil tr).symm, h, .nil _⟩
    · exact ⟨.ok a, tr₁, tr₂, rfl, h₁, h₂⟩

theorem run_pure_ok {a b : α} {tr : Trace S} :
    Run (Pure.pure a : Raises S ε α) tr (.ok b) ↔ tr = [] ∧ b = a := by
  rw [run_pure, Except.ok.injEq]

/-- Handing the exception over as a value always returns. -/
theorem run_attempt_ok {p : Raises S ε α} {tr : Trace S} {r : Except ε α} :
    Run (attempt p) tr (.ok r) ↔ Run p tr r := by
  rw [attempt, Run, Prog.run_bind]
  constructor
  · rintro ⟨r', tr₁, tr₂, rfl, h₁, h₂⟩
    obtain ⟨rfl, hr⟩ := Prog.run_ret.mp h₂
    obtain rfl := Except.ok.inj hr
    rwa [List.append_nil]
  · intro h
    exact ⟨r, tr, [], by rw [List.append_nil], h, .nil _⟩

/-- What comes after a program whose exception is handed over. -/
theorem run_attempt_bind {p : Raises S ε α} {f : Except ε α → Raises S ε β} {tr : Trace S}
    {r : Except ε β} :
    Run (attempt p >>= f) tr r ↔ ∃ x tr₁ tr₂, tr = tr₁ ++ tr₂ ∧ Run p tr₁ x ∧ Run (f x) tr₂ r := by
  constructor
  · intro h
    rcases run_bind.mp h with ⟨e, hattempt, -⟩ | ⟨x, tr₁, tr₂, rfl, hp, hf⟩
    · obtain ⟨x, tr₁, tr₂, -, -, hret⟩ := Prog.run_bind.mp hattempt
      exact nomatch (Prog.run_ret.mp hret).2
    · exact ⟨x, tr₁, tr₂, rfl, run_attempt_ok.mp hp, hf⟩
  · rintro ⟨x, tr₁, tr₂, rfl, hp, hf⟩
    exact run_bind.mpr (.inr ⟨x, tr₁, tr₂, rfl, run_attempt_ok.mpr hp, hf⟩)

/-- A call that may raise: its answer is the result. -/
theorem run_invoke {o : S.Op} {tr : Trace S} {r : S.Res o} :
    Prog.Run (Prog.invoke o) tr r ↔ tr = [⟨o, r⟩] := by
  rw [Prog.invoke, Prog.run_call]
  constructor
  · rintro ⟨r', tr', rfl, h⟩
    obtain ⟨rfl, rfl⟩ := Prog.run_ret.mp h
    rfl
  · rintro rfl
    exact ⟨r, [], rfl, .nil _⟩

/-- A call that does not raise. -/
theorem run_lift_invoke_ok {o : S.Op} {tr : Trace S} {x : S.Res o} :
    Run (lift (Prog.invoke o) : Raises S ε (S.Res o)) tr (.ok x) ↔ tr = [⟨o, x⟩] := by
  rw [lift, Run, Prog.run_bind]
  constructor
  · rintro ⟨x', tr₁, tr₂, rfl, h₁, h₂⟩
    obtain rfl := run_invoke.mp h₁
    obtain ⟨rfl, hx⟩ := Prog.run_ret.mp h₂
    obtain rfl := Except.ok.inj hx
    rfl
  · rintro rfl
    exact ⟨x, [⟨o, x⟩], [], rfl, run_invoke.mpr rfl, .nil _⟩

/-- What comes after a call that does not raise. -/
theorem run_lift_bind {o : S.Op} {f : S.Res o → Raises S ε α} {tr : Trace S} {r : Except ε α} :
    Run (lift (Prog.invoke o) >>= f) tr r ↔ ∃ x tr', tr = ⟨o, x⟩ :: tr' ∧ Run (f x) tr' r := by
  constructor
  · intro h
    obtain ⟨x, tr', rfl, hrest⟩ := Prog.run_call.mp h
    exact ⟨x, tr', rfl, hrest⟩
  · rintro ⟨x, tr', rfl, hf⟩
    exact run_bind.mpr (.inr ⟨x, [⟨o, x⟩], tr', rfl, run_lift_invoke_ok.mpr rfl, hf⟩)

/-! ### Fixed answers -/

/-- The result of the program against fixed answers. -/
def result (answer : ∀ o, S.Res o) (p : Raises S ε α) : Except ε α := (p.run.exec answer).2

theorem run_result (answer : ∀ o, S.Res o) (p : Raises S ε α) :
    Run p (p.run.exec answer).1 (p.result answer) := Prog.run_exec answer p.run

/-- A run that returns a good value, found by running the program. -/
theorem run_of_returns {answer : Trace S → ∀ o, S.Res o} {h : Trace S} {p : Raises S ε α}
    {good : α → Bool} (hp : (p.run.execFrom answer h).2.returns good = true) :
    ∃ a, Run p (p.run.execFrom answer h).1 (.ok a) ∧ good a = true := by
  obtain ⟨a, hresult, hgood⟩ := Except.returns_iff.mp hp
  have hrun := Prog.run_execFrom answer h p.run
  rw [hresult] at hrun
  exact ⟨a, hrun, hgood⟩

section Result

variable {answer : ∀ o, S.Res o}

@[simp] theorem result_pure (a : α) : result answer (Pure.pure a : Raises S ε α) = .ok a := rfl

@[simp] theorem result_raise (e : ε) : result answer (raise e : Raises S ε α) = .error e := rfl

@[simp] theorem result_ofExcept (x : Except ε α) : result answer (ofExcept x : Raises S ε α) = x :=
  rfl

@[simp] theorem result_lift_invoke (o : S.Op) :
    result answer (lift (Prog.invoke o) : Raises S ε (S.Res o)) = .ok (answer o) := rfl

/-- Against fixed answers a program is a computation without calls. -/
@[simp] theorem result_bind (p : Raises S ε α) (f : α → Raises S ε β) :
    result answer (p >>= f) = result answer p >>= fun a => result answer (f a) := by
  rw [bind_def, bind, result, Prog.exec_bind, result]
  cases (p.run.exec answer).2 <;> rfl

@[simp] theorem result_attempt (p : Raises S ε α) :
    result answer (attempt p) = .ok (result answer p) := by
  rw [attempt, result, Prog.exec_bind]
  rfl

end Result

/-! ### Specifications -/

variable {C : Trace S → S.Op → Prop} {h : Trace S}

@[simp] theorem spec_pure {Q : Trace S → Except ε α → Prop} {a : α} :
    Spec C Q (Pure.pure a) h ↔ Q h (.ok a) := Iff.rfl

@[simp] theorem spec_raise {Q : Trace S → Except ε α → Prop} {e : ε} :
    Spec C Q (raise e) h ↔ Q h (.error e) := Iff.rfl

@[simp] theorem spec_ofExcept {Q : Trace S → Except ε α → Prop} {x : Except ε α} :
    Spec C Q (ofExcept x) h ↔ Q h x := Iff.rfl

theorem spec_bind {p : Raises S ε α} {f : α → Raises S ε β} {Q : Trace S → Except ε β → Prop} :
    Spec C Q (p >>= f) h ↔
      Spec C (fun h' r => match r with
        | .error e => Q h' (.error e)
        | .ok a => Spec C Q (f a) h') p h := by
  have hcont : ∀ (h' : Trace S) (r : Except ε α),
      Prog.Spec C Q (match r with
        | .error e => .ret (.error e)
        | .ok a => (f a).run) h' ↔
      (match r with
        | .error e => Q h' (.error e)
        | .ok a => Spec C Q (f a) h') := by
    intro h' r
    cases r <;> exact Iff.rfl
  rw [bind_def, bind, Spec, Prog.spec_bind]
  simp only [hcont]
  exact Iff.rfl

/-- The sequence rule for calls alone, with the run of the first half at hand. -/
theorem Spec.seq {p : Raises S ε α} {f : α → Raises S ε β}
    (hp : Spec C (fun _ _ => True) p h)
    (hf : ∀ tr a, Run p tr (.ok a) → Spec C (fun _ _ => True) (f a) (h ++ tr)) :
    Spec C (fun _ _ => True) (p >>= f) h := by
  refine Prog.Spec.seq hp fun tr r hrun => ?_
  cases r with
  | error e => trivial
  | ok a => exact hf tr a hrun

theorem spec_attempt {p : Raises S ε α} {Q : Trace S → Except ε (Except ε α) → Prop} :
    Spec C Q (attempt p) h ↔ Spec C (fun h' r => Q h' (.ok r)) p h := by
  rw [attempt, Spec, Prog.spec_bind]
  exact Iff.rfl

/-! ### The calls of a program -/

section Calls

variable {A : S.Op → Prop}

/-- `Prog.Calls` for programs that may raise. -/
def Calls (A : S.Op → Prop) (p : Raises S ε α) : Prop := Prog.Calls A p.run

@[simp] theorem calls_pure (a : α) : Calls A (Pure.pure a : Raises S ε α) := trivial

@[simp] theorem calls_raise (e : ε) : Calls A (raise e : Raises S ε α) := trivial

@[simp] theorem calls_ofExcept (x : Except ε α) : Calls A (ofExcept x : Raises S ε α) := trivial

theorem Calls.bind {p : Raises S ε α} {f : α → Raises S ε β} (hp : Calls A p)
    (hf : ∀ a, Calls A (f a)) : Calls A (p >>= f) := by
  refine Prog.Calls.bind hp fun r => ?_
  cases r with
  | error e => trivial
  | ok a => exact hf a

theorem Calls.embed {T : Sig} {m : Prog.Embeds S T} {A : T.Op → Prop} {p : Raises S ε α}
    (hA : ∀ o, A (m.op o)) : Calls A (p.embed m) := Prog.Calls.embed hA

theorem Calls.widen {T : Sig} {m : Prog.Embeds S T} {A : T.Op → Prop} {p : Raises S ε α}
    (hp : Calls (fun o => A (m.op o)) p) : Calls A (p.embed m) := Prog.Calls.widen hp

theorem Calls.attempt {p : Raises S ε α} (hp : Calls A p) : Calls A (attempt p) :=
  Prog.Calls.bind hp fun _ => trivial

/-- A call that may raise. -/
theorem calls_invoke {o : S.Op} (h : A o) {k : S.Res o → Except ε α} :
    Prog.Calls A (Prog.call o fun r => .ret (k r)) := ⟨h, fun _ => trivial⟩

/-- A call that does not raise. -/
theorem calls_lift_invoke {o : S.Op} (h : A o) :
    Calls A (lift (Prog.invoke o) : Raises S ε (S.Res o)) :=
  Prog.Calls.bind ⟨h, fun _ => trivial⟩ fun _ => trivial

end Calls

theorem run_embed {T : Sig} {m : Prog.Embeds S T} {p : Raises S ε α} {tr : Trace T}
    {r : Except ε α} :
    Run (p.embed m) tr r ↔
      ∃ l : List m.Answered, tr = l.map m.outer ∧ Run p (l.map m.inner) r := Prog.run_embed

/-! ### The answers that end a program -/

section StopsAt

variable {Bad : Event S → Prop}

/-- The program goes on after every answer but a bad one, which makes it raise at once. -/
def ProgStopsAt (Bad : Event S → Prop) : Prog S (Except ε α) → Prop
  | .ret (.ok _) => True
  | .ret (.error _) => False
  | .call o k => ∀ r, (Bad ⟨o, r⟩ → ∃ x, k r = .ret (.error x)) ∧
      (¬ Bad ⟨o, r⟩ → ProgStopsAt Bad (k r))

/-- `ProgStopsAt` for programs that may raise. -/
def StopsAt (Bad : Event S → Prop) (p : Raises S ε α) : Prop := ProgStopsAt Bad p.run

theorem stopsAt_pure (a : α) : StopsAt Bad (Pure.pure a : Raises S ε α) := trivial

theorem StopsAt.bind {p : Raises S ε α} {f : α → Raises S ε β} (hp : StopsAt Bad p)
    (hf : ∀ a, StopsAt Bad (f a)) : StopsAt Bad (p >>= f) := by
  obtain ⟨p⟩ := p
  change ProgStopsAt Bad (p.bind _)
  induction p with
  | ret r =>
    cases r with
    | error x => exact hp.elim
    | ok a => exact hf a
  | call o k ih =>
    refine fun r => ⟨fun hbad => ?_, fun hgood => ih r ((hp r).2 hgood)⟩
    obtain ⟨x, hx⟩ := (hp r).1 hbad
    refine ⟨x, ?_⟩
    change (k r).bind _ = _
    rw [hx]
    rfl

/-- A call that may raise, and whose exceptions are bad. -/
theorem stopsAt_mk {o : S.Op} {k : S.Res o → Except ε α}
    (h : ∀ r, Bad ⟨o, r⟩ ↔ ∃ x, k r = .error x) :
    StopsAt Bad (⟨.call o fun r => .ret (k r)⟩ : Raises S ε α) := by
  refine fun r => ⟨fun hbad => ?_, fun hgood => ?_⟩
  · obtain ⟨x, hx⟩ := (h r).mp hbad
    exact ⟨x, congrArg Prog.ret hx⟩
  · change ProgStopsAt Bad (.ret (k r))
    cases hk : k r with
    | ok a => trivial
    | error x => exact absurd ((h r).mpr ⟨x, hk⟩) hgood

/-- A call that does not raise. -/
theorem stopsAt_lift_invoke {o : S.Op} (h : ∀ r, ¬ Bad ⟨o, r⟩) :
    StopsAt Bad (lift (Prog.invoke o) : Raises S ε (S.Res o)) :=
  fun r => ⟨fun hbad => absurd hbad (h r), fun _ => trivial⟩

/-- A call whose exception is handed over as a value. -/
theorem stopsAt_attempt {o : S.Op} {k : S.Res o → Except ε α} {f : Except ε α → Raises S ε β}
    (hbad : ∀ r, Bad ⟨o, r⟩ → ∃ x, f (k r) = raise x)
    (hgood : ∀ r, ¬ Bad ⟨o, r⟩ → StopsAt Bad (f (k r))) :
    StopsAt Bad (attempt (⟨.call o fun r => .ret (k r)⟩ : Raises S ε α) >>= f) := by
  refine fun r => ⟨fun h => ?_, hgood r⟩
  obtain ⟨x, hx⟩ := hbad r h
  refine ⟨x, ?_⟩
  change (f (k r)).run = _
  rw [hx]
  rfl

theorem StopsAt.embed {T : Sig} {m : Prog.Embeds S T} {Bad' : Event T → Prop} {p : Raises S ε α}
    (hp : StopsAt Bad p) (h : ∀ o r, Bad' ⟨m.op o, r⟩ ↔ Bad ⟨o, m.res o r⟩) :
    StopsAt Bad' (p.embed m) := by
  obtain ⟨p⟩ := p
  change ProgStopsAt Bad' (p.embed m)
  induction p with
  | ret r =>
    cases r with
    | error x => exact hp.elim
    | ok a => trivial
  | call o k ih =>
    refine fun r => ⟨fun hbad => ?_, fun hgood => ?_⟩
    · obtain ⟨x, hx⟩ := (hp (m.res o r)).1 ((h o r).mp hbad)
      refine ⟨x, ?_⟩
      change (k (m.res o r)).embed m = _
      rw [hx]
      rfl
    · exact ih (m.res o r) ((hp (m.res o r)).2 fun hb => hgood ((h o r).mpr hb))

/-- What a run of such a program has met. -/
theorem StopsAt.run {p : Raises S ε α} (hp : StopsAt Bad p) {tr : Trace S} {r : Except ε α}
    (h : Run p tr r) :
    (∀ a, r = .ok a → ∀ e ∈ tr, ¬ Bad e) ∧
      ∀ x, r = .error x → ∃ pre e, tr = pre ++ [e] ∧ (∀ e' ∈ pre, ¬ Bad e') ∧ Bad e := by
  obtain ⟨p⟩ := p
  change Prog.Run p tr r at h
  induction p generalizing tr with
  | ret r' =>
    obtain ⟨rfl, rfl⟩ := Prog.run_ret.mp h
    refine ⟨fun _ _ e he => absurd he List.not_mem_nil, ?_⟩
    rintro x rfl
    exact hp.elim
  | call o k ih =>
    obtain ⟨r', tr', rfl, h'⟩ := Prog.run_call.mp h
    -- a bad event ends the program, and a good one leaves it to the rest
    by_cases hbad : Bad ⟨o, r'⟩
    · obtain ⟨x, hx⟩ := (hp r').1 hbad
      rw [hx] at h'
      obtain ⟨rfl, rfl⟩ := Prog.run_ret.mp h'
      refine ⟨fun a ha => absurd ha (by simp), fun y _ => ⟨[], _, rfl, ?_, hbad⟩⟩
      exact fun e he => absurd he List.not_mem_nil
    · obtain ⟨hok, herror⟩ := ih r' ((hp r').2 hbad) h'
      refine ⟨fun a ha => List.forall_mem_cons.mpr ⟨hbad, hok a ha⟩, fun x hx => ?_⟩
      obtain ⟨pre, e, rfl, hpre, he⟩ := herror x hx
      exact ⟨_ :: pre, e, rfl, List.forall_mem_cons.mpr ⟨hbad, hpre⟩, he⟩

end StopsAt

/-! ### Collaborators that keep to an answer -/

section Under

variable {G : Event S → Prop}

/-- As long as every call is answered as `G` says, the program ends as `Q` says. -/
def ProgUnder (G : Event S → Prop) (Q : α → Prop) : Prog S α → Prop
  | .ret a => Q a
  | .call o k => ∀ r, G ⟨o, r⟩ → ProgUnder G Q (k r)

/-- `ProgUnder` for programs that may raise. -/
def Under (G : Event S → Prop) (Q : Except ε α → Prop) (p : Raises S ε α) : Prop :=
  ProgUnder G Q p.run

variable {P Q : Except ε α → Prop} {R : Except ε β → Prop}

theorem ProgUnder.bind {A : Type} {p : Prog S α} {f : α → Prog S A} {P : α → Prop} {R : A → Prop}
    (hp : ProgUnder G P p) (hf : ∀ a, P a → ProgUnder G R (f a)) : ProgUnder G R (p.bind f) := by
  induction p with
  | ret a => exact hf a hp
  | call o k ih => exact fun r hr => ih r (hp r hr)

theorem ProgUnder.mono {p : Prog S α} {P Q : α → Prop} (hp : ProgUnder G P p)
    (h : ∀ a, P a → Q a) : ProgUnder G Q p := by
  induction p with
  | ret a => exact h a hp
  | call o k ih => exact fun r hr => ih r (hp r hr)

theorem under_pure {a : α} (h : Q (.ok a)) : Under G Q (Pure.pure a : Raises S ε α) := h

/-- **The sequence rule.** An exception of the first half is the result. -/
theorem Under.bind {p : Raises S ε α} {f : α → Raises S ε β} (hp : Under G P p)
    (herror : ∀ e, P (.error e) → R (.error e)) (hok : ∀ a, P (.ok a) → Under G R (f a)) :
    Under G R (p >>= f) := by
  refine ProgUnder.bind hp fun x hx => ?_
  cases x with
  | error e => exact herror e hx
  | ok a => exact hok a hx

/-- The sequence rule for a first half that returns. -/
theorem Under.bind_ok {p : Raises S ε α} {f : α → Raises S ε β} {P : α → Prop}
    (hp : Under G (fun x => ∃ a, x = .ok a ∧ P a) p) (hok : ∀ a, P a → Under G R (f a)) :
    Under G R (p >>= f) := by
  refine hp.bind (fun e he => ?_) fun a ha => ?_
  · obtain ⟨a, heq, -⟩ := he
    nomatch heq
  · obtain ⟨a', heq, ha'⟩ := ha
    obtain rfl := Except.ok.inj heq
    exact hok a ha'

theorem Under.mono {p : Raises S ε α} (hp : Under G P p) (h : ∀ x, P x → Q x) : Under G Q p :=
  ProgUnder.mono hp h

/-- Handing the exception over as a value. -/
theorem Under.attempt {p : Raises S ε α} (hp : Under G P p) :
    Under G (fun x => ∃ r, x = .ok r ∧ P r) (attempt p) :=
  ProgUnder.bind hp fun x hx => ⟨x, rfl, hx⟩

/-- Where the program makes only some calls, nothing is asked of the answers to others. -/
theorem Under.of_calls {A : S.Op → Prop} {G' : Event S → Prop} {p : Raises S ε α}
    (hp : Under G Q p) (hcalls : Calls A p) (h : ∀ o r, A o → G' ⟨o, r⟩ → G ⟨o, r⟩) :
    Under G' Q p := by
  obtain ⟨p⟩ := p
  change ProgUnder G' Q p
  induction p with
  | ret x => exact hp
  | call o k ih =>
    obtain ⟨ho, hrest⟩ : A o ∧ ∀ r, Prog.Calls A (k r) := hcalls
    exact fun r hr => ih r (hp r (h o r ho hr)) (hrest r)

theorem Under.embed {T : Sig} {m : Prog.Embeds S T} {G' : Event T → Prop} {p : Raises S ε α}
    (hp : Under G Q p) (h : ∀ o r, G' ⟨m.op o, r⟩ → G ⟨o, m.res o r⟩) :
    Under G' Q (p.embed m) := by
  obtain ⟨p⟩ := p
  change ProgUnder G' Q (p.embed m)
  induction p with
  | ret x => exact hp
  | call o k ih => exact fun r hr => ih (m.res o r) (hp (m.res o r) (h o r hr))

/-- **Adequacy.** Every run that is answered as `G` says ends as `Q` says. -/
theorem Under.run {p : Raises S ε α} (hp : Under G Q p) {tr : Trace S} {r : Except ε α}
    (h : Run p tr r) (hG : ∀ e ∈ tr, G e) : Q r := by
  obtain ⟨p⟩ := p
  change Prog.Run p tr r at h
  induction p generalizing tr with
  | ret x =>
    obtain ⟨rfl, rfl⟩ := Prog.run_ret.mp h
    exact hp
  | call o k ih =>
    obtain ⟨x, tr', rfl, h'⟩ := Prog.run_call.mp h
    obtain ⟨hhead, htail⟩ := List.forall_mem_cons.mp hG
    exact ih x htail (hp x hhead) h'

/-- Adequacy, the other way round. -/
theorem under_of_run {p : Raises S ε α} (h : ∀ tr r, Run p tr r → (∀ e ∈ tr, G e) → Q r) :
    Under G Q p := by
  obtain ⟨p⟩ := p
  change ProgUnder G Q p
  induction p with
  | ret x => exact h [] x (.nil _) fun e he => absurd he List.not_mem_nil
  | call o k ih =>
    refine fun r hr => ih r fun tr x hrun hG => ?_
    exact h _ x (.cons hrun) (List.forall_mem_cons.mpr ⟨hr, hG⟩)

end Under

end Raises

end Effects
