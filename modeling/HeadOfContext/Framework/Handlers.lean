import HeadOfContext.Framework.Prog

/-!
# Answering calls by programs

A collaborator of one program may be a program itself, over calls of its own. A `Handler S T`
answers each call of `S` by a program over `T`, and `Prog.handle` puts these programs in the
place of the calls. The runs of the result are known from the runs of the two
(`Prog.run_handle`): there is a run of the outer program, and for each call of it a run of the
handler that ends with its answer, one after the other (`Handler.Serves`).
-/

namespace Effects

/-- A program over `T` for every call of `S`. -/
abbrev Handler (S T : Sig) := ∀ o : S.Op, Prog T (S.Res o)

variable {S T : Sig} {α β ε : Type} {h : Handler S T}

/-- The calls over `T` are those that served the calls over `S`, in their order. -/
inductive Handler.Serves (h : Handler S T) : Trace S → Trace T → Prop
  | nil : Serves h [] []
  | cons {o : S.Op} {r : S.Res o} {tr : Trace S} {seg rest : Trace T} (hrun : Prog.Run (h o) seg r)
      (hrest : Serves h tr rest) : Serves h (⟨o, r⟩ :: tr) (seg ++ rest)

namespace Prog

/-- The program with the handler in the place of its calls. -/
def handle (h : Handler S T) : Prog S α → Prog T α
  | ret a => ret a
  | call o k => (h o).bind fun r => (k r).handle h

/-- **The runs of a handled program**: a run of the program, each call of it served. -/
theorem run_handle {p : Prog S α} {tr : Trace T} {a : α} :
    Run (p.handle h) tr a ↔ ∃ tr₀, h.Serves tr₀ tr ∧ Run p tr₀ a := by
  induction p generalizing tr with
  | ret b =>
    constructor
    · intro hrun
      obtain ⟨rfl, rfl⟩ := run_ret.mp hrun
      exact ⟨[], .nil, .nil _⟩
    · rintro ⟨tr₀, hserves, hrun⟩
      obtain ⟨rfl, rfl⟩ := run_ret.mp hrun
      cases hserves
      exact .nil _
  | call o k ih =>
    constructor
    · intro hrun
      obtain ⟨r, seg, rest, rfl, hseg, hrest⟩ := run_bind.mp hrun
      obtain ⟨tr₀, hserves, hk⟩ := (ih r).mp hrest
      exact ⟨⟨o, r⟩ :: tr₀, .cons hseg hserves, .cons hk⟩
    · rintro ⟨tr₀, hserves, hrun⟩
      obtain ⟨r, tr₁, rfl, hk⟩ := run_call.mp hrun
      cases hserves with
      | cons hseg hrest => exact run_bind.mpr ⟨r, _, _, rfl, hseg, (ih r).mpr ⟨tr₁, hrest, hk⟩⟩

/-- A handled program keeps a specification that each program of the handler keeps, whatever went
before. -/
theorem spec_handle {C : Trace T → T.Op → Prop} {p : Prog S α}
    (hh : ∀ o hist, Spec C (fun _ _ => True) (h o) hist) (hist : Trace T) :
    Spec C (fun _ _ => True) (p.handle h) hist := by
  induction p generalizing hist with
  | ret a => trivial
  | call o k ih => exact (hh o hist).seq fun tr r _ => ih r (hist ++ tr)

/-- Before each event of a run, the program was about to issue its call. -/
theorem Run.about {p : Prog S α} {pre post : Trace S} {e : Event S} {a : α}
    (hrun : Run p (pre ++ e :: post) a) : ∃ k, Path p pre (call e.op k) := by
  induction pre generalizing p with
  | nil =>
    cases p with
    | ret b => exact absurd (run_ret.mp hrun).1 (List.cons_ne_nil _ _)
    | call o k =>
      obtain ⟨r, tr, heq, -⟩ := run_call.mp hrun
      obtain rfl := (List.cons.inj heq).1
      exact ⟨k, .nil _⟩
  | cons e' pre ih =>
    cases p with
    | ret b => exact absurd (run_ret.mp hrun).1 (List.cons_ne_nil _ _)
    | call o k =>
      obtain ⟨r, tr, heq, hrest⟩ := run_call.mp hrun
      obtain ⟨rfl, rfl⟩ := List.cons.inj heq
      obtain ⟨k', hpath⟩ := ih hrest
      exact ⟨k', .cons hpath⟩

/-- A call that a program is about to issue is allowed by its specification. -/
theorem Spec.about {C : Trace S → S.Op → Prop} {Q : Trace S → α → Prop} {p : Prog S α}
    {tr : Trace S} {o : S.Op} {k : S.Res o → Prog S α} (hp : Spec C Q p [])
    (hpath : Path p tr (call o k)) : C tr o := (hp.path hpath).1

end Prog

namespace Handler

/-- A call that was served was served by a run of the handler, somewhere in the trace. -/
theorem Serves.mem {tr₀ : Trace S} {tr : Trace T} (hserves : h.Serves tr₀ tr) {e : Event S}
    (he : e ∈ tr₀) : ∃ pre seg post, tr = pre ++ seg ++ post ∧ Prog.Run (h e.op) seg e.res := by
  induction hserves with
  | nil => exact absurd he List.not_mem_nil
  | @cons o r tr₀ seg rest hrun _ ih =>
    rcases List.mem_cons.mp he with rfl | he
    · exact ⟨[], seg, rest, rfl, hrun⟩
    · obtain ⟨pre, seg', post, rfl, hrun'⟩ := ih he
      exact ⟨seg ++ pre, seg', post, by simp only [List.append_assoc], hrun'⟩

end Handler

namespace Raises

/-- The program that may raise, with the handler in the place of its calls. -/
def handle (h : Handler S T) (p : Raises S ε α) : Raises T ε α := ⟨p.run.handle h⟩

theorem run_handle {p : Raises S ε α} {tr : Trace T} {r : Except ε α} :
    Run (p.handle h) tr r ↔ ∃ tr₀, h.Serves tr₀ tr ∧ Run p tr₀ r := Prog.run_handle

/-- Where the handler answers as `G` says as long as its own calls are answered as `G'` says, so
does what depends on its answers. -/
theorem Under.handle {G : Event S → Prop} {G' : Event T → Prop} {Q : Except ε α → Prop}
    {p : Raises S ε α} (hp : Under G Q p)
    (hh : ∀ o, ProgUnder G' (fun r => G ⟨o, r⟩) (h o)) : Under G' Q (p.handle h) := by
  obtain ⟨p⟩ := p
  change ProgUnder G' Q (p.handle h)
  induction p with
  | ret x => exact hp
  | call o k ih => exact (hh o).bind fun r hr => ih r (hp r hr)

end Raises

end Effects
