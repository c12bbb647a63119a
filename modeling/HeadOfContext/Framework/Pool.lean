import HeadOfContext.Framework.Prog
import Mathlib.Data.List.Induction

/-!
# Concurrent calls over shared collaborators

The calls of a `Service` run concurrently: at any moment a client may start another call,
and any call that has not returned may issue its next call of the interface. The
collaborators are a state machine (`World`) which says what answers are possible, so one
call of the interface is atomic and everything between two of them is not.

A run is recorded as a list of `Moment`s, each with the state it found. The histories of the
calls are read off the record, so `Exec run s` says that `run` is a run that ends in the
state `s`. Two rules use it:

* `Exec.invariant`: what holds at the start and is preserved by every event holds of every
  run, where an event of a call may be assumed to obey the specification of its program;
* `Driver.exec_play`: a schedule that plays through is a run.
-/

namespace Effects

open Prog

/-- The collaborators: their state, and the answers a call can get in it, each with the
state after. -/
structure World (S : Sig) where
  State : Type
  init : State
  step : State → (o : S.Op) → S.Res o → State → Prop

/-- The calls that clients can make, and the program each runs. -/
structure Service (S : Sig) where
  Call : Type
  Out : Call → Type
  body : (c : Call) → Prog S (Out c)

variable {S : Sig}

namespace Service

/-- What happens at a moment: a call starts, or the call number `i` issues a call of the
interface and is answered. -/
inductive Label (V : Service S) where
  | spawn (c : V.Call)
  | event (i : ℕ) (e : Event S)

/-- A moment of a run: the state it finds, and what happens. -/
structure Moment (V : Service S) (W : World S) where
  before : W.State
  label : V.Label

variable {V : Service S} {W : World S}

/-- The calls that have started, in order. -/
def calls (run : List (V.Moment W)) : List V.Call :=
  run.filterMap fun m => match m.label with
    | .spawn c => some c
    | .event _ _ => none

/-- The history of the call number `i`. -/
def history (i : ℕ) (run : List (V.Moment W)) : Trace S :=
  run.filterMap fun m => match m.label with
    | .spawn _ => none
    | .event j e => if j = i then some e else none

/-- The states of a run that ends in `s`, in order. -/
def states (run : List (V.Moment W)) (s : W.State) : List W.State :=
  run.map Moment.before ++ [s]

/-- What can happen after `run`, in the state `s`. -/
inductive Step (V : Service S) (W : World S) (run : List (V.Moment W)) (s : W.State) :
    V.Label → W.State → Prop
  | spawn (c : V.Call) : Step V W run s (.spawn c) s
  | event {i : ℕ} {c : V.Call} {o : S.Op} {k : S.Res o → Prog S (V.Out c)} {r : S.Res o}
      {s' : W.State} (hcall : (calls run)[i]? = some c)
      (hpath : Path (V.body c) (history i run) (.call o k)) (hstep : W.step s o r s') :
      Step V W run s (.event i ⟨o, r⟩) s'

/-- The runs, with the state they end in. -/
inductive Exec (V : Service S) (W : World S) : List (V.Moment W) → W.State → Prop
  | start : Exec V W [] W.init
  | step {run : List (V.Moment W)} {s s' : W.State} {l : V.Label} (h : Exec V W run s)
      (hs : Step V W run s l s') : Exec V W (run ++ [⟨s, l⟩]) s'

/-- What an event does to the collaborators. -/
theorem Step.world {run : List (V.Moment W)} {s s' : W.State} {i : ℕ} {e : Event S}
    (hs : Step V W run s (.event i e) s') : W.step s e.op e.res s' := by
  cases hs with
  | event _ _ hstep => exact hstep

/-! ### Reading a run -/

@[simp] theorem calls_append {run run' : List (V.Moment W)} :
    calls (run ++ run') = calls run ++ calls run' := List.filterMap_append

@[simp] theorem history_append {i : ℕ} {run run' : List (V.Moment W)} :
    history i (run ++ run') = history i run ++ history i run' := List.filterMap_append

@[simp] theorem calls_spawn {s : W.State} {c : V.Call} :
    calls [(⟨s, .spawn c⟩ : V.Moment W)] = [c] := rfl

@[simp] theorem calls_event {s : W.State} {i : ℕ} {e : Event S} :
    calls [(⟨s, .event i e⟩ : V.Moment W)] = [] := rfl

@[simp] theorem history_spawn {s : W.State} {c : V.Call} {i : ℕ} :
    history i [(⟨s, .spawn c⟩ : V.Moment W)] = [] := rfl

@[simp] theorem history_self {s : W.State} {i : ℕ} {e : Event S} :
    history i [(⟨s, .event i e⟩ : V.Moment W)] = [e] := by
  simp [history]

theorem history_of_ne {s : W.State} {i j : ℕ} {e : Event S} (h : j ≠ i) :
    history i [(⟨s, .event j e⟩ : V.Moment W)] = [] := by
  simp [history, h]

theorem mem_history {i : ℕ} {e : Event S} {run : List (V.Moment W)} :
    e ∈ history i run ↔ ∃ s, ⟨s, .event i e⟩ ∈ run := by
  unfold history
  rw [List.mem_filterMap]
  constructor
  · rintro ⟨⟨s, l⟩, hm, hl⟩
    match l with
    | .spawn c => exact absurd hl (by simp)
    | .event j e' =>
      by_cases hj : j = i
      · subst hj
        simp only [if_true, Option.some.injEq] at hl
        subst hl
        exact ⟨s, hm⟩
      · simp [hj] at hl
  · rintro ⟨s, hm⟩
    exact ⟨_, hm, by simp⟩

/-- What an event adds to the histories. -/
theorem mem_history_event {i j : ℕ} {e e' : Event S} {s : W.State} {run : List (V.Moment W)} :
    e' ∈ history j (run ++ [⟨s, .event i e⟩]) ↔ e' ∈ history j run ∨ (i = j ∧ e' = e) := by
  rw [history_append, List.mem_append]
  rcases eq_or_ne i j with rfl | hne
  · simp
  · simp [history_of_ne hne, hne]

/-- A call that has started keeps its number. -/
theorem calls_getElem?_append {run run' : List (V.Moment W)} {i : ℕ} {c : V.Call}
    (h : (calls run)[i]? = some c) : (calls (run ++ run'))[i]? = some c := by
  obtain ⟨hi, -⟩ := List.getElem?_eq_some_iff.mp h
  rw [calls_append, List.getElem?_append_left hi, h]

/-- An event starts no call. -/
theorem calls_getElem?_event {run : List (V.Moment W)} {s : W.State} {i j : ℕ} {e : Event S}
    {c : V.Call} (h : (calls (run ++ [⟨s, .event i e⟩]))[j]? = some c) :
    (calls run)[j]? = some c := by
  rwa [calls_append, calls_event, List.append_nil] at h

/-- The states of a longer run. -/
theorem states_snoc {run : List (V.Moment W)} {s s' : W.State} {l : V.Label} :
    states (run ++ [⟨s, l⟩]) s' = states run s ++ [s'] := by
  simp [states]

/-- What a run has done before one of its moments, and what the moment did. -/
theorem Exec.split {run pre post : List (V.Moment W)} {m : V.Moment W} {s : W.State}
    (h : Exec V W run s) (hrun : run = pre ++ m :: post) :
    Exec V W pre m.before ∧ ∃ s', Step V W pre m.before m.label s' := by
  induction h generalizing post with
  | start => simp at hrun
  | @step run s s' l h hs ih =>
    rcases List.eq_nil_or_concat post with rfl | ⟨post', m', rfl⟩
    · obtain ⟨rfl, hm⟩ := List.append_inj' hrun rfl
      obtain rfl := List.cons.inj hm |>.1
      exact ⟨h, s', hs⟩
    · rw [List.concat_eq_append, ← List.cons_append, ← List.append_assoc] at hrun
      obtain ⟨hrun', -⟩ := List.append_inj' hrun rfl
      exact ih hrun'

/-- Every state of a run is the end of a shorter one. -/
theorem Exec.of_mem_states {run : List (V.Moment W)} {s s' : W.State} (h : Exec V W run s)
    (hs : s' ∈ states run s) : ∃ pre post, run = pre ++ post ∧ Exec V W pre s' := by
  rcases List.mem_append.mp hs with hbefore | hlast
  · obtain ⟨m, hm, rfl⟩ := List.mem_map.mp hbefore
    obtain ⟨pre, post, rfl⟩ := List.append_of_mem hm
    exact ⟨pre, m :: post, rfl, (h.split rfl).1⟩
  · obtain rfl := List.mem_singleton.mp hlast
    exact ⟨run, [], (List.append_nil run).symm, h⟩

/-- The run up to a moment goes on to one of the states of the whole run. -/
theorem Exec.of_prefix {run pre post : List (V.Moment W)} {s : W.State} (h : Exec V W run s)
    (hrun : run = pre ++ post) : ∃ s' ∈ states run s, Exec V W pre s' := by
  induction h generalizing post with
  | start =>
    obtain ⟨rfl, rfl⟩ := List.append_eq_nil_iff.mp hrun.symm
    exact ⟨W.init, List.mem_singleton.mpr rfl, .start⟩
  | @step run s s' l h hs ih =>
    rw [states_snoc]
    rcases List.eq_nil_or_concat post with rfl | ⟨post', m, rfl⟩
    · rw [List.append_nil] at hrun
      exact ⟨s', List.mem_append_right _ (List.mem_singleton.mpr rfl), hrun ▸ .step h hs⟩
    · rw [List.concat_eq_append, ← List.append_assoc] at hrun
      obtain ⟨s₀, hmem, hpre⟩ := ih (List.append_inj' hrun rfl).1
      exact ⟨s₀, List.mem_append_left _ hmem, hpre⟩

/-- The last moment of a run. -/
theorem Exec.last {run : List (V.Moment W)} {m : V.Moment W} {s : W.State}
    (h : Exec V W (run ++ [m]) s) : Exec V W run m.before ∧ Step V W run m.before m.label s := by
  generalize hrun : run ++ [m] = run' at h
  cases h with
  | start => simp at hrun
  | step h hs =>
    obtain ⟨rfl, hm⟩ := List.append_inj' hrun rfl
    obtain rfl := List.singleton_inj.mp hm
    exact ⟨h, hs⟩

/-- A call with a history has started. -/
theorem Exec.started {run : List (V.Moment W)} {s : W.State} {i : ℕ} {e : Event S}
    (h : Exec V W run s) (he : e ∈ history i run) : ∃ c, (calls run)[i]? = some c := by
  obtain ⟨s₀, hmem⟩ := mem_history.mp he
  obtain ⟨pre, post, rfl⟩ := List.append_of_mem hmem
  obtain ⟨-, s', hs⟩ := h.split rfl
  cases hs with
  | event hcall _ _ => exact ⟨_, calls_getElem?_append hcall⟩

/-- A call that has returned issues nothing more. -/
theorem Exec.history_returned {run post : List (V.Moment W)} {s : W.State}
    (h : Exec V W (run ++ post) s) {i : ℕ} {c : V.Call} {a : V.Out c}
    (hcall : (calls run)[i]? = some c) (hret : Run (V.body c) (history i run) a) :
    history i (run ++ post) = history i run := by
  induction post using List.reverseRecOn generalizing s with
  | nil => rw [List.append_nil]
  | append_singleton post m ih =>
    rw [← List.append_assoc] at h ⊢
    obtain ⟨h', s', hs⟩ := h.split rfl
    have hhist := ih h'
    rw [history_append, hhist]
    obtain ⟨s₀, l⟩ := m
    cases hs with
    | spawn c => rw [history_spawn, List.append_nil]
    | @event j c' o k r s' hcall' hpath hstep =>
      rcases eq_or_ne j i with rfl | hne
      · -- the same call, with nothing left to issue
        rw [calls_getElem?_append hcall] at hcall'
        obtain rfl := Option.some.inj hcall'
        rw [hhist] at hpath
        exact absurd (Path.unique hret hpath) (by simp)
      · rw [history_of_ne hne, List.append_nil]

/-! ### Invariants -/

/-- **The invariant rule.** An event may be assumed to obey the specification of the call it
belongs to, given what that call has done and been told before. -/
theorem Exec.invariant {C : V.Call → Trace S → S.Op → Prop}
    (hbody : ∀ c, Prog.Spec (C c) (fun _ _ => True) (V.body c) [])
    {I : List (V.Moment W) → W.State → Prop} (hstart : I [] W.init)
    (hspawn : ∀ run s c, Exec V W run s → I run s → I (run ++ [⟨s, .spawn c⟩]) s)
    (hevent : ∀ run s i c o r s', Exec V W run s → I run s → (calls run)[i]? = some c →
      C c (history i run) o → W.step s o r s' → I (run ++ [⟨s, .event i ⟨o, r⟩⟩]) s')
    {run : List (V.Moment W)} {s : W.State} (h : Exec V W run s) : I run s := by
  induction h with
  | start => exact hstart
  | step h hs ih =>
    cases hs with
    | spawn c => exact hspawn _ _ c h ih
    | event hcall hpath hstep =>
      refine hevent _ _ _ _ _ _ _ h ih hcall ?_ hstep
      have hspec := (hbody _).path hpath
      rw [List.nil_append] at hspec
      exact hspec.1

/-- Every event of a run obeys the specification of the call it belongs to. -/
theorem Exec.obeys {C : V.Call → Trace S → S.Op → Prop}
    (hbody : ∀ c, Prog.Spec (C c) (fun _ _ => True) (V.body c) [])
    {run pre post : List (V.Moment W)} {s s₀ : W.State} {i : ℕ} {e : Event S}
    (h : Exec V W run s) (hrun : run = pre ++ ⟨s₀, .event i e⟩ :: post) :
    ∃ c, (calls pre)[i]? = some c ∧ C c (history i pre) e.op ∧
      ∃ s', W.step s₀ e.op e.res s' := by
  obtain ⟨-, s', hs⟩ := h.split hrun
  cases hs with
  | event hcall hpath hstep =>
    refine ⟨_, hcall, ?_, s', hstep⟩
    have hspec := (hbody _).path hpath
    rw [List.nil_append] at hspec
    exact hspec.1

/-- A move of a schedule: start a call, or let a call issue its next call. -/
inductive Move (V : Service S) where
  | spawn (c : V.Call)
  | next (i : ℕ)

/-- Collaborators that answer in one way, where they can. -/
structure Driver (W : World S) where
  answer : W.State → ∀ o, S.Res o
  after : W.State → S.Op → Option W.State
  sound : ∀ {s o s'}, after s o = some s' → W.step s o (answer s o) s'

/-- A run being played: its record, its state, and what remains of every call. -/
structure Pool (V : Service S) (W : World S) where
  run : List (V.Moment W)
  state : W.State
  threads : List (Σ c, Prog S (V.Out c))

/-- Before the first move. -/
def Pool.start (V : Service S) (W : World S) : Pool V W := ⟨[], W.init, []⟩

namespace Driver

variable (d : Driver W)

/-- One move; a call that has returned stays as it is. -/
def move (p : Pool V W) : V.Move → Option (Pool V W)
  | .spawn c => some ⟨p.run ++ [⟨p.state, .spawn c⟩], p.state, p.threads ++ [⟨c, V.body c⟩]⟩
  | .next i =>
    match p.threads[i]? with
    | some ⟨c, .call o k⟩ =>
      match d.after p.state o with
      | some s' => some ⟨p.run ++ [⟨p.state, .event i ⟨o, d.answer p.state o⟩⟩], s',
          p.threads.set i ⟨c, k (d.answer p.state o)⟩⟩
      | none => none
    | _ => some p

/-- The moves of a schedule, in order. -/
def play : Pool V W → List V.Move → Option (Pool V W)
  | p, [] => some p
  | p, m :: rest =>
    match d.move p m with
    | some p' => play p' rest
    | none => none

end Driver

/-- What playing keeps true: the record is a run, and what remains of a call is what its
program becomes along its history. -/
structure Pool.Sound (p : Pool V W) : Prop where
  exec : Exec V W p.run p.state
  calls_eq : p.threads.map Sigma.fst = calls p.run
  path : ∀ {i c q}, p.threads[i]? = some ⟨c, q⟩ → Path (V.body c) (history i p.run) q

theorem Pool.Sound.calls_of {p : Pool V W} (hp : p.Sound) {i : ℕ}
    {t : Σ c, Prog S (V.Out c)} (h : p.threads[i]? = some t) : (calls p.run)[i]? = some t.1 := by
  rw [← hp.calls_eq, List.getElem?_map, h]
  rfl

/-- No call has a history before it starts. -/
theorem Exec.history_nil {run : List (V.Moment W)} {s : W.State} (h : Exec V W run s) {i : ℕ}
    (hi : (calls run).length ≤ i) : history i run = [] := by
  induction h with
  | start => rfl
  | @step run s s' l h hs ih =>
    rw [history_append]
    cases hs with
    | spawn c =>
      rw [calls_append, List.length_append] at hi
      rw [ih (Nat.le_trans (Nat.le_add_right _ _) hi), history_spawn, List.append_nil]
    | @event j c o k r s' hcall hpath hstep =>
      rw [calls_append, calls_event, List.append_nil] at hi
      obtain ⟨hj, -⟩ := List.getElem?_eq_some_iff.mp hcall
      rw [ih hi, history_of_ne (by omega), List.append_nil]

theorem Driver.sound_move {d : Driver W} {p p' : Pool V W} {m : V.Move} (hp : p.Sound)
    (h : d.move p m = some p') : p'.Sound := by
  cases m with
  | spawn c =>
    obtain rfl := Option.some.inj h
    refine ⟨hp.exec.step (.spawn c), by simp [hp.calls_eq], ?_⟩
    intro i c' q hi
    simp only [history_append, history_spawn, List.append_nil]
    rcases Nat.lt_or_ge i p.threads.length with hlt | hge
    · rw [List.getElem?_append_left hlt] at hi
      exact hp.path hi
    · -- the call that has just started
      rw [List.getElem?_append_right hge, List.getElem?_singleton] at hi
      split_ifs at hi with hzero
      cases hi
      have hlen : (calls p.run).length ≤ i := by rw [← hp.calls_eq, List.length_map]; exact hge
      rw [hp.exec.history_nil hlen]
      exact .nil _
  | next i =>
    -- the thread runs its next call; the history of no other thread changes
    match ht : p.threads[i]? with
    | none =>
      simp only [Driver.move, ht] at h
      obtain rfl := Option.some.inj h
      exact hp
    | some ⟨c, .ret a⟩ =>
      simp only [Driver.move, ht] at h
      obtain rfl := Option.some.inj h
      exact hp
    | some ⟨c, .call o k⟩ =>
      match ha : d.after p.state o with
      | none => simp [Driver.move, ht, ha] at h
      | some s' =>
        simp only [Driver.move, ht, ha] at h
        obtain rfl := Option.some.inj h
        have hi : i < p.threads.length := (List.getElem?_eq_some_iff.mp ht).1
        have hcall : (calls p.run)[i]? = some c := hp.calls_of ht
        refine ⟨hp.exec.step (.event hcall (hp.path ht) (d.sound ha)), ?_, ?_⟩
        · -- a move of a thread keeps the calls that were started
          rw [calls_append, calls_event, List.append_nil, ← hp.calls_eq, List.map_set]
          refine List.ext_getElem? fun j => ?_
          rcases eq_or_ne i j with rfl | hj
          · rw [List.getElem?_set_self (by simpa using hi), List.getElem?_map, ht]
            rfl
          · rw [List.getElem?_set_ne hj]
        · -- the thread that moved has one event more, the others have what they had
          intro j c' q hj
          rw [history_append]
          rcases eq_or_ne i j with rfl | hne
          · rw [List.getElem?_set_self hi] at hj
            cases hj
            rw [history_self]
            exact (hp.path ht).snoc _
          · rw [List.getElem?_set_ne hne] at hj
            rw [history_of_ne hne, List.append_nil]
            exact hp.path hj

/-- **A schedule that plays through is a run.** -/
theorem Driver.sound_play {d : Driver W} {p p' : Pool V W} {moves : List V.Move} (hp : p.Sound)
    (h : d.play p moves = some p') : p'.Sound := by
  induction moves generalizing p with
  | nil =>
    obtain rfl := Option.some.inj h
    exact hp
  | cons m rest ih =>
    unfold Driver.play at h
    match hm : d.move p m with
    | none => rw [hm] at h; exact absurd h (by simp)
    | some p₁ =>
      rw [hm] at h
      exact ih (Driver.sound_move hp hm) h

theorem Driver.run_next {d : Driver W} {p p' : Pool V W} {i : ℕ}
    (h : d.move p (.next i) = some p') : ∃ post, p'.run = p.run ++ post ∧ calls post = [] := by
  match ht : p.threads[i]? with
  | none =>
    simp only [Driver.move, ht] at h
    obtain rfl := Option.some.inj h
    exact ⟨[], (List.append_nil _).symm, rfl⟩
  | some ⟨c, .ret a⟩ =>
    simp only [Driver.move, ht] at h
    obtain rfl := Option.some.inj h
    exact ⟨[], (List.append_nil _).symm, rfl⟩
  | some ⟨c, .call o k⟩ =>
    match ha : d.after p.state o with
    | none => simp [Driver.move, ht, ha] at h
    | some s' =>
      simp only [Driver.move, ht, ha] at h
      obtain rfl := Option.some.inj h
      exact ⟨_, rfl, rfl⟩

/-- Letting calls go on starts no call. -/
theorem Driver.run_play_next {d : Driver W} {p p' : Pool V W} {is : List ℕ}
    (h : d.play p (is.map .next) = some p') :
    ∃ post, p'.run = p.run ++ post ∧ calls post = [] := by
  induction is generalizing p with
  | nil =>
    obtain rfl := Option.some.inj h
    exact ⟨[], (List.append_nil _).symm, rfl⟩
  | cons i rest ih =>
    rw [List.map_cons, Driver.play] at h
    match hm : d.move p (.next i) with
    | none => rw [hm] at h; exact absurd h (by simp)
    | some p₁ =>
      rw [hm] at h
      obtain ⟨post, hpost, hcalls⟩ := Driver.run_next hm
      obtain ⟨post', hpost', hcalls'⟩ := ih h
      refine ⟨post ++ post', ?_, by rw [calls_append, hcalls, hcalls']; rfl⟩
      rw [hpost', hpost, List.append_assoc]

theorem Pool.sound_start : (Pool.start V W).Sound :=
  ⟨.start, rfl, fun h => absurd h (by simp [Pool.start])⟩

/-- Start the call and let it go on alone for at most `n` calls of the interface. -/
def Driver.alone (d : Driver W) (p : Pool V W) (c : V.Call) (n : ℕ) : Option (Pool V W) :=
  d.play p (.spawn c :: (List.replicate n p.threads.length).map .next)

/-- What such a call adds to the record. -/
theorem Driver.run_alone {d : Driver W} {p p' : Pool V W} {c : V.Call} {n : ℕ}
    (h : d.alone p c n = some p') :
    ∃ post, p'.run = p.run ++ [⟨p.state, .spawn c⟩] ++ post ∧ calls post = [] :=
  Driver.run_play_next h

/-- It is the last call of the pool. -/
theorem Driver.last_alone {d : Driver W} {p p' : Pool V W} {c : V.Call} {n : ℕ} (hp : p'.Sound)
    (h : d.alone p c n = some p') : (calls p'.run)[p'.threads.length - 1]? = some c := by
  obtain ⟨post, hrun, hcalls⟩ := Driver.run_alone h
  have hall : calls p'.run = calls p.run ++ [c] := by
    rw [hrun, calls_append, calls_append, calls_spawn, hcalls, List.append_nil]
  have hlen : p'.threads.length = (calls p.run).length + 1 := by
    rw [← List.length_map Sigma.fst, hp.calls_eq, hall, List.length_append, List.length_singleton]
  rw [hall, hlen, Nat.add_sub_cancel, List.getElem?_concat_length]

/-- A call that has returned in the pool has returned in the run. -/
theorem Pool.Sound.returned {p : Pool V W} (hp : p.Sound) {i : ℕ} {c : V.Call} {a : V.Out c}
    (h : p.threads[i]? = some ⟨c, .ret a⟩) : Run (V.body c) (history i p.run) a := hp.path h

end Service

end Effects
