import HeadOfContext.Framework.Pool

/-!
# Services inside services

The programs of a service over a wide interface may run the calls of a service over a part of it:
between other calls of its own, such a host runs a call of the guest, then another one. `Hosts`
says that a program is of this form, and which guest calls it may run after what history.

The runs of the host, seen at the guest's collaborators, are runs of the guest (`Exec.guest`): its
calls run concurrently as the hosts do, each call of the guest belongs to one of the host, and its
history is a segment of the host's. So what is known of every run of the guest is known of what
the hosts do to the guest's collaborators.

* A call of the wide interface that is not made for the guest is a *stray* one. It may be a call
  of the guest's interface too, where it does not matter to the guest's collaborators.
* `Simulates` relates the states of the two worlds: a stray call keeps them related, and a call
  made for the guest is one that the guest's world allows.
-/

namespace Effects

open Prog

variable {S T : Sig}

/-! ### Wider interfaces -/

namespace Prog

/-- A part of a part. -/
def Embeds.comp {U : Sig} (m : Embeds S T) (n : Embeds T U) : Embeds S U where
  op o := n.op (m.op o)
  res o r := m.res o (n.res (m.op o) r)

theorem embed_embed {α : Type} {U : Sig} (m : Embeds S T) (n : Embeds T U) (p : Prog S α) :
    (p.embed m).embed n = p.embed (m.comp n) := by
  induction p with
  | ret a => rfl
  | call o k ih => exact congrArg (call _) (funext fun r => ih _)

theorem embed_bind {α β : Type} (m : Embeds S T) (p : Prog S α) (f : α → Prog S β) :
    (p.bind f).embed m = (p.embed m).bind fun a => (f a).embed m := by
  induction p with
  | ret a => rfl
  | call o k ih => exact congrArg (call _) (funext fun r => ih _)

end Prog

theorem Raises.embed_bind {ε α β : Type} (m : Embeds S T) (p : Raises S ε α)
    (f : α → Raises S ε β) : (p >>= f).embed m = p.embed m >>= fun a => (f a).embed m := by
  refine congrArg Raises.mk ((Prog.embed_bind m p.run _).trans ?_)
  refine congrArg (Prog.bind _) (funext fun r => ?_)
  cases r <;> rfl

/-! ### Programs that host calls -/

/-- The program, started with the history `h`, makes stray calls and runs calls of `V`, each of
them allowed by `Auth` after the history before it. -/
inductive Hosts (m : Embeds S T) (V : Service S) (Stray : T.Op → Prop)
    (Auth : V.Call → Trace T → Prop) {α : Type} : Prog T α → Trace T → Prop
  | ret (a : α) (h : Trace T) : Hosts m V Stray Auth (.ret a) h
  | stray {o : T.Op} {k : T.Res o → Prog T α} {h : Trace T} (ho : Stray o)
      (hk : ∀ r, Hosts m V Stray Auth (k r) (h ++ [⟨o, r⟩])) : Hosts m V Stray Auth (.call o k) h
  | served {c : V.Call} {f : V.Out c → Prog T α} {h : Trace T} (hc : Auth c h)
      (hf : ∀ tr a, Run ((V.body c).embed m) tr a → Hosts m V Stray Auth (f a) (h ++ tr)) :
      Hosts m V Stray Auth (((V.body c).embed m).bind f) h

namespace Hosts

variable {m : Embeds S T} {V : Service S} {Stray : T.Op → Prop} {Auth : V.Call → Trace T → Prop}
  {α β ε : Type} {h : Trace T}

/-- A program of stray calls. -/
theorem of_calls {p : Prog T α} (hp : Prog.Calls Stray p) : Hosts m V Stray Auth p h := by
  induction p generalizing h with
  | ret a => exact .ret a h
  | call o k ih => exact .stray hp.1 fun r => ih r (hp.2 r)

/-- One call of the guest. -/
theorem one {c : V.Call} (hc : Auth c h) : Hosts m V Stray Auth ((V.body c).embed m) h := by
  have hserved : Hosts m V Stray Auth (((V.body c).embed m).bind .ret) h :=
    .served hc fun tr a _ => .ret a (h ++ tr)
  rwa [bind_ret] at hserved

/-- **The sequence rule**, with the run of the first half at hand for the second. -/
theorem bind {p : Prog T α} {f : α → Prog T β} (hp : Hosts m V Stray Auth p h)
    (hf : ∀ tr a, Run p tr a → Hosts m V Stray Auth (f a) (h ++ tr)) :
    Hosts m V Stray Auth (p.bind f) h := by
  -- the induction is on the first half; each of its events goes before the run that is at hand
  induction hp with
  | ret a h =>
    have hfirst := hf [] a (.nil _)
    rwa [List.append_nil] at hfirst
  | @stray o k h ho _ ih =>
    refine .stray ho fun r => ih r fun tr a hrun => ?_
    have hrest := hf (⟨o, r⟩ :: tr) a (.cons hrun)
    rwa [← List.append_cons]
  | @served c g h hc _ ih =>
    rw [bind_assoc]
    refine .served hc fun tr b hrun => ih tr b hrun fun tr' a hrun' => ?_
    have hrest := hf (tr ++ tr') a (run_bind.mpr ⟨b, tr, tr', rfl, hrun, hrun'⟩)
    rwa [List.append_assoc]

/-- The sequence rule for programs that may raise. -/
theorem seq {p : Raises T ε α} {f : α → Raises T ε β} (hp : Hosts m V Stray Auth p.run h)
    (hf : ∀ tr a, Raises.Run p tr (.ok a) → Hosts m V Stray Auth (f a).run (h ++ tr)) :
    Hosts m V Stray Auth (p >>= f).run h := by
  refine hp.bind fun tr r hrun => ?_
  cases r with
  | error e => exact .ret _ _
  | ok a => exact hf tr a hrun

/-- **What the next call of a host is**: a stray one, or the first one of a call of the guest. -/
theorem next {p : Prog T α} {o : T.Op} {k : T.Res o → Prog T α} (hp : Hosts m V Stray Auth p h)
    (heq : p = .call o k) :
    (Stray o ∧ ∀ r, Hosts m V Stray Auth (k r) (h ++ [⟨o, r⟩])) ∨
      ∃ (c : V.Call) (f : V.Out c → Prog T α) (o' : S.Op) (k' : S.Res o' → Prog S (V.Out c)),
        V.body c = .call o' k' ∧ Auth c h ∧ p = ((V.body c).embed m).bind f ∧
        ∀ tr a, Run ((V.body c).embed m) tr a → Hosts m V Stray Auth (f a) (h ++ tr) := by
  induction hp with
  | ret a h => exact nomatch heq
  | @stray o' k' h ho hk _ =>
    cases heq
    exact .inl ⟨ho, hk⟩
  | @served c f h hc hf ih =>
    -- a call of the guest that calls nothing is passed over
    cases hbody : V.body c with
    | ret a =>
      have hrun : Run ((V.body c).embed m) [] a := by
        rw [hbody]
        exact .nil _
      have hrest := ih [] a hrun
      rw [List.append_nil] at hrest
      rw [hbody] at heq
      rw [← hbody] at heq ⊢
      have hp : ((V.body c).embed m).bind f = f a := by rw [hbody]; rfl
      rw [hp] at heq ⊢
      exact hrest heq
    | call o' k' =>
      right
      rw [← hbody]
      exact ⟨c, f, o', k', hbody, hc, rfl, hf⟩

end Hosts

/-! ### The two worlds -/

/-- The states of the collaborators of the host and of the guest are related. -/
structure Simulates (m : Embeds S T) (Stray : T.Op → Prop) (Ŵ : World T) (W : World S)
    (R : Ŵ.State → W.State → Prop) : Prop where
  init : R Ŵ.init W.init
  stray : ∀ {s s' t o r}, Stray o → Ŵ.step s o r s' → R s t → R s' t
  served : ∀ {s s' t o r}, Ŵ.step s (m.op o) r s' → R s t →
    ∃ t', W.step t o (m.res o r) t' ∧ R s' t'

namespace Service

variable {m : Embeds S T} {V : Service S} {H : Service T} {Stray : T.Op → Prop}
  {Auth : H.Call → V.Call → Trace T → Prop} {W : World S} {Ŵ : World T}
  {R : Ŵ.State → W.State → Prop}

/-- The call number `j` of the guest belongs to the call number `i` of the host: the host was
allowed to run it, and its history is a segment of the host's. -/
def Belongs (m : Embeds S T) (Auth : H.Call → V.Call → Trace T → Prop)
    (run : List (H.Moment Ŵ)) (run' : List (V.Moment W)) (i j : ℕ) : Prop :=
  ∃ b c h l rest, (calls run)[i]? = some b ∧ (calls run')[j]? = some c ∧ Auth b c h ∧
    history i run = h ++ List.map m.outer l ++ rest ∧ history j run' = List.map m.inner l

/-- For whom a call of the guest was made. -/
theorem Belongs.auth {run : List (H.Moment Ŵ)} {run' : List (V.Moment W)} {i j : ℕ} {c : V.Call}
    (h : Belongs m Auth run run' i j) (hc : (calls run')[j]? = some c) :
    ∃ b h₀, (calls run)[i]? = some b ∧ h₀ ⊆ history i run ∧ Auth b c h₀ := by
  obtain ⟨b, c', h₀, l, rest, hi, hj, hauth, hhist, -⟩ := h
  obtain rfl := Option.some.inj (hj.symm.trans hc)
  refine ⟨b, h₀, hi, ?_, hauth⟩
  rw [hhist]
  exact fun e he => List.mem_append_left _ (List.mem_append_left _ he)

/-- What the guest has called, its host has called for it. -/
theorem Belongs.outer_mem {run : List (H.Moment Ŵ)} {run' : List (V.Moment W)} {i j : ℕ}
    {e : Event S} (h : Belongs m Auth run run' i j) (he : e ∈ history j run') :
    ∃ x, m.inner x = e ∧ m.outer x ∈ history i run := by
  obtain ⟨b, c, h₀, l, rest, -, -, -, hhist, hhist'⟩ := h
  rw [hhist'] at he
  obtain ⟨x, hx, rfl⟩ := List.mem_map.mp he
  refine ⟨x, rfl, ?_⟩
  rw [hhist]
  exact List.mem_append_left _ (List.mem_append_right _ (List.mem_map_of_mem hx))

/-- The program is in the middle of the call number `j` of the guest, and goes on as a host. -/
def Within (m : Embeds S T) (V : Service S) (Stray : T.Op → Prop) {α : Type}
    (Auth : V.Call → Trace T → Prop) (run' : List (V.Moment W)) (p : Prog T α) (hist : Trace T)
    (j : ℕ) : Prop :=
  ∃ (c : V.Call) (q : Prog S (V.Out c)) (f : V.Out c → Prog T α) (h : Trace T)
    (l : List m.Answered), (calls run')[j]? = some c ∧ Path (V.body c) (l.map m.inner) q ∧
    history j run' = l.map m.inner ∧ hist = h ++ l.map m.outer ∧ Auth c h ∧
    p = (q.embed m).bind f ∧
    ∀ tr a, Run ((V.body c).embed m) tr a → Hosts m V Stray Auth (f a) (h ++ tr)

/-- What is kept along a run of the host: a run of the guest, each call of which has an owner, and
every host is between calls of the guest or within one that it owns. -/
structure Mirror (m : Embeds S T) (Stray : T.Op → Prop) (Auth : H.Call → V.Call → Trace T → Prop)
    (R : Ŵ.State → W.State → Prop) (run : List (H.Moment Ŵ)) (s : Ŵ.State)
    (run' : List (V.Moment W)) (t : W.State) (owner : ℕ → ℕ) : Prop where
  exec : Exec V W run' t
  related : R s t
  belongs : ∀ j c, (calls run')[j]? = some c → Belongs m Auth run run' (owner j) j
  stands : ∀ i b, (calls run)[i]? = some b → ∃ p, Path (H.body b) (history i run) p ∧
    (Hosts m V Stray (Auth b) p (history i run) ∨
      ∃ j, owner j = i ∧ Within m V Stray (Auth b) run' p (history i run) j)
  serves : ∀ i x, ¬ Stray (m.op x.1) → m.outer x ∈ history i run → ∃ j y c, owner j = i ∧
    (calls run')[j]? = some c ∧ m.outer y = m.outer x ∧ m.inner y ∈ history j run'

variable {run : List (H.Moment Ŵ)} {run' : List (V.Moment W)} {s s' : Ŵ.State} {t t' : W.State}
  {owner : ℕ → ℕ} {i j : ℕ}

theorem Belongs.host (h : Belongs m Auth run run' i j) (last : H.Moment Ŵ) :
    Belongs m Auth (run ++ [last]) run' i j := by
  obtain ⟨b, c, h₀, l, rest, hi, hj, hauth, hhist, hj'⟩ := h
  refine ⟨b, c, h₀, l, rest ++ history i [last], calls_getElem?_append hi, hj, hauth, ?_, hj'⟩
  rw [history_append, hhist, List.append_assoc]

theorem Belongs.guest (h : Belongs m Auth run run' i j) {last : V.Moment W}
    (hlast : history j [last] = []) : Belongs m Auth run (run' ++ [last]) i j := by
  obtain ⟨b, c, h₀, l, rest, hi, hj, hauth, hhist, hj'⟩ := h
  refine ⟨b, c, h₀, l, rest, hi, calls_getElem?_append hj, hauth, hhist, ?_⟩
  rw [history_append, hlast, List.append_nil, hj']

theorem Within.guest {α : Type} {A : V.Call → Trace T → Prop} {p : Prog T α} {hist : Trace T}
    (h : Within m V Stray A run' p hist j) {last : V.Moment W} (hlast : history j [last] = []) :
    Within m V Stray A (run' ++ [last]) p hist j := by
  obtain ⟨c, q, f, h₀, l, hj, hpath, hhist, rest⟩ := h
  refine ⟨c, q, f, h₀, l, calls_getElem?_append hj, hpath, ?_, rest⟩
  rw [history_append, hlast, List.append_nil, hhist]

/-- A call of the guest that the host is within has started. -/
theorem Within.lt {α : Type} {A : V.Call → Trace T → Prop} {p : Prog T α} {hist : Trace T}
    (h : Within m V Stray A run' p hist j) : j < (calls run').length := by
  obtain ⟨c, -, -, -, -, hj, -⟩ := h
  exact (List.getElem?_eq_some_iff.mp hj).1

/-- A call of the guest that has returned leaves its host between calls. -/
theorem Within.next {α : Type} {A : V.Call → Trace T → Prop} {p : Prog T α} {hist : Trace T}
    (h : Within m V Stray A run' p hist j) : Hosts m V Stray A p hist ∨
      ∃ (c : V.Call) (o : S.Op) (k : S.Res o → Prog S (V.Out c)) (f : V.Out c → Prog T α)
        (h₀ : Trace T) (l : List m.Answered), (calls run')[j]? = some c ∧
        Path (V.body c) (l.map m.inner) (.call o k) ∧ history j run' = l.map m.inner ∧
        hist = h₀ ++ l.map m.outer ∧ A c h₀ ∧ p = ((Prog.call o k).embed m).bind f ∧
        ∀ tr a, Run ((V.body c).embed m) tr a → Hosts m V Stray A (f a) (h₀ ++ tr) := by
  obtain ⟨c, q, f, h₀, l, hj, hpath, hhist, rfl, hauth, rfl, hf⟩ := h
  -- the rest of the call has returned, or makes its next call
  cases q with
  | ret a => exact .inl (hf _ a (run_embed.mpr ⟨l, rfl, hpath⟩))
  | call o k => exact .inr ⟨c, o, k, f, h₀, l, hj, hpath, hhist, rfl, hauth, rfl, hf⟩

namespace Mirror

variable (hm : Mirror m Stray Auth R run s run' t owner)
include hm

/-- A host starts. -/
theorem spawn (hexec : Exec H Ŵ run s) {b : H.Call}
    (hhosts : Hosts m V Stray (Auth b) (H.body b) []) :
    Mirror m Stray Auth R (run ++ [⟨s, .spawn b⟩]) s run' t owner where
  exec := hm.exec
  related := hm.related
  belongs j c hj := (hm.belongs j c hj).host _
  stands i b' hi := by
    rw [history_append, history_spawn, List.append_nil]
    rw [calls_append, calls_spawn] at hi
    -- the call is an earlier one, or the new one, which has done nothing
    rcases Nat.lt_or_ge i (calls run).length with hlt | hge
    · rw [List.getElem?_append_left hlt] at hi
      exact hm.stands i b' hi
    · rw [List.getElem?_append_right hge] at hi
      obtain rfl : b' = b := by
        have hmem := List.mem_of_getElem? hi
        simpa using hmem
      have hnil : history i run = [] := hexec.history_nil hge
      rw [hnil]
      exact ⟨_, .nil _, .inl hhosts⟩
  serves i x hx hmem := by
    rw [history_append, history_spawn, List.append_nil] at hmem
    exact hm.serves i x hx hmem

/-- A host makes a stray call. -/
theorem stray (hsim : Simulates m Stray Ŵ W R) {b : H.Call} {o : T.Op} {r : T.Res o}
    {k : T.Res o → Prog T (H.Out b)} (hi : (calls run)[i]? = some b)
    (hpath : Path (H.body b) (history i run) (.call o k)) (hstep : Ŵ.step s o r s')
    (ho : Stray o) (hk : Hosts m V Stray (Auth b) (k r) (history i run ++ [⟨o, r⟩])) :
    Mirror m Stray Auth R (run ++ [⟨s, .event i ⟨o, r⟩⟩]) s' run' t owner where
  exec := hm.exec
  related := hsim.stray ho hstep hm.related
  belongs j c hj := (hm.belongs j c hj).host _
  stands i' b' hi' := by
    have hold := calls_getElem?_event hi'
    rw [history_append]
    -- only the host that makes the call moves, and no call of the guest does
    rcases eq_or_ne i i' with rfl | hne
    · obtain rfl := Option.some.inj (hold.symm.trans hi)
      rw [history_self]
      exact ⟨k r, hpath.snoc r, .inl hk⟩
    · rw [history_of_ne hne, List.append_nil]
      exact hm.stands i' b' hold
  serves i' x hx hmem := by
    rcases mem_history_event.mp hmem with hold | ⟨-, hnew⟩
    · exact hm.serves i' x hx hold
    · obtain rfl : m.op x.1 = o := congrArg Event.op hnew
      exact absurd ho hx

/-- A host is about to run a call of the guest, which starts. -/
theorem begin {b : H.Call} {p : Prog T (H.Out b)} {c : V.Call} {f : V.Out c → Prog T (H.Out b)}
    (hi : (calls run)[i]? = some b) (hpath : Path (H.body b) (history i run) p)
    (hauth : Auth b c (history i run)) (hp : p = ((V.body c).embed m).bind f)
    (hf : ∀ tr a, Run ((V.body c).embed m) tr a →
      Hosts m V Stray (Auth b) (f a) (history i run ++ tr)) :
    Mirror m Stray Auth R run s (run' ++ [⟨t, .spawn c⟩]) t
        (Function.update owner (calls run').length i) ∧
      Within m V Stray (Auth b) (run' ++ [⟨t, .spawn c⟩]) p (history i run)
        (calls run').length := by
  have hlast : ∀ j, history j [(⟨t, .spawn c⟩ : V.Moment W)] = [] := fun _ => history_spawn
  have hcalls : (calls (run' ++ [⟨t, .spawn c⟩]))[(calls run').length]? = some c := by
    rw [calls_append, calls_spawn, List.getElem?_concat_length]
  have hnil : history (calls run').length (run' ++ [⟨t, .spawn c⟩]) = [] := by
    rw [history_append, hlast, List.append_nil]
    exact hm.exec.history_nil (Nat.le_refl _)
  have hwithin : Within m V Stray (Auth b) (run' ++ [⟨t, .spawn c⟩]) p (history i run)
      (calls run').length :=
    ⟨c, _, f, history i run, [], hcalls, .nil _, hnil, (List.append_nil _).symm, hauth, hp, hf⟩
  -- the new call of the guest is owned by the host; the others keep their owners
  refine ⟨⟨.step hm.exec (.spawn c), hm.related, fun j c' hj => ?_, fun i' b' hi' => ?_,
    fun i' x hx hmem => ?_⟩, hwithin⟩
  · rcases eq_or_ne j (calls run').length with rfl | hne
    · rw [Function.update_self]
      exact ⟨b, c, history i run, [], [], hi, hcalls, hauth, by simp, hnil⟩
    · rw [Function.update_of_ne hne]
      obtain ⟨hlt, -⟩ := List.getElem?_eq_some_iff.mp hj
      rw [calls_append, calls_spawn, List.length_append] at hlt
      have hlt' : j < (calls run').length := by
        simp only [List.length_singleton] at hlt
        omega
      rw [calls_append, List.getElem?_append_left hlt'] at hj
      exact (hm.belongs j c' hj).guest (hlast j)
  · rcases eq_or_ne i' i with rfl | hne
    · obtain rfl := Option.some.inj (hi'.symm.trans hi)
      exact ⟨p, hpath, .inr ⟨_, Function.update_self .., hwithin⟩⟩
    · obtain ⟨p', hpath', hstands⟩ := hm.stands i' b' hi'
      refine ⟨p', hpath', hstands.imp_right ?_⟩
      rintro ⟨j, rfl, hw⟩
      exact ⟨j, Function.update_of_ne (Nat.ne_of_lt hw.lt) .., hw.guest (hlast j)⟩
  · obtain ⟨j, y, c', hown, hj, houter, hinner⟩ := hm.serves i' x hx hmem
    obtain ⟨hlt, -⟩ := List.getElem?_eq_some_iff.mp hj
    refine ⟨j, y, c', (Function.update_of_ne (Nat.ne_of_lt hlt) ..).trans hown,
      calls_getElem?_append hj, houter, ?_⟩
    rw [history_append]
    exact List.mem_append_left _ hinner

/-- A host makes a call for the call of the guest that it is within. -/
theorem serve (hsim : Simulates m Stray Ŵ W R) {b : H.Call} {p : Prog T (H.Out b)} {c : V.Call}
    {o : S.Op} {k : S.Res o → Prog S (V.Out c)} {f : V.Out c → Prog T (H.Out b)} {h₀ : Trace T}
    {l : List m.Answered} {r : T.Res (m.op o)} (hi : (calls run)[i]? = some b)
    (hpath : Path (H.body b) (history i run) p) (howner : owner j = i)
    (hj : (calls run')[j]? = some c) (hguest : Path (V.body c) (l.map m.inner) (.call o k))
    (hjhist : history j run' = l.map m.inner) (hhist : history i run = h₀ ++ l.map m.outer)
    (hauth : Auth b c h₀) (hp : p = ((Prog.call o k).embed m).bind f)
    (hf : ∀ tr a, Run ((V.body c).embed m) tr a → Hosts m V Stray (Auth b) (f a) (h₀ ++ tr))
    (hstep : Ŵ.step s (m.op o) r s') :
    ∃ t', Mirror m Stray Auth R (run ++ [⟨s, .event i ⟨m.op o, r⟩⟩]) s'
      (run' ++ [⟨t, .event j ⟨o, m.res o r⟩⟩]) t' owner := by
  obtain ⟨t', hstep', hrel⟩ := hsim.served hstep hm.related
  subst hp
  -- the segment of the guest's call is one event longer
  let x : m.Answered := ⟨o, r⟩
  have hl : (l ++ [x]).map m.inner = l.map m.inner ++ [⟨o, m.res o r⟩] := by
    rw [List.map_append]
    rfl
  have hl' : (l ++ [x]).map m.outer = l.map m.outer ++ [⟨m.op o, r⟩] := by
    rw [List.map_append]
    rfl
  have hjnew : history j (run' ++ [⟨t, .event j ⟨o, m.res o r⟩⟩]) =
      (l ++ [x]).map m.inner := by
    rw [history_append, history_self, hjhist, hl]
  have hinew : history i (run ++ [⟨s, .event i ⟨m.op o, r⟩⟩]) =
      h₀ ++ (l ++ [x]).map m.outer := by
    rw [history_append, history_self, hhist, hl', List.append_assoc]
  have hcall' : (calls (run' ++ [⟨t, .event j ⟨o, m.res o r⟩⟩]))[j]? = some c :=
    calls_getElem?_append hj
  refine ⟨t', .step hm.exec (.event hj (hjhist ▸ hguest) hstep'), hrel, fun j' c' hj' => ?_,
    fun i' b' hi' => ?_, fun i' y hy hmem => ?_⟩
  · rcases eq_or_ne j j' with rfl | hne
    · rw [howner]
      exact ⟨b, c, h₀, l ++ [x], [], calls_getElem?_append hi, hcall', hauth,
        by rw [hinew, List.append_nil], hjnew⟩
    · exact ((hm.belongs j' c' (calls_getElem?_event hj')).guest (history_of_ne hne)).host _
  · have hold := calls_getElem?_event hi'
    rcases eq_or_ne i i' with rfl | hne
    · obtain rfl := Option.some.inj (hold.symm.trans hi)
      refine ⟨((k (m.res o r)).embed m).bind f, ?_, .inr ⟨j, howner, c, k (m.res o r), f, h₀,
        l ++ [x], hcall', ?_, hjnew, hinew, hauth, rfl, hf⟩⟩
      · rw [history_append, history_self]
        exact Path.snoc (k := fun r => ((k (m.res o r)).embed m).bind f) hpath r
      · rw [hl]
        exact hguest.snoc _
    · rw [history_append, history_of_ne hne, List.append_nil]
      obtain ⟨p', hpath', hstands⟩ := hm.stands i' b' hold
      refine ⟨p', hpath', hstands.imp_right ?_⟩
      rintro ⟨j', rfl, hw⟩
      -- another host is within another call of the guest
      have hjj : j ≠ j' := by
        rintro rfl
        exact hne howner.symm
      exact ⟨j', rfl, hw.guest (history_of_ne hjj)⟩
  · rcases mem_history_event.mp hmem with hold | ⟨rfl, hnew⟩
    · obtain ⟨j', z, c', hown, hj', houter, hinner⟩ := hm.serves i' y hy hold
      refine ⟨j', z, c', hown, calls_getElem?_append hj', houter, ?_⟩
      rw [history_append]
      exact List.mem_append_left _ hinner
    · refine ⟨j, x, c, howner, hcall', hnew.symm, ?_⟩
      rw [history_append, history_self]
      exact List.mem_append_right _ (List.mem_singleton.mpr rfl)

end Mirror

/-- A run of the guest, as it is seen in a run of the host: the states are related, every call of
the guest belongs to a call of the host, and whatever a host calls that is not stray it calls for
such a call of the guest. -/
structure GuestRun (m : Embeds S T) (Stray : T.Op → Prop)
    (Auth : H.Call → V.Call → Trace T → Prop) (R : Ŵ.State → W.State → Prop)
    (run : List (H.Moment Ŵ)) (s : Ŵ.State) (run' : List (V.Moment W)) (t : W.State) : Prop where
  exec : Exec V W run' t
  related : R s t
  belongs : ∀ j c, (calls run')[j]? = some c → ∃ i, Belongs m Auth run run' i j
  serves : ∀ i x, ¬ Stray (m.op x.1) → m.outer x ∈ history i run →
    ∃ j y, Belongs m Auth run run' i j ∧ m.outer y = m.outer x ∧ m.inner y ∈ history j run'

/-- **The guest's view.** Every run of the host is, at the collaborators of the guest, a run of the
guest. -/
theorem Exec.guest (hsim : Simulates m Stray Ŵ W R)
    (hhosts : ∀ b, Hosts m V Stray (Auth b) (H.body b) []) (h : Exec H Ŵ run s) :
    ∃ (run' : List (V.Moment W)) (t : W.State), GuestRun m Stray Auth R run s run' t := by
  -- the owner of every call is forgotten at the end; the induction needs it
  suffices hmirror : ∃ (run' : List (V.Moment W)) (t : W.State) (owner : ℕ → ℕ),
      Mirror m Stray Auth R run s run' t owner by
    obtain ⟨run', t, owner, hm⟩ := hmirror
    refine ⟨run', t, hm.exec, hm.related, fun j c hj => ⟨owner j, hm.belongs j c hj⟩,
      fun i x hx hmem => ?_⟩
    obtain ⟨j, y, c, rfl, hj, houter, hinner⟩ := hm.serves i x hx hmem
    exact ⟨j, y, hm.belongs j c hj, houter, hinner⟩
  -- the induction is on the run of the host; the mirror is what carries it
  induction h with
  | start =>
    exact ⟨[], W.init, id, .start, hsim.init, fun j c hj => absurd hj (by simp [calls]),
      fun i b hi => absurd hi (by simp [calls]), fun i x _ hmem => absurd hmem List.not_mem_nil⟩
  | @step run s s' l hexec hs ih =>
    obtain ⟨run', t, owner, hm⟩ := ih
    cases hs with
    | spawn b => exact ⟨run', t, owner, hm.spawn hexec (hhosts b)⟩
    | @event i b o k r s' hi hpath hstep =>
      obtain ⟨p, hp, hstands⟩ := hm.stands i b hi
      obtain rfl := Path.unique hp hpath
      -- between two calls of the guest, the next one may be a stray one or start a call
      have hbetween : Hosts m V Stray (Auth b) (Prog.call o k) (history i run) →
          ∃ run' t owner,
            Mirror m Stray Auth R (run ++ [⟨s, .event i ⟨o, r⟩⟩]) s' run' t owner := by
        intro hhost
        rcases hhost.next rfl with ⟨ho, hk⟩ | ⟨c, f, o', k', hbody, hauth, hcall, hf⟩
        · exact ⟨run', t, owner, hm.stray hsim hi hpath hstep ho (hk r)⟩
        · obtain ⟨hm', hwithin⟩ := hm.begin hi hpath hauth hcall hf
          rw [hbody] at hcall
          cases hcall
          obtain ⟨t', hm''⟩ := hm'.serve hsim (l := []) hi hpath (Function.update_self ..)
            (by rw [calls_append, calls_spawn, List.getElem?_concat_length])
            (by rw [hbody]; exact .nil _)
            (by
              rw [history_append, history_spawn, List.append_nil]
              exact hm.exec.history_nil (Nat.le_refl _))
            (List.append_nil _).symm hauth rfl hf hstep
          exact ⟨_, t', _, hm''⟩
      -- a host that is within a call of the guest goes on with it, unless that has returned
      rcases hstands with hhost | ⟨j, howner, hwithin⟩
      · exact hbetween hhost
      · rcases hwithin.next with hhost | ⟨c, o', k', f, h₀, l, hj, hguest, hjhist, hhist, hauth,
          hcall, hf⟩
        · exact hbetween hhost
        · cases hcall
          obtain ⟨t', hm'⟩ :=
            hm.serve hsim hi hpath howner hj hguest hjhist hhist hauth rfl hf hstep
          exact ⟨_, t', owner, hm'⟩

end Service

end Effects
