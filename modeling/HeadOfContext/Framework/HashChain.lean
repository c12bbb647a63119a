import Mathlib.Data.List.Induction
import Mathlib.Tactic.Common

/-!
# Hash chains

A list of entries, each holding the hash of its predecessor and its own hash over that and
its body; the first one points to an anchor. `Valid` is what a verifier checks entry by
entry, and `head` is the hash that the next entry would point to.

The head commits to the whole chain (`Valid.eq_of_head`): two valid chains from one anchor
with one head are the same, whatever their lengths, when the hash binds the entries in them
and is never the anchor. The induction runs backwards from the head, and the anchor is what
keeps either chain from ending early.
-/

namespace HashChain

variable {H B : Type}

/-- An entry of a chain. -/
structure Entry (H B : Type) where
  prev : H
  body : B
  hash : H

/-- The hash that the next entry points to. -/
def head (anchor : H) (entries : List (Entry H B)) : H :=
  (entries.getLast?.map Entry.hash).getD anchor

/-- Each entry points to the one before it, and carries the hash of its contents. -/
def Valid (hash : H → B → H) (anchor : H) : List (Entry H B) → Prop
  | [] => True
  | e :: es => e.prev = anchor ∧ e.hash = hash e.prev e.body ∧ Valid hash e.hash es

variable {hash : H → B → H} {anchor : H}

@[simp] theorem head_nil : head anchor ([] : List (Entry H B)) = anchor := rfl

@[simp] theorem head_concat (es : List (Entry H B)) (e : Entry H B) :
    head anchor (es ++ [e]) = e.hash := by
  rw [head, List.getLast?_concat, Option.map_some, Option.getD_some]

theorem head_cons (e : Entry H B) (es : List (Entry H B)) :
    head anchor (e :: es) = head e.hash es := by
  cases es using List.reverseRecOn with
  | nil => rfl
  | append_singleton es f => rw [← List.cons_append, head_concat, head_concat]

theorem valid_append {es fs : List (Entry H B)} :
    Valid hash anchor (es ++ fs) ↔ Valid hash anchor es ∧ Valid hash (head anchor es) fs := by
  induction es generalizing anchor with
  | nil => simp [Valid]
  | cons e es ih => rw [List.cons_append, Valid, Valid, ih, head_cons, and_assoc, and_assoc]

theorem valid_concat {es : List (Entry H B)} {e : Entry H B} :
    Valid hash anchor (es ++ [e]) ↔
      Valid hash anchor es ∧ e.prev = head anchor es ∧ e.hash = hash e.prev e.body := by
  rw [valid_append]
  simp only [Valid, and_true]

/-- An entry carries the hash of its contents. -/
theorem Valid.hash_eq {es : List (Entry H B)} (h : Valid hash anchor es) {e : Entry H B}
    (he : e ∈ es) : e.hash = hash e.prev e.body := by
  induction es generalizing anchor with
  | nil => exact absurd he List.not_mem_nil
  | cons f es ih =>
    obtain ⟨-, hhash, hes⟩ := h
    rcases List.mem_cons.mp he with rfl | he
    · exact hhash
    · exact ih hes he

/-- An entry points to the anchor or to another entry. -/
theorem Valid.prev_eq {es : List (Entry H B)} (h : Valid hash anchor es) {e : Entry H B}
    (he : e ∈ es) : e.prev = anchor ∨ ∃ f ∈ es, e.prev = f.hash := by
  induction es generalizing anchor with
  | nil => exact absurd he List.not_mem_nil
  | cons f es ih =>
    obtain ⟨hprev, -, hes⟩ := h
    rcases List.mem_cons.mp he with rfl | he
    · exact .inl hprev
    · right
      rcases ih hes he with hf | ⟨g, hg, heq⟩
      · exact ⟨f, List.mem_cons_self, hf⟩
      · exact ⟨g, List.mem_cons_of_mem _ hg, heq⟩

/-- **The head commits to the chain.** -/
theorem Valid.eq_of_head {es fs : List (Entry H B)} (hes : Valid hash anchor es)
    (hfs : Valid hash anchor fs)
    (hbinds : ∀ e ∈ es, ∀ f ∈ fs, e.hash = f.hash → e.prev = f.prev ∧ e.body = f.body)
    (hes_ne : ∀ e ∈ es, e.hash ≠ anchor) (hfs_ne : ∀ f ∈ fs, f.hash ≠ anchor)
    (h : head anchor es = head anchor fs) : es = fs := by
  -- the induction is from the head backwards: equal heads bind the last entries
  induction es using List.reverseRecOn generalizing fs with
  | nil =>
    cases fs using List.reverseRecOn with
    | nil => rfl
    | append_singleton fs f =>
      rw [head_nil, head_concat] at h
      exact absurd h.symm (hfs_ne f (by simp))
  | append_singleton es e ih =>
    cases fs using List.reverseRecOn with
    | nil =>
      rw [head_nil, head_concat] at h
      exact absurd h (hes_ne e (by simp))
    | append_singleton fs f =>
      rw [head_concat, head_concat] at h
      obtain ⟨hes', heprev, -⟩ := valid_concat.mp hes
      obtain ⟨hfs', hfprev, -⟩ := valid_concat.mp hfs
      obtain ⟨hprev, hbody⟩ := hbinds e (by simp) f (by simp) h
      have hrest : es = fs := by
        refine ih hes' hfs' (fun e' he' f' hf' => hbinds e' ?_ f' ?_) (fun e' he' => hes_ne e' ?_)
          (fun f' hf' => hfs_ne f' ?_) ?_
        · exact List.mem_append_left _ he'
        · exact List.mem_append_left _ hf'
        · exact List.mem_append_left _ he'
        · exact List.mem_append_left _ hf'
        · rw [← heprev, hprev, hfprev]
      have hlast : e = f := by
        obtain ⟨eprev, ebody, ehash⟩ := e
        obtain ⟨fprev, fbody, fhash⟩ := f
        obtain rfl : eprev = fprev := hprev
        obtain rfl : ebody = fbody := hbody
        obtain rfl : ehash = fhash := h
        rfl
      rw [hrest, hlast]

end HashChain
