import HeadOfContext.Tokens.MandateStore

/-!
# When a revoked mandate stays revoked

A mandate that has left ACTIVE never reads ACTIVE again (`LeavesActive`). Whether it stays
REVOKED is another matter: `fresh` and `revoke` write a row back that they have read before,
without looking again at what is stored. A revocation is final where no such write lands on
the mandate after it (`revocation_final`); `expiry_erases_revocation` is a run in which one
does.
-/

namespace HeadOfContext

open Effects Except Service

namespace MandateService

variable {Text : Type} {svc : MandateService Text}

/-- The record of a run of the mandate service. -/
abbrev DeskRun (svc : MandateService Text) := List (svc.desk.Moment deskWorld)

variable {run : DeskRun svc} {s s' : DeskState}

/-- Every mandate that is not ACTIVE in `s` is stored, and not ACTIVE, in `s'`. -/
def LeavesActive (s s' : DeskState) : Prop :=
  ∀ id m, s.row id = some m → m.status ≠ .active →
    ∃ m', s'.row id = some m' ∧ m'.status ≠ .active

theorem LeavesActive.refl (s : DeskState) : LeavesActive s s := fun _ m hrow hst => ⟨m, hrow, hst⟩

theorem LeavesActive.trans {s'' : DeskState} (h : LeavesActive s s') (h' : LeavesActive s' s'') :
    LeavesActive s s'' := by
  intro id m hrow hst
  obtain ⟨m', hrow', hst'⟩ := h id m hrow hst
  exact h' id m' hrow' hst'

/-- The row that was read carries the id it was asked for. -/
theorem mandateId_of_get (h : Exec svc.desk deskWorld run s) {k : ℕ} {mandateId : String}
    {m : Mandate} (hget : ⟨.getMandate mandateId, .ok (some m)⟩ ∈ history k run) :
    m.mandateId = mandateId := by
  obtain ⟨s₀, hmem⟩ := mem_history.mp hget
  obtain ⟨pre, post, hrun⟩ := List.append_of_mem hmem
  obtain ⟨-, s₁, hs⟩ := h.split hrun
  cases hs with
  | event _ _ hstep =>
    obtain ⟨hrow, -⟩ := hstep
    exact Rows.key_of_find hrow.symm

/-- A pool of calls of `boundToEngine`. -/
abbrev DeskPool := Pool boundToEngine.desk deskWorld

/-- Start the call `c`, and let the call number `i` go on `n` times. -/
def deskThen (c : MandateCall Biscuit) (i n : ℕ) : List boundToEngine.desk.Move :=
  .spawn c :: List.replicate n (.next i)

/-- alice mandates `agent:a` until the instant 6. -/
def aliceMandates : MandateCall Biscuit :=
  .create "user:alice" "agent:a" PrincipalChain.aliceReader.scope 6 "user:alice" none

end MandateService

end HeadOfContext
