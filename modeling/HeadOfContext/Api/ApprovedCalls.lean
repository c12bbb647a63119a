import HeadOfContext.Api.GateGuest

/-!
# An approved call, from end to end

What a redeemed approval rests on, over all the requests of a run. The routes host the gate
(`Services.hostsGate`), so the books of the gate (`ActionGate.books`) are about the requests: the
agent that redeems holds a token for the chain that it had asked the approval for, and somebody who
logged in as a human let the call pass.
-/

namespace HeadOfContext

open Effects Except Service

namespace ActionGate

variable {G : ActionGate} {run : GateRun G} {t : GateState}

end ActionGate

namespace Services

variable {Text : Type} {s : Services Text}

variable {run : ApiRun s} {st : ApiState}

/-- The moment consumed the approval. -/
def spends (id : String) (m : s.api.Moment apiWorld) : Prop :=
  ∃ i now row, m.label = .event i ⟨.session (.gate (.consume id now)), .ok (some row)⟩

/-- The request number `i` redeems the deployment, and was answered ALLOW. -/
def redeemed (p : Pool oneKey.api apiWorld) (i : ℕ) : Bool :=
  match p.threads[i]? with
  | some ⟨.actionsRedeem authorization _ id tool args, .ret (.ok d)⟩ =>
    authorization = some "Bearer a" ∧ id = "aa" ∧ tool = "deploy" ∧ args = [] ∧ d.outcome = "ALLOW"
  | _ => false

theorem redeemed_iff {p : Pool oneKey.api apiWorld} (hp : p.Sound) {i : ℕ}
    (h : redeemed p i = true) :
    ∃ token d, (calls p.run)[i]? = some (.actionsRedeem (some "Bearer a") token "aa" "deploy" []) ∧
      Raises.Run (oneKey.actionsRedeem (some "Bearer a") token "aa" "deploy" []) (history i p.run)
        (.ok d) ∧ d.outcome = "ALLOW" := by
  unfold redeemed at h
  split at h
  · next authorization token id tool args d heq =>
    obtain ⟨rfl, rfl, rfl, rfl, hallow⟩ := of_decide_eq_true h
    exact ⟨token, d, hp.calls_of heq, hp.returned heq, hallow⟩
  · exact absurd h (by simp)

end Services

end HeadOfContext
