import HeadOfContext.Actions.Spent
import HeadOfContext.Framework.JsonSort

/-!
# The fingerprint of the arguments binds an approval to one call

`hash_args` prints the arguments with the keys of every object sorted and hashes the text.
The text identifies the value (`Json.dumps_sortKeys_iff`), so with SHA-256 injective on the
texts hashed the fingerprint does, and a redeem that was let through to its request has the
arguments of the gate call that parked it (`args_hash_binds`).
-/

namespace HeadOfContext

/-- The arguments, with the keys of every object in increasing order. -/
def Args.sorted (args : Args) : Args := Json.sortItems (Json.sortKeysMembers args)

/-- SHA-256 tells the canonical texts of two argument objects apart. -/
def Runtime.TellsApart (rt : Runtime) (a b : Args) : Prop :=
  Set.InjOn rt.sha256 {Json.dumps rt.floatText (.obj a), Json.dumps rt.floatText (.obj b)}

/-- Two fingerprints are equal exactly when the texts are. -/
theorem hashArgs_eq_iff {rt : Runtime} {a b : Args} (hsha : rt.TellsApart a b) :
    hashArgs rt (some a) = hashArgs rt (some b) ↔
      Json.dumps rt.floatText (.obj a) = Json.dumps rt.floatText (.obj b) := by
  rw [hashArgs, hashArgs, Option.some_inj]
  constructor
  · intro h
    exact hsha (.inl rfl) (.inr rfl) h
  · intro h
    rw [h]

/-- **Two argument objects have one fingerprint exactly when they are equal as JSON values.** -/
theorem hashArgs_sorted_iff {rt : Runtime} {a b : Args} (ha : Json.IsValue (.obj a))
    (hb : Json.IsValue (.obj b)) (hsha : rt.TellsApart a.sorted b.sorted) :
    hashArgs rt (some a.sorted) = hashArgs rt (some b.sorted) ↔ Json.Same (.obj a) (.obj b) := by
  rw [hashArgs_eq_iff hsha]
  exact Json.dumps_sortKeys_iff ha hb

namespace ActionGate

open Effects Except Service

variable {G : ActionGate} {run : GateRun G} {s : GateState} {i : ℕ}

/-- The gate's fingerprint tells dictionaries apart. -/
theorem args_eq_of_argsHash {a b : Args} (ha : Json.Wf Json.Joined (.obj a))
    (hb : Json.Wf Json.Joined (.obj b)) (hsha : G.decider.rt.TellsApart a b)
    (h : G.argsHash a = G.argsHash b) : a = b := by
  have hhash : hashArgs G.decider.rt (some a) = hashArgs G.decider.rt (some b) :=
    congrArg some h
  exact Json.obj.inj (Json.dumps_injective ha hb ((hashArgs_eq_iff hsha).mp hhash))

/-- The call number `i`, a redeem, was let through: it went on to consume the request, or it
returned ALLOW. -/
def Accepts (run : GateRun G) (i : ℕ) (chain : PrincipalChain) (id : String) (args : Option Args)
    (tool : Option String) : Prop :=
  (∃ id' now answer, ⟨.consume id' now, answer⟩ ∈ history i run) ∨
    ∃ d, Raises.Run (G.redeem chain id args tool) (history i run) (.ok d) ∧ d.outcome = .allow

/-- **The fingerprint binds an approval to one call.** Two argument objects, with their members
in any order, have one fingerprint exactly when they are equal as JSON values. And in every run,
a redeem that was let through carries the arguments of the gate call that had created its
request. -/
theorem args_hash_binds (G : ActionGate) :
    (∀ a b : Args, Json.IsValue (.obj a) → Json.IsValue (.obj b) →
      G.decider.rt.TellsApart a.sorted b.sorted →
      (hashArgs G.decider.rt (some a.sorted) = hashArgs G.decider.rt (some b.sorted) ↔
        Json.Same (.obj a) (.obj b))) ∧
    ∀ (run : GateRun G) (s : GateState), Exec G.service gateWorld run s →
      ∀ (i : ℕ) (chain : PrincipalChain) (id : String) (args : Option Args) (tool : Option String),
        (calls run)[i]? = some (.redeem chain id args tool) → Accepts run i chain id args tool →
        ∃ pre post j request chain' tool' args', run = pre ++ post ∧ CreatedBy pre j request ∧
          request.requestId = id ∧ (calls pre)[j]? = some (.gate chain' tool' args') ∧
          (Json.Wf Json.Joined (.obj (args'.getD [])) → Json.Wf Json.Joined (.obj (args.getD [])) →
            G.decider.rt.TellsApart (args'.getD []) (args.getD []) →
            args'.getD [] = args.getD []) := by
  refine ⟨fun a b ha hb hsha => hashArgs_sorted_iff ha hb hsha, ?_⟩
  intro run s h i chain id args tool hcall haccepts
  have hconsume : ∃ id' now answer, ⟨.consume id' now, answer⟩ ∈ history i run := by
    rcases haccepts with hconsume | ⟨d, hreturned, hallow⟩
    · exact hconsume
    · obtain ⟨id', now, row, hmem⟩ := redeem_run hreturned hallow
      exact ⟨id', now, _, hmem⟩
  obtain ⟨id', now, answer, hmem⟩ := hconsume
  obtain ⟨s₀, hmem⟩ := mem_history.mp hmem
  obtain ⟨pre, post, rfl⟩ := List.append_of_mem hmem
  obtain ⟨hpre, -⟩ := h.split rfl
  -- what the books say at the moment of the consume
  obtain ⟨c, hc, hobeys, -⟩ := h.obeys spec_service rfl
  obtain rfl := Option.some.inj ((calls_getElem?_append hc).symm.trans hcall)
  obtain ⟨-, r, j, request, chain', tool', args', -, hcreated, hid, hgate, -, -, -, -, -, -,
    hargs⟩ :=
    (books hpre).claimed hobeys
  refine ⟨pre, _, j, request, chain', tool', args', rfl, hcreated, hid, hgate, ?_⟩
  intro hwf' hwf hsha
  exact args_eq_of_argsHash hwf' hwf hsha hargs

/-! ### A transfer -/

/-- A transfer of the amount to bob, the recipient named first. -/
def transfer (amount : ℤ) : Args :=
  [(.ofString "to", .str (.ofString "user:bob")), (.ofString "amount", .int amount)]

/-- SHA-256 at the texts of two transfers. -/
def transferSha256 (text : List Char) : String :=
  if text = Json.dumps Json.FloatText.ofBits (.obj (transfer 10).sorted) then
    "6fb6ae39249377cc0ef2327eee5d187b1af8d1bc5e1c9ff6332e8ccf98f5cae6"
  else "509d46513e94014fbeb680e151170fa390cf723e4e85c467d60ba4f7bd205cf0"

/-- A gate that fingerprints transfers. -/
def transferring : ActionGate where
  decider := ⟨⟨Json.FloatText.ofBits, fun _ => [], transferSha256⟩, true⟩
  ttl := 100
  allowSelfApproval := false
  channels := []

/-- The transfer of 10, as a dictionary. -/
def isTransfer : Args → Bool
  | [(k, .int n), (k', .str s)] =>
    k = .ofString "amount" ∧ n = 10 ∧ k' = .ofString "to" ∧ s = .ofString "user:bob"
  | _ => false

theorem eq_of_isTransfer {args : Args} (h : isTransfer args = true) :
    args = (transfer 10).sorted := by
  unfold isTransfer at h
  split at h
  · obtain ⟨rfl, rfl, rfl, rfl⟩ := of_decide_eq_true h
    rfl
  · exact absurd h (by simp)

theorem isValue_transfer (amount : ℤ) (h : amount.natAbs < 10 ^ Json.maxDigits) :
    Json.IsValue (.obj (transfer amount)) := by
  have hkeys : [PyStr.ofString "to", PyStr.ofString "amount"].Nodup := by decide +kernel
  refine .obj hkeys (fun m hm => ?_) fun m hm => ?_
  · rcases List.mem_cons.mp hm with rfl | hm
    · exact Json.joined_ofString _
    · obtain rfl := List.mem_singleton.mp hm
      exact Json.joined_ofString _
  · rcases List.mem_cons.mp hm with rfl | hm
    · exact .str (Json.joined_ofString _)
    · obtain rfl := List.mem_singleton.mp hm
      exact .int h

theorem tellsApart_transfer : transferring.decider.rt.TellsApart (transfer 10).sorted
    (transfer 99).sorted := by
  rintro _ (rfl | rfl) _ (rfl | rfl) h
  · rfl
  · exact absurd h (by decide +kernel)
  · exact absurd h (by decide +kernel)
  · rfl

/-- Every gate call of the pool asked for a transfer of 10. -/
def asked (p : Pool transferring.service gateWorld) : Bool :=
  p.threads.all fun t => match t.1 with
    | .gate _ _ args => isTransfer (args.getD [])
    | _ => true

/-- The call number 2, a redeem of a transfer of 10 by `aliceDeployer`, has returned ALLOW. -/
def transferred (p : Pool transferring.service gateWorld) : Bool :=
  match p.threads[(2 : ℕ)]? with
  | some ⟨.redeem chain id args none, .ret (.ok d)⟩ =>
    chain = aliceDeployer ∧ id = "aa" ∧ isTransfer (args.getD []) = true ∧ d.outcome = .allow
  | _ => false

theorem transferred_iff {p : Pool transferring.service gateWorld} (hp : p.Sound)
    (h : transferred p = true) : ∃ args, isTransfer (args.getD []) = true ∧
      (calls p.run)[2]? = some (GateCall.redeem aliceDeployer "aa" args none) ∧
      Accepts p.run 2 aliceDeployer "aa" args none := by
  unfold transferred at h
  split at h
  · next chain id args d heq =>
    obtain ⟨rfl, rfl, hargs, hallow⟩ := of_decide_eq_true h
    exact ⟨args, hargs, hp.calls_of heq, .inr ⟨d, hp.returned heq, hallow⟩⟩
  · exact absurd h (by simp)

theorem isTransfer_of_asked {p : Pool transferring.service gateWorld} (hp : p.Sound)
    (h : asked p = true) {j : ℕ} {chain : PrincipalChain} {tool : String} {args : Option Args}
    (hcall : (calls p.run)[j]? = some (GateCall.gate chain tool args)) :
    isTransfer (args.getD []) = true := by
  have hmem := List.mem_of_getElem? hcall
  rw [← hp.calls_eq] at hmem
  obtain ⟨t, ht, heq⟩ := List.mem_map.mp hmem
  have hasked := List.all_eq_true.mp h t ht
  rw [heq] at hasked
  exact hasked

/-- alice's agent asks for a transfer of 10 to bob, bob approves it, and the agent redeems it:
the arguments that were redeemed are those that were approved. A transfer of 99 has another
fingerprint. -/
theorem args_hash_binds_transfer :
    hashArgs transferring.decider.rt (some (transfer 10).sorted) ≠
      hashArgs transferring.decider.rt (some (transfer 99).sorted) ∧
    ∃ (run : GateRun transferring) (s : GateState), Exec transferring.service gateWorld run s ∧
      ∃ pre post j request chain' tool' args' args, run = pre ++ post ∧ CreatedBy pre j request ∧
        (calls pre)[j]? = some (.gate chain' tool' args') ∧
        (calls run)[2]? = some (.redeem aliceDeployer "aa" args none) ∧
        args'.getD [] = args.getD [] := by
  obtain ⟨hbinds, hruns⟩ := args_hash_binds transferring
  refine ⟨fun heq => ?_, ?_⟩
  · -- the two transfers differ in the amount
    have hsame := (hbinds (transfer 10) (transfer 99) (isValue_transfer 10 (by decide +kernel))
      (isValue_transfer 99 (by decide +kernel)) tellsApart_transfer).mp heq
    cases hsame with
    | obj _ values =>
      have hint := values (.ofString "amount") (.int 10) (.int 99) (by simp [transfer])
        (by simp [transfer])
      cases hint
  · -- a transfer of 10 is gated, approved by bob, and redeemed with the same arguments
    have hplay : (gateDriver.play (.start transferring.service gateWorld)
        (.spawn (.gate aliceDeployer "tool:transfer" (some (transfer 10).sorted)) ::
            List.replicate 13 (.next 0) ++
          .spawn (.resolve "aa" "user:bob" true "reviewed") :: List.replicate 7 (.next 1) ++
          .spawn (.redeem aliceDeployer "aa" (some (transfer 10).sorted) none) ::
            List.replicate 14 (.next 2))).any (fun p => asked p && transferred p) = true := by
      decide +kernel
    obtain ⟨p, hp, hplayed⟩ := (Option.any_eq_true _ _).mp hplay
    obtain ⟨hasked, htransferred⟩ := (Bool.and_eq_true _ _).mp hplayed
    have hsound : p.Sound := Driver.sound_play Pool.sound_start hp
    obtain ⟨args, hargs, hcall, haccepts⟩ := transferred_iff hsound htransferred
    obtain ⟨pre, post, j, request, chain', tool', args', hrun, hcreated, -, hgate, heq⟩ :=
      hruns p.run p.state hsound.exec 2 aliceDeployer "aa" args none hcall haccepts
    refine ⟨p.run, p.state, hsound.exec, pre, post, j, request, chain', tool', args', args, hrun,
      hcreated, hgate, hcall, ?_⟩
    have hgate' : (calls p.run)[j]? = some (GateCall.gate chain' tool' args') := by
      rw [hrun]
      exact calls_getElem?_append hgate
    have hargs' := eq_of_isTransfer (isTransfer_of_asked hsound hasked hgate')
    have hargs := eq_of_isTransfer hargs
    have hwf : Json.Wf Json.Joined (.obj (transfer 10).sorted) :=
      (isValue_transfer 10 (by decide +kernel)).wf_sortKeys
    refine heq (hargs' ▸ hwf) (hargs ▸ hwf) ?_
    rw [hargs', hargs]
    exact Set.Subsingleton.injOn (by simp) _

end ActionGate

end HeadOfContext
