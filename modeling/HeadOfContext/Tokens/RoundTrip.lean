import HeadOfContext.Tokens.Attenuation
import HeadOfContext.Tokens.Trail

/-!
# Attenuating and loading back

`attenuate` counts the links of the chain and accepts what the validators of references
accept; `load` counts the appended blocks, opaque ones included, and accepts what the
expressions of the trail match. The issued token loads back as it was issued exactly when
the two agree: the parent carries fewer than eight blocks, and no reference of the hop ends
in the line feed that the `$` of the validators lets through
(`attenuation_reloads_iff`).

One direction is `parseTrailBlock_built`. For the other, whatever the trail reader returns
was on one line of the source (`parseTrailBlock_documented`), so a hop that reads back as
itself has no line feed in it.
-/

namespace HeadOfContext

open Effects Datalog Biscuit PyText Except

/-! ### What the trail reader can return -/

theorem documented_of_oneLine {s : String} (h : OneLine s) : Documented s := by
  intro hlast
  have hbreak := h '\n' (List.mem_of_getLast? hlast)
  exact absurd hbreak (by decide)

theorem afterLiteral_mem {literal line rest : List Char} (h : afterLiteral literal line = some rest)
    {c : Char} (hc : c ∈ rest) : c ∈ line := by
  rw [afterLiteral] at h
  split at h
  · rw [← Option.some.inj h] at hc
    exact List.mem_of_mem_drop hc
  · exact absurd h (by simp)

theorem matchGroup_mem {line rest : List Char} {group : String}
    (h : matchGroup line = some (group, rest)) {c : Char} :
    (c ∈ group.toList → c ∈ line) ∧ (c ∈ rest → c ∈ line) := by
  simp only [matchGroup] at h
  split at h
  · exact absurd h (by simp)
  · obtain ⟨rfl, rfl⟩ := Prod.mk.inj (Option.some.inj h)
    rw [String.toList_ofList]
    exact ⟨fun hc => (List.takeWhile_sublist isGroupChar).subset hc, List.mem_of_mem_drop⟩

/-- The two groups of a match lie on the line. -/
theorem matchFactLine_mem {name : String} {line : List Char} {first second : String}
    (h : matchFactLine name line = some (first, second)) :
    (∀ c ∈ first.toList, c ∈ line) ∧ ∀ c ∈ second.toList, c ∈ line := by
  rw [matchFactLine] at h
  simp only [Option.bind_eq_bind, Option.bind_eq_some_iff] at h
  obtain ⟨rest₁, h₁, ⟨a, rest₂⟩, h₂, rest₃, h₃, ⟨b, rest₄⟩, h₄, rest₅, -, hend⟩ := h
  have hpair : (a, b) = (first, second) := by
    by_cases hrest : rest₅ = [] ∨ rest₅ = ['\n']
    · rw [if_pos hrest] at hend
      exact Option.some.inj hend
    · rw [if_neg hrest] at hend
      exact absurd hend (by simp)
  obtain ⟨rfl, rfl⟩ := Prod.mk.inj hpair
  refine ⟨fun c hc => afterLiteral_mem h₁ ((matchGroup_mem h₂).1 hc), fun c hc => ?_⟩
  have hthird : c ∈ rest₃ := (matchGroup_mem h₄).1 hc
  exact afterLiteral_mem h₁ ((matchGroup_mem h₂).2 (afterLiteral_mem h₃ hthird))

/-- Every reference that was read is in the documented charset. -/
structure Trail.Documented (trail : Trail) : Prop where
  hop : ∀ fromActor toActor, trail.delegation = some (fromActor, toActor) →
    HeadOfContext.Documented fromActor ∧ HeadOfContext.Documented toActor
  caps : ∀ cap ∈ trail.caps, HeadOfContext.Documented cap.resource

theorem capability_resource {kind resource : String} {cap : Capability}
    (h : capability kind resource = .ok cap) : cap.resource = resource := by
  rw [capability] at h
  split at h
  · exact absurd h (by simp)
  · exact (Capability.make_ok h).2

theorem Trail.Documented.readTrailLine {trail trail' : Trail} (ht : trail.Documented)
    {line : List Char} (hline : ∀ c ∈ line, isLineBreak c = false)
    (h : readTrailLine trail line = .ok trail') : trail'.Documented := by
  -- a line holds no line break, so neither does what is matched in it
  have hgroups : ∀ {name a b}, matchFactLine name line = some (a, b) →
      HeadOfContext.Documented a ∧ HeadOfContext.Documented b := fun hm =>
    ⟨documented_of_oneLine fun c hc => hline c ((matchFactLine_mem hm).1 c hc),
      documented_of_oneLine fun c hc => hline c ((matchFactLine_mem hm).2 c hc)⟩
  rw [HeadOfContext.readTrailLine] at h
  split at h
  · next hop hhop =>
    obtain ⟨_, -, h⟩ := bind_eq_ok.mp h
    obtain rfl := Except.ok.inj h
    refine ⟨fun f t hft => ?_, ht.caps⟩
    obtain rfl := Option.some.inj hft
    exact hgroups hhop
  · split at h
    · next kind resource hcap =>
      obtain ⟨cap, hmake, h⟩ := bind_eq_ok.mp h
      obtain rfl := Except.ok.inj h
      refine ⟨ht.hop, fun c hc => ?_⟩
      rcases List.mem_append.mp hc with hc | hc
      · exact ht.caps c hc
      · rw [List.mem_singleton.mp hc, capability_resource hmake]
        exact (hgroups hcap).2
    · obtain rfl := Except.ok.inj h
      exact ht

theorem Trail.Documented.readTrailLines {trail trail' : Trail} (ht : trail.Documented)
    {lines : List (List Char)} (hlines : ∀ line ∈ lines, ∀ c ∈ line, isLineBreak c = false)
    (h : readTrailLines trail lines = .ok trail') : trail'.Documented := by
  induction lines generalizing trail with
  | nil =>
    obtain rfl := Except.ok.inj h
    exact ht
  | cons line rest ih =>
    obtain ⟨hline, hrest⟩ := List.forall_mem_cons.mp hlines
    rw [HeadOfContext.readTrailLines] at h
    obtain ⟨next, hread, h⟩ := bind_eq_ok.mp h
    have hnext := ht.readTrailLine (fun c hc => hline c (mem_of_mem_strip hc)) hread
    exact ih hnext hrest h

/-- **What a trail block says is on its lines**: no reference in it ends in a line feed. -/
theorem parseTrailBlock_documented {source fromActor toActor : String} {declared : Scope}
    (h : parseTrailBlock source = .ok (some ((fromActor, toActor), declared))) :
    Documented fromActor ∧ Documented toActor ∧
      ∀ cap ∈ declared.sorted, Documented cap.resource := by
  rw [parseTrailBlock] at h
  obtain ⟨trail, hread, h⟩ := bind_eq_ok.mp h
  have hempty : Trail.Documented ⟨none, []⟩ :=
    ⟨fun _ _ hnone => absurd hnone (by simp), fun _ hc => absurd hc List.not_mem_nil⟩
  have htrail := hempty.readTrailLines (fun line hl c hc => isLineBreak_of_mem_splitLines hl hc)
    hread
  cases hop : trail.delegation with
  | none => simp [hop] at h
  | some hop' =>
    obtain ⟨f, t⟩ := hop'
    rw [hop] at h
    obtain ⟨hft, rfl⟩ := Prod.mk.inj (Option.some.inj (Except.ok.inj h))
    obtain ⟨rfl, rfl⟩ := Prod.mk.inj hft
    obtain ⟨hf, ht⟩ := htrail.hop _ _ hop
    exact ⟨hf, ht, fun cap hcap =>
      htrail.caps cap (Scope.mem_sorted_fromIterable.mp hcap)⟩

/-! ### The last block of the trail -/

variable {Text : Type}

/-- `Biscuit.from_base64(token, key)` verifies the token under that key, and its root key id
is the one in the text. -/
def BiscuitLib.Verifies (lib : BiscuitLib Text) : Prop :=
  ∀ token key b, lib.fromBase64 token key = some b →
    b.rootKey = key ∧ lib.rootKeyId token = some b.rootKeyId

theorem BiscuitLib.transparent_verifies : BiscuitLib.transparent.Verifies := by
  intro token key b h
  change (if key = token.rootKey then some token else none) = some b at h
  split at h
  · next hk =>
    obtain rfl := Option.some.inj h
    exact ⟨hk.symm, rfl⟩
  · exact absurd h (by simp)

/-- A loaded token is one the key ring can load again. -/
theorem load_eq_ok {lib : BiscuitLib Text} (hlib : lib.Verifies) {keyring : KeyRing} {token : Text}
    {l : Loaded} (h : load lib keyring token = .ok l) :
    keyring.publicKey l.biscuit.rootKeyId = .ok l.biscuit.rootKey ∧
      loadBiscuit lib l.biscuit = .ok l := by
  rw [load] at h
  cases hid : lib.rootKeyId token with
  | none => simp [hid] at h
  | some keyId =>
    rw [hid] at h
    obtain ⟨key, hkey, hdecode⟩ := bind_eq_ok.mp h
    cases hb : lib.fromBase64 token key with
    | none => simp [hb] at hdecode
    | some b =>
      rw [hb] at hdecode
      have hload : loadBiscuit lib b = .ok l := hdecode
      obtain ⟨hrootKey, hroot⟩ := hlib token key b hb
      have hkeyId : keyId = b.rootKeyId := Option.some.inj (hid.symm.trans hroot)
      rw [biscuit_of_loadBiscuit hload, ← hkeyId, hrootKey]
      exact ⟨hkey, hload⟩

/-- The hop that a delegated chain ends in is the one that its last block declares. -/
theorem followTrail_singleton {c c' : PrincipalChain} {block : Block} :
    followTrail c [block] = .ok c' ↔
      (parseTrailBlock block.source = .ok none ∧ c' = c) ∨
      ∃ toActor declared, parseTrailBlock block.source = .ok (some ((c.actor, toActor), declared)) ∧
        c.delegate toActor declared = .ok c' := by
  rw [followTrail]
  simp only [bind_eq_ok]
  constructor
  · rintro ⟨parsed, hparsed, h⟩
    cases parsed with
    | none => exact .inl ⟨hparsed, (Except.ok.inj h).symm⟩
    | some hop =>
      obtain ⟨⟨f, t⟩, declared⟩ := hop
      obtain ⟨_, hf, h⟩ := bind_eq_ok.mp h
      obtain ⟨c₁, hc₁, h⟩ := bind_eq_ok.mp h
      obtain rfl := Except.ok.inj h
      obtain rfl := not_not.mp (raiseIf_eq_ok.mp hf)
      exact .inr ⟨t, declared, hparsed, hc₁⟩
  · rintro (⟨hparsed, rfl⟩ | ⟨t, declared, hparsed, hc⟩)
    · exact ⟨none, hparsed, rfl⟩
    · refine ⟨_, hparsed, bind_eq_ok.mpr ⟨(), raiseIf_eq_ok.mpr (not_not.mpr rfl), ?_⟩⟩
      exact bind_eq_ok.mpr ⟨c', hc, rfl⟩

namespace TokenService

variable {svc : TokenService Text}

theorem hopToken_blocks {l : Loaded} {toActor : String} {scope : Scope} {id : String} :
    (svc.hopToken l toActor scope id).blocks =
      l.biscuit.blocks ++ [(attenuationBuilder l.chain.actor toActor scope).build svc.lib id] := rfl

/-- **Loading the longer token** adds its last block to what its parent loads as. -/
theorem load_hopToken (hlib : svc.lib.Verifies) {token : Text} {l : Loaded}
    (hl : load svc.lib svc.keyring token = .ok l) {toActor : String} {scope : Scope} {id : String}
    {l' : Loaded} :
    load svc.lib svc.keyring (svc.lib.toBase64 (svc.hopToken l toActor scope id)) = .ok l' ↔
      l.biscuit.blocks.length < MAX_DELEGATION_DEPTH ∧
      followTrail l.chain [(attenuationBuilder l.chain.actor toActor scope).build svc.lib id] =
        .ok l'.chain ∧
      l' = ⟨svc.hopToken l toActor scope id, l'.chain, l.expiresAt, l.mandateId⟩ := by
  obtain ⟨hkey, hparent⟩ := load_eq_ok hlib hl
  obtain ⟨-, authority, mandateId, root, chain, ha, hm, hr, hc, heq⟩ := loadBiscuit_eq_ok.mp hparent
  have hchain : l.chain = chain := by rw [heq]
  have hexp : l.expiresAt = authority.expiresAt := by rw [heq]
  have hman : l.mandateId = mandateId := by rw [heq]
  have hlen : (svc.hopToken l toActor scope id).blocks.length = l.biscuit.blocks.length + 1 := by
    rw [hopToken_blocks, List.length_append, List.length_singleton]
  rw [load_toBase64, loadBiscuit_eq_ok, hlen]
  constructor
  · rintro ⟨-, hdepth, authority', mandateId', root', chain', ha', hm', hr', hc', rfl⟩
    -- the authority block is the parent's, so both replay from one root
    obtain rfl : authority = authority' := Except.ok.inj (ha.symm.trans ha')
    obtain rfl : mandateId = mandateId' := Except.ok.inj (hm.symm.trans hm')
    obtain rfl : root = root' := Except.ok.inj (hr.symm.trans hr')
    rw [hopToken_blocks] at hc'
    obtain ⟨c₁, h₁, h₂⟩ := followTrail_append.mp hc'
    obtain rfl : chain = c₁ := Except.ok.inj (hc.symm.trans h₁)
    refine ⟨hdepth, ?_, ?_⟩
    · rw [hchain]
      exact hchain ▸ h₂
    · rw [hexp, hman]
  · rintro ⟨hdepth, htrail, hl'⟩
    refine ⟨hkey, hdepth, authority, mandateId, root, l'.chain, ha, hm, hr, ?_, ?_⟩
    · rw [hopToken_blocks]
      exact followTrail_append.mpr ⟨chain, hc, hchain ▸ htrail⟩
    · rw [hl', hexp, hman]

/-! ### The round trip -/

/-- The issued token loads back as it was issued: `load` accepts it and rebuilds its chain,
expiry, mandate id and revocation ids; the chain is the parent's delegated to `toActor` with
that scope, and the ids are the parent's block ids, one new id and the mandate if any. -/
structure Reloads (svc : TokenService Text) (parent : Loaded) (toActor : String) (scope : Scope)
    (issued : IssuedToken Text) : Prop where
  accepted : ∃ l, load svc.lib svc.keyring issued.token = .ok l ∧ l.chain = issued.chain ∧
    l.expiresAt = issued.expiresAt ∧ l.mandateId = issued.mandateId ∧
    l.revocationIds = issued.revocationIds
  delegated : parent.chain.delegate toActor scope = .ok issued.chain
  ids : ∃ id, issued.revocationIds =
    withMandate (parent.biscuit.revocationIds ++ [id]) parent.mandateId

/-- The writer of the hop and its reader agree: one more block is not too many, and every
reference of the hop is in the documented charset. -/
structure HopReadable (parent : Loaded) (toActor : String) (scope : Scope) : Prop where
  blocks : parent.biscuit.blocks.length < MAX_DELEGATION_DEPTH
  holder : Documented parent.chain.actor
  target : Documented toActor
  resources : ∀ cap ∈ scope.sorted, Documented cap.resource

/-- **Attenuation and loading round-trip exactly when the hop is readable.** -/
theorem attenuation_reloads_iff (hlib : svc.lib.Verifies) {token : Text} {toActor : String}
    {scope : Scope} {tr : Trace TokenSig} {issued : IssuedToken Text}
    (h : Raises.Run (svc.attenuate token toActor scope) tr (.ok issued)) {l : Loaded}
    (hl : load svc.lib svc.keyring token = .ok l) :
    Reloads svc l toActor scope issued ↔ HopReadable l toActor scope := by
  obtain ⟨l₀, c, id, at_, eventId, hto, hl₀, -, hc, -, rfl⟩ := attenuate_run h
  obtain rfl : l = l₀ := Except.ok.inj (hl.symm.trans hl₀)
  constructor
  · rintro ⟨⟨l', hl', hchain, -⟩, -, -⟩
    obtain ⟨hblocks, htrail, -⟩ := (load_hopToken hlib hl).mp hl'
    rw [show l'.chain = c from hchain] at htrail
    rcases followTrail_singleton.mp htrail with ⟨-, rfl⟩ | ⟨to', declared, hparsed, hc'⟩
    · -- an opaque block leaves the chain one link short
      have hdepth := PrincipalChain.depth_delegate hc
      omega
    · obtain ⟨-, -, ha, hs, -⟩ := PrincipalChain.delegate_ok hc
      obtain ⟨-, -, ha', hs', -⟩ := PrincipalChain.delegate_ok hc'
      obtain rfl : to' = toActor := ha'.symm.trans ha
      obtain rfl : declared = scope := hs'.symm.trans hs
      obtain ⟨hholder, htarget, hresources⟩ := parseTrailBlock_documented hparsed
      exact ⟨hblocks, hholder, htarget, hresources⟩
  · rintro ⟨hblocks, hholder, htarget, hresources⟩
    have hparsed : parseTrailBlock
        ((attenuationBuilder l.chain.actor toActor scope).build svc.lib id).source =
          .ok (some ((l.chain.actor, toActor), scope)) :=
      parseTrailBlock_built svc.lib l.chain.actor_isRef hto hholder htarget hresources
    have hload : load svc.lib svc.keyring (svc.lib.toBase64 (svc.hopToken l toActor scope id)) =
        .ok ⟨svc.hopToken l toActor scope id, c, l.expiresAt, l.mandateId⟩ :=
      (load_hopToken hlib hl).mpr ⟨hblocks,
        followTrail_singleton.mpr (.inr ⟨toActor, scope, hparsed, hc⟩), rfl⟩
    refine ⟨⟨_, hload, rfl, rfl, rfl, rfl⟩, hc, id, ?_⟩
    rw [hopToken_revocationIds]

/-- The law at one hop of the reader's token. -/
theorem attenuation_reloads_hop :
    ∃ tr issued l, Raises.Run
        (oneKey.attenuate readerToken "agent:b" PrincipalChain.aliceReader.scope) tr (.ok issued) ∧
      load oneKey.lib oneKey.keyring readerToken = .ok l ∧
      Reloads oneKey l "agent:b" PrincipalChain.aliceReader.scope issued := by
  have hload : (load oneKey.lib oneKey.keyring readerToken).returns
      (fun l => l.biscuit.blocks.isEmpty && l.chain.actor == "agent:a") = true := by
    decide +kernel
  have hissue : ((oneKey.attenuate readerToken "agent:b" PrincipalChain.aliceReader.scope).result
      (S := TokenSig) (fixedAt 0 fun _ => false)).returns (fun _ => true) = true := by
    decide +kernel
  obtain ⟨l, hl, hparent⟩ := Except.returns_iff.mp hload
  obtain ⟨issued, hissued, -⟩ := Except.returns_iff.mp hissue
  obtain ⟨hblocks, hactor⟩ := Bool.and_eq_true_iff.mp hparent
  have hrun := Raises.run_result (S := TokenSig) (fixedAt 0 fun _ => false)
    (oneKey.attenuate readerToken "agent:b" PrincipalChain.aliceReader.scope)
  rw [hissued] at hrun
  refine ⟨_, issued, l, hrun, hl,
    (attenuation_reloads_iff BiscuitLib.transparent_verifies hrun hl).mpr ⟨?_, ?_, ?_, ?_⟩⟩
  · rw [List.isEmpty_iff.mp hblocks]
    decide
  · rw [beq_iff_eq.mp hactor]
    decide
  · decide
  · decide +kernel

/-- The reader's token with eight blocks that check the caller: as many as `load` accepts, and
none of them a link of the chain. -/
def crowdedToken : Biscuit := readerToken.append (List.replicate 8 callerBlock)

/-- `attenuate` counts no link of the crowded token and issues a ninth block, which `load`
refuses. -/
theorem crowded_not_reloaded :
    (load oneKey.lib oneKey.keyring crowdedToken).returns (fun l => l.chain.depth == 0) = true ∧
    ((oneKey.attenuate crowdedToken "agent:b" PrincipalChain.aliceReader.scope).result
      (S := TokenSig) (fixedAt 0 fun _ => false)).returns (fun issued =>
        !(load oneKey.lib oneKey.keyring issued.token).returns fun _ => true) = true ∧
    ∃ tr issued l, Raises.Run
        (oneKey.attenuate crowdedToken "agent:b" PrincipalChain.aliceReader.scope) tr (.ok issued) ∧
      load oneKey.lib oneKey.keyring crowdedToken = .ok l ∧
      ¬ Reloads oneKey l "agent:b" PrincipalChain.aliceReader.scope issued := by
  have hload : (load oneKey.lib oneKey.keyring crowdedToken).returns
      (fun l => l.chain.depth == 0) = true := by
    decide +kernel
  have hissue : ((oneKey.attenuate crowdedToken "agent:b" PrincipalChain.aliceReader.scope).result
      (S := TokenSig) (fixedAt 0 fun _ => false)).returns (fun issued =>
        !(load oneKey.lib oneKey.keyring issued.token).returns fun _ => true) = true := by
    decide +kernel
  obtain ⟨l, hl, -⟩ := Except.returns_iff.mp hload
  obtain ⟨issued, hissued, hrefused⟩ := Except.returns_iff.mp hissue
  have hrun := Raises.run_result (S := TokenSig) (fixedAt 0 fun _ => false)
    (oneKey.attenuate crowdedToken "agent:b" PrincipalChain.aliceReader.scope)
  rw [hissued] at hrun
  refine ⟨hload, hissue, _, issued, l, hrun, hl, ?_⟩
  rintro ⟨⟨l', hl', -⟩, -, -⟩
  rw [hl'] at hrefused
  exact absurd hrefused (by simp [Except.returns])

end TokenService

end HeadOfContext
