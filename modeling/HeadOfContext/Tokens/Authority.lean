import HeadOfContext.Tokens.Datalog

/-!
# Reading back an authority block

`read_authority` inverts `authority_builder`: it returns the subject, the actor and the
scope it was given, and the expiry cut to whole seconds. The scope is written with the
stars of its patterns stripped and read with the stars put back, so the round trip goes
capability by capability (`capabilities_map`).
-/

namespace HeadOfContext

open Datalog Biscuit PyText Except

/-! ### Queries with one atom -/

/-- A query with one atom selects the terms of the matching facts. -/
theorem mem_query_one {a : Authorizer} {b : Biscuit} {name x : String} {vs : List Value} :
    vs ∈ a.query b [.var x] ⟨name, [.var x]⟩ ↔ ∃ v, vs = [v] ∧ ⟨name, [v]⟩ ∈ a.visible b := by
  have hsafe : Body.Safe (V := Value) ⟨[⟨name, [.var x]⟩], []⟩ :=
    fun g hg => absurd hg List.not_mem_nil
  have hout : Body.Binds (V := Value) ⟨[⟨name, [.var x]⟩], []⟩ [.var x] := by
    intro y hy
    simpa [atomVars] using hy
  rw [Authorizer.query, Body.mem_select hsafe hout]
  constructor
  · rintro ⟨σ, hσ, rfl⟩
    exact ⟨σ x, rfl, hσ.atoms _ (List.mem_singleton.mpr rfl)⟩
  · rintro ⟨v, rfl, hv⟩
    refine ⟨fun _ => v, ⟨fun a ha => ?_, fun g hg => absurd hg List.not_mem_nil⟩, rfl⟩
    rw [List.mem_singleton.mp ha]
    exact hv

theorem mem_query_two {a : Authorizer} {b : Biscuit} {name x y : String} {vs : List Value}
    (hxy : x ≠ y) :
    vs ∈ a.query b [.var x, .var y] ⟨name, [.var x, .var y]⟩ ↔
      ∃ v w, vs = [v, w] ∧ ⟨name, [v, w]⟩ ∈ a.visible b := by
  have hsafe : Body.Safe (V := Value) ⟨[⟨name, [.var x, .var y]⟩], []⟩ :=
    fun g hg => absurd hg List.not_mem_nil
  have hout : Body.Binds (V := Value) ⟨[⟨name, [.var x, .var y]⟩], []⟩ [.var x, .var y] := by
    intro z hz
    simpa [atomVars] using hz
  rw [Authorizer.query, Body.mem_select hsafe hout]
  constructor
  · rintro ⟨σ, hσ, rfl⟩
    exact ⟨σ x, σ y, rfl, hσ.atoms _ (List.mem_singleton.mpr rfl)⟩
  · rintro ⟨v, w, rfl, hvw⟩
    refine ⟨fun z => if z = x then v else w, ⟨fun a ha => ?_, fun g hg => absurd hg
      List.not_mem_nil⟩, ?_⟩
    · rw [List.mem_singleton.mp ha]
      simpa [Atom.inst, Term.eval, hxy.symm] using hvw
    · simp [Term.eval, hxy.symm]

theorem nodup_query {a : Authorizer} {b : Biscuit} {out : List (Term Value)} {atom : Atom Value} :
    (a.query b out atom).Nodup :=
  List.nodup_dedup _

/-- A list without repetitions is determined by its single member. -/
theorem eq_singleton_of_nodup {α : Type} {l : List α} {x : α} (hl : l.Nodup)
    (h : ∀ y, y ∈ l ↔ y = x) : l = [x] := by
  cases l with
  | nil => exact absurd ((h x).mpr rfl) List.not_mem_nil
  | cons y rest =>
    obtain rfl := (h y).mp List.mem_cons_self
    cases rest with
    | nil => rfl
    | cons z rest =>
      obtain rfl := (h z).mp (List.mem_cons_of_mem _ List.mem_cons_self)
      exact absurd List.mem_cons_self (List.nodup_cons.mp hl).1

theorem visible_reading (b : Biscuit) : readingAuthorizer.visible b = b.authority :=
  List.append_nil _

/-- `_single` returns the one value of the fact. -/
theorem single_ok {b : Biscuit} {name : String} {v : Value}
    (h : ∀ w, ⟨name, [w]⟩ ∈ b.authority ↔ w = v) : single b name = .ok v := by
  have hquery : readingAuthorizer.query b [.var "x"] ⟨name, [.var "x"]⟩ = [[v]] := by
    refine eq_singleton_of_nodup nodup_query fun vs => ?_
    rw [mem_query_one, visible_reading]
    constructor
    · rintro ⟨w, rfl, hw⟩
      rw [(h w).mp hw]
    · rintro rfl
      exact ⟨v, rfl, (h v).mpr rfl⟩
  rw [single, hquery]

/-! ### Capabilities -/

variable {Text : Type} (lib : BiscuitLib Text)

/-- A list of values of `f` is the image of a list. -/
theorem exists_map_eq {α β : Type} {f : α → β} {P : α → Prop} {l : List β}
    (h : ∀ y ∈ l, ∃ x, P x ∧ f x = y) : ∃ xs : List α, (∀ x ∈ xs, P x) ∧ xs.map f = l := by
  induction l with
  | nil => exact ⟨[], fun _ hx => absurd hx List.not_mem_nil, rfl⟩
  | cons y l ih =>
    obtain ⟨x, hx, rfl⟩ := h y List.mem_cons_self
    obtain ⟨xs, hxs, rfl⟩ := ih fun z hz => h z (List.mem_cons_of_mem _ hz)
    exact ⟨x :: xs, List.forall_mem_cons.mpr ⟨hx, hxs⟩, rfl⟩

/-- Capabilities read back from their own rows. -/
theorem capabilities_map {star : String} {cut : Capability → String} {caps : List Capability}
    (h : ∀ cap ∈ caps, cut cap ++ star = cap.resource) :
    capabilities lib star (caps.map fun cap => [.str cap.kind.str, .str (cut cap)]) = .ok caps := by
  induction caps with
  | nil => rfl
  | cons cap caps ih =>
    have hcap : capability cap.kind.str (cut cap ++ star) = .ok cap := by
      rw [h cap List.mem_cons_self, capability, Kind.ofStr_str]
      exact cap.make_self
    rw [List.map_cons, capabilities, lib.strValue_str, lib.strValue_str, hcap,
      ih fun c hc => h c (List.mem_cons_of_mem _ hc)]
    rfl

theorem dropLast_append_star {cap : Capability} (h : cap.isPattern = true) :
    dropLast cap.resource ++ "*" = cap.resource := by
  obtain ⟨p, hp⟩ := Capability.isPattern_iff.mp h
  rw [← String.toList_inj, String.toList_append, toList_dropLast, hp, List.dropLast_concat]
  rfl

/-- The capabilities behind the facts of one of the two names. -/
theorem capabilities_query {b : Biscuit} (star : String) {name x y : String}
    {cut : Capability → String}
    {caps : List Capability} (hxy : x ≠ y)
    (hfacts : ∀ v w, ⟨name, [v, w]⟩ ∈ b.authority ↔
      ∃ cap ∈ caps, v = .str cap.kind.str ∧ w = .str (cut cap))
    (hcut : ∀ cap ∈ caps, cut cap ++ star = cap.resource) :
    ∃ out, capabilities lib star
        (readingAuthorizer.query b [.var x, .var y] ⟨name, [.var x, .var y]⟩) = .ok out ∧
      ∀ cap, cap ∈ out ↔ cap ∈ caps := by
  obtain ⟨out, hout, hrows⟩ := exists_map_eq
    (f := fun cap : Capability => [Value.str cap.kind.str, Value.str (cut cap)])
    (P := fun cap => cap ∈ caps)
    (l := readingAuthorizer.query b [.var x, .var y] ⟨name, [.var x, .var y]⟩) (by
      intro vs hvs
      rw [mem_query_two hxy, visible_reading] at hvs
      obtain ⟨v, w, rfl, hvw⟩ := hvs
      obtain ⟨cap, hcap, rfl, rfl⟩ := (hfacts v w).mp hvw
      exact ⟨cap, hcap, rfl⟩)
  refine ⟨out, ?_, fun cap => ⟨hout cap, fun hcap => ?_⟩⟩
  · rw [← hrows]
    exact capabilities_map lib fun cap hcap => hcut cap (hout cap hcap)
  · have hrow : [Value.str cap.kind.str, Value.str (cut cap)] ∈
        out.map fun cap => [Value.str cap.kind.str, Value.str (cut cap)] := by
      rw [hrows, mem_query_two hxy, visible_reading]
      exact ⟨_, _, rfl, (hfacts _ _).mpr ⟨cap, hcap, rfl, rfl⟩⟩
    obtain ⟨cap', hcap', heq⟩ := List.mem_map.mp hrow
    -- two rows are equal only if the capabilities are
    have hkind : cap'.kind = cap.kind := by
      refine Kind.str_injective ?_
      simpa using congrArg List.head? heq
    have hres : cut cap' = cut cap := by
      have := (List.cons.inj (List.cons.inj heq).2).1
      exact Value.str.inj this
    have hsame : cap' = cap := by
      refine Capability.ext hkind ?_
      rw [← hcut cap' (hout cap' hcap'), ← hcut cap hcap, hres]
    rw [← hsame]
    exact hcap'

/-! ### The facts of an issued block -/

variable {subject actor : String} {scope : Scope} {issuedAt expiresAt : ℤ}
  {mandateId : Option String}

/-- The facts of `authority_builder`, by name. -/
theorem mem_authorityBuilder {f : Fact Value} :
    f ∈ (authorityBuilder subject actor scope issuedAt expiresAt mandateId).facts ↔
      f = ⟨"subject", [.str subject]⟩ ∨ f = ⟨"actor", [.str actor]⟩ ∨
      f = ⟨"issued_at", [.ofInstant issuedAt]⟩ ∨ f = ⟨"expires_at", [.ofInstant expiresAt]⟩ ∨
      (∃ cap ∈ scope.sorted, f = capFact cap) ∨
      ∃ id, mandateId = some id ∧ f = ⟨"mandate", [.str id]⟩ := by
  cases mandateId with
  | none => simp [authorityBuilder, eq_comm]
  | some id => simp [authorityBuilder, eq_comm]

/-- The fact of a capability has one of two names. -/
theorem capFact_name (cap : Capability) :
    (capFact cap).name = if cap.isPattern then "cap_prefix" else "cap_exact" := by
  unfold capFact
  split <;> rfl

theorem eq_capFact_plain {cap : Capability} {v w : Value} :
    ⟨"cap_exact", [v, w]⟩ = capFact cap ↔
      cap.isPattern = false ∧ v = .str cap.kind.str ∧ w = .str cap.resource := by
  cases hp : cap.isPattern <;> simp [capFact, hp]

theorem eq_capFact_pattern {cap : Capability} {v w : Value} :
    ⟨"cap_prefix", [v, w]⟩ = capFact cap ↔
      cap.isPattern = true ∧ v = .str cap.kind.str ∧ w = .str (dropLast cap.resource) := by
  cases hp : cap.isPattern <;> simp [capFact, hp]

theorem mem_cap_exact {v w : Value} :
    ⟨"cap_exact", [v, w]⟩ ∈
        (authorityBuilder subject actor scope issuedAt expiresAt mandateId).facts ↔
      ∃ cap ∈ scope.sorted.filter (!·.isPattern),
        v = .str cap.kind.str ∧ w = .str cap.resource := by
  rw [mem_authorityBuilder]
  simp only [Fact.mk.injEq, String.reduceEq, false_and, false_or, and_false, exists_false, or_false]
  refine exists_congr fun cap => ?_
  rw [eq_capFact_plain, List.mem_filter, Bool.not_eq_true', and_assoc]

theorem mem_cap_prefix {v w : Value} :
    ⟨"cap_prefix", [v, w]⟩ ∈
        (authorityBuilder subject actor scope issuedAt expiresAt mandateId).facts ↔
      ∃ cap ∈ scope.sorted.filter (·.isPattern),
        v = .str cap.kind.str ∧ w = .str (dropLast cap.resource) := by
  rw [mem_authorityBuilder]
  simp only [Fact.mk.injEq, String.reduceEq, false_and, false_or, and_false, exists_false, or_false]
  refine exists_congr fun cap => ?_
  rw [eq_capFact_pattern, List.mem_filter, and_assoc]

/-- A fact with one term is one of the four dates and names, or the mandate. -/
theorem mem_authority_one {name : String} {v : Value} :
    ⟨name, [v]⟩ ∈ (authorityBuilder subject actor scope issuedAt expiresAt mandateId).facts ↔
      (name = "subject" ∧ v = .str subject) ∨ (name = "actor" ∧ v = .str actor) ∨
      (name = "issued_at" ∧ v = .ofInstant issuedAt) ∨
      (name = "expires_at" ∧ v = .ofInstant expiresAt) ∨
      ∃ id, mandateId = some id ∧ name = "mandate" ∧ v = .str id := by
  have hcap : ¬ ∃ cap ∈ scope.sorted, (⟨name, [v]⟩ : Fact Value) = capFact cap := by
    rintro ⟨cap, -, heq⟩
    have hlen := congrArg (fun f : Fact Value => f.terms.length) heq
    unfold capFact at hlen
    split at hlen <;> simp at hlen
  rw [mem_authorityBuilder, or_iff_right hcap]
  simp

/-- **The authority block reads back as it was written**, its expiry in whole seconds. -/
theorem readAuthority_built {b : Biscuit}
    (h : b.authority =
      (authorityBuilder subject actor scope issuedAt expiresAt mandateId).facts) :
    readAuthority lib b = .ok ⟨subject, actor, scope, expiresAt / 1000000 * 1000000⟩ := by
  have hsubject : single b "subject" = .ok (.str subject) := by
    refine single_ok fun w => ?_
    rw [h, mem_authority_one]
    simp
  have hactor : single b "actor" = .ok (.str actor) := by
    refine single_ok fun w => ?_
    rw [h, mem_authority_one]
    simp
  have hexpires : single b "expires_at" = .ok (.ofInstant expiresAt) := by
    refine single_ok fun w => ?_
    rw [h, mem_authority_one]
    simp
  -- exact capabilities and patterns are read back apart, and make up the scope
  obtain ⟨exact, hexact, hmemExact⟩ := capabilities_query lib (b := b) ""
    (x := "k") (y := "r") (by decide) (fun v w => by rw [h]; exact mem_cap_exact)
    (fun cap _ => String.append_empty)
  obtain ⟨patterns, hpatterns, hmemPatterns⟩ := capabilities_query lib (b := b) "*"
    (x := "k") (y := "p") (by decide) (fun v w => by rw [h]; exact mem_cap_prefix)
    (fun cap hcap => dropLast_append_star (List.mem_filter.mp hcap).2)
  have hscope : Scope.fromIterable (exact ++ patterns) = scope := by
    refine Scope.ext fun cap => ?_
    rw [Scope.mem_sorted_fromIterable, List.mem_append, hmemExact, hmemPatterns]
    simp only [List.mem_filter]
    cases cap.isPattern <;> simp
  rw [readAuthority, hsubject, hactor, hexpires]
  simp only [ok_bind, hexact, hpatterns, lib.strValue_str, hscope]
  rfl

/-- The mandate reads back as it was written. -/
theorem readMandate_built {b : Biscuit}
    (h : b.authority =
      (authorityBuilder subject actor scope issuedAt expiresAt mandateId).facts) :
    readMandate lib b = .ok mandateId := by
  -- the query finds the mandate fact, if there is one
  have hmem : ∀ vs, vs ∈ readingAuthorizer.query b [.var "m"] ⟨"mandate", [.var "m"]⟩ ↔
      ∃ id, mandateId = some id ∧ vs = [.str id] := by
    intro vs
    rw [mem_query_one, visible_reading, h]
    simp only [mem_authority_one]
    constructor
    · rintro ⟨v, rfl, hv⟩
      simpa using hv
    · rintro ⟨id, hid, rfl⟩
      exact ⟨_, rfl, by simp [hid]⟩
  cases mandateId with
  | none =>
    have hnil : readingAuthorizer.query b [.var "m"] ⟨"mandate", [.var "m"]⟩ = [] := by
      refine List.eq_nil_iff_forall_not_mem.mpr fun vs hvs => ?_
      obtain ⟨id, hid, -⟩ := (hmem vs).mp hvs
      exact absurd hid (by simp)
    rw [readMandate, hnil]
  | some id =>
    have hone : readingAuthorizer.query b [.var "m"] ⟨"mandate", [.var "m"]⟩ = [[.str id]] := by
      refine eq_singleton_of_nodup nodup_query fun vs => ?_
      rw [hmem]
      simp
    rw [readMandate, hone]
    exact congrArg (fun s => Except.ok (some s)) (lib.strValue_str id)

end HeadOfContext
