import HeadOfContext.Identity.Oidc
import Mathlib.Algebra.Order.Field.Rat
import Mathlib.Tactic.Linarith

/-!
# How often the keys are asked for

The requests for the keys in a window of time that is shorter than the life of a key set. Those
that a failed token forces are spaced by `jwks_min_refresh`, whatever they are answered. Those that
are made because there are no fresh keys are not spaced at all: one that is answered with keys is
the only one of the window, and one that fails is repeated by the next call
(`OidcProvider.requests_while_down`).

`Ledger` is the account of both kinds, and an invariant of every run in which no request of the
second kind fails.
-/

namespace HeadOfContext

namespace OidcProvider

variable {K : Type} {self : OidcProvider K} {s : OidcState K}

/-! ### What each step does -/

/-- Discovery leaves the keys and the clock alone. -/
theorem discover_cases (self : OidcProvider K) (s : OidcState K) :
    ∃ metadata discoveries, (self.discover s).2 =
      { s with metadata := metadata, discoveries := discoveries } := by
  obtain ⟨metadata, keys, fetched, forced, readings, discoveries, requests⟩ := s
  cases metadata with
  | some uri => exact ⟨some uri, discoveries, rfl⟩
  | none =>
    unfold discover
    cases hanswer : self.discovery discoveries with
    | error exc => exact ⟨none, discoveries + 1, rfl⟩
    | ok uri => exact ⟨some uri, discoveries + 1, rfl⟩

/-- Whether the keys are fresh is a matter of one reading of the clock, if any. -/
theorem fresh_cases (self : OidcProvider K) (s : OidcState K) :
    ∃ n, (self.fresh s).2 = { s with readings := s.readings + n } := by
  obtain ⟨metadata, keys, fetched, forced, readings, discoveries, requests⟩ := s
  cases keys with
  | none => exact ⟨0, rfl⟩
  | some keys =>
    cases fetched with
    | none => exact ⟨0, rfl⟩
    | some fetched => exact ⟨1, rfl⟩

/-- Keys are fresh if they were fetched less than their life ago. -/
theorem fresh_of_fetched {keys : K} {fetched : ℤ} (hkeys : s.keys = some keys)
    (hfetched : s.keysFetchedAt = some fetched) :
    self.fresh s = (decide (self.clock s.readings - fetched < self.jwksTtl),
      { s with readings := s.readings + 1 }) := by
  obtain ⟨metadata, keys, fetched, forced, readings, discoveries, requests⟩ := s
  obtain rfl := hkeys
  obtain rfl := hfetched
  rfl

/-- What a fetch does: discovery fails, or the request is made and fails, or it brings keys. -/
theorem fetch_cases (self : OidcProvider K) (why : JwksRequest) (s : OidcState K) :
    ∃ metadata discoveries,
      (self.fetch why s).2 = { s with metadata := metadata, discoveries := discoveries } ∨
      (self.jwks s.requests.length = none ∧ (self.fetch why s).2 =
        { s with metadata := metadata, discoveries := discoveries,
                 requests := s.requests ++ [why] }) ∨
      ∃ keys, (self.fetch why s).2 =
        { s with
          metadata := metadata, discoveries := discoveries, requests := s.requests ++ [why],
          keys := some keys, keysFetchedAt := some (self.clock s.readings),
          readings := s.readings + 1 } := by
  obtain ⟨metadata, discoveries, hdiscover⟩ := discover_cases self s
  refine ⟨metadata, discoveries, ?_⟩
  unfold fetch
  generalize self.discover s = found at hdiscover ⊢
  obtain ⟨result, s'⟩ := found
  obtain rfl := hdiscover
  cases result with
  | error exc => exact .inl rfl
  | ok uri =>
    cases hanswer : self.jwks s.requests.length with
    | none => exact .inr (.inl ⟨rfl, by simp only [hanswer]⟩)
    | some keys => exact .inr (.inr ⟨keys, by simp only [hanswer]; rfl⟩)

theorem fetch_readings (self : OidcProvider K) (why : JwksRequest) (s : OidcState K) :
    s.readings ≤ (self.fetch why s).2.readings := by
  obtain ⟨_, _, h | ⟨-, h⟩ | ⟨_, h⟩⟩ := fetch_cases self why s
  · exact le_of_eq (by rw [h])
  · exact le_of_eq (by rw [h])
  · rw [h]
    exact Nat.le_succ _

/-- With fresh keys nothing is asked; without, the keys are. -/
theorem keySet_false (self : OidcProvider K) (s : OidcState K) :
    (self.keySet false s).2 =
      if (self.fresh s).1 then (self.fresh s).2 else (self.fetch .needed (self.fresh s).2).2 := by
  obtain ⟨metadata, keys, fetched, forced, readings, discoveries, requests⟩ := s
  cases keys with
  | none => rfl
  | some keys =>
    cases fetched with
    | none => rfl
    | some fetched =>
      rw [fresh_of_fetched rfl rfl, keySet, fresh_of_fetched rfl rfl]
      simp only [Bool.not_false, Bool.and_true]
      split <;> rfl

/-- A forced refresh asks for the keys. -/
theorem keySet_true (self : OidcProvider K) (s : OidcState K) :
    self.keySet true s = self.fetch .forced (self.fresh s).2 := by
  obtain ⟨metadata, keys, fetched, forced, readings, discoveries, requests⟩ := s
  cases keys with
  | none => rfl
  | some keys =>
    cases fetched with
    | none => rfl
    | some fetched =>
      rw [keySet, fresh_of_fetched rfl rfl]
      simp only [Bool.not_true, Bool.and_false]
      rfl

/-- The claims are read at one more reading of the clock, and nothing else happens. -/
theorem identity_state (self : OidcProvider K) (claims : Json) (s : OidcState K) :
    (self.identity claims s).2 = { s with readings := s.readings + 1 } := by
  unfold identity
  simp only [now]
  split
  · rfl
  · split <;> rfl

/-- A forced refresh starts: after the reading that allows it, if one is needed, one more reading
is kept. -/
def Forcing (self : OidcProvider K) (s s' : OidcState K) : Prop :=
  (s.lastForcedAt = none ∧
    s' = { s with readings := s.readings + 1, lastForcedAt := some (self.clock s.readings) }) ∨
  ∃ last, s.lastForcedAt = some last ∧ self.jwksMinRefresh ≤ self.clock s.readings - last ∧
    s' = { s with readings := s.readings + 2, lastForcedAt := some (self.clock (s.readings + 1)) }

/-- What is left of a call once its refresh is forced only reads the clock. -/
theorem refreshed_state (self : OidcProvider K) (token : String) (s : OidcState K) :
    ∃ n, (match self.keySet true s with
      | (.error exc, s) => ((.error exc, s) : Except HocError VerifiedIdentity × OidcState K)
      | (.ok keys, s) =>
        match self.decodeToken token keys with
        | .error exc => (.error exc, s)
        | .ok claims => self.identity claims s).2 =
      { (self.keySet true s).2 with readings := (self.keySet true s).2.readings + n } := by
  obtain ⟨result, s⟩ := self.keySet true s
  cases result with
  | error exc => exact ⟨0, rfl⟩
  | ok keys =>
    cases hdecode : self.decodeToken token keys with
    | error exc => exact ⟨0, by simp only [hdecode, Nat.add_zero]⟩
    | ok claims => exact ⟨1, by simp only [hdecode, identity_state]⟩

/-- **What one call does**, after it has its first keys or has failed to get them: it reads the
clock, or forces one refresh before it does. -/
theorem verifyUserToken_cases (self : OidcProvider K) (token : String) (s : OidcState K) :
    ∃ n, (self.verifyUserToken token s).2 =
        { (self.keySet false s).2 with readings := (self.keySet false s).2.readings + n } ∨
      ∃ s', self.Forcing (self.keySet false s).2 s' ∧ (self.verifyUserToken token s).2 =
        { (self.keySet true s').2 with readings := (self.keySet true s').2.readings + n } := by
  unfold verifyUserToken
  obtain ⟨result, s₁⟩ := self.keySet false s
  cases result with
  | error exc => exact ⟨0, .inl rfl⟩
  | ok keys =>
    cases hdecode : self.decodeToken token keys with
    | ok claims => exact ⟨1, .inl (by simp only [hdecode, identity_state])⟩
    | error exc =>
      obtain ⟨metadata, keys, fetched, forced, readings, discoveries, requests⟩ := s₁
      -- decoding failed: keys are forced if they never were, or long enough ago
      cases forced with
      | none =>
        obtain ⟨n, hn⟩ := refreshed_state self token
          ⟨metadata, keys, fetched, some (self.clock readings), readings + 1, discoveries, requests⟩
        refine ⟨n, .inr ⟨_, .inl ⟨rfl, rfl⟩, ?_⟩⟩
        simp only [hdecode]
        exact hn
      | some last =>
        simp only [hdecode, mayForceRefresh, now]
        by_cases hmay : self.jwksMinRefresh ≤ self.clock readings - last
        · obtain ⟨n, hn⟩ := refreshed_state self token
            ⟨metadata, keys, fetched, some (self.clock (readings + 1)), readings + 2, discoveries,
              requests⟩
          refine ⟨n, .inr ⟨_, .inr ⟨last, rfl, hmay, rfl⟩, ?_⟩⟩
          simp only [hmay, decide_true]
          exact hn
        · refine ⟨1, .inl ?_⟩
          simp only [hmay, decide_false]

/-! ### The account of a window -/

/-- The last forced refresh was read in the window, and leaves room for so many before it. -/
def Spaced (self : OidcProvider K) (start n : ℤ) (s : OidcState K) : Prop :=
  ∃ i < s.readings, s.lastForcedAt = some (self.clock i) ∧
    n * self.jwksMinRefresh ≤ self.clock i - start

/-- **The requests since the start of a window.** One that was needed brought the keys there are;
those that were forced are spaced. -/
structure Ledger (provider : OidcProvider K) (start : ℤ) (s : OidcState K) : Prop where
  since : start ≤ provider.clock s.readings
  needed : s.requests.count .needed ≤ 1
  fetched : 0 < s.requests.count .needed → ∃ keys fetched,
    s.keys = some keys ∧ s.keysFetchedAt = some fetched ∧ start ≤ fetched
  forced : 0 < s.requests.count .forced → provider.Spaced start (s.requests.count .forced - 1) s

namespace Ledger

variable {start : ℤ}

theorem reads (h : self.Ledger start s) (n : ℕ) :
    self.Ledger start { s with readings := s.readings + n } where
  since := le_trans h.since (self.monotonic (Nat.le_add_right _ _))
  needed := h.needed
  fetched := h.fetched
  forced := by
    intro hcount
    obtain ⟨i, hi, hlast, hspace⟩ := h.forced hcount
    exact ⟨i, Nat.lt_add_right n hi, hlast, hspace⟩

/-- Without a request since the start, one that brings keys is the one there may be. -/
theorem fetch_needed (h : self.Ledger start s) (hnone : s.requests.count .needed = 0)
    (hserved : (self.jwks s.requests.length).isSome) :
    self.Ledger start (self.fetch .needed s).2 := by
  obtain ⟨metadata, discoveries, heq | ⟨hfailed, -⟩ | ⟨keys, heq⟩⟩ := fetch_cases self .needed s
  · rw [heq]
    exact ⟨h.since, h.needed, h.fetched, h.forced⟩
  · rw [hfailed] at hserved
    exact absurd hserved Bool.false_ne_true
  · have hforced : (s.requests ++ [JwksRequest.needed]).count .forced =
      s.requests.count .forced := by
      rw [List.count_append]
      rfl
    rw [heq]
    refine ⟨(h.reads 1).since, ?_, fun _ => ⟨keys, _, rfl, rfl, h.since⟩, fun hcount => ?_⟩
    · rw [List.count_append, hnone]
      exact le_rfl
    · simp only [hforced] at hcount ⊢
      exact (h.reads 1).forced hcount

/-- A forced refresh that the last reading leaves room for. -/
theorem fetch_forced (h : self.Ledger start s)
    (hroom : self.Spaced start (s.requests.count .forced) s) :
    self.Ledger start (self.fetch .forced s).2 := by
  have hneeded : (s.requests ++ [JwksRequest.forced]).count .needed = s.requests.count .needed := by
    rw [List.count_append]
    rfl
  have hforced : (s.requests ++ [JwksRequest.forced]).count .forced =
      s.requests.count .forced + 1 := by
    rw [List.count_append]
    rfl
  -- the refresh finds no metadata, or fails at the keys, or has them
  obtain ⟨metadata, discoveries, heq | ⟨-, heq⟩ | ⟨keys, heq⟩⟩ := fetch_cases self .forced s
  · rw [heq]
    exact ⟨h.since, h.needed, h.fetched, h.forced⟩
  · rw [heq]
    refine ⟨h.since, hneeded.trans_le h.needed, fun hcount => ?_, fun _ => ?_⟩
    · exact h.fetched (hneeded ▸ hcount)
    · simp only [hforced, Nat.cast_add, Nat.cast_one, add_sub_cancel_right]
      exact hroom
  · rw [heq]
    refine ⟨(h.reads 1).since, hneeded.trans_le h.needed, fun _ => ?_, fun _ => ?_⟩
    · exact ⟨keys, _, rfl, rfl, h.since⟩
    · simp only [hforced, Nat.cast_add, Nat.cast_one, add_sub_cancel_right]
      obtain ⟨i, hi, hlast, hspace⟩ := hroom
      exact ⟨i, Nat.lt_succ_of_lt hi, hlast, hspace⟩

/-- A forced refresh starts a whole interval after the one before. -/
theorem forcing {s' : OidcState K} (h : self.Ledger start s) (hmin : 0 < self.jwksMinRefresh)
    (hforcing : self.Forcing s s') :
    self.Ledger start s' ∧ self.Spaced start (s'.requests.count .forced) s' := by
  have hmono : self.clock s.readings ≤ self.clock (s.readings + 1) :=
    self.monotonic (Nat.le_succ _)
  rcases hforcing with ⟨hlast, rfl⟩ | ⟨last, hlast, hmay, rfl⟩
  · -- nothing was forced before
    have hnone : s.requests.count .forced = 0 := by
      by_contra hcount
      obtain ⟨i, -, hkept, -⟩ := h.forced (Nat.pos_of_ne_zero hcount)
      rw [hlast] at hkept
      nomatch hkept
    refine ⟨⟨(h.reads 1).since, h.needed, h.fetched, fun hcount => ?_⟩, ?_⟩
    · exact absurd hnone hcount.ne'
    · refine ⟨s.readings, Nat.lt_succ_self _, rfl, ?_⟩
      rw [hnone, Nat.cast_zero, zero_mul]
      exact sub_nonneg.mpr h.since
  · -- the last forced request is at least `jwks_min_refresh` ago
    have hspaced : self.Spaced start (s.requests.count .forced)
        { s with readings := s.readings + 2,
                 lastForcedAt := some (self.clock (s.readings + 1)) } := by
      refine ⟨s.readings + 1, Nat.lt_succ_self _, rfl, ?_⟩
      rcases Nat.eq_zero_or_pos (s.requests.count .forced) with hcount | hcount
      · rw [hcount, Nat.cast_zero, zero_mul]
        exact sub_nonneg.mpr (le_trans h.since hmono)
      · obtain ⟨i, -, hkept, hspace⟩ := h.forced hcount
        obtain rfl := Option.some.inj (hlast.symm.trans hkept)
        linarith
    refine ⟨⟨(h.reads 2).since, h.needed, h.fetched, fun _ => ?_⟩, hspaced⟩
    obtain ⟨i, hi, hkept, hspace⟩ := hspaced
    exact ⟨i, hi, hkept, by linarith⟩

end Ledger

/-! ### Runs -/

/-- The keys are fresh, or the endpoint would answer with keys. -/
def Served (self : OidcProvider K) (s : OidcState K) : Prop :=
  (self.fresh s).1 = true ∨ (self.jwks s.requests.length).isSome

/-- Every call finds it so. -/
def ServedAlong (self : OidcProvider K) (tokens : List String) (s : OidcState K) : Prop :=
  ∀ earlier token later, tokens = earlier ++ token :: later → self.Served (self.after earlier s)

/-- In a window shorter than the life of a key set, there are at most two requests and one more
for each interval between forced refreshes. -/
def Throttled (self : OidcProvider K) (tokens : List String) (s : OidcState K) : Prop :=
  ∀ start window : ℤ, 0 ≤ window → window < self.jwksTtl → start ≤ self.clock 0 →
    (∀ i < (self.after tokens s).readings, self.clock i ≤ start + window) →
    ((self.after tokens s).requests.length : ℚ) ≤ 2 + window / self.jwksMinRefresh

theorem after_concat (self : OidcProvider K) (tokens : List String) (token : String)
    (s : OidcState K) :
    self.after (tokens ++ [token]) s = (self.verifyUserToken token (self.after tokens s)).2 := by
  rw [after, List.foldl_append]
  rfl

theorem keySet_readings (self : OidcProvider K) (force : Bool) (s : OidcState K) :
    (self.fresh s).2.readings ≤ (self.keySet force s).2.readings := by
  cases force with
  | true =>
    rw [keySet_true]
    exact fetch_readings self .forced _
  | false =>
    rw [keySet_false]
    split
    · exact le_rfl
    · exact fetch_readings self .needed _

theorem verifyUserToken_readings (self : OidcProvider K) (token : String) (s : OidcState K) :
    (self.keySet false s).2.readings ≤ (self.verifyUserToken token s).2.readings := by
  obtain ⟨n, heq | ⟨s', hforcing, heq⟩⟩ := verifyUserToken_cases self token s
  · rw [heq]
    exact Nat.le_add_right _ _
  · have hstart : (self.keySet false s).2.readings ≤ s'.readings := by
      rcases hforcing with ⟨-, rfl⟩ | ⟨_, -, -, rfl⟩
      · exact Nat.le_succ _
      · exact Nat.le_add_right _ _
    obtain ⟨m, hfresh⟩ := fresh_cases self s'
    have hmore := keySet_readings self true s'
    rw [hfresh] at hmore
    rw [heq]
    exact le_trans hstart (le_trans (Nat.le_add_right _ _) (le_trans hmore (Nat.le_add_right _ _)))

variable {start window : ℤ}

/-- Getting the first keys of a call. -/
theorem Ledger.keySet (h : self.Ledger start s) (hserved : self.Served s)
    (hwindow : window < self.jwksTtl)
    (hlate : ∀ i < (self.keySet false s).2.readings, self.clock i ≤ start + window) :
    self.Ledger start (self.keySet false s).2 := by
  obtain ⟨n, hfresh⟩ := fresh_cases self s
  rw [keySet_false] at hlate ⊢
  by_cases hisfresh : (self.fresh s).1 = true
  · rw [if_pos hisfresh, hfresh]
    exact h.reads n
  · rw [if_neg hisfresh] at hlate ⊢
    have hread := fetch_readings self .needed (self.fresh s).2
    rw [hfresh] at hlate hread ⊢
    refine (h.reads n).fetch_needed ?_ (hserved.resolve_left hisfresh)
    -- keys that were brought since the start of the window would still be fresh
    by_contra hcount
    obtain ⟨keys, fetched, hkeys, hfetched, hsince⟩ := h.fetched (Nat.pos_of_ne_zero hcount)
    rw [fresh_of_fetched hkeys hfetched] at hisfresh hfresh
    obtain rfl : n = 1 := by
      have hreadings := congrArg OidcState.readings hfresh
      exact (Nat.add_left_cancel hreadings).symm
    have hnow := hlate s.readings hread
    exact hisfresh (decide_eq_true (by linarith))

/-- **One call.** -/
theorem Ledger.verifyUserToken (h : self.Ledger start s) (hmin : 0 < self.jwksMinRefresh)
    (token : String) (hserved : self.Served s) (hwindow : window < self.jwksTtl)
    (hlate : ∀ i < (self.verifyUserToken token s).2.readings, self.clock i ≤ start + window) :
    self.Ledger start (self.verifyUserToken token s).2 := by
  have hkeys : self.Ledger start (self.keySet false s).2 :=
    h.keySet hserved hwindow fun i hi =>
      hlate i (lt_of_lt_of_le hi (verifyUserToken_readings self token s))
  obtain ⟨n, heq | ⟨s', hforcing, heq⟩⟩ := verifyUserToken_cases self token s
  · rw [heq]
    exact hkeys.reads n
  · obtain ⟨hbooks, hroom⟩ := hkeys.forcing hmin hforcing
    obtain ⟨m, hfresh⟩ := fresh_cases self s'
    obtain ⟨i, hi, hlast, hspace⟩ := hroom
    rw [heq, keySet_true, hfresh]
    refine ((hbooks.reads m).fetch_forced ?_).reads n
    exact ⟨i, Nat.lt_add_right m hi, hlast, hspace⟩

/-- **The whole run.** -/
theorem Ledger.after {tokens : List String} (h : self.Ledger start s)
    (hmin : 0 < self.jwksMinRefresh) (hserved : self.ServedAlong tokens s)
    (hwindow : window < self.jwksTtl)
    (hlate : ∀ i < (self.after tokens s).readings, self.clock i ≤ start + window) :
    self.Ledger start (self.after tokens s) := by
  induction tokens using List.reverseRecOn with
  | nil => exact h
  | append_singleton tokens token ih =>
    rw [after_concat] at hlate ⊢
    have hread : (self.after tokens s).readings ≤
        (self.verifyUserToken token (self.after tokens s)).2.readings := by
      obtain ⟨m, hfresh⟩ := fresh_cases self (self.after tokens s)
      have hkeys := keySet_readings self false (self.after tokens s)
      rw [hfresh] at hkeys
      exact le_trans (Nat.le_add_right _ _)
        (le_trans hkeys (verifyUserToken_readings self token (self.after tokens s)))
    have hbefore : self.Ledger start (self.after tokens s) := by
      refine ih (fun earlier token' later heq => ?_) fun i hi => hlate i (lt_of_lt_of_le hi hread)
      refine hserved earlier token' (later ++ [token]) ?_
      rw [heq, List.append_assoc, List.cons_append]
    exact hbefore.verifyUserToken hmin token (hserved tokens token [] rfl) hwindow hlate

/-- What the account of a window comes to. -/
theorem Ledger.bound (h : self.Ledger start s) (hmin : 0 < self.jwksMinRefresh)
    (hpos : 0 ≤ window) (hlate : ∀ i < s.readings, self.clock i ≤ start + window) :
    (s.requests.length : ℚ) ≤ 2 + window / self.jwksMinRefresh := by
  have hminQ : (0 : ℚ) < self.jwksMinRefresh := Int.cast_pos.mpr hmin
  have hlength : s.requests.length = s.requests.count .needed + s.requests.count .forced := by
    induction s.requests with
    | nil => rfl
    | cons why requests ih =>
      rw [List.length_cons, List.count_cons, List.count_cons, ih]
      cases why with
      | needed => exact Nat.add_right_comm _ _ _
      | forced => rfl
  have hneeded : (s.requests.count .needed : ℚ) ≤ 1 := by exact_mod_cast h.needed
  -- between forced requests there is the minimum time, and all lie in the window
  have hforced : (s.requests.count .forced : ℚ) - 1 ≤ window / self.jwksMinRefresh := by
    rw [le_div_iff₀ hminQ]
    rcases Nat.eq_zero_or_pos (s.requests.count .forced) with hcount | hcount
    · have hposQ : (0 : ℚ) ≤ window := Int.cast_nonneg hpos
      rw [hcount, Nat.cast_zero]
      linarith
    · obtain ⟨i, hi, -, hspace⟩ := h.forced hcount
      have hnow := hlate i hi
      have hwhole : (s.requests.count .forced - 1) * self.jwksMinRefresh ≤ window := by linarith
      exact_mod_cast hwhole
  rw [hlength, Nat.cast_add]
  linarith

end OidcProvider

/-- What a provider may keep when the calls begin. -/
def OidcState.holding {K : Type} (metadata : Option String) (keys : Option K)
    (keysFetchedAt lastForcedAt : Option ℤ) : OidcState K :=
  ⟨metadata, keys, keysFetchedAt, lastForcedAt, 0, 0, []⟩

/-- **Tokens cannot be turned into requests for keys while the endpoint answers.** Whatever the
provider keeps at first and whatever the tokens are, forged ones included: if no request fails
that is made because there are no fresh keys, then in a window of time shorter than `jwks_ttl`
there are at most two requests, and one more in each `jwks_min_refresh`. -/
theorem jwks_requests_throttled {K : Type} {provider : OidcProvider K} {tokens : List String}
    {metadata : Option String} {keys : Option K} {keysFetchedAt lastForcedAt : Option ℤ}
    (hmin : 0 < provider.jwksMinRefresh)
    (hserved : provider.ServedAlong tokens
      (.holding metadata keys keysFetchedAt lastForcedAt)) :
    provider.Throttled tokens (.holding metadata keys keysFetchedAt lastForcedAt) := by
  intro start window hpos hwindow hstart hlate
  have hempty : provider.Ledger start (.holding metadata keys keysFetchedAt lastForcedAt) := by
    refine ⟨hstart, Nat.zero_le 1, fun hcount => ?_, fun hcount => ?_⟩
    · exact absurd hcount (lt_irrefl 0)
    · exact absurd hcount (lt_irrefl 0)
  exact (hempty.after hmin hserved hwindow hlate).bound hmin hpos hlate

/-- The default configuration at one moment. The key server may be down, and no token passes. -/
def keyServer (up : Bool) : OidcProvider Unit where
  subjectClaim := .ofString "sub"
  groupsClaim := .ofString "groups"
  jwksTtl := 3600000000
  jwksMinRefresh := 30000000
  groupName := keycloakGroupName
  clock _ := 0
  monotonic _ _ _ := le_rfl
  discovery _ := .ok "https://idp.test/certs"
  jwks _ := if up then some () else none
  decode _ _ := none
  registry _ _ := .error "invalid_claim"

/-- With the server up there is one request for no keys, and one forced one. -/
theorem jwks_requests_throttled_up :
    (keyServer true).Throttled ["forged", "forged"] (.holding none none none none) :=
  jwks_requests_throttled (by decide) fun _ _ _ _ => .inr rfl

namespace OidcProvider

variable {K : Type} {self : OidcProvider K}

/-- While the endpoint is down and there are no keys, each call asks for them. -/
theorem requests_while_down (hdown : ∀ n, self.jwks n = none) (tokens : List String)
    {s : OidcState K} {uri : String} (hmetadata : s.metadata = some uri) (hkeys : s.keys = none) :
    (self.after tokens s).requests.length = s.requests.length + tokens.length := by
  induction tokens generalizing s with
  | nil => rfl
  | cons token tokens ih =>
    have hstep : (self.verifyUserToken token s).2 =
        { s with requests := s.requests ++ [.needed] } := by
      obtain ⟨metadata, keys, fetched, forced, readings, discoveries, requests⟩ := s
      obtain rfl := hmetadata
      obtain rfl := hkeys
      simp only [verifyUserToken, keySet, fresh, fetch, discover, hdown, Bool.false_eq_true,
        if_false]
    rw [after, List.foldl_cons, hstep]
    have hrest := ih (s := { s with requests := s.requests ++ [.needed] }) hmetadata hkeys
    rw [List.length_cons, ← Nat.add_assoc, Nat.add_right_comm]
    rwa [List.length_append] at hrest

end OidcProvider

/-- The endpoint is down, and each of three forged tokens at one moment is a request. -/
theorem forged_tokens_fetch :
    (∀ token keys, (keyServer false).decode token keys = none) ∧
      ¬ (keyServer false).Throttled ["forged", "forged", "forged"]
        (.holding (some "https://idp.test/certs") none none none) := by
  refine ⟨fun _ _ => rfl, fun h => ?_⟩
  have hthree := h 0 0 le_rfl (by decide) le_rfl fun _ _ => le_rfl
  rw [OidcProvider.requests_while_down (fun _ => rfl) _ rfl rfl] at hthree
  norm_num [OidcState.holding] at hthree

end HeadOfContext
