import HeadOfContext.Api.RateLimit

/-!
# What a key is granted

The account of a key (`Paid`) is the library's `Metered` for the grants in the log of a run and
for what the table has left for the key. Each step of the limiter keeps it: removing a bucket that
has refilled changes nothing from then on (`left_evict`), opening one for a key without a bucket
changes nothing either (`left_open_self`), a refill is the same bucket at a later time, and a draw
pays for its grant (`Paid.drawFrom`). Along a run this gives the bound on every window
(`limiter_bounds`).

The time of a grant is the reading of the clock that its bucket was refilled with or opened at.
`acquire_request` reads the clock twice for a new bearer: first for the bearer's own bucket, then
for the one of its address.
-/

namespace HeadOfContext

/-- The readings of the clock at which a draw on the key was granted. -/
def grantsOn (key : String) (log : List LimiterEvent) : List ℚ :=
  log.filterMap fun
    | .drew k now none => if k = key then some now else none
    | _ => none

namespace RateLimiter

variable {self : RateLimiter} {s : LimiterState} {key key' : String} {now : ℚ}

/-- What a request on the key would find at a time. -/
def left (self : RateLimiter) (s : LimiterState) (key : String) (t : ℚ) : ℚ :=
  match s.buckets.get key with
  | some bucket => self.level t bucket
  | none => self.capacity

/-- The account of the key from `now` on. -/
def Paid (self : RateLimiter) (key : String) (s : LimiterState) (now : ℚ) : Prop :=
  Metered self.capacity self.rate (grantsOn key s.log) now (self.left s key)

/-! ### The log -/

theorem grantsOn_append (log log' : List LimiterEvent) :
    grantsOn key (log ++ log') = grantsOn key log ++ grantsOn key log' := List.filterMap_append

theorem grantsOn_halved (dropped : List String) :
    grantsOn key (dropped.map .halved) = [] := by
  refine List.filterMap_eq_nil_iff.mpr fun event hevent => ?_
  obtain ⟨k, -, rfl⟩ := List.mem_map.mp hevent
  rfl

theorem grantsOn_drew (hne : key ≠ key') (wait : Option ℚ) :
    grantsOn key [.drew key' now wait] = [] := by
  cases wait with
  | none => simp [grantsOn, hne.symm]
  | some wait => simp [grantsOn]

theorem grantsOn_open : grantsOn key (self.open key' now s).2.log = grantsOn key s.log := by
  obtain ⟨dropped, hlog⟩ := log_open self key' now s
  rw [hlog, grantsOn_append, grantsOn_halved, List.append_nil]

/-- **What `acquire` logs**: the keys that it drops, and one draw with its answer. -/
theorem log_acquire (hon : 0 < self.perMinute) (key : String) (s : LimiterState) :
    ∃ dropped : List String, (self.acquire key s).2.log = s.log ++ dropped.map .halved ++
      [.drew key (self.clock s.readings) (self.acquire key s).1] := by
  obtain ⟨hoff, -⟩ | ⟨-, -, heq⟩ | ⟨bucket, -, -, heq⟩ := acquire_cases self key s
  · exact absurd hon (not_lt.mpr hoff)
  · rw [heq, drawFrom_eq]
    obtain ⟨dropped, hlog⟩ := log_open self key (self.clock s.readings)
      { s with readings := s.readings + 1 }
    exact ⟨dropped, by rw [hlog]⟩
  · rw [heq, drawFrom_eq]
    exact ⟨[], by rw [List.map_nil, List.append_nil]⟩

/-! ### What is left for a key -/

/-- **Forgetting a bucket that has refilled cannot be observed.** -/
theorem left_evict (hon : 0 < self.perMinute) {e t : ℚ} (ht : e ≤ t)
    (hkept : .halved key ∉ (self.evict e s).log) :
    self.left (self.evict e s) key t = self.left s key t := by
  obtain hget | ⟨hnone, ⟨bucket, hget, hfull⟩ | hhalved⟩ := get_evict self e s key
  · rw [left, left, hget]
  · rw [left, left, hnone, hget]
    exact (Metered.level_eq_cap (rate_nonneg hon.le) hfull ht).symm
  · exact absurd hhalved hkept

theorem left_open (hon : 0 < self.perMinute) {e t : ℚ} (ht : e ≤ t) (hne : key ≠ key')
    (hkept : .halved key ∉ (self.open key' e s).2.log) :
    self.left (self.open key' e s).2 key t = self.left s key t := by
  obtain hget | ⟨hnone, ⟨bucket, hget, hfull⟩ | hhalved⟩ := get_open hne (s := s)
  · rw [left, left, hget]
  · rw [left, left, hnone, hget]
    exact (Metered.level_eq_cap (rate_nonneg hon.le) hfull ht).symm
  · exact absurd hhalved hkept

/-- A bucket is opened as full as no bucket is. -/
theorem left_open_self (hon : 0 < self.perMinute) {t : ℚ} (hnone : s.buckets.get key = none)
    (ht : now ≤ t) : self.left (self.open key now s).2 key t = self.left s key t := by
  rw [left, left, get_open_self, hnone]
  exact Metered.level_full (rate_nonneg hon.le) ht

theorem left_drawFrom (hne : key ≠ key') (bucket : TokenBucket) :
    self.left (self.drawFrom key' now bucket s).2 key = self.left s key := by
  funext t
  rw [left, left, drawFrom_eq, Dict.get_set, if_neg hne]

theorem left_refill (hon : 0 < self.perMinute) {t : ℚ} {bucket : TokenBucket}
    (hget : s.buckets.get key = some bucket) (ht : now ≤ t) :
    self.level t (self.refill bucket now) = self.left s key t := by
  rw [left, hget]
  exact Metered.level_level (rate_nonneg hon.le) ht

/-! ### Each step keeps the account -/

theorem Paid.later (h : Paid self key s now) {now' : ℚ} (hnow : now ≤ now') :
    Paid self key s now' := Metered.congr h hnow fun _ _ => rfl

theorem Paid.open (hon : 0 < self.perMinute) (h : Paid self key s now) {e : ℚ} (he : e ≤ now)
    (hne : key ≠ key') (hkept : .halved key ∉ (self.open key' e s).2.log) :
    Paid self key (self.open key' e s).2 now := by
  rw [Paid, grantsOn_open]
  exact Metered.congr h le_rfl fun t ht => left_open hon (le_trans he ht) hne hkept

theorem Paid.open_self (hon : 0 < self.perMinute) (h : Paid self key s now)
    (hnone : s.buckets.get key = none) : Paid self key (self.open key now s).2 now := by
  rw [Paid, grantsOn_open]
  exact Metered.congr h le_rfl fun t ht => left_open_self hon hnone ht

theorem Paid.drawFrom_other (h : Paid self key s now) (hne : key ≠ key') {at_ : ℚ}
    (bucket : TokenBucket) : Paid self key (self.drawFrom key' at_ bucket s).2 now := by
  have hgrants : grantsOn key (self.drawFrom key' at_ bucket s).2.log = grantsOn key s.log := by
    rw [drawFrom_eq, grantsOn_append, grantsOn_drew hne, List.append_nil]
  rw [Paid, hgrants, left_drawFrom hne]
  exact h

/-- **A draw pays for its grant**, from a bucket that is up to date and has no more than is left
for the key. -/
theorem Paid.drawFrom (hon : 0 < self.perMinute) (h : Paid self key s now) {bucket : TokenBucket}
    (hbucket : bucket.Sound self now) (hnow : bucket.updated = now)
    (hleft : ∀ t, now ≤ t → self.level t bucket ≤ self.left s key t) :
    Paid self key (self.drawFrom key now bucket s).2 now := by
  have hnew : ∀ t, self.left (self.drawFrom key now bucket s).2 key t =
      self.level t (self.draw bucket).2 := by
    intro t
    rw [left, drawFrom_eq, Dict.get_set, if_pos rfl]
  by_cases hone : 1 ≤ bucket.tokens
  · -- a token is there: the request is granted, and it pays with what was left
    have hdraw : self.draw bucket = (none, { bucket with tokens := bucket.tokens - 1 }) :=
      if_pos hone
    have hgrants : grantsOn key (self.drawFrom key now bucket s).2.log =
        grantsOn key s.log ++ [now] := by
      rw [drawFrom_eq, hdraw, grantsOn_append]
      simp [grantsOn]
    rw [Paid, hgrants]
    refine Metered.grant h (rate_nonneg hon.le) (fun t ht => ?_) (fun t ht => ?_) fun t ht => ?_
    · rw [hnew, hdraw]
      exact le_trans (Metered.level_mono (sub_le_self _ zero_le_one)) (hleft t ht)
    · -- at the draw the bucket had all of its tokens, and they were no more than what was left
      have htokens : bucket.tokens ≤ self.left s key now := by
        refine le_trans (le_min hbucket.le_capacity ?_) (hleft now le_rfl)
        rw [hnow, sub_self, zero_mul, add_zero]
      rw [hnew, hdraw]
      calc self.level t { bucket with tokens := bucket.tokens - 1 }
          ≤ bucket.tokens - 1 + (t - bucket.updated) * self.rate := min_le_right _ _
        _ = bucket.tokens - 1 + (t - now) * self.rate := by rw [hnow]
        _ ≤ self.left s key now - 1 + (t - now) * self.rate :=
          add_le_add_left (sub_le_sub_right htokens 1) _
    · rw [hnew, hdraw]
      exact Metered.level_nonneg (capacity_nonneg hon.le) (rate_nonneg hon.le)
        (sub_nonneg.mpr hone) (hnow.le.trans ht)
  · -- no token is there: nothing is granted, and nothing is paid
    have hdraw : self.draw bucket = (some ((1 - bucket.tokens) / self.rate), bucket) :=
      if_neg hone
    have hgrants : grantsOn key (self.drawFrom key now bucket s).2.log = grantsOn key s.log := by
      rw [drawFrom_eq, hdraw, grantsOn_append]
      simp [grantsOn]
    rw [Paid, hgrants]
    refine Metered.of_le h le_rfl (fun t ht => ?_) fun t ht => ?_
    · rw [hnew, hdraw]
      exact hleft t ht
    · rw [hnew, hdraw]
      exact Metered.level_nonneg (capacity_nonneg hon.le) (rate_nonneg hon.le) hbucket.nonneg
        (hnow.le.trans ht)

/-- **`acquire` keeps every account**, of its own key and of the others. -/
theorem Paid.acquire (h : Paid self key s (self.clock s.readings)) (hsound : s.Sound self)
    (hkept : .halved key ∉ (self.acquire key' s).2.log) :
    Paid self key (self.acquire key' s).2 (self.clock (self.acquire key' s).2.readings) := by
  have hread := self.monotonic (Nat.le_succ s.readings)
  have hread' : Paid self key { s with readings := s.readings + 1 } (self.clock s.readings) := h
  -- the limiter is off, the key is new, or it has a bucket
  obtain ⟨-, heq⟩ | ⟨hon, hnone, heq⟩ | ⟨bucket, hon, hget, heq⟩ := acquire_cases self key' s
  · rw [heq]
    exact h
  · rw [heq, halved_drawFrom] at hkept
    have hreadings : (self.acquire key' s).2.readings = s.readings + 1 := by
      rw [heq, readings_drawFrom, readings_open]
    rw [hreadings, heq]
    by_cases hkey : key = key'
    · subst hkey
      have hfull := hread'.open_self hon hnone
      refine (hfull.drawFrom hon (TokenBucket.sound_full hon _) rfl fun t _ => ?_).later hread
      rw [left, get_open_self]
    · exact ((hread'.open hon le_rfl hkey hkept).drawFrom_other hkey _).later hread
  · have hreadings : (self.acquire key' s).2.readings = s.readings + 1 := by
      rw [heq, readings_drawFrom]
    rw [hreadings, heq]
    by_cases hkey : key = key'
    · subst hkey
      refine (hread'.drawFrom hon ((hsound.buckets key bucket hget).refill hon) rfl
        fun t ht => ?_).later hread
      exact (left_refill hon hget ht).le
    · exact (hread'.drawFrom_other hkey _).later hread

/-- A key without a bucket is left alone by an `acquire` of another key. -/
theorem acquire_absent (self : RateLimiter) (hne : key ≠ key') (hnone : s.buckets.get key = none) :
    (self.acquire key' s).2.buckets.get key = none ∧
      grantsOn key (self.acquire key' s).2.log = grantsOn key s.log := by
  have hdraw : ∀ (s' : LimiterState) (t : ℚ) (bucket : TokenBucket),
      (self.drawFrom key' t bucket s').2.buckets.get key = s'.buckets.get key ∧
        grantsOn key (self.drawFrom key' t bucket s').2.log = grantsOn key s'.log := by
    intro s' t bucket
    rw [drawFrom_eq]
    refine ⟨by rw [Dict.get_set, if_neg hne], ?_⟩
    rw [grantsOn_append, grantsOn_drew hne, List.append_nil]
  obtain ⟨-, heq⟩ | ⟨-, -, heq⟩ | ⟨bucket, -, -, heq⟩ := acquire_cases self key' s
  · rw [heq]
    exact ⟨hnone, rfl⟩
  · rw [heq, (hdraw _ _ _).1, (hdraw _ _ _).2, grantsOn_open]
    refine ⟨?_, rfl⟩
    obtain hget | ⟨hget, -⟩ := get_open hne (s := { s with readings := s.readings + 1 })
    · rw [hget]
      exact hnone
    · exact hget
  · rw [heq, (hdraw _ _ _).1, (hdraw _ _ _).2]
    exact ⟨hnone, rfl⟩

/-- The prefixes keep the keys of bearers and of addresses apart. -/
theorem bearer_ne_new (b address : String) : "bearer:" ++ b ≠ "new:" ++ address := by
  intro h
  have hlist := congrArg String.toList h
  rw [String.toList_append, String.toList_append] at hlist
  simp at hlist

/-- **`acquire_request` keeps every account.** -/
theorem Paid.acquireRequest {bearer : Option String} {address : String}
    (h : Paid self key s (self.clock s.readings)) (hsound : s.Sound self)
    (hkept : .halved key ∉ (self.acquireRequest bearer address s).2.log) :
    Paid self key (self.acquireRequest bearer address s).2
      (self.clock (self.acquireRequest bearer address s).2.readings) := by
  have hread := self.monotonic (Nat.le_succ s.readings)
  obtain ⟨-, heq⟩ | ⟨-, -, heq⟩ | ⟨b, hon, -, hbearer⟩ :=
    acquireRequest_cases self bearer address s
  · rw [heq]
    exact h
  · rw [heq] at hkept ⊢
    exact h.acquire hsound hkept
  obtain ⟨bucket, hget, heq⟩ | ⟨hnone, answer, hanswer, hnew⟩ := hbearer
  · rw [heq, readings_drawFrom]
    have hread' : Paid self key { s with readings := s.readings + 1 } (self.clock s.readings) := h
    by_cases hkey : key = "bearer:" ++ b
    · subst hkey
      refine (hread'.drawFrom hon ((hsound.buckets _ bucket hget).refill hon) rfl
        fun t ht => ?_).later hread
      exact (left_refill hon hget ht).le
    · exact (hread'.drawFrom_other hkey _).later hread
  -- the address pays first, at the second reading
  have hlater : self.clock s.readings ≤ self.clock answer.2.readings := by
    refine self.monotonic (le_trans (Nat.le_succ s.readings) ?_)
    rw [← hanswer]
    exact readings_acquire self _ { s with readings := s.readings + 1 }
  have hpaid : .halved key ∉ answer.2.log →
      Paid self key answer.2 (self.clock answer.2.readings) := by
    intro hkept'
    rw [← hanswer] at hkept' ⊢
    exact Paid.acquire (h.later hread) hsound.read hkept'
  obtain ⟨wait, -, heq⟩ | ⟨-, heq⟩ := hnew
  · rw [heq] at hkept ⊢
    exact hpaid hkept
  rw [heq, halved_drawFrom] at hkept
  have hreadings : (self.acquireRequest bearer address s).2.readings = answer.2.readings := by
    rw [heq, readings_drawFrom, readings_open]
  rw [hreadings, heq]
  by_cases hkey : key = "bearer:" ++ b
  · -- the bearer had no bucket, so its account is still the one of the first reading
    subst hkey
    obtain ⟨habsent, hgrants⟩ := acquire_absent self (bearer_ne_new b address)
      (show ({ s with readings := s.readings + 1 } : LimiterState).buckets.get _ = none from hnone)
    rw [hanswer] at habsent hgrants
    have hold : Paid self ("bearer:" ++ b) answer.2 (self.clock s.readings) := by
      rw [Paid, hgrants]
      refine Metered.congr h le_rfl fun t _ => ?_
      rw [left, left, habsent, hnone]
    refine ((hold.open_self hon habsent).drawFrom hon (TokenBucket.sound_full hon _) rfl
      fun t _ => ?_).later hlater
    rw [left, get_open_self]
  · refine ((hpaid ?_).open hon hlater hkey hkept).drawFrom_other hkey _
    obtain ⟨dropped, hlog⟩ := log_open self ("bearer:" ++ b) (self.clock s.readings) answer.2
    rw [hlog] at hkept
    exact fun hmem => hkept (List.mem_append_left _ hmem)

/-! ### What a call logs -/

/-- **The last thing that a call logs is a draw with its answer**, when the limiter is enabled. -/
theorem log_step (hon : 0 < self.perMinute) (s : LimiterState) (call : LimiterCall) :
    ∃ events charged at_, (self.step s call).1.log =
      s.log ++ events ++ [.drew charged at_ (self.step s call).2] := by
  -- every way of a call ends with one draw, from the bucket that is charged last
  cases call with
  | acquire key =>
    obtain ⟨dropped, hlog⟩ := log_acquire hon key s
    exact ⟨_, key, _, hlog⟩
  | acquireRequest bearer address =>
    change ∃ events charged at_, (self.acquireRequest bearer address s).2.log =
      s.log ++ events ++ [.drew charged at_ (self.acquireRequest bearer address s).1]
    obtain ⟨hoff, -⟩ | ⟨-, -, heq⟩ | ⟨b, -, -, hbearer⟩ :=
      acquireRequest_cases self bearer address s
    · exact absurd hon (not_lt.mpr hoff)
    · obtain ⟨dropped, hlog⟩ := log_acquire hon ("addr:" ++ address) s
      exact ⟨_, _, _, by rw [heq, hlog]⟩
    obtain ⟨bucket, -, heq⟩ | ⟨-, answer, hanswer, hnew⟩ := hbearer
    · exact ⟨[], _, _, by rw [heq, drawFrom_eq, List.append_nil]⟩
    obtain ⟨dropped, hlog⟩ := log_acquire hon ("new:" ++ address)
      { s with readings := s.readings + 1 }
    rw [hanswer] at hlog
    obtain ⟨wait, -, heq⟩ | ⟨-, heq⟩ := hnew
    · exact ⟨_, _, _, by rw [heq, hlog]⟩
    · obtain ⟨dropped', hlog'⟩ := log_open self ("bearer:" ++ b) (self.clock s.readings) answer.2
      exact ⟨_, _, _, by
        rw [heq, drawFrom_eq, hlog', hlog, List.append_assoc s.log, List.append_assoc s.log]⟩

/-- A limiter that is disabled does nothing. -/
theorem step_disabled (hoff : self.perMinute ≤ 0) (s : LimiterState) (call : LimiterCall) :
    self.step s call = (s, none) := by
  cases call with
  | acquire key =>
    rw [step, acquire, if_pos hoff]
    rfl
  | acquireRequest bearer address =>
    have heq : self.acquireRequest bearer address s = (none, s) := if_pos hoff
    rw [step, heq]
    rfl

/-- The log only grows. -/
theorem log_grows (self : RateLimiter) (s : LimiterState) (call : LimiterCall) :
    ∃ events, (self.step s call).1.log = s.log ++ events := by
  by_cases hon : 0 < self.perMinute
  · obtain ⟨events, charged, at_, hlog⟩ := log_step hon s call
    exact ⟨events ++ [.drew charged at_ (self.step s call).2], by rw [hlog, List.append_assoc]⟩
  · rw [step_disabled (not_lt.mp hon)]
    exact ⟨[], (List.append_nil _).symm⟩

/-! ### Runs -/

/-- **Every account is paid in every run** that does not drop its key with half of the table. -/
theorem paid_after (hon : 0 < self.perMinute) (key : String) (calls : List LimiterCall)
    (hkept : .halved key ∉ (self.after calls).log) :
    Paid self key (self.after calls) (self.clock (self.after calls).readings) := by
  induction calls using List.reverseRecOn with
  | nil => exact Metered.start (capacity_nonneg hon.le) (rate_nonneg hon.le) (self.clock 0)
  | append_singleton calls call ih =>
    rw [after_concat] at hkept ⊢
    have hbefore : .halved key ∉ (self.after calls).log := by
      obtain ⟨events, hlog⟩ := log_grows self (self.after calls) call
      rw [hlog] at hkept
      exact fun hmem => hkept (List.mem_append_left _ hmem)
    cases call with
    | acquire key' => exact (ih hbefore).acquire (sound_after self calls) hkept
    | acquireRequest bearer address =>
      exact (ih hbefore).acquireRequest (sound_after self calls) hkept

/-- **What a limiter bounds.** For all calls on any keys: the table holds at most `MAX_BUCKETS`
buckets, with between zero and `per_minute` tokens each. If `per_minute` is positive, the grants on
a key in any interval are at most `per_minute` and what refills in its length, unless the second
pass of `_evict` has dropped the key. Otherwise every request is granted and no bucket is made. -/
theorem limiter_bounds (self : RateLimiter) (calls : List LimiterCall) :
    (self.after calls).buckets.entries.length ≤ MAX_BUCKETS ∧
    (∀ key bucket, (self.after calls).buckets.get key = some bucket →
      0 ≤ bucket.tokens ∧ bucket.tokens ≤ self.perMinute) ∧
    (0 < self.perMinute → ∀ key, .halved key ∉ (self.after calls).log → ∀ s t : ℚ, s ≤ t →
      (((grantsOn key (self.after calls).log).countP fun g => decide (s ≤ g ∧ g ≤ t) : ℕ) : ℚ) ≤
        self.perMinute + (t - s) * self.perMinute / 60) ∧
    (self.perMinute ≤ 0 → (self.after calls).buckets = .empty ∧
      ∀ answer ∈ self.machine.answers calls, answer = none) := by
  have hsound := sound_after self calls
  refine ⟨hsound.size, fun key bucket hget => ?_, fun hon key hkept s t hst => ?_, fun hoff => ?_⟩
  · exact ⟨(hsound.buckets key bucket hget).nonneg, (hsound.buckets key bucket hget).le_capacity⟩
  · rw [mul_div_assoc]
    exact (paid_after hon key calls hkept).window s t hst
  · -- a limiter that is off never makes a bucket: the induction is on the calls
    clear hsound
    induction calls using List.reverseRecOn with
    | nil => exact ⟨rfl, fun answer hanswer => absurd hanswer List.not_mem_nil⟩
    | append_singleton calls call ih =>
      obtain ⟨hbuckets, hanswers⟩ := ih
      have hstep := step_disabled hoff (self.after calls) call
      rw [after_concat, hstep, Machine.answers_concat]
      refine ⟨hbuckets, List.forall_mem_append.mpr ⟨hanswers, fun answer hanswer => ?_⟩⟩
      rw [List.mem_singleton.mp hanswer]
      exact congrArg Prod.snd hstep

/-- One request a second, on a clock that stands still. -/
def minuteLimiter : RateLimiter := ⟨60, fun _ => 0, monotone_const⟩

/-- The law at one request. -/
theorem limiter_bounds_minute :
    (((grantsOn "k" (minuteLimiter.after [.acquire "k"]).log).countP
      fun g => decide ((0 : ℚ) ≤ g ∧ g ≤ 0) : ℕ) : ℚ) ≤
        minuteLimiter.perMinute + (0 - 0) * minuteLimiter.perMinute / 60 :=
  (limiter_bounds minuteLimiter [.acquire "k"]).2.2.1 (by decide) "k" (by decide +kernel) 0 0 le_rfl

/-- `RateLimiter(0)`. -/
def disabledLimiter : RateLimiter := ⟨0, fun _ => 0, monotone_const⟩

/-- **A disabled limiter bounds nobody**: two requests on one key are granted while the clock
stands still, and no bucket was ever removed. -/
theorem disabled_grants_all :
    ¬ ((((disabledLimiter.machine.history [.acquire "k", .acquire "k"]).countP
        fun call => decide (call.2 = none) : ℕ) : ℚ) ≤
      disabledLimiter.perMinute + (0 - 0) * disabledLimiter.perMinute / 60) ∧
    (disabledLimiter.after [.acquire "k", .acquire "k"]).log = [] := by
  have hcount : (disabledLimiter.machine.history [.acquire "k", .acquire "k"]).countP
      (fun call => decide (call.2 = none)) = 2 := by
    decide +kernel
  rw [hcount]
  exact ⟨by norm_num [disabledLimiter], by decide +kernel⟩

end RateLimiter

end HeadOfContext
