import HeadOfContext.Api.NewBearers
import HeadOfContext.Framework.Binary64
import Mathlib.Data.Rat.Floor

/-!
# Retry-After

The middleware in front of the routes, and what a client that is refused may rely on. The answer
429 names a number of whole seconds, the wait rounded by adding 0.999 and truncating. After so many
seconds the bucket that refused has its token again, if nobody else draws on it, unless the wait is
longer than a second and less than a thousandth of a second above a whole number
(`retry_granted_iff`).

The bucket that refuses is the bearer's, or for a bearer without a bucket the one of its address.
What a refusal leaves is one bucket below a token (`Refusing`); calls that draw on other keys leave
it alone, unless they remove it (`get_after_others`).
-/

namespace HeadOfContext

/-- The scope of a connection, as far as the middleware reads it. Bytes are kept as the characters
of Latin-1. -/
structure HttpScope where
  type : String
  path : Option String
  headers : List (String × String)
  client : Option String

/-- The answer 429: how many seconds to wait. -/
structure TooManyRequests where
  retryAfter : ℤ
  deriving DecidableEq

namespace TooManyRequests

def status : ℕ := 429

/-- `json.dumps({"error": "rate_limited", "detail": "too many requests"})`. -/
def body : String := "\x7b\"error\": \"rate_limited\", \"detail\": \"too many requests\"\x7d"

def headers (answer : TooManyRequests) : List (String × String) :=
  [("content-type", "application/json"), ("content-length", toString body.length),
    ("retry-after", toString answer.retryAfter)]

end TooManyRequests

/-- `RateLimitMiddleware.__init__`, and `fingerprint`. -/
structure RateLimitMiddleware where
  limiter : RateLimiter
  exempt : List String
  fingerprint : String → String

namespace RateLimitMiddleware

/-- `_identify`: the fingerprint of the first authorization header, and the address. -/
def identify (self : RateLimitMiddleware) (scope : HttpScope) : Option String × String :=
  ((scope.headers.find? fun header => header.1 = "authorization").map fun header =>
      self.fingerprint header.2,
    scope.client.getD "unknown")

/-- `max(1, int(wait + 0.999))`. -/
def retryAfter (wait : ℚ) : ℤ := max 1 (Binary64.trunc (wait + 999 / 1000))

/-- `__call__`: the answer that is sent, or none where the application is called. -/
def call (self : RateLimitMiddleware) (scope : HttpScope) (s : LimiterState) :
    Option TooManyRequests × LimiterState :=
  if scope.type ≠ "http" ∨ scope.path.any (fun path => decide (path ∈ self.exempt)) = true then
    (none, s)
  else
    let (bearer, address) := self.identify scope
    let (wait, s) := self.limiter.acquireRequest bearer address s
    (wait.map fun wait => ⟨retryAfter wait⟩, s)

end RateLimitMiddleware

/-! ### The rounding -/

/-- Adding 0.999 and truncating rounds the wait up, or the least second is enough. -/
def RoundsUp (wait : ℚ) : Prop := wait ≤ 1 ∨ Int.fract wait = 0 ∨ 1 / 1000 ≤ Int.fract wait

/-- **When the seconds are enough.** -/
theorem le_retryAfter_iff {wait : ℚ} (hwait : 0 ≤ wait) :
    wait ≤ RateLimitMiddleware.retryAfter wait ↔ RoundsUp wait := by
  have htrunc : Binary64.trunc (wait + 999 / 1000) = ⌊wait⌋ + ⌊Int.fract wait + 999 / 1000⌋ := by
    have hsplit : wait + 999 / 1000 = ⌊wait⌋ + (Int.fract wait + 999 / 1000) := by
      rw [← add_assoc, Int.floor_add_fract]
    rw [Binary64.trunc, if_pos (by positivity), hsplit, Int.floor_intCast_add]
  have hnonneg := Int.fract_nonneg wait
  have hlt := Int.fract_lt_one wait
  rw [RateLimitMiddleware.retryAfter, htrunc, Int.cast_max, Int.cast_one, le_max_iff, RoundsUp]
  refine or_congr_right ?_
  by_cases hsmall : Int.fract wait < 1 / 1000
  · -- the sum stays below the next whole number
    have hfloor : ⌊Int.fract wait + 999 / 1000⌋ = 0 :=
      Int.floor_eq_zero_iff.mpr ⟨by linarith, by linarith⟩
    rw [hfloor, add_zero]
    constructor
    · intro hle
      refine .inl (le_antisymm ?_ hnonneg)
      have hsum := Int.floor_add_fract wait
      linarith
    · rintro (hzero | hlarge)
      · calc wait = ⌊wait⌋ + Int.fract wait := (Int.floor_add_fract wait).symm
          _ ≤ ⌊wait⌋ := by rw [hzero, add_zero]
      · exact absurd hsmall (not_lt.mpr hlarge)
  · have hfloor : ⌊Int.fract wait + 999 / 1000⌋ = 1 := by
      rw [Int.floor_eq_iff]
      push_cast
      exact ⟨by linarith, by linarith⟩
    rw [hfloor]
    refine iff_of_true ?_ (.inr (not_lt.mp hsmall))
    calc wait = ⌊wait⌋ + Int.fract wait := (Int.floor_add_fract wait).symm
      _ ≤ ((⌊wait⌋ + 1 : ℤ) : ℚ) := by
        push_cast
        linarith

namespace RateLimiter

variable {self : RateLimiter} {s : LimiterState} {bearer : Option String} {address key : String}

/-! ### What a refusal leaves -/

/-- The key of the bucket that a request is charged to first, and the number of the reading. -/
def charged (s : LimiterState) (bearer : Option String) (address : String) : String × ℕ :=
  match bearer with
  | none => ("addr:" ++ address, s.readings)
  | some bearer =>
    match s.buckets.get ("bearer:" ++ bearer) with
    | some _ => ("bearer:" ++ bearer, s.readings)
    | none => ("new:" ++ address, s.readings + 1)

/-- How long a bucket needs for its next token. -/
def missing (self : RateLimiter) (now : ℚ) (bucket : TokenBucket) : ℚ :=
  (1 - self.level now bucket) / self.rate

theorem drawFrom_refill (bucket : TokenBucket) (now : ℚ) :
    (self.drawFrom key now (self.refill bucket now) s).1 =
      if 1 ≤ self.level now bucket then none else some (self.missing now bucket) := by
  rw [drawFrom_eq, draw]
  exact apply_ite Prod.fst _ _ _

/-- **What `acquire` answers.** -/
theorem acquire_answer (hon : 0 < self.perMinute) (key : String) (s : LimiterState) :
    (self.acquire key s).1 = (s.buckets.get key).bind fun bucket =>
      if 1 ≤ self.level (self.clock s.readings) bucket then none
      else some (self.missing (self.clock s.readings) bucket) := by
  obtain ⟨hoff, -⟩ | ⟨-, hnone, heq⟩ | ⟨bucket, -, hget, heq⟩ := acquire_cases self key s
  · exact absurd hon (not_lt.mpr hoff)
  · rw [heq, hnone, drawFrom_full hon]
    rfl
  · rw [heq, hget, drawFrom_refill]
    rfl

/-- **What `acquire_request` answers** is what the bucket says that is charged first. -/
theorem acquireRequest_answer (hon : 0 < self.perMinute) (bearer : Option String) (address : String)
    (s : LimiterState) :
    (self.acquireRequest bearer address s).1 =
      (s.buckets.get (charged s bearer address).1).bind fun bucket =>
        if 1 ≤ self.level (self.clock (charged s bearer address).2) bucket then none
        else some (self.missing (self.clock (charged s bearer address).2) bucket) := by
  -- a new bearer is answered by the bucket of its address, as its own is full
  obtain ⟨hoff, -⟩ | ⟨-, rfl, heq⟩ | ⟨b, -, rfl, hbearer⟩ :=
    acquireRequest_cases self bearer address s
  · exact absurd hon (not_lt.mpr hoff)
  · rw [heq]
    exact acquire_answer hon _ s
  obtain ⟨bucket, hget, heq⟩ | ⟨hnone, answer, hanswer, hnew⟩ := hbearer
  · have hcharged : charged s (some b) address = ("bearer:" ++ b, s.readings) := by
      simp only [charged, hget]
    rw [heq, drawFrom_refill, hcharged, hget]
    rfl
  · have hcharged : charged s (some b) address = ("new:" ++ address, s.readings + 1) := by
      simp only [charged, hnone]
    have hpaid := acquire_answer hon ("new:" ++ address) { s with readings := s.readings + 1 }
    rw [hanswer] at hpaid
    rw [hcharged, ← hpaid]
    obtain ⟨wait, -, heq⟩ | ⟨hgranted, heq⟩ := hnew
    · rw [heq]
    · rw [heq, drawFrom_full hon, hgranted]

/-- The bucket that refuses a request, and what the refusal leaves of it. -/
structure Refusing (limiter : RateLimiter) (s s' : LimiterState) (bearer : Option String)
    (address : String) (wait : ℚ) (bucket : TokenBucket) : Prop where
  held : s.buckets.get (charged s bearer address).1 = some bucket
  empty : limiter.level (limiter.clock (charged s bearer address).2) bucket < 1
  wait : wait = limiter.missing (limiter.clock (charged s bearer address).2) bucket
  left : s'.buckets.get (charged s bearer address).1 =
    some (limiter.refill bucket (limiter.clock (charged s bearer address).2))
  charged : (charged s' bearer address).1 = (charged s bearer address).1

/-- A bucket that refuses is written back as it was refilled. -/
theorem get_drawFrom_refused {now : ℚ} {bucket : TokenBucket} (h : self.level now bucket < 1) :
    (self.drawFrom key now (self.refill bucket now) s).2.buckets.get key =
      some (self.refill bucket now) := by
  have hdraw : (self.draw (self.refill bucket now)).2 = self.refill bucket now := by
    rw [draw, if_neg (show ¬ 1 ≤ (self.refill bucket now).tokens from not_le.mpr h)]
  rw [drawFrom_eq, Dict.get_set, if_pos rfl, hdraw]

/-- An `acquire` that is refused writes its bucket back. -/
theorem get_acquire_refused (hon : 0 < self.perMinute) {bucket : TokenBucket}
    (hget : s.buckets.get key = some bucket)
    (hempty : self.level (self.clock s.readings) bucket < 1) :
    (self.acquire key s).2.buckets.get key =
      some (self.refill bucket (self.clock s.readings)) := by
  obtain ⟨hoff, -⟩ | ⟨-, hnone, -⟩ | ⟨bucket', -, hget', heq⟩ := acquire_cases self key s
  · exact absurd hon (not_lt.mpr hoff)
  · exact absurd (hget.symm.trans hnone) (Option.some_ne_none _)
  · obtain rfl := Option.some.inj (hget.symm.trans hget')
    rw [heq]
    exact get_drawFrom_refused hempty

/-- **What a refusal leaves.** -/
theorem exists_refusing (hon : 0 < self.perMinute) {wait : ℚ}
    (h : (self.acquireRequest bearer address s).1 = some wait) :
    ∃ bucket, Refusing self s
      (self.acquireRequest bearer address s).2 bearer address wait bucket := by
  have hanswer := acquireRequest_answer hon bearer address s
  rw [h] at hanswer
  obtain ⟨bucket, hheld, hwait⟩ := Option.bind_eq_some_iff.mp hanswer.symm
  have hempty : self.level (self.clock (charged s bearer address).2) bucket < 1 := by
    by_contra hfull
    rw [if_pos (not_lt.mp hfull)] at hwait
    exact absurd hwait.symm (Option.some_ne_none _)
  rw [if_neg (not_le.mpr hempty)] at hwait
  -- the refusal draws nothing, and the next request is charged to the same bucket
  suffices hleft : (self.acquireRequest bearer address s).2.buckets.get
        (charged s bearer address).1 =
          some (self.refill bucket (self.clock (charged s bearer address).2)) ∧
      (charged (self.acquireRequest bearer address s).2 bearer address).1 =
        (charged s bearer address).1 from
    ⟨bucket, hheld, hempty, (Option.some.inj hwait).symm, hleft.1, hleft.2⟩
  -- without a bearer, with a known bearer, or with a new one
  obtain ⟨hoff, -⟩ | ⟨-, rfl, heq⟩ | ⟨b, -, rfl, hbearer⟩ :=
    acquireRequest_cases self bearer address s
  · exact absurd hon (not_lt.mpr hoff)
  · rw [heq]
    exact ⟨get_acquire_refused hon hheld hempty, rfl⟩
  obtain ⟨bucket', hget, heq⟩ | ⟨hnone, answer, hnewAnswer, hnew⟩ := hbearer
  · have hcharged : charged s (some b) address = ("bearer:" ++ b, s.readings) := by
      simp only [charged, hget]
    rw [hcharged] at hheld hempty ⊢
    obtain rfl := Option.some.inj (hheld.symm.trans hget)
    have hleft := @get_drawFrom_refused self { s with readings := s.readings + 1 }
      ("bearer:" ++ b) _ _ hempty
    rw [heq]
    refine ⟨hleft, ?_⟩
    simp only [charged, hleft]
  · have hcharged : charged s (some b) address = ("new:" ++ address, s.readings + 1) := by
      simp only [charged, hnone]
    rw [hcharged] at hheld hempty ⊢
    -- a new bearer is first charged to the bucket of its address
    obtain ⟨wait', -, heq⟩ | ⟨-, heq⟩ := hnew
    · have hleft := get_acquire_refused
        (s := { s with readings := s.readings + 1 }) hon hheld hempty
      have hstill := (acquire_absent self (bearer_ne_new b address)
        (show ({ s with readings := s.readings + 1 } : LimiterState).buckets.get _ = none
          from hnone)).1
      rw [heq, ← hnewAnswer]
      refine ⟨hleft, ?_⟩
      simp only [charged, hstill]
    · rw [heq, drawFrom_full hon] at h
      exact absurd h.symm (Option.some_ne_none _)

/-! ### The same request again -/

/-- No bucket leaves the table in the calls. -/
def NoEviction (self : RateLimiter) (calls between : List LimiterCall) : Prop :=
  ∀ past call later, between = past ++ call :: later →
    ∀ key ∈ (self.after (calls ++ past)).buckets.keys,
      key ∈ (self.after (calls ++ past ++ [call])).buckets.keys

/-- **Calls on other keys leave a bucket alone**, as long as nothing is evicted. -/
theorem get_after_others {calls between : List LimiterCall}
    (hothers : ∀ call ∈ between, key ∉ call.keys)
    (hkept : NoEviction self calls between) :
    (self.after (calls ++ between)).buckets.get key = (self.after calls).buckets.get key := by
  induction between using List.reverseRecOn with
  | nil => rw [List.append_nil]
  | append_singleton between call ih =>
    obtain ⟨hbefore, hcall⟩ := List.forall_mem_append.mp hothers
    have hkept' : NoEviction self calls between := fun past call' later heq =>
      hkept past call' (later ++ [call]) (by rw [heq, List.append_assoc, List.cons_append])
    have hget := ih hbefore hkept'
    rw [← List.append_assoc, after_concat, ← hget]
    obtain hsame | hgone := @get_step self (self.after (calls ++ between)) _ _
      (hcall call (List.mem_singleton_self call))
    · exact hsame
    · -- a bucket that is gone was not there before
      rw [hgone]
      cases hbucket : (self.after (calls ++ between)).buckets.get key with
      | none => rfl
      | some bucket =>
        have hmem := hkept between call [] rfl key (Dict.mem_keys.mpr ⟨bucket, hbucket⟩)
        rw [after_concat] at hmem
        obtain ⟨bucket', hget'⟩ := Dict.mem_keys.mp hmem
        exact absurd (hgone.symm.trans hget').symm (Option.some_ne_none _)

/-- A bucket that misses less than it is given has its token. -/
theorem one_le_level_iff (hon : 0 < self.perMinute) {now later : ℚ} {bucket : TokenBucket} :
    1 ≤ self.level later (self.refill bucket now) ↔ self.missing now bucket ≤ later - now := by
  have hrate : 0 < self.rate := div_pos (Int.cast_pos.mpr hon) (by norm_num)
  have hlevel : self.level later (self.refill bucket now) =
      min self.capacity (self.level now bucket + (later - now) * self.rate) := rfl
  rw [hlevel, le_min_iff, missing, div_le_iff₀ hrate, and_iff_right (one_le_capacity hon)]
  constructor
  · intro h
    linarith
  · intro h
    linarith

/-- The last charge of a request comes with its first reading or the next one. -/
theorem charged_reading (s : LimiterState) (bearer : Option String) (address : String) :
    (charged s bearer address).2 = s.readings ∨ (charged s bearer address).2 = s.readings + 1 := by
  cases bearer with
  | none => exact .inl rfl
  | some bearer =>
    rw [charged]
    split
    · exact .inl rfl
    · exact .inr rfl

/-- Where the buckets of a request are the same, it is charged to the same one. -/
theorem charged_congr {s s' : LimiterState}
    (h : ∀ key ∈ (LimiterCall.acquireRequest bearer address).keys,
      s'.buckets.get key = s.buckets.get key) :
    (charged s' bearer address).1 = (charged s bearer address).1 := by
  cases bearer with
  | none => rfl
  | some b =>
    simp only [charged, h ("bearer:" ++ b) List.mem_cons_self]
    cases s.buckets.get ("bearer:" ++ b) with
    | none => rfl
    | some bucket => rfl

theorem charged_mem_keys (s : LimiterState) (bearer : Option String) (address : String) :
    (charged s bearer address).1 ∈ (LimiterCall.acquireRequest bearer address).keys := by
  cases bearer with
  | none => exact List.mem_singleton_self _
  | some b =>
    rw [charged, LimiterCall.keys]
    split
    · exact List.mem_cons_self
    · exact List.mem_cons_of_mem _ (List.mem_singleton_self _)

end RateLimiter

open RateLimiter RateLimitMiddleware

/-- **When the same request is granted after Retry-After seconds.** For every limiter and every
state that it reaches, a request that is answered 429, and any calls after it that draw on other
keys and evict nothing: when the clock then stands at the named seconds after the reading of the
refusal, the same request is granted if and only if the wait of the bucket that refused it rounds
up. -/
theorem retry_granted_iff (mw : RateLimitMiddleware) (hrate : 1 ≤ mw.limiter.perMinute)
    (calls between : List LimiterCall) (scope : HttpScope) {answer : TooManyRequests}
    (hrefused : (mw.call scope (mw.limiter.after calls)).1 = some answer)
    (hothers : ∀ call ∈ between, ∀ key ∈ call.keys,
      key ∉ (LimiterCall.acquireRequest (mw.identify scope).1 (mw.identify scope).2).keys)
    (hkept : NoEviction mw.limiter
      (calls ++ [.acquireRequest (mw.identify scope).1 (mw.identify scope).2]) between)
    {later : LimiterState} (hlater : later = mw.limiter.after
      (calls ++ [.acquireRequest (mw.identify scope).1 (mw.identify scope).2] ++ between))
    {refused : ℚ} (hnow : refused = mw.limiter.clock
      (charged (mw.limiter.after calls) (mw.identify scope).1 (mw.identify scope).2).2)
    (hclock : mw.limiter.clock later.readings = refused + answer.retryAfter ∧
      mw.limiter.clock (later.readings + 1) = refused + answer.retryAfter) :
    ∃ bucket, (mw.limiter.after calls).buckets.get
        (charged (mw.limiter.after calls) (mw.identify scope).1 (mw.identify scope).2).1 =
          some bucket ∧
      ((mw.call scope later).1 = none ↔ RoundsUp (mw.limiter.missing refused bucket)) := by
  have hon : 0 < mw.limiter.perMinute := Int.lt_of_lt_of_le Int.zero_lt_one hrate
  -- a request that was refused is one that the middleware limits
  have hlimited : ¬ (scope.type ≠ "http" ∨
      scope.path.any (fun path => decide (path ∈ mw.exempt)) = true) := by
    intro hfree
    rw [RateLimitMiddleware.call, if_pos hfree] at hrefused
    exact absurd hrefused.symm (Option.some_ne_none _)
  have hcall : ∀ s, (mw.call scope s).1 =
      (mw.limiter.acquireRequest (mw.identify scope).1 (mw.identify scope).2 s).1.map fun wait =>
        ⟨retryAfter wait⟩ := fun s => by
    rw [RateLimitMiddleware.call, if_neg hlimited]
  generalize (mw.identify scope).1 = bearer at *
  generalize (mw.identify scope).2 = address at *
  rw [hcall] at hrefused ⊢
  obtain ⟨wait, hwait, rfl⟩ := Option.map_eq_some_iff.mp hrefused
  -- the bucket that was empty, and what is left in it
  obtain ⟨bucket, hbucket⟩ := exists_refusing hon hwait
  refine ⟨bucket, hbucket.held, ?_⟩
  -- no other call in between has touched a bucket of this caller
  have hsame : ∀ key ∈ (LimiterCall.acquireRequest bearer address).keys,
      later.buckets.get key =
        (mw.limiter.acquireRequest bearer address (mw.limiter.after calls)).2.buckets.get key := by
    intro key hkey
    have hget := get_after_others (fun call hcall hmem => hothers call hcall key hmem hkey) hkept
    rw [after_concat] at hget
    rw [hlater]
    exact hget
  have hcharged : (charged later bearer address).1 =
      (charged (mw.limiter.after calls) bearer address).1 :=
    (charged_congr hsame).trans hbucket.charged
  have hheld : later.buckets.get (charged later bearer address).1 =
      some (mw.limiter.refill bucket refused) := by
    rw [hsame _ (charged_mem_keys _ _ _), hcharged, hbucket.left, hnow]
  -- the second request reads the clock once or twice, and either reading is the announced one
  have hreading : mw.limiter.clock (charged later bearer address).2 =
      refused + (retryAfter wait : ℤ) := by
    obtain hfirst | hnext := charged_reading later bearer address
    · rw [hfirst]
      exact hclock.1
    · rw [hnext]
      exact hclock.2
  have hmissing : wait = mw.limiter.missing refused bucket := by
    rw [hbucket.wait, hnow]
  have hnonneg : 0 ≤ wait := by
    rw [hmissing, hnow]
    exact div_nonneg (sub_nonneg.mpr hbucket.empty.le) (rate_nonneg hon.le)
  rw [Option.map_eq_none_iff, acquireRequest_answer hon, hheld, Option.bind_some, hreading]
  calc (if 1 ≤ mw.limiter.level (refused + (retryAfter wait : ℤ)) (mw.limiter.refill bucket refused)
        then none else some (mw.limiter.missing (refused + (retryAfter wait : ℤ))
          (mw.limiter.refill bucket refused))) = none
      ↔ 1 ≤ mw.limiter.level (refused + (retryAfter wait : ℤ))
          (mw.limiter.refill bucket refused) := by simp
    _ ↔ wait ≤ retryAfter wait := by
        rw [one_le_level_iff hon, ← hmissing, add_sub_cancel_left]
    _ ↔ RoundsUp wait := le_retryAfter_iff hnonneg
    _ ↔ RoundsUp (mw.limiter.missing refused bucket) := by rw [hmissing]

/-- A clock that shows the time of the first request, of a second one, and of all later ones. -/
def threeReadings (first second later : ℚ) (n : ℕ) : ℚ :=
  if n = 0 then first else if n = 1 then second else later

theorem monotone_threeReadings {first second later : ℚ} (h : first ≤ second) (h' : second ≤ later) :
    Monotone (threeReadings first second later) := by
  refine monotone_nat_of_le_succ fun n => ?_
  match n with
  | 0 => exact h
  | 1 => exact h'
  | n + 2 => exact le_rfl

/-- A scope without headers, from an address. -/
def plainScope : HttpScope := ⟨"http", some "/v1/decide", [], some "10.0.0.1"⟩

/-- One request a minute, at the given times. -/
def minuteMiddleware (second later : ℚ) (h : 0 ≤ second) (h' : second ≤ later) :
    RateLimitMiddleware :=
  ⟨⟨1, threeReadings 0 second later, monotone_threeReadings h h'⟩, [], id⟩

/-- A minute after the first request the second one is made again. -/
def wholeSeconds : RateLimitMiddleware := minuteMiddleware 1 60 (by decide) (by decide)

/-- The second request comes a little before the end of the first second. -/
def brokenSeconds : RateLimitMiddleware :=
  minuteMiddleware (9995 / 10000) (599995 / 10000) (by norm_num) (by norm_num)

/-- The law at a request that is refused a second after the first one. -/
theorem retry_granted_iff_minute :
    ∃ bucket, (wholeSeconds.limiter.after [.acquireRequest none "10.0.0.1"]).buckets.get
        "addr:10.0.0.1" = some bucket ∧
      ((wholeSeconds.call plainScope (wholeSeconds.limiter.after
          [.acquireRequest none "10.0.0.1", .acquireRequest none "10.0.0.1"])).1 = none ↔
        RoundsUp (wholeSeconds.limiter.missing 1 bucket)) := by
  have hrefused : (wholeSeconds.call plainScope
      (wholeSeconds.limiter.after [.acquireRequest none "10.0.0.1"])).1 = some ⟨59⟩ := by
    decide +kernel
  exact retry_granted_iff wholeSeconds (by decide) [.acquireRequest none "10.0.0.1"] [] plainScope
    hrefused (fun call hcall => absurd hcall List.not_mem_nil)
    (fun past call later heq => absurd heq (by simp)) rfl rfl
    ⟨by decide +kernel, by decide +kernel⟩

/-- **A wait just above a whole number of seconds is rounded down.** One request a minute: the
second one comes 0.9995 seconds after the first one and is told to come back in 59 seconds, when
its bucket still lacks a part of its token. -/
theorem wait_rounded_down :
    (brokenSeconds.call plainScope
      (brokenSeconds.limiter.after [.acquireRequest none "10.0.0.1"])).1 = some ⟨59⟩ ∧
    brokenSeconds.limiter.clock 2 = brokenSeconds.limiter.clock 1 + 59 ∧
    (brokenSeconds.call plainScope (brokenSeconds.limiter.after
      [.acquireRequest none "10.0.0.1", .acquireRequest none "10.0.0.1"])).1 = some ⟨1⟩ := by
  decide +kernel

end HeadOfContext
