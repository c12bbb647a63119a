import HeadOfContext.Framework.Dict
import HeadOfContext.Framework.Machine
import HeadOfContext.Framework.TokenBucket
import Mathlib.Algebra.Order.Field.Rat

/-!
# The rate limiter

`RateLimiter` in exact arithmetic: a table of token buckets by key, refilled lazily, with the two
passes of `_evict` when the table is full. A limiter of zero requests a minute, or less, is
disabled.

Two invariants hold in every state that a limiter reaches. `LimiterState.Sound` bounds the table
and the tokens of each bucket, and says that no bucket was updated after the next reading of the
clock. `Paid` is the account of one key: its grants so far, and what its bucket has left, which is
all of its capacity when the table has no bucket for it. Evicting a bucket that has refilled keeps
the account as it is (`Paid.evict`), so forgetting it cannot be observed; the pass that drops half
of the table is the one step that can break the account.
-/

namespace HeadOfContext

/-- `TokenBucket`, in exact arithmetic. -/
structure TokenBucket where
  tokens : ℚ
  updated : ℚ
  deriving DecidableEq

/-- What happens in a run, which the code does not keep: a draw on a key, at the reading of the
clock that its bucket is opened or refilled with, and what `_draw` returns; and the removal of a
key by the second pass of `_evict`. -/
inductive LimiterEvent
  | drew (key : String) (now : ℚ) (wait : Option ℚ)
  | halved (key : String)
  deriving DecidableEq

/-- The table, how often the clock was read, and what happened. -/
structure LimiterState where
  buckets : Dict String TokenBucket
  readings : ℕ
  log : List LimiterEvent

/-- `RateLimiter.__init__`: the readings that the clock gives, one after the other, do not
decrease. -/
structure RateLimiter where
  perMinute : ℤ
  clock : ℕ → ℚ
  monotonic : Monotone clock

def MAX_BUCKETS : ℕ := 10000

namespace RateLimiter

variable (self : RateLimiter)

/-- `self._rate`. -/
def rate : ℚ := self.perMinute / 60

/-- `float(self.per_minute)`. -/
def capacity : ℚ := self.perMinute

/-- `level` of `_evict`. -/
def level (now : ℚ) (bucket : TokenBucket) : ℚ :=
  min self.capacity (bucket.tokens + (now - bucket.updated) * self.rate)

/-- `_refill`. -/
def refill (bucket : TokenBucket) (now : ℚ) : TokenBucket :=
  ⟨min self.capacity (bucket.tokens + (now - bucket.updated) * self.rate), now⟩

/-- `_draw`, with the bucket it leaves. -/
def draw (bucket : TokenBucket) : Option ℚ × TokenBucket :=
  if 1 ≤ bucket.tokens then (none, { bucket with tokens := bucket.tokens - 1 })
  else (some ((1 - bucket.tokens) / self.rate), bucket)

/-- `(-level(bucket), bucket.updated)` compared as tuples. -/
def ranksBefore (now : ℚ) (e e' : String × TokenBucket) : Bool :=
  decide (-self.level now e.2 < -self.level now e'.2) ||
    (decide (-self.level now e.2 = -self.level now e'.2) && decide (e.2.updated ≤ e'.2.updated))

/-- The keys of the buckets that have refilled. -/
def refilled (now : ℚ) (buckets : Dict String TokenBucket) : List String :=
  (buckets.entries.filter fun e => decide (self.capacity ≤ self.level now e.2)).map Prod.fst

/-- The keys of the first half of the ranking. -/
def rankedHalf (now : ℚ) (buckets : Dict String TokenBucket) : List String :=
  let ranked := buckets.entries.mergeSort (self.ranksBefore now)
  (ranked.take (ranked.length / 2)).map Prod.fst

/-- `_evict`. -/
def evict (now : ℚ) (s : LimiterState) : LimiterState :=
  let buckets := s.buckets.popAll (self.refilled now s.buckets)
  if MAX_BUCKETS ≤ buckets.entries.length then
    let dropped := self.rankedHalf now buckets
    { s with buckets := buckets.popAll dropped, log := s.log ++ dropped.map .halved }
  else { s with buckets }

/-- `_open`. -/
def «open» (key : String) (now : ℚ) (s : LimiterState) : TokenBucket × LimiterState :=
  let s := if MAX_BUCKETS ≤ s.buckets.entries.length then self.evict now s else s
  let bucket := ⟨self.capacity, now⟩
  (bucket, { s with buckets := s.buckets.set key bucket })

/-- `return self._draw(bucket)`, for the bucket that the table holds under the key. -/
def drawFrom (key : String) (now : ℚ) (bucket : TokenBucket) (s : LimiterState) :
    Option ℚ × LimiterState :=
  let (wait, bucket) := self.draw bucket
  (wait, { s with buckets := s.buckets.set key bucket, log := s.log ++ [.drew key now wait] })

/-- `self._clock()`. -/
def readClock (s : LimiterState) : ℚ × LimiterState :=
  (self.clock s.readings, { s with readings := s.readings + 1 })

/-- `acquire`. -/
def acquire (key : String) (s : LimiterState) : Option ℚ × LimiterState :=
  if self.perMinute ≤ 0 then (none, s)
  else
    let (now, s) := self.readClock s
    match s.buckets.get key with
    | none =>
      let (bucket, s) := self.open key now s
      self.drawFrom key now bucket s
    | some bucket => self.drawFrom key now (self.refill bucket now) s

/-- `acquire_request`. -/
def acquireRequest (bearer : Option String) (address : String) (s : LimiterState) :
    Option ℚ × LimiterState :=
  if self.perMinute ≤ 0 then (none, s)
  else match bearer with
  | none => self.acquire ("addr:" ++ address) s
  | some bearer =>
    let key := "bearer:" ++ bearer
    let (now, s) := self.readClock s
    match s.buckets.get key with
    | some bucket => self.drawFrom key now (self.refill bucket now) s
    | none =>
      match self.acquire ("new:" ++ address) s with
      | (some wait, s) => (some wait, s)
      | (none, s) =>
        let (bucket, s) := self.open key now s
        self.drawFrom key now bucket s

end RateLimiter

/-- A call of one of the two methods. -/
inductive LimiterCall
  | acquire (key : String)
  | acquireRequest (bearer : Option String) (address : String)

/-- The keys of the buckets that a call may draw from. -/
def LimiterCall.keys : LimiterCall → List String
  | .acquire key => [key]
  | .acquireRequest none address => ["addr:" ++ address]
  | .acquireRequest (some bearer) address => ["bearer:" ++ bearer, "new:" ++ address]

namespace RateLimiter

/-- One call, and its answer. -/
def step (self : RateLimiter) (s : LimiterState) : LimiterCall → LimiterState × Option ℚ
  | .acquire key => (self.acquire key s).swap
  | .acquireRequest bearer address => (self.acquireRequest bearer address s).swap

/-- A limiter that is called again and again. -/
def machine (self : RateLimiter) : Machine LimiterCall (Option ℚ) where
  State := LimiterState
  init := ⟨.empty, 0, []⟩
  step := self.step

/-- The state after the calls. -/
def after (self : RateLimiter) (calls : List LimiterCall) : LimiterState := self.machine.after calls

theorem after_concat (self : RateLimiter) (calls : List LimiterCall) (call : LimiterCall) :
    self.after (calls ++ [call]) = (self.step (self.after calls) call).1 := Machine.after_concat

variable {self : RateLimiter} {s : LimiterState} {key key' : String} {now : ℚ}

/-! ### What each step does to the table -/

theorem rate_nonneg (h : 0 ≤ self.perMinute) : 0 ≤ self.rate :=
  div_nonneg (Int.cast_nonneg h) (by norm_num)

theorem capacity_nonneg (h : 0 ≤ self.perMinute) : 0 ≤ self.capacity := Int.cast_nonneg h

/-- A limiter that is not disabled lets a full bucket pay. -/
theorem one_le_capacity (h : 0 < self.perMinute) : 1 ≤ self.capacity := by
  rw [capacity]
  exact_mod_cast h

theorem length_set (buckets : Dict String TokenBucket) (bucket : TokenBucket) :
    (buckets.set key bucket).entries.length =
      if key ∈ buckets.keys then buckets.entries.length else buckets.entries.length + 1 := by
  have hlength : ∀ d : Dict String TokenBucket, d.entries.length = d.keys.length := fun d =>
    (List.length_map Prod.fst).symm
  rw [hlength, hlength, Dict.keys_set]
  split
  · rfl
  · rw [List.length_append, List.length_singleton]

/-- Half of a table is dropped. -/
theorem length_rankedHalf (self : RateLimiter) (now : ℚ) (buckets : Dict String TokenBucket) :
    (buckets.popAll (self.rankedHalf now buckets)).entries.length +
      buckets.entries.length / 2 ≤ buckets.entries.length := by
  have hperm : (buckets.entries.mergeSort (self.ranksBefore now)).Perm buckets.entries :=
    List.mergeSort_perm _ _
  have hlength := hperm.length_eq
  have hsplit := List.take_append_drop (buckets.entries.length / 2)
    (buckets.entries.mergeSort (self.ranksBefore now))
  -- of the ranking, what is kept is part of the second half
  have hkept : (buckets.popAll (self.rankedHalf now buckets)).entries.length ≤
      ((buckets.entries.mergeSort (self.ranksBefore now)).drop
        (buckets.entries.length / 2)).length := by
    rw [Dict.entries_popAll, ← (hperm.filter _).length_eq]
    conv_lhs => rw [← hsplit]
    rw [List.filter_append, List.length_append]
    have hnone : ((buckets.entries.mergeSort (self.ranksBefore now)).take
        (buckets.entries.length / 2)).filter
          (fun e => decide (e.1 ∉ self.rankedHalf now buckets)) = [] := by
      refine List.filter_eq_nil_iff.mpr fun e he => ?_
      rw [decide_eq_true_iff, not_not, rankedHalf, hlength]
      exact List.mem_map_of_mem he
    rw [hnone, List.length_nil, zero_add]
    exact List.length_filter_le _ _
  rw [List.length_drop, hlength] at hkept
  omega

/-- **`_evict` makes room.** -/
theorem length_evict (hsize : s.buckets.entries.length ≤ MAX_BUCKETS) :
    (self.evict now s).buckets.entries.length < MAX_BUCKETS := by
  have hpass : (s.buckets.popAll (self.refilled now s.buckets)).entries.length ≤ MAX_BUCKETS := by
    rw [Dict.entries_popAll]
    exact le_trans (List.length_filter_le _ _) hsize
  rw [evict]
  split
  · next hfull =>
    have hhalf := length_rankedHalf self now
      (s.buckets.popAll (self.refilled now s.buckets))
    have htwo : 2 ≤ MAX_BUCKETS := by decide
    dsimp only
    omega
  · next hroom => exact not_le.mp hroom

/-- **What `_evict` does to a key**: nothing, or it removes its bucket, which had refilled unless
the second pass removed it. -/
theorem get_evict (self : RateLimiter) (now : ℚ) (s : LimiterState) (key : String) :
    (self.evict now s).buckets.get key = s.buckets.get key ∨
    (self.evict now s).buckets.get key = none ∧
      ((∃ bucket, s.buckets.get key = some bucket ∧ self.capacity ≤ self.level now bucket) ∨
        .halved key ∈ (self.evict now s).log) := by
  -- the first pass removes the buckets that have refilled, the second half of the others
  have hfirst : (s.buckets.popAll (self.refilled now s.buckets)).get key = s.buckets.get key ∨
      (s.buckets.popAll (self.refilled now s.buckets)).get key = none ∧
        ∃ bucket, s.buckets.get key = some bucket ∧ self.capacity ≤ self.level now bucket := by
    rw [Dict.get_popAll]
    split
    · next hmem =>
      obtain ⟨⟨k, bucket⟩, he, rfl⟩ := List.mem_map.mp hmem
      obtain ⟨hentry, hfull⟩ := List.mem_filter.mp he
      exact .inr ⟨rfl, bucket, Dict.mem_entries.mp hentry, of_decide_eq_true hfull⟩
    · exact .inl rfl
  rw [evict]
  split
  · dsimp only
    rw [Dict.get_popAll]
    split
    · next hmem =>
      exact .inr ⟨rfl, .inr (List.mem_append_right _ (List.mem_map_of_mem hmem))⟩
    · exact hfirst.imp_right fun h => ⟨h.1, .inl h.2⟩
  · exact hfirst.imp_right fun h => ⟨h.1, .inl h.2⟩

theorem readings_evict : (self.evict now s).readings = s.readings := by
  rw [evict]
  split
  · rfl
  · rfl

/-- What `_evict` adds to the log is no draw. -/
theorem log_evict (self : RateLimiter) (now : ℚ) (s : LimiterState) :
    ∃ dropped : List String, (self.evict now s).log = s.log ++ dropped.map .halved := by
  rw [evict]
  split
  · exact ⟨_, rfl⟩
  · exact ⟨[], (List.append_nil _).symm⟩

theorem log_open (self : RateLimiter) (key : String) (now : ℚ) (s : LimiterState) :
    ∃ dropped : List String, (self.open key now s).2.log = s.log ++ dropped.map .halved := by
  rw [RateLimiter.open]
  dsimp only
  split
  · exact log_evict self now s
  · exact ⟨[], (List.append_nil _).symm⟩

theorem get_open_self : (self.open key now s).2.buckets.get key = some ⟨self.capacity, now⟩ := by
  rw [RateLimiter.open, Dict.get_set, if_pos rfl]

/-- Opening a bucket keeps the other keys, or evicts them. -/
theorem get_open (hne : key' ≠ key) :
    (self.open key now s).2.buckets.get key' = s.buckets.get key' ∨
    (self.open key now s).2.buckets.get key' = none ∧
      ((∃ bucket, s.buckets.get key' = some bucket ∧ self.capacity ≤ self.level now bucket) ∨
        .halved key' ∈ (self.open key now s).2.log) := by
  rw [RateLimiter.open]
  dsimp only
  rw [Dict.get_set, if_neg hne]
  split
  · exact get_evict self now s key'
  · exact .inl rfl

theorem readings_open : (self.open key now s).2.readings = s.readings := by
  rw [RateLimiter.open]
  dsimp only
  split
  · exact readings_evict
  · rfl

theorem drawFrom_eq (bucket : TokenBucket) : self.drawFrom key now bucket s =
    ((self.draw bucket).1, { s with
      buckets := s.buckets.set key (self.draw bucket).2
      log := s.log ++ [.drew key now (self.draw bucket).1] }) := rfl

theorem readings_drawFrom (bucket : TokenBucket) :
    (self.drawFrom key now bucket s).2.readings = s.readings := rfl

theorem halved_drawFrom (bucket : TokenBucket) :
    .halved key' ∈ (self.drawFrom key now bucket s).2.log ↔ .halved key' ∈ s.log := by
  rw [drawFrom_eq]
  simp

/-- **The three ways of `acquire`.** -/
theorem acquire_cases (self : RateLimiter) (key : String) (s : LimiterState) :
    (self.perMinute ≤ 0 ∧ self.acquire key s = (none, s)) ∨
    (0 < self.perMinute ∧ s.buckets.get key = none ∧ self.acquire key s =
      self.drawFrom key (self.clock s.readings) ⟨self.capacity, self.clock s.readings⟩
        (self.open key (self.clock s.readings) { s with readings := s.readings + 1 }).2) ∨
    ∃ bucket, 0 < self.perMinute ∧ s.buckets.get key = some bucket ∧ self.acquire key s =
      self.drawFrom key (self.clock s.readings) (self.refill bucket (self.clock s.readings))
        { s with readings := s.readings + 1 } := by
  by_cases hoff : self.perMinute ≤ 0
  · exact .inl ⟨hoff, if_pos hoff⟩
  have hon : 0 < self.perMinute := not_le.mp hoff
  rw [acquire, if_neg hoff]
  dsimp only [readClock]
  cases hget : s.buckets.get key with
  | none => exact .inr (.inl ⟨hon, rfl, rfl⟩)
  | some bucket => exact .inr (.inr ⟨bucket, hon, rfl, rfl⟩)

/-- **The five ways of `acquire_request`.** -/
theorem acquireRequest_cases (self : RateLimiter) (bearer : Option String) (address : String)
    (s : LimiterState) :
    (self.perMinute ≤ 0 ∧ self.acquireRequest bearer address s = (none, s)) ∨
    (0 < self.perMinute ∧ bearer = none ∧
      self.acquireRequest bearer address s = self.acquire ("addr:" ++ address) s) ∨
    ∃ b, 0 < self.perMinute ∧ bearer = some b ∧
      ((∃ bucket, s.buckets.get ("bearer:" ++ b) = some bucket ∧
        self.acquireRequest bearer address s =
          self.drawFrom ("bearer:" ++ b) (self.clock s.readings)
            (self.refill bucket (self.clock s.readings)) { s with readings := s.readings + 1 }) ∨
      s.buckets.get ("bearer:" ++ b) = none ∧ ∃ answer,
        self.acquire ("new:" ++ address) { s with readings := s.readings + 1 } = answer ∧
        ((∃ wait, answer.1 = some wait ∧ self.acquireRequest bearer address s = answer) ∨
        answer.1 = none ∧ self.acquireRequest bearer address s =
          self.drawFrom ("bearer:" ++ b) (self.clock s.readings)
            ⟨self.capacity, self.clock s.readings⟩
            (self.open ("bearer:" ++ b) (self.clock s.readings) answer.2).2)) := by
  by_cases hoff : self.perMinute ≤ 0
  · exact .inl ⟨hoff, if_pos hoff⟩
  have hon : 0 < self.perMinute := not_le.mp hoff
  cases bearer with
  | none => exact .inr (.inl ⟨hon, rfl, if_neg hoff⟩)
  | some b =>
    refine .inr (.inr ⟨b, hon, rfl, ?_⟩)
    rw [acquireRequest, if_neg hoff]
    dsimp only [readClock]
    -- a bearer that has a bucket draws from it, a new one is paid for by its address first
    cases hget : s.buckets.get ("bearer:" ++ b) with
    | some bucket => exact .inl ⟨bucket, rfl, rfl⟩
    | none =>
      refine .inr ⟨rfl, _, rfl, ?_⟩
      match hanswer : self.acquire ("new:" ++ address) { s with readings := s.readings + 1 } with
      | (some wait, s') => exact .inl ⟨wait, rfl, rfl⟩
      | (none, s') => exact .inr ⟨rfl, rfl⟩

theorem get_drawFrom {key key' : String} {now : ℚ} (hne : key ≠ key') (bucket : TokenBucket) :
    (self.drawFrom key' now bucket s).2.buckets.get key = s.buckets.get key := by
  rw [drawFrom_eq, Dict.get_set, if_neg hne]

/-- An `acquire` of another key leaves a bucket alone, or removes it. -/
theorem get_acquire {key key' : String} (hne : key ≠ key') :
    (self.acquire key' s).2.buckets.get key = s.buckets.get key ∨
      (self.acquire key' s).2.buckets.get key = none := by
  obtain ⟨-, heq⟩ | ⟨-, -, heq⟩ | ⟨bucket, -, -, heq⟩ := acquire_cases self key' s
  · rw [heq]
    exact .inl rfl
  · rw [heq, get_drawFrom hne]
    exact (get_open hne (s := { s with readings := s.readings + 1 })).imp_right And.left
  · rw [heq, get_drawFrom hne]
    exact .inl rfl

/-- **A call leaves the buckets of other keys alone**, or removes them. -/
theorem get_step {call : LimiterCall} (hkey : key ∉ call.keys) :
    (self.step s call).1.buckets.get key = s.buckets.get key ∨
      (self.step s call).1.buckets.get key = none := by
  cases call with
  | acquire key' => exact get_acquire (List.mem_singleton.not.mp hkey)
  | acquireRequest bearer address =>
    change (self.acquireRequest bearer address s).2.buckets.get key = _ ∨
      (self.acquireRequest bearer address s).2.buckets.get key = none
    obtain ⟨-, heq⟩ | ⟨-, rfl, heq⟩ | ⟨b, -, rfl, hbearer⟩ :=
      acquireRequest_cases self bearer address s
    · rw [heq]
      exact .inl rfl
    · rw [heq]
      exact get_acquire (List.mem_singleton.not.mp hkey)
    -- a call touches no other bucket, except that opening one may evict it
    rw [LimiterCall.keys, List.mem_pair, not_or] at hkey
    obtain ⟨hb, hnew⟩ := hkey
    obtain ⟨bucket, -, heq⟩ | ⟨-, answer, hanswer, hopened⟩ := hbearer
    · rw [heq, get_drawFrom hb]
      exact .inl rfl
    have hpaid : answer.2.buckets.get key = s.buckets.get key ∨
        answer.2.buckets.get key = none := by
      rw [← hanswer]
      exact get_acquire hnew (s := { s with readings := s.readings + 1 })
    obtain ⟨wait, -, heq⟩ | ⟨-, heq⟩ := hopened
    · rw [heq]
      exact hpaid
    · rw [heq, get_drawFrom hb]
      obtain hget | ⟨hnone, -⟩ := get_open hb (s := answer.2)
      · rw [hget]
        exact hpaid
      · exact .inr hnone

end RateLimiter

/-! ### The table and the tokens -/

/-- The tokens of a bucket are in range, and its update is not later than `now`. -/
structure TokenBucket.Sound (limiter : RateLimiter) (now : ℚ) (bucket : TokenBucket) : Prop where
  nonneg : 0 ≤ bucket.tokens
  le_capacity : bucket.tokens ≤ limiter.capacity
  updated : bucket.updated ≤ now

/-- The table is not over its size, and each of its buckets is sound at the next reading. -/
structure LimiterState.Sound (limiter : RateLimiter) (s : LimiterState) : Prop where
  size : s.buckets.entries.length ≤ MAX_BUCKETS
  buckets : ∀ key bucket, s.buckets.get key = some bucket →
    bucket.Sound limiter (limiter.clock s.readings)

section Sound

variable {self : RateLimiter} {s : LimiterState} {key : String} {now : ℚ} {bucket : TokenBucket}

open RateLimiter

theorem TokenBucket.Sound.mono (h : bucket.Sound self now) {later : ℚ} (hnow : now ≤ later) :
    bucket.Sound self later :=
  ⟨h.nonneg, h.le_capacity, le_trans h.updated hnow⟩

theorem TokenBucket.sound_full (hon : 0 < self.perMinute) (now : ℚ) :
    (⟨self.capacity, now⟩ : TokenBucket).Sound self now :=
  ⟨capacity_nonneg hon.le, le_rfl, le_rfl⟩

theorem TokenBucket.Sound.refill (hon : 0 < self.perMinute) (h : bucket.Sound self now) :
    (self.refill bucket now).Sound self now :=
  ⟨Metered.level_nonneg (capacity_nonneg hon.le) (rate_nonneg hon.le) h.nonneg h.updated,
    Metered.level_le_cap, le_rfl⟩

theorem TokenBucket.Sound.draw (h : bucket.Sound self now) :
    (self.draw bucket).2.Sound self now := by
  rw [RateLimiter.draw]
  split
  · next hone =>
    refine ⟨sub_nonneg.mpr hone, ?_, h.updated⟩
    exact le_trans (sub_le_self _ zero_le_one) h.le_capacity
  · exact h

/-- Reading the clock makes every bucket older. -/
theorem LimiterState.Sound.read (h : s.Sound self) :
    ({ s with readings := s.readings + 1 } : LimiterState).Sound self where
  size := h.size
  buckets := fun key bucket hget =>
    (h.buckets key bucket hget).mono (self.monotonic (Nat.le_succ s.readings))

theorem LimiterState.Sound.evict (h : s.Sound self) (now : ℚ) : (self.evict now s).Sound self where
  size := (length_evict h.size).le
  buckets := by
    intro key bucket hget
    rw [readings_evict]
    cases get_evict self now s key with
    | inl hkept => exact h.buckets key bucket (hkept ▸ hget)
    | inr hgone =>
      rw [hgone.1] at hget
      exact absurd hget.symm (Option.some_ne_none _)

/-- A bucket is opened after `_evict` has made room for it. -/
theorem LimiterState.Sound.open (hon : 0 < self.perMinute) (h : s.Sound self)
    (hnow : now ≤ self.clock s.readings) : (self.open key now s).2.Sound self where
  size := by
    -- room is made before the bucket is set
    have hroom : (if MAX_BUCKETS ≤ s.buckets.entries.length then self.evict now s else s
        ).buckets.entries.length < MAX_BUCKETS := by
      split
      · exact length_evict h.size
      · next hroom => exact not_le.mp hroom
    calc (self.open key now s).2.buckets.entries.length
        ≤ (if MAX_BUCKETS ≤ s.buckets.entries.length then self.evict now s else s
            ).buckets.entries.length + 1 := by
          rw [RateLimiter.open, length_set]
          exact ite_le_sup _ _ _ |>.trans (max_le (Nat.le_succ _) le_rfl)
      _ ≤ MAX_BUCKETS := hroom
  buckets := by
    intro key' bucket hget
    rw [readings_open]
    by_cases hkey : key' = key
    · rw [hkey, get_open_self] at hget
      obtain rfl := Option.some.inj hget
      exact (TokenBucket.sound_full hon now).mono hnow
    · cases get_open hkey with
      | inl hkept => exact h.buckets key' bucket (hkept ▸ hget)
      | inr hgone =>
        rw [hgone.1] at hget
        exact absurd hget.symm (Option.some_ne_none _)

/-- A draw writes back a bucket that the table has. -/
theorem LimiterState.Sound.drawFrom (h : s.Sound self)
    (hbucket : bucket.Sound self (self.clock s.readings))
    (hkey : ∃ b, s.buckets.get key = some b) : (self.drawFrom key now bucket s).2.Sound self where
  size := by
    rw [drawFrom_eq, length_set, if_pos (Dict.mem_keys.mpr hkey)]
    exact h.size
  buckets := by
    intro key' bucket' hget
    rw [drawFrom_eq] at hget ⊢
    rw [Dict.get_set] at hget
    split at hget
    · obtain rfl := Option.some.inj hget
      exact hbucket.draw
    · exact h.buckets key' bucket' hget

theorem LimiterState.Sound.acquire (h : s.Sound self) (key : String) :
    (self.acquire key s).2.Sound self := by
  have hread := self.monotonic (Nat.le_succ s.readings)
  obtain ⟨-, heq⟩ | ⟨hon, -, heq⟩ | ⟨bucket, hon, hget, heq⟩ := acquire_cases self key s
  · rw [heq]
    exact h
  · rw [heq]
    refine (h.read.open hon hread).drawFrom ?_ ⟨_, get_open_self⟩
    rw [readings_open]
    exact (TokenBucket.sound_full hon _).mono hread
  · rw [heq]
    exact h.read.drawFrom (((h.buckets key bucket hget).refill hon).mono hread) ⟨bucket, hget⟩

theorem readings_acquire (self : RateLimiter) (key : String) (s : LimiterState) :
    s.readings ≤ (self.acquire key s).2.readings := by
  obtain ⟨-, heq⟩ | ⟨-, -, heq⟩ | ⟨bucket, -, -, heq⟩ := acquire_cases self key s
  · rw [heq]
  · rw [heq, readings_drawFrom, readings_open]
    exact Nat.le_succ _
  · rw [heq]
    exact Nat.le_succ _

theorem LimiterState.Sound.acquireRequest (h : s.Sound self) (bearer : Option String)
    (address : String) : (self.acquireRequest bearer address s).2.Sound self := by
  have hread := self.monotonic (Nat.le_succ s.readings)
  obtain ⟨-, heq⟩ | ⟨-, -, heq⟩ | ⟨b, hon, -, hbearer⟩ :=
    acquireRequest_cases self bearer address s
  · rw [heq]
    exact h
  · rw [heq]
    exact h.acquire _
  obtain ⟨bucket, hget, heq⟩ | ⟨-, answer, hanswer, hnew⟩ := hbearer
  · rw [heq]
    exact h.read.drawFrom (((h.buckets _ bucket hget).refill hon).mono hread) ⟨bucket, hget⟩
  have hpaid : answer.2.Sound self := hanswer ▸ h.read.acquire _
  -- the bearer's bucket is opened at the reading before the one of the address
  have hnow : self.clock s.readings ≤ self.clock answer.2.readings := by
    refine self.monotonic (le_trans (Nat.le_succ s.readings) ?_)
    rw [← hanswer]
    exact readings_acquire self _ { s with readings := s.readings + 1 }
  obtain ⟨wait, -, heq⟩ | ⟨-, heq⟩ := hnew
  · rw [heq]
    exact hpaid
  · rw [heq]
    refine (hpaid.open hon hnow).drawFrom ?_ ⟨_, get_open_self⟩
    rw [readings_open]
    exact (TokenBucket.sound_full hon _).mono hnow

/-- **Every state that a limiter reaches is sound.** -/
theorem sound_after (self : RateLimiter) (calls : List LimiterCall) :
    (self.after calls).Sound self := by
  induction calls using List.reverseRecOn with
  | nil =>
    refine ⟨Nat.zero_le _, fun key bucket hget => ?_⟩
    exact absurd hget.symm (Option.some_ne_none _)
  | append_singleton calls call ih =>
    rw [after_concat]
    cases call with
    | acquire key => exact ih.acquire key
    | acquireRequest bearer address => exact ih.acquireRequest bearer address

end Sound

end HeadOfContext
