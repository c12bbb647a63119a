import HeadOfContext.Api.Metering
import Mathlib.Data.Finset.Card

/-!
# New bearers

What `acquire_request` promises about bearers, for every interleaving of requests. A bearer
without a bucket gets one only if the new-bearer bucket of the address pays for it
(`acquireRequest_opens`), so the bearers that get one from an address are no more than the grants
on that bucket, which its account bounds. And nobody else's request touches a bearer's bucket, but
for removing it (`get_acquireRequest`): while it is in the table, what its bearer is answered is a
function of the readings of the clock at the bearer's own requests (`solo`), and two runs with the
same readings give the same answers.

The reading that counts for a new bearer is the one that the new-bearer bucket is charged at, the
second of the request.
-/

namespace HeadOfContext

namespace RateLimiter

variable {self : RateLimiter} {s : LimiterState} {b address : String}

/-- The state after requests, each a bearer, if there is one, and an address. -/
def afterRequests (self : RateLimiter) (requests : List (Option String × String)) : LimiterState :=
  self.after (requests.map fun r => .acquireRequest r.1 r.2)

theorem afterRequests_concat (self : RateLimiter) (requests : List (Option String × String))
    (r : Option String × String) : self.afterRequests (requests ++ [r]) =
      (self.acquireRequest r.1 r.2 (self.afterRequests requests)).2 := by
  rw [afterRequests, List.map_append, List.map_singleton, after_concat]
  rfl

/-- The bearer has a bucket. -/
def Established (s : LimiterState) (b : String) : Prop := s.buckets.get ("bearer:" ++ b) ≠ none

instance : Decidable (Established s b) := inferInstanceAs (Decidable (_ ≠ none))

/-- The bearer gets a bucket from the address, which its new-bearer bucket pays for at `at_`. -/
def Obtains (self : RateLimiter) (requests : List (Option String × String)) (b address : String)
    (at_ : ℚ) : Prop :=
  ∃ before later, requests = before ++ (some b, address) :: later ∧
    ¬ Established (self.afterRequests before) b ∧
    Established (self.afterRequests (before ++ [(some b, address)])) b ∧
    at_ = self.clock ((self.afterRequests before).readings + 1)

/-- The readings of the clock at the requests of the bearer, with what they are answered. -/
def ownTurns (self : RateLimiter) (b : String) :
    List (Option String × String) → List (Option String × String) → List (ℚ × Option ℚ)
  | _, [] => []
  | before, r :: rest =>
    let s := self.afterRequests before
    if r.1 = some b then
      (self.clock s.readings, (self.acquireRequest r.1 r.2 s).1) ::
        self.ownTurns b (before ++ [r]) rest
    else self.ownTurns b (before ++ [r]) rest

/-- After the requests in front, the bearer gets a bucket with the next one, and has it after each
of the requests from then on. -/
structure Stays (limiter : RateLimiter) (b address : String)
    (before during : List (Option String × String)) : Prop where
  absent : ¬ Established (limiter.afterRequests before) b
  present : ∀ past later, (some b, address) :: during = past ++ later → past ≠ [] →
    Established (limiter.afterRequests (before ++ past)) b

/-! ### How a bearer gets a bucket -/

/-- **How a bearer gets a bucket**: the new-bearer bucket of the address grants it, and the bearer
draws on a full one. -/
theorem acquireRequest_opening (habsent : ¬ Established s b)
    (hopened : Established (self.acquireRequest (some b) address s).2 b) :
    0 < self.perMinute ∧ ∃ s', self.acquire ("new:" ++ address)
        { s with readings := s.readings + 1 } = (none, s') ∧
      self.acquireRequest (some b) address s =
        self.drawFrom ("bearer:" ++ b) (self.clock s.readings)
          ⟨self.capacity, self.clock s.readings⟩
          (self.open ("bearer:" ++ b) (self.clock s.readings) s').2 := by
  have hnone : s.buckets.get ("bearer:" ++ b) = none := not_not.mp habsent
  obtain ⟨-, heq⟩ | ⟨-, hbearer, -⟩ | ⟨b', hon, hb, hbearer⟩ :=
    acquireRequest_cases self (some b) address s
  · rw [heq] at hopened
    exact absurd hopened habsent
  · exact absurd hbearer (Option.some_ne_none b)
  obtain rfl := Option.some.inj hb
  obtain ⟨bucket, hget, -⟩ | ⟨-, ⟨wait, s'⟩, hanswer, hnew⟩ := hbearer
  · exact absurd (hnone.symm.trans hget).symm (Option.some_ne_none _)
  obtain ⟨wait', -, heq⟩ | ⟨rfl, heq⟩ := hnew
  · -- a refused attempt has left the bearer without a bucket
    have hstill := (acquire_absent self (bearer_ne_new b address)
      (show ({ s with readings := s.readings + 1 } : LimiterState).buckets.get _ = none
        from hnone)).1
    rw [hanswer] at hstill
    rw [heq] at hopened
    exact absurd hstill hopened
  · exact ⟨hon, s', hanswer, heq⟩

/-- **A new bearer's bucket is paid by its address.** -/
theorem acquireRequest_opens (habsent : ¬ Established s b)
    (hopened : Established (self.acquireRequest (some b) address s).2 b) :
    grantsOn ("new:" ++ address) (self.acquireRequest (some b) address s).2.log =
      grantsOn ("new:" ++ address) s.log ++ [self.clock (s.readings + 1)] := by
  obtain ⟨hon, s', hanswer, heq⟩ := acquireRequest_opening habsent hopened
  obtain ⟨dropped, hlog⟩ := log_acquire hon ("new:" ++ address)
    { s with readings := s.readings + 1 }
  rw [hanswer] at hlog
  have hcharge : grantsOn ("new:" ++ address)
      [.drew ("new:" ++ address) (self.clock (s.readings + 1)) none] =
        [self.clock (s.readings + 1)] := by
    simp [grantsOn]
  rw [heq, drawFrom_eq, grantsOn_append, grantsOn_drew (bearer_ne_new b address).symm,
    List.append_nil, grantsOn_open, hlog, grantsOn_append, grantsOn_append, grantsOn_halved,
    List.append_nil, hcharge]

/-- An opened bucket grants its first draw. -/
theorem drawFrom_full {key : String} (hon : 0 < self.perMinute) (now : ℚ) :
    (self.drawFrom key now ⟨self.capacity, now⟩ s).1 = none := by
  rw [drawFrom_eq, draw, if_pos (one_le_capacity hon)]

/-- **A refused call adds no bucket**, and removes none. -/
theorem keys_of_refused {bearer : Option String} {wait : ℚ}
    (h : (self.acquireRequest bearer address s).1 = some wait) :
    (self.acquireRequest bearer address s).2.buckets.keys = s.buckets.keys := by
  have hdraw : ∀ {key : String} {now : ℚ} {bucket bucket' : TokenBucket} {s : LimiterState},
      s.buckets.get key = some bucket' →
      (self.drawFrom key now bucket s).2.buckets.keys = s.buckets.keys := by
    intro key now bucket bucket' s hget
    rw [drawFrom_eq, Dict.keys_set, if_pos (Dict.mem_keys.mpr ⟨bucket', hget⟩)]
  have hacquire : ∀ {key : String} {s : LimiterState}, (self.acquire key s).1 = some wait →
      (self.acquire key s).2.buckets.keys = s.buckets.keys := by
    intro key s hwait
    obtain ⟨-, heq⟩ | ⟨hon, -, heq⟩ | ⟨bucket, -, hget, heq⟩ := acquire_cases self key s
    · rw [heq]
    · -- a bucket that is opened is full, so its first draw is granted
      rw [heq, drawFrom_full hon] at hwait
      exact absurd hwait.symm (Option.some_ne_none _)
    · rw [heq]
      exact hdraw hget
  obtain ⟨-, heq⟩ | ⟨-, -, heq⟩ | ⟨b, hon, -, hbearer⟩ :=
    acquireRequest_cases self bearer address s
  · rw [heq]
  · rw [heq] at h ⊢
    exact hacquire h
  obtain ⟨bucket, hget, heq⟩ | ⟨-, answer, hanswer, hnew⟩ := hbearer
  · rw [heq]
    exact hdraw hget
  obtain ⟨wait', -, heq⟩ | ⟨-, heq⟩ := hnew
  · rw [heq, ← hanswer] at h ⊢
    exact hacquire h
  · rw [heq, drawFrom_full hon] at h
    exact absurd h.symm (Option.some_ne_none _)

/-! ### How many get one -/

/-- The bearers that get a bucket from an address are no more than the grants on its new-bearer
bucket. -/
theorem card_le_grants (self : RateLimiter) (address : String)
    (requests : List (Option String × String)) (start stop : ℚ) (bearers : Finset String)
    (h : ∀ b ∈ bearers, ∃ at_, Obtains self requests b address at_ ∧ start ≤ at_ ∧ at_ ≤ stop) :
    bearers.card ≤ (grantsOn ("new:" ++ address) (self.afterRequests requests).log).countP
      fun g => decide (start ≤ g ∧ g ≤ stop) := by
  induction requests using List.reverseRecOn generalizing bearers with
  | nil =>
    have hempty : bearers = ∅ := by
      refine Finset.eq_empty_of_forall_notMem fun b hb => ?_
      obtain ⟨-, ⟨before, later, hsplit, -⟩, -⟩ := h b hb
      exact absurd hsplit.symm (List.append_ne_nil_of_right_ne_nil _ (List.cons_ne_nil _ _))
    rw [hempty]
    exact Nat.zero_le _
  | append_singleton requests r ih =>
    -- a bearer gets its bucket with the last request, or with one before it
    have hlast : ∀ b ∈ bearers, (∃ at_, Obtains self requests b address at_ ∧
        start ≤ at_ ∧ at_ ≤ stop) ∨
        r = (some b, address) ∧ ¬ Established (self.afterRequests requests) b ∧
          Established (self.afterRequests (requests ++ [(some b, address)])) b ∧
          start ≤ self.clock ((self.afterRequests requests).readings + 1) ∧
          self.clock ((self.afterRequests requests).readings + 1) ≤ stop := by
      intro b hb
      obtain ⟨at_, ⟨before, later, hsplit, habsent, hopened, hat⟩, hfrom, hto⟩ := h b hb
      cases later using List.reverseRecOn with
      | nil =>
        obtain ⟨rfl, hr⟩ := List.append_inj' hsplit rfl
        exact .inr ⟨List.singleton_injective hr, habsent, hopened, hat ▸ hfrom, hat ▸ hto⟩
      | append_singleton later r' =>
        rw [← List.cons_append, ← List.append_assoc] at hsplit
        exact .inl ⟨at_, ⟨before, later, (List.append_inj' hsplit rfl).1, habsent, hopened, hat⟩,
          hfrom, hto⟩
    by_cases hnew : ∃ b ∈ bearers, ¬ ∃ at_, Obtains self requests b address at_ ∧
        start ≤ at_ ∧ at_ ≤ stop
    · obtain ⟨b, hb, hnot⟩ := hnew
      obtain ⟨hr, habsent, hopened, hfrom, hto⟩ := (hlast b hb).resolve_left hnot
      rw [afterRequests_concat] at hopened
      have hothers := ih (bearers.erase b) fun b' hb' => by
        refine (hlast b' (Finset.mem_of_mem_erase hb')).resolve_right ?_
        rintro ⟨hr', -⟩
        rw [hr] at hr'
        exact Finset.ne_of_mem_erase hb' (Option.some.inj (congrArg Prod.fst hr')).symm
      rw [hr, afterRequests_concat, acquireRequest_opens habsent hopened, List.countP_append,
        List.countP_singleton, if_pos (decide_eq_true ⟨hfrom, hto⟩)]
      have hcard := Finset.pred_card_le_card_erase (s := bearers) (a := b)
      dsimp only at hothers ⊢
      omega
    · have hbefore := ih bearers fun b hb => not_not.mp fun hnot => hnew ⟨b, hb, hnot⟩
      obtain ⟨events, hlog⟩ := log_grows self (self.afterRequests requests)
        (.acquireRequest r.1 r.2)
      have hlog' : (self.acquireRequest r.1 r.2 (self.afterRequests requests)).2.log =
          (self.afterRequests requests).log ++ events := hlog
      rw [afterRequests_concat, hlog', grantsOn_append, List.countP_append]
      omega

/-! ### What an established bearer is answered -/

/-- What a bearer with the bucket is answered at its requests, at these readings. -/
def solo (self : RateLimiter) : TokenBucket → List ℚ → List (Option ℚ)
  | _, [] => []
  | bucket, now :: rest =>
    let (wait, bucket) := self.draw (self.refill bucket now)
    wait :: self.solo bucket rest

/-- The answers depend on the limiter by `per_minute` alone. -/
theorem solo_eq {other : RateLimiter} (h : self.perMinute = other.perMinute) (bucket : TokenBucket)
    (times : List ℚ) : self.solo bucket times = other.solo bucket times := by
  have hstep : ∀ (bucket : TokenBucket) (now : ℚ),
      self.draw (self.refill bucket now) = other.draw (other.refill bucket now) := by
    intro bucket now
    have hcapacity : self.capacity = other.capacity := by rw [capacity, capacity, h]
    have hrate : self.rate = other.rate := by rw [rate, rate, h]
    rw [refill, refill, draw, draw, hcapacity, hrate]
  induction times generalizing bucket with
  | nil => rfl
  | cons now rest ih =>
    rw [solo, solo, hstep]
    exact congrArg (List.cons _) (ih _)

theorem bearer_ne_addr (b address : String) : "bearer:" ++ b ≠ "addr:" ++ address := by
  intro h
  have hlist := congrArg String.toList h
  rw [String.toList_append, String.toList_append] at hlist
  simp at hlist

/-- **Nobody else's request touches the bucket of a bearer**, but for removing it. -/
theorem get_acquireRequest (self : RateLimiter) (address : String) (s : LimiterState)
    {bearer : Option String} (hne : bearer ≠ some b) :
    (self.acquireRequest bearer address s).2.buckets.get ("bearer:" ++ b) =
        s.buckets.get ("bearer:" ++ b) ∨
      (self.acquireRequest bearer address s).2.buckets.get ("bearer:" ++ b) = none := by
  refine @get_step _ _ _ (.acquireRequest bearer address) ?_
  cases bearer with
  | none =>
    rw [LimiterCall.keys, List.mem_singleton]
    exact bearer_ne_addr b address
  | some b' =>
    rw [LimiterCall.keys, List.mem_pair, not_or]
    refine ⟨fun h => hne ?_, bearer_ne_new b address⟩
    rw [(String.append_right_inj _).mp h]

/-- **An established bearer spends from its own bucket.** -/
theorem acquireRequest_own (address : String) {bucket : TokenBucket} (hon : 0 < self.perMinute)
    (hget : s.buckets.get ("bearer:" ++ b) = some bucket) :
    (self.acquireRequest (some b) address s).1 =
        (self.draw (self.refill bucket (self.clock s.readings))).1 ∧
      (self.acquireRequest (some b) address s).2.buckets.get ("bearer:" ++ b) =
        some (self.draw (self.refill bucket (self.clock s.readings))).2 := by
  obtain ⟨hoff, -⟩ | ⟨-, hbearer, -⟩ | ⟨b', -, hb, hbearer⟩ :=
    acquireRequest_cases self (some b) address s
  · exact absurd hon (not_lt.mpr hoff)
  · exact absurd hbearer (Option.some_ne_none b)
  obtain rfl := Option.some.inj hb
  obtain ⟨bucket', hget', heq⟩ | ⟨hnone, -⟩ := hbearer
  · obtain rfl := Option.some.inj (hget.symm.trans hget')
    rw [heq, drawFrom_eq, Dict.get_set, if_pos rfl]
    exact ⟨rfl, rfl⟩
  · exact absurd (hget.symm.trans hnone) (Option.some_ne_none _)

/-- A full bucket that is refilled at once is as it was. -/
theorem refill_full (self : RateLimiter) (now : ℚ) :
    self.refill ⟨self.capacity, now⟩ now = ⟨self.capacity, now⟩ := by
  rw [refill, sub_self, zero_mul, add_zero, min_self]

theorem ownTurns_own {before rest : List (Option String × String)} :
    self.ownTurns b before ((some b, address) :: rest) =
      (self.clock (self.afterRequests before).readings,
        (self.acquireRequest (some b) address (self.afterRequests before)).1) ::
      self.ownTurns b (before ++ [(some b, address)]) rest := if_pos rfl

theorem ownTurns_other {before rest : List (Option String × String)} {bearer : Option String}
    (hne : bearer ≠ some b) : self.ownTurns b before ((bearer, address) :: rest) =
      self.ownTurns b (before ++ [(bearer, address)]) rest := if_neg hne

/-- **As long as a bearer has its bucket**, it is answered as if nobody else was there. -/
theorem ownTurns_eq_solo (hon : 0 < self.perMinute) (during : List (Option String × String)) :
    ∀ {before : List (Option String × String)} {bucket : TokenBucket},
      (self.afterRequests before).buckets.get ("bearer:" ++ b) = some bucket →
      (∀ past later, during = past ++ later →
        Established (self.afterRequests (before ++ past)) b) →
      (self.ownTurns b before during).map Prod.snd =
        self.solo bucket ((self.ownTurns b before during).map Prod.fst) := by
  induction during with
  | nil => exact fun _ _ => rfl
  | cons r rest ih =>
    intro before bucket hget hstays
    have hstays' : ∀ past later, rest = past ++ later →
        Established (self.afterRequests ((before ++ [r]) ++ past)) b := by
      intro past later hsplit
      rw [List.append_assoc]
      exact hstays (r :: past) later (congrArg (List.cons r) hsplit)
    obtain ⟨bearer, address⟩ := r
    by_cases hown : bearer = some b
    · subst hown
      obtain ⟨hwait, hbucket⟩ := acquireRequest_own address hon hget
      rw [ownTurns_own, List.map_cons, List.map_cons, solo]
      refine congrArg₂ List.cons hwait (ih ?_ hstays')
      rw [afterRequests_concat]
      exact hbucket
    · rw [ownTurns_other hown]
      refine ih ?_ hstays'
      -- it is still there after this request, so it was not touched
      have hthere := hstays [(bearer, address)] rest rfl
      rw [Established, afterRequests_concat] at hthere
      rw [afterRequests_concat]
      obtain hsame | hnone := get_acquireRequest self address (self.afterRequests before) hown
      · rw [hsame]
        exact hget
      · exact absurd hnone hthere

/-! ### What spraying bearers buys -/

/-- The answers to a bearer that gets a bucket and has it from then on. -/
theorem Stays.answers {before during : List (Option String × String)}
    (h : Stays self b address before during) :
    ∃ t times, (self.ownTurns b before ((some b, address) :: during)).map Prod.fst = t :: times ∧
      (self.ownTurns b before ((some b, address) :: during)).map Prod.snd =
        self.solo ⟨self.capacity, t⟩ (t :: times) := by
  have hopened : Established (self.afterRequests (before ++ [(some b, address)])) b :=
    h.present [(some b, address)] during rfl (List.cons_ne_nil _ _)
  have hopened' := hopened
  rw [afterRequests_concat] at hopened'
  obtain ⟨hon, s', -, heq⟩ := acquireRequest_opening h.absent hopened'
  have hbucket : (self.afterRequests (before ++ [(some b, address)])).buckets.get ("bearer:" ++ b) =
      some (self.draw ⟨self.capacity, self.clock (self.afterRequests before).readings⟩).2 := by
    rw [afterRequests_concat, heq, drawFrom_eq, Dict.get_set, if_pos rfl]
  have hwait : (self.acquireRequest (some b) address (self.afterRequests before)).1 =
      (self.draw ⟨self.capacity, self.clock (self.afterRequests before).readings⟩).1 := by
    rw [heq, drawFrom_eq]
  have hlater := ownTurns_eq_solo hon during hbucket
    fun past later hsplit => by
      rw [List.append_assoc]
      exact h.present ((some b, address) :: past) later (congrArg (List.cons _) hsplit)
        (List.cons_ne_nil _ _)
  rw [ownTurns_own, List.map_cons, List.map_cons]
  refine ⟨_, _, rfl, ?_⟩
  -- opening a bucket is refilling a full one
  rw [solo, refill_full]
  exact congrArg₂ List.cons hwait hlater

/-- **Spraying bearers buys nothing and hurts nobody established.** For every interleaving of
requests: the bearers that get a bucket from one address in any interval are at most `per_minute`
and what refills in its length, unless the new-bearer bucket of the address is dropped with half of
the table; a refused request adds no bucket; and as long as a bearer has its bucket, what it is
answered is the same in any two runs that read the same times at its own requests, whatever the
other traffic. -/
theorem spraying_buys_nothing (self : RateLimiter) (hlimit : 0 ≤ self.perMinute)
    (requests : List (Option String × String)) :
    (∀ address, .halved ("new:" ++ address) ∉ (self.afterRequests requests).log →
      ∀ start stop : ℚ, start ≤ stop → ∀ bearers : Finset String,
        (∀ b ∈ bearers, ∃ at_, Obtains self requests b address at_ ∧ start ≤ at_ ∧ at_ ≤ stop) →
        (bearers.card : ℚ) ≤ self.perMinute + (stop - start) * self.perMinute / 60) ∧
    (∀ bearer address wait,
      (self.acquireRequest bearer address (self.afterRequests requests)).1 = some wait →
      (self.acquireRequest bearer address (self.afterRequests requests)).2.buckets.keys =
        (self.afterRequests requests).buckets.keys) ∧
    ∀ b address during, Stays self b address requests during →
      ∀ (other : RateLimiter) (b' address' : String)
        (requests' during' : List (Option String × String)),
        other.perMinute = self.perMinute → Stays other b' address' requests' during' →
        (self.ownTurns b requests ((some b, address) :: during)).map Prod.fst =
          (other.ownTurns b' requests' ((some b', address') :: during')).map Prod.fst →
        (self.ownTurns b requests ((some b, address) :: during)).map Prod.snd =
          (other.ownTurns b' requests' ((some b', address') :: during')).map Prod.snd := by
  refine ⟨fun address hkept start stop hle bearers hbearers => ?_,
    fun bearer address wait hwait => keys_of_refused hwait, ?_⟩
  · obtain rfl | ⟨b, hb⟩ := bearers.eq_empty_or_nonempty
    · rw [Finset.card_empty, Nat.cast_zero]
      have hlimit' : (0 : ℚ) ≤ self.perMinute := Int.cast_nonneg hlimit
      exact add_nonneg hlimit'
        (div_nonneg (mul_nonneg (sub_nonneg.mpr hle) hlimit') (by norm_num))
    · -- every new bearer took a grant of the bucket of the address
      obtain ⟨-, ⟨before, later, -, habsent, hopened, -⟩, -⟩ := hbearers b hb
      rw [afterRequests_concat] at hopened
      obtain ⟨hon, -⟩ := acquireRequest_opening habsent hopened
      have hcount := card_le_grants self address requests start stop bearers hbearers
      rw [mul_div_assoc]
      calc (bearers.card : ℚ)
          ≤ ((grantsOn ("new:" ++ address) (self.afterRequests requests).log).countP
              fun g => decide (start ≤ g ∧ g ≤ stop) : ℕ) := Nat.cast_le.mpr hcount
        _ ≤ self.capacity + (stop - start) * self.rate :=
          (paid_after hon ("new:" ++ address) _ hkept).window start stop hle
  · intro b address during hstays other b' address' requests' during' hlimit' hstays' htimes
    -- in both limiters the bearer draws on a bucket of its own, filled at its first request
    obtain ⟨t, times, hown, hanswers⟩ := hstays.answers
    obtain ⟨t', times', hown', hanswers'⟩ := hstays'.answers
    rw [hown, hown'] at htimes
    obtain ⟨rfl, rfl⟩ := List.cons.inj htimes
    have hcapacity : other.capacity = self.capacity := by rw [capacity, capacity, hlimit']
    rw [hanswers, hanswers', hcapacity]
    exact solo_eq hlimit'.symm _ _

/-- The law at a new bearer, with another one after it in one of two runs. -/
theorem spraying_buys_nothing_minute :
    ((({"a"} : Finset String).card : ℚ) ≤
      minuteLimiter.perMinute + (0 - 0) * minuteLimiter.perMinute / 60) ∧
    (minuteLimiter.ownTurns "a" [] [(some "a", "10.0.0.1"), (some "b", "10.0.0.2")]).map Prod.snd =
      (minuteLimiter.ownTurns "a" [(none, "10.0.0.3")] [(some "a", "10.0.0.1")]).map Prod.snd := by
  have hstays : Stays minuteLimiter "a" "10.0.0.1" [] [(some "b", "10.0.0.2")] := by
    refine ⟨by decide +kernel, fun past later hsplit hne => ?_⟩
    match past, hne, hsplit with
    | [_], _, hsplit =>
      obtain ⟨rfl, -⟩ := List.cons.inj hsplit
      decide +kernel
    | [_, _], _, hsplit =>
      obtain ⟨rfl, hrest⟩ := List.cons.inj hsplit
      obtain ⟨rfl, -⟩ := List.cons.inj hrest
      decide +kernel
  have hstays' : Stays minuteLimiter "a" "10.0.0.1" [(none, "10.0.0.3")] [] := by
    refine ⟨by decide +kernel, fun past later hsplit hne => ?_⟩
    match past, hne, hsplit with
    | [_], _, hsplit =>
      obtain ⟨rfl, -⟩ := List.cons.inj hsplit
      decide +kernel
  have hlimit : 0 ≤ minuteLimiter.perMinute := by decide
  refine ⟨?_, ?_⟩
  · refine (spraying_buys_nothing minuteLimiter hlimit [(some "a", "10.0.0.1")]).1 "10.0.0.1"
      (by decide +kernel) 0 0 le_rfl {"a"} fun b hb => ?_
    obtain rfl := Finset.mem_singleton.mp hb
    exact ⟨0, ⟨[], [], rfl, by decide +kernel, by decide +kernel, rfl⟩, le_rfl, le_rfl⟩
  · exact (spraying_buys_nothing minuteLimiter hlimit []).2.2 "a" "10.0.0.1" _ hstays
      minuteLimiter "a" "10.0.0.1" _ _ rfl hstays' (by decide +kernel)

end RateLimiter

end HeadOfContext
