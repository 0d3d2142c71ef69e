import FlorenceServer.State.RateLimiter

/-!
# Checks of the rate limiter over time

The window of the limiter starts again lazily, at whatever check comes first
after a minute.  Over a sequence of checks this keeps three counts: the window
knows how many checks it has admitted since it started, it admits at most the
limit, and at most the limit was admitted in the minute before it started.  An
interval of one minute meets no more than two windows.

The seconds that a refusal reports are rounded down.  What a client meets that
comes back after exactly that long depends on the offset of the refusal in its
window.
-/

namespace FlorenceServer
namespace RateLimiter

/-! ## One check -/

theorem rateLimitMinute_pos : 0 < rateLimitMinute := by
  decide

/-- A check that resets the window admits. -/
theorem check_of_elapsed
    {limit now : Nat}
    {window : RateLimitWindow}
    (hlimit : 0 < limit)
    (helapsed : rateLimitMinute ≤ now - window.startedAt) :
    check limit now window = (.allowed, { startedAt := now, count := 1 }) := by
  have hne : limit ≠ 0 := by omega
  have hfresh : ¬ limit ≤ (new now).count := by
    simp only [new]
    omega
  simp only [check, currentWindow, if_pos helapsed, if_neg hne, if_neg hfresh]
  rfl

/-- A check within the minute admits while the limit is not used up. -/
theorem check_of_below
    {limit now : Nat}
    {window : RateLimitWindow}
    (helapsed : now - window.startedAt < rateLimitMinute)
    (hbelow : window.count < limit) :
    check limit now window =
      (.allowed, { window with count := window.count + 1 }) := by
  have hne : limit ≠ 0 := by omega
  simp only [check, currentWindow, if_neg (Nat.not_le.mpr helapsed), if_neg hne,
    if_neg (Nat.not_le.mpr hbelow)]

/-- A check within the minute refuses once the limit is used up. -/
theorem check_of_full
    {limit now : Nat}
    {window : RateLimitWindow}
    (hlimit : 0 < limit)
    (helapsed : now - window.startedAt < rateLimitMinute)
    (hfull : limit ≤ window.count) :
    check limit now window =
      (.limited
        (max ((rateLimitMinute - (now - window.startedAt)) / nanosPerSecond) 1),
        window) := by
  have hne : limit ≠ 0 := by omega
  simp only [check, currentWindow, if_neg (Nat.not_le.mpr helapsed), if_neg hne,
    if_pos hfull]

/-- What a refusal says about the window that it was made in. -/
theorem check_limited
    {limit now retryAfter : Nat}
    {window : RateLimitWindow}
    (hlimit : 0 < limit)
    (hlimited : (check limit now window).1 = .limited retryAfter) :
    now - window.startedAt < rateLimitMinute ∧ limit ≤ window.count ∧
      retryAfter =
        max ((rateLimitMinute - (now - window.startedAt)) / nanosPerSecond) 1 ∧
      (check limit now window).2 = window := by
  by_cases helapsed : rateLimitMinute ≤ now - window.startedAt
  · rw [check_of_elapsed hlimit helapsed] at hlimited
    cases hlimited
  · have hwithin := Nat.not_le.mp helapsed
    by_cases hfull : limit ≤ window.count
    · rw [check_of_full hlimit hwithin hfull] at hlimited ⊢
      cases hlimited
      exact ⟨hwithin, hfull, rfl, rfl⟩
    · rw [check_of_below hwithin (Nat.not_le.mp hfull)] at hlimited
      cases hlimited

/-! ## Sequences of checks -/

/-- The window after checks at `instants`, in this order. -/
def windowAfter (limit : Nat) (window : RateLimitWindow) (instants : List Nat) :
    RateLimitWindow :=
  instants.foldl (fun window now => (check limit now window).2) window

/-- The decision of a check at `now` that follows checks at `before`. -/
def decisionAt (limit created : Nat) (before : List Nat) (now : Nat) :
    RateLimitDecision :=
  (check limit now (windowAfter limit (new created) before)).1

def isAllowed : RateLimitDecision → Bool
  | .allowed => true
  | .limited _ => false

/-- The instants at which checks at `instants` admitted. -/
def allowedInstants (limit : Nat) (window : RateLimitWindow) : List Nat → List Nat
  | [] => []
  | now :: rest =>
      let later := allowedInstants limit (check limit now window).2 rest
      if isAllowed (check limit now window).1 then now :: later else later

/-- The starts of the windows that checks at `instants` went through. -/
def windowStarts (limit : Nat) (window : RateLimitWindow) : List Nat → List Nat
  | [] => [window.startedAt]
  | now :: rest =>
      window.startedAt :: windowStarts limit (check limit now window).2 rest

theorem windowAfter_snoc
    (limit : Nat)
    (window : RateLimitWindow)
    (before : List Nat)
    (now : Nat) :
    windowAfter limit window (before ++ [now]) =
      (check limit now (windowAfter limit window before)).2 := by
  simp only [windowAfter, List.foldl_append, List.foldl_cons, List.foldl_nil]

theorem allowedInstants_snoc
    (limit : Nat)
    (window : RateLimitWindow)
    (before : List Nat)
    (now : Nat) :
    allowedInstants limit window (before ++ [now]) =
      allowedInstants limit window before ++
        if isAllowed (check limit now (windowAfter limit window before)).1
        then [now] else [] := by
  induction before generalizing window with
  | nil =>
      rfl
  | cons first before ih =>
      have hrest := ih (check limit first window).2
      simp only [List.cons_append, allowedInstants]
      by_cases hallowed : isAllowed (check limit first window).1
      · rw [if_pos hallowed, if_pos hallowed, hrest]
        rfl
      · rw [if_neg hallowed, if_neg hallowed, hrest]
        rfl

theorem startedAt_windowAfter_mem
    (limit : Nat)
    (window : RateLimitWindow)
    (instants : List Nat) :
    (windowAfter limit window instants).startedAt ∈
      windowStarts limit window instants := by
  induction instants generalizing window with
  | nil =>
      exact List.mem_singleton.mpr rfl
  | cons now rest ih =>
      exact List.mem_cons_of_mem _ (ih _)

/-! ## What the window counts -/

/-- `instant` lies in the minute that begins at `start`. -/
def inMinuteFrom (start instant : Nat) : Bool :=
  decide (start ≤ instant) && decide (instant < start + rateLimitMinute)

/-- `instant` lies in the minute before `start`. -/
def inMinuteBefore (start instant : Nat) : Bool :=
  decide (instant < start) && decide (start < instant + rateLimitMinute)

/-- The counts that a sequence of checks keeps; `allowed` lists its admissions. -/
structure Counts
    (limit : Nat)
    (window : RateLimitWindow)
    (allowed : List Nat) : Prop where
  counted : window.count = allowed.countP (fun instant => window.startedAt ≤ instant)
  within : window.count ≤ limit
  reach : ∀ instant ∈ allowed, instant < window.startedAt + rateLimitMinute
  previous : allowed.countP (inMinuteBefore window.startedAt) ≤ limit
  interval : ∀ start, allowed.countP (inMinuteFrom start) ≤ 2 * limit

theorem counts_new
    (limit created : Nat) :
    Counts limit (new created) [] := by
  refine ⟨rfl, Nat.zero_le _, ?_, Nat.zero_le _, fun _ => Nat.zero_le _⟩
  intro instant hmem
  cases hmem

/-- Time that passes before `now` leaves the window's start behind. -/
theorem startedAt_windowAfter_le
    {limit : Nat}
    {window : RateLimitWindow}
    (instants : List Nat)
    {now : Nat}
    (hstart : window.startedAt ≤ now)
    (hinstants : ∀ instant ∈ instants, instant ≤ now) :
    (windowAfter limit window instants).startedAt ≤ now := by
  induction instants using List.reverseRecOn with
  | nil =>
      exact hstart
  | append_singleton before last ih =>
      have hlast : last ≤ now := hinstants last (by simp)
      have hbefore := ih fun instant hmem =>
        hinstants instant (List.mem_append_left _ hmem)
      rw [windowAfter_snoc]
      simp only [check, currentWindow]
      split
      · exact hbefore
      · split <;> split <;> first | exact hlast | exact hbefore

/-- One admission more in a list counts once where it passes the test. -/
theorem countP_snoc
    (test : Nat → Bool)
    (allowed : List Nat)
    (now : Nat) :
    (allowed ++ [now]).countP test =
      allowed.countP test + if test now then 1 else 0 := by
  rw [List.countP_append, List.countP_singleton]

/--
An interval of a minute that reaches `now` holds what the current window has
admitted and what was admitted in the minute before it started.
-/
theorem countP_inMinuteFrom_le
    {start startedAt now : Nat}
    (allowed : List Nat)
    (hreach : now < start + rateLimitMinute)
    (hstarted : startedAt ≤ now) :
    allowed.countP (inMinuteFrom start) ≤
      allowed.countP (inMinuteBefore startedAt) +
        allowed.countP (fun instant => startedAt ≤ instant) := by
  induction allowed with
  | nil =>
      exact Nat.zero_le _
  | cons instant rest ih =>
      simp only [List.countP_cons]
      have hone :
          (if inMinuteFrom start instant then 1 else 0) ≤
            (if inMinuteBefore startedAt instant then 1 else 0) +
              (if decide (startedAt ≤ instant) then 1 else 0) := by
        by_cases hafter : startedAt ≤ instant
        · simp only [decide_eq_true hafter, if_true]
          split <;> omega
        · by_cases hmeets : inMinuteFrom start instant
          · have hlow : start ≤ instant := by
              simp only [inMinuteFrom, Bool.and_eq_true, decide_eq_true_eq] at hmeets
              exact hmeets.1
            have hbefore : inMinuteBefore startedAt instant = true := by
              simp only [inMinuteBefore, Bool.and_eq_true, decide_eq_true_eq]
              omega
            rw [if_pos hmeets, if_pos hbefore]
            omega
          · rw [if_neg hmeets]
            exact Nat.zero_le _
      omega

/-- The bound over an interval follows from the other counts. -/
theorem interval_snoc
    {limit startedAt now : Nat}
    {allowed : List Nat}
    (hstarted : startedAt ≤ now)
    (hcurrent :
      (allowed ++ [now]).countP (fun instant => startedAt ≤ instant) ≤ limit)
    (hprevious : (allowed ++ [now]).countP (inMinuteBefore startedAt) ≤ limit)
    (hbefore : ∀ start, allowed.countP (inMinuteFrom start) ≤ 2 * limit)
    (start : Nat) :
    (allowed ++ [now]).countP (inMinuteFrom start) ≤ 2 * limit := by
  by_cases hreach : now < start + rateLimitMinute
  · have hsplit := countP_inMinuteFrom_le (allowed ++ [now]) hreach hstarted
    omega
  · have hmiss : inMinuteFrom start now = false := by
      simp only [inMinuteFrom, Bool.and_eq_false_iff, decide_eq_false_iff_not]
      exact Or.inr hreach
    rw [countP_snoc, hmiss]
    exact hbefore start

theorem counts_reset
    {limit now : Nat}
    {window : RateLimitWindow}
    {allowed : List Nat}
    (hlimit : 0 < limit)
    (helapsed : rateLimitMinute ≤ now - window.startedAt)
    (hcounts : Counts limit window allowed) :
    Counts limit { startedAt := now, count := 1 } (allowed ++ [now]) := by
  have hpos := rateLimitMinute_pos
  have hearlier : ∀ instant ∈ allowed, instant < now := by
    intro instant hmem
    have hreach := hcounts.reach instant hmem
    omega
  have hnone : allowed.countP (fun instant => now ≤ instant) = 0 := by
    refine List.countP_eq_zero.mpr fun instant hmem => ?_
    have hlt := hearlier instant hmem
    simp only [decide_eq_true_eq]
    omega
  have hcounted :
      1 = (allowed ++ [now]).countP (fun instant => now ≤ instant) := by
    rw [countP_snoc, hnone, decide_eq_true (Nat.le_refl now)]
    rfl
  have hprevious : (allowed ++ [now]).countP (inMinuteBefore now) ≤ limit := by
    have hmiss : inMinuteBefore now now = false := by
      simp only [inMinuteBefore, Bool.and_eq_false_iff, decide_eq_false_iff_not]
      exact Or.inl (Nat.lt_irrefl now)
    -- the minute before `now` lies in the window that ends here
    have hold :
        allowed.countP (inMinuteBefore now) ≤
          allowed.countP (fun instant => window.startedAt ≤ instant) := by
      refine List.countP_mono_left fun instant _ hbefore => ?_
      simp only [inMinuteBefore, Bool.and_eq_true, decide_eq_true_eq] at hbefore
      simp only [decide_eq_true_eq]
      omega
    have hwithin := hcounts.within
    rw [hcounts.counted] at hwithin
    rw [countP_snoc, hmiss]
    exact hold.trans hwithin
  refine ⟨hcounted, hlimit, ?_, hprevious, ?_⟩
  · intro instant hmem
    change instant < now + rateLimitMinute
    rcases List.mem_append.mp hmem with hmem | hmem
    · have hlt := hearlier instant hmem
      omega
    · cases List.mem_singleton.mp hmem
      omega
  · exact interval_snoc (Nat.le_refl now) (hcounted ▸ hlimit) hprevious
      hcounts.interval

theorem counts_admit
    {limit now : Nat}
    {window : RateLimitWindow}
    {allowed : List Nat}
    (hstarted : window.startedAt ≤ now)
    (helapsed : now - window.startedAt < rateLimitMinute)
    (hbelow : window.count < limit)
    (hcounts : Counts limit window allowed) :
    Counts limit { window with count := window.count + 1 } (allowed ++ [now]) := by
  have hcounted :
      window.count + 1 =
        (allowed ++ [now]).countP (fun instant => window.startedAt ≤ instant) := by
    rw [countP_snoc, decide_eq_true hstarted, hcounts.counted]
    rfl
  have hprevious :
      (allowed ++ [now]).countP (inMinuteBefore window.startedAt) ≤ limit := by
    have hmiss : inMinuteBefore window.startedAt now = false := by
      simp only [inMinuteBefore, Bool.and_eq_false_iff, decide_eq_false_iff_not]
      exact Or.inl (Nat.not_lt.mpr hstarted)
    rw [countP_snoc, hmiss]
    exact hcounts.previous
  refine ⟨hcounted, hbelow, ?_, hprevious, ?_⟩
  · intro instant hmem
    rcases List.mem_append.mp hmem with hmem | hmem
    · exact hcounts.reach instant hmem
    · cases List.mem_singleton.mp hmem
      change now < window.startedAt + rateLimitMinute
      omega
  · exact interval_snoc hstarted (hcounted ▸ hbelow) hprevious hcounts.interval

/-- A check keeps the counts. -/
theorem counts_check
    {limit now : Nat}
    {window : RateLimitWindow}
    {allowed : List Nat}
    (hlimit : 0 < limit)
    (hstarted : window.startedAt ≤ now)
    (hcounts : Counts limit window allowed) :
    Counts limit (check limit now window).2
      (allowed ++ if isAllowed (check limit now window).1 then [now] else []) := by
  by_cases helapsed : rateLimitMinute ≤ now - window.startedAt
  · rw [check_of_elapsed hlimit helapsed]
    exact counts_reset hlimit helapsed hcounts
  · have hwithin := Nat.not_le.mp helapsed
    by_cases hfull : limit ≤ window.count
    · rw [check_of_full hlimit hwithin hfull]
      change Counts limit window (allowed ++ [])
      rw [List.append_nil]
      exact hcounts
    · have hbelow := Nat.not_le.mp hfull
      rw [check_of_below hwithin hbelow]
      exact counts_admit hstarted hwithin hbelow hcounts

/-- The instants `instants` come in order and none before `created`. -/
def Ordered (created : Nat) (instants : List Nat) : Prop :=
  (created :: instants).Pairwise (· ≤ ·)

theorem Ordered.snoc
    {created now : Nat}
    {before : List Nat}
    (hordered : Ordered created (before ++ [now])) :
    Ordered created before ∧ created ≤ now ∧ ∀ instant ∈ before, instant ≤ now := by
  have hsplit := List.pairwise_append.mp
    (show ((created :: before) ++ [now]).Pairwise (· ≤ ·) from hordered)
  have hlast := fun instant hmem =>
    hsplit.2.2 instant hmem now (List.mem_singleton.mpr rfl)
  exact ⟨hsplit.1, hlast created List.mem_cons_self,
    fun instant hmem => hlast instant (List.mem_cons_of_mem _ hmem)⟩

/-- The counts hold after every sequence of checks. -/
theorem counts_windowAfter
    {limit created : Nat}
    {instants : List Nat}
    (hlimit : 0 < limit)
    (hordered : Ordered created instants) :
    Counts limit (windowAfter limit (new created) instants)
      (allowedInstants limit (new created) instants) := by
  induction instants using List.reverseRecOn with
  | nil =>
      exact counts_new limit created
  | append_singleton before now ih =>
      obtain ⟨hbefore, hcreated, hearlier⟩ := hordered.snoc
      have hstarted :
          (windowAfter limit (new created) before).startedAt ≤ now :=
        startedAt_windowAfter_le before hcreated hearlier
      rw [windowAfter_snoc, allowedInstants_snoc]
      exact counts_check hlimit hstarted (ih hbefore)

/-! ## What clients meet -/

/--
A minute admits at most twice the limit.  A refusal comes when the limit has
been admitted since a window start less than a minute ago, and asks to wait for
one to sixty seconds.
-/
theorem rateLimiter_window_bound
    (limit created : Nat)
    (instants : List Nat)
    (hlimit : 0 < limit)
    (hordered : Ordered created instants) :
    (∀ start,
      (allowedInstants limit (new created) instants).countP (inMinuteFrom start) ≤
        2 * limit) ∧
    (∀ before now rest retryAfter,
      instants = before ++ now :: rest →
      decisionAt limit created before now = .limited retryAfter →
      (∃ start ∈ windowStarts limit (new created) before,
        start ≤ now ∧ now - start < rateLimitMinute ∧
          (allowedInstants limit (new created) before).countP
            (fun instant => start ≤ instant) = limit) ∧
        1 ≤ retryAfter ∧ retryAfter ≤ 60) := by
  refine ⟨(counts_windowAfter hlimit hordered).interval, ?_⟩
  intro before now rest retryAfter hinstants hlimited
  have hprefix : Ordered created (before ++ [now]) := by
    have hwhole : instants = (before ++ [now]) ++ rest := by
      rw [hinstants, List.append_assoc, List.singleton_append]
    rw [hwhole] at hordered
    exact (List.pairwise_append.mp
      (show ((created :: (before ++ [now])) ++ rest).Pairwise (· ≤ ·)
        from hordered)).1
  obtain ⟨hbefore, hcreated, hearlier⟩ := hprefix.snoc
  have hcounts := counts_windowAfter hlimit hbefore
  obtain ⟨helapsed, hfull, hretry, -⟩ := check_limited hlimit hlimited
  refine ⟨⟨_, startedAt_windowAfter_mem limit (new created) before,
    startedAt_windowAfter_le before hcreated hearlier, helapsed, ?_⟩, ?_, ?_⟩
  · rw [← hcounts.counted]
    exact Nat.le_antisymm hcounts.within hfull
  · rw [hretry]
    exact Nat.le_max_right _ _
  · have hseconds : rateLimitMinute / nanosPerSecond = 60 := by decide
    have hquotient := Nat.div_le_div_right (c := nanosPerSecond)
      (Nat.sub_le rateLimitMinute
        (now - (windowAfter limit (new created) before).startedAt))
    omega

/-- Two a minute, with a reset in between and a refusal. -/
theorem rateLimiter_window_bound_two_a_minute :
    (∀ start,
      (allowedInstants 2 (new 5) [5, 6, 7, rateLimitMinute + 5]).countP
        (inMinuteFrom start) ≤ 2 * 2) ∧
    (∀ before now rest retryAfter,
      [5, 6, 7, rateLimitMinute + 5] = before ++ now :: rest →
      decisionAt 2 5 before now = .limited retryAfter →
      (∃ start ∈ windowStarts 2 (new 5) before,
        start ≤ now ∧ now - start < rateLimitMinute ∧
          (allowedInstants 2 (new 5) before).countP
            (fun instant => start ≤ instant) = 2) ∧
        1 ≤ retryAfter ∧ retryAfter ≤ 60) ∧
    decisionAt 2 5 [5, 6] 7 = .limited 59 :=
  have hordered : Ordered 5 [5, 6, 7, rateLimitMinute + 5] := by
    simp [Ordered, rateLimitMinute, nanosPerSecond]
  have hbound := rateLimiter_window_bound 2 5 _ (by decide) hordered
  ⟨hbound.1, hbound.2, by decide⟩

/-- The rounding of the remaining time loses nothing. -/
def WaitIsWhole (elapsed : Nat) : Prop :=
  elapsed % nanosPerSecond = 0 ∨ 59 * nanosPerSecond < elapsed

/-- Rounded down to seconds, and to one at least, the wait reaches what is left. -/
theorem left_le_wait_iff
    {elapsed : Nat}
    (helapsed : elapsed < rateLimitMinute) :
    rateLimitMinute ≤
        elapsed + max ((rateLimitMinute - elapsed) / nanosPerSecond) 1 * nanosPerSecond ↔
      WaitIsWhole elapsed := by
  simp only [WaitIsWhole, rateLimitMinute, nanosPerSecond] at helapsed ⊢
  omega

/-- On a used up window the next check admits exactly when it finds it elapsed. -/
theorem check_full_allowed_iff
    {limit later : Nat}
    {window : RateLimitWindow}
    (hlimit : 0 < limit)
    (hfull : limit ≤ window.count) :
    (check limit later window).1 = .allowed ↔
      rateLimitMinute ≤ later - window.startedAt := by
  by_cases helapsed : rateLimitMinute ≤ later - window.startedAt
  · rw [check_of_elapsed hlimit helapsed]
    exact ⟨fun _ => helapsed, fun _ => rfl⟩
  · rw [check_of_full hlimit (Nat.not_le.mp helapsed) hfull]
    exact ⟨fun hallowed => (by cases hallowed), fun hreach => absurd hreach helapsed⟩

/--
A client that was refused and comes back no earlier than it was told to is
admitted, whenever that is, exactly when the refusal fell on a whole second of
its window or into its last second.
-/
theorem retryAfter_honest_iff
    (limit created : Nat)
    (before : List Nat)
    (now retryAfter : Nat)
    (hlimit : 0 < limit)
    (hordered : Ordered created (before ++ [now]))
    (hlimited : decisionAt limit created before now = .limited retryAfter) :
    (∀ later, now + retryAfter * nanosPerSecond ≤ later →
      decisionAt limit created (before ++ [now]) later = .allowed) ↔
    WaitIsWhole (now - (windowAfter limit (new created) before).startedAt) := by
  obtain ⟨-, hcreated, hearlier⟩ := hordered.snoc
  have hstarted : (windowAfter limit (new created) before).startedAt ≤ now :=
    startedAt_windowAfter_le before hcreated hearlier
  obtain ⟨helapsed, hfull, hretry, hsame⟩ := check_limited hlimit hlimited
  have hlater : ∀ later,
      decisionAt limit created (before ++ [now]) later = .allowed ↔
        rateLimitMinute ≤
          later - (windowAfter limit (new created) before).startedAt := by
    intro later
    rw [decisionAt, windowAfter_snoc, hsame]
    exact check_full_allowed_iff hlimit hfull
  rw [← left_le_wait_iff helapsed, ← hretry]
  constructor
  · intro hhonest
    have hfirst := (hlater _).mp (hhonest _ (Nat.le_refl _))
    omega
  · intro hreach later hwaited
    refine (hlater later).mpr ?_
    omega

/-- The moment 29.5 s after the creation of the limiter. -/
def halfPast : Nat := 29 * nanosPerSecond + nanosPerSecond / 2

/-- Refused half past a second, and told to wait for half a second too little. -/
theorem retryAfter_honest_iff_half_past :
    (∀ later, halfPast + 30 * nanosPerSecond ≤ later →
      decisionAt 1 0 ([0] ++ [halfPast]) later = .allowed) ↔
    WaitIsWhole (halfPast - (windowAfter 1 (new 0) [0]).startedAt) :=
  retryAfter_honest_iff 1 0 [0] halfPast 30 (by decide)
    (by simp [Ordered]) (by decide)

/-- Come back after the thirty seconds it was told, the client is refused again. -/
theorem retryAfter_half_past_refused :
    Ordered 0 ([0] ++ [halfPast]) ∧
    decisionAt 1 0 [0] halfPast = .limited 30 ∧
    ¬ ∀ later, halfPast + 30 * nanosPerSecond ≤ later →
      decisionAt 1 0 ([0] ++ [halfPast]) later = .allowed := by
  refine ⟨by simp [Ordered], by decide, fun hhonest => ?_⟩
  have hrefused :
      decisionAt 1 0 ([0] ++ [halfPast]) (halfPast + 30 * nanosPerSecond) ≠
        .allowed := by
    decide
  exact hrefused (hhonest _ (Nat.le_refl _))

end RateLimiter
end FlorenceServer
