import Mathlib.Tactic

/-!
# The rate limiter

`RateLimiter` of `state.rs`: a window that starts again when a check finds it a
minute old.  Instants count nanoseconds, and a limit of zero admits everything.
-/

namespace FlorenceServer

/-- The nanoseconds of `Duration::from_secs(1)`. -/
def nanosPerSecond : Nat := 1000000000

/-- The nanoseconds of `Duration::from_secs(60)`. -/
def rateLimitMinute : Nat := 60 * nanosPerSecond

/-- `RateLimitWindow`. -/
structure RateLimitWindow where
  startedAt : Nat
  count : Nat
deriving DecidableEq, Repr

inductive RateLimitDecision where
  | allowed
  | limited (retryAfter : Nat)
deriving DecidableEq, Repr

namespace RateLimiter

/-- The window of `RateLimiter::new`. -/
def new (now : Nat) : RateLimitWindow where
  startedAt := now
  count := 0

/-- The window that a check at `now` counts in. -/
def currentWindow (now : Nat) (window : RateLimitWindow) : RateLimitWindow :=
  if rateLimitMinute ≤ now - window.startedAt then new now else window

/--
`RateLimiter::check`; the clock is read while the window is locked.  The whole
seconds that are left of the window are reported, and at least one.
-/
def check (limitPerMinute now : Nat) (window : RateLimitWindow) :
    RateLimitDecision × RateLimitWindow :=
  if limitPerMinute = 0 then
    (.allowed, window)
  else
    let window := currentWindow now window
    if limitPerMinute ≤ window.count then
      let left := rateLimitMinute - (now - window.startedAt)
      (.limited (max (left / nanosPerSecond) 1), window)
    else
      (.allowed, { window with count := window.count + 1 })

end RateLimiter
end FlorenceServer
