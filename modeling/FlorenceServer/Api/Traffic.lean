import FlorenceServer.Api.Security
import FlorenceServer.Lib.Runs
import FlorenceServer.State
import FlorenceServer.State.RateWindow

/-!
# Requests side by side

The layers of the `router` with any number of requests in them.  A request goes through
`track_request_metrics`, the CORS and timeout layers, `require_api_key`, `rate_limit` and its
handler, and back; other requests move in between.  They share the window of the rate
limiter, which is locked for one check, and the counters of `record_http_request`, each of
which is raised by itself.

* `handlers_are_guarded`: in any order of steps, which requests a handler sees and how many
  of them in a minute, and what the answers of the layers say about a request.
-/

namespace FlorenceServer

open Runs

section Counters

/-- The counters of `AppMetrics` that `record_http_request` raises. -/
structure HttpMetrics where
  httpRequestsTotal : Nat
  httpRequestsFailed : Nat
  totalRequestMs : Nat
deriving DecidableEq, Repr

/-- One `fetch_add` on the metrics at the end of a request. -/
inductive HttpUpdate where
  | httpRequestsTotal
  | httpRequestsFailed
  | totalRequestMs (elapsedMs : Nat)
deriving DecidableEq, Repr

namespace HttpMetrics

def default : HttpMetrics where
  httpRequestsTotal := 0
  httpRequestsFailed := 0
  totalRequestMs := 0

def apply (metrics : HttpMetrics) : HttpUpdate → HttpMetrics
  | .httpRequestsTotal =>
      { metrics with httpRequestsTotal := fetchAdd metrics.httpRequestsTotal 1 }
  | .httpRequestsFailed =>
      { metrics with httpRequestsFailed := fetchAdd metrics.httpRequestsFailed 1 }
  | .totalRequestMs elapsedMs =>
      { metrics with totalRequestMs := fetchAdd metrics.totalRequestMs (elapsedUsize elapsedMs) }

end HttpMetrics

/-- `record_http_request`. -/
def recordHttpRequest (elapsedMs : Nat) (failed : Bool) : List HttpUpdate :=
  .httpRequestsTotal ::
    ((if failed then [.httpRequestsFailed] else []) ++ [.totalRequestMs elapsedMs])

end Counters

section Calls

/-- What a request is answered, and by whom. -/
inductive HttpAnswer where
  | handler (status : Nat)
  | unauthorized
  | rateLimited (retryAfter : Nat)
  | requestTimeout
  | preflight
deriving DecidableEq, Repr

namespace HttpAnswer

def status : HttpAnswer → Nat
  | .handler status => status
  | .unauthorized => 401
  | .rateLimited _ => 429
  | .requestTimeout => 408
  | .preflight => 200

def response : HttpAnswer → HttpResponse
  | .handler _ => .forwarded
  | .unauthorized => jsonErrorResponse 401 "unauthorized" "valid API key is required"
  | .rateLimited retryAfter =>
      .error 429 "rate_limited" "request rate limit exceeded" (some retryAfter)
  | .requestTimeout => .requestTimeout
  | .preflight => .preflight

/-- `is_client_error` or `is_server_error`. -/
def failed (answer : HttpAnswer) : Bool :=
  decide (400 ≤ answer.status) && decide (answer.status < 600)

end HttpAnswer

/-- Where a request stands. -/
inductive HttpStage where
  /-- in `require_api_key` -/
  | atGate
  /-- in `rate_limit` -/
  | atLimiter
  /-- in the routed handler -/
  | handling
  /-- back in `track_request_metrics` -/
  | answered (answer : HttpAnswer)
  /-- in `record_http_request`, with the updates that are made and left -/
  | recording (answer : HttpAnswer) (elapsedMs : Nat) (made left : List HttpUpdate)
  | finished (answer : HttpAnswer) (elapsedMs : Nat)
  /-- the future was dropped before there was an answer -/
  | dropped
deriving DecidableEq, Repr

/-- What comes behind an update. -/
def recordingStage (answer : HttpAnswer) (elapsedMs : Nat) (made left : List HttpUpdate) :
    HttpStage :=
  if left.isEmpty then .finished answer elapsedMs else .recording answer elapsedMs made left

/-- Behind the timeout layer and not answered. -/
def HttpStage.isPending : HttpStage → Bool
  | .atGate | .atLimiter | .handling => true
  | .answered _ | .recording _ _ _ _ | .finished _ _ | .dropped => false

def HttpStage.answer : HttpStage → Option HttpAnswer
  | .answered answer | .recording answer _ _ _ | .finished answer _ => some answer
  | .atGate | .atLimiter | .handling | .dropped => none

structure HttpCall where
  request : HttpRequest
  /-- `Instant::now` in `track_request_metrics` -/
  started : Nat
  stage : HttpStage
deriving DecidableEq, Repr

/-- `require_api_key` hands the request on. -/
def gateOpens (cfg : RouterConfig) (request : HttpRequest) : Bool :=
  cfg.apiKeys.isEmpty || isProbePath request.path || presentsAcceptedKey cfg.apiKeys request

/-- The first stage behind the CORS layer, which answers `OPTIONS` requests itself. -/
def enterStage (cfg : RouterConfig) (request : HttpRequest) : HttpStage :=
  if !cfg.corsAllowedOrigins.isEmpty && request.method == "OPTIONS" then .answered .preflight
  else .atGate

/-- The stage behind `rate_limit`. -/
def limitStage (cfg : RouterConfig) (now : Nat) (request : HttpRequest)
    (window : RateLimitWindow) : HttpStage × RateLimitWindow :=
  if isProbePath request.path then (.handling, window)
  else
    match RateLimiter.check cfg.rateLimitRequestsPerMinute now window with
    | (.allowed, window) => (.handling, window)
    | (.limited retryAfter, window) => (.answered (.rateLimited retryAfter), window)

variable {cfg : RouterConfig} {next : Next} {request : HttpRequest} {window : RateLimitWindow}

theorem timeoutLayer_of_fast
    (hfast : request.outlastsTimeout = false) :
    timeoutLayer next request window = next request window := by
  unfold timeoutLayer
  split
  · rename_i hnext
    rw [hnext, hfast]
    rfl
  · rfl

theorem requireApiKey_rateLimit :
    requireApiKey cfg.apiKeys (rateLimit cfg.rateLimitRequestsPerMinute routed) request window =
      if gateOpens cfg request then
        let limited := limitStage cfg request.checkedAt request window
        ((limited.1.answer.map HttpAnswer.response).getD .forwarded, limited.2)
      else (HttpAnswer.unauthorized.response, window) := by
  have hlimit : rateLimit cfg.rateLimitRequestsPerMinute routed request window =
      let limited := limitStage cfg request.checkedAt request window
      ((limited.1.answer.map HttpAnswer.response).getD .forwarded, limited.2) := by
    unfold rateLimit limitStage
    generalize RateLimiter.check cfg.rateLimitRequestsPerMinute request.checkedAt window = checked
    obtain ⟨decision, after⟩ := checked
    cases isProbePath request.path with
    | true => rfl
    | false => cases decision <;> rfl
  rw [← hlimit]
  unfold requireApiKey gateOpens
  cases cfg.apiKeys.isEmpty || isProbePath request.path <;> rfl

/--
A request that has the layers to itself and is answered in time gets the answer of the
stages.
-/
theorem router_eq_stages
    (hfast : request.outlastsTimeout = false) :
    router cfg request window =
      if enterStage cfg request = .answered .preflight then (.preflight, window)
      else if gateOpens cfg request then
        let limited := limitStage cfg request.checkedAt request window
        ((limited.1.answer.map HttpAnswer.response).getD .forwarded, limited.2)
      else (HttpAnswer.unauthorized.response, window) := by
  rw [← requireApiKey_rateLimit]
  unfold router withLayers enterStage
  by_cases htimeout : 0 < cfg.requestTimeoutSeconds <;>
    cases hcors : cfg.corsAllowedOrigins.isEmpty <;>
    cases hmethod : request.method == "OPTIONS" <;>
    simp [htimeout, hmethod, corsLayer, timeoutLayer_of_fast hfast]

end Calls

section Steps

/-- A step of one request. -/
inductive StageAction where
  | checkKey
  | checkLimit
  | answer (status : Nat)
  /-- the request timeout is over -/
  | expire
  /-- the client goes away, or the handler panics -/
  | disconnect
  | measure
  | count
deriving DecidableEq, Repr

inductive HttpAction where
  | wait (nanos : Nat)
  | arrive (request : HttpRequest)
  | call (n : Nat) (a : StageAction)
deriving DecidableEq, Repr

/-- The requests of a server process, numbered in the order of their arrival. -/
structure HttpTraffic where
  clock : Nat
  window : RateLimitWindow
  metrics : HttpMetrics
  arrived : Nat
  calls : Nat → Option HttpCall

namespace HttpTraffic

def start (created : Nat) : HttpTraffic where
  clock := created
  window := RateLimiter.new created
  metrics := .default
  arrived := 0
  calls := fun _ => none

def setStage (s : HttpTraffic) (n : Nat) (call : HttpCall) (stage : HttpStage) : HttpTraffic :=
  { s with calls := Function.update s.calls n (some { call with stage := stage }) }

/-- A request comes in. -/
def arrive (cfg : RouterConfig) (s : HttpTraffic) (request : HttpRequest) : HttpTraffic :=
  { s with
    arrived := s.arrived + 1
    calls := Function.update s.calls s.arrived
      (some { request, started := s.clock, stage := enterStage cfg request }) }

/-- `rate_limit`; the clock is read while the window is locked. -/
def checkLimit (cfg : RouterConfig) (s : HttpTraffic) (n : Nat) (call : HttpCall) : HttpTraffic :=
  let limited := limitStage cfg s.clock call.request s.window
  { s with window := limited.2 }.setStage n call limited.1

/-- `elapsed.as_millis()`. -/
def elapsedMs (s : HttpTraffic) (call : HttpCall) : Nat :=
  (s.clock - call.started) / 1000000

def callStep (cfg : RouterConfig) (s : HttpTraffic) (n : Nat) (call : HttpCall) :
    StageAction → Option HttpTraffic
  | .checkKey =>
      if call.stage = .atGate then
        some (s.setStage n call
          (if gateOpens cfg call.request then .atLimiter else .answered .unauthorized))
      else none
  | .checkLimit => if call.stage = .atLimiter then some (s.checkLimit cfg n call) else none
  | .answer status =>
      if call.stage = .handling then some (s.setStage n call (.answered (.handler status)))
      else none
  | .expire =>
      if call.stage.isPending && decide (0 < cfg.requestTimeoutSeconds) &&
          decide (call.started + cfg.requestTimeoutSeconds * nanosPerSecond ≤ s.clock) then
        some (s.setStage n call (.answered .requestTimeout))
      else none
  | .disconnect => if call.stage.isPending then some (s.setStage n call .dropped) else none
  | .measure =>
      match call.stage with
      | .answered answer =>
          some (s.setStage n call (.recording answer (s.elapsedMs call) []
            (recordHttpRequest (s.elapsedMs call) answer.failed)))
      | _ => none
  | .count =>
      match call.stage with
      | .recording answer elapsedMs made (update :: left) =>
          some ({ s with metrics := s.metrics.apply update }.setStage n call
            (recordingStage answer elapsedMs (made ++ [update]) left))
      | _ => none

def step (cfg : RouterConfig) (s : HttpTraffic) : HttpAction → Option HttpTraffic
  | .wait nanos => some { s with clock := s.clock + nanos }
  | .arrive request => some (s.arrive cfg request)
  | .call n a => (s.calls n).bind (fun call => s.callStep cfg n call a)

@[simp] theorem setStage_calls_self (s : HttpTraffic) (n : Nat) (call : HttpCall)
    (stage : HttpStage) :
    (s.setStage n call stage).calls n = some { call with stage := stage } :=
  Function.update_self _ _ _

theorem setStage_calls_of_ne
    (s : HttpTraffic) {n m : Nat} (hm : m ≠ n) (call : HttpCall) (stage : HttpStage) :
    (s.setStage n call stage).calls m = s.calls m :=
  Function.update_of_ne hm _ _

@[simp] theorem arrive_calls_self (cfg : RouterConfig) (s : HttpTraffic) (request : HttpRequest) :
    (s.arrive cfg request).calls s.arrived =
      some { request, started := s.clock, stage := enterStage cfg request } :=
  Function.update_self _ _ _

theorem arrive_calls_of_ne
    (s : HttpTraffic) {m : Nat} (hm : m ≠ s.arrived) (cfg : RouterConfig) (request : HttpRequest) :
    (s.arrive cfg request).calls m = s.calls m :=
  Function.update_of_ne hm _ _

variable {s : HttpTraffic}

/-- The numbers that are still to come are free. -/
theorem fresh_arrive
    (hfresh : ∀ m, s.arrived ≤ m → s.calls m = none)
    (cfg : RouterConfig) (request : HttpRequest) :
    ∀ m, s.arrived + 1 ≤ m → (s.arrive cfg request).calls m = none := by
  intro m hm
  have hne : m ≠ s.arrived := by
    rintro rfl
    exact absurd hm (Nat.not_succ_le_self _)
  rw [arrive_calls_of_ne s hne]
  exact hfresh m (Nat.le_of_succ_le hm)

theorem fresh_setStage
    {n : Nat} {call : HttpCall}
    (hfresh : ∀ m, s.arrived ≤ m → s.calls m = none)
    (hcall : s.calls n = some call) (stage : HttpStage) :
    ∀ m, s.arrived ≤ m → (s.setStage n call stage).calls m = none := by
  intro m hm
  have hne : m ≠ n := by
    rintro rfl
    rw [hfresh m hm] at hcall
    cases hcall
  rw [setStage_calls_of_ne s hne]
  exact hfresh m hm

end HttpTraffic

end Steps

section Cases

variable {cfg : RouterConfig} {s s' : HttpTraffic} {n : Nat} {call : HttpCall}

/-- The steps of a request, one constructor for each way they can go. -/
inductive StageCase (cfg : RouterConfig) (s : HttpTraffic) (n : Nat) (call : HttpCall) :
    StageAction → HttpTraffic → Prop where
  | letIn
      (hstage : call.stage = .atGate)
      (hopens : gateOpens cfg call.request = true) :
      StageCase cfg s n call .checkKey (s.setStage n call .atLimiter)
  | refuse
      (hstage : call.stage = .atGate)
      (hopens : gateOpens cfg call.request = false) :
      StageCase cfg s n call .checkKey (s.setStage n call (.answered .unauthorized))
  | probe
      (hstage : call.stage = .atLimiter)
      (hprobe : isProbePath call.request.path = true) :
      StageCase cfg s n call .checkLimit (s.setStage n call .handling)
  | letThrough {window : RateLimitWindow}
      (hstage : call.stage = .atLimiter)
      (hprobe : isProbePath call.request.path = false)
      (hcheck : RateLimiter.check cfg.rateLimitRequestsPerMinute s.clock s.window =
        (.allowed, window)) :
      StageCase cfg s n call .checkLimit ({ s with window := window }.setStage n call .handling)
  | limit {window : RateLimitWindow} {retryAfter : Nat}
      (hstage : call.stage = .atLimiter)
      (hprobe : isProbePath call.request.path = false)
      (hcheck : RateLimiter.check cfg.rateLimitRequestsPerMinute s.clock s.window =
        (.limited retryAfter, window)) :
      StageCase cfg s n call .checkLimit
        ({ s with window := window }.setStage n call (.answered (.rateLimited retryAfter)))
  | answer (status : Nat)
      (hstage : call.stage = .handling) :
      StageCase cfg s n call (.answer status) (s.setStage n call (.answered (.handler status)))
  | expire
      (hpending : call.stage.isPending = true) :
      StageCase cfg s n call .expire (s.setStage n call (.answered .requestTimeout))
  | disconnect
      (hpending : call.stage.isPending = true) :
      StageCase cfg s n call .disconnect (s.setStage n call .dropped)
  | measure {answer : HttpAnswer}
      (hstage : call.stage = .answered answer) :
      StageCase cfg s n call .measure
        (s.setStage n call (.recording answer (s.elapsedMs call) []
          (recordHttpRequest (s.elapsedMs call) answer.failed)))
  | count {answer : HttpAnswer} {elapsedMs : Nat} {made left : List HttpUpdate}
      {update : HttpUpdate}
      (hstage : call.stage = .recording answer elapsedMs made (update :: left)) :
      StageCase cfg s n call .count
        ({ s with metrics := s.metrics.apply update }.setStage n call
          (recordingStage answer elapsedMs (made ++ [update]) left))

theorem HttpTraffic.callStep_cases
    {a : StageAction}
    (h : s.callStep cfg n call a = some s') :
    StageCase cfg s n call a s' := by
  cases a with
  | checkKey =>
      obtain ⟨hstage, h⟩ := Option.ite_none_right_eq_some.mp h
      cases h
      cases hopens : gateOpens cfg call.request with
      | true => exact .letIn hstage hopens
      | false => exact .refuse hstage hopens
  | checkLimit =>
      obtain ⟨hstage, h⟩ := Option.ite_none_right_eq_some.mp h
      cases h
      unfold HttpTraffic.checkLimit limitStage
      cases hprobe : isProbePath call.request.path with
      | true => exact .probe hstage hprobe
      | false =>
          rw [if_neg Bool.false_ne_true]
          split
          · exact .letThrough hstage hprobe ‹_›
          · exact .limit hstage hprobe ‹_›
  | answer status =>
      obtain ⟨hstage, h⟩ := Option.ite_none_right_eq_some.mp h
      cases h
      exact .answer status hstage
  | expire =>
      obtain ⟨hexpired, h⟩ := Option.ite_none_right_eq_some.mp h
      cases h
      simp only [Bool.and_eq_true] at hexpired
      exact .expire hexpired.1.1
  | disconnect =>
      obtain ⟨hpending, h⟩ := Option.ite_none_right_eq_some.mp h
      cases h
      exact .disconnect hpending
  | measure =>
      simp only [HttpTraffic.callStep] at h
      split at h
      · rename_i answer hstage
        cases h
        exact .measure hstage
      · cases h
  | count =>
      simp only [HttpTraffic.callStep] at h
      split at h
      · rename_i hstage
        cases h
        exact .count hstage
      · cases h

end Cases

section Logs

/-- The checks of the limiter, and the requests that it let through. -/
structure GateLog where
  /-- the instants of all checks -/
  checked : List Nat
  /-- the numbers of the admitted requests, with the instants of their checks -/
  admitted : List (Nat × Nat)

namespace GateLog

def empty : GateLog where
  checked := []
  admitted := []

/-- A check of the limiter for a request. -/
def check (cfg : RouterConfig) (s : HttpTraffic) (n : Nat) (log : GateLog) : GateLog where
  checked := log.checked ++ [s.clock]
  admitted := log.admitted ++
    if RateLimiter.isAllowed
        (RateLimiter.check cfg.rateLimitRequestsPerMinute s.clock s.window).1
    then [(n, s.clock)] else []

def note (cfg : RouterConfig) (s : HttpTraffic) (a : HttpAction) (log : GateLog) : GateLog :=
  match a with
  | .call n .checkLimit =>
      if (s.calls n).any (fun call => !isProbePath call.request.path) then log.check cfg s n
      else log
  | _ => log

end GateLog

end Logs

section Invariant

variable {cfg : RouterConfig} {created : Nat} {s s' : HttpTraffic} {log : GateLog}
variable {n : Nat} {call : HttpCall} {stage : HttpStage}

/-- The handler has been called and has not been cut off. -/
def HttpStage.reachedHandler : HttpStage → Prop
  | .handling => True
  | stage => ∃ status, stage.answer = some (.handler status)

/-- The limiter has decided on the request, or it never got there. -/
def HttpStage.isBeforeLimiter : HttpStage → Bool
  | .atGate | .atLimiter => true
  | _ => false

/-- What the stage of a request says about it. -/
structure CallOk (cfg : RouterConfig) (log : GateLog) (n : Nat) (request : HttpRequest)
    (stage : HttpStage) : Prop where
  opened : stage = .atLimiter ∨ stage.reachedHandler → gateOpens cfg request = true
  admitted : stage.reachedHandler →
    isProbePath request.path = true ∨ n ∈ log.admitted.map Prod.fst
  refused : stage.answer = some .unauthorized → gateOpens cfg request = false
  limited : ∀ retryAfter, stage.answer = some (.rateLimited retryAfter) →
    gateOpens cfg request = true ∧ isProbePath request.path = false ∧
      1 ≤ retryAfter ∧ retryAfter ≤ 60

/-- The window is that of the checks in the log. -/
structure LimiterOk (cfg : RouterConfig) (created : Nat) (s : HttpTraffic) (log : GateLog) :
    Prop where
  window : s.window = RateLimiter.windowAfter cfg.rateLimitRequestsPerMinute
    (RateLimiter.new created) log.checked
  instants : log.admitted.map Prod.snd = RateLimiter.allowedInstants
    cfg.rateLimitRequestsPerMinute (RateLimiter.new created) log.checked
  ordered : RateLimiter.Ordered created log.checked
  past : ∀ instant ∈ created :: log.checked, instant ≤ s.clock

/-- The requests are where the log says. -/
structure CallsOk (cfg : RouterConfig) (s : HttpTraffic) (log : GateLog) : Prop where
  fresh : ∀ n, s.arrived ≤ n → s.calls n = none
  calls : ∀ n call, s.calls n = some call → CallOk cfg log n call.request call.stage
  decided : ∀ n ∈ log.admitted.map Prod.fst, ∃ call, s.calls n = some call ∧
    call.stage.isBeforeLimiter = false
  once : (log.admitted.map Prod.fst).Nodup

theorem reachedHandler_iff_of_answer
    {answer : HttpAnswer} (hanswer : stage.answer = some answer) :
    stage.reachedHandler ↔ ∃ status, answer = .handler status := by
  cases stage <;> simp_all [HttpStage.reachedHandler, HttpStage.answer]

namespace CallOk

variable {log' : GateLog} {request : HttpRequest} {stage' : HttpStage}

theorem mono
    (h : CallOk cfg log n request stage)
    (hgrows : log.admitted.map Prod.fst ⊆ log'.admitted.map Prod.fst) :
    CallOk cfg log' n request stage where
  opened := h.opened
  admitted := fun hreached => (h.admitted hreached).imp_right fun hmem => hgrows hmem
  refused := h.refused
  limited := h.limited

/-- An answer stays what it is on its way out. -/
theorem keep
    {answer : HttpAnswer}
    (h : CallOk cfg log n request stage)
    (hanswer : stage.answer = some answer)
    (hsame : stage'.answer = some answer) :
    CallOk cfg log n request stage' := by
  have hreached : stage'.reachedHandler → stage.reachedHandler := fun hreached =>
    (reachedHandler_iff_of_answer hanswer).mpr ((reachedHandler_iff_of_answer hsame).mp hreached)
  have hlimiter : stage' ≠ .atLimiter := by
    rintro rfl
    cases hsame
  refine ⟨?_, fun hreach => h.admitted (hreached hreach), ?_, ?_⟩
  · rintro (hstage | hreach)
    · exact absurd hstage hlimiter
    · exact h.opened (Or.inr (hreached hreach))
  · rw [hsame, ← hanswer]
    exact h.refused
  · rw [hsame, ← hanswer]
    exact h.limited

/-- A stage that is neither behind the gate nor answered by a layer. -/
theorem ofQuiet
    (hlimiter : stage ≠ .atLimiter)
    (hreached : ¬ stage.reachedHandler)
    (hrefused : stage.answer ≠ some .unauthorized)
    (hlimited : ∀ retryAfter, stage.answer ≠ some (.rateLimited retryAfter)) :
    CallOk cfg log n request stage where
  opened := fun h => (h.elim hlimiter hreached).elim
  admitted := fun h => absurd h hreached
  refused := fun h => absurd h hrefused
  limited := fun retryAfter h => absurd h (hlimited retryAfter)

end CallOk

namespace CallsOk

variable {log' : GateLog}

/-- One request goes on, and nothing else is admitted meanwhile. -/
theorem setStage
    (hok : CallsOk cfg s log)
    (hcall : s.calls n = some call)
    (hs' : s'.calls = s.calls ∧ s'.arrived = s.arrived)
    (hstage : CallOk cfg log' n call.request stage)
    (hgrows : log.admitted.map Prod.fst ⊆ log'.admitted.map Prod.fst)
    (hothers : ∀ m ∈ log'.admitted.map Prod.fst, m ≠ n → m ∈ log.admitted.map Prod.fst)
    (hdecided : n ∈ log'.admitted.map Prod.fst → stage.isBeforeLimiter = false)
    (honce : (log'.admitted.map Prod.fst).Nodup) :
    CallsOk cfg (s'.setStage n call stage) log' where
  fresh := by
    obtain ⟨hcalls, harrived⟩ := hs'
    refine HttpTraffic.fresh_setStage ?_ (hcalls ▸ hcall) stage
    rw [hcalls, harrived]
    exact hok.fresh
  calls := by
    intro m other hother
    by_cases hmn : m = n
    · rw [hmn, HttpTraffic.setStage_calls_self] at hother
      cases hother
      exact hmn ▸ hstage
    · rw [HttpTraffic.setStage_calls_of_ne _ hmn, hs'.1] at hother
      exact (hok.calls m other hother).mono hgrows
  decided := by
    intro m hm
    by_cases hmn : m = n
    · rw [hmn] at hm ⊢
      exact ⟨_, HttpTraffic.setStage_calls_self _ _ _ _, hdecided hm⟩
    · rw [HttpTraffic.setStage_calls_of_ne _ hmn, hs'.1]
      exact hok.decided m (hothers m hm hmn)
  once := honce

/-- One request goes on, and the limiter is not asked. -/
theorem advance
    (hok : CallsOk cfg s log)
    (hcall : s.calls n = some call)
    (hs' : s'.calls = s.calls ∧ s'.arrived = s.arrived)
    (hstage : CallOk cfg log n call.request stage)
    (hforward : call.stage.isBeforeLimiter = false → stage.isBeforeLimiter = false) :
    CallsOk cfg (s'.setStage n call stage) log := by
  refine hok.setStage hcall hs' hstage (List.Subset.refl _) (fun m hm _ => hm) ?_ hok.once
  intro hadmitted
  obtain ⟨other, hother, hdecided⟩ := hok.decided n hadmitted
  rw [hcall] at hother
  cases hother
  exact hforward hdecided

/-- The log of the checks does not matter to the requests. -/
theorem relog
    (hok : CallsOk cfg s log)
    (hlog : log'.admitted = log.admitted) :
    CallsOk cfg s log' where
  fresh := hok.fresh
  calls := fun m other hother => (hok.calls m other hother).mono (by rw [hlog]; exact fun _ h => h)
  decided := by
    rw [hlog]
    exact hok.decided
  once := by
    rw [hlog]
    exact hok.once

/-- The limiter admits a request. -/
theorem letThrough
    (hok : CallsOk cfg s log)
    (hcall : s.calls n = some call)
    (hstage : call.stage = .atLimiter)
    (hs' : s'.calls = s.calls ∧ s'.arrived = s.arrived)
    {instant : Nat}
    (hlog : log'.admitted = log.admitted ++ [(n, instant)]) :
    CallsOk cfg (s'.setStage n call .handling) log' := by
  have hnumbers : log'.admitted.map Prod.fst = log.admitted.map Prod.fst ++ [n] := by
    rw [hlog, List.map_append]
    rfl
  have hnew : n ∉ log.admitted.map Prod.fst := by
    intro hadmitted
    obtain ⟨other, hother, hdecided⟩ := hok.decided n hadmitted
    rw [hcall] at hother
    cases hother
    rw [hstage] at hdecided
    cases hdecided
  refine hok.setStage hcall hs' ⟨?_, ?_, nofun, nofun⟩ ?_ ?_ (fun _ => rfl) ?_
  · exact fun _ => (hok.calls n call hcall).opened (Or.inl hstage)
  · exact fun _ => Or.inr (by rw [hnumbers]; simp)
  · rw [hnumbers]
    exact List.subset_append_left _ _
  · intro m hm hmn
    rw [hnumbers, List.mem_append, List.mem_singleton] at hm
    exact hm.resolve_right hmn
  · rw [hnumbers]
    exact List.nodup_append.mpr ⟨hok.once, List.nodup_singleton n,
      fun a ha b hb => by rintro rfl; exact hnew (List.mem_singleton.mp hb ▸ ha)⟩

end CallsOk

namespace LimiterOk

/-- Steps that leave the limiter alone. -/
theorem keep
    (hok : LimiterOk cfg created s log)
    (hwindow : s'.window = s.window)
    (hclock : s.clock ≤ s'.clock) :
    LimiterOk cfg created s' log where
  window := hwindow.trans hok.window
  instants := hok.instants
  ordered := hok.ordered
  past := fun instant hmem => (hok.past instant hmem).trans hclock

/-- A check comes behind all others. -/
theorem check
    (hok : LimiterOk cfg created s log)
    (n : Nat)
    (hwindow : s'.window =
      (RateLimiter.check cfg.rateLimitRequestsPerMinute s.clock s.window).2)
    (hclock : s'.clock = s.clock) :
    LimiterOk cfg created s' (log.check cfg s n) where
  window := by
    rw [GateLog.check, RateLimiter.windowAfter_snoc, ← hok.window]
    exact hwindow
  instants := by
    rw [GateLog.check, RateLimiter.allowedInstants_snoc, ← hok.window, ← hok.instants,
      List.map_append]
    split <;> rfl
  ordered := by
    refine List.pairwise_append.mpr ⟨hok.ordered, List.pairwise_singleton _ _, ?_⟩
    intro instant hmem last hlast
    rw [List.mem_singleton.mp hlast]
    exact hok.past instant hmem
  past := by
    intro instant hmem
    rw [hclock]
    rcases List.mem_append.mp (show instant ∈ (created :: log.checked) ++ [s.clock] from hmem)
      with hmem | hmem
    · exact hok.past instant hmem
    · exact (List.mem_singleton.mp hmem).le

end LimiterOk

/-- A refusal asks to wait for one to sixty seconds. -/
theorem retryAfter_bounds
    {limit now retryAfter : Nat} {window window' : RateLimitWindow}
    (hcheck : RateLimiter.check limit now window = (.limited retryAfter, window')) :
    1 ≤ retryAfter ∧ retryAfter ≤ 60 := by
  have hlimit : 0 < limit := by
    rcases Nat.eq_zero_or_pos limit with rfl | hpos
    · cases hcheck
    · exact hpos
  obtain ⟨-, -, hretry, -⟩ := RateLimiter.check_limited hlimit (congrArg Prod.fst hcheck)
  have hseconds : rateLimitMinute / nanosPerSecond = 60 := by decide
  have hquotient := Nat.div_le_div_right (c := nanosPerSecond)
    (Nat.sub_le rateLimitMinute (now - window.startedAt))
  omega

/-- What the invariant rule carries along a run. -/
structure GateOk (cfg : RouterConfig) (created : Nat) (s : HttpTraffic) (log : GateLog) : Prop where
  limiter : LimiterOk cfg created s log
  calls : CallsOk cfg s log

namespace GateOk

theorem start : GateOk cfg created (HttpTraffic.start created) .empty where
  limiter :=
    { window := rfl
      instants := rfl
      ordered := List.pairwise_singleton _ _
      past := fun _ hmem => (List.mem_singleton.mp hmem).le }
  calls :=
    { fresh := fun _ _ => rfl
      calls := nofun
      decided := nofun
      once := List.nodup_nil }

theorem enterStage_ok (request : HttpRequest) :
    CallOk cfg log n request (enterStage cfg request) := by
  unfold enterStage
  split
  · exact .ofQuiet nofun nofun nofun nofun
  · exact .ofQuiet nofun nofun nofun nofun

theorem arrive
    (hok : GateOk cfg created s log)
    (request : HttpRequest) :
    GateOk cfg created (s.arrive cfg request) log where
  limiter := hok.limiter.keep rfl le_rfl
  calls :=
    { fresh := HttpTraffic.fresh_arrive hok.calls.fresh cfg request
      calls := by
        intro m call hcall
        by_cases hmn : m = s.arrived
        · rw [hmn, HttpTraffic.arrive_calls_self] at hcall
          cases hcall
          exact enterStage_ok request
        · rw [HttpTraffic.arrive_calls_of_ne s hmn] at hcall
          exact hok.calls.calls m call hcall
      decided := by
        intro m hm
        obtain ⟨call, hcall, hdecided⟩ := hok.calls.decided m hm
        have hmn : m ≠ s.arrived := by
          rintro rfl
          rw [hok.calls.fresh _ le_rfl] at hcall
          cases hcall
        exact ⟨call, (HttpTraffic.arrive_calls_of_ne s hmn cfg request).trans hcall, hdecided⟩
      once := hok.calls.once }

/-- One request goes on, and the limiter is not asked. -/
theorem advance
    (hok : GateOk cfg created s log)
    (hcall : s.calls n = some call)
    (stage : HttpStage)
    (hstage : CallOk cfg log n call.request stage)
    (hforward : call.stage.isBeforeLimiter = false → stage.isBeforeLimiter = false)
    {metrics : HttpMetrics} :
    GateOk cfg created ({ s with metrics := metrics }.setStage n call stage) log where
  limiter := hok.limiter.keep rfl le_rfl
  calls := hok.calls.advance hcall ⟨rfl, rfl⟩ hstage hforward

theorem note_checkLimit
    (hcall : s.calls n = some call) :
    GateLog.note cfg s (.call n .checkLimit) log =
      if isProbePath call.request.path then log else log.check cfg s n := by
  rw [GateLog.note, hcall, Option.any_some]
  cases isProbePath call.request.path <;> simp

theorem callStep
    (hok : GateOk cfg created s log)
    (hcall : s.calls n = some call)
    {a : StageAction}
    (hcase : StageCase cfg s n call a s') :
    GateOk cfg created s' (GateLog.note cfg s (.call n a) log) := by
  have hthis := hok.calls.calls n call hcall
  cases hcase with
  | letIn hstage hopens =>
      exact hok.advance hcall .atLimiter ⟨fun _ => hopens, nofun, nofun, nofun⟩
        (by rw [hstage]; nofun)
  | refuse hstage hopens =>
      exact hok.advance hcall (.answered .unauthorized) ⟨nofun, nofun, fun _ => hopens, nofun⟩
        (fun _ => rfl)
  | probe hstage hprobe =>
      rw [note_checkLimit hcall, if_pos hprobe]
      exact hok.advance hcall .handling
        ⟨fun _ => hthis.opened (Or.inl hstage), fun _ => Or.inl hprobe, nofun, nofun⟩
        (fun _ => rfl)
  | letThrough hstage hprobe hcheck =>
      rw [note_checkLimit hcall, if_neg (by rw [hprobe]; nofun)]
      refine ⟨hok.limiter.check n (by rw [hcheck]; rfl) rfl, ?_⟩
      exact hok.calls.letThrough hcall hstage ⟨rfl, rfl⟩ (by rw [GateLog.check, hcheck]; rfl)
  | limit hstage hprobe hcheck =>
      rename_i window retryAfter
      rw [note_checkLimit hcall, if_neg (by rw [hprobe]; nofun)]
      refine ⟨hok.limiter.check n (by rw [hcheck]; rfl) rfl, ?_⟩
      have hadmitted : (log.check cfg s n).admitted = log.admitted := by
        rw [GateLog.check, hcheck]
        exact List.append_nil _
      refine CallsOk.relog (hok.calls.advance hcall ⟨rfl, rfl⟩ ?_ (fun _ => rfl)) hadmitted
      refine ⟨nofun, nofun, nofun, ?_⟩
      intro other hother
      cases hother
      exact ⟨hthis.opened (Or.inl hstage), hprobe, retryAfter_bounds hcheck⟩
  | answer status hstage =>
      have hreached : call.stage.reachedHandler := by
        rw [hstage]
        trivial
      exact hok.advance hcall (.answered (.handler status))
        ⟨fun _ => hthis.opened (Or.inr hreached), fun _ => hthis.admitted hreached, nofun, nofun⟩
        (fun _ => rfl)
  | expire hpending =>
      exact hok.advance hcall (.answered .requestTimeout) (.ofQuiet nofun nofun nofun nofun)
        (fun _ => rfl)
  | disconnect hpending =>
      exact hok.advance hcall .dropped (.ofQuiet nofun nofun nofun nofun) (fun _ => rfl)
  | measure hstage =>
      exact hok.advance hcall (.recording _ _ [] _) (hthis.keep (by rw [hstage]; rfl) rfl)
        (fun _ => rfl)
  | count hstage =>
      rename_i answer elapsedMs made left update
      have hbehind : (recordingStage answer elapsedMs (made ++ [update]) left).answer =
          some answer ∧
          (recordingStage answer elapsedMs (made ++ [update]) left).isBeforeLimiter = false := by
        unfold recordingStage
        split <;> exact ⟨rfl, rfl⟩
      exact hok.advance hcall _ (hthis.keep (by rw [hstage]; rfl) hbehind.1) (fun _ => hbehind.2)

theorem step
    (hok : GateOk cfg created s log)
    {a : HttpAction}
    (h : s.step cfg a = some s') :
    GateOk cfg created s' (GateLog.note cfg s a log) := by
  cases a with
  | wait nanos =>
      cases h
      exact ⟨hok.limiter.keep rfl (Nat.le_add_right _ _),
        { fresh := hok.calls.fresh
          calls := hok.calls.calls
          decided := hok.calls.decided
          once := hok.calls.once }⟩
  | arrive request =>
      cases h
      exact hok.arrive request
  | call n a =>
      obtain ⟨call, hcall, hstep⟩ := Option.bind_eq_some_iff.mp h
      exact hok.callStep hcall (HttpTraffic.callStep_cases hstep)

theorem run
    {ok : HttpTraffic → HttpAction → Prop}
    (hrun : ObservedRun (HttpTraffic.step cfg) ok (GateLog.note cfg)
      (HttpTraffic.start created, GateLog.empty) (s, log)) :
    GateOk cfg created s log := by
  refine ObservedRun.invariant (I := GateOk cfg created) ?_ hrun start
  intro s log a s' _ hstep hok
  exact hok.step hstep

end GateOk

end Invariant

section Guard

variable {cfg : RouterConfig} {created : Nat} {s : HttpTraffic} {log : GateLog}

/--
A handler sees a request only if it presents an accepted key or needs none, and is a probe
or was admitted by the limiter, which admits each request once and at most twice the limit
in a minute.  A request that is told to present a key has presented none, and one that is
told to wait has passed the gate and shall wait for one to sixty seconds.
-/
theorem handlers_are_guarded
    {ok : HttpTraffic → HttpAction → Prop}
    (hrun : ObservedRun (HttpTraffic.step cfg) ok (GateLog.note cfg)
      (HttpTraffic.start created, GateLog.empty) (s, log)) :
    (∀ n call, s.calls n = some call → call.stage.reachedHandler →
      gateOpens cfg call.request = true ∧
        (isProbePath call.request.path = true ∨ ∃ instant, (n, instant) ∈ log.admitted)) ∧
    (log.admitted.map Prod.fst).Nodup ∧
    (0 < cfg.rateLimitRequestsPerMinute → ∀ start,
      log.admitted.countP (fun entry => RateLimiter.inMinuteFrom start entry.2) ≤
        2 * cfg.rateLimitRequestsPerMinute) ∧
    (∀ n call, s.calls n = some call → call.stage.answer = some .unauthorized →
      gateOpens cfg call.request = false) ∧
    ∀ n call retryAfter, s.calls n = some call →
      call.stage.answer = some (.rateLimited retryAfter) →
      gateOpens cfg call.request = true ∧ isProbePath call.request.path = false ∧
        1 ≤ retryAfter ∧ retryAfter ≤ 60 := by
  have hok := GateOk.run hrun
  refine ⟨?_, hok.calls.once, ?_, ?_, ?_⟩
  · intro n call hcall hreached
    have hthis := hok.calls.calls n call hcall
    refine ⟨hthis.opened (Or.inr hreached), (hthis.admitted hreached).imp_right ?_⟩
    intro hadmitted
    obtain ⟨entry, hentry, rfl⟩ := List.mem_map.mp hadmitted
    exact ⟨entry.2, hentry⟩
  · intro hlimit start
    have hinterval := (RateLimiter.counts_windowAfter hlimit hok.limiter.ordered).interval start
    rw [← hok.limiter.instants, List.countP_map] at hinterval
    exact hinterval
  · intro n call hcall
    exact (hok.calls.calls n call hcall).refused
  · intro n call retryAfter hcall
    exact (hok.calls.calls n call hcall).limited retryAfter

/-- The traffic of `sampleTraffic` side by side: the last request overtakes the second one. -/
def overtakingActions : List HttpAction :=
  sampleTraffic.map .arrive ++
    [.call 0 .checkKey, .call 1 .checkKey, .call 3 .checkKey, .wait 5, .call 3 .checkLimit,
      .call 1 .checkLimit, .call 2 .checkKey, .call 2 .checkLimit, .call 3 (.answer 503),
      .call 0 .measure, .call 0 .count, .call 3 .measure]

/-- The last request was admitted, and the second one has to wait. -/
def overtaken (state : HttpTraffic × GateLog) : Bool :=
  state.2.admitted == [(3, 5)] &&
    (state.1.calls 1).any (fun call => call.stage == .answered (.rateLimited 59))

theorem handlers_are_guarded_sample :
    ∃ (s : HttpTraffic) (log : GateLog) (call : HttpCall),
      log.admitted = [(3, 5)] ∧ s.calls 1 = some call ∧
      call.stage = .answered (.rateLimited 59) ∧
      gateOpens sampleRouterConfig call.request = true ∧
      (log.admitted.map Prod.fst).Nodup ∧
      log.admitted.countP (fun entry => RateLimiter.inMinuteFrom 0 entry.2) ≤ 2 := by
  have hexec : (runActions (observed (HttpTraffic.step sampleRouterConfig)
      (GateLog.note sampleRouterConfig)) (fun _ _ => true) (HttpTraffic.start 0, GateLog.empty)
      overtakingActions).any overtaken = true := by
    decide +kernel
  obtain ⟨⟨s, log⟩, hrun, htest⟩ :
      ∃ q, ObservedRun (HttpTraffic.step sampleRouterConfig) (fun _ _ => True)
        (GateLog.note sampleRouterConfig) (HttpTraffic.start 0, GateLog.empty) q ∧
        overtaken q = true :=
    exists_observedRun_of_any (fun _ _ _ => trivial) hexec
  obtain ⟨hadmitted, hwaits⟩ := Bool.and_eq_true_iff.mp htest
  obtain ⟨call, hcall, hstage⟩ := (Option.any_eq_true _ _).mp hwaits
  have hstage := beq_iff_eq.mp hstage
  obtain ⟨-, honce, hminute, -, hlimited⟩ := handlers_are_guarded hrun
  exact ⟨s, log, call, beq_iff_eq.mp hadmitted, hcall, hstage,
    (hlimited 1 call 59 hcall (by rw [hstage]; rfl)).1, honce, hminute (by decide) 0⟩

end Guard

end FlorenceServer
