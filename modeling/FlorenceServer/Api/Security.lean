import Mathlib.Tactic
import FlorenceServer.Lib.TextLines
import FlorenceServer.Lib.TextSlices
import FlorenceServer.Types.TaskSpec
import FlorenceServer.State.RateLimiter

/-!
# The middleware stack

`rate_limit` and `require_api_key` of `api/security.rs` and their place in the
`router` of `api.rs`.  A layer turns the service behind it into another one, and
the layer that is added last runs first.  What the requests share is the window
of the rate limiter.

* `rate_limit_ignores_unauthenticated`: requests that are turned away for their
  key, and probes, do not change what becomes of any other request.
-/

namespace FlorenceServer

/-- The bytes of a header value. -/
abbrev HeaderValue := List UInt8

/-- A request, with what the layers see of it. -/
structure HttpRequest where
  method : String
  path : String
  /-- Names in lower case, in the order of the request. -/
  headers : List (String × HeaderValue)
  /-- The instant at which the rate limiter reads the clock. -/
  checkedAt : Nat
  /-- The handler needs more time than the request timeout allows. -/
  outlastsTimeout : Bool
deriving DecidableEq, Repr

inductive HttpResponse where
  /-- Whatever the routed handler answers. -/
  | forwarded
  | error (status : Nat) (code message : String) (retryAfter : Option Nat)
  /-- The answer of the timeout layer. -/
  | requestTimeout
  /-- The answer of the CORS layer. -/
  | preflight
deriving DecidableEq, Repr

/-- The settings that `router` reads. -/
structure RouterConfig where
  apiKeys : List String
  rateLimitRequestsPerMinute : Nat
  requestTimeoutSeconds : Nat
  corsAllowedOrigins : List String
deriving DecidableEq, Repr

section Keys

/-- `HeaderValue::to_str`: visible ASCII and tabs. -/
def HeaderValue.toStr (value : HeaderValue) : Option (List Char) :=
  if value.all (fun byte => (32 ≤ byte && byte < 127) || byte == 9) then
    some (value.map (fun byte => Char.ofNat byte.toNat))
  else
    none

/-- `HeaderMap::get`: the first value of a name. -/
def HttpRequest.header (request : HttpRequest) (name : String) : Option HeaderValue :=
  (request.headers.find? (fun entry => entry.1 == name)).map Prod.snd

/-- `is_probe_path`. -/
def isProbePath (path : String) : Bool :=
  path == "/health" || path == "/ready"

/-- `str::trim` of a value that is not blank. -/
def nonBlank (value : List Char) : Option (List Char) :=
  if (trimChars value).isEmpty then none else some (trimChars value)

/-- `bearer_token`. -/
def bearerToken (request : HttpRequest) : Option (List Char) :=
  (((request.header "authorization").bind HeaderValue.toStr).bind
    (stripPrefix "Bearer ".toList)).bind nonBlank

/-- `request_api_key`: the `x-api-key` header goes first if it is not blank. -/
def requestApiKey (request : HttpRequest) : Option (List Char) :=
  (((request.header "x-api-key").bind HeaderValue.toStr).bind nonBlank).or
    (bearerToken request)

/-- `constant_time_eq`: the lengths and all bytes are compared, missing ones as zero. -/
def constantTimeEq (left right : List UInt8) : Bool :=
  let maxLen := max left.length right.length
  let diff :=
    (List.range maxLen).foldl
      (fun diff index =>
        diff ||| (left.getD index 0 ^^^ right.getD index 0).toNat)
      (left.length ^^^ right.length)
  diff == 0

/-- `api_key_allowed`. -/
def apiKeyAllowed (presented : List Char) (configured : List String) : Bool :=
  configured.any (fun expected =>
    constantTimeEq (encodeUtf8 presented) (encodeUtf8 expected.toList))

/-- The request presents one of the configured keys. -/
def presentsAcceptedKey (apiKeys : List String) (request : HttpRequest) : Bool :=
  (requestApiKey request).any (fun key => apiKeyAllowed key apiKeys)

end Keys

section Layers

/-- A service behind some layers, with the window of the rate limiter. -/
abbrev Next := HttpRequest → RateLimitWindow → HttpResponse × RateLimitWindow

/-- `json_error_response`. -/
def jsonErrorResponse (status : Nat) (code message : String) : HttpResponse :=
  .error status code message none

/-- `rate_limit`. -/
def rateLimit (limitPerMinute : Nat) (next : Next) : Next :=
  fun request window =>
    if isProbePath request.path then
      next request window
    else
      match RateLimiter.check limitPerMinute request.checkedAt window with
      | (.allowed, window) => next request window
      | (.limited retryAfter, window) =>
          (.error 429 "rate_limited" "request rate limit exceeded" (some retryAfter), window)

/-- `require_api_key`. -/
def requireApiKey (apiKeys : List String) (next : Next) : Next :=
  fun request window =>
    if apiKeys.isEmpty || isProbePath request.path then
      next request window
    else if presentsAcceptedKey apiKeys request then
      next request window
    else
      (jsonErrorResponse 401 "unauthorized" "valid API key is required", window)

/-- The timeout layer: the answer of a slow handler is replaced. -/
def timeoutLayer (next : Next) : Next :=
  fun request window =>
    match next request window with
    | (.forwarded, window) =>
        (if request.outlastsTimeout then .requestTimeout else .forwarded, window)
    | answered => answered

/-- The CORS layer answers `OPTIONS` requests itself. -/
def corsLayer (next : Next) : Next :=
  fun request window =>
    if request.method == "OPTIONS" then (.preflight, window) else next request window

/-- `Router::layer`, one layer after the other: the one added last runs first. -/
def withLayers (handler : Next) (layers : List (Next → Next)) : Next :=
  layers.foldl (fun next layer => layer next) handler

/-- The routed handlers. -/
def routed : Next :=
  fun _ window => (.forwarded, window)

/-- `router`, as far as a layer can keep a request from the ones behind it. -/
def router (cfg : RouterConfig) : Next :=
  withLayers routed
    ([rateLimit cfg.rateLimitRequestsPerMinute, requireApiKey cfg.apiKeys] ++
      (if 0 < cfg.requestTimeoutSeconds then [timeoutLayer] else []) ++
      (if cfg.corsAllowedOrigins.isEmpty then [] else [corsLayer]))

/-- What becomes of a sequence of requests. -/
def serve (next : Next) : List HttpRequest → RateLimitWindow → List (HttpRequest × HttpResponse)
  | [], _ => []
  | request :: rest, window =>
      (request, (next request window).1) :: serve next rest (next request window).2

end Layers

section Isolation

/-- A service leaves the window as it is on a request. -/
def Ignores (next : Next) (request : HttpRequest) : Prop :=
  ∀ window, (next request window).2 = window

variable {next : Next} {request : HttpRequest}

theorem Ignores.rateLimit
    (h : Ignores next request) (hprobe : isProbePath request.path = true)
    (limitPerMinute : Nat) :
    Ignores (rateLimit limitPerMinute next) request := by
  intro window
  simp only [FlorenceServer.rateLimit, hprobe, if_true]
  exact h window

theorem Ignores.requireApiKey
    (h : Ignores next request) (apiKeys : List String) :
    Ignores (requireApiKey apiKeys next) request := by
  intro window
  simp only [FlorenceServer.requireApiKey]
  split
  · exact h window
  · split
    · exact h window
    · rfl

/-- Without an accepted key a request does not get past the layer. -/
theorem requireApiKey_ignores
    {apiKeys : List String} (hkeys : apiKeys ≠ [])
    (hprobe : isProbePath request.path = false)
    (hkey : presentsAcceptedKey apiKeys request = false) :
    Ignores (requireApiKey apiKeys next) request := by
  intro window
  have hempty : apiKeys.isEmpty = false := by simpa using hkeys
  simp [requireApiKey, hempty, hprobe, hkey]

theorem Ignores.timeoutLayer (h : Ignores next request) :
    Ignores (timeoutLayer next) request := by
  intro window
  have hnext := h window
  simp only [FlorenceServer.timeoutLayer]
  split
  · rename_i heq
    rw [heq] at hnext
    exact hnext
  · exact hnext

theorem Ignores.corsLayer (h : Ignores next request) :
    Ignores (corsLayer next) request := by
  intro window
  simp only [FlorenceServer.corsLayer]
  split
  · rfl
  · exact h window

/-- The request presents an accepted key and is no probe. -/
def countsAgainstLimit (cfg : RouterConfig) (request : HttpRequest) : Bool :=
  presentsAcceptedKey cfg.apiKeys request && !isProbePath request.path

/-- Any other request does not reach the rate limiter. -/
theorem router_ignores
    (cfg : RouterConfig) (hkeys : cfg.apiKeys ≠ [])
    (hcounts : countsAgainstLimit cfg request = false) :
    Ignores (router cfg) request := by
  have hinner : Ignores (requireApiKey cfg.apiKeys
      (rateLimit cfg.rateLimitRequestsPerMinute routed)) request := by
    cases hprobe : isProbePath request.path with
    | true =>
        have hrouted : Ignores routed request := fun _ => rfl
        exact (hrouted.rateLimit hprobe _).requireApiKey _
    | false =>
        have hkey : presentsAcceptedKey cfg.apiKeys request = false := by
          simpa [countsAgainstLimit, hprobe] using hcounts
        exact requireApiKey_ignores hkeys hprobe hkey
  unfold router withLayers
  by_cases htimeout : 0 < cfg.requestTimeoutSeconds <;>
    cases hcors : cfg.corsAllowedOrigins.isEmpty <;>
    simp only [htimeout, if_true, if_false, List.cons_append, List.nil_append, List.foldl_cons,
      List.foldl_nil, Bool.false_eq_true]
  · exact hinner.timeoutLayer.corsLayer
  · exact hinner.timeoutLayer
  · exact hinner.corsLayer
  · exact hinner

/-- Requests that a service ignores can be left out. -/
theorem serve_filter
    (counts : HttpRequest → Bool)
    (hignores : ∀ request, counts request = false → Ignores next request)
    (requests : List HttpRequest) (window : RateLimitWindow) :
    (serve next requests window).filter (fun served => counts served.1) =
      serve next (requests.filter counts) window := by
  induction requests generalizing window with
  | nil =>
      rfl
  | cons request rest ih =>
      cases hcounts : counts request with
      | true =>
          simp only [serve, List.filter_cons, hcounts, if_true, ih]
      | false =>
          have hwindow := hignores request hcounts window
          simp only [serve, List.filter_cons, hcounts, Bool.false_eq_true, if_false, hwindow, ih]

/--
If API keys are configured, leaving out all probes and all requests without an
accepted key changes nothing for the other requests: each of them is forwarded
or limited as before, with the same `Retry-After`.
-/
theorem rate_limit_ignores_unauthenticated
    (cfg : RouterConfig) (hkeys : cfg.apiKeys ≠ [])
    (requests : List HttpRequest) (window : RateLimitWindow) :
    (serve (router cfg) requests window).filter (fun served => countsAgainstLimit cfg served.1) =
      serve (router cfg) (requests.filter (countsAgainstLimit cfg)) window :=
  serve_filter (countsAgainstLimit cfg)
    (fun _ hcounts => router_ignores cfg hkeys hcounts) requests window

/-- One configured key, at most one request in a minute. -/
def sampleRouterConfig : RouterConfig where
  apiKeys := ["secret"]
  rateLimitRequestsPerMinute := 1
  requestTimeoutSeconds := 30
  corsAllowedOrigins := []

/-- A wrong key, the key as a bearer token, a probe, and the key once more. -/
def sampleTraffic : List HttpRequest :=
  [⟨"POST", "/v1/infer", [("x-api-key", encodeUtf8 "guess".toList)], 1, false⟩,
    ⟨"POST", "/v1/infer", [("authorization", encodeUtf8 "Bearer secret".toList)], 2, false⟩,
    ⟨"GET", "/ready", [("x-api-key", encodeUtf8 "secret".toList)], 3, false⟩,
    ⟨"POST", "/v1/infer", [("x-api-key", encodeUtf8 "secret".toList)], 4, false⟩]

theorem rate_limit_ignores_unauthenticated_sample :
    (serve (router sampleRouterConfig) sampleTraffic (RateLimiter.new 0)).filter
        (fun served => countsAgainstLimit sampleRouterConfig served.1) =
      serve (router sampleRouterConfig)
        (sampleTraffic.filter (countsAgainstLimit sampleRouterConfig)) (RateLimiter.new 0) :=
  rate_limit_ignores_unauthenticated sampleRouterConfig (by decide) _ _

end Isolation

end FlorenceServer
