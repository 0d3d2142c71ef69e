import Mathlib.Data.List.GetD
import Mathlib.Data.Nat.Bitwise
import FlorenceServer.Api.Security
import FlorenceServer.Lib.Trimming

/-!
# The API key gate

Which requests `require_api_key` lets through, in terms of the headers: the
`x-api-key` header decides alone unless it is absent, not text or blank, and a
bearer token stands in for it then.  The key is compared byte by byte.
-/

namespace FlorenceServer

/-! ## Comparing two keys -/

theorem foldl_or_eq_zero_iff
    (difference : Nat → Nat)
    (indices : List Nat)
    (init : Nat) :
    indices.foldl (fun diff index => diff ||| difference index) init = 0 ↔
      init = 0 ∧ ∀ index ∈ indices, difference index = 0 := by
  induction indices generalizing init with
  | nil =>
      simp
  | cons first rest ih =>
      rw [List.foldl_cons, ih, Nat.or_eq_zero_iff, List.forall_mem_cons, and_assoc]

theorem byte_xor_toNat_eq_zero_iff
    (left right : UInt8) :
    (left ^^^ right).toNat = 0 ↔ left = right := by
  rw [UInt8.toNat_xor, Nat.xor_eq_zero_iff]
  exact UInt8.toNat_inj

/-- Lists of one length are equal when padding them leaves no difference. -/
theorem eq_of_getD_eq
    {left right : List UInt8}
    (hlength : left.length = right.length)
    (hbytes : ∀ index, index < left.length → left.getD index 0 = right.getD index 0) :
    left = right := by
  refine List.ext_getElem hlength fun index hleft hright => ?_
  have hbyte := hbytes index hleft
  rwa [List.getD_eq_getElem _ _ hleft, List.getD_eq_getElem _ _ hright] at hbyte

/-- `constant_time_eq` compares: padding a key with zeros does not make it another one. -/
theorem constantTimeEq_iff
    (left right : List UInt8) :
    constantTimeEq left right = true ↔ left = right := by
  simp only [constantTimeEq, beq_iff_eq, foldl_or_eq_zero_iff, Nat.xor_eq_zero_iff,
    List.mem_range, byte_xor_toNat_eq_zero_iff]
  constructor
  · rintro ⟨hlength, hbytes⟩
    exact eq_of_getD_eq hlength fun index hindex =>
      hbytes index (Nat.lt_of_lt_of_le hindex (Nat.le_max_left _ _))
  · rintro rfl
    exact ⟨rfl, fun _ _ => rfl⟩

theorem apiKeyAllowed_iff
    (presented : List Char)
    (configured : List String) :
    apiKeyAllowed presented configured = true ↔
      ∃ expected ∈ configured,
        encodeUtf8 presented = encodeUtf8 expected.toList := by
  simp only [apiKeyAllowed, List.any_eq_true, constantTimeEq_iff]

/-! ## The effective key -/

/-- `key` is what white space surrounds in `text`. -/
structure HoldsKey (text key : List Char) : Prop where
  key_ne_nil : key ≠ []
  trimmed : Trimmed isWhitespace key
  around : ∃ before after,
    text = before ++ key ++ after ∧
      (∀ c ∈ before, isWhitespace c = true) ∧ ∀ c ∈ after, isWhitespace c = true

/-- The `x-api-key` header is present, text and holds `key`. -/
def ApiKeyHeader (request : HttpRequest) (key : List Char) : Prop :=
  ∃ value text,
    request.header "x-api-key" = some value ∧
      value.toStr = some text ∧ HoldsKey text key

/-- The `Authorization` header is present, text and holds `key` behind `Bearer `. -/
def BearerHeader (request : HttpRequest) (key : List Char) : Prop :=
  ∃ value token,
    request.header "authorization" = some value ∧
      value.toStr = some ("Bearer ".toList ++ token) ∧ HoldsKey token key

/-- The key that a request is judged by. -/
def EffectiveKey (request : HttpRequest) (key : List Char) : Prop :=
  ApiKeyHeader request key ∨
    (¬ ∃ other, ApiKeyHeader request other) ∧ BearerHeader request key

theorem nonBlank_eq_some_iff
    (text key : List Char) :
    nonBlank text = some key ↔ HoldsKey text key := by
  have hdef : trimChars text = trimBlank isWhitespace text := rfl
  constructor
  · intro hkey
    rw [nonBlank] at hkey
    split at hkey
    · cases hkey
    · rename_i hne
      cases hkey
      refine ⟨fun hnil => hne (List.isEmpty_iff.mpr hnil), ?_, ?_⟩
      · rw [hdef]
        exact trimmed_trimBlank isWhitespace text
      · rw [hdef]
        exact exists_around_trimBlank isWhitespace text
  · rintro ⟨hne, htrimmed, before, after, rfl, hbefore, hafter⟩
    have htrim := trimBlank_around hbefore hafter hne htrimmed
    rw [nonBlank, hdef, htrim, if_neg (by simpa using hne)]

theorem apiKeyHeader_iff
    (request : HttpRequest)
    (key : List Char) :
    ((request.header "x-api-key").bind HeaderValue.toStr).bind nonBlank = some key ↔
      ApiKeyHeader request key := by
  simp only [Option.bind_eq_some_iff, nonBlank_eq_some_iff]
  constructor
  · rintro ⟨text, ⟨value, hvalue, htext⟩, hkey⟩
    exact ⟨value, text, hvalue, htext, hkey⟩
  · rintro ⟨value, text, hvalue, htext, hkey⟩
    exact ⟨text, ⟨value, hvalue, htext⟩, hkey⟩

theorem bearerToken_iff
    (request : HttpRequest)
    (key : List Char) :
    bearerToken request = some key ↔ BearerHeader request key := by
  simp only [bearerToken, Option.bind_eq_some_iff, nonBlank_eq_some_iff,
    stripPrefix_eq_some_iff]
  constructor
  · rintro ⟨token, ⟨text, ⟨value, hvalue, htext⟩, rfl⟩, hkey⟩
    exact ⟨value, token, hvalue, htext, hkey⟩
  · rintro ⟨value, token, hvalue, htext, hkey⟩
    exact ⟨token, ⟨_, ⟨value, hvalue, htext⟩, rfl⟩, hkey⟩

theorem requestApiKey_iff
    (request : HttpRequest)
    (key : List Char) :
    requestApiKey request = some key ↔ EffectiveKey request key := by
  rw [requestApiKey, Option.or_eq_some_iff, apiKeyHeader_iff, bearerToken_iff]
  refine or_congr_right (and_congr_left' ?_)
  rw [Option.eq_none_iff_forall_ne_some, not_exists]
  exact forall_congr' fun other => not_congr (apiKeyHeader_iff request other)

theorem presentsAcceptedKey_iff
    (apiKeys : List String)
    (request : HttpRequest) :
    presentsAcceptedKey apiKeys request = true ↔
      ∃ key, EffectiveKey request key ∧
        ∃ expected ∈ apiKeys, encodeUtf8 key = encodeUtf8 expected.toList := by
  rw [presentsAcceptedKey, Option.any_eq_true]
  refine exists_congr fun key => ?_
  rw [requestApiKey_iff, apiKeyAllowed_iff]

/-! ## The gate -/

/-- The layer hands the request on, whatever is behind it. -/
def Forwards (apiKeys : List String) (request : HttpRequest) : Prop :=
  ∀ (next : Next) (window : RateLimitWindow),
    requireApiKey apiKeys next request window = next request window

theorem requireApiKey_of_accepted
    {apiKeys : List String}
    {request : HttpRequest}
    (haccepted :
      apiKeys = [] ∨ isProbePath request.path = true ∨
        presentsAcceptedKey apiKeys request = true) :
    Forwards apiKeys request := by
  intro next window
  rw [requireApiKey]
  rcases haccepted with rfl | hprobe | hkey
  · rfl
  · rw [hprobe, Bool.or_true, if_pos rfl]
  · rw [hkey, if_pos rfl, ite_self]

theorem requireApiKey_of_not_accepted
    {apiKeys : List String}
    {request : HttpRequest}
    (hkeys : apiKeys ≠ [])
    (hprobe : isProbePath request.path = false)
    (hkey : presentsAcceptedKey apiKeys request = false)
    (next : Next)
    (window : RateLimitWindow) :
    requireApiKey apiKeys next request window =
      (jsonErrorResponse 401 "unauthorized" "valid API key is required", window) := by
  have hempty : apiKeys.isEmpty = false := by
    cases apiKeys with
    | nil =>
        exact absurd rfl hkeys
    | cons first rest =>
        rfl
  rw [requireApiKey, hempty, hprobe, hkey]
  rfl

/-- A refused request is not handed on. -/
theorem forwards_iff
    (apiKeys : List String)
    (request : HttpRequest) :
    Forwards apiKeys request ↔
      apiKeys = [] ∨ isProbePath request.path = true ∨
        presentsAcceptedKey apiKeys request = true := by
  refine ⟨fun hforwards => ?_, requireApiKey_of_accepted⟩
  by_contra hnot
  rw [not_or, not_or, Bool.not_eq_true, Bool.not_eq_true] at hnot
  obtain ⟨hkeys, hprobe, hkey⟩ := hnot
  have hrefused := requireApiKey_of_not_accepted hkeys hprobe hkey routed (RateLimiter.new 0)
  rw [hforwards] at hrefused
  cases hrefused

/--
The gate is exact: without configured keys everything passes, probes always do,
and any other request passes exactly when the bytes of its effective key are
those of a configured one.  Two byte strings compare as equal only if they are.
-/
theorem requireApiKey_exact
    (apiKeys : List String)
    (request : HttpRequest) :
    (Forwards apiKeys request ↔
      apiKeys = [] ∨ request.path = "/health" ∨ request.path = "/ready" ∨
        ∃ key, EffectiveKey request key ∧
          ∃ expected ∈ apiKeys, encodeUtf8 key = encodeUtf8 expected.toList) ∧
    (¬ Forwards apiKeys request →
      ∀ (next : Next) (window : RateLimitWindow),
        requireApiKey apiKeys next request window =
          (jsonErrorResponse 401 "unauthorized" "valid API key is required", window)) ∧
    ∀ left right : List UInt8, constantTimeEq left right = true ↔ left = right := by
  have hprobe :
      isProbePath request.path = true ↔
        request.path = "/health" ∨ request.path = "/ready" := by
    simp only [isProbePath, Bool.or_eq_true, beq_iff_eq]
  refine ⟨?_, ?_, constantTimeEq_iff⟩
  · rw [forwards_iff, hprobe, presentsAcceptedKey_iff, or_assoc]
  · intro hrefused next window
    rw [forwards_iff, not_or, not_or, Bool.not_eq_true, Bool.not_eq_true] at hrefused
    exact requireApiKey_of_not_accepted hrefused.1 hrefused.2.1 hrefused.2.2 next window

end FlorenceServer
