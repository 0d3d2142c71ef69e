import FlorenceServer.Types.Settings
import FlorenceServer.Api.ApiKeyGate

/-!
# Configured API keys

The keys reach `require_api_key` from the configuration file or from `API_KEYS`.
The variable's entries are trimmed and so is the header of a request, but the
entries of the file are kept as they are written: one with spaces around it is
compared with a key that has none.
-/

namespace FlorenceServer

/-- Printable ASCII without a comma, and not only spaces. -/
structure PlainKey (key : String) : Prop where
  printable : ∀ c ∈ key.toList, 32 ≤ c.toNat ∧ c.toNat < 127
  commaFree : ',' ∉ key.toList
  visible : ∃ c ∈ key.toList, c ≠ ' '

/-- The request presents `key` in `x-api-key`. -/
def PresentsKey (request : HttpRequest) (key : String) : Prop :=
  request.header "x-api-key" = some (encodeUtf8 key.toList)

/--
The two ways of configuring `keys` admit the same requests, and every key is
admitted.
-/
def KeysUsable (keys fromFile fromVariable : List String) : Prop :=
  (∀ request, Forwards fromFile request ↔ Forwards fromVariable request) ∧
    ∀ key ∈ keys, ∀ request, PresentsKey request key →
      Forwards fromFile request ∧ Forwards fromVariable request

/-! ## Plain keys as header values -/

theorem isWhitespace_of_printable
    {c : Char}
    (hprintable : 32 ≤ c.toNat ∧ c.toNat < 127) :
    isWhitespace c = true ↔ c = ' ' := by
  constructor
  · intro hspace
    have hnat : c.toNat = ' '.toNat := by
      simp only [isWhitespace, Bool.or_eq_true, Bool.and_eq_true, decide_eq_true_eq,
        beq_iff_eq] at hspace
      change c.toNat = 32
      omega
    exact Char.toNat_inj.mp hnat
  · rintro rfl
    rfl

theorem utf8EncodeChar_of_printable
    {c : Char}
    (hprintable : 32 ≤ c.toNat ∧ c.toNat < 127) :
    String.utf8EncodeChar c = [c.toNat.toUInt8] := by
  have hsize : c.utf8Size = 1 := by
    rw [Char.utf8Size_eq_one_iff]
    change c.toNat ≤ 127
    omega
  exact String.utf8EncodeChar_eq_singleton hsize

/-- A header value of printable ASCII is text. -/
theorem toStr_encodeUtf8
    {text : List Char}
    (hprintable : ∀ c ∈ text, 32 ≤ c.toNat ∧ c.toNat < 127) :
    HeaderValue.toStr (encodeUtf8 text) = some text := by
  have hbytes : encodeUtf8 text = text.map (fun c => c.toNat.toUInt8) := by
    induction text with
    | nil =>
        rfl
    | cons c text ih =>
        rw [encodeUtf8_cons, utf8EncodeChar_of_printable (hprintable c List.mem_cons_self),
          ih fun d hd => hprintable d (List.mem_cons_of_mem _ hd)]
        rfl
  have hbyte : ∀ c ∈ text, c.toNat.toUInt8.toNat = c.toNat := by
    intro c hc
    have hsmall := (hprintable c hc).2
    rw [Nat.toUInt8_eq, UInt8.toNat_ofNat']
    exact Nat.mod_eq_of_lt (by omega)
  have htext :
      (encodeUtf8 text).all (fun byte => (32 ≤ byte && byte < 127) || byte == 9) = true := by
    rw [hbytes, List.all_map, List.all_eq_true]
    intro c hc
    have hrange := hprintable c hc
    rw [← hbyte c hc] at hrange
    simp only [Function.comp_apply, Bool.or_eq_true, Bool.and_eq_true, decide_eq_true_eq]
    exact Or.inl ⟨UInt8.le_iff_toNat_le.mpr hrange.1, UInt8.lt_iff_toNat_lt.mpr hrange.2⟩
  rw [HeaderValue.toStr, if_pos htext, hbytes, List.map_map]
  have hback :
      text.map ((fun byte : UInt8 => Char.ofNat byte.toNat) ∘ fun c => c.toNat.toUInt8) =
        text := by
    refine (List.map_congr_left fun c hc => ?_).trans (List.map_id text)
    rw [Function.comp_apply, hbyte c hc]
    exact Char.ofNat_toNat c
  rw [hback]

theorem encodeUtf8_injective
    {left right : List Char}
    (hbytes : encodeUtf8 left = encodeUtf8 right) :
    left = right := by
  have hdecoded := congrArg decodeUtf8 hbytes
  rw [decodeUtf8_encodeUtf8, decodeUtf8_encodeUtf8] at hdecoded
  exact Option.some.inj hdecoded

/-- What a plain key leaves behind when it is trimmed. -/
theorem PlainKey.trimChars_ne_nil
    {key : String}
    (hkey : PlainKey key) :
    trimChars key.toList ≠ [] := by
  intro hnil
  obtain ⟨c, hc, hvisible⟩ := hkey.visible
  have hblank := trimBlank_eq_nil_iff.mp
    (show trimBlank isWhitespace key.toList = [] from hnil) c hc
  exact hvisible ((isWhitespace_of_printable (hkey.printable c hc)).mp hblank)

theorem PlainKey.trim_ne_empty
    {key : String}
    (hkey : PlainKey key) :
    trim key ≠ "" := by
  intro hempty
  refine hkey.trimChars_ne_nil ?_
  rw [← String.toList_ofList (l := trimChars key.toList)]
  exact congrArg String.toList hempty

/-- A request that presents a plain key is judged by the trimmed key. -/
theorem PlainKey.effectiveKey
    {key : String}
    {request : HttpRequest}
    (hkey : PlainKey key)
    (hpresents : PresentsKey request key) :
    EffectiveKey request (trimChars key.toList) := by
  have hholds : HoldsKey key.toList (trimChars key.toList) := by
    refine (nonBlank_eq_some_iff _ _).mp ?_
    rw [nonBlank, if_neg (by simpa using hkey.trimChars_ne_nil)]
  exact Or.inl ⟨_, key.toList, hpresents, toStr_encodeUtf8 hkey.printable, hholds⟩

/-! ## Lists of keys -/

/-- An effective key has no white space at its ends. -/
theorem EffectiveKey.holds
    {request : HttpRequest}
    {key : List Char}
    (heffective : EffectiveKey request key) :
    ∃ text, HoldsKey text key := by
  rcases heffective with ⟨_, text, _, _, hkey⟩ | ⟨_, _, token, _, _, hkey⟩
  · exact ⟨text, hkey⟩
  · exact ⟨token, hkey⟩

theorem EffectiveKey.trim_eq
    {request : HttpRequest}
    {key : List Char}
    (heffective : EffectiveKey request key) :
    trim (String.ofList key) = String.ofList key := by
  obtain ⟨text, hkey⟩ := heffective.holds
  rw [trim, String.toList_ofList]
  exact congrArg String.ofList
    (show trimBlank isWhitespace key = key from trimBlank_of_trimmed hkey.trimmed)

/-- A request is judged by one key. -/
theorem effectiveKey_unique
    {request : HttpRequest}
    {key other : List Char}
    (hkey : EffectiveKey request key)
    (hother : EffectiveKey request other) :
    key = other := by
  rw [← requestApiKey_iff] at hkey hother
  rw [hkey] at hother
  exact Option.some.inj hother

theorem presentsAcceptedKey_iff_mem
    {request : HttpRequest}
    {key : List Char}
    (heffective : EffectiveKey request key)
    (keys : List String) :
    presentsAcceptedKey keys request = true ↔ String.ofList key ∈ keys := by
  rw [presentsAcceptedKey_iff]
  constructor
  · rintro ⟨other, hother, expected, hexpected, hbytes⟩
    rw [effectiveKey_unique heffective hother, encodeUtf8_injective hbytes,
      String.ofList_toList]
    exact hexpected
  · intro hmem
    refine ⟨key, heffective, _, hmem, ?_⟩
    rw [String.toList_ofList]

/-- Requests that are no probes, for a list that is not empty. -/
theorem forwards_iff_mem
    {request : HttpRequest}
    {key : List Char}
    {keys : List String}
    (hne : keys ≠ [])
    (hprobe : isProbePath request.path = false)
    (heffective : EffectiveKey request key) :
    Forwards keys request ↔ String.ofList key ∈ keys := by
  rw [forwards_iff, presentsAcceptedKey_iff_mem heffective, hprobe]
  constructor
  · rintro (hnil | hfalse | hmem)
    · exact absurd hnil hne
    · cases hfalse
    · exact hmem
  · exact fun hmem => Or.inr (Or.inr hmem)

/-- Two lists with the same trimmed keys admit the same requests. -/
theorem forwards_congr
    {keys others : List String}
    (hnil : keys = [] ↔ others = [])
    (hmem : ∀ key, trim key = key → (key ∈ keys ↔ key ∈ others))
    (request : HttpRequest) :
    Forwards keys request ↔ Forwards others request := by
  have haccepted :
      presentsAcceptedKey keys request = true ↔
        presentsAcceptedKey others request = true := by
    cases hkey : requestApiKey request with
    | none =>
        simp only [presentsAcceptedKey, hkey, Option.any_none]
    | some key =>
        have heffective := (requestApiKey_iff request key).mp hkey
        rw [presentsAcceptedKey_iff_mem heffective, presentsAcceptedKey_iff_mem heffective]
        exact hmem _ heffective.trim_eq
  rw [forwards_iff, forwards_iff, hnil, haccepted]

/-! ## The two ways of configuring keys -/

/-- A request that presents `key` and is no probe. -/
def keyRequest (key : String) : HttpRequest where
  method := "POST"
  path := "/v1/infer"
  headers := [("x-api-key", encodeUtf8 key.toList)]
  checkedAt := 0
  outlastsTimeout := false

/--
Plain keys mean the same in the file and in the variable, and admit those who
present them, exactly when the list has, for each key, also its trimmed form.
-/
theorem apiKeys_usable_iff
    (keys : List String)
    (fileEnv variableEnv : Environment)
    (serverApiKeys : Option (List String))
    (hplain : ∀ key ∈ keys, PlainKey key)
    (hunset : fileEnv "API_KEYS" = none)
    (hjoined : variableEnv "API_KEYS" = some (",".intercalate keys)) :
    KeysUsable keys (loadApiKeys fileEnv (some keys))
        (loadApiKeys variableEnv serverApiKeys) ↔
      ∀ key ∈ keys, trim key ∈ keys := by
  rw [loadApiKeys_of_unset hunset,
    loadApiKeys_of_joined hjoined (fun key hkey => (hplain key hkey).commaFree)
      (fun key hkey => (hplain key hkey).trim_ne_empty)]
  constructor
  · rintro ⟨-, hadmits⟩ key hkey
    have heffective : EffectiveKey (keyRequest key) (trimChars key.toList) :=
      (hplain key hkey).effectiveKey rfl
    have hforwards := (hadmits key hkey (keyRequest key) rfl).1
    exact (forwards_iff_mem (List.ne_nil_of_mem hkey) (by rfl) heffective).mp hforwards
  · intro htrimmed
    have hsame : ∀ request, Forwards keys request ↔ Forwards (keys.map trim) request := by
      refine forwards_congr List.map_eq_nil_iff.symm fun key htrim => ?_
      constructor
      · exact fun hmem => List.mem_map.mpr ⟨key, hmem, htrim⟩
      · intro hmem
        obtain ⟨original, horiginal, rfl⟩ := List.mem_map.mp hmem
        exact htrimmed original horiginal
    have hadmits : ∀ key ∈ keys, ∀ request, PresentsKey request key →
        Forwards keys request := by
      intro key hkey request hpresents
      refine (forwards_iff keys request).mpr (Or.inr (Or.inr ?_))
      exact (presentsAcceptedKey_iff_mem
        ((hplain key hkey).effectiveKey hpresents) keys).mpr (htrimmed key hkey)
    exact ⟨hsame, fun key hkey request hpresents =>
      ⟨hadmits key hkey request hpresents,
        (hsame request).mp (hadmits key hkey request hpresents)⟩⟩

/-- A plain key is recognized by a run over its characters. -/
theorem plainKey_of_all
    {key : String}
    (hall : key.toList.all (fun c => decide (32 ≤ c.toNat ∧ c.toNat < 127 ∧ c ≠ ',')) = true)
    (hvisible : key.toList.any (fun c => decide (c ≠ ' ')) = true) :
    PlainKey key := by
  have heach := fun c hc => of_decide_eq_true (List.all_eq_true.mp hall c hc)
  refine ⟨fun c hc => ⟨(heach c hc).1, (heach c hc).2.1⟩, ?_, ?_⟩
  · exact fun hc => (heach ',' hc).2.2 rfl
  · obtain ⟨c, hc, hne⟩ := List.any_eq_true.mp hvisible
    exact ⟨c, hc, of_decide_eq_true hne⟩

/-- A key with spaces around it, beside its trimmed form. -/
theorem apiKeys_usable_iff_padded_twice :
    KeysUsable [" one ", "one"] (loadApiKeys (fun _ => none) (some [" one ", "one"]))
        (loadApiKeys (fun _ => some " one ,one") none) ↔
      ∀ key ∈ [" one ", "one"], trim key ∈ [" one ", "one"] :=
  apiKeys_usable_iff [" one ", "one"] (fun _ => none) (fun _ => some " one ,one") none
    (by
      intro key hkey
      rcases List.mem_cons.mp hkey with rfl | hkey
      · exact plainKey_of_all (by decide) (by decide)
      · cases List.mem_singleton.mp hkey
        exact plainKey_of_all (by decide) (by decide))
    rfl (by decide)

/-- The one key `" one "` of the file admits nobody, the same variable does. -/
theorem apiKeys_padded_refused :
    PlainKey " one " ∧
    PresentsKey (keyRequest " one ") " one " ∧
    ¬ Forwards (loadApiKeys (fun _ => none) (some [" one "])) (keyRequest " one ") ∧
    Forwards (loadApiKeys (fun _ => some " one ") none) (keyRequest " one ") ∧
    ¬ KeysUsable [" one "] (loadApiKeys (fun _ => none) (some [" one "]))
      (loadApiKeys (fun _ => some (",".intercalate [" one "])) none) := by
  have hrefused :
      ¬ Forwards (loadApiKeys (fun _ => none) (some [" one "])) (keyRequest " one ") := by
    intro hforwards
    have hanswer := hforwards routed (RateLimiter.new 0)
    revert hanswer
    decide
  have hadmitted :
      Forwards (loadApiKeys (fun _ => some " one ") none) (keyRequest " one ") :=
    fun next window => rfl
  refine ⟨plainKey_of_all (by decide) (by decide), rfl, hrefused, hadmitted, ?_⟩
  exact fun husable => hrefused (husable.2 _ List.mem_cons_self (keyRequest " one ") rfl).1

end FlorenceServer
