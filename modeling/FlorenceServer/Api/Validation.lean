import Mathlib.Tactic
import FlorenceServer.Lib.IpAddr
import FlorenceServer.Api.Submit

/-!
# Webhook URLs

`validate_webhook_url` of `api/submit/validation.rs`.  Parsing a URL is a
parameter, and so is the text of an IPv6 address between its brackets; the host
text is what `host_str` gives, and it is read a second time as an IP address.

* `webhook_guard_iff`: the guard keeps private and local addresses out exactly
  for IPv4 hosts.  The brackets of an IPv6 host hide the address from the second
  parser, so every IPv6 host is taken for a name.
-/

namespace FlorenceServer

/-- The host of a URL, as its parser classifies it. -/
inductive UrlHost where
  | domain (name : String)
  | ipv4 (address : Ipv4Addr)
  | ipv6 (address : Ipv6Addr)
deriving DecidableEq, Repr

/-- `url::Url`, as far as the validation reads it. -/
structure ParsedUrl where
  scheme : String
  username : String
  password : Option String
  fragment : Option String
  host : Option UrlHost
  /-- The serialised URL, `to_string`. -/
  text : String
deriving DecidableEq, Repr

/-- The URL crate: its parser, with the texts of its errors, and its IPv6 texts. -/
structure UrlParser where
  parse : String → Except String ParsedUrl
  ipv6Text : Ipv6Addr → List Char

/-- `Url::host_str`: an IPv6 address keeps its brackets. -/
def UrlParser.hostStr (parser : UrlParser) : UrlHost → List Char
  | .domain name => name.toList
  | .ipv4 address => address.text
  | .ipv6 address => '[' :: (parser.ipv6Text address ++ [']'])

section Addresses

/-- `ipv4_is_private_or_local`. -/
def ipv4IsPrivateOrLocal (ip : Ipv4Addr) : Bool :=
  ip.isPrivate || ip.isLoopback || ip.isLinkLocal || ip.isBroadcast ||
    ip.isDocumentation || ip.isUnspecified || ip.a == 0

/-- `ipv6_is_private_or_local`. -/
def ipv6IsPrivateOrLocal (ip : Ipv6Addr) : Bool :=
  ip.isLoopback || ip.isUnspecified || ip.isUniqueLocal || ip.isUnicastLinkLocal ||
    ip.toIpv4Mapped.any ipv4IsPrivateOrLocal

/-- `ip_is_private_or_local`. -/
def ipIsPrivateOrLocal : IpAddr → Bool
  | .v4 ip => ipv4IsPrivateOrLocal ip
  | .v6 ip => ipv6IsPrivateOrLocal ip

end Addresses

section Validation

/-- `private_webhook_url_error`. -/
def privateWebhookUrlError : ApiError :=
  .badRequest ("webhook_url targets a private or local address; " ++
    "set allow_private_webhook_urls for trusted deployments")

/-- `str::trim_end_matches('.')` and `to_ascii_lowercase`. -/
def normalizedHostName (host : List Char) : List Char :=
  (host.reverse.dropWhile (fun c => c == '.')).reverse.map Char.toLower

/-- `validate_public_webhook_host`. -/
def validatePublicWebhookHost (parser : UrlParser) (url : ParsedUrl) : Except ApiError Unit :=
  match url.host.map parser.hostStr with
  | none => .error (.badRequest "webhook_url must include a host")
  | some host =>
      match parseIpAddr host with
      | some ip =>
          if ipIsPrivateOrLocal ip then .error privateWebhookUrlError else .ok ()
      | none =>
          let host := normalizedHostName host
          if host = "localhost".toList ∨ ".localhost".toList <:+ host then
            .error privateWebhookUrlError
          else
            .ok ()

/-- `validate_webhook_url`; a blank URL counts as none. -/
def validateWebhookUrl (parser : UrlParser) (allowPrivateWebhookUrls : Bool)
    (webhookUrl : Option String) : Except ApiError (Option String) :=
  match webhookUrl.map trim with
  | none => .ok none
  | some webhookUrl =>
      if webhookUrl.isEmpty then
        .ok none
      else
        match parser.parse webhookUrl with
        | .error err => .error (.badRequest ("invalid webhook_url: " ++ err))
        | .ok parsed =>
            if parsed.scheme ≠ "http" ∧ parsed.scheme ≠ "https" then
              .error (.badRequest ("unsupported webhook_url scheme `" ++ parsed.scheme ++
                "`; expected http or https"))
            else if parsed.username ≠ "" ∨ parsed.password.isSome then
              .error (.badRequest "webhook_url must not include credentials")
            else if parsed.fragment.isSome then
              .error (.badRequest "webhook_url must not include a fragment")
            else if allowPrivateWebhookUrls then
              .ok (some parsed.text)
            else
              (validatePublicWebhookHost parser parsed).map (fun _ => some parsed.text)

end Validation

section Guard

variable (parser : UrlParser)

/-- The address of a host that is an IP literal. -/
def UrlHost.address : UrlHost → Option IpAddr
  | .domain _ => none
  | .ipv4 ip => some (.v4 ip)
  | .ipv6 ip => some (.v6 ip)

/-- An `http` or `https` URL without credentials and fragment. -/
structure ParsedUrl.Plain (url : ParsedUrl) : Prop where
  scheme_eq : url.scheme = "http" ∨ url.scheme = "https"
  username_empty : url.username = ""
  password_none : url.password = none
  fragment_none : url.fragment = none

/-- For a plain URL only the host decides. -/
theorem validateWebhookUrl_plain
    {text : String} {url : ParsedUrl}
    (htext : trim text ≠ "")
    (hparse : parser.parse (trim text) = .ok url)
    (hplain : url.Plain) :
    validateWebhookUrl parser false (some text) =
      (validatePublicWebhookHost parser url).map (fun _ => some url.text) := by
  have hempty : (trim text).isEmpty = false := by simpa using htext
  have hscheme : ¬ (url.scheme ≠ "http" ∧ url.scheme ≠ "https") := by
    rcases hplain.scheme_eq with h | h <;> simp [h]
  have hcredentials : ¬ (url.username ≠ "" ∨ url.password.isSome = true) := by
    simp [hplain.username_empty, hplain.password_none]
  have hfragment : ¬ url.fragment.isSome = true := by
    simp [hplain.fragment_none]
  simp only [validateWebhookUrl, Option.map_some, hempty, Bool.false_eq_true, if_false, hparse,
    hscheme, hcredentials, hfragment]

theorem validatePublicWebhookHost_ipv4
    {url : ParsedUrl} {ip : Ipv4Addr} (hhost : url.host = some (.ipv4 ip)) :
    validatePublicWebhookHost parser url =
      if ipv4IsPrivateOrLocal ip = true then .error privateWebhookUrlError else .ok () := by
  simp only [validatePublicWebhookHost, hhost, Option.map_some, UrlParser.hostStr,
    parseIpAddr_ipv4Text, ipIsPrivateOrLocal]
  rfl

theorem normalizedHostName_bracket (text : List Char) :
    normalizedHostName ('[' :: (text ++ [']'])) = '[' :: (text.map Char.toLower ++ [']']) := by
  have hopen : Char.toLower '[' = '[' := by decide
  have hclose : Char.toLower ']' = ']' := by decide
  simp [normalizedHostName, hopen, hclose]

/-- With its brackets no IPv6 address is read as one, and none looks like `localhost`. -/
theorem validatePublicWebhookHost_ipv6
    {url : ParsedUrl} {ip : Ipv6Addr} (hhost : url.host = some (.ipv6 ip)) :
    validatePublicWebhookHost parser url = .ok () := by
  simp only [validatePublicWebhookHost, hhost, Option.map_some, UrlParser.hostStr,
    parseIpAddr_bracket, normalizedHostName_bracket]
  refine if_neg ?_
  rintro (heq | hsuffix)
  · exact absurd (List.cons.inj heq).1 (by decide)
  · rw [← List.cons_append] at hsuffix
    obtain ⟨front, hfront⟩ := hsuffix
    have hlast := congrArg List.getLast? hfront
    rw [List.getLast?_append_of_ne_nil _ (by decide), List.getLast?_concat] at hlast
    exact absurd hlast (by decide)

/--
A plain URL with an IP literal as its host is accepted only with a public
address, exactly if the host is an IPv4 literal or the IPv6 literal of an
address that is neither private nor local.
-/
theorem webhook_guard_iff
    (parser : UrlParser) (text : String) (url : ParsedUrl) (ip : IpAddr)
    (htext : trim text ≠ "")
    (hparse : parser.parse (trim text) = .ok url)
    (hplain : url.Plain)
    (hhost : url.host.bind UrlHost.address = some ip) :
    ((∃ accepted, validateWebhookUrl parser false (some text) = .ok accepted) →
        ipIsPrivateOrLocal ip = false) ↔
      (∃ ipv4, ip = .v4 ipv4) ∨ (∃ ipv6, ip = .v6 ipv6 ∧ ipv6IsPrivateOrLocal ipv6 = false) := by
  rw [validateWebhookUrl_plain parser htext hparse hplain]
  obtain ⟨host, hsome, haddress⟩ := Option.bind_eq_some_iff.mp hhost
  cases host with
  | domain name =>
      cases haddress
  | ipv4 ipv4 =>
      obtain rfl := Option.some.inj haddress
      rw [validatePublicWebhookHost_ipv4 parser hsome]
      refine ⟨fun _ => Or.inl ⟨ipv4, rfl⟩, fun _ => ?_⟩
      rintro ⟨accepted, haccepted⟩
      cases hprivate : ipv4IsPrivateOrLocal ipv4 with
      | false =>
          exact hprivate
      | true =>
          rw [if_pos hprivate] at haccepted
          cases haccepted
  | ipv6 ipv6 =>
      obtain rfl := Option.some.inj haddress
      rw [validatePublicWebhookHost_ipv6 parser hsome]
      constructor
      · exact fun hguard => Or.inr ⟨ipv6, rfl, hguard ⟨some url.text, rfl⟩⟩
      · rintro (⟨ipv4, hv4⟩ | ⟨ipv6', hv6, hpublic⟩)
        · cases hv4
        · cases hv6
          exact fun _ => hpublic

/-- A parser that knows the URLs of one IPv4 and one IPv6 literal. -/
def loopbackParser : UrlParser where
  parse := fun text =>
    if text = "http://127.0.0.1/hook" then
      .ok ⟨"http", "", none, none, some (.ipv4 ⟨127, 0, 0, 1⟩), "http://127.0.0.1/hook"⟩
    else if text = "http://[::1]/hook" then
      .ok ⟨"http", "", none, none, some (.ipv6 ⟨0, 0, 0, 0, 0, 0, 0, 1⟩), "http://[::1]/hook"⟩
    else
      .error "relative URL without a base"
  ipv6Text := fun ip => if ip = ⟨0, 0, 0, 0, 0, 0, 0, 1⟩ then "::1".toList else "::".toList

theorem webhook_guard_iff_sample :
    ((∃ accepted, validateWebhookUrl loopbackParser false (some " http://127.0.0.1/hook ") =
          .ok accepted) →
        ipIsPrivateOrLocal (.v4 ⟨127, 0, 0, 1⟩) = false) ↔
      (∃ ipv4, IpAddr.v4 ⟨127, 0, 0, 1⟩ = .v4 ipv4) ∨
        (∃ ipv6, IpAddr.v4 ⟨127, 0, 0, 1⟩ = .v6 ipv6 ∧ ipv6IsPrivateOrLocal ipv6 = false) :=
  webhook_guard_iff loopbackParser " http://127.0.0.1/hook "
    ⟨"http", "", none, none, some (.ipv4 ⟨127, 0, 0, 1⟩), "http://127.0.0.1/hook"⟩
    (.v4 ⟨127, 0, 0, 1⟩) (by decide +kernel) (by decide +kernel)
    ⟨Or.inl rfl, rfl, rfl, rfl⟩ rfl

/-- The loopback address of IPv6 is accepted. -/
theorem webhook_guard_misses_ipv6_loopback :
    validateWebhookUrl loopbackParser false (some "http://[::1]/hook") =
        .ok (some "http://[::1]/hook") ∧
      ipIsPrivateOrLocal (.v6 ⟨0, 0, 0, 0, 0, 0, 0, 1⟩) = true := by
  decide +kernel

end Guard

end FlorenceServer
