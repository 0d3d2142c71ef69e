import Mathlib.Tactic

/-!
# IP addresses and their texts

The two address families of `std::net`, their classification, the dotted text of
an IPv4 address and the parser behind `IpAddr::from_str`.  The parser reads the
dotted text of every IPv4 address back, and it does not know the brackets that
an IPv6 address has in a URL.
-/

namespace FlorenceServer

/-- `Ipv4Addr`, by its octets. -/
structure Ipv4Addr where
  a : UInt8
  b : UInt8
  c : UInt8
  d : UInt8
deriving DecidableEq, Repr

/-- `Ipv6Addr`, by its segments. -/
structure Ipv6Addr where
  s0 : UInt16
  s1 : UInt16
  s2 : UInt16
  s3 : UInt16
  s4 : UInt16
  s5 : UInt16
  s6 : UInt16
  s7 : UInt16
deriving DecidableEq, Repr

inductive IpAddr where
  | v4 (address : Ipv4Addr)
  | v6 (address : Ipv6Addr)
deriving DecidableEq, Repr

namespace Ipv4Addr

def isPrivate (ip : Ipv4Addr) : Bool :=
  ip.a == 10 || (ip.a == 172 && 16 ≤ ip.b && ip.b ≤ 31) || (ip.a == 192 && ip.b == 168)

def isLoopback (ip : Ipv4Addr) : Bool :=
  ip.a == 127

def isLinkLocal (ip : Ipv4Addr) : Bool :=
  ip.a == 169 && ip.b == 254

def isBroadcast (ip : Ipv4Addr) : Bool :=
  ip == ⟨255, 255, 255, 255⟩

def isDocumentation (ip : Ipv4Addr) : Bool :=
  (ip.a == 192 && ip.b == 0 && ip.c == 2) ||
    (ip.a == 198 && ip.b == 51 && ip.c == 100) ||
    (ip.a == 203 && ip.b == 0 && ip.c == 113)

def isUnspecified (ip : Ipv4Addr) : Bool :=
  ip == ⟨0, 0, 0, 0⟩

/-- The `Display` form: four decimal numbers with dots between them. -/
def text (ip : Ipv4Addr) : List Char :=
  Nat.toDigits 10 ip.a.toNat ++ '.' :: (Nat.toDigits 10 ip.b.toNat ++
    '.' :: (Nat.toDigits 10 ip.c.toNat ++ '.' :: Nat.toDigits 10 ip.d.toNat))

end Ipv4Addr

namespace Ipv6Addr

def isLoopback (ip : Ipv6Addr) : Bool :=
  ip == ⟨0, 0, 0, 0, 0, 0, 0, 1⟩

def isUnspecified (ip : Ipv6Addr) : Bool :=
  ip == ⟨0, 0, 0, 0, 0, 0, 0, 0⟩

def isUniqueLocal (ip : Ipv6Addr) : Bool :=
  ip.s0 &&& 0xfe00 == 0xfc00

def isUnicastLinkLocal (ip : Ipv6Addr) : Bool :=
  ip.s0 &&& 0xffc0 == 0xfe80

/-- `to_ipv4_mapped`: the address behind `::ffff:0:0/96`. -/
def toIpv4Mapped (ip : Ipv6Addr) : Option Ipv4Addr :=
  if ip.s0 == 0 && ip.s1 == 0 && ip.s2 == 0 && ip.s3 == 0 && ip.s4 == 0 && ip.s5 == 0xffff then
    some ⟨(ip.s6 >>> 8).toUInt8, ip.s6.toUInt8, (ip.s7 >>> 8).toUInt8, ip.s7.toUInt8⟩
  else
    none

/-- The address of a list of segments. -/
def ofSegments (segments : List Nat) : Ipv6Addr :=
  let segment := fun index => UInt16.ofNat (segments.getD index 0)
  ⟨segment 0, segment 1, segment 2, segment 3, segment 4, segment 5, segment 6, segment 7⟩

end Ipv6Addr

section Parser

/-- `char::to_digit` for a radix up to sixteen. -/
def toDigit (radix : Nat) (c : Char) : Option Nat :=
  let value :=
    if c.isDigit then some (c.toNat - '0'.toNat)
    else if 'a' ≤ c ∧ c ≤ 'f' then some (c.toNat - 'a'.toNat + 10)
    else if 'A' ≤ c ∧ c ≤ 'F' then some (c.toNat - 'A'.toNat + 10)
    else none
  value.filter (fun digit => digit < radix)

/-- The digits at the front of a text, and the text behind them. -/
def readDigits (radix : Nat) : List Char → List Nat × List Char
  | [] => ([], [])
  | c :: text =>
      match toDigit radix c with
      | some digit => (digit :: (readDigits radix text).1, (readDigits radix text).2)
      | none => ([], c :: text)

/-- `read_number`: a number below `bound` with some digits, but not too many. -/
def readNumber (radix maxDigits bound : Nat) (allowZeroPrefix : Bool) (text : List Char) :
    Option (Nat × List Char) :=
  let digits := (readDigits radix text).1
  let value := digits.foldl (fun value digit => value * radix + digit) 0
  if maxDigits < digits.length || digits.isEmpty then
    none
  else if !allowZeroPrefix && text.head? == some '0' && 1 < digits.length then
    none
  else if value < bound then
    some (value, (readDigits radix text).2)
  else
    none

/-- `read_given_char`. -/
def readGivenChar (c : Char) : List Char → Option (List Char)
  | [] => none
  | d :: text => if d = c then some text else none

/-- An octet of `read_ipv4_addr`; leading zeros are not allowed. -/
def readOctet (text : List Char) : Option (Nat × List Char) :=
  readNumber 10 3 256 false text

/-- `read_ipv4_addr`. -/
def readIpv4Addr (text : List Char) : Option (Ipv4Addr × List Char) := do
  let (a, text) ← readOctet text
  let (b, text) ← (readGivenChar '.' text).bind readOctet
  let (c, text) ← (readGivenChar '.' text).bind readOctet
  let (d, text) ← (readGivenChar '.' text).bind readOctet
  pure (⟨UInt8.ofNat a, UInt8.ofNat b, UInt8.ofNat c, UInt8.ofNat d⟩, text)

/-- `read_separator(':', ..)`: only the first group has no colon in front. -/
def readColon (first : Bool) (text : List Char) : Option (List Char) :=
  if first then some text else readGivenChar ':' text

/--
`read_groups`: the groups read into that many slots, and whether the last two of
them are an embedded IPv4 address.
-/
def readGroups (first : Bool) : Nat → List Char → (List Nat × Bool) × List Char
  | 0, text => (([], false), text)
  | left + 1, text =>
      let embedded :=
        if 0 < left then (readColon first text).bind readIpv4Addr else none
      match embedded with
      | some (ip, rest) =>
          (([ip.a.toNat * 256 + ip.b.toNat, ip.c.toNat * 256 + ip.d.toNat], true), rest)
      | none =>
          match (readColon first text).bind (readNumber 16 4 65536 true) with
          | some (group, rest) =>
              let ((groups, ipv4), rest) := readGroups false left rest
              ((group :: groups, ipv4), rest)
          | none => (([], false), text)

/-- `read_ipv6_addr`. -/
def readIpv6Addr (text : List Char) : Option (Ipv6Addr × List Char) :=
  let ((head, headIpv4), rest) := readGroups true 8 text
  if head.length = 8 then
    some (Ipv6Addr.ofSegments head, rest)
  else if headIpv4 then
    none
  else
    match (readGivenChar ':' rest).bind (readGivenChar ':') with
    | none => none
    | some rest =>
        let ((tail, _), rest) := readGroups true (8 - (head.length + 1)) rest
        let zeros := List.replicate (8 - head.length - tail.length) 0
        some (Ipv6Addr.ofSegments (head ++ zeros ++ tail), rest)

/-- `read_ip_addr`. -/
def readIpAddr (text : List Char) : Option (IpAddr × List Char) :=
  ((readIpv4Addr text).map (fun read => (IpAddr.v4 read.1, read.2))).or
    ((readIpv6Addr text).map (fun read => (IpAddr.v6 read.1, read.2)))

/-- `IpAddr::from_str`: nothing may be left over. -/
def parseIpAddr (text : List Char) : Option IpAddr :=
  match readIpAddr text with
  | some (ip, []) => some ip
  | _ => none

example : parseIpAddr "2001:db8::ff:1.2.3.4".toList =
    some (.v6 ⟨0x2001, 0xdb8, 0, 0, 0, 0xff, 0x102, 0x304⟩) := by
  decide +kernel

example : parseIpAddr "127.0.0.01".toList = none := by
  decide +kernel

/-- The digits of a text do not depend on what follows them. -/
theorem readDigits_append
    {radix : Nat} (digits rest : List Char)
    (hdigits : (readDigits radix digits).2 = [])
    (hrest : ∀ c ∈ rest.head?, toDigit radix c = none) :
    readDigits radix (digits ++ rest) = ((readDigits radix digits).1, rest) := by
  induction digits with
  | nil =>
      cases rest with
      | nil => rfl
      | cons c rest =>
          have hc := hrest c rfl
          simp [readDigits, hc]
  | cons c digits ih =>
      cases hc : toDigit radix c with
      | none =>
          simp [readDigits, hc] at hdigits
      | some digit =>
          simp only [readDigits, hc] at hdigits
          simp [readDigits, hc, ih hdigits]

theorem readNumber_append
    {radix maxDigits bound value : Nat} {allowZeroPrefix : Bool} (digits rest : List Char)
    (hnumber : readNumber radix maxDigits bound allowZeroPrefix digits = some (value, []))
    (hrest : ∀ c ∈ rest.head?, toDigit radix c = none) :
    readNumber radix maxDigits bound allowZeroPrefix (digits ++ rest) = some (value, rest) := by
  unfold readNumber at hnumber ⊢
  dsimp only at hnumber ⊢
  split at hnumber
  · cases hnumber
  · rename_i hcount
    split at hnumber
    · cases hnumber
    · rename_i hzero
      split at hnumber
      · rename_i hbound
        obtain ⟨hvalue, hleft⟩ := Prod.mk.inj (Option.some.inj hnumber)
        rw [readDigits_append digits rest hleft hrest]
        have hne : digits ≠ [] := by
          rintro rfl
          simp [readDigits] at hcount
        rw [if_neg hcount, List.head?_append_of_ne_nil _ hne, if_neg hzero, if_pos hbound, hvalue]
      · cases hnumber

theorem readOctet_toDigits :
    ∀ octet : Fin 256, readOctet (Nat.toDigits 10 octet) = some (octet.val, []) := by
  decide +kernel

/-- An octet is read up to the dot behind it, or to the end. -/
theorem readOctet_append
    (octet : UInt8) (rest : List Char)
    (hrest : ∀ c ∈ rest.head?, c = '.') :
    readOctet (Nat.toDigits 10 octet.toNat ++ rest) = some (octet.toNat, rest) := by
  refine readNumber_append _ _ (readOctet_toDigits ⟨octet.toNat, octet.toNat_lt⟩) ?_
  intro c hc
  rw [hrest c hc]
  decide

/-- `from_str` reads the dotted text of an IPv4 address back. -/
theorem parseIpAddr_ipv4Text (ip : Ipv4Addr) :
    parseIpAddr ip.text = some (.v4 ip) := by
  have hdot : ∀ (octet : UInt8) (rest : List Char),
      readOctet (Nat.toDigits 10 octet.toNat ++ '.' :: rest) = some (octet.toNat, '.' :: rest) :=
    fun octet rest => readOctet_append octet ('.' :: rest) (by simp)
  have hlast : readOctet (Nat.toDigits 10 ip.d.toNat) = some (ip.d.toNat, []) := by
    simpa using readOctet_append ip.d [] (by simp)
  have hread : readIpv4Addr ip.text = some (ip, []) := by
    simp [readIpv4Addr, Ipv4Addr.text, hdot, hlast, readGivenChar]
  simp [parseIpAddr, readIpAddr, hread]

/-- `from_str` does not know brackets. -/
theorem parseIpAddr_bracket (text : List Char) :
    parseIpAddr ('[' :: text) = none := by
  have hten : toDigit 10 '[' = none := by decide
  have hsixteen : toDigit 16 '[' = none := by decide
  have hv4 : readIpv4Addr ('[' :: text) = none := by
    simp [readIpv4Addr, readOctet, readNumber, readDigits, hten]
  have hv6 : readIpv6Addr ('[' :: text) = none := by
    simp [readIpv6Addr, readGroups, readColon, hv4, readNumber, readDigits, hsixteen,
      readGivenChar]
  simp [parseIpAddr, readIpAddr, hv4, hv6]

end Parser

section SocketAddresses

/-- `SocketAddr`; a text never sets the flow information of an IPv6 address. -/
inductive SocketAddr where
  | v4 (address : Ipv4Addr) (port : UInt16)
  | v6 (address : Ipv6Addr) (scopeId : UInt32) (port : UInt16)
deriving DecidableEq, Repr

/-- `read_port`. -/
def readPort (text : List Char) : Option (UInt16 × List Char) := do
  let text ← readGivenChar ':' text
  let (port, text) ← readNumber 10 text.length 65536 true text
  pure (UInt16.ofNat port, text)

/-- `read_scope_id`. -/
def readScopeId (text : List Char) : Option (UInt32 × List Char) := do
  let text ← readGivenChar '%' text
  let (scopeId, text) ← readNumber 10 text.length (2 ^ 32) true text
  pure (UInt32.ofNat scopeId, text)

/-- `read_socket_addr_v4`. -/
def readSocketAddrV4 (text : List Char) : Option (SocketAddr × List Char) := do
  let (address, text) ← readIpv4Addr text
  let (port, text) ← readPort text
  pure (.v4 address port, text)

/-- `read_socket_addr_v6`. -/
def readSocketAddrV6 (text : List Char) : Option (SocketAddr × List Char) := do
  let text ← readGivenChar '[' text
  let (address, text) ← readIpv6Addr text
  let (scopeId, text) := (readScopeId text).getD (0, text)
  let text ← readGivenChar ']' text
  let (port, text) ← readPort text
  pure (.v6 address scopeId port, text)

/-- `SocketAddr::from_str`. -/
def parseSocketAddr (text : List Char) : Option SocketAddr :=
  match (readSocketAddrV4 text).or (readSocketAddrV6 text) with
  | some (address, []) => some address
  | _ => none

example : parseSocketAddr "[fe80::1%7]:3000".toList =
    some (.v6 ⟨0xfe80, 0, 0, 0, 0, 0, 0, 1⟩ 7 3000) := by
  decide +kernel

example : parseSocketAddr "localhost:3000".toList = none := by
  decide +kernel

end SocketAddresses

end FlorenceServer
