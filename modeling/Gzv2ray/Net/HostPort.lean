import Gzv2ray.Net.Address
import Mathlib.Data.List.Infix

/-!
# Hosts and ports

The text of a host and maybe a port, as HTTP has it: `splitHostPort` cuts it at
the colon, as `net.SplitHostPort` does, `parseUint` reads the port, as
`strconv.ParseUint` does in any base, and `parseHost` makes a destination of
both.
-/

namespace Gzv2ray

/-! ## Splitting -/

/-- An error about an address: `net.AddrError`. -/
structure AddrError where
  err : Bytes
  addr : Bytes
  deriving DecidableEq

def missingPort : Bytes := ascii "missing port in address"

def tooManyColons : Bytes := ascii "too many colons in address"

def lastIndexByte (s : Bytes) (c : UInt8) : Option ℕ :=
  (s.reverse.idxOf? c).map fun i => s.length - 1 - i

/-- The host and the port of an address, in which no brackets are behind `j` and `k`. -/
def hostAndPort (hostport host : Bytes) (i j k : ℕ) : Except AddrError (Bytes × Bytes) :=
  if 0x5b ∈ hostport.drop j then .error ⟨ascii "unexpected '[' in address", hostport⟩
  else if 0x5d ∈ hostport.drop k then .error ⟨ascii "unexpected ']' in address", hostport⟩
  else .ok (host, hostport.drop (i + 1))

/-- The host and the port of `host:port` or `[host]:port`. -/
def splitHostPort (hostport : Bytes) : Except AddrError (Bytes × Bytes) :=
  -- The port starts after the last colon.
  match lastIndexByte hostport 0x3a with
  | none => .error ⟨missingPort, hostport⟩
  | some i =>
    if hostport.head? = some 0x5b then
      match hostport.idxOf? 0x5d with
      | none => .error ⟨ascii "missing ']' in address", hostport⟩
      | some last =>
        -- The first closing bracket has to be just before the last colon.
        if last + 1 = hostport.length then .error ⟨missingPort, hostport⟩
        else if last + 1 = i then hostAndPort hostport ((hostport.take last).drop 1) i 1 (last + 1)
        else if hostport[last + 1]? = some 0x3a then .error ⟨tooManyColons, hostport⟩
        else .error ⟨missingPort, hostport⟩
    else if 0x3a ∈ hostport.take i then .error ⟨tooManyColons, hostport⟩
    else hostAndPort hostport (hostport.take i) i 0 0

/-! ## White space -/

theorem trimLeft_of_forall {P : UInt8 → Bool} {chars : List Bytes} {t : Bytes}
    (h : ∀ s ∈ chars, ∃ c, s.head? = some c ∧ P c = false) (ht : ∀ c ∈ t, P c = true)
    (fuel : ℕ) : trimLeft chars fuel t = t := by
  have hfind : chars.find? (·.isPrefixOf t) = none := by
    refine List.find?_eq_none.2 fun s hs hp => ?_
    obtain ⟨c, hc, hno⟩ := h s hs
    have hmem : c ∈ t := (List.isPrefixOf_iff_prefix.1 hp).mem (List.mem_of_head? hc)
    rw [ht c hmem] at hno
    exact nomatch hno
  cases fuel with
  | zero => rfl
  | succ fuel => rw [trimLeft, hfind]

/-- Nothing is trimmed off characters with which no white space begins or ends. -/
theorem trimSpace_of_forall {P : UInt8 → Bool}
    (h : ∀ s ∈ spaces ++ spaces.map List.reverse, ∃ c, s.head? = some c ∧ P c = false) {t : Bytes}
    (ht : ∀ c ∈ t, P c = true) : trimSpace t = t := by
  have hleft := trimLeft_of_forall (fun s hs => h s (List.mem_append_left _ hs)) ht t.length
  have hright := trimLeft_of_forall (fun s hs => h s (List.mem_append_right _ hs))
    (fun c hc => ht c (List.mem_reverse.1 hc)) t.length
  rw [trimSpace, hleft, hright, List.reverse_reverse]

/-! ## Numbers -/

/-- The error of a number that is not one, or too large: `strconv.NumError`. -/
inductive NumError
  | errSyntax (num : Bytes)
  | errRange (num : Bytes)
  deriving DecidableEq

/-- A lower case letter, for any letter. -/
def lowerByte (c : UInt8) : UInt8 := c ||| 0x20

/-- The base of a number and its digits. The prefixes `0b`, `0o`, `0x` and `0` tell the base. -/
def parseBase (s : Bytes) : ℕ × Bytes :=
  if s.head? = some 0x30 then
    if 3 ≤ s.length ∧ lowerByte (s.getD 1 0) = 0x62 then (2, s.drop 2)
    else if 3 ≤ s.length ∧ lowerByte (s.getD 1 0) = 0x6f then (8, s.drop 2)
    else if 3 ≤ s.length ∧ lowerByte (s.getD 1 0) = 0x78 then (16, s.drop 2)
    else (8, s.drop 1)
  else (10, s)

/-- What a digit or a letter counts. -/
def digitValue (c : UInt8) : Option ℕ :=
  if 0x30 ≤ c ∧ c ≤ 0x39 then some (c.toNat - 0x30)
  else if 0x61 ≤ lowerByte c ∧ lowerByte c ≤ 0x7a then some ((lowerByte c).toNat - 0x61 + 10)
  else none

/-- The character seen last: the beginning, a digit, an underscore or something else. -/
inductive Saw
  | start
  | digit
  | underscore
  | other
  deriving DecidableEq

/-- Every underscore of a number is between two digits. -/
def underscoresOK (hex : Bool) : Saw → Bytes → Bool
  | saw, [] => saw != .underscore
  | saw, c :: s =>
    if (0x30 ≤ c ∧ c ≤ 0x39) ∨ (hex ∧ 0x61 ≤ lowerByte c ∧ lowerByte c ≤ 0x66) then
      underscoresOK hex .digit s
    else if c = 0x5f then saw = .digit && underscoresOK hex .underscore s
    else saw ≠ .underscore && underscoresOK hex .other s

/-- The underscores of a number separate digits. A prefix counts as a digit. -/
def underscoreOK (s : Bytes) : Bool :=
  let s := if s.head? = some 0x2d ∨ s.head? = some 0x2b then s.drop 1 else s
  let c := lowerByte (s.getD 1 0)
  if 2 ≤ s.length ∧ s.head? = some 0x30 ∧ (c = 0x62 ∨ c = 0x6f ∨ c = 0x78) then
    underscoresOK (c = 0x78) .digit (s.drop 2)
  else underscoresOK false .start s

/-- Reads the digits one by one. -/
def parseDigits (num : Bytes) (base maxVal : ℕ) : ℕ → Bytes → Except NumError ℕ
  | n, [] => .ok n
  | n, c :: s =>
    if c = 0x5f then parseDigits num base maxVal n s
    else
      match digitValue c with
      | none => .error (.errSyntax num)
      | some d =>
        if base ≤ d then .error (.errSyntax num)
        else if maxVal < n * base + d then .error (.errRange num)
        else parseDigits num base maxVal (n * base + d) s

/-- A number of as many bits, in the base that its prefix tells. -/
def parseUint (s : Bytes) (bitSize : ℕ) : Except NumError ℕ :=
  if s = [] then .error (.errSyntax s)
  else
    let (base, digits) := parseBase s
    match parseDigits s base (2 ^ bitSize - 1) 0 digits with
    | .error e => .error e
    | .ok n => if 0x5f ∈ digits ∧ !underscoreOK s then .error (.errSyntax s) else .ok n

/-! ## Hosts -/

/-- Why a host is not parsed. -/
inductive HostError
  | addr (e : AddrError)
  | num (e : NumError)
  deriving DecidableEq

def tcpDestination (address : Address) (port : UInt16) : Destination :=
  { address := some address, port, network := .tcp }

variable (parseIP : Bytes → Option IPv6)

/-- The destination of a raw host, with the default port if it has none. -/
def parseHost (rawHost : Bytes) (defaultPort : UInt16) : Except HostError Destination :=
  match splitHostPort rawHost with
  | .error e =>
    if ascii "missing port" <:+: e.err then
      .ok (tcpDestination (parseAddress parseIP rawHost) defaultPort)
    else .error (.addr e)
  | .ok (host, rawPort) =>
    if rawPort = [] then .ok (tcpDestination (parseAddress parseIP host) defaultPort)
    else
      match parseUint rawPort 16 with
      | .error e => .error (.num e)
      | .ok intPort => .ok (tcpDestination (parseAddress parseIP host) (UInt16.ofNat intPort))

end Gzv2ray
