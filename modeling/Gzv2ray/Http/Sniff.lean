import Gzv2ray.Lib.Lines
import Gzv2ray.Net.HostPort

/-!
# Sniffing HTTP

The host that is sniffed from the first bytes of a connection. The bytes must
begin with a method; the lines behind the first one are scanned for Host
headers, up to an empty line, and the host of the last one is kept.

* `beginWithHTTPMethod`, `sniffHTTP`: the code;
* `hostValues`: what the scanner reads as Host headers, which is all that
  matters to it (`scanHeaders_eq`);
* `beginWith_ok`, `begins_of_ok`: which bytes begin with a method.
-/

namespace Gzv2ray.Http

def lf : UInt8 := 0x0a

def cr : UInt8 := 0x0d

def colon : UInt8 := 0x3a

/-- What is taken from the standard library: `net.ParseIP`, the text of an IP address, and a text
    mapped by `unicode.ToLower`. -/
structure Library where
  parseIP : Bytes → Option IPv6
  ipString : Bytes → Bytes
  mapLower : Bytes → Bytes

/-! ## Texts -/

def lowerASCII (s : Bytes) : Bytes := s.map fun c => if 0x41 ≤ c ∧ c ≤ 0x5a then c + 0x20 else c

/-- Two texts of as many bytes are equal up to their cases, where one is ASCII: a letter that is
    not, but folds to one that is, has more than one byte. -/
def equalFold (s t : Bytes) : Bool := lowerASCII s = lowerASCII t

/-- `strings.ToLower` -/
def Library.toLower (lib : Library) (s : Bytes) : Bytes :=
  if s.all (· < 0x80) then lowerASCII s else lib.mapLower s

/-- The text of an address. -/
def Library.addressString (lib : Library) : Address → Bytes
  | .ipv4 ip => lib.ipString ip.1
  | .ipv6 ip => ascii "[" ++ lib.ipString ip.1 ++ ascii "]"
  | .domain name => name

/-! ## Methods -/

inductive SniffError
  /-- `common.ErrNoClue` -/
  | noClue
  /-- `errNotHTTPMethod` -/
  | notHTTPMethod
  | host (e : HostError)
  deriving DecidableEq

def methods : List Bytes :=
  [ascii "get", ascii "post", ascii "head", ascii "put", ascii "delete", ascii "options",
    ascii "connect"]

/-- The loop over the methods. -/
def beginWith (b : Bytes) : List Bytes → Except SniffError Unit
  | [] => .error .notHTTPMethod
  | m :: methods =>
    if m.length ≤ b.length ∧ equalFold (b.take m.length) m then .ok ()
    else if b.length < m.length then .error .noClue
    else beginWith b methods

def beginWithHTTPMethod (b : Bytes) : Except SniffError Unit := beginWith b methods

/-- The line begins with a method, in any case. -/
def HasMethod (line : Bytes) : Prop := ∃ m ∈ methods, m <+: lowerASCII line

instance (line : Bytes) : Decidable (HasMethod line) := inferInstanceAs (Decidable (∃ m ∈ _, _))

/-! ## The scanner -/

inductive Version
  | http1
  | http2
  deriving DecidableEq

structure SniffHeader where
  version : Version
  host : Bytes
  deriving DecidableEq

section

variable (lib : Library)

/-- The host of the value of a Host header. -/
def hostText (value : Bytes) : Except SniffError Bytes :=
  match parseHost lib.parseIP (lib.toLower (trimSpace value)) 80 with
  | .error e => .error (.host e)
  | .ok dest => .ok ((dest.address.map lib.addressString).getD [])

/-- The loop over the lines behind the first one. -/
def scanHeaders : List Bytes → Bytes → Except SniffError Bytes
  | [], host => .ok host
  | header :: headers, host =>
    if header = [] then .ok host
    else
      match cut colon header with
      | none => scanHeaders headers host
      | some (key, value) =>
        if lib.toLower key = ascii "host" then
          match hostText lib value with
          | .error e => .error e
          | .ok host => scanHeaders headers host
        else scanHeaders headers host

def sniffHTTP (b : Bytes) : Except SniffError SniffHeader :=
  match beginWithHTTPMethod b with
  | .error e => .error e
  | .ok () =>
    match scanHeaders lib (b.splitOn lf).tail [] with
    | .error e => .error e
    | .ok host => if host ≠ [] then .ok ⟨.http1, host⟩ else .error .noClue

/-! ## Host headers -/

/-- The value of a line that is a Host header. -/
def hostValue (header : Bytes) : Option Bytes :=
  match cut colon header with
  | none => none
  | some (key, value) => if lib.toLower key = ascii "host" then some value else none

/-- The values of the Host headers in the lines before an empty one. -/
def hostValues (headers : List Bytes) : List Bytes :=
  (headers.takeWhile (· ≠ [])).filterMap (hostValue lib)

/-- Reads Host headers one by one. The last one counts, but all have to be read. -/
def readHosts : List Bytes → Bytes → Except SniffError Bytes
  | [], host => .ok host
  | value :: values, _ =>
    match hostText lib value with
    | .error e => .error e
    | .ok host => readHosts values host

end

variable {lib : Library}

@[simp] theorem hostValues_nil_cons (headers : List Bytes) : hostValues lib ([] :: headers) = [] :=
  rfl

theorem hostValues_cons_none {header : Bytes} {headers : List Bytes} (hne : header ≠ [])
    (h : hostValue lib header = none) :
    hostValues lib (header :: headers) = hostValues lib headers := by
  rw [hostValues, List.takeWhile_cons_of_pos (by simpa using hne), List.filterMap_cons_none h,
    hostValues]

theorem hostValues_cons_some {header value : Bytes} {headers : List Bytes} (hne : header ≠ [])
    (h : hostValue lib header = some value) :
    hostValues lib (header :: headers) = value :: hostValues lib headers := by
  rw [hostValues, List.takeWhile_cons_of_pos (by simpa using hne), List.filterMap_cons_some h,
    hostValues]

/-- A header is looked at only as far as its Host value. -/
theorem scanHeaders_eq (headers : List Bytes) (host : Bytes) :
    scanHeaders lib headers host = readHosts lib (hostValues lib headers) host := by
  induction headers generalizing host with
  | nil => rfl
  | cons header headers ih =>
    rw [scanHeaders]
    split
    · next hnil => rw [hnil]; rfl
    · next hne =>
      split
      · next hcut => rw [hostValues_cons_none hne (by rw [hostValue, hcut]), ih]
      · next key value hcut =>
        split
        · next hkey =>
          rw [hostValues_cons_some hne (by rw [hostValue, hcut]; exact if_pos hkey), readHosts]
          cases hostText lib value with
          | error e => rfl
          | ok host => exact ih host
        · next hkey =>
          rw [hostValues_cons_none hne (by rw [hostValue, hcut]; exact if_neg hkey), ih]

/-- All Host headers being read, the last one counts. -/
theorem readHosts_ok {values : List Bytes} (h : ∀ value ∈ values, (hostText lib value).isOk)
    (host : Bytes) :
    readHosts lib values host = (values.getLast?.map (hostText lib)).getD (.ok host) := by
  induction values generalizing host with
  | nil => rfl
  | cons value values ih =>
    rw [List.forall_mem_cons] at h
    rw [readHosts]
    cases heq : hostText lib value with
    | error e => rw [heq] at h; exact nomatch h.1
    | ok text =>
      refine (ih h.2 text).trans ?_
      cases values with
      | nil => exact heq.symm
      | cons value' values => rw [List.getLast?_cons_cons, List.getLast?_cons]; rfl

/-- A Host header that is not read ends the scan. -/
theorem readHosts_error {values : List Bytes}
    (h : ∃ value ∈ values, (hostText lib value).isOk = false) (host : Bytes) : (readHosts lib values host).isOk = false := by
  obtain ⟨value, hmem, hvalue⟩ := h
  induction values generalizing host with
  | nil => exact nomatch hmem
  | cons value' values ih =>
    rw [readHosts]
    cases heq : hostText lib value' with
    | error e => rfl
    | ok text =>
      rcases List.mem_cons.1 hmem with rfl | hmem
      · rw [heq] at hvalue; exact nomatch hvalue
      · exact ih text hmem

/-! ## Beginning with a method -/

theorem lowerASCII_take (s : Bytes) (n : ℕ) : lowerASCII (s.take n) = (lowerASCII s).take n :=
  List.map_take

theorem lowerASCII_append (s t : Bytes) : lowerASCII (s ++ t) = lowerASCII s ++ lowerASCII t :=
  List.map_append

theorem length_lowerASCII (s : Bytes) : (lowerASCII s).length = s.length := List.length_map _

theorem lf_notMem_methods : ∀ m ∈ methods, lf ∉ m := by decide

theorem lowerASCII_methods : ∀ m ∈ methods, lowerASCII m = m := by decide

/-- No method is longer than a later one by two bytes. -/
theorem pairwise_methods : methods.Pairwise fun m m' => m.length ≤ m'.length + 1 := by decide

/-- What the loop compares is whether a method is a prefix. -/
theorem equalFold_take_iff {b m : Bytes} (hm : lowerASCII m = m) :
    (m.length ≤ b.length ∧ equalFold (b.take m.length) m = true) ↔ m <+: lowerASCII b := by
  rw [equalFold, decide_eq_true_iff, lowerASCII_take, hm]
  constructor
  · rintro ⟨-, h⟩
    exact List.prefix_iff_eq_take.2 h.symm
  · intro h
    exact ⟨length_lowerASCII b ▸ h.length_le, (List.prefix_iff_eq_take.1 h).symm⟩

theorem beginWith_ok {b m : Bytes} {ms : List Bytes} (hms : ∀ m ∈ ms, lowerASCII m = m)
    (hp : ms.Pairwise fun m m' => m.length ≤ m'.length + 1) (hm : m ∈ ms) (h : m <+: lowerASCII b)
    (hlt : m.length < b.length) : beginWith b ms = .ok () := by
  induction ms with
  | nil => exact nomatch hm
  | cons m' ms ih =>
    rw [List.forall_mem_cons] at hms
    rw [List.pairwise_cons] at hp
    rw [beginWith]
    by_cases hm' : m' <+: lowerASCII b
    · exact if_pos ((equalFold_take_iff hms.1).2 hm')
    rw [if_neg fun hlen => hm' ((equalFold_take_iff hms.1).1 hlen)]
    rcases List.mem_cons.1 hm with rfl | hm
    · exact absurd h hm'
    · rw [if_neg (by have := hp.1 m hm; omega)]
      exact ih hms.2 hp.2 hm

theorem beginWith_prefix {b : Bytes} {ms : List Bytes} (hms : ∀ m ∈ ms, lowerASCII m = m)
    (h : beginWith b ms = .ok ()) : ∃ m ∈ ms, m <+: lowerASCII b := by
  induction ms with
  | nil => exact nomatch h
  | cons m ms ih =>
    rw [List.forall_mem_cons] at hms
    rw [beginWith] at h
    split at h
    · next hm => exact ⟨m, List.mem_cons_self, (equalFold_take_iff hms.1).1 hm⟩
    · split at h
      · exact nomatch h
      · obtain ⟨m', hm', hp⟩ := ih hms.2 h
        exact ⟨m', List.mem_cons_of_mem m hm', hp⟩

/-- Bytes that go on behind a line that begins with a method begin with one. -/
theorem begins_of_hasMethod {line : Bytes} (h : HasMethod line) (rest : Bytes) :
    beginWithHTTPMethod (line ++ lf :: rest) = .ok () := by
  obtain ⟨m, hm, hp⟩ := h
  refine beginWith_ok lowerASCII_methods pairwise_methods hm ?_ ?_
  · rw [lowerASCII_append]
    exact hp.trans (List.prefix_append _ _)
  · have hle := hp.length_le
    rw [length_lowerASCII] at hle
    rw [List.length_append, List.length_cons]
    omega

/-- No method reaches beyond a line. -/
theorem hasMethod_of_begins {line rest p : Bytes} (hp : p <+: line ++ lf :: rest)
    (h : beginWithHTTPMethod p = .ok ()) : HasMethod line := by
  obtain ⟨m, hm, hmp⟩ := beginWith_prefix lowerASCII_methods h
  have hlower : m <+: lowerASCII line ++ lf :: lowerASCII rest := by
    refine hmp.trans ?_
    obtain ⟨u, hu⟩ := hp
    exact ⟨lowerASCII u, by rw [← lowerASCII_append, hu, lowerASCII_append]; rfl⟩
  rcases prefix_line hlower with hline | ⟨q, -, rfl⟩
  · exact ⟨m, hm, hline⟩
  · exact absurd (List.mem_append_right _ List.mem_cons_self) (lf_notMem_methods _ hm)

end Gzv2ray.Http
