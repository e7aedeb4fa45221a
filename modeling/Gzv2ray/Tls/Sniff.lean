import Gzv2ray.Buf.Reader
import Gzv2ray.Lib.BigEndian

/-!
# Sniffing TLS

The server name that is sniffed from the first record of a connection. Lengths within lengths
are read from it, and a slice out of the bounds of the one before would be a panic.

* `sniffTLS`: the code, whose loops are `readNames` and `readExtensions`;
* `sniffTLS_ne_panic`: it never panics;
* `ClientHello.record`: the records of client hellos with a server name;
* `sniffTLS_spec`: it finds the name in such a record, and has no clue before all of it is there.
-/

namespace Gzv2ray.Tls

/-- `common.ErrNoClue` -/
def errNoClue : Error := .new (ascii "not enough information for making a decision")

def errNotTLS : Error := .new (ascii "not TLS header")

def errNotClientHello : Error := .new (ascii "not client hello")

/-! ## Slices -/

def index (data : Bytes) (i : ℕ) : Outcome UInt8 :=
  match data[i]? with
  | some b => .ok b
  | none => .panic

def sliceFrom (data : Bytes) (n : ℕ) : Outcome Bytes :=
  if n ≤ data.length then .ok (data.drop n) else .panic

def sliceTo (data : Bytes) (n : ℕ) : Outcome Bytes :=
  if n ≤ data.length then .ok (data.take n) else .panic

/-- The number on two bytes. -/
def uint16 (data : Bytes) (i : ℕ) : Outcome ℕ := do
  let high ← index data i
  let low ← index data (i + 1)
  .ok (high.toNat <<< 8 ||| low.toNat)

/-! ## The client hello -/

/-- `ReadClientHello` up to the session id. -/
def skipSessionID (data : Bytes) : Outcome Bytes :=
  if data.length < 42 then .error errNoClue
  else do
    let sessionIDLen ← index data 38
    if sessionIDLen.toNat > 32 ∨ data.length < 39 + sessionIDLen.toNat then .error errNoClue
    else sliceFrom data (39 + sessionIDLen.toNat)

def skipCipherSuites (data : Bytes) : Outcome Bytes :=
  if data.length < 2 then .error errNoClue
  else do
    let cipherSuiteLen ← uint16 data 0
    if cipherSuiteLen % 2 = 1 ∨ data.length < 2 + cipherSuiteLen then .error errNotClientHello
    else sliceFrom data (2 + cipherSuiteLen)

def skipCompressionMethods (data : Bytes) : Outcome Bytes :=
  if data.length < 1 then .error errNoClue
  else do
    let compressionMethodsLen ← index data 0
    if data.length < 1 + compressionMethodsLen.toNat then .error errNoClue
    else sliceFrom data (1 + compressionMethodsLen.toNat)

/-- The length of the extensions, which are all that is left. -/
def openExtensions (data : Bytes) : Outcome Bytes :=
  if data.length = 0 then .error errNotClientHello
  else if data.length < 2 then .error errNotClientHello
  else do
    let extensionsLength ← uint16 data 0
    let data ← sliceFrom data 2
    if extensionsLength ≠ data.length then .error errNotClientHello else .ok data

/-- One round of the loop over the names: a host name, or what is left. -/
def nextName (d : Bytes) : Outcome (Bytes ⊕ Bytes) :=
  if d.length < 3 then .error errNotClientHello
  else do
    let nameType ← index d 0
    let nameLen ← uint16 d 1
    let d ← sliceFrom d 3
    if d.length < nameLen then .error errNotClientHello
    else if nameType = 0 then do
      let serverName ← sliceTo d nameLen
      if ascii "." <:+ serverName then .error errNotClientHello else .ok (.inl serverName)
    else do
      let d ← sliceFrom d nameLen
      .ok (.inr d)

theorem sliceFrom_eq_ok {data d : Bytes} {n : ℕ} (h : sliceFrom data n = .ok d) :
    n ≤ data.length ∧ d = data.drop n := by
  unfold sliceFrom at h
  split at h
  · cases h
    exact ⟨‹_›, rfl⟩
  · cases h

/-- The names left are shorter. -/
theorem nextName_lt {d d' : Bytes} (h : nextName d = .ok (.inr d')) : d'.length < d.length := by
  unfold nextName at h
  split at h
  · cases h
  obtain ⟨nameType, -, h⟩ := Outcome.bind_eq_ok.1 h
  obtain ⟨nameLen, -, h⟩ := Outcome.bind_eq_ok.1 h
  obtain ⟨rest, hrest, h⟩ := Outcome.bind_eq_ok.1 h
  obtain ⟨hle, rfl⟩ := sliceFrom_eq_ok hrest
  split at h
  · cases h
  split at h
  · obtain ⟨serverName, -, h⟩ := Outcome.bind_eq_ok.1 h
    split at h
    · cases h
    · cases h
  · obtain ⟨rest', hrest', h⟩ := Outcome.bind_eq_ok.1 h
    obtain ⟨-, rfl⟩ := sliceFrom_eq_ok hrest'
    cases h
    rw [List.length_drop, List.length_drop]
    omega

/-- The loop over the names. -/
def readNames (d : Bytes) : Outcome (Option Bytes) :=
  if d = [] then .ok none
  else
    match _h : nextName d with
    | .ok (.inl serverName) => .ok (some serverName)
    | .ok (.inr rest) => readNames rest
    | .error e => .error e
    | .panic => .panic
termination_by d.length
decreasing_by exact nextName_lt _h

/-- The extension of the server name: a host name, if it has one. -/
def readServerName (d : Bytes) : Outcome (Option Bytes) :=
  if d.length < 2 then .error errNotClientHello
  else do
    let namesLen ← uint16 d 0
    let d ← sliceFrom d 2
    if d.length ≠ namesLen then .error errNotClientHello else readNames d

/-- An extension: a host name, if it is the one of the server name and has one. -/
def readExtension (extension length : ℕ) (data : Bytes) : Outcome (Option Bytes) :=
  if extension = 0 then do
    let d ← sliceTo data length
    readServerName d
  else .ok none

/-- One round of the loop over the extensions: a host name, or what is left. -/
def nextExtension (data : Bytes) : Outcome (Bytes ⊕ Bytes) :=
  if data.length < 4 then .error errNotClientHello
  else do
    let extension ← uint16 data 0
    let length ← uint16 data 2
    let data ← sliceFrom data 4
    if data.length < length then .error errNotClientHello
    else do
      let serverName ← readExtension extension length data
      match serverName with
      | some serverName => .ok (.inl serverName)
      | none => do
        let data ← sliceFrom data length
        .ok (.inr data)

theorem nextExtension_lt {data data' : Bytes} (h : nextExtension data = .ok (.inr data')) :
    data'.length < data.length := by
  unfold nextExtension at h
  split at h
  · cases h
  obtain ⟨extension, -, h⟩ := Outcome.bind_eq_ok.1 h
  obtain ⟨length, -, h⟩ := Outcome.bind_eq_ok.1 h
  obtain ⟨rest, hrest, h⟩ := Outcome.bind_eq_ok.1 h
  obtain ⟨hle, rfl⟩ := sliceFrom_eq_ok hrest
  split at h
  · cases h
  obtain ⟨serverName, -, h⟩ := Outcome.bind_eq_ok.1 h
  split at h
  · cases h
  · obtain ⟨rest', hrest', h⟩ := Outcome.bind_eq_ok.1 h
    obtain ⟨-, rfl⟩ := sliceFrom_eq_ok hrest'
    cases h
    rw [List.length_drop, List.length_drop]
    omega

/-- The loop over the extensions. -/
def readExtensions (data : Bytes) : Outcome Bytes :=
  if data = [] then .error errNotTLS
  else
    match _h : nextExtension data with
    | .ok (.inl serverName) => .ok serverName
    | .ok (.inr rest) => readExtensions rest
    | .error e => .error e
    | .panic => .panic
termination_by data.length
decreasing_by exact nextExtension_lt _h

/-- The domain that the header is given. -/
def readClientHello (data : Bytes) : Outcome Bytes := do
  let data ← skipSessionID data
  let data ← skipCipherSuites data
  let data ← skipCompressionMethods data
  let data ← openExtensions data
  readExtensions data

def isValidTLSVersion (major _minor : UInt8) : Bool := major = 3

def sniffTLS (b : Bytes) : Outcome Bytes :=
  if b.length < 5 then .error errNoClue
  else do
    let kind ← index b 0
    if kind ≠ 0x16 then .error errNotTLS
    else do
      let major ← index b 1
      let minor ← index b 2
      if ¬ isValidTLSVersion major minor then .error errNotTLS
      else do
        let headerLen ← uint16 b 3
        if 5 + headerLen > b.length then .error errNoClue
        else do
          let data ← sliceTo b (5 + headerLen)
          let data ← sliceFrom data 5
          readClientHello data

/-! ## No panic -/

theorem index_ne_panic {data : Bytes} {i : ℕ} (h : i < data.length) : index data i ≠ .panic := by
  rw [index, List.getElem?_eq_getElem h]
  exact nofun

theorem uint16_ne_panic {data : Bytes} {i : ℕ} (h : i + 1 < data.length) : uint16 data i ≠ .panic :=
  Outcome.bind_ne_panic (index_ne_panic (by omega)) fun _ _ =>
    Outcome.bind_ne_panic (index_ne_panic h) fun _ _ => nofun

theorem sliceFrom_ne_panic {data : Bytes} {n : ℕ} (h : n ≤ data.length) : sliceFrom data n ≠ .panic := by
  rw [sliceFrom, if_pos h]
  exact nofun

theorem sliceTo_ne_panic {data : Bytes} {n : ℕ} (h : n ≤ data.length) : sliceTo data n ≠ .panic := by
  rw [sliceTo, if_pos h]
  exact nofun

theorem skipSessionID_ne_panic (data : Bytes) : skipSessionID data ≠ .panic := by
  unfold skipSessionID
  split
  · exact nofun
  refine Outcome.bind_ne_panic (index_ne_panic (by omega)) fun sessionIDLen _ => ?_
  split
  · exact nofun
  · exact sliceFrom_ne_panic (by omega)

theorem skipCipherSuites_ne_panic (data : Bytes) : skipCipherSuites data ≠ .panic := by
  unfold skipCipherSuites
  split
  · exact nofun
  refine Outcome.bind_ne_panic (uint16_ne_panic (by omega)) fun cipherSuiteLen _ => ?_
  split
  · exact nofun
  · exact sliceFrom_ne_panic (by omega)

theorem skipCompressionMethods_ne_panic (data : Bytes) : skipCompressionMethods data ≠ .panic := by
  unfold skipCompressionMethods
  split
  · exact nofun
  refine Outcome.bind_ne_panic (index_ne_panic (by omega)) fun compressionMethodsLen _ => ?_
  split
  · exact nofun
  · exact sliceFrom_ne_panic (by omega)

theorem openExtensions_ne_panic (data : Bytes) : openExtensions data ≠ .panic := by
  unfold openExtensions
  split
  · exact nofun
  split
  · exact nofun
  refine Outcome.bind_ne_panic (uint16_ne_panic (by omega)) fun extensionsLength _ => ?_
  refine Outcome.bind_ne_panic (sliceFrom_ne_panic (by omega)) fun rest _ => ?_
  split
  · exact nofun
  · exact nofun

theorem nextName_ne_panic (d : Bytes) : nextName d ≠ .panic := by
  unfold nextName
  split
  · exact nofun
  refine Outcome.bind_ne_panic (index_ne_panic (by omega)) fun nameType _ => ?_
  refine Outcome.bind_ne_panic (uint16_ne_panic (by omega)) fun nameLen _ => ?_
  refine Outcome.bind_ne_panic (sliceFrom_ne_panic (by omega)) fun rest _ => ?_
  split
  · exact nofun
  split
  · refine Outcome.bind_ne_panic (sliceTo_ne_panic (by omega)) fun serverName _ => ?_
    split
    · exact nofun
    · exact nofun
  · exact Outcome.bind_ne_panic (sliceFrom_ne_panic (by omega)) fun _ _ => nofun

theorem readNames_ne_panic (d : Bytes) : readNames d ≠ .panic := by
  induction d using readNames.induct with
  | case1 => rw [readNames, if_pos rfl]; exact nofun
  | case2 d hne serverName hnext => rw [readNames, if_neg hne, hnext]; exact nofun
  | case3 d hne rest hnext ih =>
    rw [readNames, if_neg hne, hnext]
    exact ih
  | case4 d hne e hnext => rw [readNames, if_neg hne, hnext]; exact nofun
  | case5 d hne hnext => exact absurd hnext (nextName_ne_panic d)

theorem readExtension_ne_panic {extension length : ℕ} {data : Bytes} (h : length ≤ data.length) :
    readExtension extension length data ≠ .panic := by
  unfold readExtension
  split
  · refine Outcome.bind_ne_panic (sliceTo_ne_panic h) fun d _ => ?_
    unfold readServerName
    split
    · exact nofun
    refine Outcome.bind_ne_panic (uint16_ne_panic (by omega)) fun namesLen _ => ?_
    refine Outcome.bind_ne_panic (sliceFrom_ne_panic (by omega)) fun names _ => ?_
    split
    · exact nofun
    · exact readNames_ne_panic names
  · exact nofun

theorem nextExtension_ne_panic (data : Bytes) : nextExtension data ≠ .panic := by
  unfold nextExtension
  split
  · exact nofun
  refine Outcome.bind_ne_panic (uint16_ne_panic (by omega)) fun extension _ => ?_
  refine Outcome.bind_ne_panic (uint16_ne_panic (by omega)) fun length _ => ?_
  refine Outcome.bind_ne_panic (sliceFrom_ne_panic (by omega)) fun rest _ => ?_
  split
  · exact nofun
  refine Outcome.bind_ne_panic (readExtension_ne_panic (by omega)) fun serverName _ => ?_
  split
  · exact nofun
  · exact Outcome.bind_ne_panic (sliceFrom_ne_panic (by omega)) fun _ _ => nofun

theorem readExtensions_ne_panic (data : Bytes) : readExtensions data ≠ .panic := by
  induction data using readExtensions.induct with
  | case1 => rw [readExtensions, if_pos rfl]; exact nofun
  | case2 data hne serverName hnext => rw [readExtensions, if_neg hne, hnext]; exact nofun
  | case3 data hne rest hnext ih =>
    rw [readExtensions, if_neg hne, hnext]
    exact ih
  | case4 data hne e hnext => rw [readExtensions, if_neg hne, hnext]; exact nofun
  | case5 data hne hnext => exact absurd hnext (nextExtension_ne_panic data)

theorem readClientHello_ne_panic (data : Bytes) : readClientHello data ≠ .panic :=
  Outcome.bind_ne_panic (skipSessionID_ne_panic data) fun data _ =>
    Outcome.bind_ne_panic (skipCipherSuites_ne_panic data) fun data _ =>
      Outcome.bind_ne_panic (skipCompressionMethods_ne_panic data) fun data _ =>
        Outcome.bind_ne_panic (openExtensions_ne_panic data) fun data _ => readExtensions_ne_panic data

theorem sniffTLS_ne_panic (b : Bytes) : sniffTLS b ≠ .panic := by
  unfold sniffTLS
  split
  · exact nofun
  refine Outcome.bind_ne_panic (index_ne_panic (by omega)) fun kind _ => ?_
  split
  · exact nofun
  refine Outcome.bind_ne_panic (index_ne_panic (by omega)) fun major _ => ?_
  refine Outcome.bind_ne_panic (index_ne_panic (by omega)) fun minor _ => ?_
  split
  · exact nofun
  refine Outcome.bind_ne_panic (uint16_ne_panic (by omega)) fun headerLen _ => ?_
  split
  · exact nofun
  refine Outcome.bind_ne_panic (sliceTo_ne_panic (by omega)) fun record hrecord => ?_
  refine Outcome.bind_ne_panic (sliceFrom_ne_panic ?_) fun data _ => readClientHello_ne_panic data
  unfold sliceTo at hrecord
  split at hrecord
  · cases hrecord
    rw [List.length_take]
    omega
  · cases hrecord

/-! ## Records -/

/-- Bytes with their length before them, on `k` bytes. -/
def vec (k : ℕ) (b : Bytes) : Bytes := bigEndian k b.length ++ b

structure Extension where
  kind : UInt16
  data : Bytes

def Extension.encode (e : Extension) : Bytes := bigEndian 2 e.kind.toNat ++ vec 2 e.data

structure ServerName where
  nameType : UInt8
  name : Bytes

def ServerName.encode (n : ServerName) : Bytes := n.nameType :: vec 2 n.name

/-- What a client hello says: the extension of the server name is between others, and the host
    name between names of other types. -/
structure Hello where
  version : UInt16
  random : Bytes
  sessionId : Bytes
  cipherSuites : List UInt16
  compressionMethods : Bytes
  before : List Extension
  namesBefore : List ServerName
  host : Bytes
  namesAfter : List ServerName
  after : List Extension

namespace Hello

variable (h : Hello)

def names : Bytes := (h.namesBefore ++ ⟨0, h.host⟩ :: h.namesAfter).flatMap ServerName.encode

def extensions : Bytes := (h.before ++ ⟨0, vec 2 h.names⟩ :: h.after).flatMap Extension.encode

/-- The part up to the session id, whose length is the byte 38 of the message. -/
def intro : Bytes := bigEndian 2 h.version.toNat ++ h.random

def suites : Bytes := h.cipherSuites.flatMap fun suite => bigEndian 2 suite.toNat

def body : Bytes :=
  h.intro ++ (vec 1 h.sessionId ++ (vec 2 h.suites ++ (vec 1 h.compressionMethods ++ vec 2 h.extensions)))

/-- The handshake message. -/
def message : Bytes := 1 :: vec 3 h.body

/-- The record that holds the message, of version 3 and a minor one. -/
def record (minor : UInt8) : Bytes := [0x16, 3, minor] ++ vec 2 h.message

end Hello

/-- A client hello that can be encoded, with a host name that does not end in a dot. -/
structure ClientHello extends Hello where
  length_random : random.length = 32
  length_sessionId : sessionId.length ≤ 32
  length_compressionMethods : compressionMethods.length ≤ 255
  kind_ne : ∀ e ∈ before, e.kind ≠ 0
  nameType_ne : ∀ n ∈ namesBefore, n.nameType ≠ 0
  host_ne : host ≠ []
  not_dot : ¬ ascii "." <:+ host
  fits : toHello.message.length < 2 ^ 16

/-! ## Reading what was encoded -/

section

variable {pre rest : Bytes} {n : ℕ}

theorem index_append {b : UInt8} (h : pre.length = n) : index (pre ++ b :: rest) n = .ok b := by
  rw [index, ← h, List.getElem?_append_right le_rfl, Nat.sub_self, List.getElem?_cons_zero]

theorem sliceFrom_append (h : pre.length = n) : sliceFrom (pre ++ rest) n = .ok rest := by
  rw [sliceFrom, if_pos (by rw [List.length_append]; omega), List.drop_left' h]

theorem sliceTo_append (h : pre.length = n) : sliceTo (pre ++ rest) n = .ok pre := by
  rw [sliceTo, if_pos (by rw [List.length_append]; omega), List.take_left' h]

theorem bigEndian_two {v : ℕ} (h : v < 2 ^ 16) :
    bigEndian 2 v = [UInt8.ofNat (v / 256), UInt8.ofNat (v % 256)] := by
  simp only [bigEndian, List.nil_append, List.singleton_append]
  rw [Nat.mod_eq_of_lt (show v / 256 < 256 by omega)]

theorem uint16_append {v : ℕ} (hv : v < 2 ^ 16) (h : pre.length = n) :
    uint16 (pre ++ (bigEndian 2 v ++ rest)) n = .ok v := by
  have hjoin : (v / 256) <<< 8 ||| v % 256 = v := by
    rw [← Nat.shiftLeft_add_eq_or_of_lt (show v % 256 < 2 ^ 8 by omega), Nat.shiftLeft_eq]
    omega
  rw [bigEndian_two hv, uint16, List.cons_append, List.singleton_append, index_append h, Outcome.bind_ok,
    List.append_cons, index_append (by rw [List.length_append, List.length_singleton, h]),
    Outcome.bind_ok, UInt8.toNat_ofNat_of_lt' (show v / 256 < 256 by omega),
    UInt8.toNat_ofNat_of_lt' (show v % 256 < 256 by omega), hjoin]

end

@[simp] theorem length_vec (k : ℕ) (b : Bytes) : (vec k b).length = k + b.length := by
  rw [vec, List.length_append, length_bigEndian]

variable {rest : Bytes}

/-- A name is read, and if it is none of a host what is behind it is left. -/
theorem nextName_encode {n : ServerName} (hlen : n.name.length < 2 ^ 16) :
    nextName (n.encode ++ rest) =
      if n.nameType = 0 then if ascii "." <:+ n.name then .error errNotClientHello else .ok (.inl n.name)
      else .ok (.inr rest) := by
  have hencode : n.encode ++ rest = [n.nameType] ++ (bigEndian 2 n.name.length ++ (n.name ++ rest)) := by
    rw [ServerName.encode, vec, List.cons_append, List.append_assoc]
    rfl
  have hhead : n.encode ++ rest = ([n.nameType] ++ bigEndian 2 n.name.length) ++ (n.name ++ rest) := by
    rw [hencode, List.append_assoc]
  have hlength : (n.encode ++ rest).length = 3 + (n.name ++ rest).length := by
    rw [hhead, List.length_append, List.length_append, length_bigEndian, List.length_singleton]
  have hkind : index (n.encode ++ rest) 0 = .ok n.nameType := by
    rw [hencode]
    rfl
  have hnameLen : uint16 (n.encode ++ rest) 1 = .ok n.name.length := by
    rw [hencode]
    exact uint16_append hlen List.length_singleton
  have hslice : sliceFrom (n.encode ++ rest) 3 = .ok (n.name ++ rest) := by
    rw [hhead]
    exact sliceFrom_append (by rw [List.length_append, length_bigEndian, List.length_singleton])
  unfold nextName
  rw [if_neg (by omega), hkind, Outcome.bind_ok, hnameLen, Outcome.bind_ok, hslice, Outcome.bind_ok,
    if_neg (by rw [List.length_append]; omega), sliceTo_append rfl, sliceFrom_append rfl]
  rfl

theorem ServerName.encode_ne_nil (n : ServerName) : n.encode ++ rest ≠ [] := List.cons_ne_nil _ _

/-- The host name is found behind names of other types. -/
theorem readNames_encode {before : List ServerName} {host : Bytes} (hbefore : ∀ n ∈ before, n.nameType ≠ 0)
    (hdot : ¬ ascii "." <:+ host)
    (hlen : (before.flatMap ServerName.encode ++ (ServerName.encode ⟨0, host⟩ ++ rest)).length < 2 ^ 16) :
    readNames (before.flatMap ServerName.encode ++ (ServerName.encode ⟨0, host⟩ ++ rest)) =
      .ok (some host) := by
  induction before with
  | nil =>
    simp only [List.flatMap_nil, List.nil_append, ServerName.encode, List.length_append, List.length_cons,
      length_vec] at hlen
    have hnext : nextName (ServerName.encode ⟨0, host⟩ ++ rest) = .ok (.inl host) := by
      rw [nextName_encode (by dsimp only; omega), if_pos rfl, if_neg hdot]
    rw [List.flatMap_nil, List.nil_append, readNames, if_neg (ServerName.encode_ne_nil _), hnext]
  | cons n before ih =>
    rw [List.flatMap_cons, List.append_assoc] at hlen ⊢
    have hname : n.name.length < 2 ^ 16 := by
      rw [List.length_append, ServerName.encode, List.length_cons, length_vec] at hlen
      omega
    have hnext := @nextName_encode
      (before.flatMap ServerName.encode ++ (ServerName.encode ⟨0, host⟩ ++ rest)) n hname
    rw [if_neg (hbefore n List.mem_cons_self)] at hnext
    rw [List.length_append] at hlen
    rw [readNames, if_neg (ServerName.encode_ne_nil _), hnext]
    exact ih (fun n hn => hbefore n (List.mem_cons_of_mem _ hn)) (by omega)

/-- An extension is read, and if it is not the one of the server name what is behind it is left. -/
theorem nextExtension_encode {e : Extension} (hlen : e.data.length < 2 ^ 16) :
    nextExtension (e.encode ++ rest) =
      (readExtension e.kind.toNat e.data.length (e.data ++ rest)).map
        fun serverName => serverName.elim (.inr rest) .inl := by
  have hencode : e.encode ++ rest =
      bigEndian 2 e.kind.toNat ++ (bigEndian 2 e.data.length ++ (e.data ++ rest)) := by
    rw [Extension.encode, vec, List.append_assoc, List.append_assoc]
  have hhead : e.encode ++ rest =
      (bigEndian 2 e.kind.toNat ++ bigEndian 2 e.data.length) ++ (e.data ++ rest) := by
    rw [hencode, List.append_assoc]
  have hlength : (e.encode ++ rest).length = 4 + (e.data ++ rest).length := by
    rw [hhead, List.length_append, List.length_append, length_bigEndian, length_bigEndian]
  have hkind : uint16 (e.encode ++ rest) 0 = .ok e.kind.toNat := by
    rw [hencode]
    exact @uint16_append [] _ 0 _ e.kind.toNat_lt rfl
  have hdataLen : uint16 (e.encode ++ rest) 2 = .ok e.data.length := by
    rw [hencode]
    exact uint16_append hlen (length_bigEndian _ _)
  have hslice : sliceFrom (e.encode ++ rest) 4 = .ok (e.data ++ rest) := by
    rw [hhead]
    exact sliceFrom_append (by rw [List.length_append, length_bigEndian, length_bigEndian])
  unfold nextExtension
  rw [if_neg (by omega), hkind, Outcome.bind_ok, hdataLen, Outcome.bind_ok, hslice, Outcome.bind_ok,
    if_neg (by rw [List.length_append]; omega), sliceFrom_append rfl]
  rcases readExtension e.kind.toNat e.data.length (e.data ++ rest) with (- | serverName) | e | -
  · rfl
  · rfl
  · rfl
  · rfl

/-- The extension of the server name has the host name. -/
theorem readExtension_serverName {names : Bytes} {host : Bytes} (hlen : names.length < 2 ^ 16)
    (hnames : readNames names = .ok (some host)) :
    readExtension 0 (vec 2 names).length (vec 2 names ++ rest) = .ok (some host) := by
  have huint16 : uint16 (vec 2 names) 0 = .ok names.length := @uint16_append [] _ 0 _ hlen rfl
  have hslice : sliceFrom (vec 2 names) 2 = .ok names := sliceFrom_append (length_bigEndian _ _)
  rw [readExtension, if_pos rfl, sliceTo_append rfl, Outcome.bind_ok, readServerName,
    if_neg (by rw [length_vec]; omega), huint16, Outcome.bind_ok, hslice, Outcome.bind_ok,
    if_neg (not_not.2 rfl), hnames]

theorem Extension.encode_ne_nil (e : Extension) : e.encode ++ rest ≠ [] := by
  refine List.append_ne_nil_of_left_ne_nil (List.append_ne_nil_of_left_ne_nil ?_ _) _
  exact List.ne_nil_of_length_pos (by rw [length_bigEndian]; decide)

/-- The host name is found behind other extensions. -/
theorem readExtensions_encode {before : List Extension} {names host : Bytes}
    (hbefore : ∀ e ∈ before, e.kind ≠ 0) (hnames : readNames names = .ok (some host))
    (hlen : (before.flatMap Extension.encode ++ (Extension.encode ⟨0, vec 2 names⟩ ++ rest)).length < 2 ^ 16) :
    readExtensions (before.flatMap Extension.encode ++ (Extension.encode ⟨0, vec 2 names⟩ ++ rest)) =
      .ok host := by
  induction before with
  | nil =>
    simp only [List.flatMap_nil, List.nil_append, Extension.encode, List.length_append, length_vec] at hlen
    have hnext : nextExtension (Extension.encode ⟨0, vec 2 names⟩ ++ rest) = .ok (.inl host) := by
      rw [nextExtension_encode (by rw [length_vec]; omega)]
      dsimp only
      rw [show (0 : UInt16).toNat = 0 from rfl, readExtension_serverName (by omega) hnames]
      rfl
    rw [List.flatMap_nil, List.nil_append, readExtensions, if_neg (Extension.encode_ne_nil _), hnext]
  | cons e before ih =>
    rw [List.flatMap_cons, List.append_assoc] at hlen ⊢
    have hdata : e.data.length < 2 ^ 16 := by
      rw [List.length_append, Extension.encode, List.length_append, length_vec] at hlen
      omega
    have hkind : ¬ e.kind.toNat = 0 := fun h =>
      hbefore e List.mem_cons_self (UInt16.toNat_inj.1 h)
    have hnext := @nextExtension_encode
      (before.flatMap Extension.encode ++ (Extension.encode ⟨0, vec 2 names⟩ ++ rest)) e hdata
    rw [readExtension, if_neg hkind] at hnext
    rw [List.length_append] at hlen
    rw [readExtensions, if_neg (Extension.encode_ne_nil _), hnext]
    exact ih (fun e he => hbefore e (List.mem_cons_of_mem _ he)) (by omega)

/-! ## Reading a record -/

theorem bigEndian_one {v : ℕ} (h : v < 256) : bigEndian 1 v = [UInt8.ofNat v] := by
  simp only [bigEndian, List.nil_append]
  rw [Nat.mod_eq_of_lt h]

theorem skipSessionID_vec {pre sessionId : Bytes} (hpre : pre.length = 38) (hlen : sessionId.length ≤ 32)
    (hrest : 3 ≤ rest.length) : skipSessionID (pre ++ (vec 1 sessionId ++ rest)) = .ok rest := by
  have hlength : (pre ++ (vec 1 sessionId ++ rest)).length = 39 + sessionId.length + rest.length := by
    rw [List.length_append, List.length_append, length_vec]
    omega
  have hindex : index (pre ++ (vec 1 sessionId ++ rest)) 38 = .ok (UInt8.ofNat sessionId.length) := by
    rw [vec, bigEndian_one (by omega)]
    exact index_append hpre
  have hslice : sliceFrom (pre ++ (vec 1 sessionId ++ rest)) (39 + sessionId.length) = .ok rest := by
    rw [← List.append_assoc]
    exact sliceFrom_append (by rw [List.length_append, length_vec]; omega)
  rw [skipSessionID, if_neg (by omega), hindex, Outcome.bind_ok,
    UInt8.toNat_ofNat_of_lt' (show sessionId.length < 256 by omega), if_neg (by omega), hslice]

theorem skipCipherSuites_vec {suites : Bytes} (heven : suites.length % 2 = 0)
    (hlen : suites.length < 2 ^ 16) : skipCipherSuites (vec 2 suites ++ rest) = .ok rest := by
  have huint16 : uint16 (vec 2 suites ++ rest) 0 = .ok suites.length := by
    rw [vec, List.append_assoc]
    exact @uint16_append [] _ 0 _ hlen rfl
  have hlength : (vec 2 suites ++ rest).length = 2 + suites.length + rest.length := by
    rw [List.length_append, length_vec]
  rw [skipCipherSuites, if_neg (by omega), huint16, Outcome.bind_ok, if_neg (by omega),
    sliceFrom_append (length_vec 2 suites)]

theorem skipCompressionMethods_vec {methods : Bytes} (hlen : methods.length ≤ 255) :
    skipCompressionMethods (vec 1 methods ++ rest) = .ok rest := by
  have hindex : index (vec 1 methods ++ rest) 0 = .ok (UInt8.ofNat methods.length) := by
    rw [vec, bigEndian_one (by omega)]
    rfl
  have hlength : (vec 1 methods ++ rest).length = 1 + methods.length + rest.length := by
    rw [List.length_append, length_vec]
  rw [skipCompressionMethods, if_neg (by omega), hindex, Outcome.bind_ok,
    UInt8.toNat_ofNat_of_lt' (show methods.length < 256 by omega), if_neg (by omega),
    sliceFrom_append (length_vec 1 methods)]

theorem openExtensions_vec {extensions : Bytes} (hlen : extensions.length < 2 ^ 16) :
    openExtensions (vec 2 extensions) = .ok extensions := by
  have huint16 : uint16 (vec 2 extensions) 0 = .ok extensions.length :=
    @uint16_append [] _ 0 _ hlen rfl
  rw [openExtensions, if_neg (by rw [length_vec]; omega), if_neg (by rw [length_vec]; omega), huint16,
    Outcome.bind_ok, show sliceFrom (vec 2 extensions) 2 = .ok extensions from
      sliceFrom_append (length_bigEndian _ _), Outcome.bind_ok, if_neg (not_not.2 rfl)]

namespace ClientHello

variable (h : ClientHello)

theorem length_suites : h.suites.length = 2 * h.cipherSuites.length := by
  rw [Hello.suites]
  induction h.cipherSuites with
  | nil => rfl
  | cons suite suites ih => rw [List.flatMap_cons, List.length_append, length_bigEndian, ih, List.length_cons]; ring

theorem length_intro : h.intro.length = 34 := by
  rw [Hello.intro, List.length_append, length_bigEndian, h.length_random]

/-- All that the message holds is not longer than it. -/
theorem length_lt : h.suites.length < 2 ^ 16 ∧ h.extensions.length < 2 ^ 16 := by
  have hfits := h.fits
  rw [Hello.message, List.length_cons, length_vec, Hello.body, List.length_append, List.length_append,
    List.length_append, List.length_append, length_vec, length_vec, length_vec, length_vec] at hfits
  omega

theorem extensions_eq : h.extensions = h.before.flatMap Extension.encode ++
    (Extension.encode ⟨0, vec 2 h.names⟩ ++ h.after.flatMap Extension.encode) := by
  rw [Hello.extensions, List.flatMap_append, List.flatMap_cons]

theorem names_eq : h.names = h.namesBefore.flatMap ServerName.encode ++
    (ServerName.encode ⟨0, h.host⟩ ++ h.namesAfter.flatMap ServerName.encode) := by
  rw [Hello.names, List.flatMap_append, List.flatMap_cons]

theorem readExtensions_extensions : readExtensions h.extensions = .ok h.host := by
  have hlen := h.length_lt.2
  rw [extensions_eq] at hlen ⊢
  have hnamesLen : h.names.length < 2 ^ 16 := by
    rw [List.length_append, List.length_append, Extension.encode, List.length_append, length_vec,
      length_vec] at hlen
    omega
  have hnames : readNames h.names = .ok (some h.host) := by
    rw [names_eq] at hnamesLen ⊢
    exact readNames_encode h.nameType_ne h.not_dot hnamesLen
  exact readExtensions_encode h.kind_ne hnames hlen

theorem readClientHello_message : readClientHello h.message = .ok h.host := by
  obtain ⟨hsuites, hextensions⟩ := h.length_lt
  have hmessage : h.message = (1 :: (bigEndian 3 h.body.length ++ h.intro)) ++ (vec 1 h.sessionId ++
      (vec 2 h.suites ++ (vec 1 h.compressionMethods ++ vec 2 h.extensions))) := by
    rw [Hello.message, vec, List.cons_append, List.append_assoc]
    rfl
  have hpre : (1 :: (bigEndian 3 h.body.length ++ h.intro)).length = 38 := by
    rw [List.length_cons, List.length_append, length_bigEndian, length_intro]
  have hrest : 3 ≤ (vec 2 h.suites ++ (vec 1 h.compressionMethods ++ vec 2 h.extensions)).length := by
    rw [List.length_append, List.length_append, length_vec, length_vec, length_vec]
    omega
  rw [readClientHello, hmessage, skipSessionID_vec hpre h.length_sessionId hrest, Outcome.bind_ok,
    skipCipherSuites_vec (by rw [length_suites]; omega) hsuites, Outcome.bind_ok,
    skipCompressionMethods_vec h.length_compressionMethods, Outcome.bind_ok,
    openExtensions_vec hextensions, Outcome.bind_ok, readExtensions_extensions]

/-- What is sniffed of bytes that begin as the record does: the bytes of the message are waited
    for. -/
theorem sniffTLS_header (minor : UInt8) (b : Bytes) :
    sniffTLS ([0x16, 3, minor] ++ (bigEndian 2 h.message.length ++ b)) =
      if b.length < h.message.length then .error errNoClue
      else readClientHello (b.take h.message.length) := by
  have hfits := h.fits
  have hlength : ([0x16, 3, minor] ++ (bigEndian 2 h.message.length ++ b)).length = 5 + b.length := by
    rw [List.length_append, List.length_append, length_bigEndian]
    simp only [List.length_cons, List.length_nil]
    omega
  have hheaderLen : uint16 ([0x16, 3, minor] ++ (bigEndian 2 h.message.length ++ b)) 3 =
      .ok h.message.length := uint16_append hfits rfl
  have hkind : index ([0x16, 3, minor] ++ (bigEndian 2 h.message.length ++ b)) 0 = .ok 0x16 := rfl
  have hmajor : index ([0x16, 3, minor] ++ (bigEndian 2 h.message.length ++ b)) 1 = .ok 3 := rfl
  have hminor : index ([0x16, 3, minor] ++ (bigEndian 2 h.message.length ++ b)) 2 = .ok minor := rfl
  unfold sniffTLS
  rw [if_neg (by omega), hkind, Outcome.bind_ok, if_neg (not_not.2 rfl), hmajor, Outcome.bind_ok, hminor,
    Outcome.bind_ok, if_neg (by simp [isValidTLSVersion]), hheaderLen, Outcome.bind_ok, hlength]
  by_cases hshort : b.length < h.message.length
  · rw [if_pos hshort, if_pos (by omega)]
  · have hheader : ([0x16, 3, minor] ++ bigEndian 2 h.message.length).length = 5 := by
      rw [List.length_append, length_bigEndian]
      rfl
    rw [if_neg hshort, if_neg (by omega), sliceTo, if_pos (by omega), Outcome.bind_ok, ← List.append_assoc,
      List.take_append, List.take_of_length_le (by omega), hheader, Nat.add_sub_cancel_left,
      sliceFrom_append hheader, Outcome.bind_ok]

/-- The host name of a record is sniffed, whatever follows. -/
theorem sniffTLS_record (minor : UInt8) (rest : Bytes) :
    sniffTLS (h.record minor ++ rest) = .ok h.host := by
  rw [Hello.record, vec, List.append_assoc, List.append_assoc, sniffTLS_header, if_neg, List.take_left' rfl,
    readClientHello_message]
  rw [List.length_append]
  omega

/-- Before all of a record is there, there is no clue. -/
theorem sniffTLS_of_prefix (minor : UInt8) {b : Bytes} (hb : b <+: h.record minor)
    (hne : b ≠ h.record minor) : sniffTLS b = .error errNoClue := by
  have hlt : b.length < (h.record minor).length :=
    lt_of_le_of_ne hb.length_le fun hlen => hne (hb.eq_of_length hlen)
  by_cases hshort : b.length < 5
  · rw [sniffTLS, if_pos hshort]
  · have hheader : ([0x16, 3, minor] ++ bigEndian 2 h.message.length).length = 5 := by
      rw [List.length_append, length_bigEndian]
      rfl
    have hrecord : h.record minor = ([0x16, 3, minor] ++ bigEndian 2 h.message.length) ++ h.message := by
      rw [Hello.record, vec, List.append_assoc]
    rw [hrecord] at hb hlt
    obtain ⟨d, rfl⟩ := List.prefix_of_prefix_length_le (List.prefix_append _ _) hb (by omega)
    rw [List.length_append, hheader, List.length_append, hheader] at hlt
    rw [List.append_assoc, sniffTLS_header, if_pos (by omega)]

end ClientHello

/-- Sniffing never panics; the host name of a record that holds a client hello is found; and
    before all of the record is there, there is no clue. -/
theorem sniffTLS_spec :
    (∀ b, sniffTLS b ≠ .panic) ∧
    (∀ (h : ClientHello) (minor : UInt8), sniffTLS (h.record minor) = .ok h.host) ∧
    ∀ (h : ClientHello) (minor : UInt8) (b : Bytes), b <+: h.record minor → b ≠ h.record minor →
      sniffTLS b = .error errNoClue := by
  refine ⟨sniffTLS_ne_panic, fun h minor => ?_, fun h minor b => h.sniffTLS_of_prefix minor⟩
  have := h.sniffTLS_record minor []
  rwa [List.append_nil] at this

/-- A client hello with a suite, two other extensions and a short host name. -/
def exampleData : Hello where
  version := 0x0303
  random := List.replicate 32 7
  sessionId := [1, 2]
  cipherSuites := [0x1301]
  compressionMethods := [0]
  before := [⟨10, [0, 2, 0, 29]⟩]
  namesBefore := []
  host := ascii "a.b"
  namesAfter := []
  after := [⟨11, [1, 0]⟩]

theorem exampleData_lengths : exampleData.random.length = 32 ∧ exampleData.sessionId.length ≤ 32 ∧
    exampleData.compressionMethods.length ≤ 255 ∧ exampleData.message.length < 2 ^ 16 := by decide

theorem exampleData_names : (∀ e ∈ exampleData.before, e.kind ≠ 0) ∧
    (∀ n ∈ exampleData.namesBefore, n.nameType ≠ 0) ∧ exampleData.host ≠ [] ∧
    ¬ ascii "." <:+ exampleData.host := by decide

def exampleHello : ClientHello where
  toHello := exampleData
  length_random := exampleData_lengths.1
  length_sessionId := exampleData_lengths.2.1
  length_compressionMethods := exampleData_lengths.2.2.1
  kind_ne := exampleData_names.1
  nameType_ne := exampleData_names.2.1
  host_ne := exampleData_names.2.2.1
  not_dot := exampleData_names.2.2.2
  fits := exampleData_lengths.2.2.2

theorem sniffTLS_spec_example :
    sniffTLS (exampleHello.record 1) = .ok (ascii "a.b") ∧
      sniffTLS ((exampleHello.record 1).take 20) = .error errNoClue :=
  ⟨sniffTLS_spec.2.1 exampleHello 1,
    sniffTLS_spec.2.2 exampleHello 1 _ (List.take_prefix _ _) (by decide)⟩

end Gzv2ray.Tls
