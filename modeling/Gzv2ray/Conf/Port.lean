import Gzv2ray.Lib.Decimal
import Gzv2ray.Net.HostPort

/-!
# Ports in configurations

A configuration writes a port as a number, or as a string of a number, of an interval or of the
name of an environment variable that holds one; a list of ports is a string of these, or a number.

* `parseIntPort`, `parseStringPort`: the two parsers;
* `PortRange.unmarshalJSON`, `PortList.unmarshalJSON`: the decoders;
* `MemoryPortList.contains`: what the ranges are for.

The environment is a parameter.
-/

namespace Gzv2ray

namespace Conf

/-! ## JSON values -/

/-- What follows the digits of a number: an exponent, or nothing. -/
def isExponent (s : Bytes) : Bool :=
  let s :=
    if 2 ≤ s.length ∧ (s.head? = some 0x65 ∨ s.head? = some 0x45) then
      let s := s.tail
      if s.head? = some 0x2b ∨ s.head? = some 0x2d then
        if s.tail = [] then s else s.tail.dropWhile Decimal.isDigit
      else s.dropWhile Decimal.isDigit
    else s
  s.isEmpty

/-- What follows the digits before a point: a fraction and an exponent, either or none. -/
def isFraction (s : Bytes) : Bool :=
  if 2 ≤ s.length ∧ s.head? = some 0x2e ∧ Decimal.isDigit (s.getD 1 0) then
    isExponent ((s.drop 2).dropWhile Decimal.isDigit)
  else isExponent s

/-- The literals of numbers: no zeros come first, and no plus sign. -/
def isValidNumber (s : Bytes) : Bool :=
  match (if s.head? = some 0x2d then s.tail else s) with
  | [] => false
  | c :: s =>
    if c = 0x30 then isFraction s
    else if 0x31 ≤ c ∧ c ≤ 0x39 then isFraction (s.dropWhile Decimal.isDigit)
    else false

/-- A value, as far as a port may be read from it: all but three kinds are one. -/
inductive JsonValue
  | null
  | number (literal : Bytes) (valid : isValidNumber literal = true)
  | string (s : Bytes)
  | other

/-- The value of a text without white space around it, as far as a number may be read from it: all
    other texts, be they JSON or not, are one. -/
def textValue (text : Bytes) : JsonValue :=
  if text = ascii "null" then .null
  else if h : isValidNumber text then .number text h
  else .other

/-- `strconv.ParseUint` in base ten, in which an underscore is no digit. -/
def parseUint10 (s : Bytes) (bitSize : ℕ) : Option ℕ :=
  if s = [] ∨ 0x5f ∈ s then none else (parseDigits s 10 (2 ^ bitSize - 1) 0 s).toOption

namespace JsonValue

/-- `json.Unmarshal` into a string. It leaves an empty one at null. -/
def asString : JsonValue → Option Bytes
  | .string s => some s
  | .null => some []
  | _ => none

/-- `json.Unmarshal` into a number of 32 bits. It leaves zero at null. -/
def asUint32 : JsonValue → Option UInt32
  | .number literal _ =>
    match parseUint10 literal 64 with
    | some n => if n < 2 ^ 32 then some (UInt32.ofNat n) else none
    | none => none
  | .null => some 0
  | _ => none

end JsonValue

/-! ## The parsers -/

def invalidPort : Error := .new (ascii "invalid port")

def invalidPortRange : Error := .new (ascii "invalid port range")

/-- The error of `PortFromInt` and `PortFromString`. -/
def portOutOfRange : Error := .new (ascii "invalid port range: ")

/-- The error of `json.Unmarshal`, whose text no caller returns. -/
def unmarshalError : Error := .new (ascii "json: cannot unmarshal")

def portFromInt (val : UInt32) : Except Error UInt16 :=
  if val > 65535 then .error portOutOfRange else .ok val.toUInt16

def portFromString (s : Bytes) : Except Error UInt16 :=
  match parseUint10 s 32 with
  | none => .error portOutOfRange
  | some val => portFromInt (UInt32.ofNat val)

def parseIntPort (data : JsonValue) : Except Error UInt16 :=
  match data.asUint32 with
  | none => .error unmarshalError
  | some intPort => portFromInt intPort

/-- `strings.SplitN` at the first hyphen. -/
def splitPair (s : Bytes) : Bytes × Option Bytes :=
  if 0x2d ∈ s then (s.take (s.idxOf 0x2d), some (s.drop (s.idxOf 0x2d + 1))) else (s, none)

variable (getenv : Bytes → Bytes)

def parseStringPort (s : Bytes) : Except Error (UInt16 × UInt16) :=
  let s := if ascii "env:" <+: s then getenv (s.drop 4) else s
  match splitPair s with
  | (s, none) =>
    match portFromString s with
    | .error e => .error e
    | .ok port => .ok (port, port)
  | (s, some t) =>
    match portFromString s with
    | .error e => .error e
    | .ok fromPort =>
      match portFromString t with
      | .error e => .error e
      | .ok toPort => .ok (fromPort, toPort)

def parseJSONStringPort (data : JsonValue) : Except Error (UInt16 × UInt16) :=
  match data.asString with
  | none => .error unmarshalError
  | some s => parseStringPort getenv s

/-! ## The decoders -/

structure PortRange where
  fromPort : UInt32
  toPort : UInt32
  deriving DecidableEq

/-- The range from one port to another. -/
def PortRange.ofPorts (fromPort toPort : UInt16) : PortRange := ⟨fromPort.toUInt32, toPort.toUInt32⟩

/-- What a value is decoded into, or the error. -/
def PortRange.unmarshalJSON (data : JsonValue) : Except Error PortRange :=
  match parseIntPort data with
  | .ok port => .ok (.ofPorts port port)
  | .error _ =>
    match parseJSONStringPort getenv data with
    | .ok (fromPort, toPort) =>
      let v := ofPorts fromPort toPort
      if v.fromPort > v.toPort then .error invalidPortRange else .ok v
    | .error _ => .error invalidPortRange

structure PortList where
  range : List PortRange := []

namespace PortList

/-- One of the texts of a list. -/
def unmarshalText (trimmed : Bytes) : Except Error PortRange :=
  if 0x2d ∈ trimmed then
    match parseStringPort getenv trimmed with
    | .error _ => .error invalidPortRange
    | .ok (fromPort, toPort) => .ok (.ofPorts fromPort toPort)
  else
    match parseIntPort (textValue trimmed) with
    | .error _ => .error invalidPort
    | .ok port => .ok (.ofPorts port port)

def unmarshalTexts : PortList → List Bytes → Option Error × PortList
  | list, [] => (none, list)
  | list, rangeStr :: rangelist =>
    let trimmed := trimSpace rangeStr
    if trimmed.length > 0 then
      match unmarshalText getenv trimmed with
      | .error e => (some e, list)
      | .ok r => unmarshalTexts ⟨list.range ++ [r]⟩ rangelist
    else unmarshalTexts list rangelist

/-- Decodes a value behind the ranges that a list has. -/
def unmarshalJSON (list : PortList) (data : JsonValue) : Option Error × PortList :=
  match data.asString with
  | some listStr => unmarshalTexts getenv list (listStr.splitOn 0x2c)
  | none =>
    match data.asUint32 with
    | none => (some invalidPort, list)
    | some number =>
      match unmarshalTexts getenv list [[]] with
      | (some e, list) => (some e, list)
      | (none, list) => (none, if number ≠ 0 then ⟨list.range ++ [⟨number, number⟩]⟩ else list)

end PortList

/-! ## What the ranges are for -/

structure MemoryPortRange where
  fromPort : UInt16
  toPort : UInt16

def MemoryPortRange.contains (r : MemoryPortRange) (port : UInt16) : Bool :=
  r.fromPort ≤ port && port ≤ r.toPort

abbrev MemoryPortList := List MemoryPortRange

/-- The ports of ranges have 16 bits. -/
def portListFromProto (l : List PortRange) : MemoryPortList :=
  l.map fun r => ⟨r.fromPort.toUInt16, r.toPort.toUInt16⟩

def MemoryPortList.contains (mpl : MemoryPortList) (port : UInt16) : Bool :=
  mpl.any fun pr => pr.contains port

end Conf

end Gzv2ray
