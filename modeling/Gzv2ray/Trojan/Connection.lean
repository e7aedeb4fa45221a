import Gzv2ray.Buf.BufferedWriter
import Gzv2ray.Trojan.RoundTrip

/-!
# Connections of Trojan

A client sends a header ahead of the first bytes that it sends over a connection: the hash of
its key, a command and the destination, with line breaks between them. The server takes it off
before it reads anything else.

* `ConnWriter`: the client's side, over any sink;
* `ConnReader`: the server's side;
* `ConnWriter.calls`, `ConnReader.calls`: calls one after another.
-/

namespace Gzv2ray

namespace Trojan

def commandTCP : UInt8 := 1

def commandUDP : UInt8 := 3

def failedToWriteHeader : Error := newError "proxy/trojan" "failed to write request header"

def failedToReadHash : Error := newError "proxy/trojan" "failed to read user hash"

def failedToReadCommand : Error := newError "proxy/trojan" "failed to read command"

/-- The error of `WriteByte`. -/
def bufferFull : Error := .new (ascii "buffer full")

/-! ## The writer -/

/-- The writer, with what it needs of its account: the key. -/
structure ConnWriter (σ : Type) where
  writer : σ
  target : Destination
  key : Bytes
  headerSent : Bool := false

namespace ConnWriter

variable {σ : Type}

def command (w : ConnWriter σ) : UInt8 := if w.target.network = .udp then commandUDP else commandTCP

/-- The buffer in which the header is assembled. -/
def header (w : ConnWriter σ) : Outcome Buffer :=
  let (buffer, _) := Buffer.new.write w.key
  let (buffer, _) := buffer.write crlf
  if buffer.isFull then .error bufferFull
  else
    let (buffer, _) := buffer.write [w.command]
    match w.target.address with
    | none => .panic
    | some address =>
      match addrParser.writeAddressPort address w.target.port with
      | .error e => .error e
      | .ok b =>
        let (buffer, _) := buffer.write b
        .ok (buffer.write crlf).1

variable (k : Sink σ)

def writeHeader (w : ConnWriter σ) : Outcome Unit × ConnWriter σ :=
  match w.header with
  | .panic => (.panic, w)
  | .error e => (.error e, w)
  | .ok buffer =>
    match k.write w.writer buffer.bytes with
    | ((_, none), writer) => (.ok (), { w with writer, headerSent := true })
    | ((_, some e), writer) => (.error e, { w with writer })

/-- A write to the sink itself. -/
def writeThrough (w : ConnWriter σ) (p : Bytes) : Outcome ℕ × ConnWriter σ :=
  match k.write w.writer p with
  | ((n, none), writer) => (.ok n, { w with writer })
  | ((_, some e), writer) => (.error e, { w with writer })

def write (w : ConnWriter σ) (p : Bytes) : Outcome ℕ × ConnWriter σ :=
  if !w.headerSent then
    match w.writeHeader k with
    | (.ok _, w) => w.writeThrough k p
    | (.error e, w) => (.error (failedToWriteHeader.base e), w)
    | (.panic, w) => (.panic, w)
  else w.writeThrough k p

def writeMultiBuffer : ConnWriter σ → MultiBuffer → Outcome Unit × ConnWriter σ
  | w, [] => (.ok (), w)
  | w, b :: mb =>
    if !b.isEmpty then
      match w.write k b.bytes with
      | (.ok _, w) => writeMultiBuffer w mb
      | (.error e, w) => (.error e, w)
      | (.panic, w) => (.panic, w)
    else writeMultiBuffer w mb

end ConnWriter

/-! ## The reader -/

/-- The reader, with what it has read as the hash of the user. -/
structure ConnReader where
  reader : BufferedReader
  hash : Bytes := []
  target : Destination := {}
  headerParsed : Bool := false

namespace ConnReader

def parseHeader (parseIP : Bytes → Option IPv6) (c : ConnReader) : Option Error × ConnReader :=
  match c.reader.readFull 56 with
  | (.error e, reader) => (some (failedToReadHash.base e), { c with reader })
  | (.ok hash, reader) =>
    match reader.readFull 2 with
    | (.error e, reader) => (some (failedToReadCrlf.base e), { c with reader, hash })
    | (.ok _, reader) =>
      match reader.readFull 1 with
      | (.error e, reader) => (some (failedToReadCommand.base e), { c with reader, hash })
      | (.ok command, reader) =>
        let network := if command.headD 0 = commandUDP then .udp else .tcp
        match addrParser.readAddressPort parseIP BufferedReader.readFull [] reader with
        | (.error e, reader) => (some (failedToReadAddress.base e), { c with reader, hash })
        | (.ok (address, port, _), reader) =>
          match reader.readFull 2 with
          | (.error e, reader) =>
            (some (failedToReadCrlf.base e),
              { c with reader, hash, target := ⟨address, port, network⟩ })
          | (.ok _, reader) => (none, ⟨reader, hash, ⟨address, port, network⟩, true⟩)

/-- A read of the reader itself. -/
def readThrough (c : ConnReader) (n : ℕ) : Except Error Bytes × ConnReader :=
  let (out, reader) := c.reader.read n
  (out, { c with reader })

variable (parseIP : Bytes → Option IPv6)

def read (c : ConnReader) (n : ℕ) : Except Error Bytes × ConnReader :=
  if !c.headerParsed then
    match c.parseHeader parseIP with
    | (some e, c) => (.error e, c)
    | (none, c) => c.readThrough n
  else c.readThrough n

def readMultiBuffer (c : ConnReader) : (MultiBuffer × Option Error) × ConnReader :=
  match c.read parseIP bufSize with
  | (.ok p, c) => (([(Buffer.new.write p).1], none), c)
  | (.error e, c) => (([.new], some e), c)

end ConnReader

/-! ## Runs -/

/-- A call of the writer. -/
inductive WriteCall
  | write (p : Bytes)
  | writeMultiBuffer (mb : MultiBuffer)

namespace WriteCall

/-- The bytes that a call is given. -/
def payload : WriteCall → Bytes
  | .write p => p
  | .writeMultiBuffer mb => MultiBuffer.bytes mb

/-- The call writes, be it nothing: it is a `write`, or has a buffer that is not empty. -/
def writes : WriteCall → Bool
  | .write _ => true
  | .writeMultiBuffer mb => !MultiBuffer.isEmpty mb

end WriteCall

/-- A call of the reader. -/
inductive ReadCall
  | read (n : ℕ)
  | readMultiBuffer

/-- The number of bytes that a call may return. -/
def ReadCall.size : ReadCall → ℕ
  | .read n => n
  | .readMultiBuffer => bufSize

section

variable {σ : Type} (k : Sink σ)

def ConnWriter.call (w : ConnWriter σ) : WriteCall → Outcome Unit × ConnWriter σ
  | .write p =>
    let (out, w) := w.write k p
    (out.map fun _ => (), w)
  | .writeMultiBuffer mb => w.writeMultiBuffer k mb

/-- Calls one after another, until one fails. -/
def ConnWriter.calls : ConnWriter σ → List WriteCall → Outcome Unit × ConnWriter σ
  | w, [] => (.ok (), w)
  | w, call :: rest =>
    match w.call k call with
    | (.ok _, w) => calls w rest
    | (.error e, w) => (.error e, w)
    | (.panic, w) => (.panic, w)

end

/-- The bytes that a call returns, and its error. -/
def ConnReader.call (parseIP : Bytes → Option IPv6) (c : ConnReader) :
    ReadCall → (Bytes × Option Error) × ConnReader
  | .read n =>
    match c.read parseIP n with
    | (.ok p, c) => ((p, none), c)
    | (.error e, c) => (([], some e), c)
  | .readMultiBuffer =>
    let ((mb, err), c) := c.readMultiBuffer parseIP
    ((MultiBuffer.bytes mb, err), c)

/-- Calls one after another. -/
def ConnReader.calls (parseIP : Bytes → Option IPv6) :
    ConnReader → List ReadCall → List (Bytes × Option Error) × ConnReader
  | c, [] => ([], c)
  | c, call :: rest =>
    let (out, c) := c.call parseIP call
    let (outs, c) := calls parseIP c rest
    (out :: outs, c)

end Trojan

end Gzv2ray
