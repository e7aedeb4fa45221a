import Gzv2ray.Buf.Reading
import Gzv2ray.Http.Sniff

/-!
# Reading an HTTP header

A connection that is disguised as HTTP starts with a header, up to an empty line.
It is read in parts, as they come. Of each part that does not bring the empty line,
all but the last four bytes are put aside, and parsed together with those before,
so that what is not HTTP is refused early.

* `HeaderReader.read`, `Conn.read`: the code;
* `Receives`: how the parts come;
* `headerLoop_spec`: the header is found unless the parser refuses what was put aside;
* `HeaderReader.read_iff`: so it depends on the segments of the connection.

The parser of the requests is a parameter.
-/

namespace Gzv2ray

/-- `bytes.Index`: where the first occurrence starts. -/
def bytesIndex (s sub : Bytes) : Option ℕ := s.tails.findIdx? fun t => sub.isPrefixOf t

namespace Headers

open Http (cr lf)

/-! ## The reader -/

def maxHeaderLength : ℕ := 8192

def ending : Bytes := [cr, lf, cr, lf]

def errHeaderTooLong : Error := newError "transport/internet/headers/http" "Header too long."

def errHeaderMisMatch : Error := newError "transport/internet/headers/http" "Header Mismatch."

/-- What is used of a request: the path of its URL. -/
structure Request where
  path : Bytes
  deriving DecidableEq

/-- What comes of the loop: the header and what was read behind it, or what is returned. -/
inductive Header
  | found (header : Bytes) (buffer : Buffer)
  | tooLong
  | returned (out : Except Error (Option Buffer))

variable (readRequest : Bytes → Except Error Request)

/-- The loop, which puts aside what is in the buffer, but for its last four bytes. -/
def headerLoop : ℕ → Buffer → Bytes → ℕ → BufferedReader → Header × BufferedReader
  | 0, _, _, _, reader => (.tooLong, reader)
  | fuel + 1, buffer, headerBuf, totalBytes, reader =>
    if totalBytes < maxHeaderLength then
      match reader.read (bufSize - buffer.stop) with
      | (.error e, reader) => (.returned (.error e), reader)
      | (.ok out, reader) =>
        let buffer := (buffer.write out).1
        match bytesIndex buffer.bytes ending with
        | some n =>
          (.found (headerBuf ++ buffer.bytes.take (n + ending.length))
            (buffer.advance (n + ending.length)), reader)
        | none =>
          if ending.length ≤ buffer.len then
            let kept := buffer.len - ending.length
            let headerBuf := headerBuf ++ buffer.bytes.take kept
            match readRequest headerBuf with
            | .error .unexpectedEOF =>
              headerLoop fuel (Buffer.new.write (buffer.bytes.drop kept)).1 headerBuf
                (totalBytes + kept) reader
            | .error e => (.returned (.error e), reader)
            | .ok _ => (.returned (.ok none), reader)
          else headerLoop fuel buffer headerBuf totalBytes reader
    else (.tooLong, reader)

/-- What is left in the buffer, which is released if it is empty. -/
def leftover (buffer : Buffer) : Option Buffer := if buffer.isEmpty then none else some buffer

/-- `HeaderReader.Read`, which may expect one of some paths. A read takes a byte or uses a segment
    up, which bounds the number of iterations. -/
def HeaderReader.read (expectedUri : Option (List Bytes)) (reader : BufferedReader) :
    Except Error (Option Buffer) × BufferedReader :=
  match headerLoop readRequest (reader.reader.segments.length + reader.bytes.length + 1) .new [] 0
    reader with
  | (.returned out, reader) => (out, reader)
  | (.tooLong, reader) => (.error errHeaderTooLong, reader)
  | (.found header buffer, reader) =>
    match expectedUri with
    | none => (.ok (leftover buffer), reader)
    | some uri =>
      match readRequest header with
      | .error e => (.error e, reader)
      | .ok req =>
        if uri.any (· == req.path) then (.ok (leftover buffer), reader)
        else (.error errHeaderMisMatch, reader)

/-- A connection whose header is read before anything else. -/
structure Conn where
  conn : BufferedReader
  readBuffer : Option Buffer := none
  oneTimeReader : Option (BufferedReader → Except Error (Option Buffer) × BufferedReader)
  errReason : Option Error := none

/-- What was read behind the header comes first. -/
def Conn.readOn (c : Conn) (n : ℕ) : Except Error Bytes × Conn :=
  match c.readBuffer.filter fun buffer => !buffer.isEmpty with
  | some buffer =>
    let (buffer, out) := buffer.read n
    (.ok out, { c with readBuffer := leftover buffer })
  | none =>
    let (out, conn) := c.conn.read n
    (out, { c with conn })

/-- `Conn.Read`. -/
def Conn.read (c : Conn) (n : ℕ) : Except Error Bytes × Conn :=
  match c.oneTimeReader with
  | some readHeader =>
    match readHeader c.conn with
    | (.error e, conn) => (.error e, { c with conn, errReason := some e })
    | (.ok readBuffer, conn) => { c with conn, readBuffer, oneTimeReader := none }.readOn n
  | none => c.readOn n

/-- The bytes left in a buffer, if there is one. -/
def leftoverBytes (buffer : Option Buffer) : Bytes := buffer.elim [] Buffer.bytes

/-- The bytes that are to come. -/
def Conn.bytes (c : Conn) : Bytes := leftoverBytes c.readBuffer ++ c.conn.bytes

theorem leftoverBytes_leftover (buffer : Buffer) : leftoverBytes (leftover buffer) = buffer.bytes := by
  rw [leftover]
  split_ifs with hempty
  · exact ((Buffer.isEmpty_iff _).1 hempty).symm
  · rfl

/-- Once the header has been read, each read takes the next bytes. -/
theorem Conn.readOn_bytes (c : Conn) (n : ℕ) :
    (∃ out c', c.readOn n = (.ok out, c') ∧ out ++ c'.bytes = c.bytes ∧
      c'.oneTimeReader = c.oneTimeReader) ∨
    ∃ e c', c.readOn n = (.error e, c') ∧ c.bytes = [] := by
  rw [readOn]
  generalize hbuffer : c.readBuffer.filter (fun buffer => !buffer.isEmpty) = filled
  rcases filled with - | buffer
  · have hnil : leftoverBytes c.readBuffer = [] := by
      rcases hread : c.readBuffer with - | buffer
      · rfl
      · rw [hread, Option.filter_eq_none_iff] at hbuffer
        exact (Buffer.isEmpty_iff _).1 (by simpa using hbuffer buffer rfl)
    rcases c.conn.read_cases n with ⟨out, conn, hread, hbytes, -⟩ | ⟨hread, hbytes, -⟩ <;>
      rw [hread]
    · refine .inl ⟨out, _, rfl, ?_, rfl⟩
      rw [bytes, bytes, hnil, List.nil_append, List.nil_append, hbytes]
    · exact .inr ⟨_, _, rfl, by rw [bytes, hnil, hbytes, List.nil_append]⟩
  · obtain ⟨hread, -⟩ := Option.filter_eq_some_iff.1 hbuffer
    refine .inl ⟨(buffer.read n).2, { c with readBuffer := leftover (buffer.read n).1 }, rfl, ?_, rfl⟩
    rw [bytes, bytes, hread, leftoverBytes_leftover, Buffer.read_snd, Buffer.read_fst_bytes,
      ← List.append_assoc, List.take_append_drop]
    rfl

/-- What follows the header is read from a connection on which it was found. -/
theorem Conn.read_bytes {readHeader : BufferedReader → Except Error (Option Buffer) × BufferedReader}
    {reader reader' : BufferedReader} {buffer : Option Buffer} {payload : Bytes}
    (h : readHeader reader = (.ok buffer, reader'))
    (hpayload : leftoverBytes buffer ++ reader'.bytes = payload) (n : ℕ) :
    (∃ out c', Conn.read { conn := reader, oneTimeReader := some readHeader } n = (.ok out, c') ∧
      out ++ c'.bytes = payload ∧ c'.oneTimeReader = none) ∨
    ∃ e c', Conn.read { conn := reader, oneTimeReader := some readHeader } n = (.error e, c') ∧
      payload = [] := by
  rw [Conn.read]
  dsimp only
  rw [h, ← hpayload]
  exact Conn.readOn_bytes _ n

/-! ## Where the ending is found -/

theorem bytesIndex_eq_some {s sub : Bytes} {i : ℕ} (hle : i ≤ s.length) (hfound : sub <+: s.drop i)
    (hfirst : ∀ j < i, ¬ sub <+: s.drop j) : bytesIndex s sub = some i := by
  rw [bytesIndex, List.findIdx?_eq_some_iff_getElem]
  refine ⟨by rw [List.length_tails]; omega, ?_, fun j hj => ?_⟩
  · rw [List.getElem_tails]
    exact List.isPrefixOf_iff_prefix.2 hfound
  · rw [List.getElem_tails, List.isPrefixOf_iff_prefix]
    exact hfirst j hj

theorem bytesIndex_eq_none {s sub : Bytes} (h : ∀ i, ¬ sub <+: s.drop i) :
    bytesIndex s sub = none := by
  rw [bytesIndex, List.findIdx?_eq_none_iff]
  intro t ht
  rw [Bool.eq_false_iff, Ne, List.isPrefixOf_iff_prefix,
    List.suffix_iff_eq_drop.1 ((List.mem_tails _ _).1 ht)]
  exact h _

/-- The first empty line of a stream ends with the header, so many bytes behind its start. -/
structure IsHeader (s : Bytes) (len : ℕ) : Prop where
  found : ending <+: s.drop (len - ending.length)
  first : ∀ i < len - ending.length, ¬ ending <+: s.drop i
  length : ending.length ≤ len
  le : len ≤ maxHeaderLength

theorem ending_prefix_iff {s : Bytes} {a n j : ℕ} :
    ending <+: ((s.take n).drop a).drop j ↔ ending <+: s.drop (a + j) ∧ ending.length ≤ n - (a + j) := by
  rw [List.drop_drop, List.drop_take, List.prefix_take_iff]

/-- In what has been received from a point within the header on, up to a point behind it. -/
theorem IsHeader.bytesIndex_some {s : Bytes} {len a n : ℕ} (h : IsHeader s len)
    (ha : a + ending.length ≤ len) (hn : len ≤ n) (hs : n ≤ s.length) :
    bytesIndex ((s.take n).drop a) ending = some (len - ending.length - a) := by
  have hlength := h.length
  refine bytesIndex_eq_some ?_ (ending_prefix_iff.2 ⟨?_, by omega⟩) fun j hj hfound =>
    h.first (a + j) (by omega) (ending_prefix_iff.1 hfound).1
  · rw [List.length_drop, List.length_take]
    omega
  · rw [show a + (len - ending.length - a) = len - ending.length by omega]
    exact h.found

/-- Up to a point within the header, it is not found. -/
theorem IsHeader.bytesIndex_none {s : Bytes} {len a n : ℕ} (h : IsHeader s len) (hn : n < len) :
    bytesIndex ((s.take n).drop a) ending = none := by
  refine bytesIndex_eq_none fun j hfound => ?_
  obtain ⟨hfound, hlength⟩ := ending_prefix_iff.1 hfound
  have hpos : 0 < ending.length := by decide
  exact h.first (a + j) (by omega) hfound

/-! ## The parts of a header -/

/-- More bytes have been received, in one read or more, each of as many bytes as there is room for
    behind those that are kept. -/
inductive Receives : ℕ → BufferedReader → ℕ → BufferedReader → Prop
  | once {n : ℕ} {r r' : BufferedReader} {out : Bytes} :
    r.read (bufSize - min n ending.length) = (.ok out, r') → Receives n r (n + out.length) r'
  | more {n n' : ℕ} {r r' r'' : BufferedReader} {out : Bytes} :
    r.read (bufSize - min n ending.length) = (.ok out, r') → Receives (n + out.length) r' n' r'' →
    Receives n r n' r''

theorem Receives.le {n n' : ℕ} {r r' : BufferedReader} (h : Receives n r n' r') : n ≤ n' := by
  induction h with
  | once => exact Nat.le_add_right _ _
  | more _ _ ih => exact (Nat.le_add_right _ _).trans ih

/-- What the first read brings is among it. -/
theorem Receives.first_le {n n' : ℕ} {r r' r'' : BufferedReader} {out : Bytes}
    (h : Receives n r n' r'') (hread : r.read (bufSize - min n ending.length) = (.ok out, r')) :
    n + out.length ≤ n' := by
  rcases h with hread' | ⟨hread', hlater⟩
  · obtain rfl := Except.ok.inj (congrArg Prod.fst (hread.symm.trans hread'))
    exact le_rfl
  · obtain rfl := Except.ok.inj (congrArg Prod.fst (hread.symm.trans hread'))
    exact hlater.le

/-- What is put aside of each part that ends within the header is said to be incomplete. -/
def Passes (s : Bytes) (len n : ℕ) (r : BufferedReader) : Prop :=
  ∀ n' r', Receives n r n' r' → ending.length ≤ n' → n' < len →
    readRequest (s.take (n' - ending.length)) = .error .unexpectedEOF

theorem passes_iff (s : Bytes) (len : ℕ) {n : ℕ} {r r' : BufferedReader} {out : Bytes}
    (hread : r.read (bufSize - min n ending.length) = (.ok out, r')) :
    Passes readRequest s len n r ↔
      (ending.length ≤ n + out.length → n + out.length < len →
        readRequest (s.take (n + out.length - ending.length)) = .error .unexpectedEOF) ∧
      Passes readRequest s len (n + out.length) r' := by
  refine ⟨fun h => ⟨h _ _ (.once hread), fun n' r'' hlater => h n' r'' (.more hread hlater)⟩, ?_⟩
  rintro ⟨hfirst, hlater⟩ n' r'' hreceives
  cases hreceives with
  | once hread' =>
    obtain ⟨hout, rfl⟩ := Prod.mk.inj (hread.symm.trans hread')
    obtain rfl := Except.ok.inj hout
    exact hfirst
  | more hread' hlater' =>
    obtain ⟨hout, rfl⟩ := Prod.mk.inj (hread.symm.trans hread')
    obtain rfl := Except.ok.inj hout
    exact hlater n' r'' hlater'

theorem take_append_slice {s : Bytes} {a k n : ℕ} (h : a + k ≤ n) :
    s.take a ++ ((s.take n).drop a).take k = s.take (a + k) := by
  rw [List.take_add, List.drop_take, List.take_take, Nat.min_eq_left (by omega)]

/-- A read takes the stream further. -/
theorem read_further {s : Bytes} {n m : ℕ} {r : BufferedReader} (hn : n < s.length)
    (hr : r.bytes = s.drop n) :
    ∃ out r', r.read m = (.ok out, r') ∧ out.length ≤ m ∧ n + out.length ≤ s.length ∧
      s.take (n + out.length) = s.take n ++ out ∧ r'.bytes = s.drop (n + out.length) := by
  have hlength : r.bytes.length = s.length - n := by rw [hr, List.length_drop]
  rcases r.read_cases m with ⟨out, r', hread, hbytes, hlen, -⟩ | ⟨-, hnil, -⟩
  · have hsplit : s.drop n = out ++ r'.bytes := by rw [← hr, hbytes]
    rw [← hbytes, List.length_append] at hlength
    refine ⟨out, r', hread, hlen, by omega, ?_, ?_⟩
    · rw [List.take_add, hsplit, List.take_left]
    · rw [← List.drop_drop, hsplit, List.drop_left]
  · rw [hnil, List.length_nil] at hlength
    omega

/-- So many bytes of the stream have been received. The last ones are in the buffer. -/
structure Holds (s : Bytes) (n : ℕ) (buffer : Buffer) (r : BufferedReader) : Prop where
  start : buffer.start = 0
  buffer : buffer.bytes = (s.take n).drop (n - ending.length)
  reader : r.bytes = s.drop n

/-- A part brings the ending, or is refused, or the loop goes on. -/
theorem headerLoop_step {s : Bytes} {len : ℕ} (h : IsHeader s len) (hlen : len ≤ s.length)
    (fuel : ℕ) {n : ℕ} {buffer : Buffer} {r : BufferedReader} (hat : Holds s n buffer r)
    (hn : n < len) : ∃ n' out r', n' = n + out.length ∧
      r.read (bufSize - min n ending.length) = (.ok out, r') ∧ r'.bytes = s.drop n' ∧
      ((len ≤ n' ∧ ∃ b, headerLoop readRequest (fuel + 1) buffer (s.take (n - ending.length))
          (n - ending.length) r = (.found (s.take len) b, r') ∧ b.bytes ++ r'.bytes = s.drop len) ∨
        (n' < len ∧ ending.length ≤ n' ∧
          readRequest (s.take (n' - ending.length)) ≠ .error .unexpectedEOF ∧
          ∃ res, headerLoop readRequest (fuel + 1) buffer (s.take (n - ending.length))
            (n - ending.length) r = (.returned res, r') ∧ ∀ b, res = .ok b → b = none) ∨
        (n' < len ∧ (ending.length ≤ n' →
          readRequest (s.take (n' - ending.length)) = .error .unexpectedEOF) ∧
          ∃ buffer', Holds s n' buffer' r' ∧
            headerLoop readRequest (fuel + 1) buffer (s.take (n - ending.length))
              (n - ending.length) r = headerLoop readRequest fuel buffer'
                (s.take (n' - ending.length)) (n' - ending.length) r')) := by
  obtain ⟨hstart, hbuffer, hr⟩ := hat
  have hmax := h.le
  have hlength := h.length
  have hfour : ending.length = 4 := rfl
  have hsize : bufSize = 2048 := rfl
  have hcount : buffer.bytes.length = min n ending.length := by
    rw [hbuffer, List.length_drop, List.length_take]
    omega
  have hroom : bufSize - buffer.stop = bufSize - min n ending.length := by
    rw [Buffer.stop, hstart, hcount, Nat.zero_add]
  obtain ⟨out, r', hread, hle, hend, htake, hr'⟩ :=
    read_further (m := bufSize - min n ending.length) (hn.trans_le hlen) hr
  have hwrite : (buffer.write out).1.bytes = (s.take (n + out.length)).drop (n - ending.length) := by
    rw [buffer.write_bytes (by rw [Buffer.stop, hstart, hcount]; omega), hbuffer, htake,
      List.drop_append_of_le_length (by rw [List.length_take]; omega)]
  refine ⟨_, out, r', rfl, hread, hr', ?_⟩
  rw [headerLoop, if_pos (by omega), hroom, hread]
  dsimp only
  rw [hwrite]
  rcases Nat.lt_or_ge (n + out.length) len with hmore | hdone
  · rw [h.bytesIndex_none hmore]
    dsimp only
    have hbuffered : (buffer.write out).1.len = n + out.length - (n - ending.length) := by
      rw [Buffer.len, hwrite, List.length_drop, List.length_take]
      omega
    rw [hbuffered]
    split_ifs with hfill
    · -- All but the last four bytes are put aside.
      have hkept : n - ending.length + (n + out.length - (n - ending.length) - ending.length) =
          n + out.length - ending.length := by omega
      have hfits : ((s.take (n + out.length)).drop (n + out.length - ending.length)).length ≤
          bufSize := by
        rw [List.length_drop, List.length_take]
        omega
      rw [take_append_slice (by omega), List.drop_drop, hkept]
      by_cases hpass : readRequest (s.take (n + out.length - ending.length)) =
          .error .unexpectedEOF
      · refine .inr (.inr ⟨hmore, fun _ => hpass, _, ⟨rfl, Buffer.write_new _ hfits, hr'⟩, ?_⟩)
        rw [hpass]
      · refine .inr (.inl ⟨hmore, by omega, hpass, ?_⟩)
        generalize readRequest (s.take (n + out.length - ending.length)) = parsed at hpass
        rcases parsed with e | req
        · refine ⟨.error e, ?_, by simp⟩
          rcases e <;> first | rfl | exact absurd rfl hpass
        · exact ⟨.ok none, rfl, by simp⟩
    · -- There are less than four bytes.
      have hshort : n + out.length - ending.length = n - ending.length := by omega
      refine .inr (.inr ⟨hmore, fun hle => absurd hle (by omega), (buffer.write out).1,
        ⟨hstart, by rw [hwrite, hshort], hr'⟩, by rw [hshort]⟩)
  · rw [h.bytesIndex_some (by omega) hdone hend]
    have hlast : n - ending.length + (len - ending.length - (n - ending.length) + ending.length) =
        len := by omega
    refine .inl ⟨hdone, (buffer.write out).1.advance
      (len - ending.length - (n - ending.length) + ending.length), ?_, ?_⟩
    · dsimp only
      rw [take_append_slice (by omega), hlast]
    · rw [Buffer.advance]
      dsimp only
      rw [hwrite, List.drop_drop, hlast, hr', ← List.drop_append_of_le_length
        (by rw [List.length_take]; omega), List.take_append_drop]

/-- The loop finds the header, with what was received behind it, if every part passes; otherwise it
    returns within the header. -/
theorem headerLoop_spec {s : Bytes} {len : ℕ} (h : IsHeader s len) (hlen : len ≤ s.length)
    (fuel : ℕ) {n : ℕ} {buffer : Buffer} {r : BufferedReader} (hat : Holds s n buffer r)
    (hfuel : r.reader.segments.length + r.bytes.length < fuel) (hn : n < len) :
    (Passes readRequest s len n r ∧ ∃ b r',
      headerLoop readRequest fuel buffer (s.take (n - ending.length)) (n - ending.length) r =
        (.found (s.take len) b, r') ∧ b.bytes ++ r'.bytes = s.drop len) ∨
    (¬ Passes readRequest s len n r ∧ ∃ n' out r',
      headerLoop readRequest fuel buffer (s.take (n - ending.length)) (n - ending.length) r =
        (.returned out, r') ∧ (∀ b, out = .ok b → b = none) ∧ r'.bytes = s.drop n' ∧ n' < len) := by
  induction fuel generalizing n r buffer with
  | zero => exact absurd hfuel (Nat.not_lt_zero _)
  | succ fuel ih =>
    obtain ⟨n', out, r', rfl, hread, hr', hstep⟩ :=
      headerLoop_step readRequest h hlen fuel hat hn
    have hless := r.read_less (by rw [show ending.length = 4 from rfl, bufSize]; omega) hread
    have hpasses := passes_iff readRequest s len hread
    rcases hstep with ⟨hdone, b, hloop, hbytes⟩ | ⟨hmore, hfill, hpass, out', hloop, hout⟩ |
      ⟨hmore, hpass, buffer', hat', hloop⟩
    · refine .inl ⟨hpasses.2 ⟨fun _ hlt => absurd hdone (by omega), fun n' r'' hlater _ hlt => ?_⟩,
        b, r', hloop, hbytes⟩
      exact absurd (hdone.trans hlater.le) (by omega)
    · exact .inr ⟨fun hall => hpass ((hpasses.1 hall).1 hfill hmore), _, out', r', hloop, hout, hr',
        hmore⟩
    · rw [hloop]
      rcases ih hat' (by omega) hmore with ⟨hall, hfound⟩ | ⟨hnot, hreturned⟩
      · exact .inl ⟨hpasses.2 ⟨fun hfill _ => hpass hfill, hall⟩, hfound⟩
      · exact .inr ⟨fun hall => hnot (hpasses.1 hall).2, hreturned⟩

/-! ## Which segments are accepted -/

/-- A header is one whatever comes behind it. -/
theorem IsHeader.append {header : Bytes} (h : IsHeader header header.length) (payload : Bytes) :
    IsHeader (header ++ payload) header.length where
  found := by
    rw [List.drop_append_of_le_length (Nat.sub_le _ _)]
    exact h.found.trans (List.prefix_append _ _)
  first i hi hfound := by
    rw [List.drop_append_of_le_length (by omega)] at hfound
    exact h.first i hi (List.prefix_of_prefix_length_le hfound (List.prefix_append _ _)
      (by rw [List.length_drop]; omega))
  length := h.length
  le := h.le

variable {readRequest}

/-- The header is read, and what was received behind it comes before what is left, if the parser
    takes no part of it for something else. -/
theorem HeaderReader.read_passes_iff {expectedUri : Option (List Bytes)} {header payload : Bytes}
    {req : Request} (h : IsHeader header header.length) (hparse : readRequest header = .ok req)
    (hpath : ∀ uri, expectedUri = some uri → req.path ∈ uri) {conn : BufferedReader}
    (hconn : conn.bytes = header ++ payload) :
    (∃ buffer conn', HeaderReader.read readRequest expectedUri conn = (.ok buffer, conn') ∧
      leftoverBytes buffer ++ conn'.bytes = payload) ↔
    Passes readRequest (header ++ payload) header.length 0 conn := by
  have hlen : header.length ≤ (header ++ payload).length := by
    rw [List.length_append]
    exact Nat.le_add_right _ _
  have hpos : 0 < header.length := (by decide : 0 < ending.length).trans_le h.length
  have hstart : Holds (header ++ payload) 0 .new conn := ⟨rfl, rfl, hconn⟩
  have hspec := headerLoop_spec readRequest (h.append payload) hlen
    (conn.reader.segments.length + conn.bytes.length + 1) hstart (Nat.lt_succ_self _) hpos
  rw [HeaderReader.read]
  rw [Nat.zero_sub, List.take_zero, List.take_left, List.drop_left] at hspec
  rcases hspec with ⟨hall, b, r', hloop, hbytes⟩ | ⟨hnot, n, out, r', hloop, hout, hr', hn⟩ <;>
    rw [hloop]
  · refine iff_of_true ⟨leftover b, r', ?_, by rw [leftoverBytes_leftover, hbytes]⟩ hall
    rcases expectedUri with - | uri
    · rfl
    · have hasThisURI : uri.any (· == req.path) = true :=
        List.any_eq_true.2 ⟨req.path, hpath uri rfl, beq_self_eq_true _⟩
      simp only [hparse, if_pos hasThisURI]
  · refine iff_of_false ?_ hnot
    rintro ⟨buffer, conn', hread, hpayload⟩
    obtain ⟨rfl, rfl⟩ := Prod.mk.inj hread
    rw [hout buffer rfl, leftoverBytes, Option.elim_none, List.nil_append, hr'] at hpayload
    -- Within the header, more is left than the payload.
    have hlength := congrArg List.length hpayload
    rw [List.length_drop, List.length_append] at hlength
    omega

def requestLine (header : Bytes) : Bytes := header.takeWhile (· ≠ lf)

/-- The length of the request line with what ends it, and without. -/
def lineLen (header : Bytes) : ℕ := (requestLine header).length + 1

def textLen (header : Bytes) : ℕ :=
  (requestLine header).length - if (requestLine header).getLast? = some cr then 1 else 0

/-- What the parser says of the beginning of a header: behind the request line, it is incomplete,
    and within, it is something else. What it says of one that ends within what ends the line, is
    left open. -/
structure CutsRequests (readRequest : Bytes → Except Error Request) (header : Bytes) : Prop where
  behind : ∀ k, lineLen header ≤ k → k + ending.length < header.length →
    readRequest (header.take k) = .error .unexpectedEOF
  within : ∀ k < textLen header, ∃ e, readRequest (header.take k) = .error e ∧ e ≠ .unexpectedEOF

/-- Each part that ends within the header, and so the first one, brings four bytes more than the
    request line. -/
def LineComes (readRequest : Bytes → Except Error Request) (header : Bytes)
    (conn : BufferedReader) : Prop :=
  ∀ n r, Receives 0 conn n r → ending.length ≤ n → n < header.length →
    textLen header + ending.length ≤ n ∧ (n < lineLen header + ending.length →
      readRequest (header.take (n - ending.length)) = .error .unexpectedEOF)

/-- A header without fields. -/
def exampleHeader : Bytes := ascii "GET / HTTP/1.1" ++ ending

/-- What the parser says of this header and of its beginnings up to the request line. -/
def exampleReadRequest (b : Bytes) : Except Error Request :=
  if b = [] then .error .eof
  else if exampleHeader <+: b then .ok ⟨ascii "/"⟩
  else if ascii "GET / HTTP/1.1" <+: b then .error .unexpectedEOF
  else .error (.new (ascii "malformed HTTP request"))

/-- The header and a byte behind it, of which so many come first. -/
def exampleConn (n : ℕ) : BufferedReader :=
  ⟨[], [[(Buffer.new.write ((exampleHeader ++ [1]).take n)).1],
    [(Buffer.new.write ((exampleHeader ++ [1]).drop n)).1]], .eof⟩

theorem exampleHeader_isHeader : IsHeader exampleHeader exampleHeader.length :=
  ⟨by decide, by decide, by decide, by decide⟩

theorem exampleHeader_cuts : CutsRequests exampleReadRequest exampleHeader where
  behind k hk hlt := absurd hk (by
    have hlen : lineLen exampleHeader = 16 := by decide
    have hlength : exampleHeader.length = 18 := by decide
    have hfour : ending.length = 4 := rfl
    omega)
  within k hk := by
    have hlen : textLen exampleHeader = 14 := by decide
    rw [hlen] at hk
    interval_cases k <;> exact ⟨_, rfl, by decide⟩

end Headers

end Gzv2ray
