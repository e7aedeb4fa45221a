import Gzv2ray.Lib.Interleaving
import Gzv2ray.Mux.Writer

/-!
# Multiplexing and demultiplexing

The sessions of a link write their frames in any order, each its own in order
(`Interleaves`). A receiver that reads the frames one after another, whatever the
segments of the link, finds for every session the frames of its calls
(`demultiplex`): what they opened, what they wrote, and that they closed it.
-/

namespace Gzv2ray

namespace Mux

/-! ## The sessions -/

/-- A call of the writer of a session, or a failure of the session that its end will
    tell. -/
inductive Call
  | write (mb : MultiBuffer)
  | fail
  | close

def Writer.call (w : Writer) : Call → List MultiBuffer × Writer
  | .write mb =>
    let (written, w) := w.writeMultiBuffer Writer.accept mb
    (written.link, w)
  | .fail => ([], { w with hasError := true })
  | .close => (w.close.link, w)

/-- What a sequence of calls writes to the link. -/
def Writer.calls : Writer → List Call → List MultiBuffer
  | _, [] => []
  | w, call :: calls => (w.call call).1 ++ Writer.calls (w.call call).2 calls

/-- A session: the target of a new one, which a response does not have, and the
    calls of its writer. -/
structure Session where
  target : Option Destination
  transferType : TransferType
  calls : List Call

namespace Session

variable (s : Session)

def writer (id : UInt16) : Writer :=
  match s.target with
  | some dest => newWriter id dest s.transferType
  | none => newResponseWriter id s.transferType

/-- What a session writes to the link. -/
def link (id : UInt16) : List MultiBuffer := (s.writer id).calls s.calls

/-- The target is one that is read, and no write is refused for its length. -/
structure IsValid (parseIP : Bytes → Option IPv6) : Prop where
  target (dest) : s.target = some dest → (dest.network = .tcp ∨ dest.network = .udp) ∧
    ∃ address, dest.address = some address ∧ address.IsReadable parseIP
  short (mb) : .write mb ∈ s.calls → mb.length < 64 * 1024 * 1024

end Session

/-! ## The receiver -/

/-- A frame received: its metadata, and the pieces in which its data came. -/
structure Received where
  metadata : FrameMetadata
  pieces : List MultiBuffer := []

namespace Received

def bytes (rc : Received) : Bytes := rc.pieces.flatMap MultiBuffer.bytes

def packets (rc : Received) : List Bytes := rc.pieces.map MultiBuffer.bytes

end Received

/-- The loop of a receiver: reads the frames one after another up to an error, and
    their data with the reader of their session. -/
def receiveLoop (parseIP : Bytes → Option IPv6) (types : UInt16 → TransferType) :
    ℕ → BufferedReader → List Received × Option Error
  | 0, _ => ([], none)
  | fuel + 1, r =>
    match ({} : FrameMetadata).unmarshal parseIP r with
    | (.error e, _) => ([], some e)
    | (.ok metadata, r) =>
      if has metadata.option optionData then
        let rr := PayloadReader.new (types metadata.sessionID) r
        let c := copyInternal PayloadReader.readMultiBuffer rr.fuel Writer.accept rr
        match c.error with
        | some (.read .eof) =>
          let (l, e) := receiveLoop parseIP types fuel c.reader.reader
          (⟨metadata, c.written⟩ :: l, e)
        | _ => ([⟨metadata, c.written⟩], none)
      else
        let (l, e) := receiveLoop parseIP types fuel r
        (⟨metadata, []⟩ :: l, e)

/-- A frame takes a byte at least. -/
def receive (parseIP : Bytes → Option IPv6) (types : UInt16 → TransferType) (r : BufferedReader) :
    List Received × Option Error :=
  receiveLoop parseIP types (r.bytes.length + 1) r

/-! ## What is recovered -/

section

variable (parseIP : Bytes → Option IPv6)

/-- The first frame of a session names its target, in canonical form. -/
def Opens (dest : Destination) (rc : Received) : Prop :=
  rc.metadata.sessionStatus = sessionStatusNew ∧
    rc.metadata.target = { dest with address := dest.address.map (·.canonical parseIP) }

def Continues (rc : Received) : Prop := rc.metadata.sessionStatus = sessionStatusKeep

/-- The frames received carry what is written, and the target if it was not named
    before: the bytes of a stream, or the packets that are not empty. -/
structure Carried (w : Writer) (mb : MultiBuffer) (l : List Received) : Prop where
  status : if w.followup then ∀ rc ∈ l, Continues rc
    else ∃ rc l', l = rc :: l' ∧ Opens parseIP w.dest rc ∧ ∀ rc ∈ l', Continues rc
  data : match w.transferType with
    | .stream => l.flatMap Received.bytes = MultiBuffer.bytes mb
    | .packet => l.flatMap Received.packets = (mb.filter fun b => !b.isEmpty).map Buffer.bytes

/-- The frames received are those of the calls: each carries what a call wrote, or is
    the end of the session. -/
def Recovers (w : Writer) : List Call → List Received → Prop
  | [], l => l = []
  | .write mb :: calls, l => ∃ l₁ l₂, l = l₁ ++ l₂ ∧ Carried parseIP w mb l₁ ∧
    Recovers { w with followup := true } calls l₂
  | .fail :: calls, l => Recovers { w with hasError := true } calls l
  | .close :: calls, l => ∃ rc l', l = rc :: l' ∧ rc.metadata.sessionStatus = sessionStatusEnd ∧
    has rc.metadata.option optionError = w.hasError ∧ rc.pieces = [] ∧ Recovers w calls l'

end

/-! ## Frame by frame -/

namespace SessionFrame

def bytes (fr : SessionFrame) : Bytes :=
  match fr.data with
  | none => []
  | some d => MultiBuffer.bytes d

def packets (fr : SessionFrame) : List Bytes := if fr.bytes = [] then [] else [fr.bytes]

end SessionFrame

/-- What is received is the frame. -/
structure Matches (parseIP : Bytes → Option IPv6) (transferType : TransferType) (fr : SessionFrame)
    (rc : Received) : Prop where
  metadata : rc.metadata = ({} : FrameMetadata).received parseIP fr.metadata
  none : fr.data = none → rc.pieces = []
  data : match transferType with
    | .stream => rc.bytes = fr.bytes
    | .packet => rc.packets = fr.packets

variable {parseIP : Bytes → Option IPv6} {types : UInt16 → TransferType}

/-- A frame is received, and no byte behind it is read. -/
theorem receiveLoop_frame {r : BufferedReader} {mb : MultiBuffer} {fr : SessionFrame} {rest : Bytes}
    (hframe : IsFrame parseIP mb fr) (hr : r.bytes = MultiBuffer.bytes mb ++ rest)
    (hpacket : types fr.metadata.sessionID = .packet → fr.bytes.length ≤ bufSize) :
    ∃ rc r', Matches parseIP (types fr.metadata.sessionID) fr rc ∧ r'.bytes = rest ∧
      r'.reader.err = r.reader.err ∧ ∀ fuel, receiveLoop parseIP types (fuel + 1) r =
        (rc :: (receiveLoop parseIP types fuel r').1, (receiveLoop parseIP types fuel r').2) := by
  obtain ⟨hreadable, b, hb, hmb⟩ := hframe
  rw [hmb, List.append_assoc] at hr
  obtain ⟨r₁, hread, hbytes, herr⟩ :=
    FrameMetadata.unmarshal_writeTo (f := {}) hreadable.metadata hb hr
  cases hdata : fr.data with
  | none =>
    have hoption := hreadable.option
    rw [hdata] at hoption
    rw [SessionFrame.payload, hdata] at hbytes
    refine ⟨⟨_, []⟩, r₁, ⟨rfl, fun _ => rfl, ?_⟩, hbytes, herr, fun fuel => ?_⟩
    · cases types fr.metadata.sessionID <;>
        simp [Received.bytes, Received.packets, SessionFrame.bytes, SessionFrame.packets, hdata]
    · rw [receiveLoop, hread]
      dsimp only
      rw [FrameMetadata.received_option, hoption]
      rfl
  | some d =>
    -- The reader of a packet returns it at once, that of a stream in pieces.
    have hoption := hreadable.option
    have hlen := hreadable.data d hdata
    rw [hdata] at hoption
    have hfr : fr.bytes = MultiBuffer.bytes d := by rw [SessionFrame.bytes, hdata]
    rw [SessionFrame.payload, hdata] at hbytes
    rw [MultiBuffer.len_eq] at hlen
    dsimp only at hbytes
    rw [MultiBuffer.len_eq] at hbytes
    obtain ⟨k, pieces, rr, hk, hhands, hpieces, hrest, herr'⟩ : ∃ k pieces rr,
        k ≤ (PayloadReader.new (types fr.metadata.sessionID) r₁).fuel ∧
        Hands PayloadReader.readMultiBuffer (PayloadReader.Leaves rest) k
          (.new (types fr.metadata.sessionID) r₁) pieces .eof rr ∧
        (match types fr.metadata.sessionID with
          | .stream => pieces.flatMap MultiBuffer.bytes = fr.bytes
          | .packet => pieces.map MultiBuffer.bytes = fr.packets) ∧
        rr.reader.bytes = rest ∧ rr.reader.reader.err = r₁.reader.err := by
      cases htype : types fr.metadata.sessionID with
      | stream => exact hfr ▸ PayloadReader.hands_stream hlen hbytes
      | packet =>
        have hshort := hfr ▸ hpacket htype
        obtain ⟨rr, hhands, hrest, herr'⟩ := PayloadReader.hands_packet hshort hbytes
        refine ⟨2, _, rr, Nat.le_add_left 2 _, hhands, ?_, hrest, herr'⟩
        dsimp only
        rw [SessionFrame.packets, hfr]
        split
        · rfl
        · simp [Buffer.write_new _ hshort]
    refine ⟨⟨_, pieces⟩, rr.reader, ⟨rfl, fun h => ?_, ?_⟩, hrest, herr'.trans herr, fun fuel => ?_⟩
    · rw [hdata] at h
      cases h
    · cases htype : types fr.metadata.sessionID <;> rw [htype] at hpieces <;> exact hpieces
    · have hall : ∀ j < pieces.length, Writer.accept j = none := fun _ _ => rfl
      rw [receiveLoop, hread]
      dsimp only
      rw [FrameMetadata.received_option, hoption, FrameMetadata.received_sessionID,
        hhands.copyInternal_all hk hall]
      rfl

/-- The frames of a link are received, whatever its segments. -/
theorem receiveLoop_spec {link : List MultiBuffer} {frs : List SessionFrame}
    (h : List.Forall₂ (IsFrame parseIP) link frs)
    (hpacket : ∀ fr ∈ frs, types fr.metadata.sessionID = .packet → fr.bytes.length ≤ bufSize)
    {r : BufferedReader} (hr : r.bytes = link.flatMap MultiBuffer.bytes) {fuel : ℕ}
    (hfuel : link.length < fuel) :
    ∃ l, receiveLoop parseIP types fuel r = (l, some r.reader.err) ∧
      List.Forall₂ (fun fr rc => Matches parseIP (types fr.metadata.sessionID) fr rc) frs l := by
  induction h generalizing r fuel with
  | nil =>
    obtain ⟨fuel, rfl⟩ := Nat.exists_eq_succ_of_ne_zero (Nat.ne_zero_of_lt hfuel)
    obtain ⟨r', hread, -⟩ := r.readFull_short (n := 2) (by rw [hr]; decide)
    refine ⟨[], ?_, .nil⟩
    have hshort : BufferedReader.shortError r.bytes r.reader.err = r.reader.err := by
      rw [hr, BufferedReader.shortError]
      split
      · rename_i he
        rw [he]
        rfl
      · rfl
    rw [receiveLoop, FrameMetadata.unmarshal, hread, hshort]
  | @cons mb fr link frs hframe _ ih =>
    obtain ⟨fuel, rfl⟩ := Nat.exists_eq_succ_of_ne_zero (Nat.ne_zero_of_lt hfuel)
    obtain ⟨rc, r', hmatch, hbytes, herr, hloop⟩ := receiveLoop_frame hframe hr
      (hpacket fr List.mem_cons_self)
    obtain ⟨l, hl, hforall⟩ := ih (fun fr hfr => hpacket fr (List.mem_cons_of_mem _ hfr)) hbytes
      (Nat.lt_of_succ_lt_succ hfuel)
    exact ⟨rc :: l, by rw [hloop, hl, herr], .cons hmatch hforall⟩

/-! ## Call by call -/

section

variable {w : Writer} {transferType : TransferType} {frs frs' : List SessionFrame} {l : List Received}

/-- The frames of a session, as they are received. -/
abbrev AllMatch (parseIP : Bytes → Option IPv6) (transferType : TransferType)
    (frs : List SessionFrame) (l : List Received) : Prop :=
  List.Forall₂ (Matches parseIP transferType) frs l

theorem AllMatch.append (h : AllMatch parseIP transferType (frs ++ frs') l) :
    ∃ l₁ l₂, l = l₁ ++ l₂ ∧ AllMatch parseIP transferType frs l₁ ∧
      AllMatch parseIP transferType frs' l₂ := by
  induction frs generalizing l with
  | nil => exact ⟨[], l, rfl, .nil, h⟩
  | cons fr frs ih =>
    obtain ⟨rc, l', hrc, hl', rfl⟩ := List.forall₂_cons_left_iff.1 h
    obtain ⟨l₁, l₂, rfl, h₁, h₂⟩ := ih hl'
    exact ⟨rc :: l₁, l₂, rfl, .cons hrc h₁, h₂⟩

theorem AllMatch.bytes (h : AllMatch parseIP .stream frs l) :
    l.flatMap Received.bytes = frs.flatMap SessionFrame.bytes := by
  induction h with
  | nil => rfl
  | cons hrc _ ih => rw [List.flatMap_cons, List.flatMap_cons, ih, hrc.data]

theorem AllMatch.packets (h : AllMatch parseIP .packet frs l) :
    l.flatMap Received.packets = frs.flatMap SessionFrame.packets := by
  induction h with
  | nil => rfl
  | cons hrc _ ih => rw [List.flatMap_cons, List.flatMap_cons, ih, hrc.data]

theorem AllMatch.continues {ds : List MultiBuffer} (hw : w.followup = true)
    (h : AllMatch parseIP transferType (w.frames ds) l) : ∀ rc ∈ l, Continues rc := by
  induction ds generalizing w l with
  | nil =>
    rw [List.forall₂_nil_left_iff.1 h]
    exact fun _ hrc => absurd hrc List.not_mem_nil
  | cons d ds ih =>
    obtain ⟨rc, l', hrc, hl', rfl⟩ := List.forall₂_cons_left_iff.1 h
    intro rc' hrc'
    rcases List.mem_cons.1 hrc' with rfl | hrc'
    · rw [Continues, hrc.metadata, FrameMetadata.received_sessionStatus]
      simp [Writer.getNextFrameMeta, hw]
    · exact ih (w := w.getNextFrameMeta.2) rfl hl' rc' hrc'

theorem opens_of_matches {f : FrameMetadata} {d : Option MultiBuffer} {rc : Received}
    (hrc : Matches parseIP transferType ⟨f, d⟩ rc) (hnew : f.sessionStatus = sessionStatusNew) :
    Opens parseIP f.target rc := by
  refine ⟨by rw [hrc.metadata, FrameMetadata.received_sessionStatus, hnew], ?_⟩
  rw [hrc.metadata, FrameMetadata.received, if_pos hnew]

theorem frames_bytes (w : Writer) (ds : List MultiBuffer) :
    (w.frames ds).flatMap SessionFrame.bytes = ds.flatMap MultiBuffer.bytes := by
  induction ds generalizing w with
  | nil => rfl
  | cons d ds ih => rw [Writer.frames, List.flatMap_cons, List.flatMap_cons, ih]; rfl

theorem frames_packets (w : Writer) (mb : MultiBuffer) :
    (w.frames (mb.map fun b => [b])).flatMap SessionFrame.packets =
      (mb.filter fun b => !b.isEmpty).map Buffer.bytes := by
  induction mb generalizing w with
  | nil => rfl
  | cons b mb ih =>
    rw [List.map_cons, Writer.frames, List.flatMap_cons, ih, List.filter_cons]
    by_cases hb : b.bytes = []
    · simp [SessionFrame.packets, SessionFrame.bytes, hb, Buffer.isEmpty]
    · simp [SessionFrame.packets, SessionFrame.bytes, hb, Buffer.isEmpty]

/-- The frames of a write carry it. -/
theorem carried_of_frames {mb : MultiBuffer} {ds : List MultiBuffer} (hds : ds ≠ [])
    (hcuts : Writer.Cuts w.transferType mb ds)
    (h : AllMatch parseIP w.transferType (w.frames ds) l) : Carried parseIP w mb l where
  status := by
    split
    · rename_i hw
      exact AllMatch.continues hw h
    · rename_i hw
      obtain ⟨d, ds, rfl⟩ := List.exists_cons_of_ne_nil hds
      obtain ⟨rc, l', hrc, hl', rfl⟩ := List.forall₂_cons_left_iff.1 h
      refine ⟨rc, l', rfl, opens_of_matches hrc ?_,
        AllMatch.continues (w := w.getNextFrameMeta.2) rfl hl'⟩
      simp [Writer.getNextFrameMeta, hw]
  data := by
    cases htype : w.transferType with
    | stream =>
      rw [htype] at h hcuts
      dsimp only
      rw [h.bytes, frames_bytes]
      exact hcuts
    | packet =>
      rw [htype] at h hcuts
      obtain ⟨mb', rfl, hfilter⟩ := hcuts
      dsimp only
      rw [h.packets, frames_packets, hfilter]

/-- So does the frame without data of an empty write. -/
theorem carried_of_empty {mb : MultiBuffer} (hempty : MultiBuffer.isEmpty mb)
    (h : AllMatch parseIP w.transferType [⟨w.getNextFrameMeta.1, none⟩] l) :
    Carried parseIP w mb l := by
  obtain ⟨rc, l', hrc, hl', rfl⟩ := List.forall₂_cons_left_iff.1 h
  obtain rfl := List.forall₂_nil_left_iff.1 hl'
  have hpieces := hrc.none rfl
  refine ⟨?_, ?_⟩
  · split
    · rename_i hw
      intro rc' hrc'
      obtain rfl := List.mem_singleton.1 hrc'
      rw [Continues, hrc.metadata, FrameMetadata.received_sessionStatus]
      simp [Writer.getNextFrameMeta, hw]
    · rename_i hw
      refine ⟨rc, [], rfl, opens_of_matches hrc ?_, fun _ h => absurd h List.not_mem_nil⟩
      simp [Writer.getNextFrameMeta, hw]
  · have hfilter : mb.filter (fun b => !b.isEmpty) = [] := by
      rw [MultiBuffer.isEmpty, List.all_eq_true] at hempty
      rw [List.filter_eq_nil_iff]
      simpa using hempty
    rw [MultiBuffer.isEmpty_iff] at hempty
    cases w.transferType with
    | stream => simp [Received.bytes, hpieces, hempty]
    | packet => simp [Received.packets, hpieces, hfilter]

/-- The frames of a write are those of its session, and those of packets are short. -/
theorem frames_mem {mb : MultiBuffer} {ds : List MultiBuffer}
    (hcuts : Writer.Cuts w.transferType mb ds) {fr : SessionFrame} (hfr : fr ∈ w.frames ds) :
    fr.metadata.sessionID = w.id ∧ (w.transferType = .packet → fr.bytes.length ≤ bufSize) := by
  have hmem : ∃ d ∈ ds, fr.data = some d ∧ fr.metadata.sessionID = w.id := by
    clear hcuts
    induction ds generalizing w with
    | nil => exact absurd hfr List.not_mem_nil
    | cons d ds ih =>
      rcases List.mem_cons.1 hfr with rfl | hfr
      · exact ⟨d, List.mem_cons_self, rfl, rfl⟩
      · obtain ⟨d', hd', hdata, hid⟩ := ih hfr
        exact ⟨d', List.mem_cons_of_mem _ hd', hdata, hid⟩
  obtain ⟨d, hd, hdata, hid⟩ := hmem
  refine ⟨hid, fun htype => ?_⟩
  rw [htype] at hcuts
  obtain ⟨mb', rfl, -⟩ := hcuts
  obtain ⟨b, -, rfl⟩ := List.mem_map.1 hd
  rw [SessionFrame.bytes, hdata]
  simpa using b.len_le

/-- The calls of a session are written in frames of the session, which tell them. -/
theorem calls_spec (hw : w.IsValid parseIP) {calls : List Call}
    (hshort : ∀ mb, .write mb ∈ calls → mb.length < 64 * 1024 * 1024) :
    ∃ frs, List.Forall₂ (IsFrame parseIP) (w.calls calls) frs ∧
      (∀ fr ∈ frs, fr.metadata.sessionID = w.id ∧
        (w.transferType = .packet → fr.bytes.length ≤ bufSize)) ∧
      ∀ l, AllMatch parseIP w.transferType frs l → Recovers parseIP w calls l := by
  -- By induction on the calls: the frames of each are followed by those of the writer it leaves.
  induction calls generalizing w with
  | nil =>
    exact ⟨[], .nil, fun _ h => absurd h List.not_mem_nil, fun l h => List.forall₂_nil_left_iff.1 h⟩
  | cons call calls ih =>
    have hshort' : ∀ mb, .write mb ∈ calls → mb.length < 64 * 1024 * 1024 :=
      fun mb hmb => hshort mb (List.mem_cons_of_mem _ hmb)
    cases call with
    | write mb =>
      obtain ⟨frs₁, link, hwrite, hframes₁, hfrs₁⟩ :=
        Writer.writeMultiBuffer_spec hw (hshort mb List.mem_cons_self)
      obtain ⟨frs₂, hframes₂, hids₂, hrecovers⟩ := ih (w := w.getNextFrameMeta.2) w.isValid_next hshort'
      refine ⟨frs₁ ++ frs₂, ?_, fun fr hfr => ?_, fun l hl => ?_⟩
      · rw [Writer.calls, Writer.call, hwrite]
        exact List.rel_append hframes₁ hframes₂
      · rcases List.mem_append.1 hfr with hfr | hfr
        · rcases hfrs₁ with ⟨-, rfl⟩ | ⟨ds, -, rfl, hcuts⟩
          · obtain rfl := List.mem_singleton.1 hfr
            exact ⟨rfl, fun _ => Nat.zero_le _⟩
          · exact frames_mem hcuts hfr
        · exact hids₂ fr hfr
      · obtain ⟨l₁, l₂, rfl, h₁, h₂⟩ := hl.append
        refine ⟨l₁, l₂, rfl, ?_, hrecovers l₂ h₂⟩
        rcases hfrs₁ with ⟨hempty, rfl⟩ | ⟨ds, hds, rfl, hcuts⟩
        · exact carried_of_empty hempty h₁
        · exact carried_of_frames hds hcuts h₁
    | fail =>
      obtain ⟨frs, hframes, hids, hrecovers⟩ := ih (w := { w with hasError := true }) hw hshort'
      exact ⟨frs, hframes, hids, hrecovers⟩
    | close =>
      obtain ⟨mb, hclose, hframe⟩ := w.close_spec parseIP
      obtain ⟨frs, hframes, hids, hrecovers⟩ := ih hw hshort'
      refine ⟨⟨w.endMeta, none⟩ :: frs, ?_, fun fr hfr => ?_, fun l hl => ?_⟩
      · rw [Writer.calls, Writer.call, hclose]
        exact .cons hframe hframes
      · rcases List.mem_cons.1 hfr with rfl | hfr
        · exact ⟨rfl, fun _ => Nat.zero_le _⟩
        · exact hids fr hfr
      · obtain ⟨rc, l', hrc, hl', rfl⟩ := List.forall₂_cons_left_iff.1 hl
        refine ⟨rc, l', rfl, ?_, ?_, hrc.none rfl, hrecovers l' hl'⟩
        · rw [hrc.metadata, FrameMetadata.received_sessionStatus]
          rfl
        · rw [hrc.metadata, FrameMetadata.received_option]
          change has (if w.hasError then optionError else 0) optionError = w.hasError
          cases w.hasError <;> decide

end

/-! ## All sessions -/

theorem length_le_of_isFrame {link : List MultiBuffer} {frs : List SessionFrame}
    (h : List.Forall₂ (IsFrame parseIP) link frs) :
    link.length ≤ (link.flatMap MultiBuffer.bytes).length := by
  induction h with
  | nil => exact le_rfl
  | cons hframe _ ih =>
    obtain ⟨-, b, hb, hmb⟩ := hframe
    obtain ⟨-, -, m, -, rfl⟩ := FrameMetadata.writeTo_ok hb
    rw [List.flatMap_cons, List.length_append, List.length_cons, hmb]
    simp only [List.length_append, length_bigEndian]
    omega

/-- Whatever the order of the frames of the sessions on a link, and however its bytes
    are cut into segments, a receiver finds for every session its own calls, and
    nothing for the others. -/
theorem demultiplex {sessions : UInt16 → Option Session}
    (hvalid : ∀ id s, sessions id = some s → s.IsValid parseIP) {link : List MultiBuffer}
    (hlink : Interleaves (fun id => ((sessions id).map (Session.link · id)).getD []) link)
    (htypes : ∀ id s, sessions id = some s → types id = s.transferType) {r : BufferedReader}
    (hr : r.bytes = link.flatMap MultiBuffer.bytes) :
    ∃ l, receive parseIP types r = (l, some r.reader.err) ∧ ∀ id,
      (sessions id = none → l.filter (fun rc => rc.metadata.sessionID = id) = []) ∧
      ∀ s, sessions id = some s →
        Recovers parseIP (s.writer id) s.calls (l.filter fun rc => rc.metadata.sessionID = id) := by
  have hsession (id : UInt16) : ∃ frs,
      List.Forall₂ (IsFrame parseIP) (((sessions id).map (Session.link · id)).getD []) frs ∧
      (∀ fr ∈ frs, fr.metadata.sessionID = id ∧ (types id = .packet → fr.bytes.length ≤ bufSize)) ∧
      ∀ l, AllMatch parseIP (types id) frs l → (sessions id = none → l = []) ∧
        ∀ s, sessions id = some s → Recovers parseIP (s.writer id) s.calls l := by
    cases hs : sessions id with
    | none =>
      exact ⟨[], .nil, fun _ h => absurd h List.not_mem_nil,
        fun l h => ⟨fun _ => List.forall₂_nil_left_iff.1 h, fun s h => nomatch h⟩⟩
    | some s =>
      obtain ⟨htarget, hshort⟩ := hvalid id s hs
      have hwriter : (s.writer id).id = id ∧ (s.writer id).transferType = types id ∧
          (s.writer id).IsValid parseIP := by
        rw [htypes id s hs, Session.writer]
        cases hdest : s.target with
        | none =>
          exact ⟨rfl, rfl, fun h => absurd h (show ¬ sessionStatusKeep = sessionStatusNew by decide)⟩
        | some dest => exact ⟨rfl, rfl, fun _ => htarget dest hdest⟩
      obtain ⟨hid, htype, hw⟩ := hwriter
      obtain ⟨frs, hframes, hfrs, hrecovers⟩ := calls_spec hw hshort
      rw [hid, htype] at hfrs
      rw [htype] at hrecovers
      refine ⟨frs, hframes, hfrs, fun l hl => ⟨fun h => (nomatch h), ?_⟩⟩
      rintro _ ⟨⟩
      exact hrecovers l hl
  choose g hframes hg hrecovers using hsession
  have htag : ∀ id, ∀ fr ∈ g id, fr.metadata.sessionID = id := fun id fr hfr => (hg id fr hfr).1
  obtain ⟨frs, hfrs, hsort⟩ := hlink.sort hframes htag
  have hpacket : ∀ fr ∈ frs, types fr.metadata.sessionID = .packet → fr.bytes.length ≤ bufSize := by
    intro fr hfr
    refine (hg fr.metadata.sessionID fr ?_).2
    rw [← hsort, List.mem_filter]
    exact ⟨hfr, by simp⟩
  obtain ⟨l, hl, hmatch⟩ := receiveLoop_spec hfrs hpacket hr
    (Nat.lt_succ_of_le (hr ▸ length_le_of_isFrame hfrs))
  refine ⟨l, hl, fun id => hrecovers id _ ?_⟩
  -- the frames of the session are those received of the session
  have hfilter : List.Forall₂ (fun fr rc => Matches parseIP (types fr.metadata.sessionID) fr rc)
      (frs.filter fun fr => fr.metadata.sessionID = id)
      (l.filter fun rc => rc.metadata.sessionID = id) := by
    refine List.rel_filter (fun fr rc hrc => ?_) hmatch
    dsimp only
    rw [hrc.metadata, FrameMetadata.received_sessionID]
  rw [hsort] at hfilter
  refine ((List.forall₂_and_left _ _).2 ⟨htag id, hfilter⟩).imp ?_
  rintro fr rc ⟨rfl, hrc⟩
  exact hrc

/-- A session that writes a byte to the given domain, and ends. -/
def exampleSession (name : Bytes) : Session where
  target := some ⟨some (.domain name), 80, .tcp⟩
  transferType := .stream
  calls := [.write [(Buffer.new.write [42]).1], .close]

/-- Its link, in the segments in which it was written. -/
def exampleReader (name : Bytes) : BufferedReader :=
  ⟨[], (exampleSession name).link 1, .eof⟩

/-- A single session is found. -/
theorem demultiplex_single :
    ∃ l, receive (fun _ => none) (fun _ => .stream) (exampleReader (ascii "a.b")) =
        (l, some .eof) ∧ ∀ id,
      ((if id = 1 then some (exampleSession (ascii "a.b")) else none) = none →
        l.filter (fun rc => rc.metadata.sessionID = id) = []) ∧
      ∀ s, (if id = 1 then some (exampleSession (ascii "a.b")) else none) = some s →
        Recovers (fun _ => none) (s.writer id) s.calls
          (l.filter fun rc => rc.metadata.sessionID = id) := by
  have hsession {id : UInt16} {s : Session}
      (h : (if id = 1 then some (exampleSession (ascii "a.b")) else none) = some s) :
      s = exampleSession (ascii "a.b") := by
    split at h
    · exact (Option.some.inj h).symm
    · cases h
  have hlink : Interleaves
      (fun id => (Option.map (Session.link · id)
        (if id = 1 then some (exampleSession (ascii "a.b")) else none)).getD [])
      ((exampleSession (ascii "a.b")).link 1) := by
    convert Interleaves.single (1 : UInt16) ((exampleSession (ascii "a.b")).link 1) using 1
    funext id
    rw [Function.update_apply]
    split
    · rename_i h
      rw [h]
      rfl
    · rfl
  refine demultiplex (fun id s h => ?_) hlink (fun id s h => ?_) rfl
  · obtain rfl := hsession h
    refine ⟨?_, fun mb hmb => ?_⟩
    · rintro _ ⟨⟩
      exact ⟨.inl rfl, _, rfl, by decide, by decide, .inr (by decide)⟩
    · rcases List.mem_cons.1 hmb with h | hmb
      · cases h
        decide
      · cases List.mem_singleton.1 hmb
  · rw [hsession h]
    rfl

/-- A domain that spells an IP address is valid, but the address is found in its
    place. -/
theorem not_demultiplex_literal :
    isValidDomain (ascii "1.2.3.4") = true ∧
      ∀ rc ∈ (receive (fun b => if b = ascii "1.2.3.4" then
          some ⟨List.replicate 10 0 ++ [0xff, 0xff, 1, 2, 3, 4], rfl⟩ else none)
          (fun _ => .stream) (exampleReader (ascii "1.2.3.4"))).1,
        rc.metadata.target ≠ ⟨some (.domain (ascii "1.2.3.4")), 80, .tcp⟩ := by
  decide +kernel

end Mux

end Gzv2ray
