import Gzv2ray.Smux.Window

/-!
# Waiting for the window of a smux stream

A write that has used up the window waits to be told that it has changed, and the reader tells only
once it has read half of its buffers.

* `Wakes`: what is known of a write that waits, and of the bytes read since the sender was told;
* `Link.not_stuck`: as long as the bytes read can be numbered, a write is not left waiting once all was
  read: it was told of the window, or is about to be.
-/

namespace Gzv2ray.Smux

/-- What the sender will have been told at last. -/
def lastTold (a b : Stream) (fs : List Frame) : UInt32 := (told b fs).getLast?.getD a.peerConsumed

/-- A write that waits has used up the window it knows of, and the reader tells the sender before it
    has read half of its buffers. -/
structure Wakes (m : ℕ) (a b : Stream) (fs : List Frame) : Prop where
  opening : a.status = .opening → a.sent = []
  numRead : b.numRead = lastTold a b fs + b.incr
  incr : b.incr = 0 ∨ b.incr < UInt32.ofNat (m / 2)
  begun : b.returned ≠ [] → lastTold a b fs ≠ 0
  peerWindow : a.peerConsumed ≠ 0 → a.peerWindow = UInt32.ofNat m
  busy : ∀ w, a.writing = some w → w.chunk ≠ [] ∨ w.rest ≠ [] ∨ w.requested ≠ none
  wait : ∀ w, a.writing = some w → w.waiting = true → w.chunk = [] ∧ w.requested = none
  waiting : ∀ w, a.writing = some w → w.chunk ≠ [] ∨ w.requested ≠ none ∨ w.waiting = true →
    w.rest ≠ [] → a.updated = false → a.peerConsumed.toNat + a.peerWindow.toNat ≤ a.committed

namespace Wakes

variable {m : ℕ} {config : Config} {sid : UInt32} {a a' b b' : Stream} {fs : List Frame} {c : ℕ}
  {ns : List ℕ}

theorem new (m : ℕ) : Wakes m { status := .opening } { status := .opening } [] :=
  ⟨fun _ => rfl, rfl, .inl rfl, fun h => absurd rfl h, fun h => absurd rfl h, nofun, nofun, nofun⟩

/-- It is about what the sender has of writes, and of updates. -/
theorem sender (h : Wakes m a b fs) (hstatus : a'.status = .opening → a.status = .opening)
    (hsent : a'.sent = a.sent) (hwriting : a'.writing = a.writing)
    (hconsumed : a'.peerConsumed = a.peerConsumed) (hwindow : a'.peerWindow = a.peerWindow)
    (hupdated : a'.updated = a.updated) : Wakes m a' b fs := by
  have hlast : lastTold a' b fs = lastTold a b fs := by rw [lastTold, lastTold, hconsumed]
  have hcommitted : a'.committed = a.committed := by
    rw [Stream.committed, Stream.committed, hsent, hwriting]
  refine ⟨fun ho => hsent.trans (h.opening (hstatus ho)), hlast ▸ h.numRead, h.incr, hlast ▸ h.begun, ?_, ?_,
    ?_, ?_⟩
  · rw [hconsumed, hwindow]
    exact h.peerWindow
  · rw [hwriting]
    exact h.busy
  · rw [hwriting]
    exact h.wait
  · rw [hwriting, hupdated, hconsumed, hwindow, hcommitted]
    exact h.waiting

/-- It stays where another write goes on, of which it is known. -/
theorem writing (h : Wakes m a b fs) (hopening : a.status ≠ .opening) {w : Option Writing}
    (hbusy : ∀ w' ∈ w, w'.chunk ≠ [] ∨ w'.rest ≠ [] ∨ w'.requested ≠ none)
    (hwait : ∀ w' ∈ w, w'.waiting = true → w'.chunk = [] ∧ w'.requested = none)
    (hwaiting : ∀ w' ∈ w, w'.chunk ≠ [] ∨ w'.requested ≠ none ∨ w'.waiting = true → w'.rest ≠ [] →
      a.updated = false → a.peerConsumed.toNat + a.peerWindow.toNat ≤ a.sent.length + w'.chunk.length) :
    Wakes m { a with writing := w } b fs := by
  refine ⟨fun ho => absurd ho hopening, h.numRead, h.incr, h.begun, h.peerWindow, hbusy, hwait, ?_⟩
  intro w' hw' hnot hrest hupdated
  obtain rfl : w = some w' := hw'
  exact hwaiting w' rfl hnot hrest hupdated

theorem act_sender (h : Wakes m a b fs) (hwindow : Window m a b fs c ns) (hm : m < 2 ^ 31)
    (hversion : config.version = 2) (hread : b.returned.length ≤ a.sent.length)
    (hlen : b.returned.length < 2 ^ 32) (hopening : a.status ≠ .opening) {f : Option Frame}
    (hacts : a.Acts config sid a' f) : Wakes m a' b fs := by
  have hc : c ≤ a.sent.length := (hwindow.read c List.mem_cons_self).trans hread
  have hconsumed : a.peerConsumed.toNat = c := by
    rw [hwindow.consumed]
    exact UInt32.toNat_ofNat_of_lt' (lt_of_le_of_lt (hwindow.read c List.mem_cons_self) hlen)
  have hno {P : Writing → Prop} : ∀ w ∈ (none : Option Writing), P w :=
    fun w hw => absurd hw (Option.not_mem_none w)
  cases hacts with
  | refused => exact h
  | write w _ _ hnone hwait hchunk =>
    obtain ⟨-, hempty, hrest⟩ := hchunk.resolve_right fun h => h.1 hversion
    refine h.writing hopening (fun w' hw' => ?_) (fun w' hw' hwaiting => ?_) fun w' hw' hnot => ?_
    all_goals
      obtain rfl : w = w' := Option.some.inj hw'
    · exact .inr (.inl hrest)
    · rw [hwait] at hwaiting
      cases hwaiting
    · rw [hempty, hnone, hwait] at hnot
      rcases hnot with hnot | hnot | hnot
      · exact absurd rfl hnot
      · exact absurd rfl hnot
      · cases hnot
  | consumed => exact h.writing hopening hno hno hno
  | giveUp => exact h.writing hopening hno hno hno
  | cutAll x hw =>
    have hx := h.busy _ hw
    refine h.writing hopening (fun w' hw' => ?_) (fun w' hw' hwaiting => ?_) fun w' hw' _ hrest => ?_
    all_goals cases hw'
    · rcases hx with hx | hx | hx
      · exact absurd rfl hx
      · exact .inl hx
      · exact absurd rfl hx
    · cases hwaiting
    · exact absurd rfl hrest
  | cut x hw _ hall hwin =>
    -- The chunk fills the window, so that a write that is left after it has reached its limit.
    obtain ⟨-, htoInt⟩ := hwindow.toInt_win hm hread hw rfl
    rw [Int32.lt_iff_toInt_lt, htoInt] at hwin
    change 0 < _ at hwin
    have hx := h.busy _ hw
    have hne : x ≠ [] := by
      rcases hx with hx | hx | hx
      · exact absurd rfl hx
      · exact hx
      · exact absurd rfl hx
    have hpos : 0 < x.length := List.length_pos_iff.2 hne
    refine h.writing hopening (fun w' hw' => ?_) (fun w' hw' hwaiting => ?_) fun w' hw' _ hrest _ => ?_
    all_goals cases hw'
    · refine .inl (List.length_pos_iff.1 ?_)
      rw [List.length_take, htoInt]
      omega
    · cases hwaiting
    · have hlen : a.win.toInt.toNat < x.length := by
        by_contra hnot
        exact hrest (List.drop_eq_nil_iff.2 (Nat.le_of_not_lt hnot))
      rw [List.length_take_of_le hlen.le, htoInt, hconsumed]
      omega
  | wait x hw _ hwin =>
    -- A write waits only where nothing is left of the window.
    obtain ⟨-, htoInt⟩ := hwindow.toInt_win hm hread hw rfl
    rw [Int32.lt_iff_toInt_lt, htoInt] at hwin
    change ¬ 0 < _ at hwin
    have hbusy := h.busy _ hw
    refine h.writing hopening (fun w' hw' => ?_) (fun w' hw' hwaiting => ?_) fun w' hw' _ _ _ => ?_
    all_goals cases hw'
    · exact hbusy
    · exact ⟨rfl, rfl⟩
    · rw [hconsumed]
      omega
  | request chunk rest sz hw hne hsz =>
    have hcommitted : (a.sent ++ chunk.take sz).length + (chunk.drop sz).length =
        a.sent.length + chunk.length := by
      rw [List.length_append, List.length_take, List.length_drop]
      omega
    refine ⟨fun ho => absurd ho hopening, h.numRead, h.incr, h.begun, h.peerWindow, fun w' hw' => ?_,
      fun w' hw' hwaiting => ?_, fun w' hw' _ hrest hupdated => ?_⟩
    all_goals cases hw'
    · exact .inr (.inr (Option.some_ne_none sz))
    · cases hwaiting
    · have hwaiting := h.waiting _ hw (.inl hne) hrest hupdated
      rw [Stream.committed, hw] at hwaiting
      change _ ≤ (a.sent ++ chunk.take sz).length + (chunk.drop sz).length
      rw [hcommitted]
      exact hwaiting
  | wake chunk rest hw =>
    obtain ⟨hempty, -⟩ := h.wait _ hw rfl
    have hbusy := h.busy _ hw
    refine ⟨fun ho => absurd ho hopening, h.numRead, h.incr, h.begun, h.peerWindow, fun w' hw' => ?_,
      fun w' hw' hwaiting => ?_, fun w' hw' hnot => ?_⟩
    all_goals cases hw'
    · exact hbusy
    · cases hwaiting
    · rcases hnot with hnot | hnot | hnot
      · exact absurd hempty hnot
      · exact absurd rfl hnot
      · cases hnot
  | read out buffers =>
    obtain ⟨_, _, _, heq⟩ := Stream.consume_eq config a out buffers
    rw [heq]
    exact h.sender id rfl rfl rfl rfl rfl
  | tryRead =>
    obtain ⟨_, _, _, heq⟩ := Stream.consume_eq config a [] []
    rw [heq]
    exact h.sender id rfl rfl rfl rfl rfl
  | returnTokens | notify | close => exact h.sender id rfl rfl rfl rfl rfl
  | streamClosed => exact h.sender (fun h => absurd h Status.closed_ne_opening) rfl rfl rfl rfl rfl

theorem wrote_sender (h : Wakes m a b fs) {l₁ l₂ : List Frame} {f : Frame}
    (houtstanding : a.Outstanding (l₁ ++ f :: l₂)) : Wakes m (a.wrote config f) b fs := by
  have hpsh := (@Stream.Outstanding.wrote config a l₁ l₂ f houtstanding).2
  rw [Stream.wrote]
  split
  · rename_i hcmd
    obtain ⟨-, -, w, hw, hsz⟩ := hpsh hcmd
    rw [hw]
    dsimp only
    have hwaiting := h.waiting w hw (.inr (.inl (by rw [hsz]; exact Option.some_ne_none _)))
    rw [Stream.committed, hw] at hwaiting
    have hnext (w' : Writing) (hw' : Stream.next w = some w') : w'.chunk = w.chunk ∧ w'.rest = w.rest ∧
        w'.requested = none ∧ (w'.chunk ≠ [] ∨ w'.rest ≠ []) ∧ (w'.waiting = true → w'.chunk = []) := by
      rw [Stream.next] at hw'
      split_ifs at hw' with hchunk hrest
      · cases hw'
        exact ⟨rfl, rfl, rfl, .inl hchunk, fun hwait => (h.wait w hw hwait).1⟩
      · cases hw'
        exact ⟨rfl, rfl, rfl, .inr hrest, fun _ => not_not.1 hchunk⟩
    refine ⟨h.opening, h.numRead, h.incr, h.begun, h.peerWindow, fun w' hw' => ?_,
      fun w' hw' hwait => ?_, fun w' hw' _ hrest hupdated => ?_⟩
    all_goals obtain ⟨hchunk, hrest', hnone, hne, hempty⟩ := hnext w' hw'
    · exact hne.imp_right .inl
    · exact ⟨hempty hwait, hnone⟩
    · rw [hrest'] at hrest
      change _ ≤ a.sent.length + (Stream.next w).elim 0 (·.chunk.length)
      rw [show Stream.next w = some w' from hw', Option.elim_some, hchunk]
      exact hwaiting hrest hupdated
  · exact h.sender id rfl rfl rfl rfl rfl
  · exact h

/-- It is about what the reader has read, and about the updates asked for. -/
theorem reader {fs' : List Frame} (h : Wakes m a b fs) (hreturned : b'.returned = b.returned)
    (hnumRead : b'.numRead = b.numRead) (hincr : b'.incr = b.incr) (htold : told b' fs' = told b fs) :
    Wakes m a b' fs' := by
  have hlast : lastTold a b' fs' = lastTold a b fs := by rw [lastTold, lastTold, htold]
  refine ⟨h.opening, ?_, hincr ▸ h.incr, ?_, h.peerWindow, h.busy, h.wait, h.waiting⟩
  · rw [hnumRead, hlast, hincr]
    exact h.numRead
  · rw [hreturned, hlast]
    exact h.begun

/-- Where nothing was read, nothing was told. -/
theorem lastTold_eq_zero (h : Wakes m a b fs) (hwindow : Window m a b fs c ns) (hnil : b.returned = []) :
    lastTold a b fs = 0 ∧ b.incr = 0 := by
  have hzero : ∀ n ∈ c :: ns, n = 0 := fun n hn => by
    have hle := hwindow.read n hn
    rw [hnil, List.length_nil] at hle
    exact Nat.le_zero.1 hle
  have hns : ns = [] := by
    by_contra hne
    obtain ⟨n, hn⟩ := List.exists_mem_of_ne_nil ns hne
    refine hwindow.pos (UInt32.ofNat n) ?_ (by rw [hzero n (List.mem_cons_of_mem _ hn)]; rfl)
    rw [hwindow.told]
    exact List.mem_map_of_mem hn
  have hlast : lastTold a b fs = 0 := by
    rw [lastTold, hwindow.told, hns, List.map_nil, List.getLast?_nil, Option.getD_none, hwindow.consumed,
      hzero c List.mem_cons_self]
    rfl
  refine ⟨hlast, ?_⟩
  have hnumRead := h.numRead
  rw [hlast, hwindow.numRead, hnil, UInt32.zero_add] at hnumRead
  exact hnumRead.symm

theorem consume (h : Wakes m a b fs) (hwindow : Window m a b fs c ns) (hversion : config.version = 2)
    (hm : m = config.maxStreamBuffer.toNat) (hidle : b.idle = true) (out : Bytes) (buffers : List Bytes)
    (hlen : (b.returned ++ out).length < 2 ^ 32) : Wakes m a (b.consume config out buffers) fs := by
  have htold := Window.told_of_idle fs hidle
  have hnotify := (Stream.idle_iff.1 hidle).2.1
  have hnumRead : b.numRead + UInt32.ofNat out.length = UInt32.ofNat (b.returned ++ out).length := by
    rw [hwindow.numRead, List.length_append, UInt32.ofNat_add]
  have hhalf : (config.maxStreamBuffer / 2).toNat = m / 2 := by
    rw [hm]
    omega
  have hnil (hzero : b.numRead + UInt32.ofNat out.length = 0) : b.returned ++ out = [] := by
    rw [hnumRead] at hzero
    have htoNat := congrArg UInt32.toNat hzero
    rw [UInt32.toNat_ofNat_of_lt' hlen] at htoNat
    exact List.length_eq_zero_iff.1 htoNat
  rw [Stream.consume]
  dsimp only
  rw [if_neg (not_not.2 hversion)]
  split_ifs with hdue
  · -- A due update is not told if its number is zero; before the numbers wrap around, that is so
    -- only where nothing was read at all.
    by_cases hzero : b.numRead + UInt32.ofNat out.length = 0
    · obtain ⟨hreturned, -⟩ := List.append_eq_nil_iff.1 (hnil hzero)
      have hlast : lastTold a { b with
          buffers, tokens := out.length, returned := b.returned ++ out,
          numRead := b.numRead + UInt32.ofNat out.length, incr := 0,
          notifyConsumed := b.numRead + UInt32.ofNat out.length } fs = 0 := by
        have hbefore := (h.lastTold_eq_zero hwindow hreturned).1
        rw [lastTold, htold] at hbefore
        rw [lastTold, told, Stream.due, if_pos hzero, List.append_nil]
        exact hbefore
      refine ⟨h.opening, ?_, .inl rfl, fun hne => absurd (hnil hzero) hne, h.peerWindow, h.busy, h.wait,
        h.waiting⟩
      rw [hlast]
      exact hzero
    · have hlast : lastTold a { b with
          buffers, tokens := out.length, returned := b.returned ++ out,
          numRead := b.numRead + UInt32.ofNat out.length, incr := 0,
          notifyConsumed := b.numRead + UInt32.ofNat out.length } fs =
          b.numRead + UInt32.ofNat out.length := by
        rw [lastTold, told, Stream.due, if_neg hzero, List.getLast?_append, List.getLast?_singleton]
        rfl
      refine ⟨h.opening, ?_, .inl rfl, fun _ => ?_, h.peerWindow, h.busy, h.wait, h.waiting⟩
      · rw [hlast]
        exact (UInt32.add_zero _).symm
      · rw [hlast]
        exact hzero
  · rw [Stream.Due, hhalf, not_or, ge_iff_le, UInt32.not_le] at hdue
    have hlast : lastTold a { b with
        buffers, tokens := out.length, returned := b.returned ++ out,
        numRead := b.numRead + UInt32.ofNat out.length, incr := b.incr + UInt32.ofNat out.length } fs =
        lastTold a b fs := rfl
    refine ⟨h.opening, ?_, .inr hdue.1, fun _ => ?_, h.peerWindow, h.busy, h.wait, h.waiting⟩
    · rw [hlast]
      change b.numRead + UInt32.ofNat out.length = lastTold a b fs + (b.incr + UInt32.ofNat out.length)
      rw [h.numRead, UInt32.add_assoc]
    · rw [hlast]
      refine h.begun fun hreturned => hdue.2 ?_
      rw [hwindow.numRead, hreturned]
      exact UInt32.zero_add _

theorem reader_append (h : Wakes m a b fs) (hreturned : b'.returned = b.returned)
    (hnumRead : b'.numRead = b.numRead) (hincr : b'.incr = b.incr)
    (hnotify : b'.notifyConsumed = b.notifyConsumed) (f : Option Frame) (hf : ∀ g ∈ f, g.cmd ≠ .upd) :
    Wakes m a b' (fs ++ f.toList) :=
  h.reader hreturned hnumRead hincr (Window.told_append hnotify fs f hf)

theorem act_reader (h : Wakes m a b fs) (hwindow : Window m a b fs c ns) (hversion : config.version = 2)
    (hm : m = config.maxStreamBuffer.toNat) {f : Option Frame} (hacts : b.Acts config sid b' f)
    (hlen : b'.returned.length < 2 ^ 32) : Wakes m a b' (fs ++ f.toList) := by
  -- only a read, and what it asks for, is about updates
  have hnone : ∀ g ∈ (none : Option Frame), g.cmd ≠ .upd := fun g hg => absurd hg (Option.not_mem_none g)
  cases hacts with
  | read out buffers _ hidle =>
    rw [Option.toList_none, List.append_nil]
    have hreturned : (b.consume config out buffers).returned = b.returned ++ out := by
      obtain ⟨_, _, _, heq⟩ := Stream.consume_eq config b out buffers
      rw [heq]
    rw [hreturned] at hlen
    exact h.consume hwindow hversion hm hidle out buffers hlen
  | tryRead _ hidle =>
    have hhalf : (config.maxStreamBuffer / 2).toNat = m / 2 := by
      rw [hm]
      omega
    have hread : ({ b.consume config [] [] with notifyConsumed := 0 } : Stream).returned = b.returned ∧
        ({ b.consume config [] [] with notifyConsumed := 0 } : Stream).numRead = b.numRead ∧
        ({ b.consume config [] [] with notifyConsumed := 0 } : Stream).incr = b.incr := by
      rw [Stream.consume]
      dsimp only
      rw [if_neg (not_not.2 hversion)]
      have hzero : b.numRead + UInt32.ofNat ([] : Bytes).length = b.numRead := UInt32.add_zero _
      have hincr : b.incr + UInt32.ofNat ([] : Bytes).length = b.incr := UInt32.add_zero _
      split_ifs with hdue
      · refine ⟨List.append_nil _, hzero, Eq.symm ?_⟩
        rw [Stream.Due, hhalf, hincr, hzero] at hdue
        rcases hdue with hdue | hdue
        · exact h.incr.resolve_right (UInt32.not_lt.2 hdue)
        · -- nothing was read, as the number of bytes has not wrapped around
          refine (h.lastTold_eq_zero hwindow ?_).2
          have hreturned : ({ b.consume config [] [] with notifyConsumed := 0 } : Stream).returned =
              b.returned := by
            obtain ⟨_, _, _, heq⟩ := Stream.consume_eq config b [] []
            rw [heq]
            exact List.append_nil _
          rw [hreturned] at hlen
          have htoNat := congrArg UInt32.toNat (hwindow.numRead.symm.trans hdue)
          rw [UInt32.toNat_ofNat_of_lt' hlen] at htoNat
          exact List.length_eq_zero_iff.1 htoNat
      · exact ⟨List.append_nil _, hzero, hincr⟩
    exact h.reader_append hread.1 hread.2.1 hread.2.2 (Stream.idle_iff.1 hidle).2.1.symm none hnone
  | notify hpos =>
    refine h.reader rfl rfl rfl ?_
    rw [told, told, Option.toList_some, updatesOf_append, updatesOf_cons_upd rfl, updFrame_consumed,
      Stream.due, Stream.due, if_pos rfl, List.append_nil,
      if_neg (fun hzero => by rw [hzero] at hpos; exact absurd hpos (by decide))]
    rfl
  | request | close =>
    refine h.reader_append (by rfl) (by rfl) (by rfl) (by rfl) _ fun g hg => ?_
    cases hg
    intro hcmd
    cases hcmd
  | _ => exact h.reader_append (by rfl) (by rfl) (by rfl) (by rfl) none hnone

theorem wrote_reader {l₁ l₂ : List Frame} {f : Frame} (h : Wakes m a b (fs ++ (l₁ ++ f :: l₂)))
    (houtstanding : b.Outstanding (l₁ ++ f :: l₂)) :
    Wakes m a (b.wrote config f) (fs ++ [f] ++ (l₁ ++ l₂)) := by
  refine h.reader ?_ ?_ ?_ (Window.told_wrote houtstanding)
  all_goals
    obtain ⟨_, _, _, heq⟩ := Stream.wrote_eq config b f
    rw [heq]

theorem receive_reader (h : Wakes m a b fs) (f : Frame) : Wakes m a (b.receive f) fs := by
  obtain ⟨_, _, _, _, _, _, _, _, heq⟩ := b.receive_eq f
  rw [heq]
  exact h.reader rfl rfl rfl rfl

theorem tail {f : Frame} (h : Wakes m a b (f :: fs)) (hf : f.cmd ≠ .upd) : Wakes m a b fs := by
  refine h.reader rfl rfl rfl ?_
  rw [told, told, updatesOf_cons_of_ne hf]

/-- A sender that is open is told of the window by what arrives. -/
theorem receive_sender {f : Frame} (h : Wakes m a b (f :: fs)) (hwindow : Window m a b (f :: fs) c ns)
    (hread : b.returned.length ≤ a.sent.length) (hclosed : (a.receive f).status ≠ .closed) :
    Wakes m (a.receive f) b fs := by
  rw [(a.receive_status f).1] at hclosed
  by_cases hf : f.cmd = .upd
  · have hopen : a.status = .open := by
      cases hs : a.status with
      | «open» => rfl
      | closed => exact absurd hs hclosed
      | opening =>
        -- nothing was sent yet, so nothing can have been read
        have hnil : b.returned = [] := by
          rw [h.opening hs] at hread
          exact List.length_eq_zero_iff.1 (Nat.le_zero.1 hread)
        have hpos := hwindow.pos f.consumed (by
          rw [told, updatesOf_cons_upd hf]
          exact List.mem_cons_self)
        have htold := hwindow.told
        rw [told, updatesOf_cons_upd hf, List.cons_append] at htold
        cases ns with
        | nil => cases htold
        | cons n ns =>
          have hle := hwindow.read n (List.mem_cons_of_mem _ List.mem_cons_self)
          rw [hnil, List.length_nil, Nat.le_zero] at hle
          rw [(List.cons.inj htold).1, hle] at hpos
          exact absurd rfl hpos
    have hlast : lastTold { a with
        peerConsumed := f.consumed, peerWindow := f.window, updated := true } b fs =
        lastTold a b (f :: fs) := by
      rw [lastTold, lastTold, told, told, updatesOf_cons_upd hf, List.cons_append, List.getLast?_cons]
      rfl
    rw [Stream.receive, hf]
    dsimp only
    rw [if_pos hopen]
    refine ⟨fun ho => absurd (hopen.symm.trans ho) Status.open_ne_opening, ?_, h.incr, ?_,
      fun _ => hwindow.window f List.mem_cons_self hf, h.busy, h.wait, fun _ _ _ _ h => absurd h.symm Bool.false_ne_true⟩
    · rw [hlast]
      exact h.numRead
    · rw [hlast]
      exact h.begun
  · obtain ⟨_, _, _, _, _, heq⟩ := a.receive_eq_of_ne hf
    rw [heq]
    exact (h.tail hf).sender id rfl rfl rfl rfl rfl

/-- A write that waits, with no update on its way, waits for bytes to be read. -/
theorem unread_of_waiting (h : Wakes m a b fs) (hwindow : Window m a b fs c ns) (hm : m < 2 ^ 31)
    (hpos : 0 < m) (hlen : b.returned.length < 2 ^ 32) {w : Writing} (hw : a.writing = some w)
    (hwait : w.waiting = true) (hupdated : a.updated = false) (htold : told b fs = []) :
    b.returned.length < a.sent.length := by
  obtain ⟨hempty, hnone⟩ := h.wait w hw hwait
  have hrest : w.rest ≠ [] := by
    rcases h.busy w hw with hne | hne | hne
    · exact absurd hempty hne
    · exact hne
    · exact absurd hnone hne
  have hle := h.waiting w hw (.inr (.inr hwait)) hrest hupdated
  rw [Stream.committed, hw, Option.elim_some, hempty, List.length_nil, Nat.add_zero] at hle
  have hlast : lastTold a b fs = a.peerConsumed := by
    rw [lastTold, htold]
    rfl
  have hc := hwindow.read c List.mem_cons_self
  have hconsumed : a.peerConsumed.toNat = c := by
    rw [hwindow.consumed]
    exact UInt32.toNat_ofNat_of_lt' (lt_of_le_of_lt hc hlen)
  have hnumRead : b.returned.length = (c + b.incr.toNat) % 2 ^ 32 := by
    have htoNat := congrArg UInt32.toNat h.numRead
    rw [hlast, hwindow.numRead, UInt32.toNat_ofNat_of_lt' hlen, UInt32.toNat_add, hconsumed] at htoNat
    exact htoNat
  have hm' : (UInt32.ofNat m).toNat = m := UInt32.toNat_ofNat_of_lt' (lt_trans hm (by decide))
  have hhalf : (UInt32.ofNat (m / 2)).toNat = m / 2 :=
    UInt32.toNat_ofNat_of_lt' (lt_of_le_of_lt (Nat.div_le_self _ _) (lt_trans hm (by decide)))
  have hincr : b.incr.toNat < m := by
    rcases h.incr with hincr | hincr
    · rw [hincr]
      exact hpos
    · rw [UInt32.lt_iff_toNat_lt, hhalf] at hincr
      omega
  have hincr_lt := b.incr.toNat_lt
  rw [hconsumed] at hle
  by_cases hnil : b.returned = []
  · -- the first guess of the window is not used up by nothing
    have hwindow_pos : 0 < a.peerWindow.toNat := by
      rcases hwindow.peerWindow with hw | hw
      · rw [hw]
        decide
      · rw [hw, hm']
        exact hpos
    rw [hnil, List.length_nil]
    omega
  · have hbegun := h.begun hnil
    rw [hlast] at hbegun
    rw [h.peerWindow hbegun, hm'] at hle
    omega

end Wakes

/-- A stream that was taken out of the table stays out. -/
theorem Stream.Acts.closed {config : Config} {sid : UInt32} {s s' : Stream} {f : Option Frame}
    (h : s.Acts config sid s' f) (hs : s.status = .closed) : s'.status = .closed := by
  cases h with
  | read out buffers =>
    obtain ⟨_, _, _, heq⟩ := consume_eq config s out buffers
    rw [heq]
    exact hs
  | tryRead =>
    obtain ⟨_, _, _, heq⟩ := consume_eq config s [] []
    rw [heq]
    exact hs
  | streamClosed => rfl
  | _ => exact hs

/-- No step brings back a stream that its sender has taken out. -/
theorem Turn.closed {config config' : Config} {sid : UInt32} {a b a' b' : Stream} {fs fs' : List Frame}
    (h : Turn config config' sid a b fs a' b' fs') (ha : a.status = .closed) : a'.status = .closed := by
  cases h with
  | senderOpened hopening => exact absurd (hopening.symm.trans ha) Status.opening_ne_closed
  | senderAccepts _ _ hopening => exact absurd (hopening.symm.trans ha) Status.opening_ne_closed
  | senderActs _ hacts => exact hacts.closed ha
  | @senderSends l₁ l₂ f =>
    obtain ⟨_, _, _, heq⟩ := Stream.wrote_eq config a f
    rw [heq]
    exact ha
  | @senderReceives f => exact (a.receive_status f).1.trans ha
  | _ => exact ha

/-- A step keeps what is known of waiting, unless the sender closes the stream. -/
theorem Wakes.turn {config config' : Config} {sid : UInt32} {m c : ℕ} {ns : List ℕ} {a b a' b' : Stream}
    {fs fs' : List Frame} (h : Wakes m a b fs) (hwindow : Window m a b fs c ns) (hlt : m < 2 ^ 31)
    (hm : m = config'.maxStreamBuffer.toNat) (hversion : config.version = 2)
    (hversion' : config'.version = 2) (hread : b.returned.length ≤ a.sent.length)
    (hlen : b.returned.length < 2 ^ 32) (hturn : Turn config config' sid a b fs a' b' fs')
    (hlen' : b'.returned.length < 2 ^ 32) (hclosed : a'.status ≠ .closed) : Wakes m a' b' fs' := by
  have hopen {P : Prop} (ho : Status.open = .opening) : P := absurd ho Status.open_ne_opening
  cases hturn with
  | same => exact h
  | senderOpened => exact h.sender hopen rfl rfl rfl rfl rfl
  | senderActs hopening hacts => exact h.act_sender hwindow hlt hversion hread hlen hopening hacts
  | senderDies => exact h.sender id rfl rfl rfl rfl rfl
  | senderSends houtstanding => exact h.wrote_sender houtstanding
  | senderAccepts hfs hsyn =>
    rw [hfs] at h
    exact (h.tail (by rw [hsyn]; decide)).sender hopen rfl rfl rfl rfl rfl
  | senderReceives hfs =>
    rw [hfs] at h hwindow
    exact h.receive_sender hwindow hread hclosed
  | @readerAsks f hsyn =>
    refine h.reader_append rfl rfl rfl rfl (some f) fun g hg => ?_
    rw [← Option.some.inj hg, hsyn]
    decide
  | readerOpens => exact h.reader rfl rfl rfl rfl
  | readerActs hacts => exact h.act_reader hwindow hversion' hm hacts hlen'
  | readerDies => exact h.reader rfl rfl rfl rfl
  | readerSends hfs houtstanding =>
    rw [hfs] at h
    exact h.wrote_reader houtstanding
  | readerReceives f => exact h.receive_reader f

namespace Link

section

variable {config : Bool → Config} {sid : UInt32} {opener : Bool} {l l' : Link}
  (hversion : ∀ i, (config i).version = 2) {i : Bool} {m : ℕ}
  (hm : m = (config !i).maxStreamBuffer.toNat) (hlt : m < 2 ^ 31)
include hversion hm hlt

theorem wakes_step (hcarries : l.Carries config sid opener) {c : ℕ} {ns : List ℕ}
    (hwindow : Window m (l.streamAt i) (l.streamAt !i) (l.incoming i) c ns)
    (h : (l.streamAt i).status ≠ .closed → Wakes m (l.streamAt i) (l.streamAt !i) (l.incoming i))
    (hlen : (l.streamAt !i).returned.length < 2 ^ 32) {e : Bool × LinkEvent}
    (hstep : (link config sid opener).step l e l')
    (hlen' : (l'.streamAt !i).returned.length < 2 ^ 32) (hclosed : (l'.streamAt i).status ≠ .closed) :
    Wakes m (l'.streamAt i) (l'.streamAt !i) (l'.incoming i) := by
  have hturn := turn_of_step hcarries i hstep
  exact (h fun hs => hclosed (hturn.closed hs)).turn hwindow hlt hm (hversion i) (hversion !i)
    (hcarries.returned_le i) hlen hturn hlen' hclosed

/-- The writes are short of half of the range, and the bytes read can be numbered. -/
def Numbered (l : Link) : Prop := l.Short ∧ ∀ i, (l.streamAt i).returned.length < 2 ^ 32

omit hversion hm hlt in
theorem wakes_init (hinit : (link config sid opener).init l) (i : Bool) :
    Wakes m (l.streamAt i) (l.streamAt !i) (l.incoming i) := by
  rw [streamAt, streamAt, incoming, (hinit i).1, (hinit !i).1, (hinit !i).2]
  exact .new m

/-- In every run, as long as the sender has not closed the stream. -/
theorem wakes_reach (h : (link config sid opener).Reach Numbered l) :
    (∃ c ns, Window m (l.streamAt i) (l.streamAt !i) (l.incoming i) c ns) ∧
      ((l.streamAt i).status ≠ .closed → Wakes m (l.streamAt i) (l.streamAt !i) (l.incoming i)) := by
  have hinv := h.invariant (I := fun l => (l.Carries config sid opener ∧
    ∃ c ns, Window m (l.streamAt i) (l.streamAt !i) (l.incoming i) c ns) ∧
      ((l.streamAt i).status ≠ .closed → Wakes m (l.streamAt i) (l.streamAt !i) (l.incoming i)))
    (fun l hinit hC => ?_) ?_
  · exact ⟨hinv.1.2, hinv.2⟩
  · exact ⟨window_reach hversion hm hlt (.init hinit hC.1), fun _ => wakes_init hinit i⟩
  · rintro l e l' hC ⟨⟨hcarries, c, ns, hwindow⟩, hwakes⟩ hstep hC'
    exact ⟨⟨hcarries.step hstep, window_step hversion hm hlt hcarries hC.1 hwindow hstep⟩,
      wakes_step hversion hm hlt hcarries hwindow hwakes (hC.2 !i) hstep (hC'.2 !i)⟩

/-- A write that waits for the window, on a stream that is not closed there, has been told of it, or
    is about to be, or bytes that were sent are not read yet. -/
theorem not_stuck (hpos : 0 < m) (h : (link config sid opener).Reach Numbered l)
    (hclosed : (l.streamAt i).status ≠ .closed) {w : Writing} (hw : (l.streamAt i).writing = some w)
    (hwait : w.waiting = true) :
    (l.streamAt i).updated = true ∨ (∃ f ∈ l.incoming i, f.cmd = .upd) ∨
      (l.streamAt !i).notifyConsumed ≠ 0 ∨
      (l.streamAt !i).returned.length < (l.streamAt i).sent.length := by
  obtain ⟨⟨c, ns, hwindow⟩, hwakes⟩ := wakes_reach hversion hm hlt h (i := i)
  by_cases hupdated : (l.streamAt i).updated = true
  · exact .inl hupdated
  by_cases hupd : ∃ f ∈ l.incoming i, f.cmd = .upd
  · exact .inr (.inl hupd)
  by_cases hnotify : (l.streamAt !i).notifyConsumed = 0
  · refine .inr (.inr (.inr ?_))
    have htold : told (l.streamAt !i) (l.incoming i) = [] := by
      rw [told, Stream.due, if_pos hnotify, List.append_nil]
      refine updatesOf_eq_nil (List.countP_eq_zero.2 fun f hf hcmd => hupd ⟨f, hf, ?_⟩)
      simpa using hcmd
    exact (hwakes hclosed).unread_of_waiting hwindow hlt hpos (h.within.2 !i) hw hwait
      (Bool.eq_false_of_not_eq_true hupdated) htold
  · exact .inr (.inr (.inl hnotify))

end

end Link

end Gzv2ray.Smux
