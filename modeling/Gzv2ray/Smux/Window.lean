import Gzv2ray.Smux.Delivery

/-!
# The windows of smux streams

In the second version of the protocol an end sends no more than the window of its peer takes, and
is told by it what was consumed. All the numbers are of 32 bits, and wrap around.

* `Window`: the sender knows of a number of bytes consumed, and will be told others in turn; what it
  sends is within the window from there. Each operation of either end keeps it;
* `Link.unread_le`: what was sent and not read yet is never more than the window, the first guess of
  it or the one that the peer has, whatever the numbers wrap to. So no write finds that the peer
  consumed more than was sent.
-/

namespace Gzv2ray.Smux

/-! ## Numbers of 32 bits -/

theorem toInt_toInt32 {n : UInt32} (h : n.toNat < 2 ^ 31) : n.toInt32.toInt = n.toNat :=
  BitVec.toInt_eq_toNat_of_lt (by simpa [UInt32.toBitVec] using by omega)

theorem toInt_ofNat_sub {m n : ℕ} (hle : n ≤ m) (hlt : m - n < 2 ^ 31) :
    (UInt32.ofNat m - UInt32.ofNat n).toInt32.toInt = (m : ℤ) - n := by
  have hsize : m - n < UInt32.size := lt_trans hlt (by decide)
  rw [← UInt32.ofNat_sub hle, toInt_toInt32]
  · rw [UInt32.toNat_ofNat_of_lt' hsize]
    omega
  · rw [UInt32.toNat_ofNat_of_lt' hsize]
    exact hlt

theorem toInt_sub {x y : Int32} (hx : 0 ≤ x.toInt) (hy : 0 ≤ y.toInt) :
    (x - y).toInt = x.toInt - y.toInt := by
  have hxlt := x.toInt_lt
  have hylt := y.toInt_lt
  rw [Int32.toInt_sub]
  exact Int.bmod_eq_of_le (by omega) (by omega)

/-- What is left of a window, where no number is beyond the half of the range. -/
theorem Stream.toInt_win {s : Stream} {m n : ℕ} (hwritten : s.numWritten = UInt32.ofNat m)
    (hconsumed : s.peerConsumed = UInt32.ofNat n) (hle : n ≤ m) (hlt : m - n < 2 ^ 31)
    (hwindow : s.peerWindow.toNat < 2 ^ 31) :
    s.inflight.toInt = m - n ∧ s.win.toInt = s.peerWindow.toNat - (m - n) := by
  have hinflight : s.inflight.toInt = (m : ℤ) - n := by
    rw [Stream.inflight, hwritten, hconsumed]
    exact toInt_ofNat_sub hle hlt
  refine ⟨hinflight, ?_⟩
  rw [Stream.win, toInt_sub, toInt_toInt32 hwindow, hinflight]
  · rw [toInt_toInt32 hwindow]
    omega
  · omega

/-! ## The window -/

/-- What the updates among frames tell, in their order. -/
def updatesOf (fs : List Frame) : List UInt32 := (fs.filter (·.cmd = .upd)).map Frame.consumed

@[simp] theorem updatesOf_append (l l' : List Frame) : updatesOf (l ++ l') = updatesOf l ++ updatesOf l' := by
  rw [updatesOf, List.filter_append, List.map_append]
  rfl

theorem updatesOf_cons_upd {f : Frame} (hf : f.cmd = .upd) (l : List Frame) :
    updatesOf (f :: l) = f.consumed :: updatesOf l := by
  rw [updatesOf, List.filter_cons_of_pos (by simpa using hf), List.map_cons]
  rfl

theorem updatesOf_cons_of_ne {f : Frame} (hf : f.cmd ≠ .upd) (l : List Frame) :
    updatesOf (f :: l) = updatesOf l := by
  rw [updatesOf, List.filter_cons_of_neg (by simpa using hf)]
  rfl

theorem updatesOf_eq_nil {l : List Frame} (h : updates l = 0) : updatesOf l = [] := by
  rw [updates, List.countP_eq_length_filter, List.length_eq_zero_iff] at h
  rw [updatesOf, h]
  rfl

namespace Stream

/-- The update that a read is about to ask for. -/
def due (s : Stream) : List UInt32 := if s.notifyConsumed = 0 then [] else [s.notifyConsumed]

/-- The number of bytes that were sent, with those that a write has been given the window for. -/
def committed (s : Stream) : ℕ := s.sent.length + s.writing.elim 0 (·.chunk.length)

/-- The size of the frame that a write has asked for. -/
def requested (s : Stream) : ℕ := (s.writing.bind (·.requested)).getD 0

end Stream

/-- What the sender of a stream is told by the one who reads it, in the frames `fs` and after them. -/
def told (b : Stream) (fs : List Frame) : List UInt32 := updatesOf fs ++ b.due

/-- The window of a peer with the buffers `m`, as it is guessed at first or told. -/
def windowBound (m : ℕ) : ℕ := max 262144 m

/-- What a step is to one direction of a stream: to its sender `a`, to its reader `b`, and to the frames
    `fs` that bring the sender its updates. -/
inductive Turn (config config' : Config) (sid : UInt32) (a b : Stream) (fs : List Frame) :
    Stream → Stream → List Frame → Prop
  | same : Turn config config' sid a b fs a b fs
  | senderOpened : a.status = .opening → Turn config config' sid a b fs { a with status := .open } b fs
  | senderActs {a' : Stream} {f : Option Frame} : a.status ≠ .opening → a.Acts config sid a' f →
      Turn config config' sid a b fs a' b fs
  | senderDies (die : Bool) : Turn config config' sid a b fs { a with die } b fs
  | senderSends {l₁ l₂ : List Frame} {f : Frame} : a.Outstanding (l₁ ++ f :: l₂) →
      Turn config config' sid a b fs (a.wrote config f) b fs
  | senderAccepts {f : Frame} {fs' : List Frame} : fs = f :: fs' → f.cmd = .syn → a.status = .opening →
      Turn config config' sid a b fs { a with status := .open } b fs'
  | senderReceives {f : Frame} {fs' : List Frame} : fs = f :: fs' →
      Turn config config' sid a b fs (a.receive f) b fs'
  | readerAsks {f : Frame} : f.cmd = .syn → Turn config config' sid a b fs a b (fs ++ [f])
  | readerOpens : Turn config config' sid a b fs a { b with status := .open } fs
  | readerActs {b' : Stream} {f : Option Frame} : b.Acts config' sid b' f →
      Turn config config' sid a b fs a b' (fs ++ f.toList)
  | readerDies (die : Bool) : Turn config config' sid a b fs a { b with die } fs
  | readerSends {fs₀ l₁ l₂ : List Frame} {f : Frame} : fs = fs₀ ++ (l₁ ++ f :: l₂) →
      b.Outstanding (l₁ ++ f :: l₂) →
      Turn config config' sid a b fs a (b.wrote config' f) (fs₀ ++ [f] ++ (l₁ ++ l₂))
  | readerReceives (f : Frame) : Turn config config' sid a b fs a (b.receive f) fs

/-- The sender `a` knows that `c` bytes were consumed by the reader `b`, and will be told the numbers
    `ns` in turn by the frames `fs` and the reader. What it sends is within the window from there. -/
structure Window (m : ℕ) (a b : Stream) (fs : List Frame) (c : ℕ) (ns : List ℕ) : Prop where
  consumed : a.peerConsumed = UInt32.ofNat c
  told : told b fs = ns.map UInt32.ofNat
  pos : ∀ v ∈ Smux.told b fs, v ≠ 0
  sorted : (c :: ns).Pairwise (· ≤ ·)
  read : ∀ n ∈ c :: ns, n ≤ b.returned.length
  numRead : b.numRead = UInt32.ofNat b.returned.length
  numWritten : a.numWritten = UInt32.ofNat (a.sent.length - a.requested)
  requested : a.requested ≤ a.sent.length
  committed : a.committed ≤ c + windowBound m
  peerWindow : a.peerWindow = initialPeerWindow ∨ a.peerWindow = UInt32.ofNat m
  window : ∀ f ∈ fs, f.cmd = .upd → f.window = UInt32.ofNat m

namespace Window

variable {m : ℕ} {config : Config} {sid : UInt32} {a a' b b' : Stream} {fs : List Frame} {c : ℕ}
  {ns : List ℕ}

theorem new (m : ℕ) (status status' : Status) : Window m { status } { status := status' } [] 0 [] :=
  ⟨rfl, rfl, fun _ hv => absurd hv List.not_mem_nil, List.pairwise_singleton ..,
    fun _ hn => (List.mem_singleton.1 hn).le, rfl, rfl, le_rfl, Nat.zero_le _, .inl rfl,
    fun _ hf => absurd hf List.not_mem_nil⟩

/-- A window is no more than half of the range. -/
theorem peerWindow_lt (h : Window m a b fs c ns) (hm : m < 2 ^ 31) : a.peerWindow.toNat < 2 ^ 31 := by
  rcases h.peerWindow with hw | hw
  · rw [hw]
    decide
  · rw [hw, UInt32.toNat_ofNat_of_lt' (lt_trans hm (by decide))]
    exact hm

theorem peerWindow_le (h : Window m a b fs c ns) (hm : m < 2 ^ 31) :
    a.peerWindow.toNat ≤ windowBound m := by
  rcases h.peerWindow with hw | hw
  · rw [hw]
    exact le_max_left _ _
  · rw [hw, UInt32.toNat_ofNat_of_lt' (lt_trans hm (by decide))]
    exact le_max_right _ _

/-- What a write that has no frame asked for finds: the numbers are exact. -/
theorem toInt_win (h : Window m a b fs c ns) (hm : m < 2 ^ 31) (hread : b.returned.length ≤ a.sent.length)
    {w : Writing} (hw : a.writing = some w) (hnone : w.requested = none) :
    a.inflight.toInt = (a.sent.length : ℤ) - c ∧
      a.win.toInt = a.peerWindow.toNat - ((a.sent.length : ℤ) - c) := by
  have hzero : a.requested = 0 := by
    rw [Stream.requested, hw, Option.bind_some, hnone]
    rfl
  have hwritten := h.numWritten
  rw [hzero, Nat.sub_zero] at hwritten
  have hle : c ≤ a.sent.length := (h.read c List.mem_cons_self).trans hread
  have hsent : a.sent.length ≤ c + windowBound m := (Nat.le_add_right _ _).trans h.committed
  have hbound : windowBound m < 2 ^ 31 := max_lt (by decide) hm
  exact Stream.toInt_win hwritten h.consumed hle (by omega) (h.peerWindow_lt hm)

/-- The peer never consumed more than was sent. -/
theorem not_consumed (h : Window m a b fs c ns) (hm : m < 2 ^ 31)
    (hread : b.returned.length ≤ a.sent.length) {w : Writing} (hw : a.writing = some w)
    (hnone : w.requested = none) : ¬ a.inflight < 0 := by
  have hle : c ≤ a.sent.length := (h.read c List.mem_cons_self).trans hread
  rw [Int32.lt_iff_toInt_lt, (h.toInt_win hm hread hw hnone).1]
  change ¬ (a.sent.length : ℤ) - c < 0
  omega

/-- It is about what the sender has of writes, and of updates. -/
theorem sender (h : Window m a b fs c ns) (hsent : a'.sent = a.sent) (hwriting : a'.writing = a.writing)
    (hwritten : a'.numWritten = a.numWritten) (hconsumed : a'.peerConsumed = a.peerConsumed)
    (hwindow : a'.peerWindow = a.peerWindow) : Window m a' b fs c ns := by
  have hrequested : a'.requested = a.requested := by rw [Stream.requested, Stream.requested, hwriting]
  have hcommitted : a'.committed = a.committed := by
    rw [Stream.committed, Stream.committed, hsent, hwriting]
  refine ⟨hconsumed.trans h.consumed, h.told, h.pos, h.sorted, h.read, h.numRead, ?_, ?_, ?_, ?_, h.window⟩
  · rw [hwritten, hsent, hrequested]
    exact h.numWritten
  · rw [hsent, hrequested]
    exact h.requested
  · rw [hcommitted]
    exact h.committed
  · rw [hwindow]
    exact h.peerWindow

/-- A write takes no more than the window leaves it. -/
theorem chunk (h : Window m a b fs c ns) {w w' : Writing} (hw : a.writing = some w)
    (hnone : w.requested = none) (hnone' : w'.requested = none)
    (hle : a.sent.length + w'.chunk.length ≤ c + windowBound m) :
    Window m { a with writing := some w' } b fs c ns := by
  have hrequested : ({ a with writing := some w' } : Stream).requested = a.requested := by
    rw [Stream.requested, Stream.requested, hw, Option.bind_some, Option.bind_some, hnone, hnone']
  refine ⟨h.consumed, h.told, h.pos, h.sorted, h.read, h.numRead, ?_, ?_, hle, h.peerWindow, h.window⟩
  · rw [hrequested]
    exact h.numWritten
  · rw [hrequested]
    exact h.requested

/-- A write that ends has nothing asked for. -/
theorem ended (h : Window m a b fs c ns) {w : Writing} (hw : a.writing = some w)
    (hnone : w.requested = none) : Window m { a with writing := none } b fs c ns := by
  have hrequested : a.requested = 0 := by
    rw [Stream.requested, hw, Option.bind_some, hnone]
    rfl
  have hwritten := h.numWritten
  rw [hrequested] at hwritten
  exact ⟨h.consumed, h.told, h.pos, h.sorted, h.read, h.numRead, hwritten, Nat.zero_le _,
    (Nat.add_le_add_left (Nat.zero_le _) _).trans h.committed, h.peerWindow, h.window⟩

theorem act_sender (h : Window m a b fs c ns) (hm : m < 2 ^ 31) (hversion : config.version = 2)
    (hread : b.returned.length ≤ a.sent.length)
    (hshort : ∀ w, a.writing = some w → w.rest.length < 2 ^ 31) {f : Option Frame}
    (hacts : a.Acts config sid a' f) : Window m a' b fs c ns := by
  have hsent : a.sent.length ≤ c + windowBound m := (Nat.le_add_right _ _).trans h.committed
  cases hacts with
  | refused => exact h
  | write w hw _ hnone _ hchunk =>
    have hempty : w.chunk = [] := (hchunk.resolve_right fun h => h.1 hversion).2.1
    have hrequested : a.requested = 0 := by
      rw [Stream.requested, hw]
      rfl
    have hwritten := h.numWritten
    rw [hrequested] at hwritten
    have hrequested' : ({ a with writing := some w } : Stream).requested = 0 := by
      rw [Stream.requested, Option.bind_some, hnone]
      rfl
    refine ⟨h.consumed, h.told, h.pos, h.sorted, h.read, h.numRead, ?_, ?_, ?_, h.peerWindow, h.window⟩
    · rw [hrequested']
      exact hwritten
    · rw [hrequested']
      exact Nat.zero_le _
    · change a.sent.length + w.chunk.length ≤ _
      rw [hempty]
      exact hsent
  | consumed x hw => exact h.ended hw rfl
  | giveUp chunk rest hw => exact h.ended hw rfl
  | wait x hw => exact h.chunk hw rfl rfl hsent
  | wake chunk rest hw =>
    refine (@Window.chunk m a b fs c ns h _ { chunk, rest } hw rfl rfl ?_).sender rfl rfl rfl rfl rfl
    have hcommitted := h.committed
    rw [Stream.committed, hw] at hcommitted
    exact hcommitted
  | cutAll x hw _ hall hwin =>
    -- The length is compared as an `Int32`, which is right for short writes only.
    refine h.chunk hw rfl rfl ?_
    obtain ⟨-, htoInt⟩ := h.toInt_win hm hread hw rfl
    have hlen := hshort _ hw
    dsimp only at hlen
    rw [gt_iff_lt, Int32.lt_iff_toInt_lt, Int32.toInt_ofNat_of_lt hlen, htoInt] at hall
    have hle := h.peerWindow_le hm
    have hc : c ≤ a.sent.length := (h.read c List.mem_cons_self).trans hread
    dsimp only
    omega
  | cut x hw _ hall hwin =>
    refine h.chunk hw rfl rfl ?_
    obtain ⟨-, htoInt⟩ := h.toInt_win hm hread hw rfl
    have hle := h.peerWindow_le hm
    have hc : c ≤ a.sent.length := (h.read c List.mem_cons_self).trans hread
    have hlen : (x.take a.win.toInt.toNat).length ≤ a.win.toInt.toNat := List.length_take_le _ _
    rw [Int32.lt_iff_toInt_lt, htoInt] at hwin
    change 0 < _ at hwin
    rw [htoInt] at hlen
    dsimp only
    rw [htoInt]
    omega
  | request chunk rest sz hw hne hsz =>
    -- The bytes of the frame count as sent, and go from the chunk to what is asked for; they are
    -- not in `numWritten` before the frame is written.
    have hrequested : a.requested = 0 := by
      rw [Stream.requested, hw]
      rfl
    have hwritten := h.numWritten
    have hcommitted := h.committed
    rw [hrequested, Nat.sub_zero] at hwritten
    rw [Stream.committed, hw] at hcommitted
    change a.sent.length + chunk.length ≤ _ at hcommitted
    have hlen : (a.sent ++ chunk.take sz).length = a.sent.length + sz := by
      rw [List.length_append, List.length_take]
      omega
    refine ⟨h.consumed, h.told, h.pos, h.sorted, h.read, h.numRead, ?_, ?_, ?_, h.peerWindow, h.window⟩
    · change a.numWritten = UInt32.ofNat ((a.sent ++ chunk.take sz).length - sz)
      rw [hlen, Nat.add_sub_cancel]
      exact hwritten
    · change sz ≤ (a.sent ++ chunk.take sz).length
      omega
    · change (a.sent ++ chunk.take sz).length + (chunk.drop sz).length ≤ _
      rw [hlen, List.length_drop]
      omega
  | read out buffers =>
    obtain ⟨_, _, _, heq⟩ := Stream.consume_eq config a out buffers
    rw [heq]
    exact h.sender rfl rfl rfl rfl rfl
  | tryRead =>
    obtain ⟨_, _, _, heq⟩ := Stream.consume_eq config a [] []
    rw [heq]
    exact h.sender rfl rfl rfl rfl rfl
  | returnTokens | notify | close | streamClosed => exact h.sender rfl rfl rfl rfl rfl

/-- It is about what the reader has read, and about the updates asked for. -/
theorem reader {fs' : List Frame} (h : Window m a b fs c ns) (hreturned : b'.returned = b.returned)
    (hnumRead : b'.numRead = b.numRead) (htold : Smux.told b' fs' = Smux.told b fs)
    (hwindow : ∀ f ∈ fs', f.cmd = .upd → f ∈ fs ∨ f.window = UInt32.ofNat m) : Window m a b' fs' c ns := by
  refine ⟨h.consumed, htold.trans h.told, htold ▸ h.pos, h.sorted, hreturned ▸ h.read, ?_, h.numWritten,
    h.requested, h.committed, h.peerWindow, fun f hf hupd => ?_⟩
  · rw [hnumRead, hreturned]
    exact h.numRead
  · exact (hwindow f hf hupd).elim (fun hmem => h.window f hmem hupd) id

theorem told_append (hnotify : b'.notifyConsumed = b.notifyConsumed) (fs : List Frame) (f : Option Frame)
    (hf : ∀ g ∈ f, g.cmd ≠ .upd) : Smux.told b' (fs ++ f.toList) = Smux.told b fs := by
  rw [Smux.told, Smux.told, Stream.due, Stream.due, hnotify]
  cases f with
  | none => rw [Option.toList_none, List.append_nil]
  | some g =>
    rw [Option.toList_some, updatesOf_append, updatesOf_cons_of_ne (hf g rfl)]
    exact congrArg (· ++ _) (List.append_nil _)

/-- The frames of an event that is not about updates are of no account. -/
theorem reader_append (h : Window m a b fs c ns) (hreturned : b'.returned = b.returned)
    (hnumRead : b'.numRead = b.numRead) (hnotify : b'.notifyConsumed = b.notifyConsumed) (f : Option Frame)
    (hf : ∀ g ∈ f, g.cmd ≠ .upd) : Window m a b' (fs ++ f.toList) c ns := by
  refine h.reader hreturned hnumRead (told_append hnotify fs f hf) fun g hg hupd => .inl ?_
  rcases List.mem_append.1 hg with hg | hg
  · exact hg
  · exact absurd hupd (hf g (Option.mem_toList.1 hg))

theorem told_of_idle (fs : List Frame) (hidle : b.idle = true) : Smux.told b fs = updatesOf fs := by
  rw [Smux.told, Stream.due, if_pos (Stream.idle_iff.1 hidle).2.1, List.append_nil]

/-- The number of bytes read, if it is told, is told last. -/
theorem consume (h : Window m a b fs c ns) (hversion : config.version = 2) (hidle : b.idle = true)
    (out : Bytes) (buffers : List Bytes) :
    ∃ ns', Window m a (b.consume config out buffers) fs c ns' := by
  have htold := told_of_idle fs hidle
  have hnotify := (Stream.idle_iff.1 hidle).2.1
  have hnumRead : b.numRead + UInt32.ofNat out.length = UInt32.ofNat (b.returned ++ out).length := by
    rw [h.numRead, List.length_append, UInt32.ofNat_add]
  have hle (n : ℕ) (hn : n ∈ c :: ns) : n ≤ (b.returned ++ out).length := by
    rw [List.length_append]
    exact Nat.le_add_right_of_le (h.read n hn)
  rw [Stream.consume]
  dsimp only
  rw [if_neg (not_not.2 hversion)]
  split_ifs
  · -- A number that has wrapped around to zero is never told, as zero stands for no update.
    by_cases hzero : b.numRead + UInt32.ofNat out.length = 0
    · refine ⟨ns, h.consumed, ?_, ?_, h.sorted, hle, hnumRead, h.numWritten, h.requested, h.committed,
        h.peerWindow, h.window⟩
      all_goals
        rw [Smux.told, Stream.due]
        dsimp only
        rw [if_pos hzero, List.append_nil, ← htold]
      · exact h.told
      · exact h.pos
    · refine ⟨ns ++ [(b.returned ++ out).length], h.consumed, ?_, ?_, ?_, ?_, hnumRead, h.numWritten,
        h.requested, h.committed, h.peerWindow, h.window⟩
      · rw [Smux.told, Stream.due]
        dsimp only
        rw [if_neg hzero, ← htold, h.told, List.map_append, hnumRead]
        rfl
      · rw [Smux.told, Stream.due]
        dsimp only
        rw [if_neg hzero, ← htold]
        intro v hv
        rcases List.mem_append.1 hv with hv | hv
        · exact h.pos v hv
        · rw [List.mem_singleton.1 hv]
          exact hzero
      · rw [← List.cons_append, List.pairwise_append]
        refine ⟨h.sorted, List.pairwise_singleton .., fun n hn n' hn' => ?_⟩
        rw [List.mem_singleton.1 hn']
        exact hle n hn
      · intro n hn
        rw [← List.cons_append] at hn
        rcases List.mem_append.1 hn with hn | hn
        · exact hle n hn
        · exact (List.mem_singleton.1 hn).le
  · refine ⟨ns, h.consumed, ?_, ?_, h.sorted, hle, hnumRead, h.numWritten, h.requested, h.committed,
      h.peerWindow, h.window⟩
    all_goals
      rw [Smux.told, Stream.due]
      dsimp only
      rw [hnotify, if_pos rfl, List.append_nil, ← htold]
    · exact h.told
    · exact h.pos

theorem act_reader (h : Window m a b fs c ns) (hversion : config.version = 2)
    (hm : m = config.maxStreamBuffer.toNat) {f : Option Frame} (hacts : b.Acts config sid b' f) :
    ∃ ns', Window m a b' (fs ++ f.toList) c ns' := by
  have hnone : ∀ g ∈ (none : Option Frame), g.cmd ≠ .upd := fun g hg => absurd hg (Option.not_mem_none g)
  cases hacts with
  | read out buffers _ hidle =>
    rw [Option.toList_none, List.append_nil]
    exact h.consume hversion hidle out buffers
  | tryRead _ hidle =>
    have hread : ({ b.consume config [] [] with notifyConsumed := 0 } : Stream).returned = b.returned ∧
        ({ b.consume config [] [] with notifyConsumed := 0 } : Stream).numRead = b.numRead := by
      rw [Stream.consume]
      dsimp only
      rw [if_neg (not_not.2 hversion)]
      split_ifs <;> exact ⟨List.append_nil _, UInt32.add_zero _⟩
    exact ⟨ns, h.reader_append hread.1 hread.2 (Stream.idle_iff.1 hidle).2.1.symm none hnone⟩
  | notify hpos =>
    refine ⟨ns, h.reader rfl rfl ?_ fun g hg hupd => ?_⟩
    · rw [Smux.told, Smux.told, Option.toList_some, updatesOf_append, updatesOf_cons_upd rfl,
        updFrame_consumed, Stream.due, Stream.due, if_pos rfl, List.append_nil,
        if_neg (fun hzero => by rw [hzero] at hpos; exact absurd hpos (by decide))]
      rfl
    · rcases List.mem_append.1 hg with hg | hg
      · exact .inl hg
      · rw [List.mem_singleton.1 hg, updFrame_window, hm]
        exact .inr rfl
  | request | close =>
    refine ⟨ns, h.reader_append ?_ ?_ ?_ _ fun g hg => ?_⟩
    · rfl
    · rfl
    · rfl
    · cases hg
      intro hcmd
      cases hcmd
  | _ => exact ⟨ns, h.reader_append (by rfl) (by rfl) (by rfl) none hnone⟩

/-- A frame of data that was written counts. -/
theorem wrote_sender (h : Window m a b fs c ns) (hversion : config.version = 2) {l₁ l₂ : List Frame}
    {f : Frame} (houtstanding : a.Outstanding (l₁ ++ f :: l₂)) :
    Window m (a.wrote config f) b fs c ns := by
  have hpsh := (@Stream.Outstanding.wrote config a l₁ l₂ f houtstanding).2
  rw [Stream.wrote]
  split
  · rename_i hcmd
    obtain ⟨-, -, w, hw, hsz⟩ := hpsh hcmd
    rw [hw]
    dsimp only
    rw [if_pos hversion]
    have hrequested : a.requested = f.data.length := by
      rw [Stream.requested, hw, Option.bind_some, hsz]
      rfl
    have hnext : ((Stream.next w).bind (·.requested)).getD 0 = 0 ∧
        (Stream.next w).elim 0 (·.chunk.length) ≤ w.chunk.length := by
      rw [Stream.next]
      split_ifs
      · exact ⟨rfl, le_rfl⟩
      · exact ⟨rfl, le_rfl⟩
      · exact ⟨rfl, Nat.zero_le _⟩
    have hwritten := h.numWritten
    have hle := h.requested
    have hcommitted := h.committed
    rw [hrequested] at hwritten hle
    rw [Stream.committed, hw] at hcommitted
    refine ⟨h.consumed, h.told, h.pos, h.sorted, h.read, h.numRead, ?_, ?_, ?_, h.peerWindow, h.window⟩
    · change a.numWritten + UInt32.ofNat f.data.length =
        UInt32.ofNat (a.sent.length - ((Stream.next w).bind (·.requested)).getD 0)
      rw [hnext.1, hwritten, Nat.sub_zero, ← UInt32.ofNat_add, Nat.sub_add_cancel hle]
    · change ((Stream.next w).bind (·.requested)).getD 0 ≤ _
      rw [hnext.1]
      exact Nat.zero_le _
    · exact (Nat.add_le_add_left hnext.2 _).trans hcommitted
  · exact h.sender rfl rfl rfl rfl rfl
  · exact h

/-- An update that is written was the only one asked for. -/
theorem told_wrote {fs l₁ l₂ : List Frame} {f : Frame} (houtstanding : b.Outstanding (l₁ ++ f :: l₂)) :
    Smux.told (b.wrote config f) (fs ++ [f] ++ (l₁ ++ l₂)) = Smux.told b (fs ++ (l₁ ++ f :: l₂)) := by
  have hdue : (b.wrote config f).due = b.due := by
    obtain ⟨_, _, _, heq⟩ := Stream.wrote_eq config b f
    rw [heq]
    rfl
  rw [Smux.told, Smux.told, hdue]
  by_cases hf : f.cmd = .upd
  · have hupd := houtstanding.upd
    rw [updates_append, updates_cons_upd hf] at hupd
    have hle : b.updating.toNat ≤ 1 := Bool.toNat_le _
    rw [updatesOf_append, updatesOf_append, updatesOf_append, updatesOf_append, updatesOf_append,
      updatesOf_cons_upd hf, updatesOf_cons_upd hf, updatesOf_eq_nil (show updates l₁ = 0 by omega),
      updatesOf_eq_nil (show updates l₂ = 0 by omega)]
    simp only [List.append_nil, List.nil_append]
    rfl
  · rw [updatesOf_append, updatesOf_append, updatesOf_append, updatesOf_append, updatesOf_append,
      updatesOf_cons_of_ne hf, updatesOf_cons_of_ne hf]
    simp only [List.append_assoc]
    rfl

theorem wrote_reader {l₁ l₂ : List Frame} {f : Frame} (h : Window m a b (fs ++ (l₁ ++ f :: l₂)) c ns)
    (houtstanding : b.Outstanding (l₁ ++ f :: l₂)) :
    Window m a (b.wrote config f) (fs ++ [f] ++ (l₁ ++ l₂)) c ns := by
  refine h.reader ?_ ?_ (told_wrote houtstanding) fun g hg _ => .inl ?_
  · obtain ⟨_, _, _, heq⟩ := Stream.wrote_eq config b f
    rw [heq]
  · obtain ⟨_, _, _, heq⟩ := Stream.wrote_eq config b f
    rw [heq]
  · simp only [List.mem_append, List.mem_cons, List.not_mem_nil, or_false] at hg ⊢
    tauto

/-- What arrives at the reader is of no account. -/
theorem receive_reader (h : Window m a b fs c ns) (f : Frame) : Window m a (b.receive f) fs c ns := by
  obtain ⟨_, _, _, _, _, _, _, _, heq⟩ := b.receive_eq f
  rw [heq]
  exact h.reader rfl rfl rfl fun g hg _ => .inl hg

/-- A frame that tells nothing is of no account to the sender. -/
theorem tail {f : Frame} (h : Window m a b (f :: fs) c ns) (hf : f.cmd ≠ .upd) : Window m a b fs c ns := by
  refine h.reader rfl rfl ?_ fun g hg _ => .inl (List.mem_cons_of_mem _ hg)
  rw [Smux.told, Smux.told, updatesOf_cons_of_ne hf]

/-- The sender learns the next number, or misses it if it has closed the stream. -/
theorem receive_sender {f : Frame} (h : Window m a b (f :: fs) c ns) :
    ∃ c' ns', Window m (a.receive f) b fs c' ns' := by
  by_cases hf : f.cmd = .upd
  · have htold := h.told
    rw [Smux.told, updatesOf_cons_upd hf, List.cons_append] at htold
    have hpos := h.pos
    rw [Smux.told, updatesOf_cons_upd hf, List.cons_append] at hpos
    have hsorted := h.sorted
    have hread := h.read
    cases ns with
    | nil => cases htold
    | cons n ns =>
      obtain ⟨hn, htold⟩ := List.cons.inj htold
      rw [List.pairwise_cons] at hsorted
      have hle : c ≤ n := hsorted.1 n List.mem_cons_self
      rw [Stream.receive, hf]
      dsimp only
      split_ifs
      · exact ⟨n, ns, hn, htold, fun v hv => hpos v (List.mem_cons_of_mem _ hv), hsorted.2,
          fun k hk => hread k (List.mem_cons_of_mem _ hk), h.numRead, h.numWritten, h.requested,
          h.committed.trans (Nat.add_le_add_right hle _), .inr (h.window f List.mem_cons_self hf),
          fun g hg => h.window g (List.mem_cons_of_mem _ hg)⟩
      · refine ⟨c, ns, h.consumed, htold, fun v hv => hpos v (List.mem_cons_of_mem _ hv), ?_, fun k hk => ?_,
          h.numRead, h.numWritten, h.requested, h.committed, h.peerWindow,
          fun g hg => h.window g (List.mem_cons_of_mem _ hg)⟩
        · exact List.pairwise_cons.2 ⟨fun k hk => hsorted.1 k (List.mem_cons_of_mem _ hk),
            (List.pairwise_cons.1 hsorted.2).2⟩
        · refine hread k ?_
          rcases List.mem_cons.1 hk with rfl | hk
          · exact List.mem_cons_self
          · exact List.mem_cons_of_mem _ (List.mem_cons_of_mem _ hk)
  · obtain ⟨_, _, _, _, _, heq⟩ := a.receive_eq_of_ne hf
    rw [heq]
    exact ⟨c, ns, (h.tail hf).sender rfl rfl rfl rfl rfl⟩

/-- Only what the sender receives can change what it was told; only what the reader does can add to what
    it is to be told. -/
theorem turn {config' : Config} {fs' : List Frame} (h : Window m a b fs c ns) (hlt : m < 2 ^ 31)
    (hm : m = config'.maxStreamBuffer.toNat) (hversion : config.version = 2)
    (hversion' : config'.version = 2) (hread : b.returned.length ≤ a.sent.length)
    (hshort : ∀ w, a.writing = some w → w.rest.length < 2 ^ 31)
    (hturn : Turn config config' sid a b fs a' b' fs') : ∃ c' ns', Window m a' b' fs' c' ns' := by
  cases hturn with
  | same => exact ⟨c, ns, h⟩
  | senderOpened => exact ⟨c, ns, h.sender rfl rfl rfl rfl rfl⟩
  | senderActs _ hacts => exact ⟨c, ns, h.act_sender hlt hversion hread hshort hacts⟩
  | senderDies => exact ⟨c, ns, h.sender rfl rfl rfl rfl rfl⟩
  | senderSends houtstanding => exact ⟨c, ns, h.wrote_sender hversion houtstanding⟩
  | senderAccepts hfs hsyn =>
    rw [hfs] at h
    exact ⟨c, ns, (h.tail (by rw [hsyn]; decide)).sender rfl rfl rfl rfl rfl⟩
  | senderReceives hfs =>
    rw [hfs] at h
    exact h.receive_sender
  | @readerAsks f hsyn =>
    refine ⟨c, ns, h.reader_append rfl rfl rfl (some f) fun g hg => ?_⟩
    rw [← Option.some.inj hg, hsyn]
    decide
  | readerActs hacts =>
    obtain ⟨ns', h'⟩ := h.act_reader hversion' hm hacts
    exact ⟨c, ns', h'⟩
  | readerOpens => exact ⟨c, ns, h.reader rfl rfl rfl fun _ hg _ => .inl hg⟩
  | readerDies => exact ⟨c, ns, h.reader rfl rfl rfl fun _ hg _ => .inl hg⟩
  | readerSends hfs houtstanding =>
    rw [hfs] at h
    exact ⟨c, ns, h.wrote_reader houtstanding⟩
  | readerReceives f => exact ⟨c, ns, h.receive_reader f⟩

end Window

namespace Link

/-- The stream at an end, which is one that is being opened where there is none yet. -/
def streamAt (l : Link) (i : Bool) : Stream := (l.ends i).stream.getD { status := .opening }

/-- The frames that bring the end `i` its updates. -/
def incoming (l : Link) (i : Bool) : List Frame := l.frames (!i) ++ (l.ends !i).pending

/-- A write that waits for the window has less than half of the range of bytes left. -/
def Short (l : Link) : Prop :=
  ∀ i w, (l.streamAt i).writing = some w → w.rest.length < 2 ^ 31

section

variable {config : Bool → Config} {sid : UInt32} {opener : Bool} {l l' : Link}

theorem streamAt_of_some {i : Bool} {s : Stream} (hs : (l.ends i).stream = some s) : l.streamAt i = s := by
  rw [streamAt, hs]
  rfl

theorem streamAt_of_none {i : Bool} (hnone : (l.ends i).stream = none) :
    l.streamAt i = { status := .opening } := by
  rw [streamAt, hnone]
  rfl

section

variable {i : Bool} {e : LinkEnd} {fs : List Frame}

@[simp] theorem streamAt_setEnd_self :
    (l.setEnd i e).streamAt i = e.stream.getD { status := .opening } := by
  rw [streamAt, setEnd_ends_self]

@[simp] theorem streamAt_setEnd_not : (l.setEnd i e).streamAt (!i) = l.streamAt !i := by
  rw [streamAt, streamAt, setEnd_ends_not]

@[simp] theorem streamAt_not_setEnd : (l.setEnd (!i) e).streamAt i = l.streamAt i := by
  rw [streamAt, streamAt, setEnd_not_ends]

@[simp] theorem streamAt_setFrames {j : Bool} : (l.setFrames j fs).streamAt i = l.streamAt i := rfl

@[simp] theorem incoming_setEnd_self : (l.setEnd i e).incoming i = l.incoming i := by
  rw [incoming, incoming, setEnd_ends_not, setEnd_frames]

@[simp] theorem incoming_not_setEnd : (l.setEnd (!i) e).incoming i = l.frames (!i) ++ e.pending := by
  rw [incoming, setEnd_ends_self, setEnd_frames]

@[simp] theorem incoming_setFrames_self : (l.setFrames i fs).incoming i = l.incoming i := by
  rw [incoming, incoming, setFrames_ends, setFrames_frames_not]

@[simp] theorem incoming_setFrames_not : (l.setFrames (!i) fs).incoming i = fs ++ (l.ends !i).pending := by
  rw [incoming, setFrames_ends, setFrames_frames_self]

end

theorem Carries.returned_le (h : l.Carries config sid opener) (i : Bool) :
    (l.streamAt !i).returned.length ≤ (l.streamAt i).sent.length := by
  cases hb : (l.ends !i).stream with
  | none =>
    rw [streamAt, hb]
    exact Nat.zero_le _
  | some b =>
    have hsent := h.sent i
    have hlen : (sentBy (l.ends i).stream).length = (l.streamAt i).sent.length := by
      rw [streamAt]
      cases (l.ends i).stream <;> rfl
    rw [streamAt_of_some hb, ← hlen, hsent, hb]
    change _ ≤ (b.early ++ b.received ++ b.late ++ _ ++ _).length
    rw [(h.account _ b hb).received]
    simp only [List.length_append]
    omega

/-- Each end of a stream is the sender of one direction and the reader of the other. -/
theorem turn_of_step (hcarries : l.Carries config sid opener) (i : Bool) {e : Bool × LinkEvent}
    (hstep : (link config sid opener).step l e l') :
    Turn (config i) (config !i) sid (l.streamAt i) (l.streamAt !i) (l.incoming i)
      (l'.streamAt i) (l'.streamAt !i) (l'.incoming i) := by
  obtain ⟨j, e⟩ := e
  change l.Step config sid opener j e l' at hstep
  rcases Bool.eq_or_eq_not j i with rfl | rfl
  · cases hstep with
    | openStream hj hnone =>
      rw [streamAt_setEnd_self, streamAt_setEnd_not, incoming_setEnd_self, streamAt_of_none hnone]
      exact .same
    | opened hs hopening =>
      rw [streamAt_setEnd_self, streamAt_setEnd_not, incoming_setEnd_self, streamAt_of_some hs]
      exact .senderOpened hopening
    | act hs hopening hact =>
      rw [streamAt_setEnd_self, streamAt_setEnd_not, incoming_setEnd_self, streamAt_of_some hs]
      exact .senderActs hopening (Stream.acts_of_act hact)
    | @sessionClose s hs =>
      obtain ⟨die, heq⟩ := s.sessionClose_eq
      rw [streamAt_setEnd_self, streamAt_setEnd_not, incoming_setEnd_self, streamAt_of_some hs, heq]
      exact .senderDies die
    | @send l₁ l₂ f hpending =>
      obtain ⟨s, hs⟩ := hcarries.opens.exists_stream hpending
      have houtstanding := hcarries.outstanding _ s hs
      rw [hpending] at houtstanding
      rw [streamAt_setFrames, streamAt_setFrames, incoming_setFrames_self, streamAt_setEnd_self,
        streamAt_setEnd_not, incoming_setEnd_self, streamAt_of_some hs, hs]
      exact .senderSends houtstanding
    | @recv f fs hframes =>
      have hincoming : l.incoming j = f :: (fs ++ (l.ends !j).pending) := by
        rw [incoming, hframes]
        rfl
      rw [streamAt_setFrames, streamAt_setFrames, incoming_setFrames_not, streamAt_setEnd_self,
        streamAt_setEnd_not, setEnd_ends_not]
      rcases hcarries.opens.deliver hframes with ⟨hnone, -, -, hsyn, hdeliver⟩ | ⟨s, hs, hdeliver⟩
      · rw [hdeliver, streamAt_of_none hnone]
        exact .senderAccepts hincoming hsyn rfl
      · rw [hdeliver, streamAt_of_some hs]
        exact .senderReceives hincoming
  · cases hstep with
    | openStream hj hnone =>
      rw [streamAt_setEnd_self, streamAt_not_setEnd, incoming_not_setEnd, streamAt_of_none hnone,
        ← List.append_assoc]
      exact .readerAsks rfl
    | opened hs =>
      rw [streamAt_setEnd_self, streamAt_not_setEnd, incoming_not_setEnd, streamAt_of_some hs]
      exact .readerOpens
    | act hs hopening hact =>
      rw [streamAt_setEnd_self, streamAt_not_setEnd, incoming_not_setEnd, streamAt_of_some hs,
        ← List.append_assoc]
      exact .readerActs (Stream.acts_of_act hact)
    | @sessionClose s hs =>
      obtain ⟨die, heq⟩ := s.sessionClose_eq
      rw [streamAt_setEnd_self, streamAt_not_setEnd, incoming_not_setEnd, streamAt_of_some hs, heq]
      exact .readerDies die
    | @send l₁ l₂ f hpending =>
      obtain ⟨s, hs⟩ := hcarries.opens.exists_stream hpending
      have houtstanding := hcarries.outstanding _ s hs
      rw [hpending] at houtstanding
      rw [streamAt_setFrames, streamAt_setFrames, incoming_setFrames_not, streamAt_setEnd_self,
        streamAt_not_setEnd, setEnd_ends_self, streamAt_of_some hs, hs]
      exact .readerSends (by rw [incoming, hpending]) houtstanding
    | @recv f fs hframes =>
      have hincoming : ((l.setEnd (!i) { l.ends (!i) with
          stream := deliver f (l.ends !i).stream }).setFrames (!!i) fs).incoming i = l.incoming i := by
        rw [Bool.not_not, incoming_setFrames_self, incoming_not_setEnd]
        rfl
      rw [hincoming, streamAt_setFrames, streamAt_setFrames, streamAt_setEnd_self, streamAt_not_setEnd]
      rcases hcarries.opens.deliver hframes with ⟨hnone, -, -, -, hdeliver⟩ | ⟨s, hs, hdeliver⟩
      · rw [hdeliver, streamAt_of_none hnone]
        exact .readerOpens
      · rw [hdeliver, streamAt_of_some hs]
        exact .readerReceives f

variable (hversion : ∀ i, (config i).version = 2) {i : Bool} {m : ℕ}
  (hm : m = (config !i).maxStreamBuffer.toNat) (hlt : m < 2 ^ 31)
include hversion hm hlt

/-- A step keeps the window. -/
theorem window_step (hcarries : l.Carries config sid opener) (hshort : l.Short) {c : ℕ} {ns : List ℕ}
    (h : Window m (l.streamAt i) (l.streamAt !i) (l.incoming i) c ns) {e : Bool × LinkEvent}
    (hstep : (link config sid opener).step l e l') :
    ∃ c' ns', Window m (l'.streamAt i) (l'.streamAt !i) (l'.incoming i) c' ns' := by
  exact h.turn hlt hm (hversion i) (hversion !i) (hcarries.returned_le i) (hshort i) (turn_of_step hcarries i hstep)

/-- In every run. -/
theorem window_reach (h : (link config sid opener).Reach Short l) :
    l.Carries config sid opener ∧
      ∃ c ns, Window m (l.streamAt i) (l.streamAt !i) (l.incoming i) c ns := by
  refine h.invariant (I := fun l => l.Carries config sid opener ∧
    ∃ c ns, Window m (l.streamAt i) (l.streamAt !i) (l.incoming i) c ns) (fun l hinit _ => ?_) ?_
  · refine ⟨carries_init hinit, 0, [], ?_⟩
    rw [streamAt, streamAt, incoming, (hinit i).1, (hinit !i).1, (hinit !i).2]
    exact .new m .opening .opening
  · rintro l e l' hshort ⟨hcarries, c, ns, hwindow⟩ hstep -
    exact ⟨hcarries.step hstep, window_step hversion hm hlt hcarries hshort hwindow hstep⟩

/-- What was sent and not read is within the window, and no write finds that more was consumed than
    was sent. -/
theorem unread_le (h : (link config sid opener).Reach Short l) :
    (l.streamAt i).sent.length ≤ (l.streamAt !i).returned.length + windowBound m ∧
      ∀ w, (l.streamAt i).writing = some w → w.requested = none → ¬ (l.streamAt i).inflight < 0 := by
  obtain ⟨hcarries, c, ns, hwindow⟩ := window_reach hversion hm hlt h
  refine ⟨?_, fun w hw hnone => hwindow.not_consumed hlt (hcarries.returned_le i) hw hnone⟩
  have hcommitted := hwindow.committed
  have hread := hwindow.read c List.mem_cons_self
  rw [Stream.committed] at hcommitted
  omega

end

end Link

end Gzv2ray.Smux
