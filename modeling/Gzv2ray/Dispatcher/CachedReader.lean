import Gzv2ray.Buf.Algebra
import Gzv2ray.Transport.PipeOrder

/-!
# Sniffing

The dispatcher looks at the first bytes of a connection before it sends them on: a `cachedReader`
reads ahead from the inbound pipe, keeps what it read, and copies the start of it for the
sniffer.

* `CachedReader`: the reader, but for its pipe, with the sections that are run under its lock;
* `cachedReading`: the transition system of the calls to the reader, one after the other, and of
  all that happens to its pipe meanwhile;
* `CachedSystem.Follows`: the invariant, which follows what a step takes from the pipe
  (`PipeSystem.Takes`);
* `cachedReader_lawful`: the bytes read through the reader are those of the pipe, in their order,
  and what the sniffer is handed is a start of those that are not read yet.
-/

namespace Gzv2ray.Dispatcher

open Transport

/-! ## The reader -/

/-- A `cachedReader`, but for its pipe. -/
structure CachedReader where
  cache : MultiBuffer := []

namespace CachedReader

variable (r : CachedReader)

/-- The section of `Cache` under the lock, after it read `mb`, and the buffer of the sniffer. -/
def cacheInternal (mb : MultiBuffer) : CachedReader × Buffer :=
  let cache := if !MultiBuffer.isEmpty mb then (MultiBuffer.mergeMulti r.cache mb).1 else r.cache
  -- the buffer is cleared, extended to its capacity, and resized to what is copied
  ({ cache }, .overwrite 0 (MultiBuffer.copy cache bufSize))

def readInternal : CachedReader × Option MultiBuffer :=
  if !MultiBuffer.isEmpty r.cache then ({ cache := [] }, some r.cache) else (r, none)

/-- The section of `Interrupt` under the lock: the list is cut to no buffers. -/
def interruptInternal : CachedReader := { cache := r.cache.take 0 }

end CachedReader

/-! ## Calls -/

/-- A call to the reader that reads its pipe. -/
inductive CachedCall
  | cache
  /-- `ReadMultiBuffer`, or `ReadMultiBufferTimeout`. -/
  | read

/-- The buffers that are returned, none for `nil`. -/
def buffersOf : Except Error MultiBuffer → MultiBuffer
  | .ok mb => mb
  | .error _ => []

/-- A reader with its pipe. -/
structure CachedSystem where
  pipe : PipeSystem
  reader : CachedReader := {}
  /-- The call that is under way, and the number of its call to the pipe. -/
  current : Option (ℕ × CachedCall) := none
  /-- What the reads returned. -/
  results : List (Except Error MultiBuffer) := []
  /-- The buffers that were handed to the sniffer, each with the number of bytes read before. -/
  payloads : List (Buffer × ℕ) := []
  /-- The bytes that `Interrupt` released. -/
  released : Bytes := []

/-- A step of a call, or of the program. -/
inductive CachedEvent
  /-- Any step at the pipe, but for the beginning of a read. -/
  | pipe (e : PipeEvent)
  /-- `Cache` begins to read the pipe. -/
  | cache (i : ℕ)
  /-- A read is served from the cache, or begins to read the pipe. -/
  | read (i : ℕ) (timer : Bool)
  /-- The call returns after its call to the pipe. -/
  | finish
  /-- `Interrupt` empties the cache; after this it interrupts the pipe. -/
  | interrupt

namespace CachedSystem

variable (s : CachedSystem)

/-- The bytes read. -/
def returned : Bytes := s.results.flatMap fun out => MultiBuffer.bytes (buffersOf out)

/-- What the call does with what its call to the pipe returned. -/
def finish (out : Except Error MultiBuffer) : CachedCall → CachedSystem
  | .cache =>
    let (reader, b) := s.reader.cacheInternal (buffersOf out)
    { s with reader, current := none, payloads := s.payloads ++ [(b, s.returned.length)] }
  | .read => { s with current := none, results := s.results ++ [out] }

/-- When an event can happen. -/
def Enabled : CachedEvent → Prop
  | .pipe e => s.pipe.Enabled e ∧ ∀ i timer, e ≠ .readMultiBuffer i timer
  | .cache i => s.current = none ∧ s.pipe.calls i = .idle
  | .read i _ => s.current = none ∧ s.pipe.calls i = .idle
  | .finish => ∃ i call out, s.current = some (i, call) ∧ s.pipe.calls i = .returned (.read out)
  | .interrupt => True

/-- What an event does. -/
def step : CachedEvent → CachedSystem
  | .pipe e => { s with pipe := s.pipe.step e }
  | .cache i => { s with pipe := s.pipe.step (.readMultiBuffer i true), current := some (i, .cache) }
  | .read i timer =>
    match s.reader.readInternal with
    | (reader, some mb) => { s with reader, results := s.results ++ [.ok mb] }
    | (reader, none) =>
      { s with reader, pipe := s.pipe.step (.readMultiBuffer i timer), current := some (i, .read) }
  | .finish =>
    match s.current with
    | some (i, call) =>
      match s.pipe.calls i with
      | .returned (.read out) => s.finish out call
      | _ => s
    | none => s
  | .interrupt => { s with
      reader := s.reader.interruptInternal
      released := s.released ++ MultiBuffer.bytes s.reader.cache }

end CachedSystem

/-- The transition system of the calls to a reader of a new pipe. -/
def cachedReading (option : PipeOption) : Lts CachedSystem CachedEvent where
  init s := s = { pipe := { pipe := { option } } }
  step s e s' := s.Enabled e ∧ s' = s.step e

/-! ## The sections of the reader -/

namespace CachedReader

variable (r : CachedReader)

/-- What is read ahead is kept behind what was, and the sniffer is handed the start of it. -/
theorem cacheInternal_spec (mb : MultiBuffer) :
    MultiBuffer.bytes (r.cacheInternal mb).1.cache =
      MultiBuffer.bytes r.cache ++ MultiBuffer.bytes mb ∧
    (r.cacheInternal mb).2.bytes = (MultiBuffer.bytes (r.cacheInternal mb).1.cache).take bufSize := by
  constructor
  · rw [cacheInternal]
    cases hempty : MultiBuffer.isEmpty mb with
    | true =>
      rw [(MultiBuffer.isEmpty_iff mb).1 hempty, List.append_nil]
      rfl
    | false => exact MultiBuffer.bytes_append r.cache mb
  · rw [cacheInternal]
    dsimp only
    rw [MultiBuffer.copy_eq, Buffer.overwrite_bytes (by rw [List.length_take]; omega)]

/-- All that is cached is served. -/
theorem readInternal_cases :
    (r.readInternal = ({ cache := [] }, some r.cache)) ∨
    (r.readInternal = (r, none) ∧ MultiBuffer.bytes r.cache = []) := by
  rw [readInternal]
  cases hempty : MultiBuffer.isEmpty r.cache with
  | true => exact .inr ⟨rfl, (MultiBuffer.isEmpty_iff r.cache).1 hempty⟩
  | false => exact .inl rfl

end CachedReader

end Gzv2ray.Dispatcher

/-! ## What is taken from a pipe -/

namespace Gzv2ray.Transport

/-- The call is a read that has not returned. -/
def PipeCall.IsReading : PipeCall → Prop
  | .reading _ => True
  | .waitingRead _ => True
  | .signalWrite _ => True
  | _ => False

/-- The bytes that the call read. -/
def PipeCall.taken : PipeCall → Bytes
  | .signalWrite (.ok mb) => MultiBuffer.bytes mb
  | .returned (.read (.ok mb)) => MultiBuffer.bytes mb
  | _ => []

namespace PipeSystem

variable {s t : PipeSystem} {i : ℕ} {d : Bytes}

/-- From `s` to `t`, the call `i` takes `d`, and is a read if this is not empty; the other calls
    stand where they stood. -/
structure Takes (s t : PipeSystem) (i : ℕ) (d : Bytes) : Prop where
  calls : ∀ j ≠ i, t.calls j = s.calls j
  delivered : t.delivered = s.delivered ++ d
  taken : (t.calls i).taken = (s.calls i).taken ++ d
  reading : (t.calls i).IsReading ∨ d ≠ [] → (s.calls i).IsReading

/-- The call goes on, and takes nothing. -/
theorem Takes.goto {pipe : Pipe} {begun : ℕ → Option MultiBuffer} {accepted : List (ℕ × MultiBuffer)}
    {before : PipeCall} (call : PipeCall) (hbefore : s.calls i = before)
    (htaken : call.taken = before.taken) (hreading : call.IsReading → before.IsReading) :
    Takes s (PipeSystem.goto { s with pipe, begun, accepted } i call) i [] where
  calls j hj := goto_calls_of_ne hj
  delivered := (List.append_nil _).symm
  taken := by rw [goto_calls_self, htaken, hbefore, List.append_nil]
  reading := by
    rw [goto_calls_self, hbefore]
    exact fun h => hreading (h.resolve_right fun hnil => hnil rfl)

/-- Nothing happens to any call. -/
theorem Takes.refl (hcalls : t.calls = s.calls) (hdelivered : t.delivered = s.delivered) :
    Takes s t i [] where
  calls j _ := by rw [hcalls]
  delivered := by rw [hdelivered, List.append_nil]
  taken := by rw [hcalls, List.append_nil]
  reading := by
    rw [hcalls]
    exact fun h => h.resolve_right fun hnil => hnil rfl

theorem takes_lockWrite {mb : MultiBuffer} (hcall : s.calls i = .writing mb) :
    Takes s (s.lockWrite i mb) i [] := by
  rcases s.lockWrite_cases i mb with ⟨-, -, heq⟩ | ⟨-, heq⟩ | heq | heq
  · rw [heq]
    exact .goto (.signalRead none) hcall rfl False.elim
  · rw [heq]
    exact .goto (.returned (.written none)) hcall rfl False.elim
  · rw [heq]
    exact .goto (.signalRead (some .closedPipe)) hcall rfl False.elim
  · rw [heq]
    exact .goto (.waitingWrite mb) hcall rfl False.elim

theorem takes_lockRead {timer : Bool} (hcall : s.calls i = .reading timer) :
    ∃ d, Takes s (s.lockRead i timer) i d := by
  rcases s.lockRead_cases i timer with ⟨data, -, -, heq⟩ | ⟨err, -, heq⟩ | heq
  · refine ⟨MultiBuffer.bytes data, ?_⟩
    rw [heq]
    refine ⟨fun j hj => goto_calls_of_ne hj, rfl, ?_, fun _ => by rw [hcall]; trivial⟩
    rw [goto_calls_self, hcall]
    rfl
  · rw [heq]
    exact ⟨[], .goto (.signalWrite (.error err)) hcall rfl id⟩
  · rw [heq]
    exact ⟨[], .goto (.waitingRead timer) hcall rfl id⟩

/-- In any step but the beginning of a read, only a read takes something. -/
theorem takes_step {e : PipeEvent} (he : s.Enabled e)
    (hread : ∀ i timer, e ≠ .readMultiBuffer i timer) : ∃ i d, Takes s (s.step e) i d := by
  cases e with
  | writeMultiBuffer i mb =>
    refine ⟨i, [], ?_⟩
    rw [PipeSystem.step]
    split_ifs
    · exact .goto (.returned (.written none)) he rfl False.elim
    · exact .goto (.writing mb) he rfl False.elim
  | readMultiBuffer i timer => exact absurd rfl (hread i timer)
  | lock i =>
    rcases he with ⟨mb, hcall⟩ | ⟨timer, hcall⟩
    · rw [PipeSystem.step, hcall]
      exact ⟨i, [], takes_lockWrite hcall⟩
    · rw [PipeSystem.step, hcall]
      exact ⟨i, takes_lockRead hcall⟩
  | signal i =>
    refine ⟨i, [], ?_⟩
    rcases he with ⟨err, hcall⟩ | ⟨out, hcall⟩
    · rw [PipeSystem.step, hcall]
      exact .goto (.returned (.written err)) hcall rfl False.elim
    · rw [PipeSystem.step, hcall]
      exact .goto (.returned (.read out)) hcall (by cases out <;> rfl) False.elim
  | wake i =>
    refine ⟨i, [], ?_⟩
    rcases he with ⟨mb, hcall, -⟩ | ⟨timer, hcall, -⟩
    · rw [PipeSystem.step, hcall]
      exact .goto (.writing mb) hcall rfl False.elim
    · rw [PipeSystem.step, hcall]
      exact .goto (.reading timer) hcall rfl id
  | done i =>
    refine ⟨i, [], ?_⟩
    rcases he.1 with ⟨mb, hcall⟩ | ⟨timer, hcall⟩
    · rw [PipeSystem.step, hcall]
      exact .goto (.returned (.written (some .closedPipe))) hcall rfl False.elim
    · rw [PipeSystem.step, hcall]
      exact .goto (.reading timer) hcall rfl id
  | timeout i => exact ⟨i, [], .goto (.returned (.read (.error errReadTimeout))) he rfl False.elim⟩
  | close => exact ⟨0, [], .refl rfl rfl⟩
  | interrupt => exact ⟨0, [], .refl rfl rfl⟩

end PipeSystem

end Gzv2ray.Transport

namespace Gzv2ray.Dispatcher

open Transport

/-! ## The invariant -/

namespace CachedSystem

variable {s : CachedSystem}

/-- The bytes that the call under way took from the pipe. -/
def held (s : CachedSystem) : Bytes :=
  match s.current with
  | some (i, _) => (s.pipe.calls i).taken
  | none => []

/-- The reader follows its pipe: only the call under way reads it, and a read does so only if
    nothing is cached. -/
structure Follows (s : CachedSystem) : Prop where
  account : s.pipe.Account
  current : ∀ i, (s.pipe.calls i).IsReading → ∃ call, s.current = some (i, call)
  cache : ∀ i, s.current = some (i, .read) → MultiBuffer.bytes s.reader.cache = []
  order : s.released = [] →
    s.returned ++ MultiBuffer.bytes s.reader.cache ++ s.held = s.pipe.delivered
  payloads : s.released = [] → ∀ p ∈ s.payloads, p.1.bytes <+: s.pipe.delivered.drop p.2

/-- What a step takes from the pipe is held by the call under way. -/
theorem Follows.takes (hs : s.Follows) {t : PipeSystem} {i : ℕ} {d : Bytes} (h : s.pipe.Takes t i d)
    (haccount : t.Account) : Follows { s with pipe := t } := by
  -- a call that takes something is the one under way
  have hmine : d ≠ [] → ∃ call, s.current = some (i, call) := fun hd =>
    hs.current i (h.reading (.inr hd))
  have hheld : held { s with pipe := t } = s.held ++ d := by
    rw [held, held]
    dsimp only
    rcases hcurrent : s.current with - | ⟨j, call⟩
    · by_contra hne
      obtain ⟨call, hcall⟩ := hmine fun hd => hne (by rw [hd]; rfl)
      cases hcurrent.symm.trans hcall
    · by_cases hj : j = i
      · rw [hj]
        exact h.taken
      · have hd : d = [] := by
          by_contra hd
          obtain ⟨call', hcall⟩ := hmine hd
          obtain ⟨rfl, -⟩ := Prod.mk.inj (Option.some.inj (hcurrent.symm.trans hcall))
          exact hj rfl
        dsimp only
        rw [h.calls j hj, hd, List.append_nil]
  refine ⟨haccount, fun j hj => ?_, hs.cache, fun hreleased => ?_, fun hreleased p hp => ?_⟩
  · by_cases hji : j = i
    · subst hji
      exact hs.current j (h.reading (.inl hj))
    · exact hs.current j (by rw [← h.calls j hji]; exact hj)
  · rw [hheld, ← List.append_assoc]
    change s.returned ++ _ ++ _ ++ d = t.delivered
    rw [hs.order hreleased, h.delivered]
  · change _ <+: t.delivered.drop p.2
    rw [h.delivered, List.drop_append]
    exact (hs.payloads hreleased p hp).trans (List.prefix_append _ _)

/-- A call begins to read the pipe. -/
theorem Follows.begin (hs : s.Follows) {i : ℕ} (hcurrent : s.current = none)
    (hidle : s.pipe.calls i = .idle) (timer : Bool) (call : CachedCall)
    (hcache : call = .read → MultiBuffer.bytes s.reader.cache = []) :
    Follows { s with
      pipe := s.pipe.step (.readMultiBuffer i timer)
      current := some (i, call) } := by
  have hheld : s.held = [] := by rw [held, hcurrent]
  refine ⟨hs.account.step (e := .readMultiBuffer i timer) hidle, fun j hj => ?_, ?_,
    fun hreleased => ?_, hs.payloads⟩
  · by_cases hji : j = i
    · exact ⟨call, by rw [hji]⟩
    · have hreading : ((s.pipe.goto i (.reading timer)).calls j).IsReading := hj
      rw [PipeSystem.goto_calls_of_ne hji] at hreading
      obtain ⟨other, hother⟩ := hs.current j hreading
      cases hcurrent.symm.trans hother
  · rintro j hj
    exact hcache (Prod.mk.inj (Option.some.inj hj)).2
  · have horder := hs.order hreleased
    rw [hheld] at horder
    rw [held]
    dsimp only
    rw [PipeSystem.step, PipeSystem.goto_calls_self]
    exact horder

/-- A call returns after its call to the pipe. -/
theorem Follows.finish (hs : s.Follows) {i : ℕ} {call : CachedCall} {out : Except Error MultiBuffer}
    (hcurrent : s.current = some (i, call)) (hcall : s.pipe.calls i = .returned (.read out)) :
    (s.finish out call).Follows := by
  have hheld : s.held = MultiBuffer.bytes (buffersOf out) := by
    rw [held, hcurrent]
    dsimp only
    rw [hcall]
    cases out <;> rfl
  have hnone (j : ℕ) (hj : (s.pipe.calls j).IsReading) : False := by
    obtain ⟨other, hother⟩ := hs.current j hj
    obtain ⟨rfl, -⟩ := Prod.mk.inj (Option.some.inj (hcurrent.symm.trans hother))
    rw [hcall] at hj
    exact hj
  cases call with
  | cache =>
    obtain ⟨hcache, hpayload⟩ := s.reader.cacheInternal_spec (buffersOf out)
    have horder (hreleased : s.released = []) : s.returned ++
        MultiBuffer.bytes (s.reader.cacheInternal (buffersOf out)).1.cache = s.pipe.delivered := by
      rw [hcache, ← hheld, ← List.append_assoc]
      exact hs.order hreleased
    refine ⟨hs.account, fun j hj => (hnone j hj).elim, fun j hj => (nomatch hj), fun hreleased => ?_,
      fun hreleased p hp => ?_⟩
    · exact (List.append_nil _).trans (horder hreleased)
    · rcases List.mem_append.1 hp with hp | hp
      · exact hs.payloads hreleased p hp
      · obtain rfl : p = ((s.reader.cacheInternal (buffersOf out)).2, s.returned.length) :=
          List.mem_singleton.1 hp
        change _ <+: s.pipe.delivered.drop s.returned.length
        rw [← horder hreleased, List.drop_left, hpayload]
        exact List.take_prefix _ _
  | read =>
    refine ⟨hs.account, fun j hj => (hnone j hj).elim, fun j hj => (nomatch hj), fun hreleased => ?_,
      hs.payloads⟩
    have horder := hs.order hreleased
    rw [hs.cache i hcurrent, hheld, List.append_nil] at horder
    change returned { s with results := s.results ++ [out] } ++
      MultiBuffer.bytes s.reader.cache ++ [] = _
    rw [returned, List.flatMap_append, List.flatMap_singleton, hs.cache i hcurrent, List.append_nil,
      List.append_nil]
    exact horder

/-- A read is served from the cache. -/
theorem Follows.serve (hs : s.Follows) (hcurrent : s.current = none) :
    Follows { s with reader := { cache := [] }, results := s.results ++ [.ok s.reader.cache] } := by
  refine ⟨hs.account, hs.current, fun i hi => (nomatch hcurrent.symm.trans hi), fun hreleased => ?_,
    hs.payloads⟩
  rw [returned, List.flatMap_append, List.flatMap_singleton]
  exact (congrArg (· ++ s.held) (List.append_nil _)).trans (hs.order hreleased)

theorem Follows.step (hs : s.Follows) {e : CachedEvent} (he : s.Enabled e) : (s.step e).Follows := by
  cases e with
  | pipe e =>
    obtain ⟨i, d, htakes⟩ := PipeSystem.takes_step he.1 he.2
    exact hs.takes htakes (hs.account.step he.1)
  | cache i => exact hs.begin he.1 he.2 true .cache fun h => nomatch h
  | read i timer =>
    rw [CachedSystem.step]
    rcases s.reader.readInternal_cases with hread | ⟨hread, hcache⟩
    · rw [hread]
      exact hs.serve he.1
    · rw [hread]
      exact hs.begin he.1 he.2 timer .read fun _ => hcache
  | finish =>
    obtain ⟨i, call, out, hcurrent, hcall⟩ := he
    rw [CachedSystem.step, hcurrent]
    dsimp only
    rw [hcall]
    exact hs.finish hcurrent hcall
  | interrupt =>
    refine ⟨hs.account, hs.current, fun i _ => rfl, fun hreleased => ?_, fun hreleased => ?_⟩
    · obtain ⟨hreleased, hcache⟩ := List.append_eq_nil_iff.1 hreleased
      have horder := hs.order hreleased
      rw [hcache] at horder
      exact horder
    · exact hs.payloads (List.append_eq_nil_iff.1 hreleased).1

/-! ## The law -/

/-- What the sniffer and the outbound rely on. -/
structure Lawful (s : CachedSystem) : Prop where
  /-- The bytes read, and then those that are cached, held by the call under way and pending in the
      pipe, are the data of the writes accepted, in this order, but for that of the last ones if an
      interrupt of the pipe dropped it. -/
  order : ∃ kept gone, s.pipe.accepted.map Prod.snd = kept ++ gone ∧
    s.returned ++ MultiBuffer.bytes s.reader.cache ++ s.held ++ s.pipe.pendingBytes =
      kept.flatMap MultiBuffer.bytes ∧
    (gone = [] ∨ s.pipe.pipe.state = .errord)
  /-- When a read is about to report the end of the file, everything was read. -/
  eof : ∀ i, s.current = some (i, .read) → s.pipe.calls i = .returned (.read (.error .eof)) →
    s.returned = (s.pipe.accepted.map Prod.snd).flatMap MultiBuffer.bytes
  /-- A buffer handed to the sniffer is a start of what was not read before. -/
  payloads : ∀ p ∈ s.payloads, p.1.len ≤ bufSize ∧
    p.1.bytes <+: ((s.pipe.accepted.map Prod.snd).flatMap MultiBuffer.bytes).drop p.2

theorem Follows.lawful (h : s.Follows) (hreleased : s.released = []) : s.Lawful := by
  have horder := h.order hreleased
  obtain ⟨kept, gone, haccepted, hkept, hgone⟩ := h.account.lawful.fifo
  refine ⟨⟨kept, gone, haccepted, ?_, hgone⟩, fun i hcurrent hcall => ?_, fun p hp => ⟨p.1.len_le, ?_⟩⟩
  · rw [horder]
    exact hkept
  · rw [← (h.account.lawful.eof_after_all i hcall).2, ← horder, h.cache i hcurrent, held, hcurrent]
    dsimp only
    rw [hcall, List.append_nil]
    exact (List.append_nil _).symm
  · have hdelivered : s.pipe.delivered <+:
        (s.pipe.accepted.map Prod.snd).flatMap MultiBuffer.bytes := by
      rw [haccepted, List.flatMap_append, ← hkept, List.append_assoc]
      exact List.prefix_append _ _
    exact (h.payloads hreleased p hp).trans (hdelivered.drop p.2)

end CachedSystem

/-- In every run in which no `Interrupt` releases a byte, whatever the calls and the steps at the
    pipe: the reader returns the bytes of its pipe, in their order, and the sniffer is handed a
    start of those that are not read yet. -/
theorem cachedReader_lawful (option : PipeOption) (s : CachedSystem)
    (h : (cachedReading option).Reach (fun _ => True) s) (hreleased : s.released = []) : s.Lawful := by
  refine CachedSystem.Follows.lawful ?_ hreleased
  refine h.invariant (fun s hs _ => ?_) fun s e t _ hs hstep _ => ?_
  · rw [show s = _ from hs]
    exact ⟨⟨⟨[], [], [], rfl, rfl, rfl, .inl rfl⟩, fun i => (List.not_mem_nil : i ∉ []),
      List.nodup_nil⟩, fun i hi => hi.elim, fun i hi => rfl, fun _ => rfl, fun _ p hp => nomatch hp⟩
  · rw [hstep.2]
    exact hs.step hstep.1

/-- A run in which the sniffer is handed three bytes, which are read afterwards. -/
theorem cachedReader_lawful_example :
    let mb : MultiBuffer := [.overwrite 0 [1, 2, 3]]
    let s₁ := CachedSystem.step { pipe := { pipe := { option := {} } } }
      (.pipe (.writeMultiBuffer 0 mb))
    let s₂ := (s₁.step (.pipe (.lock 0))).step (.cache 1)
    let s₃ := ((s₂.step (.pipe (.lock 1))).step (.pipe (.signal 1))).step .finish
    let s := s₃.step (.read 2 false)
    s.results = [.ok mb] ∧ s.payloads = [(.overwrite 0 [1, 2, 3], 0)] ∧ s.Lawful := by
  intro mb s₁ s₂ s₃ s
  have hnext {s : CachedSystem} (h : (cachedReading {}).Reach (fun _ => True) s) (e : CachedEvent)
      (he : s.Enabled e) : (cachedReading {}).Reach (fun _ => True) (s.step e) :=
    h.step ⟨he, rfl⟩ trivial
  have h₁ : (cachedReading {}).Reach (fun _ => True) s₁ :=
    hnext (.init rfl trivial) (.pipe (.writeMultiBuffer 0 mb)) ⟨rfl, nofun⟩
  have h₂ : (cachedReading {}).Reach (fun _ => True) s₂ :=
    hnext (hnext h₁ (.pipe (.lock 0)) ⟨.inl ⟨mb, rfl⟩, nofun⟩) (.cache 1) ⟨rfl, rfl⟩
  have h₃ : (cachedReading {}).Reach (fun _ => True) s₃ :=
    hnext (hnext (hnext h₂ (.pipe (.lock 1)) ⟨.inr ⟨true, rfl⟩, nofun⟩)
      (.pipe (.signal 1)) ⟨.inr ⟨.ok mb, rfl⟩, nofun⟩) .finish ⟨1, .cache, .ok mb, rfl, rfl⟩
  exact ⟨rfl, rfl, cachedReader_lawful {} s (hnext h₃ (.read 2 false) ⟨rfl, rfl⟩) rfl⟩

end Gzv2ray.Dispatcher
