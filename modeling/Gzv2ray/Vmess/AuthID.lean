import Gzv2ray.Antireplay.ReplayFilter
import Gzv2ray.Lib.BigEndian

/-!
# Identifiers of authentication

An `AuthIDDecoderHolder` accepts an identifier of sixteen bytes if a user's key
decrypts it to a time near now with a checksum (`decode`), and its replay filter
does not know it.

It accepts nothing twice exactly if what is presented again was presented in the
same generation of the filter, or in the one before (`acceptedIDs_nodup_iff`). The
times of the checks determine the generations: the filter forgets after between
one and two intervals of 120 seconds, the window of a time is of 240.

The decryption of a block, under the key derived from that of a user, is a
parameter.
-/

namespace Gzv2ray

/-- Sixteen bytes. -/
abbrev Block := { b : Bytes // b.length = 16 }

namespace Vmess

/-! ## Checksums and times -/

/-- A step of the CRC-32 checksum, by a bit. -/
def crc32Bit (crc : UInt32) : UInt32 :=
  if crc &&& 1 = 1 then (crc >>> 1) ^^^ 0xedb88320 else crc >>> 1

/-- The CRC-32 checksum, with the polynomial of IEEE 802.3. -/
def checksumIEEE (b : Bytes) : UInt32 :=
  ~~~ b.foldl (fun crc byte => crc32Bit^[8] (crc ^^^ byte.toUInt32)) 0xffffffff

/-- The number that some bits stand for, in two's complement. -/
def toSigned (bits n : ℕ) : ℤ := if n < 2 ^ (bits - 1) then n else n - 2 ^ bits

/-- The closest number with a mantissa of 53 bits, or the even one of two. -/
def roundMantissa (n : ℕ) : ℕ :=
  let unit := 2 ^ (n.log2 + 1 - 53)
  let up := unit < 2 * (n % unit) ∨ unit = 2 * (n % unit) ∧ n / unit % 2 = 1
  (n / unit + if up then 1 else 0) * unit

/-- The value of `float64(n)`. -/
def float64 (n : ℤ) : ℤ := n.sign * roundMantissa n.natAbs

/-- The time is near now. -/
def isNear (t now : ℤ) : Bool := |float64 (|float64 t| - float64 now)| ≤ 120

def errNotFound : Error := .new (ascii "user do not exist")

def errReplay : Error := .new (ascii "replayed request")

/-! ## The holder -/

section

variable (decrypt : Block → Block → Block)

/-- The time, the checksum, the random number and all of what the identifier holds. -/
def decode (key data : Block) : ℤ × UInt32 × ℤ × Bytes :=
  let data := (decrypt key data).1
  (toSigned 64 (ofBigEndian (data.take 8)), UInt32.ofNat (ofBigEndian (data.drop 12)),
    toSigned 32 (ofBigEndian ((data.drop 8).take 4)), data)

/-- The decoders of the users, by their keys, and the replay filter. -/
structure AuthIDDecoderHolder (F τ : Type) where
  decoders : List (Block × τ)
  filter : ReplayFilter F

namespace AuthIDDecoderHolder

variable {F τ : Type} (c : CuckooFilter F) (clock : ℕ → ℤ) (h : AuthIDDecoderHolder F τ)

def new : AuthIDDecoderHolder F τ := ⟨[], .new c 120⟩

def addUser (key : Block) (ticket : τ) : AuthIDDecoderHolder F τ :=
  { h with decoders := h.decoders.filter (·.1 ≠ key) ++ [(key, ticket)] }

def removeUser (key : Block) : AuthIDDecoderHolder F τ :=
  { h with decoders := h.decoders.filter (·.1 ≠ key) }

/-- Goes through the decoders in some order, reading the clock from the given tick on. -/
def matchLoop (authID : Block) :
    List (Block × τ) → ℕ → Except Error τ × AuthIDDecoderHolder F τ × ℕ
  | [], tick => (.error errNotFound, h, tick)
  | (key, ticket) :: rest, tick =>
    let (t, z, _, d) := decode decrypt key authID
    if z ≠ checksumIEEE (d.take 12) then matchLoop authID rest tick
    else if t < 0 then matchLoop authID rest tick
    else if !isNear t (clock tick) then matchLoop authID rest (tick + 1)
    else
      let (ok, filter) := h.filter.check c (clock (tick + 1)) authID.1
      (if ok then .ok ticket else .error errReplay, { h with filter }, tick + 2)

end AuthIDDecoderHolder

/-- What is done with a holder. A map is gone through in any order. -/
inductive HolderOperation (τ : Type)
  | addUser (key : Block) (ticket : τ)
  | removeUser (key : Block)
  | matchID (authID : Block) (order : List (Block × τ))

namespace AuthIDDecoderHolder

variable {F τ : Type} (c : CuckooFilter F) (clock : ℕ → ℤ) (h : AuthIDDecoderHolder F τ)

/-- What is accepted, the holder afterwards, and the number of readings of the clock. -/
def step (tick : ℕ) : HolderOperation τ → Option Bytes × AuthIDDecoderHolder F τ × ℕ
  | .addUser key ticket => (none, h.addUser key ticket, tick)
  | .removeUser key => (none, h.removeUser key, tick)
  | .matchID authID order =>
    match h.matchLoop decrypt c clock authID order tick with
    | (.ok _, h, tick) => (some authID.1, h, tick)
    | (.error _, h, tick) => (none, h, tick)

/-- The identifiers that are accepted in a run. -/
def acceptedIDs : AuthIDDecoderHolder F τ → ℕ → List (HolderOperation τ) → List Bytes
  | _, _, [] => []
  | h, tick, op :: rest =>
    let (accepted, h, tick) := h.step decrypt c clock tick op
    accepted.toList ++ acceptedIDs h tick rest

/-- The decoders are gone through in an order of those that there are. -/
def IsRun : AuthIDDecoderHolder F τ → ℕ → List (HolderOperation τ) → Prop
  | _, _, [] => True
  | h, tick, op :: rest =>
    (∀ authID order, op = .matchID authID order → order.Perm h.decoders) ∧
      IsRun (h.step decrypt c clock tick op).2.1 (h.step decrypt c clock tick op).2.2 rest

/-! ## What reaches the filter -/

/-- Whether an identifier reaches the filter, and the readings of the clock before. -/
def reaches (authID : Block) : List (Block × τ) → ℕ → Bool × ℕ
  | [], tick => (false, tick)
  | (key, _) :: rest, tick =>
    let (t, z, _, d) := decode decrypt key authID
    if z ≠ checksumIEEE (d.take 12) then reaches authID rest tick
    else if t < 0 then reaches authID rest tick
    else if !isNear t (clock tick) then reaches authID rest (tick + 1)
    else (true, tick + 1)

/-- The checks of the filter in a run, with their times. -/
def checks : ℕ → List (HolderOperation τ) → List (ℤ × Bytes)
  | _, [] => []
  | tick, .matchID authID order :: rest =>
    match reaches decrypt clock authID order tick with
    | (true, tick) => (clock tick, authID.1) :: checks (tick + 1) rest
    | (false, tick) => checks tick rest
  | tick, _ :: rest => checks tick rest

/-- What is presented to the filter in a run, with its generations. -/
def presented (ops : List (HolderOperation τ)) : Notes Bytes :=
  ReplayFilter.notes 120 0 0 (checks decrypt clock 0 ops)

variable {decrypt c clock h}

/-- The loop ends with a check, if the identifier reaches the filter. -/
theorem matchLoop_eq {authID : Block} {order : List (Block × τ)} {tick tick' : ℕ} {found : Bool}
    (hreaches : reaches decrypt clock authID order tick = (found, tick')) :
    (found = false ∧
      h.matchLoop decrypt c clock authID order tick = (.error errNotFound, h, tick')) ∨
    (found = true ∧ ∃ ticket, h.matchLoop decrypt c clock authID order tick =
      (if (h.filter.check c (clock tick') authID.1).1 then .ok ticket else .error errReplay,
        { h with filter := (h.filter.check c (clock tick') authID.1).2 }, tick' + 1)) := by
  induction order generalizing tick with
  | nil =>
    cases hreaches
    exact .inl ⟨rfl, rfl⟩
  | cons item rest ih =>
    obtain ⟨key, ticket⟩ := item
    rw [reaches] at hreaches
    rw [matchLoop]
    generalize decode decrypt key authID = d at hreaches ⊢
    obtain ⟨t, z, rand, d⟩ := d
    dsimp only at hreaches ⊢
    by_cases hz : z ≠ checksumIEEE (d.take 12)
    · rw [if_pos hz] at hreaches ⊢
      exact ih hreaches
    by_cases ht : t < 0
    · rw [if_neg hz, if_pos ht] at hreaches ⊢
      exact ih hreaches
    by_cases hnear : !isNear t (clock tick)
    · rw [if_neg hz, if_neg ht, if_pos hnear] at hreaches ⊢
      exact ih hreaches
    · rw [if_neg hz, if_neg ht, if_neg hnear] at hreaches ⊢
      cases hreaches
      exact .inr ⟨rfl, ticket, rfl⟩

/-- A match leaves the decoders as they are. -/
theorem matchLoop_decoders (authID : Block) (order : List (Block × τ)) (tick : ℕ) :
    (h.matchLoop decrypt c clock authID order tick).2.1.decoders = h.decoders := by
  cases hreaches : reaches decrypt clock authID order tick with
  | mk found tick' =>
    rcases matchLoop_eq (c := c) (h := h) hreaches with ⟨-, hloop⟩ | ⟨-, ticket, hloop⟩ <;> rw [hloop]

theorem step_matchID_decoders (tick : ℕ) (authID : Block) (order : List (Block × τ)) :
    (h.step decrypt c clock tick (.matchID authID order)).2.1.decoders = h.decoders := by
  have hdecoders : (h.matchLoop decrypt c clock authID order tick).2.1.decoders = h.decoders :=
    matchLoop_decoders authID order tick
  rw [step]
  generalize h.matchLoop decrypt c clock authID order tick = t at hdecoders ⊢
  obtain ⟨out, h', tick'⟩ := t
  cases out <;> exact hdecoders

/-- A ticket that is found is that of a decoder. -/
theorem matchLoop_eq_ok {authID : Block} {order : List (Block × τ)} {tick : ℕ} {ticket : τ}
    (hmatch : (h.matchLoop decrypt c clock authID order tick).1 = .ok ticket) :
    ∃ key, (key, ticket) ∈ order := by
  induction order generalizing tick with
  | nil => cases hmatch
  | cons item rest ih =>
    obtain ⟨key, ticket'⟩ := item
    have hrest (k : ℕ) (h' : (h.matchLoop decrypt c clock authID rest k).1 = .ok ticket) :
        ∃ key', (key', ticket) ∈ (key, ticket') :: rest :=
      (ih h').imp fun _ hmem => List.mem_cons_of_mem _ hmem
    rw [matchLoop] at hmatch
    generalize decode decrypt key authID = d at hmatch
    obtain ⟨t, z, rand, d⟩ := d
    dsimp only at hmatch
    split at hmatch
    · exact hrest _ hmatch
    split at hmatch
    · exact hrest _ hmatch
    split at hmatch
    · exact hrest _ hmatch
    · dsimp only at hmatch
      split at hmatch
      · cases hmatch
        exact ⟨key, List.mem_cons_self⟩
      · cases hmatch

/-- Matches that go through all the decoders are a run. -/
theorem isRun_matches {order : List (Block × τ)} (horder : h.decoders = order)
    (authIDs : List Block) (tick : ℕ) :
    IsRun decrypt c clock h tick (authIDs.map (.matchID · order)) := by
  induction authIDs generalizing h tick with
  | nil => trivial
  | cons authID authIDs ih =>
    refine ⟨?_, ih ((step_matchID_decoders tick authID order).trans horder) _⟩
    rintro _ _ ⟨⟩
    exact .of_eq horder.symm

/-- The identifiers that are accepted are those that the filter accepts. -/
theorem acceptedIDs_eq (ops : List (HolderOperation τ)) (tick : ℕ) :
    acceptedIDs decrypt c clock h tick ops =
      ReplayFilter.accepted c h.filter (checks decrypt clock tick ops) := by
  induction ops generalizing h tick with
  | nil => rfl
  | cons op rest ih =>
    cases op with
    | addUser key ticket => exact ih tick
    | removeUser key => exact ih tick
    | matchID authID order =>
      rw [acceptedIDs, step, checks]
      cases hreaches : reaches decrypt clock authID order tick with
      | mk found tick' =>
        rcases matchLoop_eq (c := c) (h := h) hreaches with ⟨rfl, hloop⟩ | ⟨rfl, ticket, hloop⟩
        · rw [hloop]
          exact ih tick'
        · rw [hloop]
          dsimp only
          rw [ReplayFilter.accepted]
          cases hcheck : h.filter.check c (clock tick') authID.1 with
          | mk ok f =>
            cases ok with
            | true => exact congrArg _ (ih (tick' + 1))
            | false => exact ih (tick' + 1)

/-- The times of the checks are readings of the clock. -/
theorem exists_of_mem_checks {ops : List (HolderOperation τ)} {tick : ℕ} {call : ℤ × Bytes}
    (h : call ∈ checks decrypt clock tick ops) : ∃ k, call.1 = clock k := by
  induction ops generalizing tick with
  | nil => exact absurd h List.not_mem_nil
  | cons op rest ih =>
    cases op with
    | addUser key ticket => exact ih h
    | removeUser key => exact ih h
    | matchID authID order =>
      rw [checks] at h
      generalize reaches decrypt clock authID order tick = t at h
      obtain ⟨found, tick'⟩ := t
      cases found with
      | true =>
        rcases List.mem_cons.1 h with rfl | h
        · exact ⟨tick', rfl⟩
        · exact ih h
      | false => exact ih h

/-- No identifier is accepted twice exactly if those that are presented again are in time
    for the filter to remember them. -/
theorem acceptedIDs_nodup_iff {mem : F → Set Bytes} (hc : c.IsExact mem) (hclock : ∀ k, 0 < clock k)
    (ops : List (HolderOperation τ)) :
    (acceptedIDs decrypt c clock (new c) 0 ops).Nodup ↔ (presented decrypt clock ops).IsTimely := by
  rw [acceptedIDs_eq, new, ReplayFilter.accepted_eq hc, Notes.nodup_accepted_iff]
  · rfl
  · intro call hcall
    obtain ⟨k, hk⟩ := exists_of_mem_checks hcall
    rw [hk]
    exact hclock k

end AuthIDDecoderHolder

end

/-! ## A replay -/

/-- A filter that is the list of what it has. -/
def exactFilter : CuckooFilter (List Bytes) where
  newFilter _ := []
  reset _ := []
  insertUnique f b := if f.contains b then (false, f) else (true, b :: f)

theorem exactFilter_isExact : exactFilter.IsExact fun f => { b | b ∈ f } where
  newFilter _ := by simp [exactFilter]
  reset _ := by simp [exactFilter]
  insertUnique_fst f b := by
    rw [exactFilter]
    dsimp only
    split <;> simp_all
  insertUnique_snd f b := by
    rw [exactFilter]
    dsimp only
    split
    · rename_i h
      exact (Set.insert_eq_of_mem (s := { b | b ∈ f }) (List.contains_iff_mem.1 h)).symm
    · ext x
      simp

/-- In a filter of 120 seconds, a sum is rejected after 119 seconds, across a reset. -/
theorem check_window_rejected :
    ((ReplayFilter.run exactFilter (.new exactFilter 120)
      ([(1000, [2])] ++ (1110, [1]) :: [(1120, [3])])).check exactFilter 1229 [1]).1 = false :=
  ReplayFilter.check_window exactFilter_isExact 120 [(1000, [2])] [(1120, [3])] (by decide)
    (by decide) (by decide +kernel) (by decide)

/-- The block that holds a time and its checksum. -/
def exampleID (t : ℕ) : Block :=
  ⟨bigEndian 8 t ++ [0, 0, 0, 0] ++
    bigEndian 4 (checksumIEEE (bigEndian 8 t ++ [0, 0, 0, 0])).toNat, by simp⟩

/-- Two readings for each of the identifiers, at the seconds 1000, 1119, 1120 and 1240. -/
def exampleClock (k : ℕ) : ℤ :=
  if k < 2 then 1000 else if k < 4 then 1119 else if k < 6 then 1120 else 1240

def exampleKey : Block := ⟨List.replicate 16 0, List.length_replicate⟩

theorem exampleClock_pos (k : ℕ) : 0 < exampleClock k := by
  rw [exampleClock]
  split_ifs <;> omega

/-- A user, an identifier at the start of the window of its time, and again 121 seconds
    later. -/
def exampleOperations : List (HolderOperation Unit) :=
  .addUser exampleKey () ::
    ([1000, 1239, 1120, 1239].map exampleID).map (.matchID · [(exampleKey, ())])

theorem acceptedIDs_nodup_iff_example :
    (AuthIDDecoderHolder.acceptedIDs (fun _ b => b) exactFilter exampleClock (.new exactFilter) 0
      exampleOperations).Nodup ↔
    (AuthIDDecoderHolder.presented (fun _ b => b) exampleClock exampleOperations).IsTimely :=
  AuthIDDecoderHolder.acceptedIDs_nodup_iff exactFilter_isExact exampleClock_pos _

/-- The identifier is accepted again, 121 seconds later. -/
theorem acceptedIDs_replayed :
    Monotone exampleClock ∧ (∀ k, 0 < exampleClock k) ∧
      AuthIDDecoderHolder.IsRun (fun _ b => b) exactFilter exampleClock (.new exactFilter) 0
        exampleOperations ∧
      ¬ (AuthIDDecoderHolder.acceptedIDs (fun _ b => b) exactFilter exampleClock (.new exactFilter) 0
        exampleOperations).Nodup := by
  refine ⟨fun i j hij => ?_, exampleClock_pos, ?_, ?_⟩
  · rw [exampleClock, exampleClock]
    split_ifs <;> omega
  · refine ⟨by rintro _ _ ⟨⟩, ?_⟩
    exact AuthIDDecoderHolder.isRun_matches rfl _ _
  · decide +kernel

end Vmess

end Gzv2ray
