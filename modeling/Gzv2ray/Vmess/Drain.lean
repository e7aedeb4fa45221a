import Gzv2ray.Vmess.Server

/-!
# How much of a rejected connection is taken

The number of bytes that remain to be drained is counted down at several places: by
what is in the buffer, which is cleared between the stages, and by what opening a
sealed header reports. It always comes to the bytes that were taken so far
(`Decoded.Accounts`), so that a drained connection is taken from up to its drain size,
or as far as it was parsed (`decodeRequestHeader_drains`).
-/

namespace Gzv2ray.Vmess.Encoding

variable {F ι : Type}

/-! ## Parts of the decoder -/

section

variable {readFull : ReadFull ι} {S : ι → Bytes → ι → Prop}

theorem readFixedFields_takes (hread : readFull.Follows S) :
    (readFixedFields readFull).Takes S := by
  have hS := hread.toIsPath
  refine .bind hS (.readFullFrom hread 38) fun _ => ?_
  iterate 7 refine .bind hS (.of_eq hS fun _ _ => rfl) fun _ => ?_
  exact .of_eq hS fun _ _ => rfl

theorem readDestination_takes (hread : readFull.Follows S) (parseIP : Bytes → Option IPv6)
    (command : RequestCommand) : (readDestination readFull parseIP command).Takes S := by
  intro b i
  rw [readDestination]
  split_ifs
  · exact .refl hread.toIsPath _
  · -- What an address that cannot be read has taken is in the buffer too.
    have htook : Reading.Took S (b, i) (addrParser.readBothInto parseIP readFull b i).2 :=
      AddressParser.readBothInto_takes hread b i
    rw [AddressParser.readAddressPortInto, Option.getD_some]
    rcases hout : addrParser.readBothInto parseIP readFull b i with ⟨dest | e | -, b', i'⟩ <;>
      rw [hout] at htook <;> exact htook
  · exact .refl hread.toIsPath _

theorem readPadding_takes (hread : readFull.Follows S) (paddingLen : ℕ) :
    (readPadding readFull paddingLen).Takes S := by
  rw [readPadding]
  split_ifs
  · exact .readFullFrom hread paddingLen
  · exact .of_eq hread.toIsPath fun _ _ => rfl

theorem verifyChecksum_takes (hS : IsPath S) : (verifyChecksum : Reading ι Bool).Takes S :=
  .bind hS (.of_eq hS fun _ _ => rfl) fun _ => .bind hS (.of_eq hS fun _ _ => rfl) fun _ =>
    .of_eq hS fun _ _ => rfl

variable {parseIP : Bytes → Option IPv6} {fixed : FixedFields} {authID : Bytes}

/-- Whatever is decided, the bytes that were taken are in the buffer. -/
theorem decodeRest_took (hread : readFull.Follows S) (s : Server F) (b : Buffer) (i : ι) :
    Reading.Took S (b, i) (decodeRest parseIP readFull fixed authID s b i).2.2 := by
  have hS := hread.toIsPath
  rw [decodeRest]
  have htook := readDestination_takes hread parseIP fixed.command b i
  generalize readDestination readFull parseIP fixed.command b i = out at htook ⊢
  rcases out with ⟨dest | e | -, b₁, i₁⟩
  · refine htook.trans hS ?_
    have htook₁ := readPadding_takes hread fixed.paddingLen b₁ i₁
    dsimp only
    generalize readPadding readFull fixed.paddingLen b₁ i₁ = out at htook₁ ⊢
    rcases out with ⟨_ | e | -, b₂, i₂⟩
    · refine htook₁.trans hS ?_
      have htook₂ := Reading.Takes.readFullFrom hread 4 b₂ i₂
      dsimp only
      generalize Reading.readFullFrom readFull 4 b₂ i₂ = out at htook₂ ⊢
      rcases out with ⟨_ | e | -, b₃, i₃⟩
      · refine htook₂.trans hS ?_
        have htook₃ : Reading.Took S (b₃, i₃) (verifyChecksum b₃ i₃).2 :=
          verifyChecksum_takes hS b₃ i₃
        dsimp only
        generalize verifyChecksum b₃ i₃ = out at htook₃ ⊢
        rcases out with ⟨(- | -) | e | -, b₄, i₄⟩ <;> exact htook₃
      · exact htook₂
      · exact htook₂
    · exact htook₁
    · exact htook₁
  · exact htook
  · exact htook

theorem decodeFields_took (hread : readFull.Follows S) (user : MemoryUser) (clock : ℤ × ℤ)
    (s : Server F) (i : ι) :
    Reading.Took S (.new, i) (decodeFields parseIP readFull user authID clock s i).2.2 := by
  have hS := hread.toIsPath
  rw [decodeFields]
  have htook := readFixedFields_takes hread .new i
  generalize readFixedFields readFull .new i = out at htook ⊢
  rcases out with ⟨fixed | e | -, b, i'⟩
  · refine htook.trans hS ?_
    dsimp only
    rcases s.sessionHistory.addIfNotExits ⟨user.account.id.uuid, fixed.requestBodyKey,
      fixed.requestBodyIV⟩ clock.1 clock.2 with ⟨- | -, sessionHistory⟩
    · exact .refl hS _
    · exact decodeRest_took hread _ b i'
  · exact htook
  · exact htook

end

/-! ## Where a header is drained -/

/-- The connection is drained only if the header is not sealed, and behind the identifier. -/
def Verdict.IsLegacy (s : Server F) (v : Verdict) : Prop :=
  ∀ point e, v = .drained point e → s.session.isAEADRequest = false ∧ point ≠ .authID

theorem Verdict.IsLegacy.of_ne {s : Server F} {v : Verdict} (h : ∀ point e, v ≠ .drained point e) :
    v.IsLegacy s :=
  fun point e hv => absurd hv (h point e)

section

variable (s : Server F) (authID : Bytes)

theorem rejectCut_isLegacy (text : String) (err : Error) :
    (s.rejectCut authID text err).1.IsLegacy s := by
  rw [Server.rejectCut]
  split_ifs <;> exact .of_ne (by simp)

theorem rejectDuplicated_isLegacy : (s.rejectDuplicated authID).1.IsLegacy s := by
  rw [Server.rejectDuplicated]
  split_ifs with hsealed
  · exact .of_ne (by simp)
  · rintro point e ⟨⟩
    exact ⟨Bool.eq_false_of_not_eq_true hsealed, by simp⟩

theorem rejectChecksum_isLegacy : (s.rejectChecksum authID).1.IsLegacy s := by
  rw [Server.rejectChecksum]
  split_ifs with hsealed
  · exact .of_ne (by simp)
  · rintro point e ⟨⟩
    exact ⟨Bool.eq_false_of_not_eq_true hsealed, by simp⟩

theorem checkRequest_isLegacy (request : RequestHeader) : (checkRequest request).IsLegacy s := by
  rw [checkRequest]
  split_ifs <;> exact .of_ne (by simp)

variable (parseIP : Bytes → Option IPv6) (readFull : ReadFull ι)

theorem decodeRest_isLegacy (fixed : FixedFields) (b : Buffer) (i : ι) :
    (decodeRest parseIP readFull fixed authID s b i).1.IsLegacy s := by
  rw [decodeRest]
  rcases readDestination readFull parseIP fixed.command b i with ⟨dest | _ | -, b₁, i₁⟩
  · dsimp only
    rcases readPadding readFull fixed.paddingLen b₁ i₁ with ⟨_ | e | -, b₂, i₂⟩
    · dsimp only
      rcases Reading.readFullFrom readFull 4 b₂ i₂ with ⟨_ | e | -, b₃, i₃⟩
      · dsimp only
        rcases verifyChecksum b₃ i₃ with ⟨(- | -) | _ | -, b₄, i₄⟩
        · exact rejectChecksum_isLegacy s authID
        · exact checkRequest_isLegacy s _
        · exact .of_ne (by simp)
        · exact .of_ne (by simp)
      · exact rejectCut_isLegacy s authID _ e
      · exact .of_ne (by simp)
    · exact rejectCut_isLegacy s authID _ e
    · exact .of_ne (by simp)
  · exact .of_ne (by simp)
  · exact .of_ne (by simp)

theorem decodeFields_isLegacy (user : MemoryUser) (clock : ℤ × ℤ) (i : ι) :
    (decodeFields parseIP readFull user authID clock s i).1.IsLegacy s := by
  rw [decodeFields]
  rcases readFixedFields readFull .new i with ⟨fixed | _ | -, b, i'⟩
  · dsimp only
    rcases s.sessionHistory.addIfNotExits ⟨user.account.id.uuid, fixed.requestBodyKey,
      fixed.requestBodyIV⟩ clock.1 clock.2 with ⟨- | -, sessionHistory⟩
    · exact rejectDuplicated_isLegacy _ authID
    · exact decodeRest_isLegacy _ authID parseIP readFull fixed b i'
  · exact .of_ne (by simp)
  · exact .of_ne (by simp)

end

/-! ## The account of what is taken -/

/-- Where the connection is drained, the size is taken from it, or what was parsed. -/
def Decoded.Accounts (size : ℕ) (r : BufferedReader) (d : Decoded F) : Prop :=
  ∀ point r₁, d.drained = some (point, r₁) → ∃ n, Consumes r n r₁ ∧
    Consumes r (max size n) d.reader ∧ (point = .authID → n = 16)

theorem Decoded.Accounts.of_none {size : ℕ} {r : BufferedReader} {d : Decoded F}
    (h : d.drained = none) : d.Accounts size r := by
  rintro point r₁ hdrained
  rw [h] at hdrained
  cases hdrained

variable {behavior : DrainBehavior} {r reader : BufferedReader} {n : ℕ} {remain : ℤ}
  {buffer : Buffer} {server : Server F} {point : DrainPoint} {e : Error}

/-- What remains is what the size exceeds the bytes taken by, or there are no more bytes. -/
theorem drainConnection_accounts (hlong : behavior.drainSize ≤ r.bytes.length)
    (h : Consumes r n reader)
    (hremain : remain - buffer.len = behavior.drainSize - n ∨ reader.bytes = [])
    (hpoint : point = .authID → n = 16) :
    (drainConnection behavior remain buffer reader point e server).Accounts behavior.drainSize r := by
  rintro _ _ hdrained
  refine ⟨n, ?_⟩
  have hleft : (drainConnection behavior remain buffer reader point e server).reader.bytes =
      reader.bytes.drop (remain - buffer.len).toNat := by
    rw [drainConnection]
    split_ifs with hpos
    · have hbytes := drainConnN_bytes reader (remain - buffer.len)
      generalize drainConnN reader (remain - buffer.len) = out at hbytes ⊢
      rcases out with ⟨- | err, left⟩ <;> exact hbytes
    · rw [Int.toNat_of_nonpos (not_lt.1 hpos), List.drop_zero]
  obtain ⟨rfl, rfl⟩ : point = _ ∧ reader = _ := by
    have hsome : (drainConnection behavior remain buffer reader point e server).drained =
        some (point, reader) := by
      rw [drainConnection]
      split_ifs
      · rcases drainConnN reader (remain - buffer.len) with ⟨- | err, left⟩ <;> rfl
      · rfl
    simpa using hsome.symm.trans hdrained
  exact ⟨h, h.drain hlong hleft hremain, hpoint⟩

theorem decryption_follows :
    CryptionReader.readInto.Follows fun i l i' => Consumes i.reader l.length i'.reader where
  refl _ := Nat.zero_add _
  trans h h' := by
    rw [List.length_append]
    exact h.trans h'
  le i n := (CryptionReader.readInto_isLawful i n).2.1
  read i n := by
    have h := readInto_consumes i.reader n
    rw [← StreamCipher.length_xorKeyStream i.stream i.past] at h
    exact h

/-- What was taken behind the identifier is in the buffer when the decision falls. -/
theorem finish_accounts {verdict : Verdict} {s : Server F}
    (hlong : behavior.drainSize ≤ r.bytes.length) (hlegacy : verdict.IsLegacy s)
    (h : s.session.isAEADRequest = false → Consumes r (16 + buffer.len) reader)
    (hremain : remain = behavior.drainSize - (16 : ℕ)) (user : MemoryUser) :
    (finish behavior remain user (verdict, server, buffer, reader)).Accounts behavior.drainSize r := by
  rcases verdict with request | e | ⟨point, e⟩ | -
  · exact .of_none rfl
  · exact .of_none rfl
  · obtain ⟨hopen, hpoint⟩ := hlegacy point e rfl
    refine drainConnection_accounts hlong (h hopen) (.inl ?_) fun h => absurd h hpoint
    push_cast
    omega
  · exact .of_none rfl

variable (setup : Setup F) (chances : Chances)

theorem decodeLegacy_accounts (hlong : behavior.drainSize ≤ r.bytes.length)
    (h : Consumes r 16 reader) (hbuffer : buffer.len = 16) (s : Server F) :
    (decodeLegacy setup chances behavior buffer s reader).Accounts behavior.drainSize r := by
  rw [decodeLegacy]
  have hremain : (behavior.drainSize : ℤ) - buffer.len = behavior.drainSize - (16 : ℕ) := by
    rw [hbuffer]
  rcases s.validator.get buffer.bytes with ⟨e | ⟨user, timestamp⟩, validator⟩
  · exact drainConnection_accounts hlong h (.inl hremain) fun _ => rfl
  dsimp only
  split_ifs
  · exact drainConnection_accounts hlong h (.inl hremain) fun _ => rfl
  · refine finish_accounts hlong (decodeFields_isLegacy _ _ _ _ user _ _) (fun _ => ?_) hremain user
    -- As many bytes are decrypted as are taken from the connection.
    exact h.trans (decodeFields_took decryption_follows user chances.session _ _).of_new

theorem decodeSealed_accounts (hlong : behavior.drainSize ≤ r.bytes.length)
    (h : Consumes r 16 reader) (hbuffer : buffer.len = 16) (user : MemoryUser) (s : Server F) :
    (decodeSealed setup chances behavior buffer user s reader).Accounts behavior.drainSize r := by
  rw [decodeSealed]
  obtain ⟨hlength, hend⟩ :=
    openVMessAEADHeader_spec setup.header user.account.id.cmdKey (toBlock buffer.bytes) reader
  rw [Consumes] at h
  dsimp only
  generalize openVMessAEADHeader setup.header user.account.id.cmdKey (toBlock buffer.bytes) reader = o
    at hlength hend ⊢
  rcases o with ⟨aeadData | e | -, shouldDrain, bytesRead, left⟩
  · refine finish_accounts hlong (decodeFields_isLegacy _ _ _ _ user _ _) (fun hopen => ?_)
      (by rw [hbuffer]) user
    -- The header is sealed, so that the connection is not drained from here on.
    exact absurd hopen (by simp)
  · dsimp only at hlength hend ⊢
    split_ifs with hdrain
    · refine drainConnection_accounts hlong (n := 16 + bytesRead) ?_ (.inl ?_) (by simp)
      · rw [Consumes]
        omega
      · rw [hbuffer]
        push_cast
        ring
    · refine drainConnection_accounts hlong (n := 16 + bytesRead) ?_
        (.inr (hend e rfl (Bool.eq_false_of_not_eq_true hdrain))) (by simp)
      rw [Consumes]
      omega
  · exact .of_none rfl

theorem decodeRequestHeader_accounts (s : Server F) (r : BufferedReader)
    (hlong : (s.behavior chances).drainSize ≤ r.bytes.length) :
    (decodeRequestHeader setup chances s r).Accounts (s.behavior chances).drainSize r := by
  rw [decodeRequestHeader]
  obtain ⟨l, hcontent, htaken, -, hok⟩ := Reading.Yields.readFullFrom (c := [])
    BufferedReader.readInto_isLawful (Q := fun _ l => l.length = 16) (fun _ hl => hl) .new r rfl
  generalize Reading.readFullFrom BufferedReader.readInto 16 .new r = out at hcontent htaken hok ⊢
  rcases out with ⟨_ | e | -, buffer, reader⟩
  · have hlength : l.length = 16 := hok () rfl
    have h : Consumes r 16 reader := by
      rw [Consumes, ← hlength, ← List.length_append]
      exact (congrArg List.length htaken).symm
    have hbuffer : buffer.len = 16 := (congrArg List.length hcontent).trans hlength
    have hremain : ((s.behavior chances).drainSize : ℤ) - buffer.len =
        (s.behavior chances).drainSize - (16 : ℕ) := by rw [hbuffer]
    dsimp only
    rcases TimedUserValidator.getAEAD setup.validator setup.filter
      (behaviorSeed s.validator chances.seed).2 buffer.bytes chances.order chances.clock with
      ⟨e | user, validator⟩
    · dsimp only
      split_ifs
      · exact decodeLegacy_accounts setup chances hlong h hbuffer _
      · exact drainConnection_accounts hlong h (.inl hremain) fun _ => rfl
    · exact decodeSealed_accounts setup chances hlong h hbuffer user _
  · exact .of_none rfl
  · exact .of_none rfl

/-! ## The sizes taken -/

/-- The connection is drained within the first sixteen bytes, or at a tag within the size. -/
def IsEarly (size : ℕ) (r r₁ : BufferedReader) (point : DrainPoint) : Prop :=
  point = .authID ∨ point = .tag ∧ ∃ n ≤ size, Consumes r n r₁

/-- From a connection that is drained, the drain size is taken in all, or what was parsed if that is
    more: so it is the same size from all those that are rejected early, whatever they hold. -/
theorem decodeRequestHeader_drains (setup : Setup F) :
    (∀ chances (s : Server F) r point r₁, (s.behavior chances).drainSize ≤ r.bytes.length →
      (decodeRequestHeader setup chances s r).drained = some (point, r₁) →
      ∃ parsed, Consumes r parsed r₁ ∧ Consumes r (max (s.behavior chances).drainSize parsed)
        (decodeRequestHeader setup chances s r).reader) ∧
    ∀ chances chances' (s s' : Server F) r r' point point' r₁ r₁',
      (s.behavior chances).drainSize = (s'.behavior chances').drainSize →
      (s.behavior chances).drainSize ≤ r.bytes.length →
      (s.behavior chances).drainSize ≤ r'.bytes.length →
      (decodeRequestHeader setup chances s r).drained = some (point, r₁) →
      (decodeRequestHeader setup chances' s' r').drained = some (point', r₁') →
      IsEarly (s.behavior chances).drainSize r r₁ point →
      IsEarly (s.behavior chances).drainSize r' r₁' point' →
      ∃ consumed, Consumes r consumed (decodeRequestHeader setup chances s r).reader ∧
        Consumes r' consumed (decodeRequestHeader setup chances' s' r').reader := by
  have hearly : ∀ chances (s : Server F) r point r₁,
      (s.behavior chances).drainSize ≤ r.bytes.length →
      (decodeRequestHeader setup chances s r).drained = some (point, r₁) →
      IsEarly (s.behavior chances).drainSize r r₁ point →
      Consumes r (s.behavior chances).drainSize (decodeRequestHeader setup chances s r).reader := by
    intro chances s r point r₁ hlong hdrained hearly
    obtain ⟨n, h, hall, hpoint⟩ :=
      decodeRequestHeader_accounts setup chances s r hlong point r₁ hdrained
    have hle : n ≤ (s.behavior chances).drainSize := by
      rcases hearly with hauth | ⟨-, m, hm, hr₁⟩
      · have hsize := (s.behavior chances).le_drainSize
        rw [hpoint hauth]
        omega
      · rw [Consumes] at h hr₁
        omega
    rwa [max_eq_left hle] at hall
  refine ⟨fun chances s r point r₁ hlong hdrained => ?_, ?_⟩
  · obtain ⟨n, h, hall, -⟩ :=
      decodeRequestHeader_accounts setup chances s r hlong point r₁ hdrained
    exact ⟨n, h, hall⟩
  · intro chances chances' s s' r r' point point' r₁ r₁' hsize hlong hlong' hdrained hdrained' h h'
    refine ⟨_, hearly chances s r point r₁ hlong hdrained h, ?_⟩
    rw [hsize] at hlong' h' ⊢
    exact hearly chances' s' r' point' r₁' hlong' hdrained' h'

/-- A setup in which nothing is sealed. -/
def probeSetup : Setup Unit where
  validator :=
    { hasher := fun _ message => toBlock message
      decrypt := fun _ data => data
      updateSeed := fun seed _ => seed
      toLower := id
      equalFold := fun s t => s == t }
  filter := ⟨fun _ => (), id, fun f _ => (false, f)⟩
  header := ⟨id, fun _ _ message => message, id, fun _ => noOpAuthenticator, fun _ _ _ x => x⟩
  parseIP _ := none

/-- Nothing is drawn but zeros. -/
def probeChances : Chances where
  dice := ⟨fun _ _ _ => 0, fun _ => 0, fun _ _ _ h => h, fun _ h => h⟩
  seed := 0
  order := []
  clock _ := 0
  session := (0, 0)

/-- A server without users. -/
def probeServer : Server Unit := ⟨.new probeSetup.filter 0, ⟨fun _ => none⟩, {}⟩

/-- Fifty bytes in one segment, and ten in the next. -/
def probe (x : UInt8) : BufferedReader :=
  ⟨[], [[⟨0, List.replicate 50 x, by simp [bufSize]⟩], [⟨0, List.replicate 10 x, by simp [bufSize]⟩]],
    .eof⟩

/-- Two probes of a server without users. -/
theorem decodeRequestHeader_drains_probe :
    ∃ consumed, Consumes (probe 0) consumed
        (decodeRequestHeader probeSetup probeChances probeServer (probe 0)).reader ∧
      Consumes (probe 1) consumed
        (decodeRequestHeader probeSetup probeChances probeServer (probe 1)).reader :=
  (decodeRequestHeader_drains probeSetup).2 probeChances probeChances probeServer probeServer
    (probe 0) (probe 1) .authID .authID _ _ rfl (by decide) (by decide) rfl rfl (.inl rfl) (.inl rfl)

end Gzv2ray.Vmess.Encoding
