import Gzv2ray.Lib.RoundRobin
import Gzv2ray.Lib.Transition
import Mathlib.Data.List.ReduceOption

/-!
# Picking servers

A list of servers, and a picker that goes round it. A call of `PickServer` takes the lock of
the list three times, and looks at one server after the other: servers may be added between
these sections, and expire at any time.

* `RoundRobinServerPicker.step`: the steps;
* `Moves`: all that a step can do (`moves_of_step`);
* `Sound`: the invariant, of servers that are kept and of an index within the list;
* `Lawful`: what a step does with the servers whose turn is still to come;
* `picking_lawful`: runs, as long as there are fewer than 2 ^ 32 servers.
-/

namespace Gzv2ray

/-- Servers are known by where they are stored. -/
abbrev ServerSpec := ℕ

/-- Where a call of `PickServer` is. -/
inductive PickPhase
  | idle
  /-- In `GetServer` of an index: the next one, or the first one. -/
  | scanning (first : Bool) (next : UInt32)
  /-- Between `GetServer` of the next index, which had no server, and of the first one. -/
  | missed
  /-- After them, with what is returned. -/
  | picked (next : UInt32) (server : Option ServerSpec)
  /-- An index is out of range. -/
  | panicked
  deriving DecidableEq

structure RoundRobinServerPicker where
  servers : List ServerSpec
  nextIndex : UInt32 := 0
  phase : PickPhase := .idle
  /-- The servers that are not valid any more. -/
  expired : ServerSpec → Bool := fun _ => false
  /-- The servers that were in the list first, and those that were added. -/
  added : List ServerSpec
  /-- The servers that were removed. -/
  removed : List ServerSpec := []
  /-- What the calls returned. -/
  results : List (Option ServerSpec) := []

/-- What may happen next. -/
inductive PickAction
  | addServer (server : ServerSpec)
  | expire (server : ServerSpec)
  /-- `PickServer` is called, up to the first lock. -/
  | pickServer
  /-- One round of the loop in `GetServer`. -/
  | getServer
  /-- The first index is turned to. -/
  | getFirst
  /-- The size is asked for, and the call returns. -/
  | size
  deriving DecidableEq

/-- A step of the caller of `PickServer`. -/
def PickAction.IsPicker : PickAction → Prop
  | addServer _ => False
  | expire _ => False
  | _ => True

/-- The last server takes the place of another one. -/
def removeServer (servers : List ServerSpec) (idx : ℕ) : List ServerSpec :=
  match servers.getLast? with
  | none => servers
  | some last => (servers.set idx last).dropLast

namespace RoundRobinServerPicker

variable (p : RoundRobinServerPicker)

/-- The number of servers, on 32 bits. -/
def size : UInt32 := UInt32.ofNat p.servers.length

/-- A round of the loop in `GetServer`. -/
def getServer (first : Bool) (idx : UInt32) : RoundRobinServerPicker :=
  if idx ≥ p.size then { p with phase := if first then .picked idx none else .missed }
  else
    match p.servers[idx.toNat]? with
    | none => { p with phase := .panicked }
    | some server =>
      if p.expired server then
        { p with servers := removeServer p.servers idx.toNat, removed := p.removed ++ [server] }
      else { p with phase := .picked idx (some server) }

/-- The index after one that was picked. -/
def advance (next : UInt32) : UInt32 := if next + 1 ≥ p.size then 0 else next + 1

def step : PickAction → Option RoundRobinServerPicker
  | .addServer server =>
    match p.phase with
    | .scanning _ _ => none
    | _ => some { p with servers := p.servers ++ [server], added := p.added ++ [server] }
  | .expire server => some { p with expired := Function.update p.expired server true }
  | .pickServer => if p.phase = .idle then some { p with phase := .scanning false p.nextIndex } else none
  | .getServer =>
    match p.phase with
    | .scanning first idx => some (p.getServer first idx)
    | _ => none
  | .getFirst => if p.phase = .missed then some { p with phase := .scanning true 0 } else none
  | .size =>
    match p.phase with
    | .picked next server =>
      some { p with nextIndex := p.advance next, phase := .idle, results := p.results ++ [server] }
    | _ => none

end RoundRobinServerPicker

/-- The picker of a list, as `NewRoundRobinServerPicker` makes it. -/
def picking : Lts RoundRobinServerPicker PickAction where
  init p := ∃ servers, p = { servers, added := servers }
  step p a p' := p.step a = some p'

namespace RoundRobinServerPicker

variable {p p' : RoundRobinServerPicker} {a : PickAction}

/-! ## Steps -/

/-- All that a step can do. -/
inductive Moves (p : RoundRobinServerPicker) : PickAction → RoundRobinServerPicker → Prop
  | addServer (server : ServerSpec) (h : ∀ first idx, p.phase ≠ .scanning first idx) :
    Moves p (.addServer server)
      { p with servers := p.servers ++ [server], added := p.added ++ [server] }
  | expire (server : ServerSpec) :
    Moves p (.expire server) { p with expired := Function.update p.expired server true }
  | pickServer (h : p.phase = .idle) :
    Moves p .pickServer { p with phase := .scanning false p.nextIndex }
  | missed {idx : UInt32} (h : p.phase = .scanning false idx) (hidx : p.size ≤ idx) :
    Moves p .getServer { p with phase := .missed }
  | empty {idx : UInt32} (h : p.phase = .scanning true idx) (hidx : p.size ≤ idx) :
    Moves p .getServer { p with phase := .picked idx none }
  | remove {first : Bool} {idx : UInt32} {server : ServerSpec} (h : p.phase = .scanning first idx)
    (hget : p.servers[idx.toNat]? = some server) (hexpired : p.expired server = true) :
    Moves p .getServer
      { p with servers := removeServer p.servers idx.toNat, removed := p.removed ++ [server] }
  | found {first : Bool} {idx : UInt32} {server : ServerSpec} (h : p.phase = .scanning first idx)
    (hget : p.servers[idx.toNat]? = some server) (hvalid : p.expired server = false) :
    Moves p .getServer { p with phase := .picked idx (some server) }
  | getFirst (h : p.phase = .missed) : Moves p .getFirst { p with phase := .scanning true 0 }
  | size {next : UInt32} {server : Option ServerSpec} (h : p.phase = .picked next server) :
    Moves p .size
      { p with nextIndex := p.advance next, phase := .idle, results := p.results ++ [server] }

theorem size_le : p.size.toNat ≤ p.servers.length := by
  rw [size, UInt32.toNat_ofNat']
  exact Nat.mod_le _ _

/-- An index below the size is in range. -/
theorem moves_getServer {first : Bool} {idx : UInt32} (h : p.phase = .scanning first idx) :
    Moves p .getServer (p.getServer first idx) := by
  unfold getServer
  split
  · rename_i hidx
    cases first
    · exact .missed h hidx
    · exact .empty h hidx
  · rename_i hidx
    have hlt : idx.toNat < p.servers.length :=
      lt_of_lt_of_le (UInt32.lt_iff_toNat_lt.1 (UInt32.not_le.1 hidx)) size_le
    rw [List.getElem?_eq_getElem hlt]
    dsimp only
    split
    · rename_i hexpired
      exact .remove h (List.getElem?_eq_getElem hlt) hexpired
    · rename_i hvalid
      exact .found h (List.getElem?_eq_getElem hlt) (Bool.not_eq_true _ ▸ hvalid)

theorem moves_of_step (h : p.step a = some p') : Moves p a p' := by
  cases a with
  | addServer server =>
    dsimp only [step] at h
    split at h
    · cases h
    · rename_i hphase
      cases h
      exact .addServer server hphase
  | expire server =>
    cases h
    exact .expire server
  | pickServer =>
    dsimp only [step] at h
    split at h
    · cases h
      exact .pickServer ‹_›
    · cases h
  | getServer =>
    dsimp only [step] at h
    split at h
    · cases h
      exact moves_getServer ‹_›
    · cases h
  | getFirst =>
    dsimp only [step] at h
    split at h
    · cases h
      exact .getFirst ‹_›
    · cases h
  | size =>
    dsimp only [step] at h
    split at h
    · cases h
      exact .size ‹_›
    · cases h

/-! ## Removal -/

/-- What follows a removed server is rotated to the right. -/
theorem removeServer_append (pre : List ServerSpec) (server : ServerSpec) (post : List ServerSpec) :
    removeServer (pre ++ server :: post) pre.length = pre ++ (post.getLast?.toList ++ post.dropLast) := by
  rcases List.eq_nil_or_concat' post with rfl | ⟨init, last, rfl⟩
  · rw [removeServer, List.getLast?_concat]
    simp
  · rw [removeServer, ← List.cons_append, ← List.append_assoc, List.getLast?_concat]
    simp [List.dropLast_cons_of_ne_nil]

/-- What follows a server is kept when it is removed, in another order. -/
theorem exists_removeServer {servers : List ServerSpec} {idx : ℕ} {server : ServerSpec}
    (h : servers[idx]? = some server) :
    ∃ pre post post', servers = pre ++ server :: post ∧ pre.length = idx ∧
      removeServer servers idx = pre ++ post' ∧ post'.Perm post := by
  obtain ⟨hlt, hget⟩ := List.getElem?_eq_some_iff.1 h
  have hservers : servers.take idx ++ server :: servers.drop (idx + 1) = servers := by
    rw [← hget, List.getElem_cons_drop, List.take_append_drop]
  have hlen : (servers.take idx).length = idx := List.length_take_of_le hlt.le
  have hremove := removeServer_append (servers.take idx) server (servers.drop (idx + 1))
  rw [hservers, hlen] at hremove
  refine ⟨_, _, _, hservers.symm, hlen, hremove, ?_⟩
  rcases List.eq_nil_or_concat' (servers.drop (idx + 1)) with hpost | ⟨init, last, hpost⟩
  · rw [hpost]
    rfl
  · rw [hpost, List.getLast?_concat, List.dropLast_concat]
    exact (List.perm_append_singleton last init).symm

/-! ## The invariant -/

/-- The size is told on 32 bits. -/
def Small (p : RoundRobinServerPicker) : Prop := p.servers.length < 2 ^ 32

theorem Small.toNat_size (h : p.Small) : p.size.toNat = p.servers.length := by
  rw [size, UInt32.toNat_ofNat']
  exact Nat.mod_eq_of_lt h

/-- All servers are in the list but those that expired, and the index is within the list. -/
structure Sound (p : RoundRobinServerPicker) : Prop where
  kept : p.added.Perm (p.servers ++ p.removed)
  removed : ∀ s ∈ p.removed, p.expired s = true
  index : p.phase = .idle → p.nextIndex = 0 ∨ p.nextIndex.toNat < p.servers.length
  not_panicked : p.phase ≠ .panicked
  first : ∀ idx, p.phase = .scanning true idx → idx = 0
  held : ∀ next server, p.phase = .picked next server →
    next = 0 ∧ server = none ∨ ∃ s, server = some s ∧ p.servers[next.toNat]? = some s

theorem sound_init {servers : List ServerSpec} : Sound { servers, added := servers } where
  kept := by rw [List.append_nil]
  removed := nofun
  index _ := .inl rfl
  not_panicked := nofun
  first := nofun
  held := nofun

/-- The index after one that was picked is within the list, or the first one. -/
theorem toNat_advance (hC : p.Small) {next : UInt32} (h : next = 0 ∨ next.toNat < p.servers.length) :
    p.advance next = 0 ∧ p.servers.length ≤ next.toNat + 1 ∨
      (p.advance next).toNat = next.toNat + 1 ∧ next.toNat + 1 < p.servers.length := by
  have hC' : p.servers.length < 2 ^ 32 := hC
  have hnext : (next + 1).toNat = next.toNat + 1 := by
    have hlt : next.toNat + 1 < 2 ^ 32 := by
      rcases h with rfl | h
      · decide
      · omega
    rw [UInt32.toNat_add]
    exact Nat.mod_eq_of_lt hlt
  unfold advance
  split
  · rename_i hge
    have := UInt32.le_iff_toNat_le.1 hge
    rw [hC.toNat_size, hnext] at this
    exact .inl ⟨rfl, this⟩
  · rename_i hlt
    have := UInt32.lt_iff_toNat_lt.1 (UInt32.not_le.1 hlt)
    rw [hC.toNat_size, hnext] at this
    exact .inr ⟨hnext, this⟩

theorem Sound.held_lt (hs : p.Sound) {next : UInt32} {server : Option ServerSpec}
    (h : p.phase = .picked next server) : next = 0 ∨ next.toNat < p.servers.length := by
  rcases hs.held next server h with ⟨hzero, -⟩ | ⟨s, -, hget⟩
  · exact .inl hzero
  · exact .inr (List.getElem?_eq_some_iff.1 hget).1

theorem Moves.sound (hC : p.Small) (h : Moves p a p') (hs : p.Sound) : p'.Sound := by
  cases h with
  | addServer server hphase =>
    refine ⟨?_, hs.removed, fun hidle => ?_, hs.not_panicked, hs.first, fun next held hpicked => ?_⟩
    · refine (hs.kept.append_right [server]).trans ?_
      rw [List.append_assoc, List.append_assoc]
      exact List.perm_append_comm.append_left p.servers
    · refine (hs.index hidle).imp_right fun h => ?_
      change p.nextIndex.toNat < (p.servers ++ [server]).length
      rw [List.length_append]
      omega
    · refine (hs.held next held hpicked).imp_right fun ⟨s, hheld, hget⟩ => ⟨s, hheld, ?_⟩
      rw [List.getElem?_append_left (List.getElem?_eq_some_iff.1 hget).1, hget]
  | expire server =>
    refine ⟨hs.kept, fun s hmem => ?_, hs.index, hs.not_panicked, hs.first, hs.held⟩
    change Function.update p.expired server true s = true
    by_cases heq : s = server
    · rw [heq, Function.update_self]
    · rw [Function.update_of_ne heq]
      exact hs.removed s hmem
  | pickServer hphase => exact ⟨hs.kept, hs.removed, nofun, nofun, nofun, nofun⟩
  | missed hphase hidx => exact ⟨hs.kept, hs.removed, nofun, nofun, nofun, nofun⟩
  | empty hphase hidx =>
    refine ⟨hs.kept, hs.removed, nofun, nofun, nofun, fun next server hpicked => ?_⟩
    cases hpicked
    exact .inl ⟨hs.first _ hphase, rfl⟩
  | remove hphase hget hexpired =>
    -- The last server takes the place of the one removed, which is kept among those removed.
    obtain ⟨pre, post, post', hservers, -, hremove, hperm⟩ := exists_removeServer hget
    rename_i first idx server
    refine ⟨?_, fun s hmem => ?_, fun hidle => ?_, hs.not_panicked, hs.first, fun next held hpicked => ?_⟩
    · refine hs.kept.trans ?_
      dsimp only
      rw [hremove, hservers, List.append_assoc, List.append_assoc]
      refine List.Perm.append_left pre ?_
      rw [List.cons_append, ← List.append_assoc]
      exact ((hperm.symm.append_right _).cons server).trans (List.perm_append_singleton server _).symm
    · rcases List.mem_append.1 hmem with hmem | hmem
      · exact hs.removed s hmem
      · rw [List.mem_singleton.1 hmem]
        exact hexpired
    · rw [hphase] at hidle
      cases hidle
    · rw [hphase] at hpicked
      cases hpicked
  | found hphase hget hvalid =>
    refine ⟨hs.kept, hs.removed, nofun, nofun, nofun, fun next server hpicked => ?_⟩
    cases hpicked
    exact .inr ⟨_, rfl, hget⟩
  | getFirst hphase =>
    refine ⟨hs.kept, hs.removed, nofun, nofun, fun idx hscanning => ?_, nofun⟩
    cases hscanning
    rfl
  | size hphase =>
    refine ⟨hs.kept, hs.removed, fun _ => ?_, nofun, nofun, nofun⟩
    rcases toNat_advance hC (hs.held_lt hphase) with ⟨hzero, -⟩ | ⟨hnext, hlt⟩
    · exact .inl hzero
    · exact .inr (hnext ▸ hlt)

/-! ## Turns -/

/-- The servers whose turn is still to come in this round. -/
def waiting (p : RoundRobinServerPicker) : List ServerSpec :=
  match p.phase with
  | .idle => p.servers.drop p.nextIndex.toNat
  | .scanning _ idx => p.servers.drop idx.toNat
  | .missed => p.servers
  | .picked next _ => p.servers.drop (next.toNat + 1)
  | .panicked => []

/-- The servers that were picked, and the one that is about to be returned. -/
def served (p : RoundRobinServerPicker) : List ServerSpec :=
  p.results.reduceOption ++
    match p.phase with
    | .picked _ server => server.toList
    | _ => []

/-- A step settles what a call returns. -/
def Settles (p p' : RoundRobinServerPicker) (server : Option ServerSpec) : Prop :=
  (∃ first idx, p.phase = .scanning first idx) ∧ ∃ next, p'.phase = .picked next server

/-- What is picked is a valid server of the list, or nothing when no server is valid; and a
    valid server whose turn is to come keeps its turn until it is picked. -/
structure Lawful (p p' : RoundRobinServerPicker) : Prop where
  valid : ∀ server, Settles p p' (some server) → server ∈ p'.servers ∧ p'.expired server = false
  none : Settles p p' none → ∀ server ∈ p'.added, p'.expired server = true
  turn : ∀ server, p'.expired server = false →
    p.waiting.count server + p.served.count server ≤ p'.waiting.count server + p'.served.count server

theorem drop_eq_nil (hC : p.Small) {idx : UInt32} (hidx : p.size ≤ idx) :
    p.servers.drop idx.toNat = [] := by
  refine List.drop_eq_nil_of_le ?_
  rw [← hC.toNat_size]
  exact UInt32.le_iff_toNat_le.1 hidx

/-- No server is left at the first index, so all have expired. -/
theorem expired_of_empty (hC : p.Small) (hs : p.Sound) {idx : UInt32}
    (hphase : p.phase = .scanning true idx) (hidx : p.size ≤ idx) :
    ∀ server ∈ p.added, p.expired server = true := by
  have hnil := drop_eq_nil hC hidx
  obtain rfl := hs.first idx hphase
  intro server hserver
  have hmem := hs.kept.mem_iff.1 hserver
  rw [show p.servers = [] from hnil, List.nil_append] at hmem
  exact hs.removed server hmem

theorem count_drop_append (l : List ServerSpec) (n : ℕ) (server x : ServerSpec) :
    (l.drop n).count x ≤ ((l ++ [server]).drop n).count x := by
  rw [List.drop_append]
  exact ((l.drop n).sublist_append_left _).count_le x

theorem Moves.turn (hC : p.Small) (hs : p.Sound) (h : Moves p a p') (x : ServerSpec)
    (hx : p'.expired x = false) :
    p.waiting.count x + p.served.count x ≤ p'.waiting.count x + p'.served.count x := by
  cases h with
  | addServer server hphase =>
    refine Nat.add_le_add_right ?_ _
    unfold waiting
    dsimp only
    split
    · exact count_drop_append _ _ _ _
    · exact count_drop_append _ _ _ _
    · exact ((p.servers).sublist_append_left [server]).count_le x
    · exact count_drop_append _ _ _ _
    · exact le_rfl
  | expire server => exact le_rfl
  | pickServer hphase => simp [waiting, served, hphase]
  | missed hphase hidx => simp [waiting, served, hphase, drop_eq_nil hC hidx]
  | empty hphase hidx => simp [waiting, served, hphase, drop_eq_nil hC hidx]
  | remove hphase hget hexpired =>
    rename_i first idx server
    obtain ⟨pre, post, post', hservers, hlen, hremove, hperm⟩ := exists_removeServer hget
    have hne : server ≠ x := by
      rintro rfl
      exact Bool.false_ne_true (hx.symm.trans hexpired)
    refine Nat.add_le_add_right ?_ _
    simp only [waiting, hphase]
    rw [hremove, hservers, ← hlen, List.drop_left, List.drop_left, List.count_cons_of_ne hne,
      hperm.count_eq]
  | found hphase hget hvalid =>
    rename_i first idx server
    obtain ⟨hlt, hserver⟩ := List.getElem?_eq_some_iff.1 hget
    simp only [waiting, served, hphase, Option.toList_some, List.append_nil, List.count_append]
    rw [List.drop_eq_getElem_cons hlt, hserver, List.count_cons, List.count_singleton]
    omega
  | getFirst hphase => simp [waiting, served, hphase]
  | size hphase =>
    rename_i next server
    have hserved : (p.results ++ [server]).reduceOption = p.results.reduceOption ++ server.toList := by
      rw [List.reduceOption_append]
      cases server <;> rfl
    simp only [waiting, served, hphase, hserved, List.append_nil]
    refine Nat.add_le_add_right ?_ _
    rcases toNat_advance hC (hs.held_lt hphase) with ⟨-, hle⟩ | ⟨hnext, -⟩
    · rw [List.drop_eq_nil_of_le hle, List.count_nil]
      exact Nat.zero_le _
    · rw [hnext]

theorem Moves.lawful (hC : p.Small) (hs : p.Sound) (h : Moves p a p') : Lawful p p' where
  valid server := by
    rintro ⟨⟨first, idx, hphase⟩, next, hpicked⟩
    cases h with
    | addServer server hadd => exact absurd hphase (hadd _ _)
    | found hscanning hget hvalid =>
      cases hpicked
      exact ⟨List.mem_of_getElem? hget, hvalid⟩
    | _ => simp_all
  none := by
    rintro ⟨⟨first, idx, hphase⟩, next, hpicked⟩
    cases h with
    | addServer server hadd => exact absurd hphase (hadd _ _)
    | empty hscanning hidx =>
      have hexpired := expired_of_empty hC hs hscanning hidx
      exact hexpired
    | _ => simp_all
  turn x hx := h.turn hC hs x hx

/-! ## Calls return -/

/-- How many steps a call has left at most, with no server added. -/
def work (p : RoundRobinServerPicker) : ℕ :=
  match p.phase with
  | .idle => 0
  | .scanning false _ => p.servers.length + 4
  | .missed => p.servers.length + 3
  | .scanning true _ => p.servers.length + 2
  | .picked _ _ => 1
  | .panicked => 0

theorem Moves.work_lt (h : Moves p a p') (ha : a.IsPicker) (hcall : a ≠ .pickServer) :
    p'.work < p.work := by
  cases h with
  | addServer server hphase => exact ha.elim
  | expire server => exact ha.elim
  | pickServer hphase => exact absurd rfl hcall
  | remove hphase hget hexpired =>
    obtain ⟨pre, post, post', hservers, -, hremove, hperm⟩ := exists_removeServer hget
    rename_i first idx server
    simp only [work, hphase, hremove]
    rw [hservers, List.length_append, List.length_append, List.length_cons, hperm.length_eq]
    cases first
    · dsimp only
      omega
    · dsimp only
      omega
  | found hphase hget hvalid =>
    rename_i first idx server
    simp only [work, hphase]
    cases first
    · dsimp only
      omega
    · dsimp only
      omega
  | missed hphase hidx => simp [work, hphase]
  | empty hphase hidx => simp [work, hphase]
  | getFirst hphase => simp [work, hphase]
  | size hphase => simp [work, hphase]

/-- A call goes on until it returns. -/
theorem Sound.proceeds (hs : p.Sound) (hphase : p.phase ≠ .idle) :
    ∃ a p', a.IsPicker ∧ a ≠ .pickServer ∧ p.step a = some p' := by
  cases h : p.phase with
  | idle => exact absurd h hphase
  | scanning first idx => exact ⟨.getServer, p.getServer first idx, trivial, nofun, by simp only [step, h]⟩
  | missed => exact ⟨.getFirst, _, trivial, nofun, by rw [step, if_pos h]⟩
  | picked next server =>
    exact ⟨.size, { p with
      nextIndex := p.advance next, phase := .idle, results := p.results ++ [server] },
      trivial, nofun, by simp only [step, h]⟩
  | panicked => exact absurd h hs.not_panicked

/-! ## Fairness -/

/-- So many servers have been returned in turn since `p`, all servers being valid. -/
structure Turned (p : RoundRobinServerPicker) (k : ℕ) (p' : RoundRobinServerPicker) : Prop where
  servers : p'.servers = p.servers
  expired : p'.expired = p.expired
  results : p'.results =
    p.results ++ (RoundRobin.visits p.servers p.nextIndex.toNat k).map some
  idle : p'.phase = .idle → p'.nextIndex.toNat = (p.nextIndex.toNat + k) % p.servers.length
  scanning : ∀ first idx, p'.phase = .scanning first idx →
    first = false ∧ idx.toNat = (p.nextIndex.toNat + k) % p.servers.length
  picked : ∀ next server, p'.phase = .picked next server →
    next.toNat = (p.nextIndex.toNat + k) % p.servers.length ∧ server = p.servers[next.toNat]?
  not_missed : p'.phase ≠ .missed

variable {q : RoundRobinServerPicker} {k : ℕ}

/-- One more step of the picker. -/
theorem Turned.step (hC : p.Small) (hne : p.servers ≠ []) (hvalid : ∀ s ∈ p.servers, p.expired s = false)
    (ht : Turned p k p') (h : Moves p' a q) (ha : a.IsPicker) :
    Turned p k q ∨ Turned p (k + 1) q := by
  have hpos : 0 < p.servers.length := List.length_pos_iff.2 hne
  have hC' : p'.Small := by rw [Small, ht.servers]; exact hC
  have hlt {idx : UInt32} (h : idx.toNat = (p.nextIndex.toNat + k) % p.servers.length) :
      ¬ p'.size ≤ idx := by
    intro hidx
    have := UInt32.le_iff_toNat_le.1 hidx
    rw [hC'.toNat_size, ht.servers, h] at this
    exact absurd (Nat.mod_lt _ hpos) (not_lt.2 this)
  -- All servers are valid, so a scan ends at its first server, and only what sets the index turns.
  cases h with
  | addServer server hphase => exact ha.elim
  | expire server => exact ha.elim
  | pickServer hphase =>
    refine .inl ⟨ht.servers, ht.expired, ht.results, nofun, ?_, nofun, nofun⟩
    intro first idx hscanning
    cases hscanning
    exact ⟨rfl, ht.idle hphase⟩
  | missed hphase hidx => exact absurd hidx (hlt (ht.scanning _ _ hphase).2)
  | empty hphase hidx => exact absurd hidx (hlt (ht.scanning _ _ hphase).2)
  | remove hphase hget hexpired =>
    rename_i first idx server
    rw [ht.servers] at hget
    rw [ht.expired, hvalid server (List.mem_of_getElem? hget)] at hexpired
    cases hexpired
  | found hphase hget hfound =>
    refine .inl ⟨ht.servers, ht.expired, ht.results, nofun, nofun, ?_, nofun⟩
    intro next held hpicked
    cases hpicked
    rw [ht.servers] at hget
    exact ⟨(ht.scanning _ _ hphase).2, hget.symm⟩
  | getFirst hphase => exact absurd hphase ht.not_missed
  | size hphase =>
    rename_i next server
    obtain ⟨hnext, hserver⟩ := ht.picked _ _ hphase
    have hin : next.toNat < p.servers.length := hnext ▸ Nat.mod_lt _ hpos
    refine .inr ⟨ht.servers, ht.expired, ?_, fun _ => ?_, nofun, nofun, nofun⟩
    · rw [hnext] at hserver
      dsimp only
      rw [ht.results, hserver, RoundRobin.visits_succ, List.map_append, List.append_assoc,
        List.getElem?_eq_getElem (Nat.mod_lt _ hpos), Option.toList_some, List.map_singleton]
    · dsimp only
      rw [← add_assoc, ← Nat.mod_add_mod, ← hnext]
      rcases toNat_advance hC' (.inr (by rw [ht.servers]; exact hin)) with ⟨hzero, hle⟩ | ⟨hsucc, hlt⟩
      · rw [ht.servers] at hle
        rw [hzero, show next.toNat + 1 = p.servers.length by omega, Nat.mod_self]
        rfl
      · rw [ht.servers] at hlt
        rw [hsucc, Nat.mod_eq_of_lt hlt]

/-- Any number of steps of the picker. -/
theorem Turned.exec (hC : p.Small) (hne : p.servers ≠ []) (hvalid : ∀ s ∈ p.servers, p.expired s = false)
    {l : List PickAction} (h : picking.Exec p' l q) (hl : ∀ a ∈ l, a.IsPicker) (ht : Turned p k p') :
    ∃ k', Turned p k' q := by
  induction h generalizing k with
  | nil => exact ⟨k, ht⟩
  | cons hstep h ih =>
    rename_i l
    have hrest (a : PickAction) (ha : a ∈ l) : a.IsPicker := hl a (List.mem_cons_of_mem _ ha)
    rcases ht.step hC hne hvalid (moves_of_step hstep) (hl _ List.mem_cons_self) with ht | ht
    · exact ih hrest ht
    · exact ih hrest ht

theorem turned_zero (hs : p.Sound) (hidle : p.phase = .idle) (hne : p.servers ≠ []) : Turned p 0 p where
  servers := rfl
  expired := rfl
  results := by rw [RoundRobin.visits_zero, List.map_nil, List.append_nil]
  idle _ := by
    have hpos : 0 < p.servers.length := List.length_pos_iff.2 hne
    rw [add_zero]
    rcases hs.index hidle with hzero | hlt
    · rw [hzero]
      exact (Nat.zero_mod _).symm
    · exact (Nat.mod_eq_of_lt hlt).symm
  scanning first idx h := by rw [hidle] at h; cases h
  picked next server h := by rw [hidle] at h; cases h
  not_missed h := by rw [hidle] at h; cases h

/-- While all servers are valid, the calls return every server in every round, once for each
    time that it is in the list. -/
def Fair (p : RoundRobinServerPicker) : Prop :=
  p.phase = .idle → p.servers ≠ [] → (∀ s ∈ p.servers, p.expired s = false) →
  ∀ l p', (∀ a ∈ l, PickAction.IsPicker a) → picking.Exec p l p' → ∃ picks : List ServerSpec,
    p'.results = p.results ++ picks.map some ∧ ∀ server,
      (p.servers.length ∣ picks.length →
        picks.count server = picks.length / p.servers.length * p.servers.count server) ∧
      picks.length / p.servers.length * p.servers.count server ≤ picks.count server ∧
      picks.count server ≤ (picks.length / p.servers.length + 1) * p.servers.count server

theorem Sound.fair (hC : p.Small) (hs : p.Sound) : p.Fair := by
  intro hidle hne hvalid l p' hl hexec
  obtain ⟨k, ht⟩ := (turned_zero hs hidle hne).exec hC hne hvalid hexec hl
  refine ⟨_, ht.results, fun server => ⟨?_, ?_⟩⟩
  · rw [RoundRobin.length_visits hne]
    rintro ⟨m, rfl⟩
    rw [mul_comm, RoundRobin.count_visits_mul hne, Nat.mul_div_cancel _ (List.length_pos_iff.2 hne)]
  · rw [RoundRobin.length_visits hne]
    exact RoundRobin.count_visits_bounds hne _ _ _

/-! ## Runs -/

/-- The servers are kept and the index is within the list, every step is lawful, every call
    returns, and servers that stay valid are returned equally often. -/
structure Picks (p : RoundRobinServerPicker) : Prop where
  sound : p.Sound
  lawful : ∀ a p', p.step a = some p' → p.Lawful p'
  proceeds : p.phase ≠ .idle → ∃ a p', a.IsPicker ∧ a ≠ .pickServer ∧ p.step a = some p'
  work_lt : ∀ a p', p.step a = some p' → a.IsPicker → a ≠ .pickServer → p'.work < p.work
  fair : p.Fair

theorem sound_of_reach (h : picking.Reach Small p) : p.Sound := by
  refine h.invariant (fun p hinit _ => ?_) fun p a p' hC hs hstep _ => (moves_of_step hstep).sound hC hs
  obtain ⟨servers, rfl⟩ := hinit
  exact sound_init

/-- As long as there are fewer than 2 ^ 32 servers, they are picked as they should be. -/
theorem picking_lawful (p : RoundRobinServerPicker) (h : picking.Reach Small p) : p.Picks := by
  have hs := sound_of_reach h
  have hC := h.within
  exact ⟨hs, fun a p' hstep => (moves_of_step hstep).lawful hC hs, hs.proceeds,
    fun a p' hstep => (moves_of_step hstep).work_lt, hs.fair hC⟩

/-- A list of two servers. -/
def examplePicker : RoundRobinServerPicker := { servers := [1, 2], added := [1, 2] }

theorem picking_lawful_two : picking.Reach Small examplePicker ∧ examplePicker.Picks := by
  have hreach : picking.Reach Small examplePicker := .init ⟨[1, 2], rfl⟩ (by decide : 2 < 2 ^ 32)
  exact ⟨hreach, picking_lawful examplePicker hreach⟩

/-- When the size of a list wraps around to zero, a call comes to `GetServer` of the first index
    and finds nothing. -/
theorem exec_of_size_eq_zero {servers : List ServerSpec} (hsize : UInt32.ofNat servers.length = 0) :
    let p : RoundRobinServerPicker := { servers, added := servers, phase := .scanning true 0 }
    picking.Reach (fun _ => True) p ∧ p.step .getServer = some { p with phase := .picked 0 none } := by
  refine ⟨?_, ?_⟩
  · have hexec : picking.Exec { servers, added := servers } [.pickServer, .getServer, .getFirst]
        { servers, added := servers, phase := .scanning true 0 } := by
      refine Lts.exec_of_run (fun _ _ _ h => h) ?_
      simp [Lts.run, step, getServer, size, hsize]
    exact hexec.reach (fun _ => trivial) (.init ⟨servers, rfl⟩ trivial)
  · simp [step, getServer, size, hsize]

/-- With 2 ^ 32 servers, a call finds none although all are valid. -/
theorem not_picks_of_large : ∃ p, picking.Reach (fun _ => True) p ∧
    p.servers = List.replicate (2 ^ 32) 0 ∧ (∀ server ∈ p.servers, p.expired server = false) ∧
    p.step .getServer = some { p with phase := .picked 0 none } ∧ ¬ p.Picks := by
  have hsize : UInt32.ofNat (List.replicate (2 ^ 32) 0).length = 0 := by
    rw [List.length_replicate]
    rfl
  obtain ⟨hreach, hstep⟩ := exec_of_size_eq_zero hsize
  refine ⟨_, hreach, rfl, fun _ _ => rfl, hstep, fun hpicks => ?_⟩
  have hexpired := (hpicks.lawful _ _ hstep).none ⟨⟨true, 0, rfl⟩, 0, rfl⟩ 0
    (List.mem_replicate.2 ⟨by decide, rfl⟩)
  exact Bool.false_ne_true hexpired

end RoundRobinServerPicker

end Gzv2ray
