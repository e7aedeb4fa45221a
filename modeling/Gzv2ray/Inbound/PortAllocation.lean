import Gzv2ray.Inbound.Dynamic

/-!
# Ports can be allocated

A port is free whenever one is asked for, and the ports in use are those of the
workers, as long as the workers that have not been closed yet leave a port in the
range, and each port gets a worker (`allocatePort_lawful`).

* `DynamicInboundHandler.Inv`: the invariant. The ports of the refreshes are disjoint,
  so that they can be counted;
* `range_exhausted`: the check of the configuration does not count the workers of the
  refresh before, which are not closed yet.
-/

namespace Gzv2ray.Inbound

/-- Lists that are disjoint have as many elements together as each has. -/
theorem card_toFinset_flatten {α : Type*} [DecidableEq α] {l : List (List α)}
    (h : l.Pairwise List.Disjoint) :
    l.flatten.toFinset.card = (l.map fun g => g.toFinset.card).sum := by
  induction l with
  | nil => rfl
  | cons g l ih =>
    rw [List.pairwise_cons] at h
    have hdisjoint : Disjoint g.toFinset l.flatten.toFinset := by
      rw [List.disjoint_toFinset_iff_disjoint]
      intro a ha hflatten
      obtain ⟨g', hg', ha'⟩ := List.mem_flatten.1 hflatten
      exact h.1 g' hg' ha ha'
    rw [List.flatten_cons, List.toFinset_append, Finset.card_union_of_disjoint hdisjoint, ih h.2,
      List.map_cons, List.sum_cons]

namespace DynamicInboundHandler

variable {h h' : DynamicInboundHandler}

/-- The port that workers are made for. -/
def starting (h : DynamicInboundHandler) : List ℕ :=
  match h.refresh with
  | .starting port => [port]
  | _ => []

/-- The ports of the workers, refresh by refresh. -/
def groups (h : DynamicInboundHandler) : List (List ℕ) := h.starting :: h.workers :: h.pending

theorem holds_iff (h : DynamicInboundHandler) (port : ℕ) :
    h.Holds port ↔ ∃ g ∈ h.groups, port ∈ g := by
  have hstarting : h.refresh = .starting port ↔ port ∈ h.starting := by
    rw [starting]
    cases h.refresh <;> simp [eq_comm]
  rw [Holds, hstarting, groups]
  simp only [List.mem_cons, exists_eq_or_imp]
  exact or_rotate.symm

/-- The ports in use are those of the groups, which are disjoint and of known sizes. -/
structure Inv (h : DynamicInboundHandler) : Prop where
  mem_iff : ∀ port, port ∈ h.portsInUse ↔ ∃ g ∈ h.groups, port ∈ g
  disjoint : h.groups.Pairwise List.Disjoint
  subset_range : h.portsInUse ⊆ h.range
  card_workers : h.workers.toFinset.card = h.i
  card_pending : ∀ g ∈ h.pending, g.toFinset.card = h.receiverConfig.getConcurrencyValue
  free : h.refresh = .allocating → h.portsInUse ⊂ h.range

namespace Inv

variable (hinv : h.Inv)
include hinv

theorem isLawful : h.IsLawful :=
  ⟨hinv.free, fun port => (hinv.mem_iff port).trans (h.holds_iff port).symm⟩

/-- The number of the ports in use. -/
theorem card_portsInUse : h.portsInUse.card =
    h.starting.toFinset.card + h.i + h.pending.length * h.receiverConfig.getConcurrencyValue := by
  have hflatten : h.portsInUse = h.groups.flatten.toFinset := by
    ext port
    rw [hinv.mem_iff, List.mem_toFinset, List.mem_flatten]
  have hpending : (h.pending.map fun g => g.toFinset.card).sum =
      h.pending.length * h.receiverConfig.getConcurrencyValue := by
    rw [List.map_congr_left hinv.card_pending, List.map_const', List.sum_replicate, smul_eq_mul]
  rw [hflatten, card_toFinset_flatten hinv.disjoint, groups, List.map_cons, List.map_cons,
    List.sum_cons, List.sum_cons, hpending, hinv.card_workers, add_assoc]

/-- A port is free if and only if the refreshes leave one. -/
theorem portsInUse_ssubset_iff (hrefresh : h.refresh = .loop) : h.portsInUse ⊂ h.range ↔
    h.pending.length * h.receiverConfig.getConcurrencyValue + h.i < h.range.card := by
  have hcard := hinv.card_portsInUse
  have hstarting : h.starting = [] := by rw [starting, hrefresh]
  rw [hstarting, List.toFinset_nil, Finset.card_empty, zero_add, add_comm] at hcard
  rw [← hcard]
  exact ⟨Finset.card_lt_card, fun hlt => hinv.subset_range.ssubset_of_ne fun heq =>
    absurd hlt (heq ▸ Nat.lt_irrefl _)⟩

/-- The groups of another phase are the same. -/
theorem of_groups_eq (hports : h'.portsInUse = h.portsInUse) (hgroups : h'.groups = h.groups)
    (hconfig : h'.receiverConfig = h.receiverConfig) (hi : h'.i = h.i)
    (hfree : h'.refresh = .allocating → h.portsInUse ⊂ h.range) : h'.Inv := by
  have hrange : h'.range = h.range := by rw [range, hconfig, range]
  obtain ⟨-, hrest⟩ := List.cons.inj hgroups
  obtain ⟨hworkers, hpending⟩ := List.cons.inj hrest
  constructor
  · rw [hports, hgroups]
    exact hinv.mem_iff
  · rw [hgroups]
    exact hinv.disjoint
  · rw [hports, hrange]
    exact hinv.subset_range
  · rw [hworkers, hi]
    exact hinv.card_workers
  · rw [hpending, hconfig]
    exact hinv.card_pending
  · rw [hports, hrange]
    exact hfree

end Inv

/-- A refresh begins without workers. -/
theorem Inv.tick (hinv : h.Inv) (hrefresh : h.refresh = .idle) (hworkers : h.workers = []) :
    Inv { h with refresh := .loop, i := 0, workers := [] } := by
  have hi : h.i = 0 := by rw [← hinv.card_workers, hworkers, List.toFinset_nil, Finset.card_empty]
  refine hinv.of_groups_eq rfl ?_ rfl hi.symm fun hallocating => Refresh.noConfusion hallocating
  rw [groups, groups, starting, starting, hrefresh, hworkers]

/-- A port is drawn that no worker has. -/
theorem Inv.roll (hinv : h.Inv) (hrefresh : h.refresh = .allocating) {port : ℕ}
    (hrange : port ∈ h.range) (hfree : port ∉ h.portsInUse) :
    Inv { h with portsInUse := insert port h.portsInUse, refresh := .starting port } := by
  have hstarting : h.starting = [] := by rw [starting, hrefresh]
  have hgroups : h.groups = [] :: h.workers :: h.pending := by rw [groups, hstarting]
  have hother : ∀ g ∈ h.workers :: h.pending, port ∉ g := fun g hg hport =>
    hfree ((hinv.mem_iff port).2 ⟨g, hgroups ▸ List.mem_cons_of_mem _ hg, hport⟩)
  have hdisjoint := hinv.disjoint
  rw [hgroups, List.pairwise_cons] at hdisjoint
  refine ⟨fun port' => ?_, ?_, ?_, hinv.card_workers, hinv.card_pending,
    fun hallocating => Refresh.noConfusion hallocating⟩
  · have hold := hinv.mem_iff port'
    rw [hgroups] at hold
    simp only [groups, starting, Finset.mem_insert, hold, List.mem_cons, exists_eq_or_imp,
      List.not_mem_nil, or_false, false_or]
  · refine List.pairwise_cons.2 ⟨fun g hg => ?_, hdisjoint.2⟩
    exact List.singleton_disjoint.2 (hother g hg)
  · exact Finset.insert_subset hrange hinv.subset_range

/-- Workers are made for the port. -/
theorem Inv.start (hinv : h.Inv) {port : ℕ} (hrefresh : h.refresh = .starting port) {n : ℕ}
    (hn : 0 < n) : Inv { h with
      refresh := .loop
      i := h.i + 1
      workers := h.workers ++ List.replicate n port } := by
  have hgroups : h.groups = [port] :: h.workers :: h.pending := by rw [groups, starting, hrefresh]
  have hdisjoint := hinv.disjoint
  rw [hgroups, List.pairwise_cons, List.pairwise_cons] at hdisjoint
  obtain ⟨hport, hworkers, hpending⟩ := hdisjoint
  have hreplicate : ∀ {g : List ℕ}, List.Disjoint [port] g → List.Disjoint (List.replicate n port) g :=
    fun hg a ha => (List.mem_replicate.1 ha).2 ▸ List.singleton_disjoint.1 hg
  refine ⟨fun port' => ?_, ?_, hinv.subset_range, ?_, hinv.card_pending,
    fun hallocating => Refresh.noConfusion hallocating⟩
  · have hold := hinv.mem_iff port'
    rw [hgroups] at hold
    simp only [groups, starting, hold, List.mem_cons, exists_eq_or_imp, List.not_mem_nil, or_false,
      false_or, List.mem_append, List.mem_replicate, hn.ne', ne_eq, not_false_eq_true, true_and]
    exact or_assoc.symm.trans (or_congr_left or_comm)
  · refine List.pairwise_cons.2 ⟨fun g _ => List.disjoint_nil_left g, List.pairwise_cons.2
      ⟨fun g hg => List.disjoint_append_left.2 ⟨hworkers g hg, ?_⟩, hpending⟩⟩
    exact hreplicate (hport g (List.mem_cons_of_mem _ hg))
  · have hnew : port ∉ h.workers := List.singleton_disjoint.1 (hport h.workers List.mem_cons_self)
    rw [List.toFinset_append, List.toFinset_replicate_of_ne_zero hn.ne',
      Finset.card_union_of_disjoint, hinv.card_workers, Finset.card_singleton]
    rw [Finset.disjoint_singleton_right, List.mem_toFinset]
    exact hnew

/-- The workers of a refresh wait to be closed. -/
theorem Inv.finish (hinv : h.Inv) (hrefresh : h.refresh = .loop)
    (hi : h.i = h.receiverConfig.getConcurrencyValue) : Inv { h with
      refresh := .idle
      i := 0
      workers := []
      pending := h.workers :: h.pending } := by
  have hgroups : h.groups = [] :: h.workers :: h.pending := by rw [groups, starting, hrefresh]
  have hdisjoint := hinv.disjoint
  rw [hgroups, List.pairwise_cons] at hdisjoint
  refine ⟨fun port => ?_, ?_, hinv.subset_range, rfl, fun g hg => ?_,
    fun hallocating => Refresh.noConfusion hallocating⟩
  · have hold := hinv.mem_iff port
    rw [hgroups] at hold
    simp only [groups, starting, hold, List.mem_cons, exists_eq_or_imp, List.not_mem_nil, false_or]
  · exact List.pairwise_cons.2 ⟨fun g _ => List.disjoint_nil_left g, List.pairwise_cons.2
      ⟨fun g _ => List.disjoint_nil_left g, hdisjoint.2⟩⟩
  · rcases List.mem_cons.1 hg with rfl | hg
    · exact hinv.card_workers.trans hi
    · exact hinv.card_pending g hg

/-- The ports of a refresh are given back. -/
theorem Inv.closeWorkers (hinv : h.Inv) (hrefresh : h.refresh ≠ .allocating) {k : ℕ}
    {workers : List ℕ} (hk : h.pending[k]? = some workers) : Inv { h with
      portsInUse := h.portsInUse \ workers.toFinset
      pending := h.pending.eraseIdx k } := by
  -- The groups are that of the refresh and those that are left.
  have hperm : h.groups.Perm
      (workers :: h.starting :: h.workers :: h.pending.eraseIdx k) := by
    obtain ⟨hlt, rfl⟩ := List.getElem?_eq_some_iff.1 hk
    exact (((List.getElem_cons_eraseIdx_perm hlt).symm.cons _).trans (.swap _ _ _)).cons _
      |>.trans (.swap _ _ _)
  have hdisjoint := (hperm.pairwise_iff List.Disjoint.symm).1 hinv.disjoint
  rw [List.pairwise_cons] at hdisjoint
  refine ⟨fun port => ?_, hdisjoint.2, Finset.sdiff_subset.trans hinv.subset_range,
    hinv.card_workers, fun g hg => hinv.card_pending g (List.mem_of_mem_eraseIdx hg),
    fun hallocating => absurd hallocating hrefresh⟩
  have hold := (hinv.mem_iff port).trans (exists_congr fun g => and_congr_left' hperm.mem_iff)
  rw [List.exists_mem_cons_iff] at hold
  rw [Finset.mem_sdiff, List.mem_toFinset, hold]
  constructor
  · rintro ⟨hmem | hmem, hclosed⟩
    · exact absurd hmem hclosed
    · exact hmem
  · rintro ⟨g, hg, hport⟩
    exact ⟨.inr ⟨g, hg, hport⟩, fun hclosed => hdisjoint.1 g hg hclosed hport⟩

/-! ## Runs -/

theorem inv_new (r : ReceiverConfig) : Inv { receiverConfig := r } where
  mem_iff port := by simp [groups, starting]
  disjoint := by simp [groups, starting]
  subset_range := Finset.empty_subset _
  card_workers := rfl
  card_pending g hg := absurd hg List.not_mem_nil
  free hallocating := Refresh.noConfusion hallocating

/-- The workers of a refresh are those that it has made. -/
def Waits (h : DynamicInboundHandler) : Prop := h.refresh = .idle → h.workers = []

/-- What a step keeps, if it has room; and where it has none it breaks the law. -/
theorem Inv.step (hinv : h.Inv) (hwaits : h.Waits) {a : Tick} (hstep : h.step a = some h') :
    (h.HasRoom a → h'.Inv) ∧ h'.Waits ∧ (¬ h.HasRoom a → ¬ h'.IsLawful) := by
  cases a with
  | tick =>
    rw [DynamicInboundHandler.step, Option.ite_none_right_eq_some, Option.some.injEq] at hstep
    obtain ⟨hrefresh, rfl⟩ := hstep
    exact ⟨fun _ => hinv.tick hrefresh (hwaits hrefresh), fun _ => rfl, fun hno => absurd trivial hno⟩
  | allocatePort =>
    rw [DynamicInboundHandler.step, Option.ite_none_right_eq_some, Option.some.injEq] at hstep
    obtain ⟨⟨hrefresh, -⟩, rfl⟩ := hstep
    have hiff := hinv.portsInUse_ssubset_iff hrefresh
    have hgroups : groups { h with refresh := .allocating } = h.groups := by
      rw [groups, groups, starting, starting, hrefresh]
    refine ⟨fun hroom => ?_, fun hidle => Refresh.noConfusion hidle, fun hno hlawful => ?_⟩
    · exact hinv.of_groups_eq rfl hgroups rfl rfl fun _ => hiff.2 hroom
    · exact hno (hiff.1 (hlawful.free rfl))
  | roll r =>
    rw [DynamicInboundHandler.step] at hstep
    split at hstep
    next _ _ range hrefresh hportRange =>
      rw [Option.ite_none_right_eq_some] at hstep
      obtain ⟨hlt, hstep⟩ := hstep
      split at hstep
      · rw [Option.some.injEq] at hstep
        subst hstep
        exact ⟨fun _ => hinv, hwaits, fun hno => absurd trivial hno⟩
      next hfree =>
        rw [Option.some.injEq] at hstep
        subst hstep
        have hrange : range.fromPort + r ∈ h.range := by
          have hle := range.le
          rw [PortRange.size] at hlt
          rw [DynamicInboundHandler.range, hportRange, Option.elim_some, Finset.mem_Icc]
          omega
        exact ⟨fun _ => hinv.roll hrefresh hrange hfree, fun hidle => Refresh.noConfusion hidle,
          fun hno => absurd trivial hno⟩
    · cases hstep
  | start o =>
    rw [DynamicInboundHandler.step] at hstep
    split at hstep
    next port hrefresh =>
      rw [Option.some.injEq] at hstep
      subst hstep
      refine ⟨fun hroom => hinv.start hrefresh hroom, fun hidle => Refresh.noConfusion hidle,
        fun hno hlawful => ?_⟩
      -- The port is in use, and no worker has it.
      have hzero : o.workers = 0 := Nat.eq_zero_of_not_pos hno
      have hgroups : h.groups = [port] :: h.workers :: h.pending := by rw [groups, starting, hrefresh]
      have hdisjoint := hinv.disjoint
      rw [hgroups, List.pairwise_cons] at hdisjoint
      have hused : port ∈ h.portsInUse :=
        (hinv.mem_iff port).2 ⟨[port], hgroups ▸ List.mem_cons_self, List.mem_singleton_self _⟩
      rcases (hlawful.mem_iff port).1 hused with hworkers | ⟨g, hg, hport⟩ | hstarting
      · rw [hzero, List.replicate_zero, List.append_nil] at hworkers
        exact List.singleton_disjoint.1 (hdisjoint.1 _ List.mem_cons_self) hworkers
      · exact List.singleton_disjoint.1 (hdisjoint.1 g (List.mem_cons_of_mem _ hg)) hport
      · cases hstarting
    · cases hstep
  | finish =>
    rw [DynamicInboundHandler.step, Option.ite_none_right_eq_some, Option.some.injEq] at hstep
    obtain ⟨⟨hrefresh, hi⟩, rfl⟩ := hstep
    exact ⟨fun _ => hinv.finish hrefresh hi, fun _ => rfl, fun hno => absurd trivial hno⟩
  | closeWorkers k =>
    rw [DynamicInboundHandler.step, Option.ite_none_left_eq_some] at hstep
    obtain ⟨hrefresh, hstep⟩ := hstep
    split at hstep
    next workers hk =>
      rw [Option.some.injEq] at hstep
      subst hstep
      exact ⟨fun _ => hinv.closeWorkers hrefresh hk, hwaits, fun hno => absurd trivial hno⟩
    · cases hstep

end DynamicInboundHandler

/-- As long as the workers that have not been closed leave a port in the range, and each port
    gets a worker, a port that is asked for can be found, and the ports in use are those of
    the workers; and any other step breaks this. -/
theorem allocatePort_lawful {c : InboundDetourConfig} {h : DynamicInboundHandler}
    (hreach : ((handling c).restrict DynamicInboundHandler.HasRoom).Reach (fun _ => True) h) :
    h.IsLawful ∧ ∀ a h', h.step a = some h' → (h'.IsLawful ↔ h.HasRoom a) := by
  have hinv : h.Inv ∧ h.Waits := by
    refine hreach.invariant (I := fun h => h.Inv ∧ h.Waits) ?_ ?_
    · rintro _ ⟨r, _, _, rfl⟩ _
      exact ⟨DynamicInboundHandler.inv_new r, fun _ => rfl⟩
    · rintro s a t - ⟨hs, hwaits⟩ ⟨hroom, hstep⟩ -
      obtain ⟨hinv, hwaits', -⟩ := hs.step hwaits hstep
      exact ⟨hinv hroom, hwaits'⟩
  refine ⟨hinv.1.isLawful, fun a h' hstep => ⟨fun hlawful => ?_, fun hroom => ?_⟩⟩
  · by_contra hno
    exact (hinv.1.step hinv.2 hstep).2.2 hno hlawful
  · exact ((hinv.1.step hinv.2 hstep).1 hroom).isLawful

/-! ## Draws -/

namespace DynamicInboundHandler

/-- A call of `allocatePort` ends with a draw if and only if the draw is that of a free port. -/
theorem roll_ends_iff {h h' : DynamicInboundHandler} {range : PortRange} {r : ℕ}
    (hrefresh : h.refresh = .allocating) (hrange : h.receiverConfig.portRange = some range)
    (hstep : h.step (.roll r) = some h') :
    h'.refresh ≠ .allocating ↔ range.fromPort + r ∉ h.portsInUse := by
  simp only [step, hrefresh, hrange, Option.ite_none_right_eq_some] at hstep
  obtain ⟨-, hstep⟩ := hstep
  split at hstep
  next hused =>
    rw [Option.some.injEq] at hstep
    exact iff_of_false (fun hne => hne (hstep ▸ hrefresh)) (fun hfree => hfree hused)
  next hfree =>
    rw [Option.some.injEq] at hstep
    exact iff_of_true (by rw [← hstep]; exact Refresh.noConfusion) hfree

/-- No draw ends a call when all ports are in use. -/
theorem roll_eq_self {h h' : DynamicInboundHandler} (hused : h.portsInUse = h.range) {r : ℕ}
    (hstep : h.step (.roll r) = some h') : h' = h := by
  rw [step] at hstep
  split at hstep
  next _ _ range _ hrange =>
    rw [Option.ite_none_right_eq_some] at hstep
    obtain ⟨hlt, hstep⟩ := hstep
    have hmem : range.fromPort + r ∈ h.portsInUse := by
      have hle := range.le
      rw [PortRange.size] at hlt
      rw [hused, DynamicInboundHandler.range, hrange, Option.elim_some, Finset.mem_Icc]
      omega
    rw [if_pos hmem, Option.some.injEq] at hstep
    exact hstep.symm
  · cases hstep

/-- The share of the sequences of `n` draws that find no free port. -/
noncomputable def missShare (h : DynamicInboundHandler) (n : ℕ) : ℝ :=
  (Fintype.piFinset fun _ : Fin n => h.range ∩ h.portsInUse).card /
    (Fintype.piFinset fun _ : Fin n => h.range).card

/-- A free port is found in finitely many draws, with probability 1. -/
theorem IsLawful.tendsto_missShare {h : DynamicInboundHandler} (hlawful : h.IsLawful)
    (hrefresh : h.refresh = .allocating) :
    Filter.Tendsto h.missShare Filter.atTop (nhds 0) := by
  have hlt : (h.range ∩ h.portsInUse).card < h.range.card := by
    rw [Finset.inter_eq_right.2 (hlawful.free hrefresh).subset]
    exact Finset.card_lt_card (hlawful.free hrefresh)
  have hpow : h.missShare = fun n =>
      (((h.range ∩ h.portsInUse).card : ℝ) / h.range.card) ^ n := by
    funext n
    rw [missShare, Fintype.card_piFinset_const, Fintype.card_piFinset_const, Nat.cast_pow,
      Nat.cast_pow, div_pow]
  rw [hpow]
  refine tendsto_pow_atTop_nhds_zero_of_lt_one (by positivity) ?_
  rw [div_lt_one (Nat.cast_pos.2 (Nat.zero_lt_of_lt hlt))]
  exact Nat.cast_lt.2 hlt

end DynamicInboundHandler

/-! ## A range that is used up -/

/-- Two of three ports at a time. -/
def exampleConfig : InboundDetourConfig where
  portRange := some ⟨1000, 1002, by decide, by decide⟩
  allocation := some { strategy := ascii "random", concurrency := some 2 }

def exampleReceiver : ReceiverConfig where
  portRange := some ⟨1000, 1002, by decide, by decide⟩
  listen := none
  allocationStrategy := some ⟨.random, some 2, none⟩

theorem build_exampleConfig : exampleConfig.build = .ok exampleReceiver := by decide

/-- A worker is started. -/
def exampleStart : StartOutcome := { tcp := some true }

/-- The first port is allocated, and gets its worker. -/
theorem allocatePort_lawful_example : ∃ h : DynamicInboundHandler, h.refresh = .starting 1000 ∧
    h.IsLawful ∧ ∀ h', h.step (.start {}) = some h' → (h'.IsLawful ↔ h.HasRoom (.start {})) :=
  have htick : ((handling exampleConfig).restrict DynamicInboundHandler.HasRoom).Reach
      (fun _ => True) _ :=
    .step (a := .tick) (.init ⟨exampleReceiver, build_exampleConfig, rfl, rfl⟩ trivial)
      ⟨trivial, rfl⟩ trivial
  have hallocate : ((handling exampleConfig).restrict DynamicInboundHandler.HasRoom).Reach
      (fun _ => True) _ := .step (a := .allocatePort) htick
      ⟨show 0 * 2 + 0 < 3 by decide, rfl⟩ trivial
  have hroll : ((handling exampleConfig).restrict DynamicInboundHandler.HasRoom).Reach
      (fun _ => True) _ := .step (a := .roll 0) hallocate ⟨trivial, rfl⟩ trivial
  ⟨_, rfl, (allocatePort_lawful hroll).1, (allocatePort_lawful hroll).2 _⟩

/-- Two refreshes, before the workers of the first one are closed. -/
def twoRefreshes : List Tick :=
  [.tick, .allocatePort, .roll 0, .start exampleStart, .allocatePort, .roll 1, .start exampleStart,
    .finish, .tick, .allocatePort, .roll 2, .start exampleStart, .allocatePort]

/-- The second refresh asks for a port when all are in use, and its draws never end. -/
theorem range_exhausted : exampleConfig.build = .ok exampleReceiver ∧
    ∃ h, (handling exampleConfig).Exec { receiverConfig := exampleReceiver } twoRefreshes h ∧
      h.refresh = .allocating ∧ h.portsInUse = h.range ∧
      ∀ r h', h.step (.roll r) = some h' → h' = h := by
  refine ⟨build_exampleConfig, _, Lts.exec_of_run (fun _ _ _ h => h) rfl, rfl, by decide, ?_⟩
  exact fun r h' hstep => DynamicInboundHandler.roll_eq_self (by decide) hstep

end Gzv2ray.Inbound
