import Gzv2ray.Kcp.Config

/-!
# The arithmetic of the round trip estimator

`RoundTripInfo.update` with the additions, subtractions and multiplications it makes
(`RoundTripInfo.computeUpdate`), each of which wraps around if its value does not fit 32 bits.

* `computeUpdate_computes`: it computes what `update` does;
* `update_bounded`: on samples below ten seconds, from the initial state on, nothing that is used
  wraps around and the timeout is at most `12500`.

The difference of a sample and the smoothed time is taken first, and replaced if it wrapped
around.
-/

namespace Gzv2ray.Kcp

/-- An operation on numbers of 32 bits. -/
inductive Arithmetic
  | add (a b : UInt32)
  | sub (a b : UInt32)
  | mul (a b : UInt32)
  deriving DecidableEq

namespace Arithmetic

def value : Arithmetic → UInt32
  | add a b => a + b
  | sub a b => a - b
  | mul a b => a * b

/-- The value is not that of the operation on natural numbers. -/
def Wraps : Arithmetic → Prop
  | add a b => 2 ^ 32 ≤ a.toNat + b.toNat
  | sub a b => a < b
  | mul a b => 2 ^ 32 ≤ a.toNat * b.toNat

end Arithmetic

/-- A computation that keeps the operations it makes. -/
abbrev Computing := StateM (List Arithmetic)

def compute (op : Arithmetic) : Computing UInt32 := do
  modify (· ++ [op])
  return op.value

namespace RoundTripInfo

/-- Takes a sample into the smoothed time and its variation. -/
def computeSmoothed (info : RoundTripInfo) (rtt : UInt32) : Computing RoundTripInfo := do
  if info.srtt = 0 then return { info with srtt := rtt, variation := rtt / 2 }
  let mut delta ← compute (.sub rtt info.srtt)
  if info.srtt > rtt then
    delta ← compute (.sub info.srtt rtt)
  let variation := (← compute (.add (← compute (.mul 3 info.variation)) delta)) / 4
  let mut srtt := (← compute (.add (← compute (.mul 7 info.srtt)) rtt)) / 8
  if srtt < info.minRtt then
    srtt := info.minRtt
  return { info with srtt, variation }

/-- The timeout that follows. -/
def computeTimeout (info : RoundTripInfo) : Computing UInt32 := do
  let mut rto := 0
  if info.minRtt < (← compute (.mul 4 info.variation)) then
    rto ← compute (.add info.srtt (← compute (.mul 4 info.variation)))
  else
    rto ← compute (.add info.srtt info.variation)
  if rto > 10000 then
    rto := 10000
  return (← compute (.mul rto 5)) / 4

/-- An update, with the operations it makes. -/
def computeUpdate (info : RoundTripInfo) (rtt current : UInt32) : Computing RoundTripInfo := do
  if rtt > 0x7FFFFFFF then return info
  let info ← info.computeSmoothed rtt
  let rto ← info.computeTimeout
  return { info with rto, updatedTimestamp := current }

/-! ## Operations -/

/-- A computation from some operations on: its value, and the operations it adds satisfy `P`. -/
def Computes {α : Type} (P : Arithmetic → Prop) (x : Computing α) (a : α) : Prop :=
  ∀ ops, ∃ ops', x.run ops = (a, ops ++ ops') ∧ ∀ op ∈ ops', P op

variable {α β : Type} {P : Arithmetic → Prop}

theorem Computes.pure (a : α) : Computes P (pure a) a :=
  fun ops => ⟨[], by rw [List.append_nil]; rfl, fun _ h => absurd h List.not_mem_nil⟩

theorem Computes.compute {op : Arithmetic} (h : P op) : Computes P (compute op) op.value :=
  fun _ => ⟨[op], rfl, fun _ hop => List.mem_singleton.1 hop ▸ h⟩

theorem Computes.bind {x : Computing α} {f : α → Computing β} {a : α} {b : β}
    (hx : Computes P x a) (hf : Computes P (f a) b) : Computes P (x >>= f) b := by
  intro ops
  obtain ⟨ops₁, h₁, hops₁⟩ := hx ops
  obtain ⟨ops₂, h₂, hops₂⟩ := hf (ops ++ ops₁)
  refine ⟨ops₁ ++ ops₂, ?_, fun op hop => (List.mem_append.1 hop).elim (hops₁ op) (hops₂ op)⟩
  rw [StateT.run_bind, h₁, ← List.append_assoc]
  exact h₂

/-! ## Bounds -/

/-- The times are at most ten seconds, the least smoothed time a tenth of one. -/
structure IsBounded (info : RoundTripInfo) : Prop where
  srtt : info.srtt.toNat ≤ 10000
  variation : info.variation.toNat ≤ 10000
  minRtt : info.minRtt.toNat ≤ 100

/-- An operation whose value is used does not wrap around: the difference that does is replaced. -/
def IsUsable (info : RoundTripInfo) (rtt : UInt32) (op : Arithmetic) : Prop :=
  op.Wraps → op = .sub rtt info.srtt ∧ rtt < info.srtt

variable {info : RoundTripInfo} {rtt : UInt32}

theorem isUsable_of_not {op : Arithmetic} (h : ¬ op.Wraps) : IsUsable info rtt op :=
  fun hop => absurd hop h

/-- The smoothed time and its variation after a sample. -/
def smoothed (info : RoundTripInfo) (rtt : UInt32) : RoundTripInfo :=
  if info.srtt = 0 then { info with srtt := rtt, variation := rtt / 2 }
  else
    let delta := if info.srtt > rtt then info.srtt - rtt else rtt - info.srtt
    let srtt := (7 * info.srtt + rtt) / 8
    { info with
      srtt := if srtt < info.minRtt then info.minRtt else srtt
      variation := (3 * info.variation + delta) / 4 }

theorem toNat_small_mul {a b : UInt32} (h : a.toNat * b.toNat < 2 ^ 32) :
    (a * b).toNat = a.toNat * b.toNat := by
  rw [UInt32.toNat_mul, Nat.mod_eq_of_lt h]

theorem toNat_small_add {a b : UInt32} (h : a.toNat + b.toNat < 2 ^ 32) :
    (a + b).toNat = a.toNat + b.toNat := by
  rw [UInt32.toNat_add, Nat.mod_eq_of_lt h]

/-- The difference of a sample and the smoothed time, in either direction. -/
def difference (info : RoundTripInfo) (rtt : UInt32) : UInt32 :=
  if info.srtt > rtt then info.srtt - rtt else rtt - info.srtt

theorem difference_le (h : info.IsBounded) (hrtt : rtt.toNat < 10000) :
    (info.difference rtt).toNat ≤ 10000 := by
  have hsrtt := h.srtt
  rw [difference]
  split
  · rename_i hlt
    rw [UInt32.toNat_sub_of_le _ _ (UInt32.le_of_lt hlt)]
    omega
  · rename_i hlt
    rw [UInt32.toNat_sub_of_le _ _ (UInt32.not_lt.1 hlt)]
    omega

/-- The sums that the smoothed time and its variation come from. -/
theorem sums_lt (h : info.IsBounded) (hrtt : rtt.toNat < 10000) {delta : UInt32}
    (hdelta : delta.toNat ≤ 10000) :
    (3 * info.variation).toNat = 3 * info.variation.toNat ∧
      (7 * info.srtt).toNat = 7 * info.srtt.toNat ∧
      (3 * info.variation + delta).toNat = 3 * info.variation.toNat + delta.toNat ∧
      (7 * info.srtt + rtt).toNat = 7 * info.srtt.toNat + rtt.toNat := by
  have hsrtt := h.srtt
  have hvariation := h.variation
  have h3 : (3 * info.variation).toNat = 3 * info.variation.toNat :=
    toNat_small_mul (by change 3 * _ < _; omega)
  have h7 : (7 * info.srtt).toNat = 7 * info.srtt.toNat :=
    toNat_small_mul (by change 7 * _ < _; omega)
  refine ⟨h3, h7, ?_, ?_⟩
  · rw [toNat_small_add, h3]
    rw [h3]
    omega
  · rw [toNat_small_add, h7]
    rw [h7]
    omega

theorem computeSmoothed_computes (h : info.IsBounded) (hrtt : rtt.toNat < 10000) :
    Computes (IsUsable info rtt) (info.computeSmoothed rtt) (info.smoothed rtt) := by
  have hsrtt := h.srtt
  have hvariation := h.variation
  have hdelta := difference_le h hrtt
  -- From the difference on, no operation wraps around.
  have hrest {delta : UInt32} (hdelta : delta.toNat ≤ 10000) : Computes (IsUsable info rtt)
      (do
        let variation := (← compute (.add (← compute (.mul 3 info.variation)) delta)) / 4
        let mut srtt := (← compute (.add (← compute (.mul 7 info.srtt)) rtt)) / 8
        if srtt < info.minRtt then
          srtt := info.minRtt
        return { info with srtt, variation })
      { info with
        srtt := if (7 * info.srtt + rtt) / 8 < info.minRtt then info.minRtt
          else (7 * info.srtt + rtt) / 8
        variation := (3 * info.variation + delta) / 4 } := by
    obtain ⟨h3, h7, -, -⟩ := sums_lt h hrtt hdelta
    refine .bind (.compute (isUsable_of_not ?_)) (.bind (.compute (isUsable_of_not ?_))
      (.bind (.compute (isUsable_of_not ?_)) (.bind (.compute (isUsable_of_not ?_)) ?_)))
    · change ¬ 2 ^ 32 ≤ 3 * _
      omega
    · change ¬ 2 ^ 32 ≤ (3 * info.variation).toNat + _
      omega
    · change ¬ 2 ^ 32 ≤ 7 * _
      omega
    · change ¬ 2 ^ 32 ≤ (7 * info.srtt).toNat + _
      omega
    · dsimp only [Arithmetic.value]
      split
      · exact .pure _
      · exact .pure _
  unfold computeSmoothed smoothed
  dsimp only
  split
  · exact .pure _
  · refine .bind (.compute fun hwraps => ⟨rfl, hwraps⟩) ?_
    rw [difference] at hdelta
    split
    · rename_i hlt
      rw [if_pos hlt] at hdelta
      refine .bind (.compute (isUsable_of_not ?_)) (hrest hdelta)
      exact UInt32.not_lt.2 (UInt32.le_of_lt hlt)
    · rename_i hlt
      rw [if_neg hlt] at hdelta
      exact hrest hdelta

theorem isBounded_smoothed (h : info.IsBounded) (hrtt : rtt.toNat < 10000) :
    (info.smoothed rtt).IsBounded := by
  have hsrtt := h.srtt
  have hvariation := h.variation
  have hminRtt := h.minRtt
  have hdelta := difference_le h hrtt
  obtain ⟨-, -, h3, h7⟩ := sums_lt h hrtt hdelta
  rw [difference] at hdelta h3
  rw [smoothed]
  split
  · refine ⟨by change rtt.toNat ≤ 10000; omega, ?_, hminRtt⟩
    change (rtt / 2).toNat ≤ 10000
    rw [UInt32.toNat_div]
    exact (Nat.div_le_self _ _).trans (by omega)
  · refine ⟨?_, ?_, hminRtt⟩
    · dsimp only
      split
      · omega
      · rw [UInt32.toNat_div, h7]
        change _ / 8 ≤ 10000
        omega
    · dsimp only
      rw [UInt32.toNat_div, h3]
      change _ / 4 ≤ 10000
      omega

/-- The timeout that the smoothed time and its variation give. -/
def nextTimeout (info : RoundTripInfo) : UInt32 :=
  let rto := if info.minRtt < 4 * info.variation then info.srtt + 4 * info.variation
    else info.srtt + info.variation
  (if rto > 10000 then 10000 else rto) * 5 / 4

theorem update_eq (info : RoundTripInfo) (rtt current : UInt32) :
    info.update rtt current = if rtt > 0x7FFFFFFF then info else
      { info.smoothed rtt with
        rto := (info.smoothed rtt).nextTimeout
        updatedTimestamp := current } := by
  rw [update, smoothed]
  split
  · rfl
  · by_cases h : info.srtt = 0
    · simp only [if_pos h]
      rfl
    · simp only [if_neg h]
      rfl

theorem capped_le {rto : UInt32} : (if rto > 10000 then 10000 else rto).toNat ≤ 10000 := by
  split
  · exact le_rfl
  · rename_i h
    exact UInt32.le_iff_toNat_le.1 (UInt32.not_lt.1 h)

theorem capped_mul {rto : UInt32} :
    ((if rto > 10000 then 10000 else rto) * 5).toNat ≤ 50000 ∧
      ¬ 2 ^ 32 ≤ (if rto > 10000 then 10000 else rto).toNat * (5 : UInt32).toNat := by
  have hle : (if rto > 10000 then 10000 else rto).toNat ≤ 10000 := capped_le
  have h5 : (5 : UInt32).toNat = 5 := rfl
  rw [toNat_small_mul, h5]
  · omega
  · rw [h5]
    omega

theorem nextTimeout_le (info : RoundTripInfo) : info.nextTimeout ≤ 12500 := by
  rw [nextTimeout, UInt32.le_iff_toNat_le, UInt32.toNat_div]
  exact Nat.div_le_div_right capped_mul.1

theorem computeTimeout_computes {P : Arithmetic → Prop} (hP : ∀ op, ¬ op.Wraps → P op)
    (h : info.IsBounded) : Computes P info.computeTimeout info.nextTimeout := by
  have hsrtt := h.srtt
  have hvariation := h.variation
  have h4 : (4 * info.variation).toNat = 4 * info.variation.toNat :=
    toNat_small_mul (by change 4 * _ < _; omega)
  have hmul : P (.mul 4 info.variation) := hP _ (by change ¬ 2 ^ 32 ≤ 4 * _; omega)
  -- The timeout is capped before it is multiplied.
  have hcap (rto : UInt32) : Computes P
      (do
        let mut rto := rto
        if rto > 10000 then
          rto := 10000
        return (← compute (.mul rto 5)) / 4)
      ((if rto > 10000 then 10000 else rto) * 5 / 4) := by
    have hmul := hP (.mul (if rto > 10000 then 10000 else rto) 5) capped_mul.2
    dsimp only
    split
    · rename_i hlt
      rw [if_pos hlt] at hmul
      exact .bind (.compute hmul) (.pure _)
    · rename_i hlt
      rw [if_neg hlt] at hmul
      exact .bind (.compute hmul) (.pure _)
  unfold computeTimeout nextTimeout
  refine .bind (.compute hmul) ?_
  dsimp only [Arithmetic.value]
  split
  · refine .bind (.compute hmul) (.bind (.compute (hP _ ?_)) (hcap _))
    change ¬ 2 ^ 32 ≤ info.srtt.toNat + (4 * info.variation).toNat
    omega
  · refine .bind (.compute (hP _ ?_)) (hcap _)
    change ¬ 2 ^ 32 ≤ info.srtt.toNat + info.variation.toNat
    omega

theorem computeUpdate_computes (h : info.IsBounded) (hrtt : rtt.toNat < 10000) (current : UInt32) :
    Computes (IsUsable info rtt) (info.computeUpdate rtt current) (info.update rtt current) := by
  rw [update_eq]
  unfold computeUpdate
  split
  · exact .pure _
  · exact .bind (computeSmoothed_computes h hrtt) (.bind
      (computeTimeout_computes (fun _ => isUsable_of_not) (isBounded_smoothed h hrtt)) (.pure _))

theorem isBounded_update (h : info.IsBounded) (hrtt : rtt.toNat < 10000) (current : UInt32) :
    (info.update rtt current).IsBounded := by
  have hsmoothed := isBounded_smoothed h hrtt
  rw [update_eq]
  split
  · exact h
  · exact ⟨hsmoothed.srtt, hsmoothed.variation, hsmoothed.minRtt⟩

theorem rto_update_le (h : info.rto ≤ 12500) (current : UInt32) :
    (info.update rtt current).rto ≤ 12500 := by
  rw [update_eq]
  split
  · exact h
  · exact nextTimeout_le _

/-- The estimator after some samples, each with the time it was taken. -/
def updates (info : RoundTripInfo) (samples : List (UInt32 × UInt32)) : RoundTripInfo :=
  samples.foldl (fun info sample => info.update sample.1 sample.2) info

theorem isBounded_updates (h : info.IsBounded) (hrto : info.rto ≤ 12500)
    {samples : List (UInt32 × UInt32)} (hsamples : ∀ sample ∈ samples, sample.1 < 10000) :
    (info.updates samples).IsBounded ∧ (info.updates samples).rto ≤ 12500 := by
  induction samples generalizing info with
  | nil => exact ⟨h, hrto⟩
  | cons sample samples ih =>
    have hsample := UInt32.lt_iff_toNat_lt.1 (hsamples sample List.mem_cons_self)
    exact ih (isBounded_update h hsample _) (rto_update_le hrto _)
      fun sample hmem => hsamples sample (List.mem_cons_of_mem _ hmem)

end RoundTripInfo

open RoundTripInfo

/-- From the initial state, on samples below ten seconds, no operation that is used wraps around,
    and the timeout is bounded. -/
theorem update_bounded {config : Config} (hconfig : config.getTTIValue ≤ 100)
    {samples : List (UInt32 × UInt32)} (hsamples : ∀ sample ∈ samples, sample.1 < 10000)
    {rtt : UInt32} (hrtt : rtt < 10000) (current : UInt32) :
    let info := updates { rto := 100, minRtt := config.getTTIValue } samples
    ∃ ops, (info.computeUpdate rtt current).run [] = (info.update rtt current, ops) ∧
      (∀ op ∈ ops, op.Wraps → op = .sub rtt info.srtt ∧ rtt < info.srtt) ∧
      info.rto ≤ 12500 ∧ (info.update rtt current).rto ≤ 12500 := by
  intro info
  have hinit : IsBounded { rto := 100, minRtt := config.getTTIValue } :=
    ⟨Nat.zero_le _, Nat.zero_le _, UInt32.le_iff_toNat_le.1 hconfig⟩
  obtain ⟨hinfo, hrto⟩ := isBounded_updates hinit (show (100 : UInt32) ≤ 12500 by decide) hsamples
  obtain ⟨ops, hrun, hops⟩ :=
    computeUpdate_computes hinfo (UInt32.lt_iff_toNat_lt.1 hrtt) current []
  exact ⟨ops, hrun, hops, hrto, rto_update_le hrto current⟩

/-- After a sample of a second, one of half a second. -/
theorem update_bounded_example :
    ((updates { rto := 100, minRtt := 50 } [(1000, 0)]).update 500 1).rto ≤ 12500 := by
  obtain ⟨_, -, -, -, h⟩ :=
    @update_bounded {} (by decide) [(1000, 0)]
      (List.forall_mem_singleton.2 (show (1000 : UInt32) < 10000 by decide)) 500 (by decide) 1
  exact h

/-- The difference of a sample and a larger smoothed time wraps around. -/
theorem update_wraps :
    let info := updates { rto := 100, minRtt := 50 } [(1000, 0)]
    ∃ op ∈ ((info.computeUpdate 500 1).run []).2, op.Wraps :=
  ⟨.sub 500 1000, by decide, show (500 : UInt32) < 1000 by decide⟩

end Gzv2ray.Kcp
