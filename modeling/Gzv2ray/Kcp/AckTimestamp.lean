import Gzv2ray.Kcp.AckFlush
import Mathlib.Data.List.TakeWhile

/-!
# The timestamp of an acknowledgement

An acknowledgement starts with the timestamp zero and takes those of its due entries one after
the other, each if it is less than `2 ^ 31 - 1` ahead (`AckSegment.putTimestamp`).

* `foldl_zero`: the timestamps before the first one below `2 ^ 31 - 1` are passed over;
* `flush_latest_iff`: each acknowledgement of a flush has the latest of the timestamps of its due
  entries exactly if this one comes at the first entry that is not passed over or later, and is
  not `2 ^ 31 - 1` ahead of it with no other timestamp in between.
-/

namespace Gzv2ray.Kcp

open SerialNumber

/-- The timestamp after that of another entry. -/
def laterTimestamp (current timestamp : UInt32) : UInt32 :=
  if timestamp - current < 0x7FFFFFFF then timestamp else current

theorem putTimestamp_timestamp (s : AckSegment) (timestamp : UInt32) :
    (s.putTimestamp timestamp).timestamp = laterTimestamp s.timestamp timestamp := by
  rw [AckSegment.putTimestamp, laterTimestamp]
  split <;> rfl

theorem ofBatch_timestamp (batch : List AckList.Entry) :
    (AckList.ofBatch batch).timestamp = (batch.map fun e => e.2.1).foldl laterTimestamp 0 := by
  induction batch using List.reverseRecOn with
  | nil => rfl
  | append_singleton batch e ih =>
    rw [AckList.ofBatch_concat, putTimestamp_timestamp, List.map_append, List.foldl_append]
    exact congrArg (laterTimestamp · _) ih

theorem fill_timestamp (seg : AckSegment) (candidates : List UInt32) :
    (AckList.fill seg candidates).timestamp = seg.timestamp := by
  induction candidates generalizing seg with
  | nil => rfl
  | cons n ns ih =>
    rw [AckList.fill]
    split
    · rfl
    · exact ih (seg.putNumber n)

theorem prefix_fill (seg : AckSegment) (candidates : List UInt32) :
    seg.numberList <+: (AckList.fill seg candidates).numberList := by
  induction candidates generalizing seg with
  | nil => exact List.prefix_refl _
  | cons n ns ih =>
    rw [AckList.fill]
    split
    · exact List.prefix_refl _
    · exact (List.prefix_append seg.numberList [n]).trans (ih (seg.putNumber n))

/-! ## Half the circle -/

section

variable {last current timestamp : UInt32}

/-- A timestamp that is not behind is taken, unless it is `2 ^ 31 - 1` ahead. -/
theorem later_iff (hcurrent : behind last current < 2 ^ 31) (h : behind last timestamp < 2 ^ 31) :
    timestamp - current < 0x7FFFFFFF ↔
      behind last timestamp ≤ behind last current ∧
        ¬ (behind last current = 2 ^ 31 - 1 ∧ behind last timestamp = 0) := by
  rw [UInt32.lt_iff_toNat_lt, toNat_sub_eq last]
  change _ < 2147483647 ↔ _
  omega

/-- From less than `2 ^ 31 - 1` behind, the latest timestamp is taken when it comes. -/
theorem foldl_near {l : List UInt32} (hcurrent : behind last current < 2 ^ 31 - 1)
    (h : ∀ t ∈ l, behind last t < 2 ^ 31) :
    l.foldl laterTimestamp current = last ↔ last ∈ current :: l := by
  induction l generalizing current with
  | nil => simp [eq_comm]
  | cons t l ih =>
    have ht := h t List.mem_cons_self
    have hl := fun t ht => h t (List.mem_cons_of_mem _ ht)
    have hiff : t - current < 0x7FFFFFFF ↔ behind last t ≤ behind last current := by
      rw [later_iff (by omega) ht]
      omega
    rw [List.foldl_cons]
    by_cases hlater : t - current < 0x7FFFFFFF
    · have hle := hiff.1 hlater
      have hmem : last ∈ current :: t :: l ↔ last ∈ t :: l := by
        refine ⟨fun hm => ?_, List.mem_cons_of_mem _⟩
        rcases List.mem_cons.1 hm with rfl | hm
        · rw [behind_self] at hle
          rw [behind_eq_zero.1 (Nat.le_zero.1 hle)]
          exact List.mem_cons_self
        · exact hm
      rw [laterTimestamp, if_pos hlater, ih (hle.trans_lt hcurrent) hl, hmem]
    · have hne : t ≠ last := by
        rintro rfl
        exact hlater (hiff.2 (by simp))
      rw [laterTimestamp, if_neg hlater, ih hcurrent hl, List.mem_cons, List.mem_cons,
        List.mem_cons, or_iff_right hne.symm]

/-- From `2 ^ 31 - 1` behind, the latest timestamp is taken after one in between only. -/
theorem foldl_far {l : List UInt32} (hcurrent : behind last current = 2 ^ 31 - 1)
    (h : ∀ t ∈ l, behind last t < 2 ^ 31) :
    l.foldl laterTimestamp current = last ↔
      ∃ before after, l = before ++ last :: after ∧ ∃ t ∈ before, t ≠ current ∧ t ≠ last := by
  induction l with
  | nil =>
    refine ⟨fun heq => ?_, fun ⟨before, after, hl, _⟩ => ?_⟩
    · rw [List.foldl_nil] at heq
      rw [heq, behind_self] at hcurrent
      omega
    · cases before <;> cases hl
  | cons t l ih =>
    have ht := h t List.mem_cons_self
    have hl := fun t ht => h t (List.mem_cons_of_mem _ ht)
    -- The first timestamp is before the latest one, as it is if another one is before it.
    have hcons : (∃ before after, t :: l = before ++ last :: after ∧
          ∃ u ∈ before, u ≠ current ∧ u ≠ last) ↔
        ∃ before after, l = before ++ last :: after ∧ ∃ u ∈ t :: before, u ≠ current ∧ u ≠ last := by
      constructor
      · rintro ⟨before, after, hsplit, u, hu, hne⟩
        rcases before with - | ⟨t', before⟩
        · exact absurd hu List.not_mem_nil
        · obtain ⟨rfl, rfl⟩ := List.cons.inj hsplit
          exact ⟨before, after, rfl, u, hu, hne⟩
      · rintro ⟨before, after, rfl, hu⟩
        exact ⟨t :: before, after, rfl, hu⟩
    rw [List.foldl_cons, hcons]
    by_cases hpass : t = current ∨ t = last
    · have hkeep : laterTimestamp current t = current := by
        rcases hpass with rfl | rfl
        · exact ite_self _
        · have hlater := later_iff (hcurrent.trans_lt (Nat.sub_lt (Nat.two_pow_pos 31) one_pos)) ht
          rw [behind_self] at hlater
          exact if_neg fun hl => (hlater.1 hl).2 ⟨hcurrent, rfl⟩
      have hskip (before : List UInt32) : (∃ u ∈ t :: before, u ≠ current ∧ u ≠ last) ↔
          ∃ u ∈ before, u ≠ current ∧ u ≠ last := by
        rw [List.exists_mem_cons_iff]
        exact or_iff_right fun hne => hpass.elim hne.1 hne.2
      simp only [hkeep, ih hl, hskip]
    · rw [not_or] at hpass
      have hfar : behind last t ≠ 2 ^ 31 - 1 := by
        rw [← hcurrent, ne_eq, behind_inj]
        exact hpass.1
      have hnear : behind last t ≠ 0 := behind_eq_zero.not.2 hpass.2
      have hlater : t - current < 0x7FFFFFFF := by
        rw [later_iff (by omega) ht]
        omega
      rw [laterTimestamp, if_pos hlater, foldl_near (by omega) hl, List.mem_cons,
        or_iff_right (Ne.symm hpass.2)]
      constructor
      · intro hmem
        obtain ⟨before, after, rfl⟩ := List.append_of_mem hmem
        exact ⟨before, after, rfl, t, List.mem_cons_self, hpass⟩
      · rintro ⟨before, after, rfl, -⟩
        exact List.mem_append_right _ List.mem_cons_self

/-- The timestamps from the first one on that is not passed over. -/
def heard (l : List UInt32) : List UInt32 := l.dropWhile fun t => ¬ t < 0x7FFFFFFF

theorem foldl_zero (l : List UInt32) :
    l.foldl laterTimestamp 0 = (heard l).tail.foldl laterTimestamp ((heard l).headD 0) := by
  induction l with
  | nil => rfl
  | cons t l ih =>
    rw [List.foldl_cons, laterTimestamp, UInt32.sub_zero]
    by_cases h : t < 0x7FFFFFFF
    · rw [if_pos h, heard, List.dropWhile_cons_of_neg (by simpa using h)]
      rfl
    · rw [if_neg h, ih, heard, heard, List.dropWhile_cons_of_pos (by simpa using h)]

end

/-! ## Acknowledgements -/

/-- The latest of some timestamps comes first of those that are not passed over, or later; if it
    is `2 ^ 31 - 1` ahead of the first of them, another one comes in between. -/
def IsHeard (last : UInt32) (l : List UInt32) : Prop :=
  ∃ first rest, heard l = first :: rest ∧ last ∈ first :: rest ∧
    (last - first = 0x7FFFFFFF → ∃ before after, rest = before ++ last :: after ∧
      ∃ t ∈ before, t ≠ first ∧ t ≠ last)

/-- The latest timestamp is the one that an acknowledgement ends up with exactly if it is heard. -/
theorem foldl_eq_latest_iff {last : UInt32} {l : List UInt32} (h : IsLatest last l) :
    l.foldl laterTimestamp 0 = last ↔ IsHeard last l := by
  have hsub : ∀ t ∈ heard l, behind last t < 2 ^ 31 :=
    fun t ht => h.behind_lt t ((List.dropWhile_suffix _).subset ht)
  rw [foldl_zero, IsHeard]
  rcases hheard : heard l with - | ⟨first, rest⟩
  · -- No timestamp is taken, zero in particular.
    refine ⟨fun hzero => ?_, fun ⟨_, _, hcons, _⟩ => by cases hcons⟩
    have hpass := List.dropWhile_eq_nil_iff.1 hheard last h.mem
    rw [← show (0 : UInt32) = last from hzero] at hpass
    exact absurd hpass (by decide)
  · rw [hheard] at hsub
    have hfirst := hsub first List.mem_cons_self
    have hrest := fun t ht => hsub t (List.mem_cons_of_mem _ ht)
    have hfar : last - first = 0x7FFFFFFF ↔ behind last first = 2 ^ 31 - 1 := by
      rw [← UInt32.toNat_inj]
      rfl
    simp only [List.cons.injEq, exists_and_left, exists_eq_left', and_assoc, hfar]
    rw [List.tail_cons, List.headD_cons]
    by_cases hcurrent : behind last first = 2 ^ 31 - 1
    · rw [foldl_far hcurrent hrest]
      refine ⟨fun hmid => ?_, fun hheard => hheard.2 hcurrent⟩
      obtain ⟨before, after, rfl, -⟩ := id hmid
      exact ⟨by simp, fun _ => hmid⟩
    · rw [foldl_near (by omega) hrest]
      exact ⟨fun hmem => ⟨hmem, fun heq => absurd heq hcurrent⟩, And.left⟩

/-- An acknowledgement has the latest of some timestamps, if there are any; the time passed
    since then is the shortest of all, where it is short enough to be used as a sample. -/
def CarriesLatest (seg : AckSegment) (l : List UInt32) : Prop :=
  l = [] ∨ IsLatest seg.timestamp l ∧ ∀ now, now - seg.timestamp < 10000 →
    ∀ t ∈ l, now - seg.timestamp ≤ now - t

theorem carriesLatest_iff {seg : AckSegment} {l : List UInt32}
    (h : seg.timestamp = l.foldl laterTimestamp 0) :
    CarriesLatest seg l ↔ l = [] ∨ ∃ last, IsLatest last l ∧ IsHeard last l := by
  have hsample (hlatest : IsLatest seg.timestamp l) (now : UInt32)
      (hnow : now - seg.timestamp < 10000) (t : UInt32) (ht : t ∈ l) :
      now - seg.timestamp ≤ now - t := by
    have hlt := hlatest.behind_lt t ht
    have hnow' := toNat_sub_eq seg.timestamp seg.timestamp now
    have ht' := toNat_sub_eq seg.timestamp t now
    rw [UInt32.lt_iff_toNat_lt] at hnow
    rw [UInt32.le_iff_toNat_le]
    rw [behind_self] at hnow'
    have hbehind := behind_lt seg.timestamp now
    change _ < 10000 at hnow
    omega
  refine or_congr_right ⟨fun hlatest => ?_, fun ⟨last, hlatest, hheard⟩ => ?_⟩
  · exact ⟨_, hlatest.1, (foldl_eq_latest_iff hlatest.1).1 h.symm⟩
  · have hlast := h.trans ((foldl_eq_latest_iff hlatest).2 hheard)
    subst hlast
    exact ⟨hlatest, hsample hlatest⟩

/-- Completing the last acknowledgement changes no timestamp and drops no number. -/
theorem forall₂_fillLast (candidates : List UInt32) (batches : List (List AckList.Entry)) :
    List.Forall₂ (fun batch seg => batch.map Prod.fst <+: seg.numberList ∧
        seg.timestamp = (AckList.ofBatch batch).timestamp)
      batches (AckList.fillLast candidates (batches.map AckList.ofBatch)) := by
  have hstart (batch : List AckList.Entry) :
      batch.map Prod.fst <+: (AckList.ofBatch batch).numberList := by
    rw [AckList.numberList_ofBatch]
  induction batches with
  | nil => exact .nil
  | cons batch batches ih =>
    rcases batches with - | ⟨batch', batches⟩
    · exact .cons ⟨(hstart batch).trans (prefix_fill _ _), fill_timestamp _ _⟩ .nil
    · exact .cons ⟨hstart batch, rfl⟩ ih

/-- Each acknowledgement of a flush has the latest of the timestamps of its due entries exactly
    if there is a latest one, and it is heard. -/
theorem flush_latest_iff (l : AckList) (w : AckWriter) (current rto : UInt32) :
    (l.batches current).flatten = l.due current ∧
      List.Forall₂ (fun batch seg => batch.map Prod.fst <+: seg.numberList ∧
          (CarriesLatest seg (batch.map fun e => e.2.1) ↔
            batch = [] ∨ ∃ last, IsLatest last (batch.map fun e => e.2.1) ∧
              IsHeard last (batch.map fun e => e.2.1)))
        (l.batches current) (l.flush w.write current rto).2 := by
  refine ⟨l.flatten_batches current, ?_⟩
  rw [AckList.written_flush, List.forall₂_map_right_iff]
  refine (forall₂_fillLast _ _).imp fun batch seg ⟨hnumbers, htimestamp⟩ => ⟨?_, ?_⟩
  · rwa [w.numberList_write]
  · rw [carriesLatest_iff, List.map_eq_nil_iff]
    rw [w.timestamp_write, htimestamp, ofBatch_timestamp]

/-- A segment that was sent after `2 ^ 31 - 1` milliseconds is acknowledged with the timestamp
    zero. -/
theorem flush_not_latest :
    let l := ({} : AckList).add 0 0x7FFFFFFF
    let seg : AckSegment := { numberList := [0] }
    let writer : AckWriter := ⟨id, fun _ => rfl, fun _ => rfl⟩
    l.batches 0 = [[(0, 0x7FFFFFFF, 0)]] ∧ (l.flush writer.write 0 0).2 = [seg] ∧
      ¬ CarriesLatest seg [0x7FFFFFFF] := by
  refine ⟨by decide, by decide, ?_⟩
  rintro (hnil | ⟨⟨hmem, -⟩, -⟩)
  · cases hnil
  · exact absurd hmem (by decide)

end Gzv2ray.Kcp
