import Gzv2ray.Kcp.Wraparound
import Gzv2ray.Lib.Transition

/-!
# Flushes of a list of numbers to acknowledge

What `AckList.flush` writes, in terms of the entries of the list.

* `AckList.batches`: the due entries in their order, a full acknowledgement at a time;
* `AckList.written_flush`: an acknowledgement is written for each batch, the last of them
  completed with numbers that are not due;
* `ackList_flushes`: in every run, each due entry is in exactly one of the acknowledgements of a
  flush, none of which is too long, and entries leave the list by `clear` only.
-/

namespace Gzv2ray.Kcp

/-- What writes an acknowledgement: it fills in fields other than these. -/
structure AckWriter where
  write : AckSegment → AckSegment
  numberList_write : ∀ seg, (write seg).numberList = seg.numberList
  timestamp_write : ∀ seg, (write seg).timestamp = seg.timestamp

/-- The worker writes the acknowledgements of its list. -/
def ReceivingWorker.writer (w : ReceivingWorker) (conv : UInt16) (closing : Bool) : AckWriter where
  write := w.write conv closing
  numberList_write _ := rfl
  timestamp_write _ := rfl

namespace AckList

/-- A number with its timestamp and the time of its next acknowledgement. -/
abbrev Entry := UInt32 × UInt32 × UInt32

/-! ## Batches -/

/-- The full batches of the entries that come after those of `pending`, and the rest. -/
def batchLoop : (pending : List Entry) → List Entry → List (List Entry) × List Entry
  | pending, [] => ([], pending)
  | pending, e :: es =>
    if (pending ++ [e]).length = ackNumberLimit then
      ((pending ++ [e]) :: (batchLoop [] es).1, (batchLoop [] es).2)
    else batchLoop (pending ++ [e]) es

variable (l : AckList) (current : UInt32)

/-- The entries that are due. -/
def due : List Entry := l.entries.filter fun e => e.2.2 ≤ current

/-- The entries that are not. -/
def idle : List Entry := l.entries.filter fun e => ¬ e.2.2 ≤ current

/-- The entries that a flush acknowledges: the due ones, or none if there is only something new
    to tell. -/
def batches : List (List Entry) :=
  let (full, rest) := batchLoop [] (l.due current)
  if rest ≠ [] ∨ full = [] ∧ l.dirty then full ++ [rest] else full

/-- An acknowledgement of some entries. -/
def ofBatch (batch : List Entry) : AckSegment :=
  batch.foldl (fun seg e => (seg.putNumber e.1).putTimestamp e.2.1) {}

theorem ofBatch_concat (batch : List Entry) (e : Entry) :
    ofBatch (batch ++ [e]) = ((ofBatch batch).putNumber e.1).putTimestamp e.2.1 := by
  rw [ofBatch, List.foldl_append]
  rfl

@[simp] theorem numberList_ofBatch (batch : List Entry) :
    (ofBatch batch).numberList = batch.map Prod.fst := by
  induction batch using List.reverseRecOn with
  | nil => rfl
  | append_singleton batch e ih =>
    rw [ofBatch_concat, AckSegment.putTimestamp_numberList, AckSegment.putNumber_numberList, ih,
      List.map_append]
    rfl

theorem isFull_ofBatch (batch : List Entry) :
    (ofBatch batch).isFull = true ↔ batch.length = ackNumberLimit := by
  rw [AckSegment.isFull, numberList_ofBatch, List.length_map, beq_iff_eq]

theorem isEmpty_ofBatch (batch : List Entry) : (ofBatch batch).isEmpty = true ↔ batch = [] := by
  rw [AckSegment.isEmpty, numberList_ofBatch, List.isEmpty_iff, List.map_eq_nil_iff]

/-- The batches are what there is, in its order. -/
theorem flatten_batchLoop (pending es : List Entry) :
    (batchLoop pending es).1.flatten ++ (batchLoop pending es).2 = pending ++ es := by
  induction es generalizing pending with
  | nil => rw [batchLoop, List.flatten_nil, List.nil_append, List.append_nil]
  | cons e es ih =>
    rw [batchLoop]
    split
    · rw [List.flatten_cons, List.append_assoc, ih, List.nil_append, List.append_assoc]
      rfl
    · rw [ih, List.append_assoc]
      rfl

/-- A batch is full, and what is left is not. -/
theorem length_batchLoop (pending es : List Entry) (h : pending.length < ackNumberLimit) :
    (∀ batch ∈ (batchLoop pending es).1, batch.length = ackNumberLimit) ∧
      (batchLoop pending es).2.length < ackNumberLimit := by
  induction es generalizing pending with
  | nil => exact ⟨fun _ h => absurd h List.not_mem_nil, h⟩
  | cons e es ih =>
    rw [batchLoop]
    split
    · rename_i hfull
      obtain ⟨hall, hrest⟩ := ih [] (Nat.succ_pos _)
      exact ⟨List.forall_mem_cons.2 ⟨hfull, hall⟩, hrest⟩
    · rename_i hfull
      refine ih _ (lt_of_le_of_ne ?_ hfull)
      rw [List.length_append]
      exact h

/-! ## Flushes -/

/-- The time of the next acknowledgement of an entry after a flush. -/
def nextTime (rto : UInt32) (e : Entry) : UInt32 :=
  if e.2.2 ≤ current then current + (if rto / 2 < 20 then 20 else rto / 2) else e.2.2

/-- Candidates are taken while there is room for them. -/
theorem candidates_append (c : List UInt32) (n : UInt32) (l : List UInt32) :
    let c' := if c.length < flushCandidatesCap then c ++ [n] else c
    c' ++ l.take (flushCandidatesCap - c'.length) =
      c ++ (n :: l).take (flushCandidatesCap - c.length) := by
  dsimp only
  split
  · rename_i h
    have hroom : flushCandidatesCap - c.length = flushCandidatesCap - (c ++ [n]).length + 1 := by
      rw [List.length_append, List.length_singleton]
      omega
    rw [hroom, List.take_succ_cons, List.append_assoc]
    rfl
  · rename_i h
    rw [Nat.sub_eq_zero_of_le (Nat.le_of_not_lt h), List.take_zero, List.take_zero]

/-- The state of a flush with a batch pending, in terms of the entries that come. -/
theorem flushLoop_eq (w : AckWriter) (rto : UInt32) (ns ts fs : List UInt32) (st : Flushing)
    {pending : List Entry} (hseg : st.seg = ofBatch pending) :
    flushLoop w.write current rto ns ts fs st =
      let es := ns.zip (ts.zip fs)
      let r := batchLoop pending (es.filter fun e => e.2.2 ≤ current)
      { nextFlush := st.nextFlush ++ es.map (nextTime current rto)
        flushCandidates := st.flushCandidates ++
          ((es.filter fun e => ¬ e.2.2 ≤ current).map Prod.fst).take
            (flushCandidatesCap - st.flushCandidates.length)
        seg := ofBatch r.2
        written := st.written ++ r.1.map fun batch => w.write (ofBatch batch)
        dirty := st.dirty && r.1.isEmpty } := by
  induction ns, ts, fs, st using flushLoop.induct w.write current rto generalizing pending with
  | case1 n ns t ts f fs st hf ih =>
    -- An entry that is not due.
    have hdue : ¬ f ≤ current := UInt32.not_le.2 hf
    have hnext : nextTime current rto (n, t, f) = f := if_neg hdue
    rw [flushLoop, if_pos hf, ih hseg]
    simp only [List.zip_cons_cons, List.filter_cons, hdue, decide_false, not_false_eq_true,
      decide_true, if_true, List.map_cons, hnext, candidates_append, List.append_assoc,
      List.singleton_append, Bool.false_eq_true, if_false]
  | case2 n ns t ts f fs st hf seg timeout st' hfull =>
    -- A due entry that completes an acknowledgement.
    rename_i ih
    have hdue : f ≤ current := UInt32.not_lt.1 hf
    have hnext : nextTime current rto (n, t, f) = current + timeout := if_pos hdue
    have hbatch : seg = ofBatch (pending ++ [(n, t, f)]) := by rw [ofBatch_concat, ← hseg]
    have hlength : pending.length + 1 = ackNumberLimit := by
      have hlen := (isFull_ofBatch (pending ++ [(n, t, f)])).1 (by rw [← hbatch]; exact hfull)
      rwa [List.length_append] at hlen
    rw [flushLoop, if_neg hf]
    dsimp only
    rw [if_pos hfull]
    refine (@ih [] rfl).trans ?_
    simp [hdue, hnext, batchLoop, hlength, hbatch, st']
  | case3 n ns t ts f fs st hf seg timeout st' hfull =>
    -- A due entry that does not.
    rename_i ih
    have hdue : f ≤ current := UInt32.not_lt.1 hf
    have hnext : nextTime current rto (n, t, f) = current + timeout := if_pos hdue
    have hbatch : seg = ofBatch (pending ++ [(n, t, f)]) := by rw [ofBatch_concat, ← hseg]
    have hlength : pending.length + 1 ≠ ackNumberLimit := by
      have hlen := (isFull_ofBatch (pending ++ [(n, t, f)])).not.1 (by rw [← hbatch]; exact hfull)
      rwa [List.length_append] at hlen
    rw [flushLoop, if_neg hf]
    dsimp only
    rw [if_neg hfull]
    refine (ih hbatch).trans ?_
    simp [hdue, hnext, batchLoop, hlength, st']
  | case4 ns ts fs st h =>
    have hnil : ns.zip (ts.zip fs) = [] := by
      rcases ns with - | ⟨n, ns⟩
      · rfl
      rcases ts with - | ⟨t, ts⟩
      · rfl
      rcases fs with - | ⟨f, fs⟩
      · rfl
      exact absurd rfl (h n ns t ts f fs rfl rfl)
    rw [flushLoop]
    · simp [hnil, batchLoop, ← hseg]
    · exact h

variable {l}

/-- The numbers that are not due, as many of them as are remembered. -/
def candidates (l : AckList) (current : UInt32) : List UInt32 :=
  ((l.idle current).map Prod.fst).take flushCandidatesCap

/-- Completes the last of some acknowledgements. -/
def fillLast (candidates : List UInt32) : List AckSegment → List AckSegment
  | [] => []
  | [seg] => [fill seg candidates]
  | seg :: segs => seg :: fillLast candidates segs

theorem fillLast_concat (candidates : List UInt32) (segs : List AckSegment) (seg : AckSegment) :
    fillLast candidates (segs ++ [seg]) = segs ++ [fill seg candidates] := by
  induction segs with
  | nil => rfl
  | cons seg' segs ih =>
    rcases segs with - | ⟨seg'', segs⟩
    · rfl
    · rw [List.cons_append, List.cons_append, fillLast, ← List.cons_append, ih]
      · rfl
      · simp

theorem fill_of_isFull {seg : AckSegment} (h : seg.isFull = true) (candidates : List UInt32) :
    fill seg candidates = seg := by
  rcases candidates with - | ⟨n, ns⟩
  · rfl
  · rw [fill, if_pos h]

theorem fillLast_of_isFull {segs : List AckSegment} (h : ∀ seg ∈ segs, seg.isFull = true)
    (candidates : List UInt32) : fillLast candidates segs = segs := by
  induction segs using List.reverseRecOn with
  | nil => rfl
  | append_singleton segs seg _ =>
    rw [fillLast_concat, fill_of_isFull (h seg (List.mem_append_right _ List.mem_cons_self))]

theorem flush_eq (w : AckWriter) (rto : UInt32) :
    let r := batchLoop [] (l.due current)
    l.flush w.write current rto =
      ({ l with
          nextFlush := l.entries.map (nextTime current rto)
          dirty := false },
        r.1.map (fun batch => w.write (ofBatch batch)) ++
          if r.2 ≠ [] ∨ r.1 = [] ∧ l.dirty then [w.write (fill (ofBatch r.2) (l.candidates current))]
          else []) := by
  intro r
  have hst : flushLoop w.write current rto l.numbers l.timestamps l.nextFlush { dirty := l.dirty } =
      { nextFlush := l.entries.map (nextTime current rto)
        flushCandidates := l.candidates current
        seg := ofBatch r.2
        written := r.1.map fun batch => w.write (ofBatch batch)
        dirty := l.dirty && r.1.isEmpty } :=
    flushLoop_eq current w rto l.numbers l.timestamps l.nextFlush _ rfl
  have hcond : ((l.dirty && r.1.isEmpty) || !(ofBatch r.2).isEmpty) = true ↔
      r.2 ≠ [] ∨ r.1 = [] ∧ l.dirty := by
    rw [Bool.or_eq_true, Bool.and_eq_true, Bool.not_eq_true', ← Bool.not_eq_true, isEmpty_ofBatch,
      List.isEmpty_iff]
    tauto
  rw [flush, hst]
  dsimp only
  by_cases h : r.2 ≠ [] ∨ r.1 = [] ∧ l.dirty
  · rw [if_pos h, if_pos (hcond.2 h)]
  · have hdirty : (l.dirty && r.1.isEmpty) = false := by
      by_contra hd
      rw [Bool.not_eq_false, Bool.and_eq_true, List.isEmpty_iff] at hd
      exact h (.inr ⟨hd.2, hd.1⟩)
    rw [if_neg h, if_neg fun hc => h (hcond.1 hc), List.append_nil]
    exact Prod.ext (congrArg (AckList.mk _ _ _) hdirty) rfl

/-- An acknowledgement is written for each batch, the last one completed with candidates. -/
theorem written_flush (w : AckWriter) (rto : UInt32) :
    (l.flush w.write current rto).2 =
      (fillLast (l.candidates current) ((l.batches current).map ofBatch)).map w.write := by
  rw [flush_eq, batches]
  obtain ⟨hfull, -⟩ := length_batchLoop [] (l.due current) (Nat.succ_pos _)
  dsimp only
  split
  · rw [List.map_append, List.map_singleton, fillLast_concat, List.map_append, List.map_map]
    rfl
  · rw [fillLast_of_isFull, List.map_map, List.append_nil]
    · rfl
    · rintro seg hseg
      obtain ⟨batch, hbatch, rfl⟩ := List.mem_map.1 hseg
      exact (isFull_ofBatch batch).2 (hfull batch hbatch)

/-! ## Places -/

theorem flatten_batches (l : AckList) (current : UInt32) : (l.batches current).flatten = l.due current := by
  have hall := flatten_batchLoop [] (l.due current)
  rw [List.nil_append] at hall
  rw [batches]
  dsimp only
  split
  · rw [List.flatten_append, List.flatten_singleton, hall]
  · rename_i h
    rw [not_or, not_not] at h
    rwa [h.1, List.append_nil] at hall

theorem length_le_of_mem_batches (l : AckList) (current : UInt32) {batch : List Entry}
    (h : batch ∈ l.batches current) :
    batch.length ≤ ackNumberLimit := by
  obtain ⟨hfull, hrest⟩ := length_batchLoop [] (l.due current) (Nat.succ_pos _)
  rw [batches] at h
  dsimp only at h
  split at h
  · rcases List.mem_append.1 h with h | h
    · exact (hfull batch h).le
    · rw [List.mem_singleton.1 h]
      exact hrest.le
  · exact (hfull batch h).le

/-- An acknowledgement is completed with the first candidates, as long as it is not full. -/
theorem numberList_fill {seg : AckSegment} (h : seg.numberList.length ≤ ackNumberLimit)
    (candidates : List UInt32) :
    (fill seg candidates).numberList.length ≤ ackNumberLimit ∧
      ∃ j, (fill seg candidates).numberList = seg.numberList ++ candidates.take j := by
  induction candidates generalizing seg with
  | nil => exact ⟨h, 0, (List.append_nil _).symm⟩
  | cons n ns ih =>
    rw [fill]
    split
    · exact ⟨h, 0, (List.append_nil _).symm⟩
    · rename_i hfull
      have hlt : (seg.putNumber n).numberList.length ≤ ackNumberLimit := by
        rw [AckSegment.putNumber_numberList, List.length_append]
        exact lt_of_le_of_ne h fun heq => hfull (beq_iff_eq.2 heq)
      obtain ⟨hle, j, hj⟩ := ih hlt
      refine ⟨hle, j + 1, ?_⟩
      rw [hj, AckSegment.putNumber_numberList, List.append_assoc]
      rfl

/-- The numbers of a flush: those that are due, and some of those that are not. -/
theorem numberList_flush (l : AckList) (current : UInt32) (w : AckWriter) (rto : UInt32) :
    let numbers := (l.flush w.write current rto).2.map (·.numberList)
    (∀ ns ∈ numbers, ns.length ≤ ackNumberLimit) ∧
      ∃ j, numbers.flatten = (l.due current ++ (l.idle current).take j).map Prod.fst := by
  intro numbers
  have hnumbers : numbers =
      (fillLast (l.candidates current) ((l.batches current).map ofBatch)).map (·.numberList) := by
    simp only [numbers, written_flush, List.map_map]
    exact List.map_congr_left fun seg _ => w.numberList_write seg
  have hflat := flatten_batches l current
  have hle : ∀ batch ∈ l.batches current, batch.length ≤ ackNumberLimit :=
    fun _ => length_le_of_mem_batches l current
  rw [hnumbers]
  rcases List.eq_nil_or_concat (l.batches current) with hnil | ⟨front, batch, hbatches⟩
  · rw [hnil] at hflat ⊢
    exact ⟨fun _ h => absurd h List.not_mem_nil, 0, by rw [← hflat]; rfl⟩
  · rw [List.concat_eq_append] at hbatches
    rw [hbatches] at hflat hle ⊢
    have hfront : (front.map ofBatch).map (·.numberList) = front.map (List.map Prod.fst) := by
      rw [List.map_map]
      exact List.map_congr_left fun batch _ => numberList_ofBatch batch
    have hbatch : (ofBatch batch).numberList.length ≤ ackNumberLimit := by
      rw [numberList_ofBatch, List.length_map]
      exact hle batch (List.mem_append_right _ List.mem_cons_self)
    obtain ⟨hlast, j, hj⟩ := numberList_fill hbatch (l.candidates current)
    rw [List.map_append, List.map_singleton, fillLast_concat, List.map_append, hfront,
      List.map_singleton]
    refine ⟨fun ns hns => ?_, min j flushCandidatesCap, ?_⟩
    · rcases List.mem_append.1 hns with hns | hns
      · obtain ⟨batch', hbatch', rfl⟩ := List.mem_map.1 hns
        rw [List.length_map]
        exact hle batch' (List.mem_append_left _ hbatch')
      · rwa [List.mem_singleton.1 hns]
    · rw [← hflat, List.flatten_append, List.flatten_singleton, hj, numberList_ofBatch,
        List.flatten_append, List.flatten_singleton, ← List.map_flatten, candidates,
        List.take_take, List.map_append, List.map_append, List.map_take, List.append_assoc]

/-- A list cut into pieces comes from pieces of what it is mapped from. -/
theorem exists_pieces {α β : Type*} {f : α → β} {pieces : List (List β)} {l : List α}
    (h : pieces.flatten = l.map f) :
    ∃ places : List (List α), places.flatten = l ∧ pieces = places.map (List.map f) := by
  induction pieces generalizing l with
  | nil =>
    rw [List.flatten_nil] at h
    exact ⟨[], (List.map_eq_nil_iff.1 h.symm).symm, rfl⟩
  | cons piece pieces ih =>
    rw [List.flatten_cons] at h
    obtain ⟨l₁, l₂, rfl, rfl, h₂⟩ := List.map_eq_append_iff.1 h.symm
    obtain ⟨places, rfl, rfl⟩ := ih h₂.symm
    exact ⟨l₁ :: places, rfl, rfl⟩

/-- The acknowledgements of a flush list numbers of places of the list, each place at most once
    and each place that is due exactly once; none of them lists too many. -/
structure Acknowledges (l : AckList) (current : UInt32) (written : List AckSegment)
    (places : List (List ℕ)) : Prop where
  numbers : written.map (fun seg => seg.numberList.map some) =
    places.map fun place => place.map (l.numbers[·]?)
  length_le : ∀ seg ∈ written, seg.numberList.length ≤ ackNumberLimit
  nodup : places.flatten.Nodup
  due : ∀ (i : ℕ) (t : UInt32), l.nextFlush[i]? = some t → t ≤ current →
    ∃! k : ℕ, ∃ place, places[k]? = some place ∧ i ∈ place

/-- The three lists are equally long. -/
structure IsAligned (l : AckList) : Prop where
  timestamps : l.timestamps.length = l.numbers.length
  nextFlush : l.nextFlush.length = l.numbers.length

/-- An entry of pieces that have no entry twice is in one of them. -/
theorem existsUnique_piece {pieces : List (List ℕ)} (h : pieces.flatten.Nodup) {i : ℕ}
    (hi : i ∈ pieces.flatten) : ∃! k : ℕ, ∃ piece, pieces[k]? = some piece ∧ i ∈ piece := by
  obtain ⟨piece, hpiece, hmem⟩ := List.mem_flatten.1 hi
  obtain ⟨k, hk⟩ := List.mem_iff_getElem?.1 hpiece
  refine ⟨k, ⟨piece, hk, hmem⟩, ?_⟩
  rintro k' ⟨piece', hk', hmem'⟩
  obtain ⟨hlt, rfl⟩ := List.getElem?_eq_some_iff.1 hk
  obtain ⟨hlt', rfl⟩ := List.getElem?_eq_some_iff.1 hk'
  have hdisjoint := List.pairwise_iff_getElem.1 (List.nodup_flatten.1 h).2
  rcases Nat.lt_trichotomy k' k with hk | hk | hk
  · exact absurd hmem (hdisjoint _ _ hlt' hlt hk hmem')
  · exact hk
  · exact absurd hmem' (hdisjoint _ _ hlt hlt' hk hmem)

/-- The entries with their places, first those that satisfy a condition and then some of the
    others. -/
theorem exists_places {α : Type*} (l : List α) (p : α → Bool) (j : ℕ) :
    ∃ places : List ℕ, places.Nodup ∧ (∀ i a, l[i]? = some a → p a = true → i ∈ places) ∧
      places.map (l[·]?) = (l.filter p ++ (l.filter fun a => !p a).take j).map some := by
  have hnodup : ((l.zipIdx.filter (p ∘ Prod.fst) ++
      l.zipIdx.filter (fun x => !p x.1)).map Prod.snd).Nodup := by
    refine ((List.filter_append_perm (p ∘ Prod.fst) l.zipIdx).map Prod.snd).nodup_iff.2 ?_
    rw [List.zipIdx_map_snd]
    exact List.nodup_range'
  refine ⟨(l.zipIdx.filter (p ∘ Prod.fst) ++
    (l.zipIdx.filter fun x => !p x.1).take j).map Prod.snd, ?_, fun i a hi ha => ?_, ?_⟩
  · exact hnodup.sublist (((List.take_sublist j _).append_left _).map _)
  · exact List.mem_map.2 ⟨(a, i), List.mem_append_left _ (List.mem_filter.2
      ⟨List.mk_mem_zipIdx_iff_getElem?.2 hi, ha⟩), rfl⟩
  · have hget : ∀ x ∈ l.zipIdx.filter (p ∘ Prod.fst) ++ (l.zipIdx.filter fun x => !p x.1).take j,
        l[x.2]? = some x.1 := by
      intro x hx
      rcases List.mem_append.1 hx with hx | hx
      · exact List.mem_zipIdx_iff_getElem?.1 (List.mem_of_mem_filter hx)
      · exact List.mem_zipIdx_iff_getElem?.1 (List.mem_of_mem_filter (List.mem_of_mem_take hx))
    have hfilter (q : α → Bool) :
        (l.zipIdx.filter fun x => q x.1).map Prod.fst = l.filter q := by
      conv_rhs => rw [← List.zipIdx_map_fst 0 l, List.filter_map]
      rfl
    have hnot := hfilter fun a => !p a
    rw [List.map_map]
    refine (List.map_congr_left hget).trans ?_
    rw [← hfilter p, ← hnot, ← List.map_take, ← List.map_append, List.map_map]
    rfl

theorem IsAligned.map_entries (h : l.IsAligned) :
    l.entries.map Prod.fst = l.numbers ∧ l.entries.map (fun e => e.2.1) = l.timestamps ∧
      l.entries.map (fun e => e.2.2) = l.nextFlush := by
  have hzip : (l.timestamps.zip l.nextFlush).length = l.numbers.length := by
    rw [List.length_zip, h.timestamps, h.nextFlush, min_self]
  refine ⟨List.map_fst_zip hzip.ge, ?_, ?_⟩
  · change l.entries.map (Prod.fst ∘ Prod.snd) = l.timestamps
    rw [← List.map_map, entries, List.map_snd_zip hzip.le,
      List.map_fst_zip (h.timestamps.trans h.nextFlush.symm).le]
  · change l.entries.map (Prod.snd ∘ Prod.snd) = l.nextFlush
    rw [← List.map_map, entries, List.map_snd_zip hzip.le,
      List.map_snd_zip (h.nextFlush.trans h.timestamps.symm).le]

/-- The places of the entries that a flush acknowledges, the due ones first. -/
theorem IsAligned.exists_acknowledges (h : l.IsAligned) (w : AckWriter) (rto : UInt32) :
    ∃ places, l.Acknowledges current (l.flush w.write current rto).2 places := by
  obtain ⟨hle, j, hflat⟩ := numberList_flush l current w rto
  obtain ⟨all, hnodup, hdue, hall⟩ := exists_places l.entries (fun e => e.2.2 ≤ current) j
  obtain ⟨hnumbers, -, hnextFlush⟩ := h.map_entries
  have hmap : (((l.flush w.write current rto).2.map (·.numberList)).map (List.map some)).flatten =
      all.map (l.numbers[·]?) := by
    have hget (i : ℕ) : l.numbers[i]? = (l.entries[i]?).map Prod.fst := by
      rw [← hnumbers, List.getElem?_map]
    have hidle : l.idle current = l.entries.filter fun e => !decide (e.2.2 ≤ current) :=
      List.filter_congr fun e _ => decide_not
    have hall' := congrArg (List.map (Option.map Prod.fst)) hall
    rw [List.map_map, List.map_map] at hall'
    simp only [hget]
    rw [← List.map_flatten, hflat, hidle, due, List.map_map]
    exact hall'.symm
  obtain ⟨places, rfl, hplaces⟩ := exists_pieces hmap
  rw [List.map_map] at hplaces
  refine ⟨places, hplaces, fun seg hseg => hle _ (List.mem_map_of_mem hseg), hnodup, ?_⟩
  · intro i t hi ht
    rw [← hnextFlush, List.getElem?_map] at hi
    obtain ⟨e, he, rfl⟩ := Option.map_eq_some_iff.1 hi
    exact existsUnique_piece hnodup (hdue i e he (decide_eq_true ht))

/-! ## Runs -/

theorem length_clearLoop (una : UInt32) (ns ts fs : List UInt32) :
    (clearLoop una ns ts fs).2.1.length = (clearLoop una ns ts fs).1.length ∧
      (clearLoop una ns ts fs).2.2.length = (clearLoop una ns ts fs).1.length := by
  induction ns generalizing ts fs with
  | nil => exact ⟨rfl, rfl⟩
  | cons n ns ih =>
    rcases ts with - | ⟨t, ts⟩
    · exact ⟨rfl, rfl⟩
    rcases fs with - | ⟨f, fs⟩
    · exact ⟨rfl, rfl⟩
    obtain ⟨hts, hfs⟩ := ih ts fs
    rw [clearLoop]
    dsimp only
    split
    · exact ⟨hts, hfs⟩
    · exact ⟨congrArg (· + 1) hts, congrArg (· + 1) hfs⟩

theorem IsAligned.add (h : l.IsAligned) (number timestamp : UInt32) :
    (l.add number timestamp).IsAligned := by
  constructor
  · rw [AckList.add, List.length_append, List.length_append, h.timestamps]
    rfl
  · rw [AckList.add, List.length_append, List.length_append, h.nextFlush]
    rfl

theorem isAligned_clear (l : AckList) (una : UInt32) : (l.clear una).IsAligned :=
  have h := length_clearLoop una l.numbers l.timestamps l.nextFlush
  ⟨h.1, h.2⟩

theorem IsAligned.flush (h : l.IsAligned) (w : AckWriter) (rto : UInt32) :
    (l.flush w.write current rto).1.IsAligned := by
  rw [flush_eq]
  refine ⟨h.timestamps, ?_⟩
  dsimp only
  rw [List.length_map, ← List.length_map (f := Prod.fst), h.map_entries.1]

theorem IsAligned.entries_add (h : l.IsAligned) (number timestamp : UInt32) :
    (l.add number timestamp).entries = l.entries ++ [(number, timestamp, 0)] := by
  rw [entries, AckList.add, List.zip_append (h.timestamps.trans h.nextFlush.symm),
    List.zip_append (by rw [List.length_zip, h.timestamps, h.nextFlush, min_self])]
  rfl

/-- A flush changes the times of the next acknowledgements only. -/
theorem IsAligned.entries_flush (h : l.IsAligned) (w : AckWriter) (rto : UInt32) :
    (l.flush w.write current rto).1.entries =
      l.entries.map fun e => (e.1, e.2.1, nextTime current rto e) := by
  obtain ⟨hnumbers, htimestamps, -⟩ := h.map_entries
  rw [flush_eq]
  dsimp only
  rw [entries]
  dsimp only
  conv_lhs => rw [← hnumbers, ← htimestamps]
  rw [List.zip_map', List.zip_map']

end AckList

inductive AckOperation
  | add (number timestamp : UInt32)
  | clear (una : UInt32)
  | flush (writer : AckWriter) (current rto : UInt32)

def AckList.step (l : AckList) : AckOperation → AckList
  | .add number timestamp => l.add number timestamp
  | .clear una => l.clear una
  | .flush writer current rto => (l.flush writer.write current rto).1

/-- The runs of a list of numbers to acknowledge, from the empty one. -/
def ackListRuns : Lts AckList AckOperation where
  init l := l = {}
  step l op l' := l' = l.step op

theorem isAligned_of_reach {l : AckList} (h : ackListRuns.Reach (fun _ => True) l) :
    l.IsAligned := by
  refine h.invariant ?_ ?_
  · rintro _ rfl -
    exact ⟨rfl, rfl⟩
  · rintro l op _ - hl rfl -
    rcases op with ⟨number, timestamp⟩ | una | ⟨writer, current, rto⟩
    · exact hl.add number timestamp
    · exact AckList.isAligned_clear l una
    · exact hl.flush current writer rto

/-- In every run the three lists stay aligned, a flush acknowledges each due entry once and
    keeps the entries, and `clear` drops those below its number and no others. -/
theorem ackList_flushes {l : AckList} (h : ackListRuns.Reach (fun _ => True) l) :
    l.IsAligned ∧
      (∀ (w : AckWriter) (current rto : UInt32),
        (∃ places, l.Acknowledges current (l.flush w.write current rto).2 places) ∧
          (l.flush w.write current rto).1.entries =
            l.entries.map fun e => (e.1, e.2.1, AckList.nextTime current rto e)) ∧
      (∀ number timestamp, (l.add number timestamp).entries =
        l.entries ++ [(number, timestamp, 0)]) ∧
      ∀ una, (l.clear una).entries = l.entries.filter fun e => ¬ e.1 < una := by
  have hl := isAligned_of_reach h
  exact ⟨hl, fun w current rto => ⟨hl.exists_acknowledges current w rto,
    hl.entries_flush current w rto⟩, hl.entries_add, l.entries_clear⟩

/-- Two segments received, the first of them acknowledged to have been acknowledged. -/
theorem ackList_flushes_example :
    let l := ((({} : AckList).add 7 1).add 9 2).clear 8
    l.IsAligned ∧ l.entries = [(9, 2, 0)] := by
  intro l
  exact ⟨(ackList_flushes (.step (.step (.step (a := .add 7 1) (.init rfl trivial) rfl trivial)
    (a := .add 9 2) rfl trivial) (a := .clear 8) rfl trivial)).1, rfl⟩

end Gzv2ray.Kcp
