import Gzv2ray.Buf.Reader

/-!
# Compaction

`compact` merges the buffers of a list, as long as their lengths add up to no more than the size of
a buffer. A buffer is read into the one before it, from where that one ends: the bytes before its
start are not available.

* `perm_of_compactLoop_eq_ok`: a buffer is in the new list, or was released;
* `compact_iff`: the content is kept exactly if there is room behind the start of the buffers that
  others are merged into, and those others have content.
-/

namespace Gzv2ray

/-- Appends what another buffer returns to a read. One without content returns the end. -/
def Buffer.readFrom (b reader : Buffer) : Except Error Buffer :=
  if reader.len = 0 then .error .eof else .ok (b.write (reader.read (bufSize - b.stop)).2).1

namespace MultiBuffer

/-- The loop, with the buffers and which they are: the new list, and the buffers released. -/
def compactLoop : Buffer × ℕ → List (Buffer × ℕ) → Outcome (List (Buffer × ℕ) × List ℕ)
  | last, [] => .ok ([last], [])
  | last, curr :: mb =>
    if last.1.len + curr.1.len > bufSize then (compactLoop curr mb).map fun r => (last :: r.1, r.2)
    else
      match last.1.readFrom curr.1 with
      -- no error is expected
      | .error _ => .panic
      | .ok b => (compactLoop (b, last.2) mb).map fun r => (r.1, curr.2 :: r.2)

/-- Merges the content, with the buffers numbered. -/
def compact (mb : MultiBuffer) : Outcome (List (Buffer × ℕ) × List ℕ) :=
  match mb.zipIdx with
  | [] => .ok ([], [])
  | last :: mb => compactLoop last mb

/-- The content is kept, in buffers that are not released. -/
def Compacts (mb : MultiBuffer) : Prop :=
  ∃ mb2 released, compact mb = .ok (mb2, released) ∧ bytes (mb2.map Prod.fst) = bytes mb ∧
    ∀ b ∈ mb2, b.2 ∉ released

/-! ## Groups -/

/-- The groups of buffers whose lengths add up to no more than the size of a buffer. -/
def groupsFrom : MultiBuffer → MultiBuffer → List MultiBuffer
  | group, [] => [group]
  | group, b :: mb =>
    if len group + b.len > bufSize then group :: groupsFrom [b] mb
    else groupsFrom (group ++ [b]) mb

def groups : MultiBuffer → List MultiBuffer
  | [] => []
  | b :: mb => groupsFrom [b] mb

/-- Where the first buffer starts. -/
def start : MultiBuffer → ℕ
  | [] => 0
  | b :: _ => b.start

/-- The content of all buffers fits behind the start of the first one. -/
def HasRoom (group : MultiBuffer) : Prop := start group + len group ≤ bufSize

instance (group : MultiBuffer) : Decidable (HasRoom group) := inferInstanceAs (Decidable (_ ≤ _))

theorem start_append {group mb : MultiBuffer} (h : group ≠ []) :
    start (group ++ mb) = start group := by
  obtain ⟨b, group, rfl⟩ := List.exists_cons_of_ne_nil h
  rfl

/-- The first of the groups extends the one at hand. -/
theorem exists_groupsFrom (group mb : MultiBuffer) : ∃ mb', group ++ mb' ∈ groupsFrom group mb := by
  induction mb generalizing group with
  | nil => exact ⟨[], by rw [List.append_nil]; exact List.mem_cons_self⟩
  | cons b mb ih =>
    rw [groupsFrom]
    split
    · exact ⟨[], by rw [List.append_nil]; exact List.mem_cons_self⟩
    · obtain ⟨mb', h⟩ := ih (group ++ [b])
      exact ⟨b :: mb', by rwa [List.append_assoc] at h⟩

/-- There is room for less, if there is room for more. -/
theorem HasRoom.of_append {group mb : MultiBuffer} (hne : group ≠ []) (h : HasRoom (group ++ mb)) :
    HasRoom group := by
  rw [HasRoom, start_append hne, len_eq, bytes_append, List.length_append] at h
  rw [HasRoom, len_eq]
  omega

/-! ## The loop -/

/-- The content of numbered buffers. -/
def content (mb : List (Buffer × ℕ)) : Bytes := bytes (mb.map Prod.fst)

@[simp] theorem content_cons (b : Buffer × ℕ) (mb : List (Buffer × ℕ)) :
    content (b :: mb) = b.1.bytes ++ content mb := rfl

/-- What is merged is behind what there was, as far as there is room. -/
theorem readFrom_eq_ok {b reader : Buffer} (h : reader.bytes ≠ []) :
    ∃ b', b.readFrom reader = .ok b' ∧ b'.start = b.start ∧
      b'.bytes = b.bytes ++ reader.bytes.take (bufSize - b.stop) := by
  have hlen : reader.len ≠ 0 := (List.length_pos_iff.2 h).ne'
  refine ⟨(b.write (reader.read (bufSize - b.stop)).2).1,
    by rw [Buffer.readFrom, if_neg hlen], rfl, ?_⟩
  rw [Buffer.read_snd, Buffer.write]
  dsimp only
  rw [List.take_of_length_le (by simp)]

theorem readFrom_eq_error {b reader : Buffer} (h : reader.bytes = []) :
    b.readFrom reader = .error .eof := if_pos (congrArg List.length h)

/-- A buffer is in the new list, or was released, and not both. -/
theorem perm_of_compactLoop_eq_ok {last : Buffer × ℕ} {mb mb2 : List (Buffer × ℕ)}
    {released : List ℕ} (h : compactLoop last mb = .ok (mb2, released)) :
    (mb2.map Prod.snd ++ released).Perm (last.2 :: mb.map Prod.snd) := by
  induction mb generalizing last mb2 released with
  | nil =>
    obtain ⟨rfl, rfl⟩ := Prod.mk.inj (Outcome.ok.inj h)
    exact .refl _
  | cons curr mb ih =>
    rw [compactLoop] at h
    split at h
    · obtain ⟨⟨mb2', released'⟩, hloop, hr⟩ := Outcome.map_eq_ok.1 h
      obtain ⟨rfl, rfl⟩ := Prod.mk.inj hr
      exact (ih hloop).cons last.2
    · split at h
      · cases h
      · obtain ⟨⟨mb2', released'⟩, hloop, hr⟩ := Outcome.map_eq_ok.1 h
        obtain ⟨rfl, rfl⟩ := Prod.mk.inj hr
        exact List.perm_middle.trans (((ih hloop).cons curr.2).trans (.swap _ _ _))

/-- There are no more bytes than before. -/
theorem length_content_le {last : Buffer × ℕ} {mb mb2 : List (Buffer × ℕ)} {released : List ℕ}
    (h : compactLoop last mb = .ok (mb2, released)) :
    (content mb2).length ≤ last.1.bytes.length + (content mb).length := by
  induction mb generalizing last mb2 released with
  | nil =>
    obtain ⟨rfl, rfl⟩ := Prod.mk.inj (Outcome.ok.inj h)
    rw [content_cons, List.length_append]
  | cons curr mb ih =>
    rw [content_cons, List.length_append]
    rw [compactLoop] at h
    split at h
    · obtain ⟨⟨mb2', released'⟩, hloop, hr⟩ := Outcome.map_eq_ok.1 h
      obtain ⟨rfl, rfl⟩ := Prod.mk.inj hr
      have hle := ih hloop
      rw [content_cons, List.length_append]
      dsimp only
      omega
    · by_cases hcurr : curr.1.bytes = []
      · rw [readFrom_eq_error hcurr] at h
        cases h
      · obtain ⟨b, hread, -, hb⟩ := readFrom_eq_ok (b := last.1) hcurr
        rw [hread] at h
        obtain ⟨⟨mb2', released'⟩, hloop, hr⟩ := Outcome.map_eq_ok.1 h
        obtain ⟨rfl, rfl⟩ := Prod.mk.inj hr
        have hle := ih hloop
        rw [hb, List.length_append, List.length_take] at hle
        dsimp only
        omega

/-- The content is kept exactly if nothing that is merged is empty, and there is room for it. The
    buffer at hand has the content of the group at hand. -/
theorem compactLoop_iff {last : Buffer × ℕ} {mb : List (Buffer × ℕ)} {group : MultiBuffer}
    (hne : group ≠ []) (hstart : last.1.start = start group) (hbytes : last.1.bytes = bytes group) :
    (∃ mb2 released, compactLoop last mb = .ok (mb2, released) ∧
      content mb2 = last.1.bytes ++ content mb) ↔
    (∀ b ∈ mb.map Prod.fst, b.bytes ≠ []) ∧
      ∀ g ∈ groupsFrom group (mb.map Prod.fst), HasRoom g := by
  have hroom : HasRoom group := by
    rw [HasRoom, len_eq, ← hstart, ← hbytes]
    exact last.1.fits
  have hlen : len group = last.1.len := by rw [len_eq, ← hbytes, Buffer.len]
  -- By induction on the buffers still to come; `group` is what was merged into the last one, and
  -- begins where its first buffer does.
  induction mb generalizing last group with
  | nil =>
    refine iff_of_true ⟨[last], [], rfl, rfl⟩ ⟨fun b hb => absurd hb List.not_mem_nil, ?_⟩
    exact List.forall_mem_singleton.2 hroom
  | cons curr mb ih =>
    rw [List.map_cons, List.forall_mem_cons, groupsFrom, hlen, compactLoop]
    split
    · -- another group starts, with a buffer that has content
      rename_i hsum
      have hcurr : curr.1.bytes ≠ [] := by
        intro hnil
        have := last.1.len_le
        rw [Buffer.len, Buffer.len, hnil, List.length_nil] at hsum
        omega
      have hroom' : HasRoom [curr.1] := by
        rw [HasRoom, len_eq, bytes_cons, bytes_nil, List.append_nil]
        exact curr.1.fits
      have hiff := @ih curr [curr.1] (List.cons_ne_nil _ _) rfl (List.append_nil _).symm hroom'
        (by rw [len_eq, bytes_cons, bytes_nil, List.append_nil, Buffer.len])
      rw [List.forall_mem_cons, and_iff_right hcurr, and_iff_right hroom]
      refine Iff.trans ⟨?_, ?_⟩ hiff
      · rintro ⟨mb2, released, h, hcontent⟩
        obtain ⟨⟨mb2', released'⟩, hloop, hr⟩ := Outcome.map_eq_ok.1 h
        obtain ⟨rfl, rfl⟩ := Prod.mk.inj hr
        exact ⟨mb2', released', hloop, List.append_cancel_left hcontent⟩
      · rintro ⟨mb2, released, hloop, hcontent⟩
        refine ⟨_, _, Outcome.map_eq_ok.2 ⟨_, hloop, rfl⟩, ?_⟩
        rw [content_cons, hcontent, content_cons]
    · rename_i hsum
      by_cases hcurr : curr.1.bytes = []
      · -- what has no content cannot be merged
        refine iff_of_false ?_ fun h => h.1.1 hcurr
        rintro ⟨mb2, released, h, -⟩
        rw [readFrom_eq_error hcurr] at h
        cases h
      obtain ⟨b, hread, hbstart, hb⟩ := readFrom_eq_ok (b := last.1) hcurr
      rw [hread, and_iff_right hcurr]
      dsimp only
      by_cases hfits : curr.1.bytes.length ≤ bufSize - last.1.stop
      · rw [List.take_of_length_le hfits] at hb
        have hb' : b.bytes = bytes (group ++ [curr.1]) := by
          rw [hb, hbytes, bytes_append, bytes_cons, bytes_nil, List.append_nil]
        have hbstart' : b.start = start (group ++ [curr.1]) := by
          rw [hbstart, hstart, start_append hne]
        have hroom' : HasRoom (group ++ [curr.1]) := by
          rw [HasRoom, len_eq, ← hb', ← hbstart']
          exact b.fits
        have hiff := @ih (b, last.2) (group ++ [curr.1]) (List.append_ne_nil_of_left_ne_nil hne _)
          hbstart' hb' hroom' (by rw [len_eq, ← hb', Buffer.len])
        refine Iff.trans ⟨?_, ?_⟩ hiff
        · rintro ⟨mb2, released, h, hcontent⟩
          obtain ⟨⟨mb2', released'⟩, hloop, hr⟩ := Outcome.map_eq_ok.1 h
          obtain ⟨rfl, rfl⟩ := Prod.mk.inj hr
          exact ⟨mb2', released', hloop, by rw [hcontent, hb, content_cons, List.append_assoc]⟩
        · rintro ⟨mb2, released, hloop, hcontent⟩
          refine ⟨_, _, Outcome.map_eq_ok.2 ⟨_, hloop, rfl⟩, ?_⟩
          rw [hcontent, hb, content_cons, List.append_assoc]
      · -- bytes are lost for good, and there is no room for the group
        refine iff_of_false ?_ fun h => ?_
        · rintro ⟨mb2, released, h, hcontent⟩
          obtain ⟨⟨mb2', released'⟩, hloop, hr⟩ := Outcome.map_eq_ok.1 h
          obtain ⟨rfl, rfl⟩ := Prod.mk.inj hr
          have hle := length_content_le hloop
          rw [hcontent, hb, content_cons] at hle
          simp only [List.length_append, List.length_take] at hle
          omega
        · obtain ⟨mb', hmem⟩ := exists_groupsFrom (group ++ [curr.1]) (mb.map Prod.fst)
          have hroom' := (h.2 _ hmem).of_append (List.append_ne_nil_of_left_ne_nil hne _)
          rw [HasRoom, start_append hne, ← hstart, len_eq, bytes_append, ← hbytes, bytes_cons,
            bytes_nil, List.append_nil, List.length_append] at hroom'
          rw [Buffer.stop] at hfits
          omega

/-- Compaction keeps the content, in buffers that are not released, exactly if every buffer but the
    first has content, and all groups that are merged fit behind the start of their first
    buffer. -/
theorem compact_iff (mb : MultiBuffer) :
    Compacts mb ↔ (∀ b ∈ mb.tail, b.bytes ≠ []) ∧ ∀ group ∈ groups mb, HasRoom group := by
  rcases mb with - | ⟨b, mb⟩
  · refine iff_of_true ⟨[], [], rfl, rfl, fun b hb => absurd hb List.not_mem_nil⟩ ⟨?_, ?_⟩
    · exact fun b hb => absurd hb List.not_mem_nil
    · exact fun group hgroup => absurd hgroup List.not_mem_nil
  · have hiff := @compactLoop_iff (b, 0) (mb.zipIdx 1) [b] (List.cons_ne_nil b []) rfl
      (List.append_nil _).symm
    rw [List.zipIdx_map_fst] at hiff
    refine Iff.trans ⟨?_, ?_⟩ hiff
    · rintro ⟨mb2, released, h, hcontent, -⟩
      refine ⟨mb2, released, h, hcontent.trans ?_⟩
      rw [content, List.zipIdx_map_fst, bytes_cons]
    · rintro ⟨mb2, released, h, hcontent⟩
      refine ⟨mb2, released, h, hcontent.trans ?_, fun b' hb' hreleased => ?_⟩
      · rw [content, List.zipIdx_map_fst, bytes_cons]
      · -- the numbers are distinct
        have hperm := perm_of_compactLoop_eq_ok h
        have hnodup : (0 :: (mb.zipIdx 1).map Prod.snd).Nodup := by
          have := List.nodup_range' (s := 0) (n := (b :: mb).length)
          rw [← List.zipIdx_map_snd 0 (b :: mb)] at this
          exact this
        exact List.disjoint_of_nodup_append (hperm.nodup_iff.2 hnodup)
          (List.mem_map_of_mem hb') hreleased

/-- A buffer that was read up to its last byte has no room for another one. -/
theorem not_compacts :
    ¬ Compacts [⟨2047, [1], by decide⟩, ⟨0, [2], by decide⟩] := by
  rintro ⟨mb2, released, h, hcontent, -⟩
  obtain ⟨rfl, rfl⟩ := Prod.mk.inj (Outcome.ok.inj h)
  exact absurd hcontent (by decide)

end MultiBuffer

end Gzv2ray
