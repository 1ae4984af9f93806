import DsaTest.SingleDevice
import DsaTest.Lib.Lockstep

/-! The bytes that the memmoves copy, against the bytes of the two mapped tables, when
the DMA mapping has grouped the two sides in ways of its own. -/
namespace DsaTest

def Segment.bytes (s : Segment) : List Nat := List.range' s.address s.length

def MappedTable.bytes (table : MappedTable) : List Nat :=
  (table.segments.map Segment.bytes).flatten

def Memmove.copied (m : Memmove) : List (Nat × Nat) :=
  (List.range' m.srcAddr m.xferSize).zip (List.range' m.dstAddr m.xferSize)

/-- Every byte of the source table is copied to the byte at the same offset of the
destination table, and nothing is copied elsewhere. -/
def CopiesInPlace (moves : List Memmove) (q : Queue) : Prop :=
  ∀ x, (∃ m ∈ moves, x ∈ m.copied) ↔ x ∈ q.src.bytes.zip q.dst.bytes

/-- The two tables of a queue map the same number of bytes, none of them twice. -/
structure SameBytes (q : Queue) : Prop where
  size : q.src.bytes.length = q.dst.bytes.length
  some : 0 < q.dst.bytes.length
  distinct : q.dst.bytes.Nodup

def Queue.Aligned (q : Queue) : Prop := ∀ p ∈ q.pairs, p.1.length = p.2.length

variable {q : Queue}

theorem copied_minMove (p : Segment × Segment) :
    (minMove p).copied = p.1.bytes.zip p.2.bytes := by
  apply List.ext_getElem
  · simp [Memmove.copied, minMove, Segment.bytes]
  · intro i h h'
    simp [Memmove.copied, minMove, Segment.bytes]

theorem copied_pairs (q : Queue) :
    (q.pairs.map minMove).flatMap Memmove.copied =
      Lockstep.matched (q.src.segments.map Segment.bytes) (q.dst.segments.map Segment.bytes) := by
  rw [Lockstep.matched, List.zip_map, List.flatMap_map, List.flatMap_map]
  simp only [copied_minMove]
  rfl

theorem aligned_iff (q : Queue) : q.Aligned ↔
    ∀ p ∈ (q.src.segments.map Segment.bytes).zip (q.dst.segments.map Segment.bytes),
      p.1.length = p.2.length := by
  rw [List.zip_map, List.forall_mem_map]
  simp [Queue.Aligned, Queue.pairs, Segment.bytes]

/-- Memmoves of the minimal lengths copy in place exactly where the two sides are
segmented alike, up to the end of the shorter list. -/
theorem copiesInPlace_iff {moves : List Memmove} (same : SameBytes q)
    (issued : ∀ m, m ∈ moves ↔ m ∈ q.pairs.map minMove) : CopiesInPlace moves q ↔ q.Aligned := by
  have copied : ∀ x, (∃ m ∈ moves, x ∈ m.copied) ↔
      x ∈ Lockstep.matched (q.src.segments.map Segment.bytes) (q.dst.segments.map Segment.bytes) := by
    intro x
    rw [← copied_pairs, List.mem_flatMap]
    simp only [issued]
  have full := Lockstep.matched_full_iff same.size same.distinct
  rw [aligned_iff, ← full]
  constructor
  · intro inPlace x due
    rw [← copied]
    exact (inPlace x).mpr due
  · intro due x
    rw [copied, Lockstep.matched_eq_zip (full.mp due)]
    rfl

theorem MappedTable.length_bytes (table : MappedTable) :
    table.bytes.length = (table.segments.map (·.length)).sum := by
  rw [bytes, List.length_flatten, List.map_map]
  congr 1
  apply List.map_congr_left
  intro s _
  exact List.length_range'

theorem SameBytes.nents_pos (same : SameBytes q) : 0 < q.src.nents ∧ 0 < q.dst.nents := by
  have filled (table : MappedTable) (bytes : 0 < table.bytes.length) : 0 < table.nents := by
    apply Nat.pos_of_ne_zero
    intro empty
    simp [MappedTable.bytes, MappedTable.segments, empty] at bytes
  have := same.size
  have := same.some
  exact ⟨filled _ (by omega), filled _ (by omega)⟩

theorem bytes_nodup {segs : List Segment}
    (apart : segs.Pairwise fun a b => a.address + a.length ≤ b.address) :
    (segs.map Segment.bytes).flatten.Nodup := by
  rw [List.nodup_flatten, List.forall_mem_map, List.pairwise_map]
  constructor
  · intro s _
    exact List.nodup_range'
  · apply apart.imp
    intro a b behind x inA inB
    simp only [Segment.bytes, List.mem_range'_1] at inA inB
    omega

theorem sameBytes_of_apart
    (size : (q.src.segments.map (·.length)).sum = (q.dst.segments.map (·.length)).sum)
    (some : 0 < (q.dst.segments.map (·.length)).sum)
    (apart : q.dst.segments.Pairwise fun a b => a.address + a.length ≤ b.address) : SameBytes q where
  size := by rw [q.src.length_bytes, q.dst.length_bytes, size]
  some := by rwa [q.dst.length_bytes]
  distinct := bytes_nodup apart

/-- In both loop-path modules the copy is in place exactly where every pair of segments
has equal lengths; a remainder of a pair is never carried over. In the single-device one
a creation can also wait for ever, for the descriptors that failed ones have kept. -/
theorem copies_in_place_iff {queues : List Queue} {grants : Nat → Option Grant}
    {env : SingleDevice.CopyEnv} (willing : ∀ q ∈ queues, Willing q)
    (same : ∀ q ∈ queues, SameBytes q) (numDescs : ∀ q ∈ queues, 0 < q.wq.numDescs)
    (granted : ∀ i, grants i ≠ none) (serving : SingleDevice.Serving env) :
    (∃ st, submitAll queues grants .loop = some st ∧
      ∀ k q, queues[k]? = some q → (CopiesInPlace (st.memmovesOf k) q ↔ q.Aligned)) ∧
    ∀ q ∈ queues, SingleDevice.Waits (SingleDevice.dsaCopy q env) ∨
      ∃ st, SingleDevice.dsaCopy q env = .ok st ∧ (CopiesInPlace st.memmoves q ↔ q.Aligned) := by
  constructor
  · have ⟨st, run, served⟩ := submitAll_loop willing granted
    refine ⟨st, run, fun k q found => ?_⟩
    apply copiesInPlace_iff (same q (List.mem_of_getElem? found))
    rw [(served k q found).moves, List.take_of_length_le (Nat.le_of_eq q.length_pairs)]
    exact fun _ => Iff.rfl
  · intro q inside
    have ⟨srcNents, dstNents⟩ := (same q inside).nents_pos
    apply (SingleDevice.dsaCopy_memmoves (willing q inside) serving (numDescs q inside) srcNents
      dstNents).imp_right
    intro ⟨st, run, issued⟩
    exact ⟨st, run, copiesInPlace_iff (same q inside) issued⟩

theorem copies_in_place_aligned :
    (∃ st, submitAll [alignedQueue] alwaysGranted .loop = some st ∧
      CopiesInPlace (st.memmovesOf 0) alignedQueue) ∧
    ∃ st, SingleDevice.dsaCopy alignedQueue promptEnv = .ok st ∧
      CopiesInPlace st.memmoves alignedQueue := by
  have willing : Willing alignedQueue := ⟨rfl, by decide⟩
  have granted : ∀ i, alwaysGranted i ≠ none := by simp [alwaysGranted]
  have same : SameBytes alignedQueue := sameBytes_of_apart (by decide) (by decide) (by decide)
  have aligned : alignedQueue.Aligned := by
    unfold Queue.Aligned
    decide
  obtain ⟨⟨st, run, loop⟩, single⟩ := copies_in_place_iff (List.forall_mem_singleton.mpr willing)
    (List.forall_mem_singleton.mpr same)
    (List.forall_mem_singleton.mpr (by decide)) granted promptEnv_serving
  obtain ⟨st', run', here⟩ :=
    (single alignedQueue List.mem_cons_self).resolve_left (SingleDevice.not_waits (by decide))
  exact ⟨⟨st, run, (loop 0 alignedQueue rfl).mpr aligned⟩, st', run', here.mpr aligned⟩

/-- Source segments of 4096 and 8192 bytes, destination segments of 8192 and 4096. -/
theorem copies_displaced_crossed :
    SameBytes crossedQueue ∧ Willing crossedQueue ∧
    (∃ st, submitAll [crossedQueue] alwaysGranted .loop = some st ∧
      ¬ CopiesInPlace (st.memmovesOf 0) crossedQueue) ∧
    ∃ st, SingleDevice.dsaCopy crossedQueue promptEnv = .ok st ∧
      ¬ CopiesInPlace st.memmoves crossedQueue := by
  have willing : Willing crossedQueue := ⟨rfl, by decide⟩
  have same : SameBytes crossedQueue := sameBytes_of_apart (by decide) (by decide) (by decide)
  have displaced : ¬ crossedQueue.Aligned := by
    unfold Queue.Aligned
    decide
  obtain ⟨st, run, served⟩ := submitAll_loop (List.forall_mem_singleton.mpr willing)
    (show ∀ i, alwaysGranted i ≠ none by simp [alwaysGranted])
  have moves := (served 0 crossedQueue rfl).moves
  obtain ⟨st', run', issued⟩ := (SingleDevice.dsaCopy_memmoves willing promptEnv_serving (by decide)
    (by decide) (by decide)).resolve_left (SingleDevice.not_waits (by decide))
  refine ⟨same, willing, ⟨st, run, ?_⟩, st', run', ?_⟩
  · rw [copiesInPlace_iff same (by
      rw [moves, List.take_of_length_le (Nat.le_of_eq crossedQueue.length_pairs)]
      exact fun _ => Iff.rfl)]
    exact displaced
  · rw [copiesInPlace_iff same issued]
    exact displaced

end DsaTest
