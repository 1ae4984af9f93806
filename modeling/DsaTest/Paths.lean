import DsaTest.Cuts

/-! The memmoves that each queue receives in the loop module and in the batch
module, and when the two sequences agree. -/
namespace DsaTest

variable {queues : List Queue} {grants : Nat → Option Grant} {variant : Variant}
  {st st' : SubmitState} {q : Queue} {k r n : Nat}

/-- The rule for the two nested loops: what each visit does for its own queue,
and no visit undoes for another, holds for all queues after all their visits. -/
theorem submitAll_served (variant : Variant) {P : Queue → SubmitState → Nat → Nat → Prop}
    (start : ∀ k q, queues[k]? = some q → P q (submitInitial queues) k 0)
    (other : ∀ {q st st' k n}, Untouched st st' k → P q st k n → P q st' k n)
    (visit : ∀ st r k q, queues[k]? = some q → r < q.shape.descsEntries variant → P q st k r →
      ∃ st', visitQueue queues grants variant st (r, k) = some st' ∧ P q st' k (r + 1)) :
    ∃ st, submitAll queues grants variant = some st ∧
      ∀ k q, queues[k]? = some q → P q st k (q.shape.descsEntries variant) := by
  have served : ∃ st, submitAll queues grants variant = some st ∧
      ∀ k q, queues[k]? = some q →
        P q st k ((submitConfig queues variant).visits.countP (·.2 = k)) := by
    unfold submitAll
    apply Walk.foldlM_succeeds (P := fun (before : List (Nat × Nat)) st =>
      ∀ k q, queues[k]? = some q → P q st k (before.countP (·.2 = k)))
    · exact start
    · intro before visited after st split so
      obtain ⟨r, k⟩ := visited
      have due := Config.mem_visits (submitConfig queues variant) |>.mp
        (show (r, k) ∈ (submitConfig queues variant).visits by simp [split])
      obtain ⟨q, found, below⟩ := queue_of_due due
      have count := Config.countP_visitsUpTo _ split
      have own := so k q found
      rw [count] at own
      obtain ⟨st', taken, now⟩ := visit st r k q found below own
      refine ⟨st', taken, ?_⟩
      intro k' q' found'
      rw [List.countP_append, List.countP_singleton]
      by_cases same : k' = k
      · subst same
        rw [found, Option.some.injEq] at found'
        subst found'
        rw [count]
        simpa using now
      · have kept := other (visitQueue_other taken same) (so k' q' found')
        simpa [Ne.symm same] using kept
  obtain ⟨st, result, so⟩ := served
  refine ⟨st, result, ?_⟩
  intro k q found
  have own := so k q found
  rwa [Config.countP_visits_all, descsEntries_eq found] at own

structure Willing (q : Queue) : Prop where
  enabled : q.wq.enabled = true
  fits : ∀ p ∈ q.pairs, min p.1.length p.2.length ≤ q.wq.maxXferBytes

theorem plainDesc_eq (willing : Willing q) (granted : ∀ i, grants i ≠ none)
    (below : n < q.totalNents) (srcs : st.sgSrcs k = q.src.sgl.drop n)
    (dsts : st.sgDsts k = q.dst.sgl.drop n) :
    ∃ desc, plainDesc grants q st k = some desc ∧
      desc.hw.memmove?.toList = ((q.pairs.drop n).take 1).map minMove := by
  obtain ⟨g, grant⟩ := Option.ne_none_iff_exists'.mp (granted st.handed.length)
  have ⟨s, d, atSrc, atDst, chunk, member⟩ := q.pair_at below
  unfold plainDesc
  rw [srcs, dsts, grant, atSrc, atDst]
  refine ⟨_, idxdDescDmaSubmitMemcpy_eq willing.enabled (willing.fits _ member) g _ _ _, ?_⟩
  rw [chunk]
  rfl

structure LoopServed (q : Queue) (st : SubmitState) (k n : Nat) : Prop where
  srcs : st.sgSrcs k = q.src.sgl.drop n
  dsts : st.sgDsts k = q.dst.sgl.drop n
  moves : st.memmovesOf k = (q.pairs.take n).map minMove

theorem loop_visit (found : queues[k]? = some q) (willing : Willing q)
    (granted : ∀ i, grants i ≠ none) (below : r < q.totalNents) (served : LoopServed q st k r) :
    ∃ st', visitQueue queues grants .loop st (r, k) = some st' ∧ LoopServed q st' k (r + 1) := by
  obtain ⟨desc, made, move⟩ := plainDesc_eq willing granted below served.srcs served.dsts
  simp only [visitQueue, visitLoop, found, made, Option.map_some]
  refine ⟨_, rfl, ?_, ?_, ?_⟩
  · simp only [Function.update_self]
    rw [served.srcs, List.tail_drop]
  · simp only [Function.update_self]
    rw [served.dsts, List.tail_drop]
  · rw [memmovesOf_own rfl, served.moves, Handed.memmoves, move, ← List.map_append,
      ← List.take_add]

theorem submitAll_loop (willing : ∀ q ∈ queues, Willing q) (granted : ∀ i, grants i ≠ none) :
    ∃ st, submitAll queues grants .loop = some st ∧
      ∀ k q, queues[k]? = some q → LoopServed q st k q.totalNents := by
  apply submitAll_served .loop (P := LoopServed)
  · intro k q found
    exact ⟨by simp [submitInitial, found], by simp [submitInitial, found],
      by simp [submitInitial, SubmitState.memmovesOf]⟩
  · intro q st st' k n same served
    exact ⟨same.srcs.trans served.srcs, same.dsts.trans served.dsts, same.moves.trans served.moves⟩
  · intro st r k q found below served
    exact loop_visit found (willing q (List.mem_of_getElem? found)) granted below served

structure BatchServed (q : Queue) (st : SubmitState) (k n : Nat) : Prop where
  srcs : st.sgSrcs k = q.src.sgl.drop (q.batchCursor n)
  dsts : st.sgDsts k = q.dst.sgl.drop (q.batchCursor n)
  moves : st.memmovesOf k = (q.pairs.take (n * q.wq.maxBatchSize)).map q.batchMove

theorem Willing.creates (willing : Willing q) {grant : Option Grant} (granted : grant ≠ none) :
    Creates q grant :=
  ⟨willing.enabled, granted, fun _ => willing.fits⟩

theorem creates_of_willing (willing : ∀ q ∈ queues, Willing q) (granted : ∀ i, grants i ≠ none)
    (i : Nat) (visit : Nat × Nat) (due : (submitConfig queues .batch).visits[i]? = some visit) :
    CreatesAt queues grants i visit := by
  have ⟨q, found, _⟩ := queue_of_due (Config.mem_visits _ |>.mp (List.mem_of_getElem? due))
  exact ⟨q, found, (willing q (List.mem_of_getElem? found)).creates (granted i)⟩

theorem submitAll_batch (willing : ∀ q ∈ queues, Willing q) (granted : ∀ i, grants i ≠ none) :
    ∃ st, submitAll queues grants .batch = some st ∧
      ∀ k q, queues[k]? = some q → BatchServed q st k (q.shape.descsEntries .batch) := by
  have ⟨st, result, reached⟩ := submit_reaches (List.append_nil _).symm
    (creates_of_willing willing granted)
  refine ⟨st, result, ?_⟩
  intro k q found
  have bound := (submitConfig queues .batch).descsEntries_le_maxEnts k
  rw [descsEntries_eq found] at bound
  have cursors := reached.cursors k q found
  rw [Config.countP_visitsUpTo_all, descsEntries_eq found, Nat.min_eq_right bound] at cursors
  have moves := Reached.memmovesOf reached found
  rw [Nat.min_eq_right bound] at moves
  exact ⟨cursors.srcs, cursors.dsts, moves⟩

/-- Both modules hand every queue its pairs in order. They agree on a queue
exactly where the batch builder, which reads the destination's length alone,
takes the length that the loop takes. -/
theorem paths_agree_iff (grants grants' : Nat → Option Grant)
    (willing : ∀ q ∈ queues, Willing q) (granted : ∀ i, grants i ≠ none)
    (granted' : ∀ i, grants' i ≠ none) :
    ∃ loop batch, submitAll queues grants .loop = some loop ∧
      submitAll queues grants' .batch = some batch ∧
      ∀ k q, queues[k]? = some q →
        (batch.memmovesOf k = loop.memmovesOf k ↔
          q.totalNents ≤ 1 ∨ ∀ p ∈ q.pairs, p.2.length ≤ p.1.length) := by
  obtain ⟨loop, ranLoop, servedLoop⟩ := submitAll_loop willing granted
  obtain ⟨batch, ranBatch, servedBatch⟩ := submitAll_batch willing granted'
  refine ⟨loop, batch, ranLoop, ranBatch, ?_⟩
  intro k q found
  have size := q.length_pairs
  rw [(servedLoop k q found).moves, (servedBatch k q found).moves, q.batchMoves_whole,
    List.take_of_length_le (Nat.le_of_eq size)]
  by_cases single : q.totalNents = 1
  · simp [Queue.batchMove, single]
  · simp only [Queue.batchMove, single, ↓reduceIte, List.map_inj_left]
    have same (p : Segment × Segment) : dstMove p = minMove p ↔ p.2.length ≤ p.1.length := by
      simp [dstMove, minMove]
    simp only [same]
    constructor
    · exact fun shorter => .inr shorter
    · rintro (empty | shorter)
      · have none : q.pairs = [] := List.eq_nil_of_length_eq_zero (by omega)
        simp [none]
      · exact shorter

def alignedQueue : Queue :=
  pairedQueue { sgl := [⟨0x10000, 4096⟩, ⟨0x20000, 8192⟩], nents := 2 }
    { sgl := [⟨0x50000, 4096⟩, ⟨0x60000, 8192⟩], nents := 2 }

theorem paths_agree_aligned :
    ∃ loop batch, submitAll [alignedQueue] alwaysGranted .loop = some loop ∧
      submitAll [alignedQueue] alwaysGranted .batch = some batch ∧
      batch.memmovesOf 0 = loop.memmovesOf 0 := by
  have willing : ∀ q ∈ [alignedQueue], Willing q := by
    simp only [List.mem_singleton, forall_eq]
    exact ⟨rfl, by decide⟩
  obtain ⟨loop, batch, ranLoop, ranBatch, agree⟩ :=
    paths_agree_iff alwaysGranted alwaysGranted willing (by simp [alwaysGranted])
      (by simp [alwaysGranted])
  exact ⟨loop, batch, ranLoop, ranBatch, (agree 0 alignedQueue rfl).mpr (by decide)⟩

def crossedQueue : Queue :=
  pairedQueue { sgl := [⟨0x10000, 4096⟩, ⟨0x20000, 8192⟩], nents := 2 }
    { sgl := [⟨0x50000, 8192⟩, ⟨0x60000, 4096⟩], nents := 2 }

/-- The batch reads 8192 bytes from a source segment of 4096. -/
theorem paths_disagree_crossed :
    ¬ ∀ (queues : List Queue) (grants : Nat → Option Grant), (∀ q ∈ queues, Willing q) →
      (∀ i, grants i ≠ none) → ∀ k,
        (submitAll queues grants .batch).map (·.memmovesOf k) =
          (submitAll queues grants .loop).map (·.memmovesOf k) := by
  intro claim
  have willing : ∀ q ∈ [crossedQueue], Willing q := by
    simp only [List.mem_singleton, forall_eq]
    exact ⟨rfl, by decide⟩
  have agree := claim [crossedQueue] alwaysGranted willing (by simp [alwaysGranted]) 0
  revert agree
  decide

end DsaTest
