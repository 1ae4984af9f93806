import DsaTest.Submit
import Mathlib.Data.List.Forall2

/-! How the batch module cuts the list of every queue: the piece of each visit, the
descriptor created for it, and what holds after any part of the submission loop. -/
namespace DsaTest

variable {queues : List Queue} {grants : Nat → Option Grant} {st st' : SubmitState} {q : Queue}
  {k r rounds : Nat} {before after : List (Nat × Nat)}

/-- The memmove of a pair in the loop module, and for a list of one segment. -/
def minMove (p : Segment × Segment) : Memmove :=
  ⟨p.1.address, p.2.address, min p.1.length p.2.length⟩

/-- The memmove of a pair in a batch. -/
def dstMove (p : Segment × Segment) : Memmove := ⟨p.1.address, p.2.address, p.2.length⟩

namespace Queue

/-- Where the cursors of a queue stand after `n` visits in the batch module; the
branch for a list of one segment does not move them. -/
def batchCursor (q : Queue) (n : Nat) : Nat :=
  if q.totalNents = 1 then 0 else min (n * q.wq.maxBatchSize) q.totalNents

def batchMove (q : Queue) : Segment × Segment → Memmove :=
  if q.totalNents = 1 then minMove else dstMove

/-- The pairs that the batch module takes in round `i`. -/
def cut (q : Queue) (i : Nat) : List (Segment × Segment) :=
  (q.pairs.drop (i * q.wq.maxBatchSize)).take q.wq.maxBatchSize

theorem length_cut (q : Queue) (i : Nat) :
    (q.cut i).length = min q.wq.maxBatchSize (q.totalNents - i * q.wq.maxBatchSize) := by
  rw [cut, List.length_take, List.length_drop, q.length_pairs]

theorem batchCursor_single (single : q.totalNents = 1) (n : Nat) : q.batchCursor n = 0 := by
  simp [batchCursor, single]

theorem batchCursor_several (several : q.totalNents ≠ 1) (n : Nat) :
    q.batchCursor n = min (n * q.wq.maxBatchSize) q.totalNents := by
  simp [batchCursor, several]

theorem round_eq_zero (single : q.totalNents = 1) (below : r * q.wq.maxBatchSize < q.totalNents) :
    r = 0 := by
  by_contra later
  have positive := q.wq.maxBatchSize_pos
  have grown : 1 * q.wq.maxBatchSize ≤ r * q.wq.maxBatchSize := Nat.mul_le_mul_right _ (by omega)
  omega

theorem pair_single (single : q.totalNents = 1) :
    ∃ s d srcs dsts, q.src.sgl = s :: srcs ∧ q.dst.sgl = d :: dsts ∧ q.pairs = [(s, d)] ∧
      q.cut 0 = [(s, d)] := by
  have ⟨s, d, srcs, dsts, chunk, _⟩ := q.pair_at (show 0 < q.totalNents by omega)
  rw [List.drop_zero] at srcs dsts chunk
  have positive := q.wq.maxBatchSize_pos
  have whole (n : Nat) (enough : 0 < n) : q.pairs.take n = q.pairs := by
    apply List.take_of_length_le
    rw [q.length_pairs]
    omega
  rw [whole 1 Nat.one_pos] at chunk
  refine ⟨s, d, _, _, srcs, dsts, chunk, ?_⟩
  rw [cut, Nat.zero_mul, List.drop_zero, whole _ positive, chunk]

end Queue

/-- What a creation for a queue needs in order not to return `NULL`. Only the
branch for one segment looks at the transfer limit. -/
structure Creates (q : Queue) (grant : Option Grant) : Prop where
  enabled : q.wq.enabled = true
  granted : grant ≠ none
  fits : q.totalNents = 1 → ∀ p ∈ q.pairs, min p.1.length p.2.length ≤ q.wq.maxXferBytes

/-- What a queue receives in round `i`. -/
inductive Cut (q : Queue) (i : Nat) : Handed → Prop
  | plain {desc p} : q.totalNents = 1 → q.cut i = [p] → desc.hw.operation = .memmove (minMove p) →
      Cut q i (.plain desc)
  | batch {desc info addr} : q.totalNents ≠ 1 → desc.hw.operation = .batch addr (q.cut i).length →
      info.subHwDescs.map HwDesc.memmove? = (q.cut i).map (some ∘ dstMove) →
      Cut q i (.batch desc info)

theorem Cut.memmoves {i : Nat} {handed : Handed} (piece : Cut q i handed) :
    handed.memmoves = (q.cut i).map q.batchMove := by
  cases piece with
  | plain single pair operation =>
    simp [Handed.memmoves, HwDesc.memmove?, operation, pair, Queue.batchMove, single]
  | @batch desc info addr several operation subs =>
    calc (Handed.batch desc info).memmoves
        = (info.subHwDescs.map HwDesc.memmove?).filterMap id := by
          rw [List.filterMap_map]
          rfl
      _ = (q.cut i).map q.batchMove := by
          rw [subs, List.filterMap_map]
          simp [Queue.batchMove, several]

structure Cursors (q : Queue) (st : SubmitState) (k n : Nat) : Prop where
  srcs : st.sgSrcs k = q.src.sgl.drop (q.batchCursor n)
  dsts : st.sgDsts k = q.dst.sgl.drop (q.batchCursor n)

theorem plainDesc_single (single : q.totalNents = 1) (cursors : Cursors q st k r) :
    ∃ p, q.pairs = [p] ∧ q.cut 0 = [p] ∧ plainDesc grants q st k =
      idxdDescDmaSubmitMemcpy q.wq (grants st.handed.length) p.2.address p.1.address
        (min p.1.length p.2.length) copyFlags := by
  have ⟨s, d, srcs, dsts, atSrc, atDst, pairs, piece⟩ := Queue.pair_single single
  have src := cursors.srcs
  have dst := cursors.dsts
  rw [Queue.batchCursor_single single, List.drop_zero] at src dst
  refine ⟨(s, d), pairs, piece, ?_⟩
  rw [plainDesc, src, dst, atSrc, atDst]

theorem visit_single (found : queues[k]? = some q) (single : q.totalNents = 1)
    (cursors : Cursors q st k 0) (creates : Creates q (grants st.handed.length)) :
    ∃ handed st', visitBatch queues grants st (0, k) = some st' ∧
      st'.handed = st.handed ++ [(k, handed)] ∧ Cut q 0 handed ∧ Cursors q st' k 1 := by
  have ⟨g, grant⟩ := Option.ne_none_iff_exists'.mp creates.granted
  have ⟨p, pairs, piece, created⟩ : ∃ p, q.pairs = [p] ∧ q.cut 0 = [p] ∧ plainDesc grants q st k =
      idxdDescDmaSubmitMemcpy q.wq (grants st.handed.length) p.2.address p.1.address
        (min p.1.length p.2.length) copyFlags := plainDesc_single single cursors
  have fits := creates.fits single p (by simp [pairs])
  rw [grant, idxdDescDmaSubmitMemcpy_eq creates.enabled fits] at created
  simp only [visitBatch, found, single, created, Option.map_some, ↓reduceIte]
  refine ⟨_, _, rfl, freeTask_handed _, .plain single piece rfl, ?_, ?_⟩
  · rw [freeTask_sgSrcs, cursors.srcs, Queue.batchCursor_single single,
      Queue.batchCursor_single single]
  · rw [freeTask_sgDsts, cursors.dsts, Queue.batchCursor_single single,
      Queue.batchCursor_single single]

theorem batch_made (enabled : q.wq.enabled = true) (several : q.totalNents ≠ 1)
    (below : r * q.wq.maxBatchSize < q.totalNents) (g : Grant) :
    ∃ task, idxdDescDmaSubmitMemcpySg q.wq (some g) (q.dst.sgl.drop (q.batchCursor r))
        (q.src.sgl.drop (q.batchCursor r))
        (if q.totalNents - r * q.wq.maxBatchSize > q.wq.maxBatchSize then q.wq.maxBatchSize
          else q.totalNents - r * q.wq.maxBatchSize) copyFlags = .made task ∧
      task.nextSgSrc = q.src.sgl.drop (q.batchCursor (r + 1)) ∧
      task.nextSgDst = q.dst.sgl.drop (q.batchCursor (r + 1)) ∧
      Cut q r (.batch task.desc task.batchInfo) := by
  have room := q.totalNents_le
  generalize size : (if q.totalNents - r * q.wq.maxBatchSize > q.wq.maxBatchSize
    then q.wq.maxBatchSize else q.totalNents - r * q.wq.maxBatchSize) = e
  have length : (q.cut r).length = e := by
    rw [q.length_cut]
    split at size <;> omega
  have fits : r * q.wq.maxBatchSize + e ≤ q.totalNents := by
    split at size <;> omega
  have next : r * q.wq.maxBatchSize + e = q.batchCursor (r + 1) := by
    rw [Queue.batchCursor_several several, Nat.succ_mul]
    split at size <;> omega
  have chunk : q.cut r = ((q.src.sgl.drop (r * q.wq.maxBatchSize)).take e).zip
      ((q.dst.sgl.drop (r * q.wq.maxBatchSize)).take e) := by
    rw [← q.pairs_chunk fits, Queue.cut, List.take_eq_take_iff, List.length_drop, q.length_pairs]
    split at size <;> omega
  rw [Queue.batchCursor_several several, Nat.min_eq_left (by omega)]
  have ⟨task, made, srcs, dsts, operation, _, subs⟩ := idxdDescDmaSubmitMemcpySg_eq enabled g
    (show e ≤ (q.dst.sgl.drop (r * q.wq.maxBatchSize)).length by rw [List.length_drop]; omega)
    (show e ≤ (q.src.sgl.drop (r * q.wq.maxBatchSize)).length by rw [List.length_drop]; omega)
    copyFlags
  refine ⟨task, made, ?_, ?_, .batch several (by rw [operation, length]) ?_⟩
  · rw [srcs, List.drop_drop, next]
  · rw [dsts, List.drop_drop, next]
  · rw [subs, chunk, List.zipWith_comm, List.zip_eq_zipWith, List.map_zipWith]
    rfl

theorem visit_several (found : queues[k]? = some q) (several : q.totalNents ≠ 1)
    (below : r * q.wq.maxBatchSize < q.totalNents) (cursors : Cursors q st k r)
    (creates : Creates q (grants st.handed.length)) :
    ∃ handed st', visitBatch queues grants st (r, k) = some st' ∧
      st'.handed = st.handed ++ [(k, handed)] ∧ Cut q r handed ∧ Cursors q st' k (r + 1) := by
  have ⟨g, grant⟩ := Option.ne_none_iff_exists'.mp creates.granted
  have ⟨task, made, srcs, dsts, piece⟩ := batch_made creates.enabled several below g
  rw [← cursors.srcs, ← cursors.dsts] at made
  simp only [visitBatch, found, several, ↓reduceIte, grant, made]
  refine ⟨_, _, rfl, freeTask_handed _, piece, ?_, ?_⟩
  · simp only [freeTask_sgSrcs, Function.update_self]
    exact srcs
  · simp only [freeTask_sgDsts, Function.update_self]
    exact dsts

theorem visit_cut (found : queues[k]? = some q) (below : r * q.wq.maxBatchSize < q.totalNents)
    (cursors : Cursors q st k r) (creates : Creates q (grants st.handed.length)) :
    ∃ handed st', visitBatch queues grants st (r, k) = some st' ∧
      st'.handed = st.handed ++ [(k, handed)] ∧ Cut q r handed ∧ Cursors q st' k (r + 1) := by
  by_cases single : q.totalNents = 1
  · have first := Queue.round_eq_zero single below
    subst first
    exact visit_single found single cursors creates
  · exact visit_several found single below cursors creates

theorem creates_of_visit (found : queues[k]? = some q) (cursors : Cursors q st k r)
    (taken : visitBatch queues grants st (r, k) = some st') :
    Creates q (grants st.handed.length) := by
  simp only [visitBatch, found] at taken
  split at taken
  next single =>
    obtain ⟨desc, made, _⟩ := Option.map_eq_some_iff.mp taken
    obtain ⟨p, pairs, _, created⟩ : ∃ p, q.pairs = [p] ∧ q.cut 0 = [p] ∧ plainDesc grants q st k =
        idxdDescDmaSubmitMemcpy q.wq (grants st.handed.length) p.2.address p.1.address
          (min p.1.length p.2.length) copyFlags := plainDesc_single single cursors
    rw [created, idxdDescDmaSubmitMemcpy] at made
    split at made
    next => contradiction
    next enabled =>
      split at made
      next => contradiction
      next short =>
        obtain ⟨g, grant, _⟩ := Option.map_eq_some_iff.mp made
        refine ⟨by simpa using enabled, by simp [grant], fun _ => ?_⟩
        rw [pairs, List.forall_mem_singleton]
        exact Nat.le_of_not_lt short
  next several =>
    split at taken
    next => contradiction
    next => contradiction
    next task made =>
      unfold idxdDescDmaSubmitMemcpySg at made
      split at made
      next => contradiction
      next enabled =>
        split at made
        next => contradiction
        next g grant => exact ⟨by simpa using enabled, by simp [grant], fun single => absurd single several⟩

/-- Creation number `i` of the loop, for the visit it is made in, succeeds. -/
def CreatesAt (queues : List Queue) (grants : Nat → Option Grant) (i : Nat) (visit : Nat × Nat) :
    Prop :=
  ∃ q, queues[visit.2]? = some q ∧ Creates q (grants i)

structure Reached (queues : List Queue) (grants : Nat → Option Grant) (before : List (Nat × Nat))
    (st : SubmitState) : Prop where
  cursors : ∀ k q, queues[k]? = some q → Cursors q st k (before.countP (·.2 = k))
  handed : List.Forall₂ (fun visit p => p.1 = visit.2 ∧ ∃ q, queues[visit.2]? = some q ∧
    Cut q visit.1 p.2) before st.handed
  creates : ∀ i visit, before[i]? = some visit → CreatesAt queues grants i visit

theorem reached_initial (queues : List Queue) (grants : Nat → Option Grant) :
    Reached queues grants [] (submitInitial queues) where
  cursors k q found := by
    have start : q.batchCursor 0 = 0 := by simp [Queue.batchCursor]
    simp only [List.countP_nil]
    exact ⟨by simp [submitInitial, found, start], by simp [submitInitial, found, start]⟩
  handed := .nil
  creates := by simp

theorem Reached.next {visit : Nat × Nat} (reached : Reached queues grants before st)
    (split : (submitConfig queues .batch).visitsUpTo rounds = before ++ visit :: after) :
    ∃ q, queues[visit.2]? = some q ∧ visit.1 * q.wq.maxBatchSize < q.totalNents ∧
      Cursors q st visit.2 visit.1 ∧ st.handed.length = before.length := by
  have due := Config.mem_visitsUpTo (submitConfig queues .batch) |>.mp
    (show visit ∈ (submitConfig queues .batch).visitsUpTo rounds by simp [split])
  have ⟨q, found, begun⟩ := queue_of_due due.2
  have cursors := reached.cursors visit.2 q found
  rw [Config.countP_visitsUpTo _ split] at cursors
  exact ⟨q, found, (q.shape.lt_descsEntries_batch _).mp begun, cursors, reached.handed.length_eq.symm⟩

theorem Reached.visit {visit : Nat × Nat} (reached : Reached queues grants before st)
    (split : (submitConfig queues .batch).visitsUpTo rounds = before ++ visit :: after)
    (taken : visitBatch queues grants st visit = some st') :
    Reached queues grants (before ++ [visit]) st' := by
  have ⟨q, found, below, cursors, length⟩ := reached.next split
  have creates := creates_of_visit found cursors taken
  have ⟨handed, st'', taken', grown, piece, moved⟩ := visit_cut found below cursors creates
  rw [taken, Option.some.injEq] at taken'
  subst taken'
  rw [length] at creates
  exact
    { cursors := by
        intro k q' found'
        rw [List.countP_append, List.countP_singleton]
        by_cases here : k = visit.2
        · subst here
          rw [found, Option.some.injEq] at found'
          subst found'
          rw [Config.countP_visitsUpTo _ split]
          simpa using moved
        · have same := visitQueue_other
            (show visitQueue queues grants .batch st visit = some st' from taken) here
          have kept := reached.cursors k q' found'
          simpa [Ne.symm here] using
            (⟨same.srcs.trans kept.srcs, same.dsts.trans kept.dsts⟩ : Cursors q' st' k _)
      handed := by
        rw [grown]
        exact List.rel_append reached.handed (.cons ⟨rfl, q, found, piece⟩ .nil)
      creates := by
        intro i visit' at_
        by_cases old : i < before.length
        · rw [List.getElem?_append_left old] at at_
          exact reached.creates i visit' at_
        · have last : i = before.length ∧ visit' = visit := by
            rw [List.getElem?_append_right (by omega), List.getElem?_singleton] at at_
            split at at_
            next zero => exact ⟨by omega, by simpa using at_.symm⟩
            next => contradiction
          rw [last.1, last.2]
          exact ⟨q, found, creates⟩ }

theorem reached_of_submit
    (split : (submitConfig queues .batch).visitsUpTo rounds = before ++ after)
    (result : before.foldlM (visitBatch queues grants) (submitInitial queues) = some st) :
    Reached queues grants before st := by
  apply Walk.foldlM_invariant (P := Reached queues grants) (reached_initial queues grants) ?_ result
  intro earlier visit later u v parts reached taken
  rw [parts, List.append_assoc, List.cons_append] at split
  exact reached.visit split taken

theorem submit_reaches
    (split : (submitConfig queues .batch).visitsUpTo rounds = before ++ after)
    (creates : ∀ i visit, before[i]? = some visit → CreatesAt queues grants i visit) :
    ∃ st, before.foldlM (visitBatch queues grants) (submitInitial queues) = some st ∧
      Reached queues grants before st := by
  apply Walk.foldlM_succeeds (P := Reached queues grants) (reached_initial queues grants)
  intro earlier visit later u parts reached
  rw [parts, List.append_assoc, List.cons_append] at split
  have ⟨q, found, below, cursors, length⟩ := reached.next split
  have ⟨q', found', succeeds⟩ := creates earlier.length visit (by simp [parts])
  rw [found, Option.some.injEq] at found'
  subst found'
  rw [← length] at succeeds
  have ⟨_, v, taken, _⟩ := visit_cut found below cursors succeeds
  exact ⟨v, taken, reached.visit split taken⟩

/-- The descriptors of a queue are its pieces, in order. -/
theorem Reached.handedTo (reached : Reached queues grants
    ((submitConfig queues .batch).visitsUpTo rounds) st) (found : queues[k]? = some q) :
    List.Forall₂ (Cut q) (List.range (min rounds (q.shape.descsEntries .batch)))
      (st.handedTo k) := by
  have kept := List.rel_filter (p := fun visit : Nat × Nat => decide (visit.2 = k))
    (q := fun p : Nat × Handed => decide (p.1 = k)) (by
      intro visit p same
      simp [same.1]) reached.handed
  rw [Config.filter_visitsUpTo, descsEntries_eq found, List.forall₂_map_left_iff] at kept
  rw [SubmitState.handedTo, List.forall₂_map_right_iff]
  apply kept.imp
  intro i p same
  obtain ⟨_, q', found', piece⟩ := same
  rw [found, Option.some.injEq] at found'
  subst found'
  exact piece

theorem Reached.memmovesOf (reached : Reached queues grants
    ((submitConfig queues .batch).visitsUpTo rounds) st) (found : queues[k]? = some q) :
    st.memmovesOf k = (q.pairs.take
      (min rounds (q.shape.descsEntries .batch) * q.wq.maxBatchSize)).map q.batchMove := by
  have pieces := reached.handedTo found
  generalize min rounds (q.shape.descsEntries .batch) = n at pieces ⊢
  have moves : (st.handedTo k).map Handed.memmoves =
      (List.range n).map fun i => (q.cut i).map q.batchMove := by
    rw [← List.forall₂_eq_eq_eq, List.forall₂_map_left_iff, List.forall₂_map_right_iff]
    exact pieces.flip.imp fun handed i piece => piece.memmoves
  calc st.memmovesOf k = ((st.handedTo k).map Handed.memmoves).flatten := by
        rw [st.memmovesOf_eq, List.flatMap_def]
    _ = ((List.range n).flatMap q.cut).map q.batchMove := by
        rw [moves, List.map_flatMap, List.flatMap_def]
    _ = (q.pairs.take (n * q.wq.maxBatchSize)).map q.batchMove := by
        rw [← Walk.flatMap_chunks]
        rfl

structure RoundsServed (q : Queue) (st : SubmitState) (k rounds : Nat) : Prop where
  pieces : List.Forall₂ (Cut q) (List.range (min rounds (q.shape.descsEntries .batch)))
    (st.handedTo k)
  sizes : ∀ i < min rounds (q.shape.descsEntries .batch),
    1 ≤ (q.cut i).length ∧ (q.cut i).length ≤ q.wq.maxBatchSize
  covered : (List.range (min rounds (q.shape.descsEntries .batch))).flatMap q.cut =
    q.pairs.take (min (rounds * q.wq.maxBatchSize) q.totalNents)
  srcs : st.sgSrcs k = q.src.sgl.drop
    (if q.totalNents = 1 then 0 else min (rounds * q.wq.maxBatchSize) q.totalNents)
  dsts : st.sgDsts k = q.dst.sgl.drop
    (if q.totalNents = 1 then 0 else min (rounds * q.wq.maxBatchSize) q.totalNents)

theorem Queue.totalNents_le_mul (q : Queue) :
    q.totalNents ≤ q.shape.descsEntries .batch * q.wq.maxBatchSize := by
  have begun := q.shape.lt_descsEntries_batch (q.shape.descsEntries .batch)
  exact Nat.le_of_not_lt fun short => Nat.lt_irrefl _ (begun.mpr short)

theorem Queue.batchMoves_whole (q : Queue) :
    q.pairs.take (q.shape.descsEntries .batch * q.wq.maxBatchSize) = q.pairs := by
  apply List.take_of_length_le
  rw [q.length_pairs]
  exact q.totalNents_le_mul

theorem Queue.min_rounds_mul (q : Queue) (rounds : Nat) :
    min (min rounds (q.shape.descsEntries .batch) * q.wq.maxBatchSize) q.totalNents =
      min (rounds * q.wq.maxBatchSize) q.totalNents := by
  have begun : rounds < q.shape.descsEntries .batch ↔ rounds * q.wq.maxBatchSize < q.totalNents :=
    q.shape.lt_descsEntries_batch rounds
  by_cases due : rounds < q.shape.descsEntries .batch
  · rw [Nat.min_eq_left (Nat.le_of_lt due)]
  · rw [Nat.min_eq_right (Nat.le_of_not_lt due), Nat.min_eq_right q.totalNents_le_mul,
      Nat.min_eq_right (Nat.le_of_not_lt (mt begun.mpr due))]

theorem Queue.sizes_cut (q : Queue) {i : Nat} (due : i < q.shape.descsEntries .batch) :
    1 ≤ (q.cut i).length ∧ (q.cut i).length ≤ q.wq.maxBatchSize := by
  have begun : i * q.wq.maxBatchSize < q.totalNents := (q.shape.lt_descsEntries_batch i).mp due
  have positive := q.wq.maxBatchSize_pos
  rw [q.length_cut]
  omega

theorem Reached.served (reached : Reached queues grants
    ((submitConfig queues .batch).visitsUpTo rounds) st) (found : queues[k]? = some q) :
    RoundsServed q st k rounds := by
  have cursors := reached.cursors k q found
  rw [Config.countP_visitsUpTo_all, descsEntries_eq found] at cursors
  have place : q.batchCursor (min rounds (q.shape.descsEntries .batch)) =
      if q.totalNents = 1 then 0 else min (rounds * q.wq.maxBatchSize) q.totalNents := by
    rw [Queue.batchCursor, q.min_rounds_mul]
  exact
    { pieces := reached.handedTo found
      sizes := fun i due => q.sizes_cut (Nat.lt_of_lt_of_le due (Nat.min_le_right _ _))
      covered := by
        have chunks := Walk.flatMap_chunks q.pairs (min rounds (q.shape.descsEntries .batch))
          q.wq.maxBatchSize
        rw [show (List.range (min rounds (q.shape.descsEntries .batch))).flatMap q.cut = _ from chunks,
          List.take_eq_take_iff, q.length_pairs, q.min_rounds_mul]
        omega
      srcs := by rw [← place, cursors.srcs]
      dsts := by rw [← place, cursors.dsts] }

/-- The rounds of the batch module cut every list in order, a piece in each round
until it is used up. The branch for a list of one segment, which takes its only
piece in the first round, leaves the cursors on it. -/
theorem rounds_exact (rounds : Nat)
    (creates : ∀ i visit, (submitConfig queues .batch).visits[i]? = some visit →
      CreatesAt queues grants i visit) :
    ∃ st, submitRounds queues grants .batch rounds = some st ∧
      (∀ k q, queues[k]? = some q → RoundsServed q st k rounds) ∧
      ((submitConfig queues .batch).maxEnts ≤ rounds →
        submitAll queues grants .batch = some st ∧ ∀ k q, queues[k]? = some q →
          (st.handedTo k).length = q.shape.descsEntries .batch ∧
          (List.range (st.handedTo k).length).flatMap q.cut = q.pairs) := by
  have ⟨later, whole⟩ := (submitConfig queues .batch).visits_eq_append rounds
  have begun : ∀ i visit, ((submitConfig queues .batch).visitsUpTo rounds)[i]? = some visit →
      CreatesAt queues grants i visit := by
    intro i visit at_
    apply creates i visit
    have ⟨inside, _⟩ := List.getElem?_eq_some_iff.mp at_
    rw [whole, List.getElem?_append_left inside, at_]
  have ⟨st, result, reached⟩ := submit_reaches (List.append_nil _).symm begun
  have served (k : Nat) (q : Queue) (found : queues[k]? = some q) : RoundsServed q st k rounds :=
    reached.served found
  refine ⟨st, result, served, ?_⟩
  intro enough
  rw [Config.visitsUpTo_eq_visits _ enough] at result
  refine ⟨result, ?_⟩
  intro k q found
  have bound := (submitConfig queues .batch).descsEntries_le_maxEnts k
  rw [descsEntries_eq found] at bound
  have length := (served k q found).pieces.length_eq
  rw [List.length_range, Nat.min_eq_right (bound.trans enough)] at length
  refine ⟨length.symm, ?_⟩
  rw [← length, ← q.batchMoves_whole]
  exact Walk.flatMap_chunks _ _ _

def pairedQueue (src dst : MappedTable) : Queue where
  wq := { enabled := true, maxXferBytes := 16384, maxBatchSize := 2, numDescs := 4, complSize := 32,
          pasid := none, maxBatchSize_pos := Nat.two_pos }
  src := src
  dst := dst

def alwaysGranted : Nat → Option Grant := fun i => some ⟨i, 0, 0, 0⟩

def singleQueue : Queue :=
  pairedQueue { sgl := [⟨0x10000, 4096⟩], nents := 1 } { sgl := [⟨0x50000, 4096⟩], nents := 1 }

def threeSegmentQueue : Queue :=
  pairedQueue { sgl := [⟨0x10000, 4096⟩, ⟨0x20000, 4096⟩, ⟨0x30000, 4096⟩], nents := 3 }
    { sgl := [⟨0x50000, 4096⟩, ⟨0x60000, 4096⟩, ⟨0x70000, 4096⟩], nents := 3 }

theorem creates_alwaysGranted {i : Nat} (enabled : q.wq.enabled = true)
    (fits : ∀ p ∈ q.pairs, min p.1.length p.2.length ≤ q.wq.maxXferBytes) :
    Creates q (alwaysGranted i) :=
  ⟨enabled, by simp [alwaysGranted], fun _ => fits⟩

theorem rounds_exact_uneven :
    ∃ st, submitRounds [singleQueue, threeSegmentQueue] alwaysGranted .batch 2 = some st ∧
      RoundsServed threeSegmentQueue st 1 2 := by
  have creates : ∀ i visit,
      (submitConfig [singleQueue, threeSegmentQueue] .batch).visits[i]? = some visit →
      CreatesAt [singleQueue, threeSegmentQueue] alwaysGranted i visit := by
    intro i visit due
    have ⟨q, found, _⟩ := queue_of_due (Config.mem_visits _ |>.mp (List.mem_of_getElem? due))
    refine ⟨q, found, ?_⟩
    have member := List.mem_of_getElem? found
    simp only [List.mem_cons, List.not_mem_nil, or_false] at member
    cases member with
    | inl here => exact here ▸ creates_alwaysGranted rfl (by decide)
    | inr here => exact here ▸ creates_alwaysGranted rfl (by decide)
  have ⟨st, result, served, _⟩ := rounds_exact 2 creates
  exact ⟨st, result, served 1 threeSegmentQueue rfl⟩

/-- After the only visit of a list of one segment its cursors still stand on that segment. -/
theorem cursor_not_moved_one_page :
    ¬ ∀ (queues : List Queue) (grants : Nat → Option Grant),
      (∀ i visit, (submitConfig queues .batch).visits[i]? = some visit →
        CreatesAt queues grants i visit) →
      ∀ rounds st, submitRounds queues grants .batch rounds = some st →
      ∀ k q, queues[k]? = some q →
        st.sgSrcs k = q.src.sgl.drop (min (rounds * q.wq.maxBatchSize) q.totalNents) ∧
        st.sgDsts k = q.dst.sgl.drop (min (rounds * q.wq.maxBatchSize) q.totalNents) := by
  intro claim
  have creates : ∀ i visit, (submitConfig [singleQueue] .batch).visits[i]? = some visit →
      CreatesAt [singleQueue] alwaysGranted i visit := by
    intro i visit due
    have ⟨q, found, _⟩ := queue_of_due (Config.mem_visits _ |>.mp (List.mem_of_getElem? due))
    have here : q = singleQueue := by simpa using List.mem_of_getElem? found
    exact ⟨q, found, here ▸ creates_alwaysGranted rfl (by decide)⟩
  have run : (submitRounds [singleQueue] alwaysGranted .batch 1).map (·.sgSrcs 0) =
      some [⟨0x10000, 4096⟩] := by decide
  have ⟨st, result, cursor⟩ := Option.map_eq_some_iff.mp run
  have moved := (claim [singleQueue] alwaysGranted creates 1 st result 0 singleQueue rfl).1
  rw [cursor] at moved
  revert moved
  decide

end DsaTest
