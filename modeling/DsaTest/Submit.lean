import DsaTest.Schedule
import DsaTest.Descriptor
import DsaTest.Lib.Walk
import Mathlib.Logic.Function.Basic

/-! The submission loop of `dsa_copy` in both N-DSA modules: cursors, descriptors
handed to the queues and, in the batch module, the variable `batch_task`. -/
namespace DsaTest

/-- A mapped `struct sg_table`: the chain from `sgl` and how much of it is mapped. -/
structure MappedTable where
  sgl : List Segment
  nents : Nat
  nents_le : nents ≤ sgl.length := by decide

def MappedTable.segments (table : MappedTable) : List Segment := table.sgl.take table.nents

structure Queue where
  wq : IdxdWq
  src : MappedTable
  dst : MappedTable

namespace Queue

def shape (q : Queue) : Shape where
  srcNents := q.src.nents
  dstNents := q.dst.nents
  maxBatchSize := q.wq.maxBatchSize
  numDescs := q.wq.numDescs
  maxBatchSize_pos := q.wq.maxBatchSize_pos

def totalNents (q : Queue) : Nat := q.shape.totalNents

def pairs (q : Queue) : List (Segment × Segment) := q.src.segments.zip q.dst.segments

theorem totalNents_le (q : Queue) :
    q.totalNents ≤ q.src.sgl.length ∧ q.totalNents ≤ q.dst.sgl.length := by
  have src := q.src.nents_le
  have dst := q.dst.nents_le
  rw [totalNents, Shape.totalNents_eq_min]
  simp only [shape]
  omega

theorem length_pairs (q : Queue) : q.pairs.length = q.totalNents := by
  have src := q.src.nents_le
  have dst := q.dst.nents_le
  rw [totalNents, Shape.totalNents_eq_min]
  simp only [pairs, MappedTable.segments, List.length_zip, List.length_take, shape]
  omega

theorem pairs_chunk (q : Queue) {c e : Nat} (inside : c + e ≤ q.totalNents) :
    (q.pairs.drop c).take e = ((q.src.sgl.drop c).take e).zip ((q.dst.sgl.drop c).take e) := by
  rw [totalNents, Shape.totalNents_eq_min] at inside
  simp only [shape] at inside
  have cut (l : List Segment) (n : Nat) (room : c + e ≤ n) :
      ((l.take n).drop c).take e = (l.drop c).take e := by
    rw [List.drop_take, List.take_take, Nat.min_eq_left (by omega)]
  unfold pairs MappedTable.segments
  rw [List.zip_eq_zipWith, List.zip_eq_zipWith, List.drop_zipWith, List.take_zipWith, cut _ _ (by omega),
    cut _ _ (by omega)]

theorem pair_at (q : Queue) {c : Nat} (below : c < q.totalNents) :
    ∃ s d, q.src.sgl.drop c = s :: q.src.sgl.drop (c + 1) ∧
      q.dst.sgl.drop c = d :: q.dst.sgl.drop (c + 1) ∧
      (q.pairs.drop c).take 1 = [(s, d)] ∧ (s, d) ∈ q.pairs := by
  have room := q.totalNents_le
  have srcs := List.drop_eq_getElem_cons (show c < q.src.sgl.length by omega)
  have dsts := List.drop_eq_getElem_cons (show c < q.dst.sgl.length by omega)
  have chunk := q.pairs_chunk (c := c) (e := 1) (by omega)
  rw [srcs, dsts, List.take_succ_cons, List.take_succ_cons, List.take_zero, List.take_zero,
    List.zip_cons_cons, List.zip_nil_left] at chunk
  refine ⟨_, _, srcs, dsts, chunk, ?_⟩
  apply List.mem_of_mem_drop (i := c)
  apply List.mem_of_mem_take (i := 1)
  rw [chunk]
  exact List.mem_singleton_self _

end Queue

/-- What `idxd_submit_desc` receives. -/
inductive Handed
  | plain (desc : IdxdDesc)
  | batch (desc : IdxdDesc) (info : BatchInfo)

def Handed.memmoves : Handed → List Memmove
  | .plain desc => desc.hw.memmove?.toList
  | .batch _ info => info.subHwDescs.filterMap HwDesc.memmove?

/-- What happens to the batch tasks, numbered in the order of their allocation. -/
inductive TaskEvent
  | alloc (task : Nat)
  | read (task : Nat)
  | free (task : Nat)
  deriving DecidableEq, Repr

structure SubmitState where
  sgSrcs : Nat → List Segment
  sgDsts : Nat → List Segment
  handed : List (Nat × Handed)
  batchTask : Option Nat
  taskCount : Nat
  tasks : List TaskEvent

def copyFlags : Nat := opFlagRcr ||| opFlagCrav ||| opFlagCc ||| opFlagBof

section

variable (queues : List Queue) (grants : Nat → Option Grant)

def submitConfig (variant : Variant) : Config := ⟨variant, queues.map Queue.shape⟩

def submitInitial : SubmitState where
  sgSrcs := fun k => (queues[k]?.map (·.src.sgl)).getD []
  sgDsts := fun k => (queues[k]?.map (·.dst.sgl)).getD []
  handed := []
  batchTask := none
  taskCount := 0
  tasks := []

def plainDesc (q : Queue) (st : SubmitState) (k : Nat) : Option IdxdDesc :=
  match st.sgDsts k, st.sgSrcs k with
  | dst :: _, src :: _ =>
    idxdDescDmaSubmitMemcpy q.wq (grants st.handed.length) dst.address src.address
      (min src.length dst.length) copyFlags
  | _, _ => none

/-- The body of the two loops in `kernel_test_sgtable.c`, with `none` for a
dereference of `NULL`. -/
def visitLoop (st : SubmitState) (visit : Nat × Nat) : Option SubmitState :=
  let k := visit.2
  match queues[k]? with
  | none => none
  | some q =>
    (plainDesc grants q st k).map fun desc =>
      { st with
        handed := st.handed ++ [(k, .plain desc)]
        sgDsts := Function.update st.sgDsts k (st.sgDsts k).tail
        sgSrcs := Function.update st.sgSrcs k (st.sgSrcs k).tail }

/-- `if (batch_task) kfree(batch_task);` -/
def freeTask (st : SubmitState) : SubmitState :=
  match st.batchTask with
  | none => st
  | some task => { st with tasks := st.tasks ++ [.free task] }

/-- The body of the two loops in `kernel_test_sgtable_batch.c`. -/
def visitBatch (st : SubmitState) (visit : Nat × Nat) : Option SubmitState :=
  let (curEnt, k) := visit
  match queues[k]? with
  | none => none
  | some q =>
    if q.totalNents = 1 then
      (plainDesc grants q st k).map fun desc =>
        freeTask { st with handed := st.handed ++ [(k, .plain desc)] }
    else
      let leftEnts := q.totalNents - curEnt * q.wq.maxBatchSize
      let batchSize := if leftEnts > q.wq.maxBatchSize then q.wq.maxBatchSize else leftEnts
      match idxdDescDmaSubmitMemcpySg q.wq (grants st.handed.length) (st.sgDsts k) (st.sgSrcs k)
          batchSize copyFlags with
      | .null | .oops => none
      | .made task =>
        some (freeTask { st with
          batchTask := some st.taskCount
          taskCount := st.taskCount + 1
          tasks := st.tasks ++ [.alloc st.taskCount, .read st.taskCount]
          sgDsts := Function.update st.sgDsts k task.nextSgDst
          sgSrcs := Function.update st.sgSrcs k task.nextSgSrc
          handed := st.handed ++ [(k, .batch task.desc task.batchInfo)] })

def visitQueue : Variant → SubmitState → Nat × Nat → Option SubmitState
  | .loop => visitLoop queues grants
  | .batch => visitBatch queues grants

def submitRounds (variant : Variant) (rounds : Nat) : Option SubmitState :=
  ((submitConfig queues variant).visitsUpTo rounds).foldlM (visitQueue queues grants variant)
    (submitInitial queues)

/-- The whole submission loop, with `none` where it dereferences `NULL`. -/
def submitAll (variant : Variant) : Option SubmitState :=
  (submitConfig queues variant).visits.foldlM (visitQueue queues grants variant)
    (submitInitial queues)

end

def SubmitState.memmovesOf (st : SubmitState) (k : Nat) : List Memmove :=
  (st.handed.filter (·.1 = k)).flatMap (·.2.memmoves)

def SubmitState.handedTo (st : SubmitState) (k : Nat) : List Handed :=
  (st.handed.filter (·.1 = k)).map Prod.snd

theorem SubmitState.memmovesOf_eq (st : SubmitState) (k : Nat) :
    st.memmovesOf k = (st.handedTo k).flatMap Handed.memmoves := by
  rw [handedTo, List.flatMap_map]
  rfl

theorem memmovesOf_append (st : SubmitState) (j k : Nat) (handed : Handed) :
    ((st.handed ++ [(j, handed)]).filter (·.1 = k)).flatMap (·.2.memmoves) =
      st.memmovesOf k ++ if j = k then handed.memmoves else [] := by
  unfold SubmitState.memmovesOf
  rw [List.filter_append, List.flatMap_append]
  split <;> simp_all

@[simp] theorem freeTask_handed (st : SubmitState) : (freeTask st).handed = st.handed := by
  unfold freeTask
  split <;> rfl

@[simp] theorem freeTask_sgSrcs (st : SubmitState) : (freeTask st).sgSrcs = st.sgSrcs := by
  unfold freeTask
  split <;> rfl

@[simp] theorem freeTask_sgDsts (st : SubmitState) : (freeTask st).sgDsts = st.sgDsts := by
  unfold freeTask
  split <;> rfl

theorem visitQueue_handed {queues : List Queue} {grants : Nat → Option Grant} {variant : Variant}
    {st st' : SubmitState} {visit : Nat × Nat}
    (taken : visitQueue queues grants variant st visit = some st') :
    ∃ handed, st'.handed = st.handed ++ [(visit.2, handed)] := by
  cases variant with
  | loop =>
    simp only [visitQueue, visitLoop] at taken
    split at taken
    · contradiction
    · obtain ⟨desc, _, rfl⟩ := Option.map_eq_some_iff.mp taken
      exact ⟨.plain desc, rfl⟩
  | batch =>
    simp only [visitQueue, visitBatch] at taken
    split at taken
    · contradiction
    · split at taken
      · obtain ⟨desc, _, rfl⟩ := Option.map_eq_some_iff.mp taken
        exact ⟨.plain desc, by simp⟩
      · split at taken
        · contradiction
        · contradiction
        · rename_i task _
          cases taken
          exact ⟨.batch task.desc task.batchInfo, by simp⟩

theorem submitAll_queues {queues : List Queue} {grants : Nat → Option Grant} {variant : Variant}
    {st : SubmitState} (result : submitAll queues grants variant = some st) :
    st.handed.map Prod.fst = (submitConfig queues variant).visits.map Prod.snd := by
  apply Walk.foldlM_invariant (P := fun before st => st.handed.map Prod.fst = before.map Prod.snd)
    rfl ?_ result
  intro before visit after u v _ so taken
  obtain ⟨handed, grown⟩ := visitQueue_handed taken
  rw [grown, List.map_append, List.map_append, so]
  rfl

section

variable {queues : List Queue} {grants : Nat → Option Grant} {variant : Variant}
  {st st' : SubmitState} {q : Queue} {k r : Nat}

structure Untouched (st st' : SubmitState) (k : Nat) : Prop where
  srcs : st'.sgSrcs k = st.sgSrcs k
  dsts : st'.sgDsts k = st.sgDsts k
  moves : st'.memmovesOf k = st.memmovesOf k

theorem memmovesOf_other {handed : Handed} {j : Nat} (other : k ≠ j)
    (grown : st'.handed = st.handed ++ [(j, handed)]) : st'.memmovesOf k = st.memmovesOf k := by
  have grow := memmovesOf_append st j k handed
  rw [if_neg (Ne.symm other), List.append_nil, ← grown] at grow
  exact grow

theorem memmovesOf_own {handed : Handed} (grown : st'.handed = st.handed ++ [(k, handed)]) :
    st'.memmovesOf k = st.memmovesOf k ++ handed.memmoves := by
  have grow := memmovesOf_append st k k handed
  rw [if_pos rfl, ← grown] at grow
  exact grow

theorem visitQueue_other {j : Nat} (taken : visitQueue queues grants variant st (r, j) = some st')
    (other : k ≠ j) : Untouched st st' k := by
  obtain ⟨handed, grown⟩ := visitQueue_handed taken
  have moves := memmovesOf_other other grown
  cases variant with
  | loop =>
    simp only [visitQueue, visitLoop] at taken
    split at taken
    · contradiction
    · obtain ⟨desc, _, rfl⟩ := Option.map_eq_some_iff.mp taken
      exact ⟨Function.update_of_ne other _ _, Function.update_of_ne other _ _, moves⟩
  | batch =>
    simp only [visitQueue, visitBatch] at taken
    split at taken
    · contradiction
    · split at taken
      · obtain ⟨desc, _, rfl⟩ := Option.map_eq_some_iff.mp taken
        exact ⟨by simp, by simp, moves⟩
      · split at taken
        · contradiction
        · contradiction
        · cases taken
          exact ⟨by simp [other], by simp [other], moves⟩

theorem queue_of_due (due : r < (submitConfig queues variant).descsEntries k) :
    ∃ q, queues[k]? = some q ∧ r < q.shape.descsEntries variant := by
  simp only [Config.descsEntries, submitConfig, List.getElem?_map, Option.map_map] at due
  cases found : queues[k]? with
  | none => simp [found] at due
  | some q => exact ⟨q, rfl, by simpa [found] using due⟩

theorem descsEntries_eq (found : queues[k]? = some q) :
    (submitConfig queues variant).descsEntries k = q.shape.descsEntries variant := by
  simp [Config.descsEntries, submitConfig, found]

end

end DsaTest
