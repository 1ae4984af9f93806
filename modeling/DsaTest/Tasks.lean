import DsaTest.Paths

/-! The variable `batch_task` of the batch module. It keeps its value over the
iterations of both loops, and every iteration ends with `kfree` of what it holds. -/
namespace DsaTest

open TaskEvent

variable {queues : List Queue} {grants : Nat → Option Grant} {st st' : SubmitState} {r k : Nat}

/-- Every task is freed once, and not touched after that. -/
def TasksOwned (events : List TaskEvent) : Prop :=
  ∀ task, alloc task ∈ events → events.count (free task) = 1 ∧
    ∀ before after, events = before ++ free task :: after →
      read task ∉ after ∧ free task ∉ after

def nentsOf (queues : List Queue) (k : Nat) : Nat :=
  (queues[k]?.map Queue.totalNents).getD 0

/-- What one visit does to the tasks: a queue of one segment has none of its own
and frees whatever the variable still holds. -/
theorem visitBatch_tasks (taken : visitBatch queues grants st (r, k) = some st') :
    (nentsOf queues k = 1 ∧ st'.batchTask = st.batchTask ∧ st'.taskCount = st.taskCount ∧
      st'.tasks = st.tasks ++ (st.batchTask.map free).toList) ∨
    (nentsOf queues k ≠ 1 ∧ st'.batchTask = some st.taskCount ∧
      st'.taskCount = st.taskCount + 1 ∧
      st'.tasks = st.tasks ++ [alloc st.taskCount, read st.taskCount, free st.taskCount]) := by
  unfold visitBatch at taken
  simp only at taken
  split at taken
  · contradiction
  · rename_i q found
    have size : nentsOf queues k = q.totalNents := by simp [nentsOf, found]
    rw [size]
    split at taken
    · rename_i single
      obtain ⟨desc, _, rfl⟩ := Option.map_eq_some_iff.mp taken
      refine .inl ⟨single, ?_⟩
      unfold freeTask
      cases st.batchTask <;> simp
    · rename_i multi
      split at taken
      · contradiction
      · contradiction
      · cases taken
        exact .inr ⟨multi, by simp [freeTask]⟩

def taskLife (task : Nat) : List TaskEvent := [alloc task, read task, free task]

theorem count_free_lives (n task : Nat) :
    ((List.range n).flatMap taskLife).count (free task) = if task < n then 1 else 0 := by
  induction n with
  | zero => simp
  | succ n ih =>
    rw [List.range_succ, List.flatMap_append, List.flatMap_singleton, List.count_append, ih]
    by_cases last : n = task
    · simp [taskLife, last]
    · have own : (taskLife n).count (free task) = 0 := by simp [taskLife, last]
      rw [own]
      split <;> split <;> omega

theorem owned_lives (n : Nat) : TasksOwned ((List.range n).flatMap taskLife) := by
  have order : ((List.range n).flatMap taskLife).Pairwise
      fun a b => ∀ task, a = free task → b ≠ read task ∧ b ≠ free task := by
    rw [List.pairwise_flatMap]
    constructor
    · intro i _
      simp [taskLife]
    · apply List.pairwise_lt_range.imp
      intro i j less a inA b inB task freed
      simp only [taskLife, List.mem_cons, List.not_mem_nil, or_false] at inA inB
      subst freed
      have same : task = i := by simpa using inA
      subst same
      rcases inB with rfl | rfl | rfl <;> simp <;> omega
  intro task allocated
  have member : task < n := by
    simp only [List.mem_flatMap, List.mem_range, taskLife] at allocated
    obtain ⟨i, below, inside⟩ := allocated
    have same : task = i := by simpa using inside
    omega
  refine ⟨by rw [count_free_lives, if_pos member], ?_⟩
  intro before after split
  rw [split, List.pairwise_append, List.pairwise_cons] at order
  have later := order.2.1.1
  exact ⟨fun again => (later _ again task rfl).1 rfl, fun again => (later _ again task rfl).2 rfl⟩

/-- No queue of one segment is visited after a queue of more. -/
def SinglesFirst (queues : List Queue) (visits : List (Nat × Nat)) : Prop :=
  visits.Pairwise fun a b => nentsOf queues a.2 ≠ 1 → nentsOf queues b.2 ≠ 1

structure TasksAfter (queues : List Queue) (before : List (Nat × Nat)) (st : SubmitState) :
    Prop where
  count : st.taskCount = before.countP (nentsOf queues ·.2 ≠ 1)
  variable_ : st.batchTask = if st.taskCount = 0 then none else some (st.taskCount - 1)
  clean : SinglesFirst queues before → st.tasks = (List.range st.taskCount).flatMap taskLife
  dirty : ¬ SinglesFirst queues before →
    ∃ task, alloc task ∈ st.tasks ∧ 2 ≤ st.tasks.count (free task)

theorem singlesFirst_append (queues : List Queue) (before : List (Nat × Nat)) (visit : Nat × Nat) :
    SinglesFirst queues (before ++ [visit]) ↔ SinglesFirst queues before ∧
      (before.countP (nentsOf queues ·.2 ≠ 1) ≠ 0 → nentsOf queues visit.2 ≠ 1) := by
  simp only [SinglesFirst, List.pairwise_append, List.pairwise_singleton, List.mem_singleton,
    forall_eq, true_and, ne_eq, List.countP_eq_zero, decide_eq_true_eq, not_forall, not_not]
  constructor
  · rintro ⟨earlier, later⟩
    exact ⟨earlier, fun ⟨a, member, multi⟩ => later a member multi⟩
  · rintro ⟨earlier, later⟩
    exact ⟨earlier, fun a member multi => later ⟨a, member, multi⟩⟩

theorem tasksAfter_visit {before : List (Nat × Nat)} (so : TasksAfter queues before st)
    (taken : visitBatch queues grants st (r, k) = some st') :
    TasksAfter queues (before ++ [(r, k)]) st' := by
  have split := singlesFirst_append queues before (r, k)
  rcases visitBatch_tasks taken with ⟨single, var, count, tasks⟩ | ⟨multi, var, count, tasks⟩
  · have total : st'.taskCount = (before ++ [(r, k)]).countP (nentsOf queues ·.2 ≠ 1) := by
      simp [count, so.count, single]
    refine ⟨total, by rw [var, count, so.variable_], ?_, ?_⟩
    · intro first
      obtain ⟨earlier, later⟩ := split.mp first
      have none_ : st.taskCount = 0 := by
        by_contra some_
        rw [so.count] at some_
        exact later some_ single
      have empty : st.batchTask = none := by rw [so.variable_, if_pos none_]
      rw [tasks, count, empty, so.clean earlier]
      simp
    · intro mixed
      by_cases earlier : SinglesFirst queues before
      · have some_ : st.taskCount ≠ 0 := by
          intro none_
          rw [so.count] at none_
          exact mixed (split.mpr ⟨earlier, fun more => absurd none_ more⟩)
        have held : st.batchTask = some (st.taskCount - 1) := by rw [so.variable_, if_neg some_]
        refine ⟨st.taskCount - 1, ?_, ?_⟩
        · rw [tasks, so.clean earlier]
          simp only [List.mem_append, List.mem_flatMap, List.mem_range, taskLife]
          exact .inl ⟨st.taskCount - 1, by omega, by simp⟩
        · rw [tasks, held, so.clean earlier, List.count_append, count_free_lives, if_pos (by omega)]
          simp
      · obtain ⟨task, allocated, twice⟩ := so.dirty earlier
        refine ⟨task, by simp [tasks, allocated], ?_⟩
        rw [tasks, List.count_append]
        omega
  · have total : st'.taskCount = (before ++ [(r, k)]).countP (nentsOf queues ·.2 ≠ 1) := by
      simp [count, so.count, multi]
    refine ⟨total, by simp [var, count], ?_, ?_⟩
    · intro first
      rw [tasks, count, so.clean (split.mp first).1, List.range_succ, List.flatMap_append,
        List.flatMap_singleton]
      rfl
    · intro mixed
      have earlier : ¬ SinglesFirst queues before :=
        fun earlier => mixed (split.mpr ⟨earlier, fun _ => multi⟩)
      obtain ⟨task, allocated, twice⟩ := so.dirty earlier
      refine ⟨task, by simp [tasks, allocated], ?_⟩
      rw [tasks, List.count_append]
      omega

theorem tasksAfter_submitAll (result : submitAll queues grants .batch = some st) :
    TasksAfter queues (submitConfig queues .batch).visits st := by
  apply Walk.foldlM_invariant (P := TasksAfter queues) ?_ ?_ result
  · exact ⟨rfl, rfl, fun _ => rfl, fun mixed => absurd List.Pairwise.nil mixed⟩
  · intro before visit after u v _ so taken
    exact tasksAfter_visit so taken

theorem mem_visits_batch : (r, k) ∈ (submitConfig queues .batch).visits ↔
    ∃ q, queues[k]? = some q ∧ r * q.wq.maxBatchSize < q.totalNents := by
  rw [Config.mem_visits]
  constructor
  · intro due
    obtain ⟨q, found, below⟩ := queue_of_due due
    exact ⟨q, found, (q.shape.lt_descsEntries_batch r).mp below⟩
  · rintro ⟨q, found, begun⟩
    rw [descsEntries_eq found]
    exact (q.shape.lt_descsEntries_batch r).mpr begun

theorem first_visit (some_ : nentsOf queues k ≠ 0) :
    (0, k) ∈ (submitConfig queues .batch).visits := by
  rw [mem_visits_batch]
  cases found : queues[k]? with
  | none => simp [nentsOf, found] at some_
  | some q =>
    refine ⟨q, rfl, ?_⟩
    have size : nentsOf queues k = q.totalNents := by simp [nentsOf, found]
    omega

theorem singlesFirst_visits : SinglesFirst queues (submitConfig queues .batch).visits ↔
    ∀ j k, j < k → 2 ≤ nentsOf queues j → nentsOf queues k ≠ 1 := by
  have order := (submitConfig queues .batch).visits_sorted
  constructor
  · intro first j k less multi single
    have member' := first_visit (show nentsOf queues j ≠ 0 by omega)
    have member := first_visit (show nentsOf queues k ≠ 0 by omega)
    obtain ⟨before, after, split⟩ := List.append_of_mem member'
    unfold SinglesFirst at first
    rw [split, List.pairwise_append, List.pairwise_cons] at first order
    rw [split, List.mem_append, List.mem_cons] at member
    rcases member with earlier | same | later
    · have wrong := order.2.2 _ earlier _ List.mem_cons_self
      unfold Config.Earlier at wrong
      omega
    · rw [Prod.mk.injEq] at same
      omega
    · exact first.2.1.1 _ later (by simp only; omega) single
  · intro apart
    apply order.imp_of_mem
    rintro ⟨r, j⟩ ⟨r', k⟩ inA inB earlier multi single
    obtain ⟨q, found, begun⟩ := mem_visits_batch.mp inA
    obtain ⟨q', found', begun'⟩ := mem_visits_batch.mp inB
    have size : nentsOf queues j = q.totalNents := by simp [nentsOf, found]
    have size' : nentsOf queues k = q'.totalNents := by simp [nentsOf, found']
    have first : r' = 0 := by
      by_contra later
      have positive := q'.wq.maxBatchSize_pos
      have grown : 1 * q'.wq.maxBatchSize ≤ r' * q'.wq.maxBatchSize :=
        Nat.mul_le_mul_right _ (by omega)
      simp only at single
      omega
    unfold Config.Earlier at earlier
    simp only at earlier multi single
    exact apart j k (by omega) (by omega) single

/-- The tasks are owned properly if and only if no queue of one segment comes
after a queue of more. -/
theorem tasks_owned_iff (result : submitAll queues grants .batch = some st) :
    TasksOwned st.tasks ↔ ∀ j k, j < k → 2 ≤ nentsOf queues j → nentsOf queues k ≠ 1 := by
  have after := tasksAfter_submitAll result
  rw [← singlesFirst_visits]
  constructor
  · intro owned
    by_contra mixed
    obtain ⟨task, allocated, twice⟩ := after.dirty mixed
    have once := (owned task allocated).1
    omega
  · intro first
    rw [after.clean first]
    exact owned_lives st.taskCount

theorem tasks_owned_single_first :
    ∃ st, submitAll [singleQueue, alignedQueue] alwaysGranted .batch = some st ∧
      TasksOwned st.tasks := by
  have reached : (submitAll [singleQueue, alignedQueue] alwaysGranted .batch).isSome := by decide
  obtain ⟨st, result⟩ := Option.isSome_iff_exists.mp reached
  refine ⟨st, result, (tasks_owned_iff result).mpr ?_⟩
  intro j k less multi
  have first : j = 1 := by
    match j with
    | 0 => exact absurd multi (by decide)
    | 1 => rfl
    | j + 2 => simp [nentsOf] at multi
  subst first
  match k with
  | 0 | 1 => omega
  | k + 2 => simp [nentsOf]

/-- The task of the first queue is freed again by the visit of the second. -/
theorem tasks_not_owned_mixed :
    ¬ ∀ (queues : List Queue) (grants : Nat → Option Grant) (st : SubmitState),
      (∀ q ∈ queues, 1 ≤ q.totalNents) → submitAll queues grants .batch = some st →
      TasksOwned st.tasks := by
  intro claim
  have reached : (submitAll [alignedQueue, singleQueue] alwaysGranted .batch).map (·.tasks) =
      some [alloc 0, read 0, free 0, free 0] := by decide
  obtain ⟨st, result, tasks⟩ := Option.map_eq_some_iff.mp reached
  have owned := claim _ _ st (by decide) result
  rw [tasks] at owned
  have once := (owned 0 (by decide)).1
  revert once
  decide

end DsaTest
