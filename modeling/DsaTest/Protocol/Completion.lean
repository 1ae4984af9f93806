import DsaTest.Protocol.Counts

/-! What `dsa_copy` may rely on when it leaves its wait on `completion_status`:
the list is empty and every entry has been answered, retired and freed once. -/
namespace DsaTest.Protocol

open Stmt Machine

variable {cfg : Config} {s t : State} {a : Action} {h : List (State × Action)}

def State.mayAppend (s : State) : Prop := s.todo ≠ [] ∨ s.main.pending ≠ []

theorem not_mayAppend_step (closed : ¬ s.mayAppend) (move : Move cfg s a t) :
    ¬ t.mayAppend ∧ t.count = s.count := by
  simp only [State.mayAppend, not_or, not_not] at closed ⊢
  obtain ⟨todo, pending⟩ := closed
  cases move
  case append at_ => simp [at_, MainPc.pending] at pending
  case mainControl control => cases control <;> simp_all [MainPc.pending]
  all_goals simp_all [MainPc.pending, acceptDesc, execStmt]

theorem not_mayAppend_run (closed : ¬ s.mayAppend) (run : Machine.Run (step cfg) s h t) :
    ¬ t.mayAppend ∧ t.count = s.count := by
  apply run.invariant (P := fun t => ¬ t.mayAppend ∧ t.count = s.count) ⟨closed, rfl⟩
  intro u a t earlier taken
  obtain ⟨closed, count⟩ := earlier
  obtain ⟨still, same⟩ := not_mayAppend_step closed (move_of_step taken)
  exact ⟨still, same.trans count⟩

structure Drained (s : State) (e : Nat) : Prop where
  answered : ∃ (status : Nat) (stmts : List Stmt), status ≠ 0 ∧
    (s.entry e).trace = .written status :: stmts.map .ran
  returned : (s.entry e).trace.count (.ran descComplete) = 1
  buffers : ∀ stmt ∈ releaseBatch true,
    (s.entry e).trace.count (.ran stmt) = if (s.entry e).batchInfo then 1 else 0
  unlinked : (s.entry e).trace.count (.ran listDel) = 1
  freed : (s.entry e).trace.count (.ran freeEntry) = 1

theorem drained_counts (v : Variant) (batchInfo : Bool) (status : Nat)
    (plain : v = .loop → batchInfo = false) :
    (branchOf v batchInfo status ++ unlinkBranch).count descComplete = 1 ∧
    (∀ stmt ∈ releaseBatch true, (branchOf v batchInfo status ++ unlinkBranch).count stmt =
      if batchInfo then 1 else 0) ∧
    (branchOf v batchInfo status ++ unlinkBranch).count listDel = 1 ∧
    (branchOf v batchInfo status ++ unlinkBranch).count freeEntry = 1 := by
  unfold branchOf
  split <;> cases v <;> cases batchInfo <;> first | decide | simp at plain

theorem batched_loop (variant : cfg.variant = .loop) (k : Nat) : cfg.batched k = false := by
  unfold Config.batched
  cases cfg.queues[k]? <;> simp [variant, Shape.batched]

theorem count_ran (status : Nat) (stmts : List Stmt) (x : Stmt) :
    (Event.written status :: stmts.map .ran).count (.ran x) = stmts.count x := by
  rw [List.count_cons_of_ne (by simp), List.count_map_of_injective _ _ (fun _ _ => by simp)]

/-- An entry that is off the list, with no statement of the thread pending, has
its whole life behind it. -/
theorem EntriesOk.done_of_unlisted (ok : EntriesOk cfg s) (idle : s.thread.worksOn = none)
    {e : Nat} (old : e < s.count) (gone : e ∉ s.idxdDescLists) :
    ∃ status, status ≠ 0 ∧ (s.entry e).trace = .written status ::
      (branchOf cfg.variant (s.entry e).batchInfo status ++ unlinkBranch).map .ran := by
  cases ok.entries e old with
  | missing _ _ _ _ here => exact absurd here gone
  | waiting _ _ _ waiting => exact absurd waiting.listed gone
  | answered d status done _ _ answered =>
    have dropped : listDel ∈ done := by
      by_contra kept
      exact gone (answered.listed.mpr kept)
    refine ⟨status, answered.final, ?_⟩
    rcases answered.settled (by simp [idle]) with rfl | rfl | rfl
    · simp at dropped
    · exact absurd dropped (mem_branchOf _ _ _).2.2.2
    · exact answered.trace

theorem drained_of_unlisted (ok : Inv cfg s) (idle : s.thread.worksOn = none)
    {e : Nat} (old : e < s.count) (gone : e ∉ s.idxdDescLists) : Drained s e := by
  obtain ⟨status, final, trace⟩ := ok.entries.done_of_unlisted idle old gone
  have plain (variant : cfg.variant = .loop) : (s.entry e).batchInfo = false := by
    rw [ok.phase.batchInfo e old, batched_loop variant]
  obtain ⟨returned, buffers, unlinked, freed⟩ :=
    drained_counts cfg.variant (s.entry e).batchInfo status plain
  refine ⟨⟨status, _, final, trace⟩, ?_, ?_, ?_, ?_⟩
  · rw [trace, count_ran, returned]
  · intro stmt member
    rw [trace, count_ran, buffers stmt member]
  · rw [trace, count_ran, unlinked]
  · rw [trace, count_ran, freed]

theorem reported_state (ok : Inv cfg s) (written : s.completionStatus ≠ 0) :
    s.main.stopped ∧ s.idxdDescLists = [] ∧ s.thread.worksOn = none := by
  have reported := ok.phase.reported.mp written
  have finished : s.thread.finished = true ∧ s.thread.worksOn = none := by
    cases th : s.thread <;>
      simp_all [ThreadPc.reported, ThreadPc.finished, ThreadPc.worksOn]
  exact ⟨(ok.phase.empty finished.1).1, (ok.phase.empty finished.1).2, finished.2⟩

theorem queued_all (ok : Inv cfg s) (left : s.main.left) :
    s.queued = cfg.visits.map Prod.snd := by
  have schedule := ok.phase.schedule
  have pending : s.main.pending = [] := by
    cases at_ : s.main <;> simp_all [MainPc.left, MainPc.pending]
  simpa [ok.phase.left left, pending] using schedule

theorem completionStatus_eq_two (ok : Inv cfg s) (written : s.completionStatus ≠ 0) :
    s.completionStatus = 2 ↔
      ∃ e < s.count, ∃ status, .written status ∈ (s.entry e).trace ∧ 1 < status := by
  obtain ⟨_, empty, idle⟩ := reported_state ok written
  rw [ok.phase.result written]
  have error : (if s.completionError then 2 else 1) = 2 ↔ s.completionError = true := by
    split <;> simp_all
  rw [error, ok.counts.errors]
  constructor
  · rintro ⟨e, member⟩
    obtain ⟨old, ran⟩ := mem_ranOn.mp member
    obtain ⟨status, final, trace⟩ := ok.entries.done_of_unlisted idle old (by simp [empty])
    refine ⟨e, old, status, by simp [trace], ?_⟩
    have other : status ≠ 1 := by
      simpa [trace, setError_mem_branchOf, unlinkBranch] using ran
    omega
  · rintro ⟨e, old, status, member, high⟩
    obtain ⟨status', final, trace⟩ := ok.entries.done_of_unlisted idle old (by simp [empty])
    have same : status = status' := by simpa [trace] using member
    refine ⟨e, mem_ranOn.mpr ⟨old, ?_⟩⟩
    simp [trace, setError_mem_branchOf, ← same, Nat.ne_of_gt high]

theorem unlinking_of_executing (ok : EntriesOk cfg s) {pos : Nat} {stmt : Stmt}
    (executing : s.thread.executing = some (pos, stmt)) (drops : stmt ∈ unlinkBranch) :
    s.thread.unlinking = true := by
  cases th : s.thread
  case unlink => rfl
  case retire pos' n rest =>
    obtain ⟨d, status, done, _, _, answered⟩ := ok.answered_of_trace
      (ok.here pos' (by simp [th, ThreadPc.current])).1 (ok.worked pos' (by simp [th, ThreadPc.worksOn]))
    have progress := answered.progress
    cases rest with
    | nil => simp [th, ThreadPc.executing] at executing
    | cons stmt' rest =>
      simp only [th, ThreadPc.executing, Option.some.injEq, Prod.mk.injEq] at executing
      obtain ⟨rfl, rfl⟩ := executing
      simp only [Progress, th, ThreadPc.worksOn, ThreadPc.remaining, ThreadPc.unlinking,
        ↓reduceIte, Bool.false_eq_true, List.append_nil] at progress
      have member : stmt' ∈ branchOf cfg.variant (s.entry pos').batchInfo status :=
        progress ▸ by simp
      have nodup := life_nodup cfg.variant (s.entry pos').batchInfo status
      exact absurd rfl ((List.nodup_append.mp nodup).2.2 stmt' member stmt' drops)
  all_goals simp [th, ThreadPc.executing] at executing

def twoQueues : Config := ⟨.batch, [⟨3, 3, 2, 8, by decide⟩, ⟨1, 1, 2, 8, by decide⟩]⟩

def drainActions : List Action :=
  [.allocDesc 0, .main, .main, .main, .main, .main, .allocDesc 0, .main, .main, .main,
    .allocDesc 1, .main, .main, .main, .main, .thread, .thread, .main, .main,
    .device (0, 1) 1, .device (1, 0) 3, .device (0, 0) 1] ++ List.replicate 51 .thread ++ [.main]

def copyActions : List Action :=
  [.allocDesc 0, .main, .main, .main, .main, .main, .main, .thread, .thread, .main, .main,
    .device (0, 0) 1] ++ List.replicate 16 .thread ++ [.main]

end DsaTest.Protocol
