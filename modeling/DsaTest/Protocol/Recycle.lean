import DsaTest.Protocol.Pool

/-! What the thread reads of a completion record after it has given the descriptor back,
while `dsa_copy` may already have taken the descriptor again. -/
namespace DsaTest.Protocol

open Stmt Machine

variable {cfg : Config} {s t : State} {a : Action} {h : List (State × Action)}

/-- The next statement of the thread reads the completion record for entry `pos`: a test of
`status`, or one of the two `pr_info`. -/
def ThreadPc.Reads (th : ThreadPc) (pos : Nat) : Prop :=
  th.testing = some pos ∨ th.executing = some (pos, reportStatus) ∨
    th.executing = some (pos, reportResult)

/-- The thread reads a completion record only before it has returned the descriptor. -/
def ReadsOwn (h : List (State × Action)) : Prop :=
  ∀ p ∈ h, p.2 = .thread → ∀ pos, p.1.thread.Reads pos →
    .ran descComplete ∉ (p.1.entry pos).trace

def NoErrorFound (h : List (State × Action)) : Prop :=
  ∀ p ∈ h, p.2 = .thread → ∀ pos n d, p.1.thread = .testError pos n →
    (p.1.entry pos).desc = some d → p.1.status d ≤ 1

def Silent (s : State) : Prop :=
  reportStatus ∉ s.thread.remaining ∧ reportResult ∉ s.thread.remaining

theorem advanceTo_remaining (l : List Nat) (n : Option Nat) : (advanceTo l n).remaining = [] := by
  cases n <;> rfl

theorem silent_successBranch (v : Variant) (batchInfo : Bool) :
    reportStatus ∉ successBranch v batchInfo ∧ reportResult ∉ successBranch v batchInfo := by
  cases v <;> cases batchInfo <;> decide

theorem silent_step (silent : Silent s)
    (noError : a = .thread → ∀ pos n d, s.thread = .testError pos n → (s.entry pos).desc = some d →
      s.status d ≤ 1) (taken : step cfg s a = some t) : Silent t := by
  have move := move_of_step taken
  unfold Silent at silent ⊢
  cases move
  case retire pos n stmt rest at_ | unlink pos n stmt rest at_ =>
    simp only [at_, ThreadPc.remaining, List.mem_cons, not_or] at silent ⊢
    exact ⟨silent.1.2, silent.2.2⟩
  case threadControl pc control =>
    cases control
    case success => exact silent_successBranch _ _
    case error pos n d at_ desc found =>
      have bound := noError rfl pos n d at_ desc
      omega
    case drop => simp [ThreadPc.remaining, unlinkBranch]
    case scan | advance => simp [advanceTo_remaining]
    all_goals simp [ThreadPc.remaining]
  case setWakeup | setStatus | clearWakeup => simp [ThreadPc.remaining]
  all_goals exact silent

theorem EntriesOk.unreturned_of_testing (ok : EntriesOk cfg s) {pos : Nat}
    (testing : s.thread.testing = some pos) : .ran descComplete ∉ (s.entry pos).trace := by
  have at_ : s.thread.current = some pos ∧ s.thread.worksOn ≠ some pos := by
    cases th : s.thread <;> simp_all [ThreadPc.testing, ThreadPc.current, ThreadPc.worksOn]
  cases ok.entries pos (ok.here pos at_.1).1 with
  | missing _ trace => simp [trace]
  | waiting _ _ _ waiting => simp [waiting.trace]
  | answered d status done _ _ answered =>
    rw [answered.trace, answered.done_of_unmarked at_.2 (ok.testing pos testing)]
    simp

theorem executing_remaining {th : ThreadPc} {pos : Nat} {stmt : Stmt}
    (executing : th.executing = some (pos, stmt)) :
    th.worksOn = some pos ∧ th.current = some pos ∧ ∃ rest, th.remaining = stmt :: rest := by
  cases th
  case retire pos' n rest | unlink pos' n rest =>
    cases rest with
    | nil => simp [ThreadPc.executing] at executing
    | cons stmt' rest =>
      simp_all [ThreadPc.executing, ThreadPc.worksOn, ThreadPc.remaining, ThreadPc.current]
  all_goals simp [ThreadPc.executing] at executing

theorem readsOwn_of_noErrorFound (run : Run cfg h s) (noError : NoErrorFound h) :
    ReadsOwn h ∧ Silent s := by
  induction run with
  | start => exact ⟨by simp [ReadsOwn], by simp [Silent, initial, ThreadPc.remaining]⟩
  | @next h s a t before taken ih =>
    obtain ⟨here, earlier⟩ := List.forall_mem_cons.mp noError
    obtain ⟨reads, silent⟩ := ih earlier
    refine ⟨?_, silent_step silent here taken⟩
    unfold ReadsOwn
    rw [List.forall_mem_cons]
    refine ⟨?_, reads⟩
    intro _ pos reading
    have quiet {stmt : Stmt} (executing : s.thread.executing = some (pos, stmt)) :
        stmt ∈ s.thread.remaining := by
      obtain ⟨_, _, rest, remaining⟩ := executing_remaining executing
      rw [remaining]
      exact List.mem_cons_self
    cases reading with
    | inl testing => exact (inv_of_run before).entries.unreturned_of_testing testing
    | inr printing =>
      cases printing with
      | inl status => exact absurd (quiet status) silent.1
      | inr result => exact absurd (quiet result) silent.2

theorem done_of_reportStatus (v : Variant) (batchInfo : Bool) (status : Nat) {done rest : List Stmt}
    {unlinking : Bool} (fresh : reportStatus ∉ done)
    (progress : done ++ reportStatus :: rest =
      branchOf v batchInfo status ++ if unlinking then unlinkBranch else []) :
    descComplete ∈ done := by
  have first : done = (done ++ reportStatus :: rest).takeWhile (· ≠ reportStatus) := by
    rw [List.takeWhile_append_of_pos]
    · simp
    · intro stmt inside
      simp only [ne_eq, decide_eq_true_eq]
      intro same
      exact fresh (same ▸ inside)
  have prints : reportStatus ∈ branchOf v batchInfo status ++ if unlinking then unlinkBranch else [] := by
    rw [← progress]
    simp
  rw [first, progress]
  revert prints
  unfold branchOf
  split <;> cases v <;> cases batchInfo <;> cases unlinking <;> decide

/-- A record that has been printed has been read after its return. -/
theorem read_late (run : Run cfg h s) {e : Nat} (printed : e ∈ s.ranOn reportStatus) : ¬ ReadsOwn h := by
  induction run with
  | start => simp [State.ranOn, initial, blankEntry] at printed
  | @next h s a t before taken ih =>
    intro own
    obtain ⟨here, earlier⟩ := List.forall_mem_cons.mp own
    have ok := (inv_of_run before).entries
    have old : e ∉ s.ranOn reportStatus := fun printed => ih printed earlier
    cases counters_cases ok (move_of_step taken) with
    | inl same =>
      rw [same.1] at printed
      exact old printed
    | inr ran =>
      obtain ⟨pos, stmt, thread, executing, ranOn, _⟩ := ran
      rw [ranOn] at printed
      split at printed
      next same =>
        have now : e = pos := (Finset.mem_insert.mp printed).resolve_right old
        subst same now
        obtain ⟨working, current, rest, remaining⟩ := executing_remaining executing
        obtain ⟨d, status, done, _, _, answered⟩ :=
          ok.answered_of_trace (ok.here e current).1 (ok.worked e working)
        have progress := answered.progress
        rw [Progress, if_pos working, remaining] at progress
        have returned : descComplete ∈ done :=
          done_of_reportStatus _ _ _ (answered.fresh working remaining) progress
        apply here thread e (.inr (.inl executing))
        rw [answered.trace]
        simpa using returned
      next => exact old printed

def Printing (e : Nat) (s : State) : Prop :=
  s.thread.worksOn = some e ∧ reportStatus ∈ s.thread.remaining ∨ e ∈ s.ranOn reportStatus

theorem printing_step {e : Nat} (ok : Inv cfg s) (printing : Printing e s)
    (taken : step cfg s a = some t) : Printing e t := by
  have move := move_of_step taken
  have kept (printed : e ∈ s.ranOn reportStatus) : e ∈ t.ranOn reportStatus := by
    cases counters_cases ok.entries move with
    | inl same => rwa [same.1]
    | inr ran =>
      have ⟨pos, stmt, _, _, ranOn, _⟩ := ran
      rw [ranOn]
      split
      next => exact Finset.mem_insert_of_mem printed
      next => exact printed
  cases printing with
  | inr printed => exact .inr (kept printed)
  | inl ahead =>
    have ⟨working, prints⟩ := ahead
    have now {stmt : Stmt} {rest : List Stmt} (remaining : s.thread.remaining = stmt :: rest)
        (left : t.thread.worksOn = some e ∧ t.thread.remaining = rest)
        (ran : e ∈ t.ranOn stmt) : Printing e t := by
      rw [remaining, List.mem_cons] at prints
      cases prints with
      | inl same => exact .inr (same ▸ ran)
      | inr later => exact .inl ⟨left.1, left.2.symm ▸ later⟩
    cases move
    case retire pos n stmt rest at_ | unlink pos n stmt rest at_ =>
      have same : pos = e := by simpa [at_, ThreadPc.worksOn] using working
      subst same
      have old := (ok.entries.here pos (by simp [at_, ThreadPc.current])).1
      have ran : pos ∈ (execStmt s pos stmt).ranOn stmt := by
        rw [ranOn_exec old, if_pos rfl]
        exact Finset.mem_insert_self _ _
      exact now (by simp [at_, ThreadPc.remaining]) ⟨rfl, rfl⟩ ran
    case threadControl control =>
      cases control <;> simp_all [ThreadPc.worksOn, ThreadPc.remaining]
    case setWakeup at_ | setStatus at_ | clearWakeup at_ => simp [at_, ThreadPc.worksOn] at working
    all_goals exact .inl ⟨working, prints⟩

theorem noErrorFound_of_readsOwn (run : Run cfg h s) (idle : s.thread.worksOn = none)
    (own : ReadsOwn h) : NoErrorFound h := by
  intro p member thread pos n d testing desc
  by_contra found
  have make : ∀ s a t, Inv cfg s → (a = .thread ∧ s.thread = .testError pos n ∧
      (s.entry pos).desc = some d ∧ 1 < s.status d) → step cfg s a = some t → Printing pos t := by
    intro s a t _ ⟨thread, testing, desc, found⟩ taken
    subst thread
    simp only [step, threadStep, testing, desc, if_pos found] at taken
    cases taken
    left
    refine ⟨rfl, ?_⟩
    show reportStatus ∈ errorBranch cfg.variant (s.entry pos).batchInfo
    unfold errorBranch
    split
    next => decide
    next => exact List.mem_append_left _ (by decide)
  have keep : ∀ s a t, Inv cfg s → Inv cfg t → Printing pos s → step cfg s a = some t →
      Printing pos t := fun _ _ _ ok _ => printing_step ok
  have printing : Printing pos s :=
    run.established inv_of_run make keep member ⟨thread, testing, desc, Nat.lt_of_not_le found⟩
  cases printing with
  | inl working =>
    rw [idle] at working
    cases working.1
  | inr printed => exact read_late run printed own

theorem noErrorFound_of_answers (run : Run cfg h s)
    (success : ∀ p ∈ h, ∀ d status, p.2 = .device d status → status ≤ 1) :
    NoErrorFound h ∧ ∀ d, s.status d ≤ 1 := by
  induction run with
  | start => exact ⟨by simp [NoErrorFound], by simp [initial]⟩
  | @next h s a t before taken ih =>
    obtain ⟨here, earlier⟩ := List.forall_mem_cons.mp success
    obtain ⟨noError, bound⟩ := ih earlier
    constructor
    · unfold NoErrorFound
      rw [List.forall_mem_cons]
      exact ⟨fun _ _ _ d _ _ => bound d, noError⟩
    · intro d
      cases move_of_step taken
      case alloc k _ index _ _ _ _ =>
        simp only [Function.update_apply]
        split
        next => exact Nat.zero_le 1
        next => exact bound d
      case answer d' status _ _ =>
        simp only [Function.update_apply]
        split
        next => exact here d' status rfl
        next => exact bound d
      all_goals exact bound d

/-- The thread reads no record of a returned descriptor exactly where it finds no error;
from right to left in every run, from left to right where it is between two visits. -/
theorem reads_own_iff (run : Run cfg h s) :
    (NoErrorFound h → ReadsOwn h) ∧ (s.thread.worksOn = none → ReadsOwn h → NoErrorFound h) :=
  ⟨fun noError => (readsOwn_of_noErrorFound run noError).1, noErrorFound_of_readsOwn run⟩

def successActions : List Action :=
  [.allocDesc 0, .main, .main, .main, .main, .main, .thread, .thread, .thread, .thread, .thread,
    .device (0, 0) 1, .thread, .thread, .thread, .thread, .thread, .thread]

theorem reads_own_success : ∃ h s, Run smallPool h s ∧ ReadsOwn h ∧ s.pollEntry = 1 := by
  have reached : (exec (step smallPool) successActions (initial smallPool)).map State.pollEntry =
      some 1 := by decide +kernel
  have ⟨s, result, counted⟩ := Option.map_eq_some_iff.mp reached
  have ⟨h, run, labels⟩ := run_of_exec result
  have success : ∀ p ∈ h, ∀ d status, p.2 = .device d status → status ≤ 1 := by
    intro p member
    have label : p.2 ∈ h.map Prod.snd := List.mem_map_of_mem member
    rw [labels, List.mem_reverse] at label
    intro d status same
    rw [same] at label
    have ⟨_, one⟩ : d = (0, 0) ∧ status = 1 := by simpa [successActions] using label
    omega
  exact ⟨h, s, run, (reads_own_iff run).1 (noErrorFound_of_answers run success).1, counted⟩

def recycleActions : List Action :=
  [.allocDesc 0, .main, .main, .main, .main, .main, .thread, .thread, .thread, .thread, .thread,
    .device (0, 0) 3, .thread, .thread, .thread, .thread, .thread, .allocDesc 0]

theorem reads_recycled :
    (¬ ∀ (cfg : Config) (h : List (State × Action)) (s : State), Run cfg h s → ReadsOwn h) ∧
    ¬ ∀ (cfg : Config) (h : List (State × Action)) (s : State), Run cfg h s → ∀ pos d status,
      s.thread.executing = some (pos, reportStatus) → (s.entry pos).desc = some d →
      .written status ∈ (s.entry pos).trace → s.status d = status := by
  have reached : (exec (step smallPool) recycleActions (initial smallPool)).map
      (fun s => (s.thread, (s.entry 0).trace, (s.entry 0).desc, s.status (0, 0))) =
      some (.retire 0 none [reportStatus, reportResult, pollIncr],
        [.written 3, .ran setError, .ran setCompletion, .ran descComplete], some (0, 0), 0) := by
    decide +kernel
  have ⟨s, result, shape⟩ := Option.map_eq_some_iff.mp reached
  have ⟨h, run, _⟩ := run_of_exec result
  simp only [Prod.mk.injEq] at shape
  have ⟨at_, trace, desc, status⟩ := shape
  have executing : s.thread.executing = some (0, reportStatus) := by simp [at_, ThreadPc.executing]
  constructor
  · intro claim
    have taken : step smallPool s .thread =
        some { execStmt s 0 reportStatus with
          thread := .retire 0 none [reportResult, pollIncr] } := by simp [step, threadStep, at_]
    have own := claim smallPool _ _ (run.next taken) (s, .thread) List.mem_cons_self rfl 0
      (.inr (.inl executing))
    rw [trace] at own
    exact absurd own (by decide)
  · intro claim
    have same := claim smallPool h s run 0 (0, 0) 3 executing desc (by simp [trace])
    rw [status] at same
    contradiction

end DsaTest.Protocol
