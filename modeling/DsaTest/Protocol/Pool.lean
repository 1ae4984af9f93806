import DsaTest.Protocol.Counts

/-! `dsa_copy` blocked in `idxd_alloc_desc`: who holds the descriptors of the
pool, and how the thread gives one back once its device has answered. -/
namespace DsaTest.Protocol

open Stmt Machine

variable {cfg : Config} {s t : State} {a : Action} {h : List (State × Action)}

/-- What holds as long as no submission fails: a queued entry has gone to its
device, unless `dsa_copy` is about to submit it or has died doing so. -/
structure Accepting (s : State) : Prop where
  accepted : ∀ e < s.count, (s.entry e).accepted = false → s.main = .submit e ∨ s.main = .oops
  thread : s.thread = .oops → ∃ e < s.count, (s.entry e).desc = none

theorem accepting_initial : Accepting (initial cfg) where
  accepted := by simp [initial]
  thread := by simp [initial]

theorem accepting_step (ok : Inv cfg s) (accepting : Accepting s) (accepts : a ≠ .submitFails)
    (move : Move cfg s a t) : Accepting t where
  accepted := by
    intro e new refused
    by_cases old : e < s.count
    · rcases move.accepted old with same | ⟨_, _, taken⟩
      · have at_ := accepting.accepted e old (same.symm.trans refused)
        cases move
        case accept e' d at' _ =>
          rw [at'] at at_
          simp only [MainPc.submit.injEq, reduceCtorEq, or_false] at at_
          subst at_
          simp [acceptDesc] at refused
        case mainControl control => cases control <;> simp_all
        all_goals first | exact at_ | simp_all
      · simp [taken] at refused
    · cases move
      case append =>
        have last : e = s.count := by
          have : e < s.count + 1 := new
          omega
        simp [appendEntry, last]
      all_goals exact absurd new old
  thread := by
    intro dead
    have keep (e : Nat) (old : e < s.count) (missing : (s.entry e).desc = none) :
        ∃ e < t.count, (t.entry e).desc = none :=
      ⟨e, old.trans_le move.count_le, by rw [(move.static old).2.1, missing]⟩
    by_cases already : s.thread = .oops
    · obtain ⟨e, old, missing⟩ := accepting.thread already
      exact keep e old missing
    · have here := ok.entries.here
      cases move
      case threadControl control =>
        cases control
        case missing pos n at_ missing | missingAgain pos n at_ missing =>
          exact keep pos (here pos (by simp [at_, ThreadPc.current])).1 missing
        case scan | advance =>
          simp only [advanceTo] at dead
          split at dead <;> simp at dead
        all_goals simp at dead
      all_goals simp_all [appendEntry, acceptDesc]

theorem accepting_of_run (run : Run cfg h s) (accepts : ∀ p ∈ h, p.2 ≠ .submitFails) :
    Accepting s := by
  have both : Inv cfg s ∧ Accepting s := by
    apply run.invariant_of_steps (C := fun _ a => a ≠ .submitFails)
      ⟨⟨phase_initial, entries_initial, counts_initial⟩, accepting_initial⟩ ?_ accepts
    intro s a t ok accepts taken
    exact ⟨inv_step ok.1 taken, accepting_step ok.1 ok.2 accepts (move_of_step taken)⟩
  exact both.2

theorem Accepting.at_visit (accepting : Accepting s) (ok : EntriesOk cfg s)
    (at_ : s.main = .visit) :
    s.thread ≠ .oops ∧ ∀ e < s.count, (s.entry e).desc ≠ none ∧ (s.entry e).accepted = true := by
  have sent (e : Nat) (old : e < s.count) : (s.entry e).accepted = true := by
    rw [← Bool.not_eq_false]
    intro refused
    simpa [at_] using accepting.accepted e old refused
  have descs (e : Nat) (old : e < s.count) : (s.entry e).desc ≠ none := by
    cases ok.entries e old with
    | missing _ _ _ refused => simp [sent e old] at refused
    | waiting d desc | answered d _ _ desc => simp [desc]
  refine ⟨fun dead => ?_, fun e old => ⟨descs e old, sent e old⟩⟩
  obtain ⟨e, old, missing⟩ := accepting.thread dead
  exact descs e old missing

theorem Answered.not_returned {e status : Nat} {d d' : Slot} {done : List Stmt}
    (ok : Answered cfg s e d' status done) (entries : EntriesOk cfg s) (old : e < s.count)
    (held : s.holder d = some e) : descComplete ∉ done := by
  have notYet := (entries.holder_entry held old).2
  simpa [ok.trace] using notYet

theorem EntriesOk.listed_of_held (ok : EntriesOk cfg s) (linked : s.thread.unlinking = false)
    {e : Nat} {d : Slot} (old : e < s.count) (held : s.holder d = some e) :
    e ∈ s.idxdDescLists := by
  have desc := (ok.holder_entry held old).1
  cases ok.entries e old with
  | missing _ _ _ _ here => exact here
  | waiting _ _ _ waiting => exact waiting.listed
  | answered d' status done desc' _ answered =>
    rw [desc, Option.some.injEq] at desc'
    subst desc'
    have notYet := answered.not_returned ok old held
    obtain ⟨_, returns, _, keeps⟩ := mem_branchOf cfg.variant (s.entry e).batchInfo status
    rw [answered.listed]
    intro dropped
    by_cases working : s.thread.worksOn = some e
    · have progress := answered.progress
      simp only [Progress, working, ↓reduceIte, linked, Bool.false_eq_true, List.append_nil]
        at progress
      apply keeps
      rw [← progress]
      exact List.mem_append_left _ dropped
    · rcases answered.settled working with rfl | rfl | rfl
      · simp at dropped
      · exact notYet returns
      · exact notYet (List.mem_append_left _ returns)

theorem pollEntry_lt (ok : Inv cfg s) (left : s.todo ≠ []) : s.pollEntry < cfg.totalEntries := by
  have all := ok.phase.count_add
  have more := List.length_pos_of_ne_nil left
  have bound := cfg.visits_length_le
  have polled := ok.counts.pollEntry_le
  omega

/-- The polling loop runs and is enabled, and `d`, held by the queued entry `e`, has its answer. -/
structure Seeking (cfg : Config) (e : Nat) (d : Slot) (s : State) : Prop where
  inv : Inv cfg s
  main : s.main.stopped = false
  running : s.threadExecution = true
  descs : ∀ e < s.count, (s.entry e).desc ≠ none
  polling : s.pollEntry < cfg.totalEntries
  old : e < s.count
  held : s.holder d = some e
  final : s.status d ≠ 0

/-- `dsa_copy` sits at the head of its loop and `d`, held by the entry `e`, has its answer. -/
structure Returning (cfg : Config) (e : Nat) (d : Slot) (s : State) : Prop where
  inv : Inv cfg s
  main : s.main = .visit
  todo : s.todo ≠ []
  running : s.threadExecution = true
  accepting : Accepting s
  old : e < s.count
  held : s.holder d = some e
  final : s.status d ≠ 0

theorem Returning.seeking {e : Nat} {d : Slot} (ok : Returning cfg e d s) : Seeking cfg e d s where
  inv := ok.inv
  main := by simp [ok.main, MainPc.stopped]
  running := ok.running
  descs := fun e old => ((ok.accepting.at_visit ok.inv.entries ok.main).2 e old).1
  polling := pollEntry_lt ok.inv ok.todo
  old := ok.old
  held := ok.held
  final := ok.final

/-- Scans left before the thread tests `e`, from what it will visit next. -/
def tempDistance (e count : Nat) : Option Nat → Nat
  | none => e + 4
  | some q => if q ≤ e then e - q + 1 else e + 5 + (count - q)

/-- `late`: the status of `e` is `DSA_COMP_SUCCESS`, too late for the second test. -/
def ThreadPc.distance (e count : Nat) (late : Bool) : ThreadPc → Nat
  | .waitExecution => e + 5
  | .setWakeup | .drained => e + 4
  | .guard => e + 3
  | .scan => e + 2
  | .visit pos n | .testSuccess pos n | .retire pos n _ =>
    if pos = e then 0 else tempDistance e count n
  | .testError pos n => if pos = e ∧ late = false then 0 else tempDistance e count n
  | .advance n => tempDistance e count n
  | _ => 0

def ThreadPc.cost : ThreadPc → Nat
  | .visit _ _ => 20
  | .testSuccess _ _ => 19
  | .testError _ _ => 18
  | .retire _ _ rest => rest.length + 1
  | _ => 0

def ThreadPc.rank (e count : Nat) (late : Bool) (th : ThreadPc) : Nat :=
  21 * th.distance e count late + th.cost

theorem branch_length (v : Variant) (batchInfo : Bool) :
    (successBranch v batchInfo).length < 16 ∧ (errorBranch v batchInfo).length < 16 := by
  cases v <;> cases batchInfo <;> decide

theorem rank_advanceTo {l : List Nat} (sorted : l.Pairwise (· < ·)) {e count q : Nat}
    (below : ∀ i ∈ l, i < count) (listed : e ∈ l) (member : q ∈ l) (late : Bool) :
    (advanceTo l (some q)).rank e count late < (ThreadPc.advance (some q)).rank e count late := by
  have inside := below q member
  simp only [advanceTo, ThreadPc.rank, ThreadPc.distance, ThreadPc.cost, tempDistance]
  rcases Nat.lt_trichotomy q e with before | rfl | after
  · obtain ⟨q', following, reach⟩ := nextEntry_le sorted member listed before
    have further := nextEntry_gt sorted following
    simp only [following, Nat.ne_of_lt before, ↓reduceIte, reach, Nat.le_of_lt before]
    omega
  · simp
  · simp only [Nat.ne_of_gt after, ↓reduceIte, Nat.not_le_of_gt after]
    cases following : nextEntry l q with
    | none => simp only; omega
    | some q' =>
      have further := nextEntry_gt sorted following
      have inside' := below q' (nextEntry_mem following)
      have beyond : ¬ q' ≤ e := by omega
      simp only [beyond, ↓reduceIte]
      omega

theorem rank_scan {l : List Nat} (sorted : l.Pairwise (· < ·)) {e : Nat} (listed : e ∈ l)
    (count : Nat) (late : Bool) :
    (advanceTo l l.head?).rank e count late < ThreadPc.scan.rank e count late := by
  cases l with
  | nil => simp at listed
  | cons q rest =>
    have first : q ≤ e := by
      rcases List.mem_cons.mp listed with rfl | later
      · exact Nat.le_refl _
      · exact Nat.le_of_lt (List.rel_of_pairwise_cons sorted later)
    simp only [List.head?_cons, advanceTo, ThreadPc.rank, ThreadPc.distance, ThreadPc.cost]
    by_cases here : q = e
    · simp only [here, ↓reduceIte]
      omega
    · obtain ⟨q', following, reach⟩ :=
        nextEntry_le sorted List.mem_cons_self listed (by omega)
      have further := nextEntry_gt sorted following
      simp only [here, ↓reduceIte, following, tempDistance, reach]
      omega

theorem release_cases (s : State) (pos : Nat) (d : Slot) :
    release s pos d = s.holder d ∨ release s pos d = none := by
  unfold release
  cases (s.entry pos).desc with
  | none => exact .inl rfl
  | some d' =>
    by_cases same : d = d' <;> simp [same]

theorem Move.thread_frame (move : Move cfg s .thread t) :
    t.main = s.main ∧ t.todo = s.todo ∧ t.threadExecution = s.threadExecution ∧
      t.count = s.count ∧ t.status = s.status ∧
      ∀ d, t.holder d = s.holder d ∨ t.holder d = none := by
  have released (pos : Nat) (stmt : Stmt) (d : Slot) :
      (execStmt s pos stmt).holder d = s.holder d ∨ (execStmt s pos stmt).holder d = none := by
    simp only [execStmt]
    split
    · exact release_cases s pos d
    · exact .inl rfl
  cases move
  case retire pos n stmt rest _ | unlink pos n stmt rest _ =>
    exact ⟨rfl, rfl, rfl, rfl, rfl, released pos stmt⟩
  all_goals exact ⟨rfl, rfl, rfl, rfl, rfl, fun _ => .inl rfl⟩

theorem threadStep_enabled (running : s.threadExecution = true) (alive : s.thread ≠ .oops) :
    ∃ t, threadStep cfg s = some t := by
  unfold threadStep
  split
  all_goals first | exact ⟨_, rfl⟩ | skip
  case h_1 | h_16 => exact ⟨_, by rw [if_pos running]⟩
  case h_3 | h_5 | h_9 | h_13 => split <;> exact ⟨_, rfl⟩
  case h_6 | h_7 =>
    split
    · exact ⟨_, rfl⟩
    · split <;> exact ⟨_, rfl⟩
  case h_17 => exact absurd ‹_› alive

theorem Seeking.unmarked {e : Nat} {d : Slot} (ok : Seeking cfg e d s)
    (idle : s.thread.worksOn ≠ some e) : (s.entry e).completion = false := by
  have entries := ok.inv.entries
  have desc := (entries.holder_entry ok.held ok.old).1
  have linked : s.thread.unlinking = false := by
    rw [← Bool.not_eq_true]
    intro unlinking
    have stopped := ok.inv.phase.unlinking unlinking
    simp [ok.main] at stopped
  rw [← Bool.not_eq_true]
  intro marked
  cases entries.entries e ok.old with
  | missing _ _ unmarked => simp [unmarked] at marked
  | waiting _ _ _ waiting => simp [waiting.completion] at marked
  | answered d' status done desc' _ answered =>
    have listed := entries.listed_of_held linked ok.old ok.held
    have whole := answered.done_of_marked idle marked listed
    apply answered.not_returned entries ok.old ok.held
    rw [whole]
    exact (mem_branchOf _ _ _).2.1

theorem Seeking.not_finished {e : Nat} {d : Slot} (ok : Seeking cfg e d s) (n : Option Nat) :
    s.thread ≠ .retire e n [] := by
  intro at_
  have entries := ok.inv.entries
  obtain ⟨d', status, done, desc', _, answered⟩ :=
    entries.answered_of_trace ok.old (entries.worked e (by simp [at_, ThreadPc.worksOn]))
  have progress := answered.progress
  simp only [Progress, at_, ThreadPc.worksOn, ThreadPc.remaining, ThreadPc.unlinking, ↓reduceIte,
    Bool.false_eq_true, List.append_nil] at progress
  have desc := (entries.holder_entry ok.held ok.old).1
  apply answered.not_returned entries ok.old ok.held
  rw [progress]
  exact (mem_branchOf _ _ _).2.1

/-- Every statement of the thread brings the test of `e` closer. -/
theorem Seeking.rank_lt {e : Nat} {d : Slot} (ok : Seeking cfg e d s)
    (move : Move cfg s .thread t) :
    t.thread.rank e s.count (s.status d = 1) < s.thread.rank e s.count (s.status d = 1) := by
  have entries := ok.inv.entries
  have desc := (entries.holder_entry ok.held ok.old).1
  have linked : s.thread.unlinking = false := by
    have stopped := ok.inv.phase.unlinking
    simpa [ok.main] using stopped
  have busy : s.thread.finished = false := by
    have stopped := ok.inv.phase.empty
    simpa [ok.main] using stopped
  have listed := entries.listed_of_held linked ok.old ok.held
  have nonempty : s.idxdDescLists ≠ [] := List.ne_nil_of_mem listed
  have short := branch_length cfg.variant
  cases move
  case setWakeup at_ => simp [at_, ThreadPc.rank, ThreadPc.distance, ThreadPc.cost]
  case retire pos n stmt rest at_ => simp [at_, ThreadPc.rank, ThreadPc.distance, ThreadPc.cost]
  case unlink at_ => simp [at_, ThreadPc.unlinking] at linked
  case setStatus at_ | clearWakeup at_ => simp [at_, ThreadPc.finished] at busy
  case threadControl control =>
    cases control
    case wake at_ _ | again at_ _ => simp [at_, ThreadPc.rank, ThreadPc.distance, ThreadPc.cost]
    case enter at_ _ _ => simp [at_, ThreadPc.rank, ThreadPc.distance, ThreadPc.cost]
    case leave at_ closed => exact absurd ⟨ok.polling, nonempty⟩ closed
    case scan at_ =>
      rw [at_]
      exact rank_scan entries.sorted listed _ _
    case marked pos n at_ marked =>
      have other : pos ≠ e := by
        rintro rfl
        simp [ok.unmarked (by simp [at_, ThreadPc.worksOn])] at marked
      simp [at_, ThreadPc.rank, ThreadPc.distance, ThreadPc.cost, other]
    case unmarked at_ _ => simp [at_, ThreadPc.rank, ThreadPc.distance, ThreadPc.cost]
    case missing pos n at_ missing | missingAgain pos n at_ missing =>
      exact absurd missing (ok.descs pos (entries.here pos (by simp [at_, ThreadPc.current])).1)
    case success pos n d' at_ _ _ =>
      have := (short (s.entry pos).batchInfo).1
      simp only [at_, ThreadPc.rank, ThreadPc.distance, ThreadPc.cost]
      omega
    case notSuccess pos n d' at_ desc' failed =>
      have early : pos = e → s.status d ≠ 1 := by
        rintro rfl
        rw [desc, Option.some.injEq] at desc'
        simpa [desc'] using failed
      by_cases here : pos = e
      · simp [at_, ThreadPc.rank, ThreadPc.distance, ThreadPc.cost, here, early here]
      · simp [at_, ThreadPc.rank, ThreadPc.distance, ThreadPc.cost, here]
    case error pos n d' at_ desc' failed =>
      have := (short (s.entry pos).batchInfo).2
      have early : pos = e → s.status d ≠ 1 := by
        rintro rfl
        rw [desc, Option.some.injEq] at desc'
        subst desc'
        omega
      by_cases here : pos = e
      · subst here
        simp only [at_, ThreadPc.rank, ThreadPc.distance, ThreadPc.cost, ↓reduceIte]
        omega
      · simp only [at_, ThreadPc.rank, ThreadPc.distance, ThreadPc.cost, here, ↓reduceIte,
          false_and]
        omega
    case notError pos n d' at_ desc' waits =>
      have late : pos = e → s.status d = 1 := by
        rintro rfl
        rw [desc, Option.some.injEq] at desc'
        subst desc'
        have final := ok.final
        omega
      by_cases here : pos = e
      · simp [at_, ThreadPc.rank, ThreadPc.distance, ThreadPc.cost, late here]
      · simp [at_, ThreadPc.rank, ThreadPc.distance, ThreadPc.cost, here]
    case keep pos n at_ _ =>
      have other : pos ≠ e := by
        rintro rfl
        exact ok.not_finished n at_
      simp [at_, ThreadPc.rank, ThreadPc.distance, ThreadPc.cost, other]
    case drop at_ idle | drained at_ idle _ => simp [ok.running] at idle
    case unlinked at_ => simp [at_, ThreadPc.unlinking] at linked
    case advance n at_ =>
      rw [at_]
      cases n with
      | none => simp [advanceTo, ThreadPc.rank, ThreadPc.distance, ThreadPc.cost, tempDistance]
      | some q =>
        have member := (entries.next q (by simp [at_, ThreadPc.next])).1
        exact rank_advanceTo entries.sorted entries.below listed member _
    case rewake at_ _ => simp [at_, ThreadPc.finished] at busy

theorem Returning.progress {e : Nat} {d : Slot} (ok : Returning cfg e d s) :
    ∃ t, step cfg s .thread = some t ∧ (t.holder d = none ∨ Returning cfg e d t ∧
      t.thread.rank e t.count (t.status d = 1) < s.thread.rank e s.count (s.status d = 1)) := by
  have alive := (ok.accepting.at_visit ok.inv.entries ok.main).1
  obtain ⟨t, taken⟩ := threadStep_enabled ok.running alive
  have move := move_of_threadStep taken
  obtain ⟨main, todo, running, count, status, holder⟩ := move.thread_frame
  refine ⟨t, taken, ?_⟩
  rcases holder d with kept | freed
  · right
    rw [count, status]
    refine ⟨?_, ok.seeking.rank_lt move⟩
    exact {
      inv := inv_step ok.inv (a := .thread) taken
      main := main.trans ok.main
      todo := todo ▸ ok.todo
      running := running.trans ok.running
      accepting := accepting_step ok.inv ok.accepting (by simp) move
      old := count ▸ ok.old
      held := kept.trans ok.held
      final := status ▸ ok.final }
  · exact .inl freed

theorem Returning.returns {e : Nat} {d : Slot} (ok : Returning cfg e d s) :
    ∃ n t, exec (step cfg) (List.replicate n .thread) s = some t ∧ t.holder d = none :=
  exec_reaches (P := Returning cfg e d) (Q := fun t => t.holder d = none)
    (fun s => s.thread.rank e s.count (s.status d = 1)) Action.thread
    (fun _ ok => ok.progress) s ok

/-- `dsa_copy` never deadlocks on a pool. Where it is blocked, the whole pool is
with entries of the list that their device has accepted, the thread is running
and its polling loop is enabled, and whichever descriptor the device answers
next, the thread gives it back. -/
theorem blocked_on_pool (run : Run cfg h s) (accepts : ∀ p ∈ h, p.2 ≠ .submitFails)
    {r k : Nat} {rest : List (Nat × Nat)} (at_ : s.main = .visit) (left : s.todo = (r, k) :: rest)
    (pool : 0 < cfg.numDescs k) (blocked : ∀ j < cfg.numDescs k, s.holder (k, j) ≠ none) :
    (∀ j < cfg.numDescs k, ∃ e ∈ s.idxdDescLists,
      (s.entry e).desc = some (k, j) ∧ (s.entry e).accepted = true) ∧
    s.threadExecution = true ∧ s.pollEntry < cfg.totalEntries ∧ s.idxdDescLists ≠ [] ∧
    ∀ j status t, step cfg s (.device (k, j) status) = some t →
      ∃ n u, exec (step cfg) (List.replicate n .thread) t = some u ∧ u.holder (k, j) = none := by
  have ok := inv_of_run run
  have accepting := accepting_of_run run accepts
  have more : s.todo ≠ [] := by simp [left]
  have linked : s.thread.unlinking = false := by
    have stopped := ok.phase.unlinking
    simpa [at_, MainPc.stopped] using stopped
  have holds (d : Slot) (e : Nat) (held : s.holder d = some e) : e < s.count := by
    rcases ok.entries.held d e held with old | ⟨_, _, _, pending⟩
    · exact old.1
    · simp [at_] at pending
  have owned (j : Nat) (inPool : j < cfg.numDescs k) : ∃ e ∈ s.idxdDescLists,
      (s.entry e).desc = some (k, j) ∧ (s.entry e).accepted = true := by
    obtain ⟨e, held⟩ := Option.ne_none_iff_exists'.mp (blocked j inPool)
    have old := holds (k, j) e held
    exact ⟨e, ok.entries.listed_of_held linked old held, (ok.entries.holder_entry held old).1,
      ((accepting.at_visit ok.entries at_).2 e old).2⟩
  obtain ⟨first, listed, _⟩ := owned 0 pool
  have running : s.threadExecution = true := by
    apply ok.phase.executing
    · simp [at_, MainPc.starting]
    · simp [at_, MainPc.stopped]
    · simp [at_]
    · have old := ok.entries.below first listed
      omega
  refine ⟨owned, running, pollEntry_lt ok more, List.ne_nil_of_mem listed, ?_⟩
  intro j status t answers
  have ok' := inv_step ok answers
  have accepting' := accepting_step ok accepting (by simp) (move_of_step answers)
  cases move_of_step answers with
  | answer busy final =>
    obtain ⟨e, old, desc, untouched, _⟩ := ok.entries.sent (k, j) busy
    have held := (ok.entries.waiting_of old desc (.inr untouched)).2.held
    exact Returning.returns {
      inv := ok'
      main := at_
      todo := more
      running := running
      accepting := accepting'
      old := old
      held := held
      final := by simpa using final }

def smallPool : Config := ⟨.loop, [⟨2, 2, 1, 1, Nat.one_pos⟩]⟩

theorem blocked_on_pool_small :
    ∃ h s, Run smallPool h s ∧ s.holder (0, 0) = some 0 ∧ s.pollEntry < smallPool.totalEntries := by
  have reached : (exec (step smallPool) [.allocDesc 0, .main, .main, .main, .main, .main]
      (initial smallPool)).map (fun s => (s.main, s.todo, s.holder (0, 0))) =
      some (.visit, [(1, 0)], some 0) := by decide +kernel
  obtain ⟨s, result, at_⟩ := Option.map_eq_some_iff.mp reached
  simp only [Prod.mk.injEq] at at_
  obtain ⟨main, todo, held⟩ := at_
  obtain ⟨h, run, labels⟩ := run_of_exec result
  have accepts : ∀ p ∈ h, p.2 ≠ .submitFails := by
    intro p member
    have label : p.2 ∈ h.map Prod.snd := List.mem_map_of_mem member
    rw [labels] at label
    revert label
    generalize p.2 = a
    revert a
    decide
  have blocked : ∀ j < smallPool.numDescs 0, s.holder (0, j) ≠ none := by
    intro j inPool
    have only : j = 0 := by
      have : j < 1 := inPool
      omega
    simp [only, held]
  exact ⟨h, s, run, held, (blocked_on_pool run accepts main todo (by decide) blocked).2.2.1⟩

end DsaTest.Protocol
