import DsaTest.Protocol.Parties
import DsaTest.Protocol.Scan
import Mathlib.Data.Prod.Lex

/-! What is left to do for `dsa_copy`, for the queued entries and for the thread. Whichever
party is helpful lowers this rank, and no other party raises it. -/
namespace DsaTest.Protocol

open Stmt Machine

variable {cfg : Config} {s t : State} {a : Action}

theorem Alive.answered (ok : Alive cfg s) (calm : ∀ d, s.busy d = false)
    (idle : ∀ e, s.main ≠ .submit e) {e : Nat} (old : e < s.count) :
    ∃ d status done, (s.entry e).desc = some d ∧ Answered cfg s e d status done := by
  cases ok.inv.entries.entries e old with
  | missing none => exact absurd none (ok.clean.descs e old)
  | waiting d _ _ waiting =>
    have refused := waiting.busy
    rw [calm d] at refused
    exact absurd (ok.clean.accepted e old refused.symm) (idle e)
  | answered d status done desc _ answered => exact ⟨d, status, done, desc, answered⟩

def State.unreturned (s : State) : Option Nat :=
  (List.range s.count).find? fun e => .ran descComplete ∉ (s.entry e).trace

theorem unreturned_of {e : Nat} (old : e < s.count)
    (notYet : .ran descComplete ∉ (s.entry e).trace) :
    ∃ first, s.unreturned = some first ∧ first < s.count ∧
      .ran descComplete ∉ (s.entry first).trace := by
  have found : (s.unreturned).isSome := by
    rw [State.unreturned, List.find?_isSome]
    exact ⟨e, List.mem_range.mpr old, by simpa using notYet⟩
  obtain ⟨first, found⟩ := Option.isSome_iff_exists.mp found
  have member := List.mem_of_find?_eq_some found
  have holds := List.find?_some found
  exact ⟨first, found, List.mem_range.mp member, by simpa using holds⟩

def State.late (s : State) (e : Nat) : Bool :=
  (s.entry e).desc.elim false fun d => s.status d = 1

/-- How far the running thread is from the next entry to retire. -/
def State.seekRank (s : State) : Nat :=
  s.unreturned.elim 0 fun e => s.thread.rank e s.count (s.late e)

theorem Alive.seeking (ok : Alive cfg s) (calm : ∀ d, s.busy d = false)
    (idle : ∀ e, s.main ≠ .submit e) (main : s.main.stopped = false)
    (running : s.threadExecution = true) (polling : s.pollEntry < cfg.totalEntries) {e : Nat}
    (old : e < s.count) (notYet : .ran descComplete ∉ (s.entry e).trace) :
    ∃ d, (s.entry e).desc = some d ∧ Seeking cfg e d s := by
  obtain ⟨d, status, done, desc, answered⟩ := ok.answered calm idle old
  have held := answered.held (by simpa [answered.trace] using notYet)
  refine ⟨d, desc, ok.inv, main, running, ok.clean.descs, polling, old, held.1, ?_⟩
  rw [held.2.1]
  exact answered.final

theorem Alive.seekRank_lt (ok : Alive cfg s) (calm : ∀ d, s.busy d = false)
    (idle : ∀ e, s.main ≠ .submit e) (main : s.main.stopped = false)
    (running : s.threadExecution = true) (polling : s.pollEntry < cfg.totalEntries)
    (out : ∃ e < s.count, .ran descComplete ∉ (s.entry e).trace)
    (move : Move cfg s .thread t) (same : t.entry = s.entry) : t.seekRank < s.seekRank := by
  obtain ⟨e, old, notYet⟩ := out
  obtain ⟨first, found, old, notYet⟩ := unreturned_of old notYet
  obtain ⟨d, desc, seeking⟩ := ok.seeking calm idle main running polling old notYet
  obtain ⟨_, _, _, count, status, _⟩ := move.thread_frame
  have found' : t.unreturned = some first := by
    rw [← found]
    simp only [State.unreturned, count, same]
  have lower := seeking.rank_lt move
  simpa [State.seekRank, found, found', State.late, same, desc, count, status] using lower

/-- How far the thread is from the next entry to unlink, or from the end, once
`thread_execution` is false. -/
def State.drainRank (s : State) : Nat :=
  match s.thread with
  | .setStatus => 1
  | .drained => if s.idxdDescLists = [] then 2 else 11
  | .guard => if s.idxdDescLists = [] then 3 else 10
  | .scan => 9
  | .visit _ _ => 5
  | .testSuccess _ _ => 4
  | .testError pos _ => if s.late pos then 20 else 3
  | .retire _ _ [] => 2
  | .advance _ => 15
  | .unlink _ _ [] => 16
  | _ => 0

theorem drainRank_advanceTo (n : Option Nat) :
    State.drainRank { s with thread := advanceTo s.idxdDescLists n } < 15 := by
  cases n with
  | none => simp only [advanceTo, State.drainRank]; split <;> omega
  | some q => simp [advanceTo, State.drainRank]

theorem branch_ne_nil (v : Variant) (batchInfo : Bool) :
    ∃ stmt rest stmt' rest', successBranch v batchInfo = stmt :: rest ∧
      errorBranch v batchInfo = stmt' :: rest' := by
  cases v <;> exact ⟨_, _, _, _, rfl, rfl⟩

theorem Alive.drainRank_lt (ok : Alive cfg s) (calm : ∀ d, s.busy d = false)
    (main : s.main = .waitCompletion) (unset : s.completionStatus = 0)
    (polling : s.pollEntry < cfg.totalEntries) (move : Move cfg s .thread t)
    (same : t.entry = s.entry) : t.drainRank < s.drainRank := by
  have stopped : s.threadExecution = false := ok.inv.phase.stopped (by simp [main, MainPc.stopped])
  have awake := ok.seen (by simp [main, MainPc.sawWakeup])
  have quiet : s.thread.reported = false := by
    have reported := ok.inv.phase.reported
    simpa [unset] using reported
  have final (pos : Nat) (d : Slot) (current : s.thread.current = some pos)
      (desc : (s.entry pos).desc = some d) (unmarked : (s.entry pos).completion = false)
      (idle : s.thread.worksOn = none) : s.status d ≠ 0 := by
    have old := (ok.inv.entries.here pos current).1
    obtain ⟨d', status, done, desc', answered⟩ := ok.answered calm (by simp [main]) old
    rw [desc, Option.some.injEq] at desc'
    subst desc'
    have fresh := answered.done_of_unmarked (by simp [idle]) unmarked
    rw [(answered.held (by simp [fresh])).2.1]
    exact answered.final
  cases move
  case retire pos n stmt rest at_ | unlink pos n stmt rest at_ =>
    have longer := congrArg (fun f => (f pos).trace.length) same
    simp [execStmt] at longer
  case setWakeup at_ => simp [at_, ThreadPc.asleep] at awake
  case setStatus at_ => simp [State.drainRank, at_]
  case clearWakeup at_ => simp [at_, ThreadPc.reported] at quiet
  case threadControl control =>
    cases control
    case wake at_ _ => simp [at_, ThreadPc.asleep] at awake
    case enter at_ _ listed => simp [State.drainRank, at_, listed]
    case leave at_ closed =>
      have empty : s.idxdDescLists = [] := by
        by_contra listed
        exact closed ⟨polling, listed⟩
      simp [State.drainRank, at_, empty]
    case scan at_ =>
      cases s.idxdDescLists <;> simp [State.drainRank, at_, advanceTo]
    case marked at_ _ => simp [State.drainRank, at_]
    case unmarked at_ _ => simp [State.drainRank, at_]
    case missing pos n at_ missing | missingAgain pos n at_ missing =>
      have old := (ok.inv.entries.here pos (by simp [at_, ThreadPc.current])).1
      exact absurd missing (ok.clean.descs pos old)
    case success pos n d at_ _ _ =>
      obtain ⟨stmt, rest, _, _, branch, _⟩ := branch_ne_nil cfg.variant (s.entry pos).batchInfo
      simp [State.drainRank, at_, branch]
    case notSuccess pos n d at_ desc failed =>
      simp [State.drainRank, at_, State.late, desc, failed]
    case error pos n d at_ desc failed =>
      obtain ⟨_, _, stmt, rest, _, branch⟩ := branch_ne_nil cfg.variant (s.entry pos).batchInfo
      simp only [State.drainRank, at_, branch]
      split <;> omega
    case notError pos n d at_ desc waits =>
      have written := final pos d (by simp [at_, ThreadPc.current]) desc
        (ok.inv.entries.testing pos (by simp [at_, ThreadPc.testing])) (by simp [at_, ThreadPc.worksOn])
      have success : s.status d = 1 := by omega
      simp [State.drainRank, at_, State.late, desc, success]
    case keep _ running | rewake _ running => simp [stopped] at running
    case drop at_ _ => simp [State.drainRank, at_, unlinkBranch]
    case unlinked at_ => simp [State.drainRank, at_]
    case advance n at_ =>
      have lower : State.drainRank { s with thread := advanceTo s.idxdDescLists n } < 15 :=
        drainRank_advanceTo n
      simpa only [State.drainRank, at_] using lower
    case drained at_ _ empty => simp [State.drainRank, at_, empty]
    case again at_ more =>
      have listed : s.idxdDescLists ≠ [] := fun empty => more ⟨stopped, empty⟩
      simp [State.drainRank, at_, listed]

/-- There is something to copy on every queue, and every queue has descriptors. -/
structure Usable (cfg : Config) : Prop where
  queues : cfg.queues ≠ []
  segments : ∀ q ∈ cfg.queues, 0 < q.totalNents
  pools : ∀ q ∈ cfg.queues, 0 < q.numDescs

theorem Usable.numDescs_pos (usable : Usable cfg) {k : Nat} (queue : k < cfg.enabledWqs) :
    0 < cfg.numDescs k := by
  have found : cfg.queues[k]? = some cfg.queues[k] := List.getElem?_eq_getElem queue
  simpa [Config.numDescs, found] using usable.pools _ (List.getElem_mem queue)

theorem Shape.descsEntries_pos {q : Shape} (segments : 0 < q.totalNents) (v : Variant) :
    0 < q.descsEntries v := by
  cases v with
  | loop => exact segments
  | batch => exact (q.lt_descsEntries_batch 0).mpr (by omega)

theorem Usable.visits_pos (usable : Usable cfg) : 0 < cfg.visits.length := by
  obtain ⟨q, member⟩ := List.exists_mem_of_ne_nil _ usable.queues
  obtain ⟨k, _, count⟩ := cfg.descsEntries_of_mem member
  have visited : (0, k) ∈ cfg.visits := by
    rw [Config.mem_visits, count]
    exact Shape.descsEntries_pos (usable.segments q member) _
  exact List.length_pos_of_mem visited

theorem PhaseOk.queue_of_todo (ok : PhaseOk cfg s) {r k : Nat} {rest : List (Nat × Nat)}
    (left : s.todo = (r, k) :: rest) : k < cfg.enabledWqs := by
  have member : k ∈ cfg.visits.map Prod.snd := by
    rw [← ok.schedule, left]
    simp
  obtain ⟨⟨r', k'⟩, visited, rfl⟩ := List.mem_map.mp member
  exact cfg.lt_enabledWqs_of_lt_descsEntries (cfg.mem_visits.mp visited)

theorem Alive.out_of_pool (ok : Alive cfg s) (usable : Usable cfg) {r k : Nat}
    {rest : List (Nat × Nat)} (at_ : s.main = .visit) (left : s.todo = (r, k) :: rest)
    (full : ∀ j < cfg.numDescs k, s.holder (k, j) ≠ none) :
    ∃ e < s.count, .ran descComplete ∉ (s.entry e).trace := by
  have pool := usable.numDescs_pos (ok.inv.phase.queue_of_todo left)
  obtain ⟨e, held⟩ := Option.ne_none_iff_exists'.mp (full 0 pool)
  rcases ok.inv.entries.held _ e held with ⟨old, _, notYet⟩ | ⟨_, _, _, pending⟩
  · exact ⟨e, old, notYet⟩
  · simp [at_] at pending

theorem Alive.running (ok : Alive cfg s) (queued : 0 < s.count) (at_ : s.main.starting = false)
    (main : s.main.stopped = false) : s.threadExecution = true :=
  ok.inv.phase.executing (by simp [at_]) main ok.clean.main queued

theorem Alive.all_queued (ok : Alive cfg s) (left : s.main.left) :
    s.count = cfg.visits.length := by
  have all := ok.inv.phase.count_add
  have pending : s.main.pending = [] := by
    cases at_ : s.main <;> simp_all [MainPc.left, MainPc.pending]
  simpa [pending, ok.inv.phase.left left] using all

theorem threadStep_moves (alive : s.thread ≠ .oops)
    (waits : s.threadExecution = false → s.thread ≠ .waitExecution ∧ s.thread ≠ .waitAgain) :
    ∃ t, threadStep cfg s = some t := by
  by_cases running : s.threadExecution = true
  · exact threadStep_enabled running alive
  · obtain ⟨first, again⟩ := waits (Bool.eq_false_iff.mpr running)
    unfold threadStep
    split
    all_goals first | exact ⟨_, rfl⟩ | skip
    case h_1 at_ => exact absurd at_ first
    case h_16 at_ => exact absurd at_ again
    case h_3 | h_5 | h_9 | h_13 => split <;> exact ⟨_, rfl⟩
    case h_6 | h_7 =>
      split
      · exact ⟨_, rfl⟩
      · split <;> exact ⟨_, rfl⟩
    case h_17 => exact absurd ‹_› alive

/-- The thread can move wherever `dsa_copy` waits for it. -/
theorem can_thread (ok : Alive cfg s) (usable : Usable cfg) (blocked : Blocked cfg s) :
    ∃ t, threadStep cfg s = some t := by
  apply threadStep_moves ok.clean.thread
  intro idle
  cases blocked with
  | pool r k rest at_ left full =>
    obtain ⟨e, old, _⟩ := ok.out_of_pool usable at_ left full
    have running := ok.running (by omega) (by simp [at_, MainPc.starting])
      (by simp [at_, MainPc.stopped])
    simp [running] at idle
  | wakeup at_ =>
    have all := ok.all_queued (by simp [at_, MainPc.left])
    have some_ := usable.visits_pos
    have running := ok.running (by omega) (by simp [at_, MainPc.starting])
      (by simp [at_, MainPc.stopped])
    simp [running] at idle
  | completion at_ unset =>
    have awake := ok.seen (by simp [at_, MainPc.sawWakeup])
    have quiet : s.thread.reported = false := by
      have reported := ok.inv.phase.reported
      simpa [unset] using reported
    constructor
    · intro first
      simp [first, ThreadPc.asleep] at awake
    · intro again
      simp [again, ThreadPc.reported] at quiet

open Classical in
/-- Who brings `dsa_copy` closer to its end. -/
noncomputable def State.helpful (cfg : Config) (s : State) : Party :=
  if ¬ Blocked cfg s then .dsaCopy
  else if ∃ d, s.busy d = true then .device
  else .thread

theorem helpful_free (free : ¬ Blocked cfg s) : s.helpful cfg = .dsaCopy := by
  simp [State.helpful, free]

theorem helpful_busy (blocked : Blocked cfg s) (busy : ∃ d, s.busy d = true) :
    s.helpful cfg = .device := by
  simp [State.helpful, blocked, busy]

theorem helpful_calm (blocked : Blocked cfg s) (calm : ∀ d, s.busy d = false) :
    s.helpful cfg = .thread := by
  simp [State.helpful, blocked, calm]

theorem can_device (cfg : Config) {d : Slot} (busy : s.busy d = true) :
    ∃ t, okStep cfg s (.device d 1) = some t := by
  simp [okStep, Action.fails, step, deviceStep, busy]

theorem can_helpful (ok : Alive cfg s) (usable : Usable cfg) (going : s.main ≠ .done) :
    Can (okStep cfg) Action.party (s.helpful cfg) s := by
  by_cases blocked : Blocked cfg s
  · by_cases busy : ∃ d, s.busy d = true
    · rw [helpful_busy blocked busy]
      obtain ⟨d, busy⟩ := busy
      obtain ⟨t, taken⟩ := can_device cfg busy
      exact ⟨_, t, rfl, taken⟩
    · rw [helpful_calm blocked (by simpa using busy)]
      obtain ⟨t, taken⟩ := can_thread ok usable blocked
      exact ⟨.thread, t, rfl, okStep_eq_some.mpr ⟨rfl, taken⟩⟩
  · rw [helpful_free blocked]
    exact can_dsaCopy ok going blocked

noncomputable def State.position (cfg : Config) (s : State) : Nat :=
  if s.helpful cfg = .thread then if s.threadExecution then s.seekRank else s.drainRank else 0

/-- What is left for `dsa_copy`, then for the queued entries, then for the next of them. -/
noncomputable def State.rank (cfg : Config) (s : State) : ℕ ×ₗ ℕ ×ₗ ℕ :=
  toLex (s.ahead, toLex (s.work + s.thread.phase, s.position cfg))

theorem rank_lt_iff : t.rank cfg < s.rank cfg ↔ t.ahead < s.ahead ∨ t.ahead = s.ahead ∧
    (t.work + t.thread.phase < s.work + s.thread.phase ∨
      t.work + t.thread.phase = s.work + s.thread.phase ∧ t.position cfg < s.position cfg) := by
  simp [State.rank, Prod.Lex.toLex_lt_toLex]

theorem ahead_lt (mine : a.party = .dsaCopy) (move : Move cfg s a t) (succeeds : a.fails = false) :
    t.ahead < s.ahead := by
  cases move
  case alloc at_ left _ _ =>
    simp only [State.ahead, at_, left, MainPc.ahead, List.length_cons]
    omega
  case createNull | createOops | reject => simp [Action.fails] at succeeds
  case mainControl control => cases control <;> simp_all [State.ahead, MainPc.ahead]
  case append | submitNull | accept | setExecution | clearExecution =>
    simp_all [State.ahead, MainPc.ahead, appendEntry, acceptDesc]
  all_goals simp [Action.party] at mine

theorem ahead_same (other : a.party ≠ .dsaCopy) (move : Move cfg s a t) : t.ahead = s.ahead := by
  cases move
  case retire | unlink | setWakeup | setStatus | clearWakeup | threadControl | answer => rfl
  all_goals simp [Action.party] at other

theorem Blocked.quiet_step (blocked : Blocked cfg s) (ok : Alive cfg s) (move : Move cfg s .thread t)
    (same : t.entry = s.entry) (phase : t.thread.phase = s.thread.phase)
    (busy : ∃ d, s.busy d = true) : Blocked cfg t := by
  obtain ⟨d, busy⟩ := busy
  cases move
  case retire pos n stmt rest at_ | unlink pos n stmt rest at_ =>
    have longer := congrArg (fun f => (f pos).trace.length) same
    simp [execStmt] at longer
  case setWakeup at_ => simp [at_, ThreadPc.phase] at phase
  case setStatus at_ =>
    have empty := (ok.inv.phase.empty (by simp [at_, ThreadPc.finished])).2
    obtain ⟨e, old, desc, untouched, _⟩ := ok.inv.entries.sent d busy
    have listed := (ok.inv.entries.waiting_of old desc (.inr untouched)).2.listed
    simp [empty] at listed
  case clearWakeup at_ =>
    cases blocked with
    | pool r k rest main left full => exact .pool r k rest main left full
    | wakeup main => exact .wakeup main rfl
    | completion main unset => exact .completion main unset
  case threadControl =>
    cases blocked with
    | pool r k rest main left full => exact .pool r k rest main left full
    | wakeup main idle => exact .wakeup main idle
    | completion main unset => exact .completion main unset

theorem Blocked.position_lt (blocked : Blocked cfg s) (ok : Alive cfg s) (usable : Usable cfg)
    (polling : s.main = .waitCompletion → s.pollEntry < cfg.totalEntries)
    (move : Move cfg s .thread t) (same : t.entry = s.entry)
    (phase : t.thread.phase = s.thread.phase) (calm : ∀ d, s.busy d = false) :
    t.position cfg < s.position cfg := by
  have execution : t.threadExecution = s.threadExecution := move.thread_frame.2.2.1
  have bound : t.position cfg ≤ if s.threadExecution then t.seekRank else t.drainRank := by
    unfold State.position
    rw [execution]
    split
    · exact Nat.le_refl _
    · exact Nat.zero_le _
  refine bound.trans_lt ?_
  rw [State.position, if_pos (helpful_calm blocked calm)]
  cases blocked with
  | pool r k rest at_ left full =>
    have out := ok.out_of_pool usable at_ left full
    have stopped : s.main.stopped = false := by simp [at_, MainPc.stopped]
    obtain ⟨e, old, _⟩ := id out
    have running := ok.running (by omega) (by simp [at_, MainPc.starting]) stopped
    have polling := pollEntry_lt ok.inv (by simp [left])
    simpa [running] using
      ok.seekRank_lt calm (by simp [at_]) stopped running polling out move same
  | wakeup at_ idle =>
    have asleep := ok.wakeup
    have phases := ok.inv.phase
    rw [idle] at asleep
    cases move
    case threadControl control =>
      cases control
      case wake at' _ => simp [at', ThreadPc.phase] at phase
      case rewake at' running => simp [ok.not_rewaking at'] at running
      all_goals simp_all [ThreadPc.awake]
    case setWakeup at' => simp [at', ThreadPc.phase] at phase
    all_goals simp_all [ThreadPc.awake]
  | completion at_ unset =>
    have stopped := ok.inv.phase.stopped (by simp [at_, MainPc.stopped])
    simpa [stopped] using ok.drainRank_lt calm at_ unset (polling at_) move same

/-- What a step does to the rank. -/
theorem rank_step (ok : Alive cfg s) (usable : Usable cfg)
    (polling : s.main = .waitCompletion → s.pollEntry < cfg.totalEntries)
    (taken : okStep cfg s a = some t) :
    t.rank cfg < s.rank cfg ∨ t.rank cfg = s.rank cfg ∧ t.helpful cfg = s.helpful cfg ∧
      a.party ≠ s.helpful cfg := by
  have ok' := alive_step ok taken
  obtain ⟨succeeds, taken⟩ := okStep_eq_some.mp taken
  have move := move_of_step taken
  by_cases mine : a.party = .dsaCopy
  · exact .inl (rank_lt_iff.mpr (.inl (ahead_lt mine move succeeds)))
  · have ahead := ahead_same mine move
    rcases work_step ok ok' mine move with less | ⟨rfl, same, work⟩
    · exact .inl (rank_lt_iff.mpr (.inr ⟨ahead, .inl less⟩))
    · have phase : t.thread.phase = s.thread.phase := by
        have count := move.thread_frame.2.2.2.1
        have : t.work = s.work := by simp only [State.work, same, count]
        omega
      by_cases blocked : Blocked cfg s
      · by_cases busy : ∃ d, s.busy d = true
        · have blocked' := blocked.quiet_step ok move same phase busy
          have busy' : ∃ d, t.busy d = true := by
            obtain ⟨d, busy⟩ := busy
            refine ⟨d, ?_⟩
            cases move <;> exact busy
          right
          simp [State.rank, State.position, helpful_busy blocked busy, helpful_busy blocked' busy',
            ahead, work, Action.party]
        · have calm : ∀ d, s.busy d = false := by simpa using busy
          have closer := blocked.position_lt ok usable polling move same phase calm
          exact .inl (rank_lt_iff.mpr (.inr ⟨ahead, .inr ⟨work, closer⟩⟩))
      · have blocked' : ¬ Blocked cfg t := fun blocked' => blocked (blocked'.of_step mine ok move)
        right
        simp [State.rank, State.position, helpful_free blocked, helpful_free blocked', ahead, work,
          Action.party]

theorem Alive.pollEntry_lt (ok : Alive cfg s) (short : cfg.visits.length < cfg.totalEntries) :
    s.pollEntry < cfg.totalEntries := by
  have all := ok.inv.phase.count_add
  have polled := ok.inv.counts.pollEntry_le
  omega

/-- With `total_entries` out of reach the rank leads to the end. -/
theorem ranking_done (usable : Usable cfg) (short : cfg.visits.length < cfg.totalEntries) :
    Ranking (okStep cfg) Action.party (Alive cfg) (·.main = .done) (State.rank cfg)
      (State.helpful cfg) where
  can := fun _ ok going => can_helpful ok usable going
  keep := fun _ _ _ ok _ taken => alive_step ok taken
  lower := fun _ _ _ ok _ taken =>
    .inr (rank_step ok usable (fun _ => ok.pollEntry_lt short) taken)

/-- In any case it leads to the end of the submission loop. -/
theorem ranking_submitted (usable : Usable cfg) :
    Ranking (okStep cfg) Action.party
      (fun s => Alive cfg s ∧ (s.main.left = false ∨ s.main = .waitWakeup))
      (·.main = .waitWakeup) (State.rank cfg) (State.helpful cfg) where
  can := by
    rintro s ⟨ok, at_⟩ going
    refine can_helpful ok usable fun done => ?_
    simp [done, MainPc.left] at at_
  keep := by
    rintro s a t ⟨ok, at_⟩ going taken
    have submitting : s.main.left = false := by simpa [going] using at_
    refine ⟨alive_step ok taken, ?_⟩
    cases move_of_step (okStep_eq_some.mp taken).2
    case mainControl control => cases control <;> simp_all [MainPc.left]
    all_goals first | exact .inl submitting | simp_all [MainPc.left, appendEntry, acceptDesc]
  lower := by
    rintro s a t ⟨ok, at_⟩ going taken
    refine .inr (rank_step ok usable (fun main => ?_) taken)
    simp [main, MainPc.left] at at_

end DsaTest.Protocol
