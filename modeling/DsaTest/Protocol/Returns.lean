import DsaTest.Protocol.Rank

/-! Whether `dsa_copy` is sure to return, under weak fairness of the three parties. -/
namespace DsaTest.Protocol

open Stmt Machine

variable {cfg : Config} {s t : State} {a : Action}

def heldStep (cfg : Config) (s : State) (a : Action) : Option State :=
  if a.party = .dsaCopy then none else okStep cfg s a

theorem heldStep_eq_some :
    heldStep cfg s a = some t ↔ a.party ≠ .dsaCopy ∧ okStep cfg s a = some t := by
  by_cases mine : a.party = .dsaCopy <;> simp [heldStep, mine]

theorem exec_of_held {acts : List Action} (result : exec (heldStep cfg) acts s = some t) :
    exec (okStep cfg) acts s = some t := by
  induction acts generalizing s with
  | nil => exact result
  | cons a rest ih =>
    obtain ⟨u, taken, result⟩ := Option.bind_eq_some_iff.mp result
    exact Option.bind_eq_some_iff.mpr ⟨u, (heldStep_eq_some.mp taken).2, ih result⟩

def tempLeft (count : Nat) : Option Nat → Nat
  | none => 0
  | some q => count - q

def State.passRank (s : State) : Nat :=
  match s.thread with
  | .drained => 1
  | .scan => 3 * s.count + 4
  | .visit _ n => 3 * tempLeft s.count n + 3
  | .retire _ n [] => 3 * tempLeft s.count n + 2
  | .advance n => 3 * tempLeft s.count n + 1
  | _ => 0

theorem passRank_advanceTo (ok : EntriesOk cfg s) {n : Option Nat}
    (member : ∀ q, n = some q → q ∈ s.idxdDescLists) :
    State.passRank { s with thread := advanceTo s.idxdDescLists n } < 3 * tempLeft s.count n + 1 := by
  cases n with
  | none => simp [advanceTo, State.passRank]
  | some q =>
    have inside := ok.below q (member q rfl)
    simp only [advanceTo, State.passRank]
    cases following : nextEntry s.idxdDescLists q with
    | none => simp only [tempLeft]; omega
    | some q' =>
      have further := nextEntry_gt ok.sorted following
      have inside' := ok.below q' (nextEntry_mem following)
      simp only [tempLeft]
      omega

theorem Alive.passRank_lt (ok : Alive cfg s) (at_ : s.main = .waitWakeup)
    (running : s.threadExecution = true) (all : s.pollEntry = cfg.totalEntries)
    (move : Move cfg s .thread t) (same : t.entry = s.entry)
    (phase : t.thread.phase = s.thread.phase) :
    t.thread = .guard ∨ s.thread = .guard ∨ t.passRank < s.passRank := by
  have busy : s.thread.finished = false := by
    have stopped := ok.inv.phase.empty
    simpa [at_, MainPc.stopped] using stopped
  have linked : s.thread.unlinking = false := by
    have stopped := ok.inv.phase.unlinking
    simpa [at_, MainPc.stopped] using stopped
  have marked (pos : Nat) (idle : s.thread.worksOn = none) (current : s.thread.current = some pos) :
      (s.entry pos).completion = true :=
    all_marked ok.inv idle all (ok.inv.entries.here pos current).1
  cases move
  case retire pos n stmt rest at' | unlink pos n stmt rest at' =>
    have longer := congrArg (fun f => (f pos).trace.length) same
    simp [execStmt] at longer
  case setWakeup => exact .inl rfl
  case setStatus at' | clearWakeup at' => simp [at', ThreadPc.finished] at busy
  case threadControl control =>
    cases control
    case wake at' _ => simp [at', ThreadPc.phase] at phase
    case enter at' _ _ | leave at' _ => exact .inr (.inl at')
    case again | rewake => exact .inl rfl
    case scan at' =>
      have lower := passRank_advanceTo ok.inv.entries (n := s.idxdDescLists.head?)
        fun q first => List.mem_of_mem_head? first
      have bound : tempLeft s.count s.idxdDescLists.head? ≤ s.count := by
        cases s.idxdDescLists.head? <;> simp [tempLeft]
      refine .inr (.inr (lower.trans_le ?_))
      simp only [State.passRank, at']
      omega
    case advance n at' =>
      have lower := passRank_advanceTo ok.inv.entries (n := n) fun q next =>
        (ok.inv.entries.next q (by simpa [at', ThreadPc.next] using next)).1
      refine .inr (.inr (lower.trans_le ?_))
      simp only [State.passRank, at']
      omega
    case marked at' _ => exact .inr (.inr (by simp [State.passRank, at']))
    case keep at' _ => exact .inr (.inr (by simp [State.passRank, at']))
    case unmarked pos n at' unmarked =>
      simp [marked pos (by simp [at', ThreadPc.worksOn]) (by simp [at', ThreadPc.current])]
        at unmarked
    case missing pos n at' _ | missingAgain pos n at' _ | success pos n _ at' _ _ |
        notSuccess pos n _ at' _ _ | error pos n _ at' _ _ | notError pos n _ at' _ _ =>
      have unmarked := ok.inv.entries.testing pos (by simp [at', ThreadPc.testing])
      simp [marked pos (by simp [at', ThreadPc.worksOn]) (by simp [at', ThreadPc.current])]
        at unmarked
    case drop idle | drained idle _ => simp [running] at idle
    case unlinked at' => simp [at', ThreadPc.unlinking] at linked

theorem Alive.out_of_uncounted (ok : Alive cfg s) (calm : ∀ d, s.busy d = false)
    (at_ : s.main = .waitWakeup) (few : s.pollEntry < s.count) (move : Move cfg s .thread t)
    (same : t.entry = s.entry) : ∃ e < s.count, .ran descComplete ∉ (s.entry e).trace := by
  obtain ⟨e, old, uncounted⟩ : ∃ e < s.count, .ran pollIncr ∉ (s.entry e).trace := by
    by_contra all
    push Not at all
    have counted : s.ranOn pollIncr = Finset.range s.count := by
      ext e
      simpa using all e
    have polls := ok.inv.counts.polls
    rw [counted, Finset.card_range] at polls
    omega
  refine ⟨e, old, ?_⟩
  obtain ⟨d, status, done, desc, answered⟩ := ok.answered calm (by simp [at_]) old
  have polls := (mem_branchOf cfg.variant (s.entry e).batchInfo status).2.2.1
  have fresh : pollIncr ∉ done := by simpa [answered.trace] using uncounted
  suffices done = [] by simp [answered.trace, this]
  by_cases working : s.thread.worksOn = some e
  · exfalso
    have progress := answered.progress
    rw [Progress, if_pos working] at progress
    have pending : s.thread.remaining = [] := by
      cases move
      case retire pos n stmt rest at' | unlink pos n stmt rest at' =>
        have longer := congrArg (fun f => (f pos).trace.length) same
        simp [execStmt] at longer
      case threadControl control => cases control <;> simp_all [ThreadPc.worksOn, ThreadPc.remaining]
      all_goals simp_all [ThreadPc.worksOn]
    rw [pending, List.append_nil] at progress
    exact fresh (progress ▸ List.mem_append_left _ polls)
  · rcases answered.settled working with empty | rfl | rfl
    · exact empty
    · exact absurd polls fresh
    · exact absurd (List.mem_append_left _ polls) fresh

open Classical in
noncomputable def State.heldHelpful (s : State) : Party :=
  if ∃ d, s.busy d = true then .device else .thread

open Classical in
noncomputable def State.heldPosition (cfg : Config) (s : State) : Nat :=
  if ∃ d, s.busy d = true then 0
  else if s.pollEntry < cfg.totalEntries then s.seekRank
  else s.passRank

noncomputable def State.heldRank (cfg : Config) (s : State) : ℕ ×ₗ ℕ :=
  toLex (s.work + s.thread.phase, s.heldPosition cfg)

/-- The wait of `dsa_copy` while the others count the last entry. -/
structure Held (cfg : Config) (s : State) : Prop where
  alive : Alive cfg s
  main : s.main = .waitWakeup
  running : s.threadExecution = true
  count : s.count = cfg.totalEntries

theorem Alive.held (ok : Alive cfg s) (usable : Usable cfg) (at_ : s.main = .waitWakeup)
    (full : cfg.visits.length = cfg.totalEntries) : Held cfg s := by
  have all := ok.all_queued (by simp [at_, MainPc.left])
  have some_ := usable.visits_pos
  refine ⟨ok, at_, ok.running (by omega) ?_ ?_, by omega⟩
  · simp [at_, MainPc.starting]
  · simp [at_, MainPc.stopped]

theorem held_step (held : Held cfg s) (taken : heldStep cfg s a = some t) : Held cfg t := by
  obtain ⟨alive, main, running, count⟩ := held
  obtain ⟨other, taken⟩ := heldStep_eq_some.mp taken
  have ok' := alive_step alive taken
  cases move_of_step (okStep_eq_some.mp taken).2
  case retire | unlink | setWakeup | setStatus | clearWakeup | threadControl | answer =>
    exact ⟨ok', main, running, count⟩
  all_goals simp [Action.party] at other

theorem Held.position_lt (held : Held cfg s) (move : Move cfg s .thread t)
    (same : t.entry = s.entry) (phase : t.thread.phase = s.thread.phase)
    (calm : ∀ d, s.busy d = false) (going : ¬ (s.pollEntry = cfg.totalEntries ∧ s.thread = .guard)) :
    t.pollEntry = cfg.totalEntries ∧ t.thread = .guard ∨ t.heldPosition cfg < s.heldPosition cfg := by
  obtain ⟨ok, at_, running, count⟩ := held
  have calm' : ∀ d, t.busy d = false := by
    intro d
    rw [← calm d]
    cases move <;> rfl
  have poll : t.pollEntry = s.pollEntry := by
    cases move
    case retire pos n stmt rest at' | unlink pos n stmt rest at' =>
      have longer := congrArg (fun f => (f pos).trace.length) same
      simp [execStmt] at longer
    all_goals rfl
  simp only [State.heldPosition, calm, calm', exists_const, Bool.false_eq_true, ↓reduceIte, poll]
  by_cases few : s.pollEntry < cfg.totalEntries
  · right
    simp only [few, ↓reduceIte]
    exact ok.seekRank_lt calm (by simp [at_]) (by simp [at_, MainPc.stopped]) running few
      (ok.out_of_uncounted calm at_ (by omega) move same) move same
  · have bound := ok.inv.counts.pollEntry_le
    have all : s.pollEntry = cfg.totalEntries := by omega
    simp only [few, ↓reduceIte]
    rcases ok.passRank_lt at_ running all move same phase with reached | already | lower
    · exact .inl ⟨all, reached⟩
    · exact absurd ⟨all, already⟩ going
    · exact .inr lower

theorem ranking_counted : Ranking (heldStep cfg) Action.party (Held cfg)
    (fun s => s.pollEntry = cfg.totalEntries ∧ s.thread = .guard) (State.heldRank cfg)
    State.heldHelpful where
  can := by
    intro s held _
    by_cases busy : ∃ d, s.busy d = true
    · rw [State.heldHelpful, if_pos busy]
      obtain ⟨d, busy⟩ := busy
      obtain ⟨t, taken⟩ := can_device cfg busy
      exact ⟨_, t, rfl, heldStep_eq_some.mpr ⟨by simp [Action.party], taken⟩⟩
    · rw [State.heldHelpful, if_neg busy]
      obtain ⟨t, taken⟩ : ∃ t, threadStep cfg s = some t :=
        threadStep_enabled held.running held.alive.clean.thread
      exact ⟨.thread, t, rfl, heldStep_eq_some.mpr
        ⟨by simp [Action.party], okStep_eq_some.mpr ⟨rfl, taken⟩⟩⟩
  keep := fun _ _ _ held _ taken => held_step held taken
  lower := by
    intro s a t held going taken
    have held' := held_step held taken
    obtain ⟨other, taken⟩ := heldStep_eq_some.mp taken
    have move := move_of_step (okStep_eq_some.mp taken).2
    rcases work_step held.alive held'.alive other move with less | ⟨rfl, same, work⟩
    · exact .inr (.inl (Prod.Lex.toLex_lt_toLex.mpr (.inl less)))
    · have phase : t.thread.phase = s.thread.phase := by
        have count := move.thread_frame.2.2.2.1
        have : t.work = s.work := by simp only [State.work, same, count]
        omega
      have same_busy : t.busy = s.busy := by cases move <;> rfl
      by_cases busy : ∃ d, s.busy d = true
      · right
        right
        simp [State.heldRank, State.heldPosition, State.heldHelpful, same_busy, busy, work,
          Action.party]
      · rcases held.position_lt move same phase (by simpa using busy) going with reached | lower
        · exact .inl reached
        · exact .inr (.inl (Prod.Lex.toLex_lt_toLex.mpr (.inr ⟨work, lower⟩)))

/-- `dsa_copy` waits for `completion_status` for ever, and only the thread still moves. -/
structure Trapped (cfg : Config) (s : State) : Prop where
  stuck : Stuck cfg s
  calm : ∀ d, s.busy d = false

theorem Trapped.loops (trapped : Trapped cfg s) :
    ∃ t, okStep cfg s .thread = some t ∧ Trapped cfg t := by
  obtain ⟨t, taken⟩ : ∃ t, threadStep cfg s = some t := by
    rcases trapped.stuck.thread with at_ | at_ <;>
      simp [threadStep, at_, trapped.stuck.exhausted, trapped.stuck.listed]
  have move := move_of_threadStep taken
  refine ⟨t, okStep_eq_some.mpr ⟨rfl, taken⟩, stuck_step trapped.stuck move, ?_⟩
  intro d
  rw [← trapped.calm d]
  cases move <;> rfl

theorem Trapped.alone (trapped : Trapped cfg s) {p : Party}
    (able : Can (okStep cfg) Action.party p s) : p = .thread := by
  obtain ⟨a, t, rfl, taken⟩ := able
  obtain ⟨succeeds, done⟩ := okStep_eq_some.mp taken
  have move := move_of_step done
  have blocked : Blocked cfg s := .completion trapped.stuck.main trapped.stuck.unset
  have other := blocked.not_dsaCopy succeeds move
  clear taken done
  cases move
  case answer d status busy _ => simp [trapped.calm d] at busy
  all_goals first | rfl | simp [Action.party] at other

/-- With every entry counted before `dsa_copy` clears `thread_execution` it is trapped. -/
theorem trapped_of_counted (held : Held cfg s) (usable : Usable cfg)
    (all : s.pollEntry = cfg.totalEntries) (at_ : s.thread = .guard) :
    ∃ t, exec (okStep cfg) [.main, .main] s = some t ∧ Trapped cfg t := by
  have woken := held.alive.wakeup
  rw [at_] at woken
  have wakeup : s.threadWakeup = true := woken
  have some_ := usable.visits_pos
  have first : 0 < s.count := by
    have := cfg.visits_length_le
    have := held.count
    omega
  have listed := held.alive.linked (by simp [held.main, MainPc.stopped]) 0 first
  have unset : s.completionStatus = 0 := by
    have reported := held.alive.inv.phase.reported
    simpa [at_, ThreadPc.reported] using reported
  refine ⟨{ s with main := .waitCompletion, threadExecution := false }, ?_, ?_⟩
  · simp [exec, okStep, Action.fails, step, mainStep, held.main, wakeup]
  · refine ⟨⟨rfl, unset, List.ne_nil_of_mem listed, all, .inl at_⟩, ?_⟩
    intro d
    rw [← Bool.not_eq_true]
    intro busy
    obtain ⟨e, old, _, untouched, _⟩ := held.alive.inv.entries.sent d busy
    have marked := all_marked held.alive.inv (by simp [at_, ThreadPc.worksOn]) all old
    cases held.alive.inv.entries.entries e old with
    | missing _ _ unmarked => simp [unmarked] at marked
    | waiting _ _ _ waiting => simp [waiting.completion] at marked
    | answered _ _ _ _ _ answered => simp [answered.trace] at untouched

/-- With equal queues some fair behaviour never lets `dsa_copy` return. -/
theorem exists_trapped (usable : Usable cfg) (full : cfg.visits.length = cfg.totalEntries) :
    ∃ b : Behaviour (okStep cfg) (initial cfg), Fair Action.party b ∧
      ∃ n, ∀ m, n ≤ m → Trapped cfg (b.state m) := by
  obtain ⟨acts, s, result, ⟨ok, _⟩, at_⟩ := (ranking_submitted usable).reaches
    (s := initial cfg) ⟨alive_initial, .inl rfl⟩
  obtain ⟨acts', t, result', held, all, guard⟩ := ranking_counted.reaches
    (ok.held usable at_ full)
  obtain ⟨u, result'', trapped⟩ := trapped_of_counted held usable all guard
  have whole : exec (okStep cfg) (acts ++ (acts' ++ [.main, .main])) (initial cfg) = some u := by
    simp [exec_append, result, exec_of_held result', result'']
  obtain ⟨b, fair, inside⟩ := exists_fair_of_trap whole trapped
    (fun s trapped => trapped.loops) (fun s p trapped able => trapped.alone able)
  exact ⟨b, fair, _, inside⟩

/-- `dsa_copy` is sure to return exactly if two queues differ in their number of
descriptors. With equal queues the thread may count the last entry before it may unlink. -/
theorem returns_iff (usable : Usable cfg) :
    (∀ b : Behaviour (okStep cfg) (initial cfg), Fair Action.party b →
      ∃ n, (b.state n).main = .done) ↔
    ∃ p ∈ cfg.queues, ∃ q ∈ cfg.queues,
      p.descsEntries cfg.variant ≠ q.descsEntries cfg.variant := by
  rw [← cfg.visits_lt_totalEntries_iff]
  constructor
  · intro returns
    by_contra long
    have bound := cfg.visits_length_le
    obtain ⟨b, fair, n, inside⟩ := exists_trapped usable (by omega)
    obtain ⟨m, done⟩ := returns b fair
    have later : (b.state (max n m)).main = .done := by
      apply b.stable (P := fun s => s.main = .done) ?_ (Nat.le_max_right n m) done
      intro s a t done taken
      cases move_of_step (okStep_eq_some.mp taken).2
      case mainControl control => cases control <;> simp_all
      all_goals simp_all [execStmt]
    have waits := (inside _ (Nat.le_max_left n m)).stuck.main
    simp [waits] at later
  · intro short b fair
    exact (ranking_done usable short).eventually fair alive_initial

theorem usable_oneQueue (v : Variant) : Usable (oneQueue v) := by
  constructor <;> simp [oneQueue, Shape.totalNents]

/-- With a single queue the return is never sure. -/
theorem returns_oneQueue : ¬ ∀ b : Behaviour (okStep (oneQueue .batch)) (initial (oneQueue .batch)),
    Fair Action.party b → ∃ n, (b.state n).main = .done := by
  rw [returns_iff (usable_oneQueue .batch)]
  simp [oneQueue]

end DsaTest.Protocol
