import DsaTest.Protocol.Move

/-! How far `dsa_copy` and the completion thread are, and what their shared
flags then say: the protocol of `thread_execution` and `completion_status`. -/
namespace DsaTest.Protocol

variable {cfg : Config} {s t : State} {a : Action}

def MainPc.left : MainPc → Bool
  | .waitWakeup | .clearExecution | .waitCompletion | .done => true
  | _ => false

def MainPc.stopped : MainPc → Bool
  | .waitCompletion | .done => true
  | _ => false

/-- In the iteration of the submission loop that has queued its entry and has
not yet made sure that `thread_execution` is set. -/
def MainPc.starting : MainPc → Bool
  | .submit _ | .testExecution | .setExecution => true
  | _ => false

def MainPc.pending : MainPc → List Nat
  | .append k _ _ => [k]
  | _ => []

def ThreadPc.unlinking : ThreadPc → Bool
  | .unlink _ _ _ => true
  | _ => false

/-- Past the drain test, with `completion_status` written or about to be. -/
def ThreadPc.finished : ThreadPc → Bool
  | .setStatus | .clearWakeup | .waitAgain => true
  | _ => false

def ThreadPc.reported : ThreadPc → Bool
  | .clearWakeup | .waitAgain => true
  | _ => false

@[simp] theorem advanceTo_unlinking (l : List Nat) (n : Option Nat) :
    (advanceTo l n).unlinking = false := by cases n <;> rfl

@[simp] theorem advanceTo_finished (l : List Nat) (n : Option Nat) :
    (advanceTo l n).finished = false := by cases n <;> rfl

@[simp] theorem advanceTo_reported (l : List Nat) (n : Option Nat) :
    (advanceTo l n).reported = false := by cases n <;> rfl

theorem answered_same {β : Type*} (π : Entry → β)
    (same : ∀ v trace, π { v with trace := trace } = π v) (s : State) (d : Slot) (status e : Nat) :
    π (answered s d status e) = π (s.entry e) := by
  unfold answered
  cases s.holder d with
  | none => rfl
  | some e' => exact modifyAt_same π (fun v => same v _) _ _ _

theorem Move.static (move : Move cfg s a t) {e : Nat} (old : e < s.count) :
    (t.entry e).wq = (s.entry e).wq ∧ (t.entry e).desc = (s.entry e).desc ∧
      (t.entry e).batchInfo = (s.entry e).batchInfo := by
  cases move
  case append =>
    simp [appendEntry, Nat.ne_of_lt old]
  case accept =>
    exact ⟨modifyAt_same Entry.wq (by intro; rfl) _ _ _, modifyAt_same Entry.desc (by intro; rfl) _ _ _,
      modifyAt_same Entry.batchInfo (by intro; rfl) _ _ _⟩
  case retire | unlink =>
    exact ⟨modifyAt_same Entry.wq (by intro; rfl) _ _ _, modifyAt_same Entry.desc (by intro; rfl) _ _ _,
      modifyAt_same Entry.batchInfo (by intro; rfl) _ _ _⟩
  case answer d status _ _ =>
    exact ⟨answered_same Entry.wq (by intros; rfl) _ _ _ _, answered_same Entry.desc (by intros; rfl) _ _ _ _,
      answered_same Entry.batchInfo (by intros; rfl) _ _ _ _⟩
  all_goals exact ⟨rfl, rfl, rfl⟩

theorem Move.count_le (move : Move cfg s a t) : s.count ≤ t.count := by
  cases move
  case append => exact Nat.le_succ _
  all_goals exact Nat.le_refl _

theorem Move.accepted (move : Move cfg s a t) {e : Nat} (old : e < s.count) :
    (t.entry e).accepted = (s.entry e).accepted ∨
      s.main = .submit e ∧ t.main = .testExecution ∧ (t.entry e).accepted = true := by
  cases move
  case append => simp [appendEntry, Nat.ne_of_lt old]
  case accept e' d at_ _ =>
    by_cases h : e = e'
    · subst h
      exact .inr ⟨at_, rfl, by simp [acceptDesc]⟩
    · exact .inl (by simp [acceptDesc, modifyAt_ne _ _ h])
  case retire | unlink => exact .inl (modifyAt_same Entry.accepted (by intro; rfl) _ _ _)
  case answer => exact .inl (answered_same Entry.accepted (by intros; rfl) _ _ _ _)
  all_goals exact .inl rfl

def State.queued (s : State) : List Nat :=
  (List.range s.count).map fun e => (s.entry e).wq

theorem State.queued_congr (count : t.count = s.count)
    (same : ∀ e < s.count, (t.entry e).wq = (s.entry e).wq) : t.queued = s.queued := by
  unfold State.queued
  rw [count]
  exact List.map_congr_left fun e member => same e (List.mem_range.mp member)

structure PhaseOk (cfg : Config) (s : State) : Prop where
  schedule : s.queued ++ s.main.pending ++ s.todo.map Prod.snd = cfg.visits.map Prod.snd
  batchInfo : ∀ e < s.count, (s.entry e).batchInfo = cfg.batched (s.entry e).wq
  created : ∀ k batchInfo desc, s.main = .append k batchInfo desc → batchInfo = cfg.batched k
  left : s.main.left → s.todo = []
  submitting : ∀ e, s.main = .submit e → e + 1 = s.count ∧ (s.entry e).accepted = false
  executing : (s.main.starting → 1 < s.count) → s.main.stopped = false → s.main ≠ .oops →
    0 < s.count → s.threadExecution = true
  stopped : s.main.stopped → s.threadExecution = false
  started : s.thread ≠ .waitExecution → s.threadExecution = true ∨ s.main.stopped
  unlinking : s.thread.unlinking → s.main.stopped
  empty : s.thread.finished → s.main.stopped ∧ s.idxdDescLists = []
  reported : s.completionStatus ≠ 0 ↔ s.thread.reported
  result : s.completionStatus ≠ 0 → s.completionStatus = if s.completionError then 2 else 1
  done : s.main = .done → s.completionStatus ≠ 0

theorem phase_initial : PhaseOk cfg (initial cfg) where
  schedule := by simp [initial, State.queued, MainPc.pending]
  batchInfo := by simp [initial]
  created := by simp [initial]
  left := by simp [initial, MainPc.left]
  submitting := by simp [initial]
  executing := by simp [initial]
  stopped := by simp [initial, MainPc.stopped]
  started := by simp [initial]
  unlinking := by simp [initial, ThreadPc.unlinking]
  empty := by simp [initial, ThreadPc.finished]
  reported := by simp [initial, ThreadPc.reported]
  result := by simp [initial]
  done := by simp [initial]

theorem schedule_step (ok : PhaseOk cfg s) (move : Move cfg s a t) :
    t.queued ++ t.main.pending ++ t.todo.map Prod.snd = cfg.visits.map Prod.snd := by
  have before := ok.schedule
  by_cases grown : t.count = s.count
  · rw [State.queued_congr grown fun e old => (move.static old).1]
    cases move
    case alloc at_ next _ _ => simpa [MainPc.pending, at_, next] using before
    case createNull at_ next _ => simpa [MainPc.pending, at_, next] using before
    case createOops at_ => simpa [MainPc.pending, at_] using before
    case append => simp [appendEntry] at grown
    case submitNull at_ _ => simpa [MainPc.pending, at_] using before
    case accept at_ _ => simpa [MainPc.pending, at_, acceptDesc] using before
    case reject at_ _ => simpa [MainPc.pending, at_] using before
    case setExecution at_ => simpa [MainPc.pending, at_] using before
    case clearExecution at_ => simpa [MainPc.pending, at_] using before
    case mainControl control => cases control <;> simp_all [MainPc.pending]
    all_goals exact before
  · cases move
    case append k b d at_ =>
      have queued : (appendEntry s k b d).queued = s.queued ++ [k] := by
        simp only [State.queued, appendEntry, List.range_succ, List.map_append, List.map_cons,
          List.map_nil, Function.update_self]
        congr 1
        refine List.map_congr_left fun e member => ?_
        rw [Function.update_of_ne (Nat.ne_of_lt (List.mem_range.mp member))]
      rw [queued]
      simpa [MainPc.pending, at_, appendEntry] using before
    all_goals exact absurd rfl grown

theorem verdict_ne_zero (error : Bool) : (if error then 2 else 1) ≠ 0 := by
  cases error <;> decide

theorem PhaseOk.batchInfo_step (ok : PhaseOk cfg s) (move : Move cfg s a t) :
    ∀ e < t.count, (t.entry e).batchInfo = cfg.batched (t.entry e).wq := by
  intro e new
  by_cases old : e < s.count
  · obtain ⟨wq, _, batchInfo⟩ := move.static old
    rw [wq, batchInfo, ok.batchInfo e old]
  · cases move
    case append k b d at_ =>
      have last : e = s.count := by
        have : e < s.count + 1 := new
        omega
      simpa [appendEntry, last] using ok.created k b d at_
    all_goals exact absurd new old

theorem PhaseOk.submitting_step (ok : PhaseOk cfg s) (move : Move cfg s a t) :
    ∀ e, t.main = .submit e → e + 1 = t.count ∧ (t.entry e).accepted = false := by
  have submitting := ok.submitting
  cases move
  case mainControl control => cases control <;> simp_all
  case append => simp [appendEntry]
  case accept => simp [acceptDesc]
  case retire | unlink =>
    intro e at_
    obtain ⟨last, fresh⟩ := submitting e at_
    exact ⟨last, (modifyAt_same Entry.accepted (by intro; rfl) _ _ _).trans fresh⟩
  case answer =>
    intro e at_
    obtain ⟨last, fresh⟩ := submitting e at_
    exact ⟨last, (answered_same Entry.accepted (by intros; rfl) _ _ _ _).trans fresh⟩
  all_goals simp_all

theorem PhaseOk.executing_step (ok : PhaseOk cfg s) (move : Move cfg s a t) :
    (t.main.starting → 1 < t.count) → t.main.stopped = false → t.main ≠ .oops →
      0 < t.count → t.threadExecution = true := by
  have executing := ok.executing
  cases move
  case mainControl control =>
    cases control
    case idle at_ _ => simpa [MainPc.starting, MainPc.stopped, at_] using executing
    all_goals simp_all [MainPc.starting, MainPc.stopped]
  all_goals simp_all [MainPc.starting, MainPc.stopped, appendEntry, acceptDesc, execStmt]

theorem PhaseOk.started_step (ok : PhaseOk cfg s) (move : Move cfg s a t) :
    t.thread ≠ .waitExecution → t.threadExecution = true ∨ t.main.stopped := by
  have started := ok.started
  cases move
  case mainControl control => cases control <;> simp_all [MainPc.stopped]
  case threadControl control => cases control <;> simp_all
  all_goals simp_all [MainPc.stopped, appendEntry, acceptDesc, execStmt]

theorem PhaseOk.unlinking_step (ok : PhaseOk cfg s) (move : Move cfg s a t) :
    t.thread.unlinking → t.main.stopped := by
  have started := ok.started
  have unlinking := ok.unlinking
  cases move
  case mainControl control => cases control <;> simp_all [MainPc.stopped]
  case threadControl control =>
    cases control
    case scan | advance => simp_all
    all_goals simp_all [ThreadPc.unlinking]
  all_goals simp_all [MainPc.stopped, ThreadPc.unlinking, appendEntry, acceptDesc, execStmt]

theorem PhaseOk.empty_step (ok : PhaseOk cfg s) (move : Move cfg s a t) :
    t.thread.finished → t.main.stopped ∧ t.idxdDescLists = [] := by
  have started := ok.started
  have empty := ok.empty
  cases move
  case mainControl control => cases control <;> simp_all [MainPc.stopped]
  case threadControl control =>
    cases control
    case scan | advance => simp_all
    all_goals simp_all [ThreadPc.finished]
  all_goals simp_all [MainPc.stopped, ThreadPc.finished, appendEntry, acceptDesc, execStmt]

theorem PhaseOk.reported_step (ok : PhaseOk cfg s) (move : Move cfg s a t) :
    t.completionStatus ≠ 0 ↔ t.thread.reported := by
  have reported := ok.reported
  cases move
  case threadControl control =>
    cases control
    case scan at_ | advance at_ =>
      have quiet : s.thread.reported = false := by rw [at_]; rfl
      simpa [quiet] using reported
    case rewake at_ running =>
      have idle := ok.stopped (ok.empty (by simp [at_, ThreadPc.finished])).1
      simp [running] at idle
    all_goals simp_all [ThreadPc.reported]
  case setStatus => exact iff_of_true (verdict_ne_zero _) rfl
  all_goals simp_all [ThreadPc.reported, appendEntry, acceptDesc, execStmt]

theorem phase_step (ok : PhaseOk cfg s) (move : Move cfg s a t) : PhaseOk cfg t where
  schedule := schedule_step ok move
  batchInfo := ok.batchInfo_step move
  created := by
    have created := ok.created
    cases move
    case alloc => rintro _ _ _ ⟨⟩; rfl
    case createNull single => rintro _ _ _ ⟨⟩; exact single.symm
    case mainControl control => cases control <;> simp
    all_goals simp_all [appendEntry, acceptDesc, execStmt]
  left := by
    have left := ok.left
    cases move
    case mainControl control => cases control <;> simp_all [MainPc.left]
    all_goals simp_all [MainPc.left, appendEntry, acceptDesc, execStmt]
  submitting := ok.submitting_step move
  executing := ok.executing_step move
  stopped := by
    have stopped := ok.stopped
    cases move
    case mainControl control => cases control <;> simp_all [MainPc.stopped]
    all_goals simp_all [MainPc.stopped, appendEntry, acceptDesc, execStmt]
  started := ok.started_step move
  unlinking := ok.unlinking_step move
  empty := ok.empty_step move
  reported := ok.reported_step move
  result := by
    have reported := ok.reported
    have result := ok.result
    cases move
    all_goals simp_all [ThreadPc.reported, appendEntry, acceptDesc, execStmt]
  done := by
    have done := ok.done
    cases move
    case mainControl control => cases control <;> simp_all
    case setStatus => exact fun _ => verdict_ne_zero _
    all_goals simp_all [appendEntry, acceptDesc, execStmt]

end DsaTest.Protocol
