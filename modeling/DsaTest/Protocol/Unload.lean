import DsaTest.Protocol.Completion

/-! `my_exit`, which the module loader runs once `my_init` has returned. `kthread_stop` asks
the completion thread to return, wakes it and waits for it. Whether that ends an interruptible
wait is up to the kernel: since Linux 6.0 the request counts as a signal and does, before that
the thread looks at `thread_execution` and sleeps on. -/
namespace DsaTest.Protocol

open Machine

inductive ExitPc
  | loaded
  | kthreadStop
  | releaseChannels
  | listDelInit
  | exitModule
  | unloaded
  deriving DecidableEq, Repr

/-- `returned` tells that the thread has left `dsa_desc_complete`. -/
structure UnloadState where
  base : State
  exit : ExitPc
  returned : Bool

inductive UnloadAction
  | step (a : Action)
  | exit
  deriving DecidableEq, Repr

def UnloadState.shouldStop (u : UnloadState) : Bool := u.exit ≠ .loaded

def ThreadPc.afterWait : ThreadPc → Option ThreadPc
  | .waitExecution => some .setWakeup
  | .waitAgain => some .guard
  | _ => none

/-- A step of the thread. `ends` tells whether `kthread_stop` ends a wait. -/
def waitStep (ends : Bool) (cfg : Config) (u : UnloadState) : Option State :=
  match u.base.thread.afterWait with
  | none => threadStep cfg u.base
  | some pc =>
    if u.shouldStop ∧ ends then some { u.base with thread := pc } else threadStep cfg u.base

/-- The thread tests `kthread_should_stop` at the head of its loops, which it reaches after
the request only from its waits. -/
def unloadThread (ends : Bool) (cfg : Config) (u : UnloadState) : Option UnloadState :=
  if u.returned then none
  else if u.shouldStop ∧ u.base.thread = .guard then some { u with returned := true }
  else (waitStep ends cfg u).map fun s => { u with base := s }

def myExit (u : UnloadState) : Option UnloadState :=
  match u.exit with
  | .loaded => if u.base.main = .done then some { u with exit := .kthreadStop } else none
  | .kthreadStop => if u.returned then some { u with exit := .releaseChannels } else none
  | .releaseChannels => some { u with exit := .listDelInit }
  | .listDelInit => some { u with exit := .exitModule }
  | .exitModule => some { u with exit := .unloaded }
  | .unloaded => none

def unloadStep (ends : Bool) (cfg : Config) (u : UnloadState) : UnloadAction → Option UnloadState
  | .step .thread => unloadThread ends cfg u
  | .step a => (step cfg u.base a).map fun s => { u with base := s }
  | .exit => myExit u

abbrev UnloadRun (ends : Bool) (cfg : Config) (h : List (UnloadState × UnloadAction))
    (u : UnloadState) : Prop :=
  Machine.Run (unloadStep ends cfg) ⟨initial cfg, .loaded, false⟩ h u

variable {ends : Bool} {cfg : Config} {s t : State} {a : Action} {u v : UnloadState}
  {h g : List (UnloadState × UnloadAction)}

theorem asleep_of_done (ok : Inv cfg s) (at_ : s.main = .done) :
    s.thread = .clearWakeup ∨ s.thread = .waitAgain := by
  have reported := ok.phase.reported.mp (ok.phase.done at_)
  cases thread : s.thread <;> simp_all [ThreadPc.reported]

theorem calm_of_done (ok : Inv cfg s) (at_ : s.main = .done) (d : Slot) : s.busy d = false := by
  rw [← Bool.not_eq_true]
  intro busy
  obtain ⟨e, old, desc, untouched, _⟩ := ok.entries.sent d busy
  have listed := (ok.entries.waiting_of old desc (.inr untouched)).2.listed
  simp [(reported_state ok (ok.phase.done at_)).2.1] at listed

/-- `dsa_copy` is over and its thread is the only one at work. -/
structure Ended (s : State) : Prop where
  done : s.main = .done
  idle : s.threadExecution = false
  empty : s.idxdDescLists = []
  calm : ∀ d, s.busy d = false

theorem ended_of_done (ok : Inv cfg s) (at_ : s.main = .done) : Ended s where
  done := at_
  idle := ok.phase.stopped (by simp [at_, MainPc.stopped])
  empty := (reported_state ok (ok.phase.done at_)).2.1
  calm := calm_of_done ok at_

inductive ThreadStops (ends : Bool) (u : UnloadState) : Prop
  | late : u.base.thread = .clearWakeup → u.returned = false → ThreadStops ends u
  | asleep : u.base.thread = .waitAgain → u.returned = false → ThreadStops ends u
  | woken : u.base.thread = .guard → u.returned = false → ends = true → ThreadStops ends u
  | returned : u.returned = true → ends = true → ThreadStops ends u

structure Stopping (ends : Bool) (u : UnloadState) : Prop where
  ended : Ended u.base
  asked : u.exit ≠ .loaded
  thread : ThreadStops ends u
  waits : u.returned = false → u.exit = .kthreadStop

def ThreadPc.stopRank : ThreadPc → Nat
  | .clearWakeup => 3
  | .waitAgain => 2
  | .guard => 1
  | _ => 0

def ExitPc.rank : ExitPc → Nat
  | .loaded => 5
  | .kthreadStop => 4
  | .releaseChannels => 3
  | .listDelInit => 2
  | .exitModule => 1
  | .unloaded => 0

def UnloadState.rank (u : UnloadState) : Nat :=
  (if u.returned then 0 else u.base.thread.stopRank) + u.exit.rank

theorem Stopping.rank_le (ok : Stopping ends u) : u.rank ≤ 7 := by
  have exit : u.exit.rank ≤ 4 := by
    have asked := ok.asked
    cases at_ : u.exit <;> simp_all [ExitPc.rank]
  have thread : u.base.thread.stopRank ≤ 3 := by
    cases u.base.thread <;> simp [ThreadPc.stopRank]
  unfold UnloadState.rank
  split <;> omega

theorem Ended.still (ended : Ended s) (other : a ≠ .thread) : step cfg s a = none := by
  cases a with
  | thread => contradiction
  | device d status => simp [step, deviceStep, ended.calm d]
  | allocDesc index => simp [step, mainStep, ended.done]
  | createFails cause => simp [step, mainStep, ended.done]
  | submitFails => simp [step, mainStep, ended.done]
  | main => simp [step, mainStep, ended.done]

theorem unloadThread_inside (left : u.returned = false)
    (inside : ¬ (u.shouldStop ∧ u.base.thread = .guard)) :
    unloadThread ends cfg u = (waitStep ends cfg u).map fun s => { u with base := s } := by
  rw [unloadThread, if_neg (by simp [left]), if_neg inside]

theorem stopping_thread (ok : Stopping ends u) (taken : unloadThread ends cfg u = some v) :
    Stopping ends v ∧ v.rank < u.rank := by
  have asked : u.shouldStop = true := by simp [UnloadState.shouldStop, ok.asked]
  cases ok.thread with
  | late at_ left =>
    rw [unloadThread_inside left (by simp [at_])] at taken
    simp only [waitStep, at_, ThreadPc.afterWait, threadStep] at taken
    cases taken
    exact ⟨⟨⟨ok.ended.done, ok.ended.idle, ok.ended.empty, ok.ended.calm⟩, ok.asked,
      .asleep rfl left, ok.waits⟩, by simp [UnloadState.rank, left, at_, ThreadPc.stopRank]⟩
  | asleep at_ left =>
    cases ends with
    | false =>
      rw [unloadThread_inside left (by simp [at_])] at taken
      simp [waitStep, at_, ThreadPc.afterWait, threadStep, ok.ended.idle] at taken
    | true =>
      rw [unloadThread_inside left (by simp [at_])] at taken
      simp only [waitStep, at_, ThreadPc.afterWait, asked] at taken
      cases taken
      exact ⟨⟨⟨ok.ended.done, ok.ended.idle, ok.ended.empty, ok.ended.calm⟩, ok.asked,
        .woken rfl left rfl, ok.waits⟩, by simp [UnloadState.rank, left, at_, ThreadPc.stopRank]⟩
  | woken at_ left able =>
    simp only [unloadThread, left, at_, asked] at taken
    cases taken
    exact ⟨⟨ok.ended, ok.asked, .returned rfl able, by simp⟩,
      by simp [UnloadState.rank, left, at_, ThreadPc.stopRank]⟩
  | returned left able => simp [unloadThread, left] at taken

theorem stopping_exit (ok : Stopping ends u) (taken : myExit u = some v) :
    Stopping ends v ∧ v.rank < u.rank := by
  have returned : u.returned = true := by
    by_contra left
    simp [myExit, ok.waits (by simpa using left), left] at taken
  have able : ends = true := by
    cases ok.thread <;> simp_all
  have asked := ok.asked
  unfold myExit at taken
  split at taken
  case h_1 loaded => contradiction
  case h_6 => contradiction
  case h_2 at_ =>
    rw [if_pos returned] at taken
    cases taken
    exact ⟨⟨ok.ended, by simp, .returned returned able, by simp [returned]⟩,
      by simp [UnloadState.rank, at_, ExitPc.rank]⟩
  all_goals
    rename_i at_
    cases taken
    exact ⟨⟨ok.ended, by simp, .returned returned able, by simp [returned]⟩,
      by simp [UnloadState.rank, at_, ExitPc.rank]⟩

theorem stopping_step (ok : Stopping ends u) {a : UnloadAction}
    (taken : unloadStep ends cfg u a = some v) : Stopping ends v ∧ v.rank < u.rank := by
  unfold unloadStep at taken
  split at taken
  case h_1 => exact stopping_thread ok taken
  case h_2 other => simp [ok.ended.still other] at taken
  case h_3 => exact stopping_exit ok taken

/-- Where nothing can happen any more `my_exit` is through, or it waits for a sleeping thread. -/
theorem Stopping.stuck (ok : Stopping ends u) (stuck : ∀ a, unloadStep ends cfg u a = none) :
    if ends then u.exit = .unloaded ∧ u.returned = true
    else u.exit = .kthreadStop ∧ u.base.thread = .waitAgain := by
  have asked : u.shouldStop = true := by simp [UnloadState.shouldStop, ok.asked]
  have thread := stuck (.step .thread)
  have exit := stuck .exit
  simp only [unloadStep] at thread exit
  cases ok.thread with
  | late at_ left =>
    simp [unloadThread, left, at_, waitStep, ThreadPc.afterWait, threadStep] at thread
  | asleep at_ left =>
    cases ends with
    | false => simp [ok.waits left, at_]
    | true => simp [unloadThread, left, at_, waitStep, ThreadPc.afterWait, asked] at thread
  | woken at_ left able => simp [unloadThread, left, at_, asked] at thread
  | returned left able =>
    have asked := ok.asked
    cases at_ : u.exit <;> simp_all [myExit]

/-- Up to `my_exit` the module runs as before. -/
inductive UnloadOk (ends : Bool) (cfg : Config) (u : UnloadState) : Prop
  | loaded : Inv cfg u.base → u.exit = .loaded → u.returned = false → UnloadOk ends cfg u
  | stopping : Stopping ends u → UnloadOk ends cfg u

theorem loaded_step (ok : Inv cfg u.base) (loaded : u.exit = .loaded) (left : u.returned = false)
    {a : UnloadAction} (taken : unloadStep ends cfg u a = some v) : UnloadOk ends cfg v := by
  have base {a : Action} {t : State} (stepped : step cfg u.base a = some t) :
      UnloadOk ends cfg { u with base := t } := .loaded (inv_step ok stepped) loaded left
  have calm : u.shouldStop = false := by simp [UnloadState.shouldStop, loaded]
  unfold unloadStep at taken
  split at taken
  case h_1 =>
    have same : waitStep ends cfg u = step cfg u.base .thread := by
      unfold waitStep
      split <;> simp [calm, step]
    rw [unloadThread_inside left (by simp [calm]), same] at taken
    obtain ⟨t, stepped, rfl⟩ := Option.map_eq_some_iff.mp taken
    exact base stepped
  case h_2 =>
    obtain ⟨t, stepped, rfl⟩ := Option.map_eq_some_iff.mp taken
    exact base stepped
  case h_3 =>
    simp only [myExit, loaded] at taken
    split at taken
    · rename_i done
      cases taken
      refine .stopping ⟨ended_of_done ok done, by simp, ?_, fun _ => rfl⟩
      rcases asleep_of_done ok done with late | asleep
      · exact .late late left
      · exact .asleep asleep left
    · contradiction

theorem unloadOk_of_run (run : UnloadRun ends cfg h u) : UnloadOk ends cfg u := by
  refine run.invariant (.loaded ⟨phase_initial, entries_initial, counts_initial⟩ rfl rfl) ?_
  intro u a v ok taken
  cases ok with
  | loaded ok loaded left => exact loaded_step ok loaded left taken
  | stopping ok => exact .stopping (stopping_step ok taken).1

theorem stopping_run (ok : Stopping ends u) (run : Machine.Run (unloadStep ends cfg) u g v) :
    Stopping ends v ∧ g.length + v.rank ≤ u.rank := by
  induction run with
  | start => simp [ok]
  | next before taken ih =>
    obtain ⟨still, bound⟩ := ih
    obtain ⟨next, lower⟩ := stopping_step still taken
    exact ⟨next, by rw [List.length_cons]; omega⟩

/-- Whether the module can be unloaded is decided by `kthread_stop`. From the call on at most
seven steps are left, in any order, with no entry listed and no device at work. If the call
ends the thread's wait the thread returns and `my_exit` gets through. Otherwise the thread sleeps
on in its second wait, since nobody sets `thread_execution` again, and the call never returns. -/
theorem unload_ends (run : UnloadRun ends cfg h u) (asked : u.exit ≠ .loaded)
    (more : Machine.Run (unloadStep ends cfg) u g v) :
    g.length ≤ 7 ∧ v.base.idxdDescLists = [] ∧ (∀ d, v.base.busy d = false) ∧
      ((∀ a, unloadStep ends cfg v a = none) →
        if ends then v.exit = .unloaded ∧ v.returned = true
        else v.exit = .kthreadStop ∧ v.base.thread = .waitAgain) := by
  cases unloadOk_of_run run with
  | loaded _ loaded _ => contradiction
  | stopping ok =>
    obtain ⟨still, bound⟩ := stopping_run ok more
    have most := ok.rank_le
    exact ⟨by omega, still.ended.empty, still.ended.calm, still.stuck⟩

/-- The whole of `my_exit` after one copy, and before Linux 6.0 the wait it ends in. -/
theorem unload_ends_one :
    (∃ h u g v, UnloadRun true (oneQueue .loop) h u ∧ u.exit = .kthreadStop ∧
      Machine.Run (unloadStep true (oneQueue .loop)) u g v ∧ v.exit = .unloaded ∧
      g.length ≤ 7 ∧ v.base.idxdDescLists = []) ∧
    ∃ h u, UnloadRun false (oneQueue .loop) h u ∧ u.exit = .kthreadStop ∧
      u.base.thread = .waitAgain ∧ u.base.idxdDescLists = [] := by
  constructor
  · have begun : (exec (unloadStep true (oneQueue .loop)) (copyActions.map .step ++ [.exit])
        ⟨initial (oneQueue .loop), .loaded, false⟩).map
          (fun u => (u.exit, (exec (unloadStep true (oneQueue .loop))
            (List.replicate 3 (.step .thread) ++ List.replicate 4 .exit) u).map (·.exit))) =
        some (.kthreadStop, some .unloaded) := by decide +kernel
    obtain ⟨u, result, both⟩ := Option.map_eq_some_iff.mp begun
    rw [Prod.mk.injEq] at both
    obtain ⟨v, rest, through⟩ := Option.map_eq_some_iff.mp both.2
    obtain ⟨h, run, _⟩ := run_of_exec result
    obtain ⟨g, more, _⟩ := run_of_exec rest
    obtain ⟨short, empty, _⟩ := unload_ends run (by simp [both.1]) more
    exact ⟨h, u, g, v, run, both.1, more, through, short, empty⟩
  · have asleep : (exec (unloadStep false (oneQueue .loop))
        (copyActions.map .step ++ [.exit, .step .thread])
        ⟨initial (oneQueue .loop), .loaded, false⟩).map (fun u => (u.exit, u.base.thread)) =
        some (.kthreadStop, .waitAgain) := by decide +kernel
    obtain ⟨u, result, both⟩ := Option.map_eq_some_iff.mp asleep
    rw [Prod.mk.injEq] at both
    obtain ⟨h, run, _⟩ := run_of_exec result
    obtain ⟨_, empty, _⟩ := unload_ends run (by simp [both.1]) .start
    exact ⟨h, u, run, both.1, both.2, empty⟩

end DsaTest.Protocol
