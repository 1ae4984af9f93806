import DsaTest.Userspace
import DsaTest.Lib.Attempts

/-! The two retry limits of the user-space copies: what the tests behind the loops
report, against what `enqcmd` has answered and what has been read of the status. -/
namespace DsaTest.Userspace

open Attempts (Trying Ended)

/-- The steps since the last start at `retry`, newest first. -/
def thisPass (h : List (State × Action)) : List (State × Action) :=
  h.takeWhile fun p => p.1.pc ≠ .retry

/-- What `enqcmd` has answered, if the step is a call of it. -/
def attempt : State × Action → Option Bool
  | (_, .enqcmd accepted) => some accepted
  | _ => none

/-- The status that is read, if the step is a test of the polling loop. -/
def check : State × Action → Option Nat
  | (s, .cpu) => if s.pc = .poll then some s.comp.status else none
  | _ => none

def attempts (h : List (State × Action)) : List Bool := (thisPass h).filterMap attempt

def checks (h : List (State × Action)) : List Nat := (thisPass h).filterMap check

def GoesTo (limits : RetryLimits) (s : State) (pc : Pc) : Prop :=
  (cpuStep limits s).map State.pc = some pc

/-- The test behind the `enqcmd` loop decides by what has happened: it ends the program
where nothing was accepted, and polls where a descriptor was. -/
structure EnqReported (limits : RetryLimits) (h : List (State × Action)) (s : State) : Prop where
  exceeded : GoesTo limits s (.done .enqLimit) ↔ ∀ accepted ∈ attempts h, accepted = false
  polled : GoesTo limits s .poll ↔ true ∈ attempts h

/-- The test behind the polling loop ends the program where the last status read is 0. -/
def PollReported (limits : RetryLimits) (h : List (State × Action)) (s : State) : Prop :=
  GoesTo limits s (.done .pollLimit) ↔ (checks h).head? = some 0

variable {limits : RetryLimits} {b : CopyBuffers} {comp : CompletionRecord} {mem : Nat → UInt8}
  {s t : State} {a : Action} {h : List (State × Action)}

theorem attempts_cons (s : State) (a : Action) (h : List (State × Action)) :
    attempts ((s, a) :: h) =
      if s.pc = .retry then [] else (attempt (s, a)).toList ++ attempts h := by
  by_cases at_ : s.pc = .retry
  · simp [attempts, thisPass, at_]
  · rw [if_neg at_]
    cases call : attempt (s, a) with
    | none => simp [attempts, thisPass, at_, call]
    | some accepted => simp [attempts, thisPass, at_, call]

theorem checks_cons (s : State) (a : Action) (h : List (State × Action)) :
    checks ((s, a) :: h) =
      if s.pc = .retry then [] else (check (s, a)).toList ++ checks h := by
  by_cases at_ : s.pc = .retry
  · simp [checks, thisPass, at_]
  · rw [if_neg at_]
    cases read : check (s, a) with
    | none => simp [checks, thisPass, at_, read]
    | some status => simp [checks, thisPass, at_, read]

structure PassOk (limits : RetryLimits) (h : List (State × Action)) (s : State) : Prop where
  enqcmd : s.pc = .enqcmd → Trying (! ·) limits.enqRetryMax s.enqRetry (attempts h) ∧ checks h = []
  enqTest : s.pc = .enqTest → Ended (! ·) limits.enqRetryMax s.enqRetry (attempts h) ∧ checks h = []
  poll : s.pc = .poll → Trying (· == 0) limits.pollRetryMax s.pollRetry (checks h)
  pollTest : s.pc = .pollTest → Ended (· == 0) limits.pollRetryMax s.pollRetry (checks h)
  attempts : (attempts h).length ≤ limits.enqRetryMax + 1
  checks : (checks h).length ≤ limits.pollRetryMax + 1

theorem passOk_quiet (ok : PassOk limits h s) (call : attempt (s, a) = none)
    (read : check (s, a) = none)
    (enqcmd : t.pc = .enqcmd → s.pc = .retry ∧ t.enqRetry = 0 ∨
      s.pc = .enqcmd ∧ t.enqRetry = s.enqRetry)
    (enqTest : t.pc = .enqTest → s.pc = .enqTest ∧ t.enqRetry = s.enqRetry)
    (poll : t.pc = .poll → s.pc = .enqTest ∧ t.pollRetry = 0 ∨
      s.pc = .poll ∧ t.pollRetry = s.pollRetry)
    (pollTest : t.pc = .pollTest → s.pc = .pollTest ∧ t.pollRetry = s.pollRetry) :
    PassOk limits ((s, a) :: h) t := by
  have tried := attempts_cons s a h
  have tested := checks_cons s a h
  rw [call] at tried
  rw [read] at tested
  exact
    { enqcmd := by
        intro there
        rw [tried, tested]
        cases enqcmd there with
        | inl start =>
          rw [if_pos start.1, if_pos start.1, start.2]
          exact ⟨.start, rfl⟩
        | inr stays =>
          rw [if_neg (by simp [stays.1]), if_neg (by simp [stays.1]), stays.2]
          exact ok.enqcmd stays.1
      enqTest := by
        intro there
        obtain ⟨here, count⟩ := enqTest there
        rw [tried, tested, if_neg (by simp [here]), if_neg (by simp [here]), count]
        exact ok.enqTest here
      poll := by
        intro there
        rw [tested]
        cases poll there with
        | inl start =>
          rw [if_neg (by simp [start.1]), (ok.enqTest start.1).2, start.2]
          exact .start
        | inr stays =>
          rw [if_neg (by simp [stays.1]), stays.2]
          exact ok.poll stays.1
      pollTest := by
        intro there
        obtain ⟨here, count⟩ := pollTest there
        rw [tested, if_neg (by simp [here]), count]
        exact ok.pollTest here
      attempts := by
        rw [tried]
        split
        next => exact Nat.zero_le _
        next => exact ok.attempts
      checks := by
        rw [tested]
        split
        next => exact Nat.zero_le _
        next => exact ok.checks }

theorem passOk_outside (ok : PassOk limits h s) (call : attempt (s, a) = none)
    (read : check (s, a) = none)
    (outside : t.pc ∉ [Pc.enqcmd, Pc.enqTest, Pc.poll, Pc.pollTest]) :
    PassOk limits ((s, a) :: h) t := by
  simp only [List.mem_cons, List.not_mem_nil, or_false, not_or] at outside
  obtain ⟨notEnqcmd, notEnqTest, notPoll, notPollTest⟩ := outside
  exact passOk_quiet ok call read (fun there => absurd there notEnqcmd)
    (fun there => absurd there notEnqTest) (fun there => absurd there notPoll)
    (fun there => absurd there notPollTest)

theorem passOk_enqcmd {accepted : Bool} (ok : PassOk limits h s)
    (taken : enqcmdStep limits accepted s = some t) :
    PassOk limits ((s, .enqcmd accepted) :: h) t := by
  unfold enqcmdStep at taken
  split at taken
  next at_ =>
    obtain ⟨trying, unread⟩ := ok.enqcmd at_
    have tried : attempts ((s, .enqcmd accepted) :: h) = accepted :: attempts h := by
      rw [attempts_cons, if_neg (by simp [at_])]
      rfl
    have tested : checks ((s, .enqcmd accepted) :: h) = [] := by
      rw [checks_cons, if_neg (by simp [at_]), unread]
      rfl
    have within := trying.within
    have size : (attempts ((s, .enqcmd accepted) :: h)).length ≤ limits.enqRetryMax + 1 := by
      rw [tried, List.length_cons, trying.count]
      exact Nat.succ_le_succ within
    have size' : (checks ((s, .enqcmd accepted) :: h)).length ≤ limits.pollRetryMax + 1 := by
      rw [tested]
      exact Nat.zero_le _
    cases accepted with
    | true =>
      cases taken
      exact
        { enqcmd := by simp
          enqTest := by
            intro _
            rw [tried, tested]
            exact ⟨.passed trying rfl, rfl⟩
          poll := by simp
          pollTest := by simp
          attempts := size
          checks := size' }
    | false =>
      rw [if_neg Bool.false_ne_true] at taken
      split at taken
      next more =>
        cases taken
        exact
          { enqcmd := by
              intro _
              rw [tried, tested]
              exact ⟨trying.again rfl more, rfl⟩
            enqTest := by simp [at_]
            poll := by simp [at_]
            pollTest := by simp [at_]
            attempts := size
            checks := size' }
      next last =>
        cases taken
        exact
          { enqcmd := by simp
            enqTest := by
              intro _
              rw [tried, tested]
              exact ⟨trying.stop rfl last, rfl⟩
            poll := by simp
            pollTest := by simp
            attempts := size
            checks := size' }
  next => contradiction

theorem passOk_poll (ok : PassOk limits h s) (at_ : s.pc = .poll)
    (taken : cpuStep limits s = some t) : PassOk limits ((s, .cpu) :: h) t := by
  have trying := ok.poll at_
  have tried : attempts ((s, .cpu) :: h) = attempts h := by
    rw [attempts_cons, if_neg (by simp [at_])]
    rfl
  have tested : checks ((s, .cpu) :: h) = s.comp.status :: checks h := by
    rw [checks_cons, if_neg (by simp [at_])]
    simp [check, at_]
  have size : (attempts ((s, .cpu) :: h)).length ≤ limits.enqRetryMax + 1 := by
    rw [tried]
    exact ok.attempts
  have size' : (checks ((s, .cpu) :: h)).length ≤ limits.pollRetryMax + 1 := by
    rw [tested, List.length_cons, trying.count]
    exact Nat.succ_le_succ trying.within
  simp only [cpuStep, at_] at taken
  split at taken
  next found =>
    cases taken
    exact
      { enqcmd := by simp
        enqTest := by simp
        poll := by simp
        pollTest := by
          intro _
          rw [tested]
          exact .passed trying (by simpa using found)
        attempts := size
        checks := size' }
  next unset =>
    have zero : (s.comp.status == 0) = true := by simpa using unset
    split at taken
    next more =>
      cases taken
      exact
        { enqcmd := by simp
          enqTest := by simp
          poll := by
            intro _
            rw [tested]
            exact trying.again zero more
          pollTest := by simp
          attempts := size
          checks := size' }
    next last =>
      cases taken
      exact
        { enqcmd := by simp
          enqTest := by simp
          poll := by simp
          pollTest := by
            intro _
            rw [tested]
            exact trying.stop zero last
          attempts := size
          checks := size' }

theorem passOk_cpu (ok : PassOk limits h s) (taken : cpuStep limits s = some t) :
    PassOk limits ((s, .cpu) :: h) t := by
  by_cases polling : s.pc = .poll
  · exact passOk_poll ok polling taken
  · have read : check (s, .cpu) = none := by simp [check, polling]
    cases at_ : s.pc with
    | retry =>
      simp only [cpuStep, at_, Option.some.injEq] at taken
      subst taken
      exact passOk_quiet ok rfl read (by simp [at_]) (by simp) (by simp) (by simp)
    | enqcmd => simp [cpuStep, at_] at taken
    | enqTest =>
      simp only [cpuStep, at_] at taken
      split at taken
      next =>
        cases taken
        exact passOk_outside ok rfl read (by simp)
      next =>
        cases taken
        exact passOk_quiet ok rfl read (by simp) (by simp) (by simp [at_]) (by simp)
    | poll => contradiction
    | pollTest =>
      simp only [cpuStep, at_] at taken
      split at taken
      next =>
        cases taken
        exact passOk_outside ok rfl read (by simp)
      next =>
        cases taken
        exact passOk_outside ok rfl read (by simp)
    | testSuccess =>
      simp only [cpuStep, at_] at taken
      split at taken
      next =>
        cases taken
        exact passOk_outside ok rfl read (by simp)
      next =>
        cases taken
        exact passOk_outside ok rfl read (by simp)
    | testFault =>
      simp only [cpuStep, at_] at taken
      split at taken
      next =>
        cases taken
        exact passOk_outside ok rfl read (by simp)
      next =>
        cases taken
        exact passOk_outside ok rfl read (by simp)
    | touch =>
      simp only [cpuStep, at_, Option.some.injEq] at taken
      subst taken
      exact passOk_outside ok rfl read (by simp)
    | advance f =>
      simp only [cpuStep, at_, Option.some.injEq] at taken
      subst taken
      cases f <;> exact passOk_outside ok rfl read (by simp [afterField])
    | done e => simp [cpuStep, at_] at taken

theorem passOk_step (ok : PassOk limits h s) (taken : step limits s a = some t) :
    PassOk limits ((s, a) :: h) t := by
  cases a with
  | cpu => exact passOk_cpu ok taken
  | enqcmd accepted => exact passOk_enqcmd ok taken
  | answer i answer =>
    simp only [step, answerStep] at taken
    split at taken
    next => contradiction
    next =>
      split at taken
      next =>
        cases taken
        exact passOk_quiet ok rfl rfl (fun there => .inr ⟨there, rfl⟩) (fun there => ⟨there, rfl⟩)
          (fun there => .inr ⟨there, rfl⟩) (fun there => ⟨there, rfl⟩)
      next => contradiction

theorem passOk_of_run (run : Run limits b comp mem h s) : PassOk limits h s := by
  induction run with
  | start =>
    exact
      { enqcmd := by simp [initial]
        enqTest := by simp [initial]
        poll := by simp [initial]
        pollTest := by simp [initial]
        attempts := Nat.zero_le _
        checks := Nat.zero_le _ }
  | next _ taken ok => exact passOk_step ok taken

theorem countP_rejected (l : List Bool) : l.countP (! ·) = l.count false := by
  rw [List.count]
  congr 1
  funext accepted
  cases accepted <;> rfl

theorem enq_reported_iff (ended : Ended (! ·) limits.enqRetryMax s.enqRetry (attempts h))
    (at_ : s.pc = .enqTest) :
    EnqReported limits h s ↔ (attempts h).count false < limits.enqRetryMax := by
  have exceeds : GoesTo limits s (.done .enqLimit) ↔ s.enqRetry = limits.enqRetryMax := by
    simp only [GoesTo, cpuStep, at_]
    split <;> simp_all
  have polls : GoesTo limits s .poll ↔ s.enqRetry ≠ limits.enqRetryMax := by
    simp only [GoesTo, cpuStep, at_]
    split <;> simp_all
  have rejected : (∀ accepted ∈ attempts h, accepted = false) ↔
      s.enqRetry = limits.enqRetryMax + 1 := by
    simpa using ended.all_iff
  have accepted : true ∈ attempts h ↔ s.enqRetry ≠ limits.enqRetryMax + 1 := by
    rw [ne_eq, ← rejected]
    simp
  have limit := ended.limit_iff
  rw [countP_rejected] at limit
  rw [← limit]
  constructor
  · intro reported
    rw [← exceeds, ← rejected]
    exact reported.exceeded
  · intro same
    exact
      { exceeded := exceeds.trans (same.trans rejected.symm)
        polled := polls.trans ((not_congr same).trans accepted.symm) }

theorem poll_reported_iff (ended : Ended (· == 0) limits.pollRetryMax s.pollRetry (checks h))
    (at_ : s.pc = .pollTest) :
    PollReported limits h s ↔ (checks h).count 0 < limits.pollRetryMax := by
  have exceeds : GoesTo limits s (.done .pollLimit) ↔ s.pollRetry = limits.pollRetryMax := by
    simp only [GoesTo, cpuStep, at_]
    split <;> simp_all
  have last : (checks h).head? = some 0 ↔ s.pollRetry = limits.pollRetryMax + 1 := by
    simpa using ended.head_iff
  rw [PollReported, exceeds, last]
  exact ended.limit_iff

/-- In every pass of every run: what the program says of `enqcmd` is true exactly where one
of the first `ENQ_RETRY_MAX` calls is accepted, and what it says of polling exactly where
one of the first `POLL_RETRY_MAX` tests finds a status. Both loops end. -/
theorem retry_limits_iff (run : Run limits b comp mem h s) :
    (s.pc = .enqTest → (EnqReported limits h s ↔
      (attempts h).count false < limits.enqRetryMax)) ∧
    (s.pc = .pollTest → (PollReported limits h s ↔
      (checks h).count 0 < limits.pollRetryMax)) ∧
    (attempts h).length ≤ limits.enqRetryMax + 1 ∧
    (checks h).length ≤ limits.pollRetryMax + 1 := by
  have ok := passOk_of_run run
  refine ⟨?_, ?_, ok.attempts, ok.checks⟩
  · intro at_
    exact enq_reported_iff (ok.enqTest at_).1 at_
  · intro at_
    exact poll_reported_iff (ok.pollTest at_) at_

def promptActions : List Action :=
  [.cpu, .enqcmd false, .enqcmd true, .cpu, .cpu, .cpu, .answer 0 (.success 0), .cpu]

theorem retry_limits_prompt :
    (∃ h s, Run retryLimits pages ⟨0, 0, 0⟩ (fun x => .ofNat x) h s ∧ s.pc = .enqTest ∧
      EnqReported retryLimits h s) ∧
    ∃ h s, Run retryLimits pages ⟨0, 0, 0⟩ (fun x => .ofNat x) h s ∧ s.pc = .pollTest ∧
      PollReported retryLimits h s := by
  constructor
  · have reached : (Machine.exec (step retryLimits) (promptActions.take 3)
        (initial pages ⟨0, 0, 0⟩ fun x => .ofNat x)).map (fun s => (s.pc, s.enqRetry)) =
        some (.enqTest, 1) := by decide +kernel
    obtain ⟨s, result, shape⟩ := Option.map_eq_some_iff.mp reached
    obtain ⟨h, run, _⟩ := Machine.run_of_exec result
    rw [Prod.mk.injEq] at shape
    obtain ⟨at_, count⟩ := shape
    have ended := ((passOk_of_run run).enqTest at_).1.countP
    rw [countP_rejected, count] at ended
    refine ⟨h, s, run, at_, ((retry_limits_iff run).1 at_).mpr ?_⟩
    rw [ended]
    decide
  · have reached : (Machine.exec (step retryLimits) promptActions
        (initial pages ⟨0, 0, 0⟩ fun x => .ofNat x)).map (fun s => (s.pc, s.pollRetry)) =
        some (.pollTest, 2) := by decide +kernel
    obtain ⟨s, result, shape⟩ := Option.map_eq_some_iff.mp reached
    obtain ⟨h, run, _⟩ := Machine.run_of_exec result
    rw [Prod.mk.injEq] at shape
    obtain ⟨at_, count⟩ := shape
    have ended := ((passOk_of_run run).pollTest at_).countP
    rw [count] at ended
    refine ⟨h, s, run, at_, ((retry_limits_iff run).2.1 at_).mpr ?_⟩
    rw [List.count, ended]
    decide

theorem exec_rejected (at_ : s.pc = .enqcmd) {n : Nat} (within : s.enqRetry + n ≤ limits.enqRetryMax) :
    Machine.exec (step limits) (List.replicate n (.enqcmd false)) s =
      some { s with enqRetry := s.enqRetry + n } := by
  induction n generalizing s with
  | zero => rfl
  | succ n ih =>
    have more : s.enqRetry < limits.enqRetryMax := by omega
    have taken : step limits s (.enqcmd false) = some { s with enqRetry := s.enqRetry + 1 } := by
      simp [step, enqcmdStep, at_, more]
    rw [List.replicate_succ, Machine.exec, taken]
    refine (ih (s := { s with enqRetry := s.enqRetry + 1 }) at_ (by simp only; omega)).trans ?_
    simp [Nat.add_assoc, Nat.add_comm 1]

theorem exec_unset (at_ : s.pc = .poll) (unset : s.comp.status = 0) {n : Nat}
    (within : s.pollRetry + n ≤ limits.pollRetryMax) :
    Machine.exec (step limits) (List.replicate n .cpu) s =
      some { s with pollRetry := s.pollRetry + n } := by
  induction n generalizing s with
  | zero => rfl
  | succ n ih =>
    have more : s.pollRetry < limits.pollRetryMax := by omega
    have taken : step limits s .cpu = some { s with pollRetry := s.pollRetry + 1 } := by
      simp [step, cpuStep, at_, unset, more]
    rw [List.replicate_succ, Machine.exec, taken]
    refine (ih (s := { s with pollRetry := s.pollRetry + 1 }) at_ unset (by simp only; omega)).trans ?_
    simp [Nat.add_assoc, Nat.add_comm 1]

/-- The device accepts the descriptor with the last call, or answers before the last test,
that a limit permits. -/
theorem retry_limits_last :
    (¬ ∀ (limits : RetryLimits) (b : CopyBuffers) (comp : CompletionRecord) (mem : Nat → UInt8)
      (h : List (State × Action)) (s : State), 1 ≤ limits.enqRetryMax → 1 ≤ limits.pollRetryMax →
        Run limits b comp mem h s → s.pc = .enqTest → EnqReported limits h s) ∧
    ¬ ∀ (limits : RetryLimits) (b : CopyBuffers) (comp : CompletionRecord) (mem : Nat → UInt8)
      (h : List (State × Action)) (s : State), 1 ≤ limits.enqRetryMax → 1 ≤ limits.pollRetryMax →
        Run limits b comp mem h s → s.pc = .pollTest → PollReported limits h s := by
  have began : Run retryLimits pages ⟨0, 0, 0⟩ (fun x => .ofNat x) [] _ := .start
  constructor
  · intro claim
    obtain ⟨h₁, run₁, _⟩ := began.append_exec [.cpu] rfl
    obtain ⟨h₂, run₂, _⟩ := run₁.append_exec _ (exec_rejected rfl (n := 1000) (by decide))
    obtain ⟨h₃, run₃, _⟩ := run₂.append_exec [.enqcmd true] rfl
    have ended := ((passOk_of_run run₃).enqTest rfl).1
    have below := (enq_reported_iff ended rfl).mp
      (claim _ _ _ _ _ _ (by decide) (by decide) run₃ rfl)
    rw [← countP_rejected, ended.countP] at below
    exact absurd below (by decide)
  · intro claim
    obtain ⟨h₁, run₁, _⟩ := began.append_exec [.cpu, .enqcmd true, .cpu] rfl
    obtain ⟨h₂, run₂, _⟩ := run₁.append_exec _ (exec_unset rfl rfl (n := 10000) (by decide))
    obtain ⟨h₃, run₃, _⟩ := run₂.append_exec [.answer 0 (.success 0), .cpu] rfl
    have ended := (passOk_of_run run₃).pollTest rfl
    have below := (poll_reported_iff ended rfl).mp
      (claim _ _ _ _ _ _ (by decide) (by decide) run₃ rfl)
    rw [List.count, ended.countP] at below
    exact absurd below (by decide)

end DsaTest.Userspace
