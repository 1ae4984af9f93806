import DsaTest.Driver.Command

/-! At any time at most one thread has a command under way. What is known of it follows from
where that thread is. -/
namespace DsaTest.Driver.Command

variable {n : Nat} {s t : State n} {a : Action n} {i j : Fin n} {h : List (State n × Action n)}

def Quiet (s : State n) : Prop :=
  s.device = none ∧ s.causeCmd = false ∧ s.irq.cmd = false

def Answered (s : State n) (i : Fin n) (reg : CommandReg) : Prop :=
  s.executed = ⟨i, reg, s.cmdsts⟩ :: s.returned

/-- How far the command is whose completion thread `i` waits for. Only a halted device loses
its interrupt. -/
inductive Flight (s : State n) (i : Fin n) (reg : CommandReg) : Prop
  | device : s.device = some (i, reg) → s.causeCmd = false → s.irq.cmd = false →
      s.done i = false → s.executed = s.returned → Flight s i reg
  | raised : s.device = none → s.causeCmd = true → s.irq.cmd = false → s.done i = false →
      Answered s i reg → Flight s i reg
  | caused (halt : Bool) : s.device = none → s.causeCmd = true → s.irq = .caused true halt →
      s.done i = false → Answered s i reg → Flight s i reg
  | acked (halt : Bool) : s.device = none → s.causeCmd = false → s.irq = .acked true halt →
      s.done i = false → Answered s i reg → Flight s i reg
  | done : Quiet s → s.done i = true → Answered s i reg → Flight s i reg
  | lost : Quiet s → s.done i = false → s.halted = true → Answered s i reg → Flight s i reg

def Outside (s : State n) (i : Fin n) : Prop :=
  match s.pc i with
  | .away | .release _ => True
  | .entry _ | .waiting _ => s.done i = false
  | _ => False

/-- What holds while a command of the thread is under way. -/
def Owner (s : State n) (i : Fin n) : Prop :=
  match s.pc i with
  | .locked _ => s.lock = some i ∧ s.running = false ∧ s.done i = false ∧ Quiet s ∧
      s.executed = s.returned
  | .flagged _ => s.lock = some i ∧ s.running = true ∧ s.done i = false ∧ Quiet s ∧
      s.executed = s.returned
  | .published _ => s.lock = some i ∧ s.running = true ∧ s.done i = false ∧ Quiet s ∧
      s.executed = s.returned ∧ s.cmdDone = some i
  | .written c => s.lock = some i ∧ s.running = true ∧ s.cmdDone = some i ∧
      Flight s i (commandReg c true)
  | .sleeping c => s.lock = none ∧ s.running = true ∧ s.cmdDone = some i ∧
      Flight s i (commandReg c true)
  | .awake c => s.lock = none ∧ s.running = true ∧ Quiet s ∧ Answered s i (commandReg c true)
  | .status c stat => s.lock = none ∧ s.running = true ∧ Quiet s ∧
      Answered s i (commandReg c true) ∧ stat = s.cmdsts
  | .releaseLocked _ => s.lock = some i ∧ s.running = false ∧ Quiet s ∧ s.executed = s.returned
  | .releasePolling c => s.lock = some i ∧ s.running = false ∧ s.causeCmd = false ∧
      s.irq.cmd = false ∧ (s.device = some (i, commandReg c false) ∧ s.executed = s.returned ∨
        s.device = none ∧ Answered s i (commandReg c false))
  | .releaseIdle c => s.lock = some i ∧ s.running = false ∧ Quiet s ∧
      Answered s i (commandReg c false)
  | .releaseStatus c stat => s.lock = some i ∧ s.running = false ∧ Quiet s ∧
      Answered s i (commandReg c false) ∧ stat = s.cmdsts
  | _ => False

structure Free (s : State n) : Prop where
  outside : ∀ i, Outside s i
  lock : s.lock = none
  running : s.running = false
  quiet : Quiet s
  executed : s.executed = s.returned

structure Inv (s : State n) : Prop where
  overlap : s.overlap = false
  fault : s.fault = false
  cmdsts : s.cmdsts < idxdCmdstsActive
  irqHalt : s.irq.halt = true → s.halted = true
  causeHalt : s.causeHalt = true → s.halted = true
  slot : Free s ∨ ∃ i, (∀ j ≠ i, Outside s j) ∧ Owner s i

theorem inv_initial : Inv (initial n) :=
  ⟨rfl, rfl, Nat.zero_lt_succ _, by simp [initial, Irq.halt], by simp [initial],
    .inl ⟨fun _ => trivial, rfl, rfl, ⟨rfl, rfl, rfl⟩, rfl⟩⟩

theorem Quiet.readStatus (quiet : Quiet s) : s.readStatus = s.cmdsts := by
  simp [State.readStatus, quiet.1]

theorem Outside.not_owner (so : Outside s i) : ¬ Owner s i := by
  unfold Outside at so
  unfold Owner
  split at so <;> simp_all

theorem Outside.frame (so : Outside s j) (pc : t.pc j = s.pc j) (done : t.done j = s.done j) :
    Outside t j := by
  unfold Outside
  rwa [pc, done]

theorem free_of_unlocked (ok : Inv s) (lock : s.lock = none) (running : s.running = false) :
    Free s := by
  obtain free | ⟨i, _, owner⟩ := ok.slot
  · exact free
  · unfold Owner at owner
    split at owner <;> simp_all

theorem threadStep_frame (taken : threadStep s i = some t) :
    (∀ j ≠ i, t.pc j = s.pc j) ∧ t.done = s.done ∧ t.halted = s.halted ∧ t.irq = s.irq ∧
      t.causeHalt = s.causeHalt ∧ t.causeCmd = s.causeCmd ∧ t.cmdsts = s.cmdsts ∧
      t.executed = s.executed ∧ t.fault = s.fault := by
  cases pc : s.pc i <;> simp only [threadStep, pc] at taken <;> (try split at taken) <;>
    simp only [Option.some.injEq, reduceCtorEq] at taken <;> subst taken <;>
    (try unfold State.write) <;> (try split) <;>
    simp +contextual [State.goto, State.report, Function.update]

theorem others_outside (outside : ∀ j ≠ i, Outside s j) (taken : threadStep s i = some t) :
    ∀ j ≠ i, Outside t j := by
  obtain ⟨pc, done, _⟩ := threadStep_frame taken
  exact fun j other => (outside j other).frame (pc j other) (congrFun done j)

theorem Flight.of_done {reg : CommandReg} (flight : Flight s i reg) (done : s.done i = true) :
    Quiet s ∧ Answered s i reg := by
  cases flight with
  | done quiet _ answered => exact ⟨quiet, answered⟩
  | _ => simp_all

theorem Flight.frame {reg : CommandReg} (flight : Flight s i reg) (device : t.device = s.device)
    (causeCmd : t.causeCmd = s.causeCmd) (irq : t.irq = s.irq) (done : t.done i = s.done i)
    (executed : t.executed = s.executed) (returned : t.returned = s.returned)
    (cmdsts : t.cmdsts = s.cmdsts) (halted : t.halted = s.halted) : Flight t i reg := by
  have answered (so : Answered s i reg) : Answered t i reg := by
    unfold Answered
    rwa [executed, returned, cmdsts]
  have quiet (so : Quiet s) : Quiet t :=
    ⟨device.trans so.1, causeCmd.trans so.2.1, irq ▸ so.2.2⟩
  cases flight with
  | device sent cause idle open_ same =>
    exact .device (device.trans sent) (causeCmd.trans cause) (irq ▸ idle) (done ▸ open_)
      (executed.trans (same.trans returned.symm))
  | raised none cause idle open_ so =>
    exact .raised (device.trans none) (causeCmd.trans cause) (irq ▸ idle) (done ▸ open_)
      (answered so)
  | caused halt none cause read open_ so =>
    exact .caused halt (device.trans none) (causeCmd.trans cause) (irq.trans read) (done ▸ open_)
      (answered so)
  | acked halt none cause read open_ so =>
    exact .acked halt (device.trans none) (causeCmd.trans cause) (irq.trans read) (done ▸ open_)
      (answered so)
  | done so closed so' => exact .done (quiet so) (done ▸ closed) (answered so')
  | lost so open_ halt so' =>
    exact .lost (quiet so) (done ▸ open_) (halted.trans halt) (answered so')

theorem Owner.frame (owner : Owner s i) (pc : t.pc i = s.pc i) (lock : t.lock = s.lock)
    (running : t.running = s.running) (cmdDone : t.cmdDone = s.cmdDone)
    (device : t.device = s.device) (causeCmd : t.causeCmd = s.causeCmd) (irq : t.irq = s.irq)
    (done : t.done i = s.done i) (executed : t.executed = s.executed)
    (returned : t.returned = s.returned) (cmdsts : t.cmdsts = s.cmdsts)
    (halted : t.halted = s.halted) : Owner t i := by
  have flight {c : Call} (so : Flight s i (commandReg c true)) : Flight t i (commandReg c true) :=
    so.frame device causeCmd irq done executed returned cmdsts halted
  unfold Owner Quiet Answered at *
  rw [pc, lock, running, cmdDone, device, causeCmd, irq, done, executed, returned, cmdsts]
  cases at_ : s.pc i <;> simp only [at_] at owner ⊢ <;>
    first | exact owner | exact ⟨owner.1, owner.2.1, owner.2.2.1, flight owner.2.2.2⟩

theorem owner_step (owner : Owner s i) (taken : threadStep s i = some t) :
    t.overlap = s.overlap ∧ (Owner t i ∨ Outside t i ∧ t.lock = none ∧ t.running = false ∧ Quiet t ∧
      t.executed = t.returned) := by
  cases pc : s.pc i with
  | away | entry _ | waiting _ | release _ => simp [Owner, pc] at owner
  | locked c =>
    simp only [Owner, pc] at owner
    obtain ⟨lock, running, done, quiet, executed⟩ := owner
    simp only [threadStep, pc, Option.some.injEq] at taken
    subst taken
    refine ⟨rfl, .inl ?_⟩
    simp only [Owner, State.goto, Function.update_self]
    exact ⟨lock, trivial, done, quiet, executed⟩
  | flagged c =>
    simp only [Owner, pc] at owner
    obtain ⟨lock, running, done, quiet, executed⟩ := owner
    simp only [threadStep, pc, Option.some.injEq] at taken
    subst taken
    refine ⟨rfl, .inl ?_⟩
    simp only [Owner, State.goto, Function.update_self]
    exact ⟨lock, running, done, quiet, executed, trivial⟩
  | published c =>
    simp only [Owner, pc] at owner
    obtain ⟨lock, running, done, quiet, executed, cmdDone⟩ := owner
    simp only [threadStep, pc, Option.some.injEq, State.write, State.goto, quiet.1] at taken
    subst taken
    refine ⟨rfl, .inl ?_⟩
    simp only [Owner, Function.update_self]
    exact ⟨lock, running, cmdDone, .device rfl quiet.2.1 quiet.2.2 done executed⟩
  | written c =>
    simp only [Owner, pc] at owner
    obtain ⟨lock, running, cmdDone, flight⟩ := owner
    simp only [threadStep, pc, Option.some.injEq] at taken
    subst taken
    refine ⟨rfl, .inl ?_⟩
    simp only [Owner, State.goto, Function.update_self]
    exact ⟨trivial, running, cmdDone, flight.frame rfl rfl rfl rfl rfl rfl rfl rfl⟩
  | sleeping c =>
    simp only [Owner, pc] at owner
    obtain ⟨lock, running, cmdDone, flight⟩ := owner
    simp only [threadStep, pc, Option.ite_none_right_eq_some, Option.some.injEq] at taken
    obtain ⟨done, rfl⟩ := taken
    refine ⟨rfl, .inl ?_⟩
    simp only [Owner, State.goto, Function.update_self]
    obtain ⟨quiet, answered⟩ := flight.of_done done
    exact ⟨lock, running, quiet, answered⟩
  | awake c =>
    simp only [Owner, pc] at owner
    obtain ⟨lock, running, quiet, answered⟩ := owner
    simp only [threadStep, pc, Option.some.injEq] at taken
    subst taken
    refine ⟨rfl, .inl ?_⟩
    simp only [Owner, State.goto, Function.update_self]
    exact ⟨lock, running, quiet, answered, quiet.readStatus⟩
  | status c stat =>
    simp only [Owner, pc] at owner
    obtain ⟨lock, running, quiet, answered, rfl⟩ := owner
    simp only [threadStep, pc, Option.ite_none_right_eq_some, Option.some.injEq] at taken
    obtain ⟨_, rfl⟩ := taken
    refine ⟨rfl, .inr ⟨?_, lock, rfl, quiet, answered⟩⟩
    simp [Outside, State.report, State.goto]
  | releaseLocked c =>
    simp only [Owner, pc] at owner
    obtain ⟨lock, running, quiet, executed⟩ := owner
    simp only [threadStep, pc, Option.some.injEq, State.write, State.goto, quiet.1] at taken
    subst taken
    refine ⟨rfl, .inl ?_⟩
    simp only [Owner, Function.update_self]
    exact ⟨lock, running, quiet.2.1, quiet.2.2, .inl ⟨trivial, executed⟩⟩
  | releasePolling c =>
    simp only [Owner, pc] at owner
    obtain ⟨lock, running, causeCmd, irq, device | ⟨device, answered⟩⟩ := owner
    · simp [threadStep, pc, State.readStatus, device.1] at taken
    · simp only [threadStep, pc, Option.ite_none_right_eq_some, Option.some.injEq] at taken
      obtain ⟨_, rfl⟩ := taken
      refine ⟨rfl, .inl ?_⟩
      simp only [Owner, State.goto, Function.update_self]
      exact ⟨lock, running, ⟨device, causeCmd, irq⟩, answered⟩
  | releaseIdle c =>
    simp only [Owner, pc] at owner
    obtain ⟨lock, running, quiet, answered⟩ := owner
    simp only [threadStep, pc, Option.some.injEq] at taken
    subst taken
    refine ⟨rfl, .inl ?_⟩
    simp only [Owner, State.goto, Function.update_self]
    exact ⟨lock, running, quiet, answered, quiet.readStatus⟩
  | releaseStatus c stat =>
    simp only [Owner, pc] at owner
    obtain ⟨lock, running, quiet, answered, rfl⟩ := owner
    simp only [threadStep, pc, Option.some.injEq] at taken
    subst taken
    refine ⟨rfl, .inr ⟨?_, rfl, running, quiet, answered⟩⟩
    simp [Outside, State.report, State.goto]

theorem Inv.aside (ok : Inv s) (before : Outside s i) (after : Outside t i)
    (pc : ∀ j ≠ i, t.pc j = s.pc j) (done : ∀ j ≠ i, t.done j = s.done j)
    (same : (t.lock, t.running, t.cmdDone, t.device, t.cmdsts, t.halted, t.causeCmd, t.causeHalt,
      t.irq, t.overlap, t.fault, t.executed, t.returned) = (s.lock, s.running, s.cmdDone, s.device,
      s.cmdsts, s.halted, s.causeCmd, s.causeHalt, s.irq, s.overlap, s.fault, s.executed,
      s.returned)) : Inv t := by
  simp only [Prod.mk.injEq] at same
  obtain ⟨lock, running, cmdDone, device, cmdsts, halted, causeCmd, causeHalt, irq, overlap, fault,
    executed, returned⟩ := same
  refine ⟨overlap.trans ok.overlap, fault.trans ok.fault, cmdsts ▸ ok.cmdsts, ?_, ?_, ?_⟩
  · rw [irq, halted]
    exact ok.irqHalt
  · rw [causeHalt, halted]
    exact ok.causeHalt
  obtain free | ⟨k, others, owner⟩ := ok.slot
  · refine .inl ⟨?_, lock.trans free.lock, running.trans free.running, ?_, ?_⟩
    · intro j
      by_cases self : j = i
      · exact self ▸ after
      · exact (free.outside j).frame (pc j self) (done j self)
    · rw [Quiet, device, causeCmd, irq]
      exact free.quiet
    · rw [executed, returned]
      exact free.executed
  · have apart : k ≠ i := by
      rintro rfl
      exact before.not_owner owner
    refine .inr ⟨k, ?_, owner.frame (pc k apart) lock running cmdDone device causeCmd irq
      (done k apart) executed returned cmdsts halted⟩
    intro j other
    by_cases self : j = i
    · exact self ▸ after
    · exact (others j other).frame (pc j self) (done j self)

theorem Inv.take (ok : Inv s) (lock : s.lock = none) (running : s.running = false)
    (pc : Pc) (owner : Owner { s.goto i pc with lock := some i } i) :
    Inv { s.goto i pc with lock := some i } := by
  have free := free_of_unlocked ok lock running
  refine ⟨ok.overlap, ok.fault, ok.cmdsts, ok.irqHalt, ok.causeHalt, .inr ⟨i, ?_, owner⟩⟩
  intro j other
  exact (free.outside j).frame (Function.update_of_ne other _ _) rfl

theorem outside_step (ok : Inv s) (out : Outside s i) (still : calm s (.thread i) = true)
    (taken : threadStep s i = some t) : Inv t := by
  cases pc : s.pc i with
  | away => simp [threadStep, pc] at taken
  | entry c =>
    simp only [threadStep, pc] at taken
    split at taken <;> cases taken
    · refine ok.aside out ?_ ?_ (fun _ _ => rfl) rfl
      · simp [Outside, State.goto]
      · exact fun j other => Function.update_of_ne other _ _
    · refine ok.aside out ?_ ?_ (fun _ _ => rfl) rfl
      · simpa [Outside, State.goto, pc] using out
      · exact fun j other => Function.update_of_ne other _ _
  | waiting c =>
    simp only [threadStep, pc, Option.ite_none_right_eq_some, Option.some.injEq] at taken
    obtain ⟨⟨lock, running⟩, rfl⟩ := taken
    have free := free_of_unlocked ok lock running
    apply ok.take lock running
    simp only [Outside, pc] at out
    simp only [Owner, State.goto, Function.update_self]
    exact ⟨trivial, running, out, free.quiet, free.executed⟩
  | release c =>
    simp only [threadStep, pc, Option.ite_none_right_eq_some, Option.some.injEq] at taken
    obtain ⟨lock, rfl⟩ := taken
    have running : s.running = false := by simpa [calm, pc] using still
    have free := free_of_unlocked ok lock running
    apply ok.take lock running
    simp only [Owner, State.goto, Function.update_self]
    exact ⟨trivial, running, free.quiet, free.executed⟩
  | _ => simp [Outside, pc] at out

theorem thread_step (ok : Inv s) (still : calm s (.thread i) = true) (taken : threadStep s i = some t) :
    Inv t := by
  by_cases out : Outside s i
  · exact outside_step ok out still taken
  obtain free | ⟨k, others, owner⟩ := ok.slot
  · exact absurd (free.outside i) out
  obtain rfl : k = i := by
    by_contra apart
    exact out (others i (Ne.symm apart))
  obtain ⟨_, _, halted, irq, causeHalt, _, cmdsts, _, fault⟩ := threadStep_frame taken
  have outside := others_outside others taken
  obtain ⟨overlap, next⟩ := owner_step owner taken
  refine ⟨overlap.trans ok.overlap, fault.trans ok.fault, cmdsts ▸ ok.cmdsts, ?_, ?_, ?_⟩
  · rw [irq, halted]
    exact ok.irqHalt
  · rw [causeHalt, halted]
    exact ok.causeHalt
  obtain owner | ⟨out, lock, running, quiet, executed⟩ := next
  · exact .inr ⟨k, outside, owner⟩
  · refine .inl ⟨?_, lock, running, quiet, executed⟩
    intro j
    by_cases self : j = k
    · exact self ▸ out
    · exact outside j self

theorem irqStep_frame (taken : irqStep s = some t) :
    t.pc = s.pc ∧ t.lock = s.lock ∧ t.running = s.running ∧ t.cmdDone = s.cmdDone ∧
      t.device = s.device ∧ t.cmdsts = s.cmdsts ∧ t.halted = s.halted ∧
      t.executed = s.executed ∧ t.returned = s.returned ∧ t.overlap = s.overlap ∧
      (t.causeHalt = true → s.causeHalt = true) ∧
      (t.irq.halt = true → s.irq.halt = true ∨ s.causeHalt = true) := by
  unfold irqStep at taken
  split at taken
  next idle =>
    simp only [Option.ite_none_right_eq_some, Option.some.injEq] at taken
    obtain ⟨_, rfl⟩ := taken
    simp +contextual [Irq.halt]
  next cmd halt read =>
    cases taken
    simp +contextual [Irq.halt, read]
  next cmd halt read =>
    split at taken <;> cases taken
    · unfold State.complete
      split
      · split <;> simp [Irq.halt]
      · simp [Irq.halt]
    · simp [Irq.halt]

theorem irqStep_quiet (causeCmd : s.causeCmd = false) (irq : s.irq.cmd = false)
    (taken : irqStep s = some t) :
    t.causeCmd = false ∧ t.irq.cmd = false ∧ t.done = s.done ∧ t.fault = s.fault := by
  unfold irqStep at taken
  split at taken
  next idle =>
    simp only [Option.ite_none_right_eq_some, Option.some.injEq] at taken
    obtain ⟨_, rfl⟩ := taken
    exact ⟨causeCmd, causeCmd, rfl, rfl⟩
  next cmd halt read =>
    cases taken
    simp_all [Irq.cmd]
  next cmd halt read =>
    obtain rfl : cmd = false := by simpa [Irq.cmd, read] using irq
    cases taken
    exact ⟨causeCmd, rfl, rfl, rfl⟩

theorem Flight.irq {reg : CommandReg} (flight : Flight s i reg) (ok : Inv s)
    (cmdDone : s.cmdDone = some i) (shared : (s.pc i).shared = true)
    (taken : irqStep s = some t) :
    Flight t i reg ∧ (∀ j ≠ i, t.done j = s.done j) ∧ t.fault = s.fault := by
  cases flight with
  | device sent cause idle open_ same =>
    obtain ⟨_, _, _, _, device, _, _, executed, returned, _⟩ := irqStep_frame taken
    obtain ⟨cause, idle, done, fault⟩ := irqStep_quiet cause idle taken
    exact ⟨.device (device.trans sent) cause idle (done ▸ open_)
      (executed.trans (same.trans returned.symm)), fun j _ => congrFun done j, fault⟩
  | raised none cause idle open_ answered =>
    cases irq : s.irq with
    | idle =>
      simp only [irqStep, irq, cause, Bool.true_or, if_true, Option.some.injEq] at taken
      subst taken
      exact ⟨.caused _ none rfl rfl open_ answered, fun _ _ => rfl, rfl⟩
    | caused cmd halt =>
      obtain rfl : cmd = false := by simpa [Irq.cmd, irq] using idle
      simp only [irqStep, irq, Option.some.injEq] at taken
      subst taken
      exact ⟨.raised none (by simp [cause]) rfl open_ answered, fun _ _ => rfl, rfl⟩
    | acked cmd halt =>
      obtain rfl : cmd = false := by simpa [Irq.cmd, irq] using idle
      simp only [irqStep, irq, Bool.false_and, Bool.false_eq_true, if_false,
        Option.some.injEq] at taken
      subst taken
      exact ⟨.raised none cause rfl open_ answered, fun _ _ => rfl, rfl⟩
  | caused halt none cause read open_ answered =>
    simp only [irqStep, read, Option.some.injEq] at taken
    subst taken
    exact ⟨.acked halt none (by simp) rfl open_ answered, fun _ _ => rfl, rfl⟩
  | acked halt none cause read open_ answered =>
    cases halt with
    | true =>
      simp only [irqStep, read, Bool.not_true, Bool.and_false, Bool.false_eq_true, if_false,
        Option.some.injEq] at taken
      subst taken
      have halted := ok.irqHalt (by simp [read, Irq.halt])
      exact ⟨.lost ⟨none, cause, rfl⟩ open_ halted answered, fun _ _ => rfl, rfl⟩
    | false =>
      simp only [irqStep, read, Bool.not_false, Bool.and_true, if_true, State.complete, cmdDone,
        shared, Option.some.injEq] at taken
      subst taken
      exact ⟨.done ⟨none, cause, rfl⟩ (Function.update_self ..) answered,
        fun j other => Function.update_of_ne other _ _, rfl⟩
  | done quiet closed answered =>
    obtain ⟨_, _, _, _, device, cmdsts, _, executed, returned, _⟩ := irqStep_frame taken
    obtain ⟨cause, idle, done, fault⟩ := irqStep_quiet quiet.2.1 quiet.2.2 taken
    refine ⟨.done ⟨device.trans quiet.1, cause, idle⟩ (done ▸ closed) ?_,
      fun j _ => congrFun done j, fault⟩
    unfold Answered
    rwa [executed, returned, cmdsts]
  | lost quiet open_ halted answered =>
    obtain ⟨_, _, _, _, device, cmdsts, halt, executed, returned, _⟩ := irqStep_frame taken
    obtain ⟨cause, idle, done, fault⟩ := irqStep_quiet quiet.2.1 quiet.2.2 taken
    refine ⟨.lost ⟨device.trans quiet.1, cause, idle⟩ (done ▸ open_) (halt.trans halted) ?_,
      fun j _ => congrFun done j, fault⟩
    unfold Answered
    rwa [executed, returned, cmdsts]

theorem Owner.irq (owner : Owner s i) (ok : Inv s) (taken : irqStep s = some t) :
    Owner t i ∧ (∀ j ≠ i, t.done j = s.done j) ∧ t.fault = s.fault := by
  obtain ⟨pc, lock, running, cmdDone, device, cmdsts, _, executed, returned, _⟩ :=
    irqStep_frame taken
  have same (cause : s.causeCmd = false) (idle : s.irq.cmd = false) :=
    irqStep_quiet cause idle taken
  unfold Owner at owner ⊢
  rw [pc, lock, running, cmdDone]
  cases at_ : s.pc i with
  | written c | sleeping c =>
    simp only [at_] at owner ⊢
    obtain ⟨lock, running, cmdDone, flight⟩ := owner
    obtain ⟨flight, rest⟩ := flight.irq ok cmdDone (by simp [at_, Pc.shared]) taken
    exact ⟨⟨lock, running, cmdDone, flight⟩, rest⟩
  | away | entry _ | waiting _ | release _ => simp [at_] at owner
  | _ =>
    simp only [at_, Quiet, Answered, device, cmdsts, executed, returned] at owner ⊢
    grind

theorem irq_step (ok : Inv s) (taken : irqStep s = some t) : Inv t := by
  obtain ⟨pc, lock, running, _, device, cmdsts, halted, executed, returned, overlap, causeHalt,
    irqHalt⟩ := irqStep_frame taken
  have kept : t.fault = s.fault ∧
      (Free t ∨ ∃ i, (∀ j ≠ i, Outside t j) ∧ Owner t i) := by
    obtain free | ⟨i, others, owner⟩ := ok.slot
    · obtain ⟨cause, idle, done, fault⟩ :=
        irqStep_quiet free.quiet.2.1 free.quiet.2.2 taken
      refine ⟨fault, .inl ⟨?_, lock.trans free.lock, running.trans free.running,
        ⟨device.trans free.quiet.1, cause, idle⟩, executed.trans (free.executed.trans returned.symm)⟩⟩
      exact fun j => (free.outside j).frame (congrFun pc j) (congrFun done j)
    · obtain ⟨owner, done, fault⟩ := owner.irq ok taken
      refine ⟨fault, .inr ⟨i, ?_, owner⟩⟩
      exact fun j other => (others j other).frame (congrFun pc j) (done j other)
  refine ⟨overlap.trans ok.overlap, kept.1.trans ok.fault, cmdsts ▸ ok.cmdsts, ?_, ?_, kept.2⟩
  · intro halt
    rw [halted]
    exact (irqHalt halt).elim ok.irqHalt ok.causeHalt
  · intro halt
    rw [halted]
    exact ok.causeHalt (causeHalt halt)

def State.answer (s : State n) (i : Fin n) (reg : CommandReg) (status : Nat) : State n :=
  { s with
    device := none
    cmdsts := status
    causeCmd := s.causeCmd || reg.intReq
    executed := ⟨i, reg, status⟩ :: s.executed }

theorem Owner.halt (owner : Owner s i) :
    Owner { s with halted := true, causeHalt := true } i := by
  have flight {reg : CommandReg} (so : Flight s i reg) :
      Flight { s with halted := true, causeHalt := true } i reg := by
    cases so with
    | device sent cause idle open_ same => exact .device sent cause idle open_ same
    | raised none cause idle open_ answered => exact .raised none cause idle open_ answered
    | caused halt none cause read open_ answered =>
      exact .caused halt none cause read open_ answered
    | acked halt none cause read open_ answered => exact .acked halt none cause read open_ answered
    | done quiet closed answered => exact .done quiet closed answered
    | lost quiet open_ _ answered => exact .lost quiet open_ rfl answered
  unfold Owner at owner ⊢
  cases at_ : s.pc i <;> simp only [at_] at owner ⊢ <;>
    first | exact owner | exact ⟨owner.1, owner.2.1, owner.2.2.1, flight owner.2.2.2⟩

theorem Flight.answer {reg reg' : CommandReg} {k : Fin n} {status : Nat}
    (flight : Flight s k reg') (int : reg'.intReq = true) (sent : s.device = some (i, reg)) :
    Flight (s.answer i reg status) k reg' := by
  cases flight with
  | device own _ idle open_ same =>
    rw [own, Option.some.injEq, Prod.mk.injEq] at sent
    obtain ⟨rfl, rfl⟩ := sent
    refine .raised rfl ?_ idle open_ ?_
    · simp [State.answer, int]
    · simp [Answered, State.answer, same]
  | raised none | caused _ none | acked _ none => simp [none] at sent
  | done quiet | lost quiet => simp [quiet.1] at sent

theorem Owner.answer {reg : CommandReg} {k : Fin n} {status : Nat} (owner : Owner s k)
    (sent : s.device = some (i, reg)) : Owner (s.answer i reg status) k := by
  unfold Owner at owner
  split at owner
  case h_4 | h_5 =>
    next c pc =>
      obtain ⟨lock, running, cmdDone, flight⟩ := owner
      simp only [Owner, State.answer, pc]
      exact ⟨lock, running, cmdDone, flight.answer rfl sent⟩
  case h_9 =>
    next c pc =>
      obtain ⟨lock, running, cause, idle, ⟨own, same⟩ | ⟨none, _⟩⟩ := owner
      · rw [own, Option.some.injEq, Prod.mk.injEq] at sent
        obtain ⟨rfl, rfl⟩ := sent
        simp only [Owner, State.answer, pc]
        exact ⟨lock, running, by simp [cause, commandReg], idle, .inr ⟨trivial, by
          simp [Answered, same]⟩⟩
      · simp [none] at sent
  all_goals simp_all [Quiet]

theorem inv_step (ok : Inv s) (still : calm s a = true) (taken : step s a = some t) : Inv t := by
  cases a with
  | exec i c =>
    simp only [step, Option.ite_none_right_eq_some, Option.some.injEq] at taken
    obtain ⟨away, rfl⟩ := taken
    refine ok.aside (i := i) ?_ ?_ ?_ ?_ rfl
    · simp [Outside, away]
    · simp [Outside, State.goto]
    · exact fun j other => Function.update_of_ne other _ _
    · exact fun j other => Function.update_of_ne other _ _
  | release i handle ims =>
    simp only [step, Option.ite_none_right_eq_some, Option.some.injEq] at taken
    obtain ⟨away, rfl⟩ := taken
    refine ok.aside (i := i) ?_ ?_ ?_ (fun _ _ => rfl) rfl
    · simp [Outside, away]
    · simp [Outside, State.goto]
    · exact fun j other => Function.update_of_ne other _ _
  | thread i => exact thread_step ok still taken
  | irq => exact irq_step ok taken
  | answer status =>
    simp only [step] at taken
    split at taken
    next i reg sent =>
      simp only [Option.ite_none_right_eq_some, Option.some.injEq] at taken
      obtain ⟨below, rfl⟩ := taken
      refine ⟨ok.overlap, ok.fault, below, ok.irqHalt, ok.causeHalt, ?_⟩
      obtain free | ⟨k, others, owner⟩ := ok.slot
      · simp [free.quiet.1] at sent
      · exact .inr ⟨k, others, owner.answer sent⟩
    next => contradiction
  | halt =>
    simp only [step, Option.ite_none_left_eq_some, Option.some.injEq] at taken
    obtain ⟨_, rfl⟩ := taken
    refine ⟨ok.overlap, ok.fault, ok.cmdsts, fun _ => rfl, fun _ => rfl, ?_⟩
    obtain free | ⟨k, others, owner⟩ := ok.slot
    · exact .inl ⟨free.outside, free.lock, free.running, free.quiet, free.executed⟩
    · exact .inr ⟨k, others, owner.halt⟩

theorem inv_of_run (run : Run n h s) (still : ∀ p ∈ h, calm p.1 p.2 = true) : Inv s :=
  run.invariant_of_steps (C := fun s a => calm s a = true) inv_initial
    (fun _ _ _ ok still taken => inv_step ok still taken) still

end DsaTest.Driver.Command
