import DsaTest.Driver.CommandOwner
import Mathlib.Algebra.BigOperators.Fin
import Mathlib.Algebra.Order.BigOperators.Group.Finset

/-! Commands are executed one at a time, each caller gets the status of its own command, and
every call returns. -/
namespace DsaTest.Driver.Command

variable {n : Nat} {s t : State n} {a : Action n} {i : Fin n} {h : List (State n × Action n)}

theorem Flight.executed {reg : CommandReg} (flight : Flight s i reg) :
    s.executed = s.returned ∨ Answered s i reg := by
  cases flight with
  | device _ _ _ _ same => exact .inl same
  | raised _ _ _ _ answered | caused _ _ _ _ _ answered | acked _ _ _ _ _ answered
  | done _ _ answered | lost _ _ _ answered => exact .inr answered

theorem Owner.executed (owner : Owner s i) :
    s.executed = s.returned ∨ ∃ reg, Answered s i reg := by
  unfold Owner at owner
  split at owner
  case h_4 | h_5 =>
    exact owner.2.2.2.executed.imp_right fun answered => ⟨_, answered⟩
  all_goals grind

/-- Commands are never sent during another one, the interrupt thread only completes a call that
is waiting, and the callers have been given the statuses of the commands that the device has
executed, in this order, each for its own command, up to the one whose caller is not back. -/
theorem serial (run : Run n h s) (still : ∀ p ∈ h, calm p.1 p.2 = true) :
    s.overlap = false ∧ s.fault = false ∧
      (s.executed = s.returned ∨ ∃ r, s.executed = r :: s.returned) := by
  have ok := inv_of_run run still
  refine ⟨ok.overlap, ok.fault, ?_⟩
  obtain free | ⟨i, _, owner⟩ := ok.slot
  · exact .inl free.executed
  · rcases owner.executed with same | ⟨reg, answered⟩
    · exact .inl same
    · exact .inr ⟨_, answered⟩

def twoCalls : List (Action 2) :=
  [.exec 0 ⟨6, 3⟩, .release 1 5 false] ++ List.replicate 6 (.thread 0) ++
    [.answer 0, .irq, .irq, .irq] ++ List.replicate 3 (.thread 0) ++ List.replicate 2 (.thread 1) ++
    [.answer 0x41] ++ List.replicate 3 (.thread 1)

theorem serial_twoCalls :
    ∃ h s, Run 2 h s ∧ h.map Prod.snd = twoCalls.reverse ∧ (s.overlap = false ∧ s.fault = false ∧
      (s.executed = s.returned ∨ ∃ r, s.executed = r :: s.returned)) := by
  obtain ⟨h, s, run, still, labels⟩ :=
    Machine.run_of_execWhere (by decide : Machine.execWhere step calm twoCalls (initial 2) = true)
  exact ⟨h, s, run, labels, serial run still⟩

/-- A release that begins while a command is being executed writes into it. -/
theorem release_overlaps {c : Call} (busy : s.device.isSome = true) (lock : s.lock = none)
    (release : s.pc i = .release c) :
    (Machine.exec step [.thread i, .thread i] s).map State.overlap = some true := by
  obtain ⟨sent, device⟩ := Option.isSome_iff_exists.mp busy
  simp [Machine.exec, step, threadStep, release, lock, State.goto, State.write, device]

def Action.isCall : Action n → Bool
  | .exec .. | .release .. => true
  | _ => false

/-- The steps that a thread has before it, with those of the device and the interrupt thread
for its command. -/
def Pc.rank : Pc → Nat
  | .away => 0
  | .entry _ => 13
  | .waiting _ => 12
  | .locked _ => 11
  | .flagged _ => 10
  | .published _ => 9
  | .written _ => 4
  | .sleeping _ => 3
  | .awake _ => 2
  | .status .. => 1
  | .release _ => 9
  | .releaseLocked _ => 8
  | .releasePolling _ => 3
  | .releaseIdle _ => 2
  | .releaseStatus .. => 1

def deviceRank (s : State n) : Nat := if s.device.isSome then 4 else 0

def irqRank (s : State n) : Nat :=
  match s.irq with
  | .idle => if s.causeCmd then 3 else 0
  | .caused .. => 2
  | .acked .. => 1

def rank (s : State n) : Nat := ∑ i, (s.pc i).rank + deviceRank s + irqRank s

/-- The device has not halted, and the interrupt thread only runs for commands. -/
def Unhalted (s : State n) : Prop :=
  s.halted = false ∧ (s.irq = .idle ∨ s.irq.cmd = true)

theorem sum_update (f : Fin n → Pc) (i : Fin n) (pc : Pc) :
    ∑ j, (Function.update f i pc j).rank + (f i).rank = ∑ j, (f j).rank + pc.rank := by
  have split (g : Fin n → Pc) : ∑ j, (g j).rank = (g i).rank + ∑ j ∈ Finset.univ.erase i, (g j).rank :=
    (Finset.add_sum_erase _ (fun j => (g j).rank) (Finset.mem_univ i)).symm
  have others : ∑ j ∈ Finset.univ.erase i, (Function.update f i pc j).rank =
      ∑ j ∈ Finset.univ.erase i, (f j).rank := by
    apply Finset.sum_congr rfl
    intro j member
    rw [Function.update_of_ne (Finset.ne_of_mem_erase member)]
  rw [split, split f, others, Function.update_self]
  omega

theorem deviceRank_le (s : State n) : deviceRank s ≤ 4 := by
  unfold deviceRank
  split <;> omega

theorem write_pc (s : State n) (i : Fin n) (reg : CommandReg) : (s.write i reg).pc = s.pc := by
  unfold State.write
  split <;> rfl

theorem thread_lower (taken : threadStep s i = some t) : rank t < rank s := by
  obtain ⟨_, _, _, irq, _, causeCmd, _⟩ := threadStep_frame taken
  have irqs : irqRank t = irqRank s := by
    unfold irqRank
    rw [irq, causeCmd]
  have lower : ∃ pc, t.pc = Function.update s.pc i pc ∧
      pc.rank + deviceRank t < (s.pc i).rank + deviceRank s := by
    cases pc : s.pc i with
    | published c =>
      simp only [threadStep, pc, Option.some.injEq] at taken
      subst taken
      refine ⟨_, write_pc _ _ _, ?_⟩
      have device := deviceRank_le ((s.goto i (.written c)).write i (commandReg c true))
      simp only [Pc.rank]
      omega
    | releaseLocked c =>
      simp only [threadStep, pc, Option.some.injEq] at taken
      subst taken
      refine ⟨_, write_pc _ _ _, ?_⟩
      have device := deviceRank_le ((s.goto i (.releasePolling c)).write i (commandReg c false))
      simp only [Pc.rank]
      omega
    | away => simp [threadStep, pc] at taken
    | _ =>
      simp only [threadStep, pc] at taken
      (try split at taken) <;> cases taken <;>
        exact ⟨_, rfl, Nat.add_lt_add_right (by simp [Pc.rank]) (deviceRank s)⟩
  obtain ⟨pc, update, lower⟩ := lower
  have sum := sum_update s.pc i pc
  unfold rank
  rw [update, irqs]
  omega

theorem Inv.acked {cmd halt : Bool} (ok : Inv s) (irq : s.irq = .acked cmd halt)
    (own : s.irq.cmd = true) : s.causeCmd = false := by
  obtain free | ⟨i, _, owner⟩ := ok.slot
  · exact free.quiet.2.1
  · unfold Owner at owner
    split at owner
    case h_4 | h_5 =>
      cases owner.2.2.2 <;> simp_all [Quiet]
    all_goals simp_all [Quiet]

theorem irq_lower (ok : Inv s) (live : Unhalted s) (taken : irqStep s = some t) :
    rank t < rank s := by
  have halt : s.causeHalt = false := by
    by_contra halt
    have halted := ok.causeHalt (by simpa using halt)
    simp [live.1] at halted
  obtain ⟨pc, _, _, _, device, _⟩ := irqStep_frame taken
  have lower : irqRank t < irqRank s := by
    unfold irqStep at taken
    split at taken
    next idle =>
      simp only [halt, Bool.or_false, Option.ite_none_right_eq_some, Option.some.injEq] at taken
      obtain ⟨cause, rfl⟩ := taken
      simp [irqRank, idle, cause]
    next cmd halt read =>
      cases taken
      simp [irqRank, read]
    next cmd halt read =>
      have cause : s.causeCmd = false := ok.acked read (by simpa [read] using live.2)
      have idle : irqRank t = 0 := by
        split at taken <;> cases taken
        · have kept : s.complete.causeCmd = s.causeCmd := by
            unfold State.complete
            split
            · split <;> rfl
            · rfl
          simp [irqRank, kept, cause]
        · simp [irqRank, cause]
      rw [idle]
      simp [irqRank, read]
  unfold rank
  unfold deviceRank
  rw [pc, device]
  omega

theorem answer_lower {reg : CommandReg} {status : Nat} (sent : s.device = some (i, reg)) :
    rank (s.answer i reg status) < rank s := by
  have after : deviceRank (s.answer i reg status) = 0 := rfl
  have before : deviceRank s = 4 := by simp [deviceRank, sent]
  have irq : irqRank (s.answer i reg status) ≤ irqRank s + 3 := by
    unfold irqRank
    simp only [State.answer]
    split
    · exact Nat.le_trans (ite_le_sup _ _ _) (by simp)
    · omega
    · omega
  have pc : (s.answer i reg status).pc = s.pc := rfl
  unfold rank
  rw [pc]
  omega

/-- Each step of a call in progress brings its end nearer. -/
theorem step_lower (ok : Inv s) (live : Unhalted s) (own : a.isCall = false) (goes : a ≠ .halt)
    (taken : step s a = some t) : rank t < rank s := by
  cases a with
  | exec | release => contradiction
  | thread i => exact thread_lower taken
  | irq => exact irq_lower ok live taken
  | answer status =>
    simp only [step] at taken
    split at taken
    next sent =>
      simp only [Option.ite_none_right_eq_some, Option.some.injEq] at taken
      exact taken.2 ▸ answer_lower sent
    next => contradiction
  | halt => contradiction

theorem call_rank (call : a.isCall = true) (taken : step s a = some t) : rank t ≤ rank s + 13 := by
  have begin_ (i : Fin n) (pc : Pc) (bound : pc.rank ≤ 13) (device : deviceRank t = deviceRank s)
      (irq : irqRank t = irqRank s) (update : t.pc = Function.update s.pc i pc) :
      rank t ≤ rank s + 13 := by
    have sum := sum_update s.pc i pc
    unfold rank
    rw [update, device, irq]
    omega
  cases a with
  | exec i c =>
    simp only [step, Option.ite_none_right_eq_some, Option.some.injEq] at taken
    obtain ⟨_, rfl⟩ := taken
    exact begin_ i (.entry c) (by simp [Pc.rank]) rfl rfl rfl
  | release i handle ims =>
    simp only [step, Option.ite_none_right_eq_some, Option.some.injEq] at taken
    obtain ⟨_, rfl⟩ := taken
    exact begin_ i (.release (releaseCall handle ims)) (by simp [Pc.rank]) rfl rfl rfl
  | thread | irq | answer | halt => contradiction

theorem unhalted_step (ok : Inv s) (live : Unhalted s) (goes : a ≠ .halt)
    (taken : step s a = some t) : Unhalted t := by
  cases a with
  | exec | release =>
    simp only [step, Option.ite_none_right_eq_some, Option.some.injEq] at taken
    exact taken.2 ▸ live
  | thread i =>
    obtain ⟨_, _, halted, irq, _⟩ := threadStep_frame taken
    rwa [Unhalted, halted, irq]
  | irq =>
    have halt : s.causeHalt = false := by
      by_contra halt
      have halted := ok.causeHalt (by simpa using halt)
      simp [live.1] at halted
    obtain ⟨_, _, _, _, _, _, halted, _⟩ := irqStep_frame taken
    refine ⟨halted.trans live.1, ?_⟩
    simp only [step, irqStep] at taken
    split at taken
    next idle =>
      simp only [halt, Bool.or_false, Option.ite_none_right_eq_some, Option.some.injEq] at taken
      obtain ⟨cause, rfl⟩ := taken
      exact .inr cause
    next cmd halt read =>
      cases taken
      simpa [read, Irq.cmd] using live.2
    next => split at taken <;> cases taken <;> exact .inl rfl
  | answer status =>
    simp only [step] at taken
    split at taken
    next =>
      simp only [Option.ite_none_right_eq_some, Option.some.injEq] at taken
      exact taken.2 ▸ live
    next => contradiction
  | halt => contradiction

theorem Flight.can {reg : CommandReg} (flight : Flight s i reg) (live : Unhalted s) :
    s.done i = true ∨ (step s .irq).isSome = true ∨ (step s (.answer 0)).isSome = true := by
  cases flight with
  | device sent =>
    refine .inr (.inr ?_)
    simp [step, sent, idxdCmdstsActive]
  | raised _ cause idle =>
    have irq : s.irq = .idle := live.2.resolve_right (by simp [idle])
    refine .inr (.inl ?_)
    simp [step, irqStep, irq, cause]
  | caused halt _ _ read =>
    refine .inr (.inl ?_)
    simp [step, irqStep, read]
  | acked halt _ _ read =>
    refine .inr (.inl ?_)
    simp only [step, irqStep, read]
    split <;> rfl
  | done _ closed => exact .inl closed
  | lost _ _ halted => simp [live.1] at halted

/-- As long as somebody is in a call something can happen. -/
theorem can_go_on (ok : Inv s) (live : Unhalted s) (busy : s.pc i ≠ .away) :
    ∃ a, a.isCall = false ∧ a ≠ .halt ∧ (step s a).isSome = true := by
  obtain free | ⟨k, _, owner⟩ := ok.slot
  · refine ⟨.thread i, rfl, by simp, ?_⟩
    have out := free.outside i
    unfold Outside at out
    cases pc : s.pc i <;> simp_all [step, threadStep, free.lock, free.running]
    split <;> rfl
  · have thread (able : (threadStep s k).isSome = true) :
        ∃ a, a.isCall = false ∧ a ≠ .halt ∧ (step s a).isSome = true :=
      ⟨.thread k, rfl, by simp, able⟩
    cases pc : s.pc k with
    | away | entry _ | waiting _ | release _ => simp [Owner, pc] at owner
    | sleeping c =>
      simp only [Owner, pc] at owner
      obtain done | irq | answer := owner.2.2.2.can live
      · exact thread (by simp [threadStep, pc, done])
      · exact ⟨.irq, rfl, by simp, irq⟩
      · exact ⟨.answer 0, rfl, by simp, answer⟩
    | status c stat =>
      simp only [Owner, pc] at owner
      exact thread (by simp [threadStep, pc, owner.1])
    | releasePolling c =>
      simp only [Owner, pc] at owner
      obtain ⟨_, _, _, _, sent | ⟨none, _⟩⟩ := owner
      · exact ⟨.answer 0, rfl, by simp, by simp [step, sent.1, idxdCmdstsActive]⟩
      · exact thread (by simp [threadStep, pc, State.readStatus, none, ok.cmdsts])
    | _ => exact thread (by simp [threadStep, pc])

theorem live_of_run (run : Run n h s) (still : ∀ p ∈ h, calm p.1 p.2 = true)
    (goes : ∀ p ∈ h, p.2 ≠ .halt) :
    (Inv s ∧ Unhalted s) ∧
      h.countP (fun p => !p.2.isCall) + rank s ≤ 13 * h.countP (fun p => p.2.isCall) := by
  induction run with
  | start => exact ⟨⟨inv_initial, rfl, .inl rfl⟩, by simp [rank, initial, Pc.rank, deviceRank, irqRank]⟩
  | @next h s a t before taken ih =>
    rw [List.forall_mem_cons] at still goes
    obtain ⟨⟨ok, live⟩, count⟩ := ih still.2 goes.2
    refine ⟨⟨inv_step ok still.1 taken, unhalted_step ok live goes.1 taken⟩, ?_⟩
    rw [List.countP_cons, List.countP_cons]
    cases own : a.isCall with
    | false =>
      have lower := step_lower ok live own goes.1 taken
      simp only [Bool.not_false, if_true, Bool.false_eq_true, if_false]
      omega
    | true =>
      have bound := call_rank own taken
      simp only [Bool.not_true, if_true, Bool.false_eq_true, if_false]
      omega

/-- Unless the device halts every call returns: a call has at most thirteen steps, of its thread,
the device and the interrupt thread together, and where nothing is left to happen all threads
are back with the statuses of all commands. -/
theorem calls_return (run : Run n h s) (still : ∀ p ∈ h, calm p.1 p.2 = true)
    (goes : ∀ p ∈ h, p.2 ≠ .halt) :
    h.countP (fun p => !p.2.isCall) ≤ 13 * h.countP (fun p => p.2.isCall) ∧
      ((∀ a, a.isCall = false → a ≠ .halt → step s a = none) →
        (∀ i, s.pc i = .away) ∧ s.executed = s.returned) := by
  obtain ⟨⟨ok, live⟩, count⟩ := live_of_run run still goes
  refine ⟨by omega, fun stuck => ?_⟩
  have away (i : Fin n) : s.pc i = .away := by
    by_contra busy
    obtain ⟨a, own, go, able⟩ := can_go_on ok live busy
    simp [stuck a own go] at able
  refine ⟨away, ?_⟩
  obtain free | ⟨i, _, owner⟩ := ok.slot
  · exact free.executed
  · simp [Owner, away i] at owner

theorem calls_return_twoCalls :
    ∃ h s, Run 2 h s ∧ h.map Prod.snd = twoCalls.reverse ∧
      (h.countP (fun p => !p.2.isCall) ≤ 13 * h.countP (fun p => p.2.isCall) ∧
        ((∀ a, a.isCall = false → a ≠ .halt → step s a = none) →
          (∀ i, s.pc i = .away) ∧ s.executed = s.returned)) := by
  obtain ⟨h, s, run, still, labels⟩ := Machine.run_of_execWhere (by decide : Machine.execWhere step
    (fun s a => calm s a && decide (a ≠ .halt)) twoCalls (initial 2) = true)
  refine ⟨h, s, run, labels, calls_return run ?_ ?_⟩
  · exact fun p member => (Bool.and_eq_true_iff.mp (still p member)).1
  · exact fun p member => of_decide_eq_true (Bool.and_eq_true_iff.mp (still p member)).2

end DsaTest.Driver.Command
