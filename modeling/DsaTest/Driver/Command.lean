import DsaTest.Lib.Machine
import Mathlib.Logic.Function.Basic

/-! Commands to the device (`idxd_cmd_exec` and `idxd_device_release_int_handle` of `device.c`,
`idxd_misc_thread` of `irq.c`): any number of threads that send commands, the interrupt thread
that completes them and the device, in any interleaving. -/
namespace DsaTest.Driver.Command

def idxdCmdReleaseIntHandle : Nat := 14

def idxdCmdstsHwErr : Nat := 3

def idxdCmdstsActive : Nat := 0x80000000

def cmdIntHandleIms : Nat := 0x10000

structure Call where
  cmd : Nat
  operand : Nat
  deriving DecidableEq, Repr

structure CommandReg where
  operand : Nat
  cmd : Nat
  intReq : Bool
  deriving DecidableEq, Repr

def commandReg (c : Call) (intReq : Bool) : CommandReg :=
  ⟨c.operand % 0x100000, c.cmd % 0x20, intReq⟩

/-- The command of `idxd_device_release_int_handle`. -/
def releaseCall (handle : Nat) (ims : Bool) : Call :=
  ⟨idxdCmdReleaseIntHandle, handle % 0x10000 ||| if ims then cmdIntHandleIms else 0⟩

/-- Where a thread is: `entry` to `status` in `idxd_cmd_exec`, `release` to `releaseStatus` in
`idxd_device_release_int_handle`. -/
inductive Pc
  | away
  | entry (c : Call)
  | waiting (c : Call)
  | locked (c : Call)
  | flagged (c : Call)
  | published (c : Call)
  | written (c : Call)
  | sleeping (c : Call)
  | awake (c : Call)
  | status (c : Call) (stat : Nat)
  | release (c : Call)
  | releaseLocked (c : Call)
  | releasePolling (c : Call)
  | releaseIdle (c : Call)
  | releaseStatus (c : Call) (stat : Nat)
  deriving DecidableEq, Repr

/-- `cmd_done` points to the completion on the stack of the thread. -/
def Pc.shared : Pc → Bool
  | .published _ | .written _ | .sleeping _ | .awake _ | .status _ _ => true
  | _ => false

/-- The interrupt thread: the bits for a command and for a halted device that it has read from
the cause register. -/
inductive Irq
  | idle
  | caused (cmd halt : Bool)
  | acked (cmd halt : Bool)
  deriving DecidableEq, Repr

def Irq.cmd : Irq → Bool
  | .idle => false
  | .caused cmd _ | .acked cmd _ => cmd

def Irq.halt : Irq → Bool
  | .idle => false
  | .caused _ halt | .acked _ halt => halt

/-- A command, the thread that has sent it and the status that the device gives for it. -/
structure Report (n : Nat) where
  thread : Fin n
  reg : CommandReg
  status : Nat
  deriving DecidableEq, Repr

/-- `done` is the completion on the stack of each thread, and `device` the command that is being
executed. The last five are ghost: a command has been written during another one; the interrupt
thread has used a completion that is gone; the commands that the device has executed, those
whose status has been handed to their caller, and those that were not sent because the device is
halted, each newest first. -/
structure State (n : Nat) where
  pc : Fin n → Pc
  lock : Option (Fin n)
  running : Bool
  cmdDone : Option (Fin n)
  cmdStatus : Nat
  done : Fin n → Bool
  device : Option (Fin n × CommandReg)
  cmdsts : Nat
  halted : Bool
  causeCmd : Bool
  causeHalt : Bool
  irq : Irq
  overlap : Bool
  fault : Bool
  executed : List (Report n)
  returned : List (Report n)
  refused : List (Fin n × Call × Nat)

def initial (n : Nat) : State n where
  pc _ := .away
  lock := none
  running := false
  cmdDone := none
  cmdStatus := 0
  done _ := false
  device := none
  cmdsts := 0
  halted := false
  causeCmd := false
  causeHalt := false
  irq := .idle
  overlap := false
  fault := false
  executed := []
  returned := []
  refused := []

inductive Action (n : Nat)
  | exec (i : Fin n) (c : Call)
  | release (i : Fin n) (handle : Nat) (ims : Bool)
  | thread (i : Fin n)
  | irq
  | answer (status : Nat)
  | halt
  deriving DecidableEq, Repr

variable {n : Nat}

namespace State

def goto (s : State n) (i : Fin n) (pc : Pc) : State n :=
  { s with pc := Function.update s.pc i pc }

/-- `iowrite32` to the command register. What a device does with a command during another one
is not known; here it has no effect. -/
def write (s : State n) (i : Fin n) (reg : CommandReg) : State n :=
  match s.device with
  | none => { s with device := some (i, reg) }
  | some _ => { s with overlap := true }

def readStatus (s : State n) : Nat :=
  if s.device.isSome then idxdCmdstsActive else s.cmdsts

def report (s : State n) (i : Fin n) (reg : CommandReg) (status : Nat) : State n :=
  { s.goto i .away with returned := ⟨i, reg, status⟩ :: s.returned }

def complete (s : State n) : State n :=
  match s.cmdDone with
  | some i =>
    if (s.pc i).shared then { s with done := Function.update s.done i true }
    else { s with fault := true }
  | none => { s with fault := true }

end State

def threadStep (s : State n) (i : Fin n) : Option (State n) :=
  match s.pc i with
  | .away => none
  | .entry c =>
    if s.halted then
      some { s.goto i .away with refused := (i, c, idxdCmdstsHwErr) :: s.refused }
    else some (s.goto i (.waiting c))
  | .waiting c =>
    if s.lock = none ∧ s.running = false then some { s.goto i (.locked c) with lock := some i }
    else none
  | .locked c => some { s.goto i (.flagged c) with cmdStatus := 0, running := true }
  | .flagged c => some { s.goto i (.published c) with cmdDone := some i }
  | .published c => some ((s.goto i (.written c)).write i (commandReg c true))
  | .written c => some { s.goto i (.sleeping c) with lock := none }
  | .sleeping c => if s.done i then some (s.goto i (.awake c)) else none
  | .awake c => some (s.goto i (.status c s.readStatus))
  | .status c stat =>
    if s.lock = none then
      some { s.report i (commandReg c true) stat with
        cmdStatus := stat % 0x100
        running := false }
    else none
  | .release c =>
    if s.lock = none then some { s.goto i (.releaseLocked c) with lock := some i } else none
  | .releaseLocked c => some ((s.goto i (.releasePolling c)).write i (commandReg c false))
  | .releasePolling c =>
    if s.readStatus < idxdCmdstsActive then some (s.goto i (.releaseIdle c)) else none
  | .releaseIdle c => some (s.goto i (.releaseStatus c s.readStatus))
  | .releaseStatus c stat =>
    some { s.report i (commandReg c false) stat with lock := none }

/-- `idxd_misc_thread`. A halted device makes it leave the command alone. -/
def irqStep (s : State n) : Option (State n) :=
  match s.irq with
  | .idle =>
    if s.causeCmd || s.causeHalt then some { s with irq := .caused s.causeCmd s.causeHalt }
    else none
  | .caused cmd halt =>
    some { s with
      irq := .acked cmd halt
      causeCmd := s.causeCmd && !cmd
      causeHalt := s.causeHalt && !halt }
  | .acked cmd halt =>
    if cmd && !halt then some { s.complete with irq := .idle } else some { s with irq := .idle }

def step (s : State n) : Action n → Option (State n)
  | .exec i c =>
    if s.pc i = .away then some { s.goto i (.entry c) with done := Function.update s.done i false }
    else none
  | .release i handle ims =>
    if s.pc i = .away then some (s.goto i (.release (releaseCall handle ims))) else none
  | .thread i => threadStep s i
  | .irq => irqStep s
  | .answer status =>
    match s.device with
    | some (i, reg) =>
      if status < idxdCmdstsActive then
        some { s with
          device := none
          cmdsts := status
          causeCmd := s.causeCmd || reg.intReq
          executed := ⟨i, reg, status⟩ :: s.executed }
      else none
    | none => none
  | .halt => if s.halted then none else some { s with halted := true, causeHalt := true }

abbrev Run (n : Nat) (h : List (State n × Action n)) (s : State n) : Prop :=
  Machine.Run step (initial n) h s

/-- `idxd_device_release_int_handle` does not take `cmd_lock` while the command of
`idxd_cmd_exec` is running. -/
def calm (s : State n) : Action n → Bool
  | .thread i =>
    match s.pc i with
    | .release _ => !s.running
    | _ => true
  | _ => true

end DsaTest.Driver.Command
