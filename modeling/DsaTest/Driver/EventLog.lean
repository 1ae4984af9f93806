import DsaTest.Retry
import DsaTest.Lib.Machine
import DsaTest.Lib.Ring

/-! The event log of the device (`process_evl_entries` of `irq.c`, `idxd_cdev_evl_drain_pasid` of
`cdev.c`): the device that logs, the interrupt thread that hands the faults over to the
work queues, the works, and the processes that close a queue, in any interleaving. The device
does not halt: for a halt `idxd_misc_thread` acknowledges the causes and leaves the log alone. -/
namespace DsaTest.Driver.EventLog

def dsaCompCraXlat : Nat := 0x1a

def dsaCompDrainEvl : Nat := 0x26

def dsaCompBatchEvlErr : Nat := 0x27

/-- The fields of `struct __evl_entry` that are read before a work runs. -/
structure Entry where
  error : Nat
  wqIdx : Nat
  pasid : Nat
  rcr : Bool
  deriving DecidableEq, Repr

/-- What `process_evl_entry` does with an entry. `refused` is the answer of a work queue that is
being drained. -/
inductive Outcome
  | skipped
  | ignored
  | queued
  | noMemory
  | refused
  | reported
  deriving DecidableEq, Repr

/-- The interrupt thread: the cause register read and then acknowledged, the pending bit
cleared, the loop from `h` to `t`. The last is ghost, the number of entries up to `t`. -/
inductive Misc
  | idle
  | caused
  | acked
  | cleared
  | loop (h t upto : Nat)
  deriving DecidableEq, Repr

/-- A process that closes a queue. The last numbers are ghost, the position of `h` and the number
of entries up to `t`. -/
inductive Closer
  | away
  | marking (wq pasid h t pos upto : Nat)
  | marked (wq pasid upto : Nat)
  | flushing (wq pasid upto : Nat)
  deriving DecidableEq, Repr

inductive Holder
  | misc
  | closer (i : Nat)
  deriving DecidableEq, Repr

structure Work where
  pos : Nat
  entry : Entry
  deriving DecidableEq, Repr

/-- A queue that has been closed by a process, at a time when `upto` entries had been logged. -/
structure Closed where
  wq : Nat
  pasid : Nat
  upto : Nat
  deriving DecidableEq, Repr

/-- `tail` and `headReg` are in the status register, `head` and `bmap` in `struct idxd_evl`. The
last are ghost: how many entries are released by the head register, what has been logged and
what has become of it, both oldest first, the positions that were marked, and the queues that are
closed. -/
structure State where
  ring : Nat → Entry
  tail : Nat
  headReg : Nat
  intPending : Bool
  cause : Bool
  head : Nat
  bmap : Nat → Bool
  lock : Option Holder
  misc : Misc
  closer : Nat → Closer
  nrDrainers : Nat → Nat
  works : List Work
  released : Nat
  logged : List Entry
  outcomes : List (Entry × Outcome)
  marks : List Nat
  closed : List Closed

def initial : State where
  ring _ := ⟨0, 0, 0, false⟩
  tail := 0
  headReg := 0
  intPending := false
  cause := false
  head := 0
  bmap _ := false
  lock := none
  misc := .idle
  closer _ := .away
  nrDrainers _ := 0
  works := []
  released := 0
  logged := []
  outcomes := []
  marks := []
  closed := []

inductive Action
  | log (e : Entry)
  | misc (alloc : Bool)
  | run (w : Work)
  | close (i wq pasid : Nat)
  | closer (i : Nat)
  deriving DecidableEq, Repr

/-- The errors for which a completion record is written. -/
def isFault (error : Nat) : Bool :=
  let status := dsaCompStatus error
  status = dsaCompCraXlat || status = dsaCompDrainEvl || status = dsaCompBatchEvlErr

def outcome (e : Entry) (alloc draining : Bool) : Outcome :=
  if isFault e.error then
    if !e.rcr && dsaCompStatus e.error = dsaCompDrainEvl then .ignored
    else if !alloc then .noMemory
    else if draining then .refused
    else .queued
  else .reported

/-- `process_evl_entry`, with whether `kmem_cache_alloc` finds memory. -/
def processEvlEntry (s : State) (h : Nat) (alloc : Bool) : State :=
  let e := s.ring h
  if s.bmap h then
    { s with
      bmap := Function.update s.bmap h false
      outcomes := s.outcomes ++ [(e, .skipped)] }
  else
    let o := outcome e alloc (s.nrDrainers e.wqIdx ≠ 0)
    { s with
      works := if o = .queued then ⟨s.outcomes.length, e⟩ :: s.works else s.works
      outcomes := s.outcomes ++ [(e, o)] }

/-- `idxd_misc_thread` for the interrupt of the event log, with `process_evl_entries`. -/
def miscStep (size : Nat) (s : State) (alloc : Bool) : Option State :=
  match s.misc with
  | .idle => if s.cause then some { s with misc := .caused } else none
  | .caused => some { s with misc := .acked, cause := false }
  | .acked =>
    if s.lock = none then
      some { s with misc := .cleared, lock := some .misc, intPending := false }
    else none
  | .cleared => some { s with misc := .loop s.head s.tail s.logged.length }
  | .loop h t upto =>
    if h = t then
      some { s with
        misc := .idle
        lock := none
        head := h
        headReg := h
        released := s.outcomes.length }
    else some { processEvlEntry s h alloc with misc := .loop ((h + 1) % size) t upto }

/-- `idxd_cdev_evl_drain_pasid`, from the loop on to the end of `drain_workqueue`. -/
def closerStep (size : Nat) (s : State) (i : Nat) : Option State :=
  let goto (s : State) (c : Closer) : State := { s with closer := Function.update s.closer i c }
  match s.closer i with
  | .away => none
  | .marking wq pasid h t pos upto =>
    if h = t then some { goto s (.marked wq pasid upto) with lock := none }
    else
      let next := goto s (.marking wq pasid ((h + 1) % size) t (pos + 1) upto)
      if (s.ring h).pasid = pasid ∧ (s.ring h).wqIdx = wq then
        some { next with bmap := Function.update s.bmap h true, marks := pos :: s.marks }
      else some next
  | .marked wq pasid upto =>
    some { goto s (.flushing wq pasid upto) with
      nrDrainers := Function.update s.nrDrainers wq (s.nrDrainers wq + 1) }
  | .flushing wq pasid upto =>
    if s.works.all fun w => w.entry.wqIdx ≠ wq then
      some { goto s .away with
        nrDrainers := Function.update s.nrDrainers wq (s.nrDrainers wq - 1)
        closed := ⟨wq, pasid, upto⟩ :: s.closed }
    else none

/-- The device logs as long as the log is not full, and interrupts unless an interrupt is
pending. -/
def step (size : Nat) (s : State) : Action → Option State
  | .log e =>
    if (s.tail + 1) % size = s.headReg then none
    else some { s with
      ring := Function.update s.ring s.tail e
      tail := (s.tail + 1) % size
      intPending := true
      cause := s.cause || !s.intPending
      logged := s.logged ++ [e] }
  | .misc alloc => miscStep size s alloc
  | .run w => if w ∈ s.works then some { s with works := s.works.erase w } else none
  | .close i wq pasid =>
    if s.lock = none ∧ s.closer i = .away then
      some { s with
        lock := some (.closer i)
        closer := Function.update s.closer i
          (.marking wq pasid s.head s.tail s.outcomes.length s.logged.length) }
    else none
  | .closer i => closerStep size s i

abbrev Run (size : Nat) (h : List (State × Action)) (s : State) : Prop :=
  Machine.Run (step size) initial h s

end DsaTest.Driver.EventLog
