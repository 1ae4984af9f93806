import DsaTest.Retry
import DsaTest.Lib.Machine

/-! The descriptors of a kernel work queue with interrupts (`submit.c`, `irq.c` and `dma.c` of
the driver): submitters, the device, the interrupt thread with its lists, the resubmission of
descriptors, the abort of rejected ones and the worker that loses an interrupt handle, in any
interleaving. -/
namespace DsaTest.Driver

open SingleDevice (dsaCompSuccess)

structure Config where
  numDescs : Nat
  requestIntHandles : Bool
  /-- `enqcmds` may fail for good, as it never does on a dedicated queue. -/
  rejects : Bool
  /-- `idxd_device_request_int_handle` may fail. -/
  revokes : Bool

def dsaCompIntHandleInval : Nat := 0x19

def idxdCompDescAbort : Nat := 0xff

inductive CompleteType
  | normal
  | abort
  deriving DecidableEq, Repr

inductive TxResult
  | noError
  | writeFailed
  | aborted
  deriving DecidableEq, Repr

/-- Where the submitter of a descriptor is: `again` for the work of a resubmission, and the
last four for `llist_abort_desc`. -/
inductive Submitter
  | away
  | ready (again : Bool)
  | listed
  | retrying
  | failing
  | marked
  | found (found : Option Nat) (flist : List Nat)
  | freeing
  deriving DecidableEq, Repr

/-- The interrupt thread. `next` is about to read the link of a descriptor that it has
completed and that has been linked elsewhere if `relinked`. -/
inductive Irq
  | idle
  | walk (flist : List Nat)
  | walkFree (d : Nat) (flist : List Nat)
  | next (d : Nat) (flist : List Nat) (relinked : Bool)
  | takeAll
  | pending (head : List Nat)
  | pendingFree (d : Nat) (head : List Nat)
  | keep (d : Nat) (head : List Nat)
  deriving DecidableEq, Repr

inductive Event
  | alloc (d : Nat)
  | answer (d : Nat)
  | requeue (d : Nat)
  | callback (d : Nat) (result : TxResult)
  | refused (d : Nat)
  | gaveUp (d : Nat)
  | free (d : Nat)
  deriving DecidableEq, Repr

/-- `busy` has the descriptors that the device has accepted and not answered, `alive` whether
`wq_active` can be taken, `users` how often it is, and `revoker` the list of the worker. The last
three are ghost: a second free, a use of no descriptor or a walk out of its list; the answered
descriptors that this pass of the thread has still to see; and what has happened. -/
structure State where
  allocated : Nat → Bool
  submitter : Nat → Submitter
  status : Nat → Nat
  cookie : Nat → Bool
  busy : Nat → Bool
  pendingLlist : List Nat
  workList : List Nat
  irq : Irq
  alive : Bool
  users : Nat
  revoker : List Nat
  fault : Bool
  due : List Nat
  log : List Event

def initial : State where
  allocated _ := false
  submitter _ := .away
  status _ := 0
  cookie _ := false
  busy _ := false
  pendingLlist := []
  workList := []
  irq := .idle
  alive := true
  users := 0
  revoker := []
  fault := false
  due := []
  log := []

inductive Action
  | alloc (d : Nat)
  | refuse (d : Nat)
  | list (d : Nat)
  | enqcmds (d : Nat) (accepted : Bool)
  | restart (d : Nat)
  | abort (d : Nat)
  | answer (d status : Nat)
  | irq (memory : Bool)
  | revoke
  | revoker
  deriving DecidableEq, Repr

namespace State

def record (s : State) (e : Event) : State := { s with log := e :: s.log }

def free (s : State) (d : Nat) : State :=
  if s.allocated d then
    { s with allocated := Function.update s.allocated d false }.record (.free d)
  else { s with fault := true }

/-- What `idxd_dma_complete_txd` reports, when it does. -/
def txResult (type : CompleteType) (status : Nat) : Option TxResult :=
  if status = dsaCompSuccess then some .noError
  else if status ≠ 0 then some .writeFailed
  else if type = .abort then some .aborted
  else none

def callBack (s : State) (type : CompleteType) (d : Nat) : State :=
  match txResult type (s.status d) with
  | some result =>
    if s.cookie d then
      { s with
        cookie := Function.update s.cookie d false
        due := s.due.filter (· ≠ d) }.record (.callback d result)
    else s
  | none => s

/-- The test of `idxd_dma_complete_txd` before it queues a resubmission. -/
def resubmits (cfg : Config) (type : CompleteType) (status : Nat) (memory : Bool) : Bool :=
  cfg.requestIntHandles && type ≠ .abort && status = dsaCompIntHandleInval && memory

def requeue (s : State) (d : Nat) : State :=
  { s with
    submitter := Function.update s.submitter d .retrying
    due := s.due.filter (· ≠ d) }.record (.requeue d)

def irqType (s : State) (d : Nat) : CompleteType :=
  if s.status d = idxdCompDescAbort then .abort else .normal

/-- `list_add_tail` of descriptors by somebody else than the interrupt thread. -/
def relink (s : State) (ds : List Nat) : State :=
  match s.irq with
  | .next d flist relinked => { s with irq := .next d flist (relinked || ds.contains d) }
  | _ => s

end State

def irqStep (cfg : Config) (memory : Bool) (s : State) : State :=
  match s.irq with
  | .idle =>
    let done := s.workList.filter fun d => s.status d ≠ 0
    { s with
      irq := .walk done
      workList := s.workList.filter fun d => s.status d = 0
      due := done ++ s.pendingLlist.filter fun d => s.status d ≠ 0 }
  | .walk [] => { s with irq := .takeAll }
  | .walk (d :: flist) =>
    if State.resubmits cfg (s.irqType d) (s.status d) memory then
      { s.requeue d with irq := .next d flist false }
    else { s.callBack (s.irqType d) d with irq := .walkFree d flist }
  | .walkFree d flist => { s.free d with irq := .next d flist false }
  | .next _ flist relinked => { s with irq := .walk flist, fault := s.fault || relinked }
  | .takeAll => { s with irq := .pending s.pendingLlist, pendingLlist := [] }
  | .pending [] => { s with irq := .idle }
  | .pending (d :: head) =>
    if dsaCompStatus (s.status d) = 0 then { s with irq := .keep d head }
    else if State.resubmits cfg (s.irqType d) (s.status d) memory then
      { s.requeue d with irq := .pending head }
    else { s.callBack (s.irqType d) d with irq := .pendingFree d head }
  | .pendingFree d head => { s.free d with irq := .pending head }
  | .keep d head => { s with irq := .pending head, workList := s.workList ++ [d] }

/-- What `llist_abort_desc` does to the lists under the lock, with `found` and its own list. -/
def abortLists (s : State) (desc : Nat) : Option Nat × List Nat × State :=
  let others := s.pendingLlist.filter (· ≠ desc)
  let flist := others.filter fun d => s.status d ≠ 0
  let work := s.workList ++ others.filter fun d => s.status d = 0
  let found := if s.pendingLlist.contains desc || work.contains desc then some desc else none
  let work := if s.pendingLlist.contains desc then work else work.erase desc
  (found, flist, { s with pendingLlist := [], workList := work }.relink others)

/-- `llist_abort_desc`, and the free of the caller. -/
def abortStep (s : State) (desc : Nat) : Option State :=
  let goto (s : State) (p : Submitter) : State :=
    { s with submitter := Function.update s.submitter desc p }
  match s.submitter desc with
  | .failing =>
    some (goto { s with status := Function.update s.status desc idxdCompDescAbort } .marked)
  | .marked =>
    match abortLists s desc with
    | (some d, flist, s) => some (goto (s.callBack .abort d) (.found (some d) flist))
    | (none, flist, s) => some (goto s (.found none flist))
  | .found _ [] => some (goto s .freeing)
  -- the loop over `flist` completes `found`
  | .found none (_ :: flist) => some (goto { s with fault := true } (.found none flist))
  | .found (some d) (_ :: flist) =>
    some (goto ((s.callBack .abort d).free d) (.found (some d) flist))
  | .freeing => some (goto (s.free desc) .away)
  | _ => none

/-- `idxd_abort_invalid_int_handle_descs`, up to its loop over `flist`, after all submitters
have let go of the queue. -/
def revokeStep (cfg : Config) (s : State) : Option State :=
  if cfg.requestIntHandles ∧ cfg.revokes ∧ s.alive ∧ s.users = 0 then
    let work := s.workList ++ s.pendingLlist
    some ({ s with
      alive := false
      pendingLlist := []
      workList := work.filter fun d => s.status d ≠ dsaCompIntHandleInval
      revoker := work.filter fun d => s.status d = dsaCompIntHandleInval }.relink s.pendingLlist)
  else none

namespace State

/-- `idxd_alloc_desc` and the preparation of the descriptor, up to its cookie. -/
def alloc (s : State) (d : Nat) : State :=
  { s with
    allocated := Function.update s.allocated d true
    submitter := Function.update s.submitter d (.ready false)
    status := Function.update s.status d 0
    cookie := Function.update s.cookie d true }.record (.alloc d)

/-- `idxd_submit_desc` fails before it does anything, for `idxd_dma_tx_submit`. -/
def refuse (s : State) (d : Nat) : State :=
  ({ s with submitter := Function.update s.submitter d .away }.record (.refused d)).free d

/-- The same for `idxd_int_handle_resubmit_work`. -/
def giveUp (s : State) (d : Nat) : State :=
  (({ s with
    submitter := Function.update s.submitter d .away
    status := Function.update s.status d idxdCompDescAbort }.record (.gaveUp d)).callBack
      .abort d).free d

def list (s : State) (d : Nat) : State :=
  { s with
    submitter := Function.update s.submitter d .listed
    pendingLlist := d :: s.pendingLlist
    users := s.users + 1 }

def accept (s : State) (d : Nat) : State :=
  { s with
    submitter := Function.update s.submitter d .away
    busy := Function.update s.busy d true
    users := s.users - 1 }

def reject (s : State) (d : Nat) : State :=
  { s with
    submitter := Function.update s.submitter d .failing
    users := s.users - 1 }

def restart (s : State) (d : Nat) : State :=
  { s with
    submitter := Function.update s.submitter d (.ready true)
    status := Function.update s.status d 0 }

def answer (s : State) (d status : Nat) : State :=
  { s with
    status := Function.update s.status d status
    busy := Function.update s.busy d false }.record (.answer d)

end State

def step (cfg : Config) (s : State) : Action → Option State
  | .alloc d =>
    if d < cfg.numDescs ∧ s.allocated d = false ∧ s.submitter d = .away then some (s.alloc d)
    else none
  | .refuse d =>
    match s.submitter d with
    | .ready false => some (s.refuse d)
    | .ready true => some (s.giveUp d)
    | _ => none
  | .list d =>
    match s.submitter d with
    | .ready _ => if s.alive then some (s.list d) else none
    | _ => none
  | .enqcmds d accepted =>
    if s.submitter d ≠ .listed then none
    else if accepted then some (s.accept d)
    else if cfg.rejects then some (s.reject d)
    else none
  | .restart d => if s.submitter d = .retrying then some (s.restart d) else none
  | .abort d => abortStep s d
  | .answer d status =>
    if s.busy d ∧ dsaCompStatus status ≠ 0 ∧ status ≠ idxdCompDescAbort then
      some (s.answer d status)
    else none
  | .irq memory => some (irqStep cfg memory s)
  | .revoke => revokeStep cfg s
  | .revoker =>
    match s.revoker with
    | [] => none
    | d :: flist => some (({ s with revoker := flist }.callBack .abort d).free d)

abbrev Run (cfg : Config) (h : List (State × Action)) (s : State) : Prop :=
  Machine.Run (step cfg) initial h s

variable {cfg : Config} {s t : State} {a : Action}

/-- What can happen as long as `enqcmds` does not fail and no interrupt handle is lost. -/
inductive Move (cfg : Config) (s : State) : Action → State → Prop
  | alloc {d : Nat} : d < cfg.numDescs → s.allocated d = false → s.submitter d = .away →
      Move cfg s (.alloc d) (s.alloc d)
  | refuse {d : Nat} : s.submitter d = .ready false → Move cfg s (.refuse d) (s.refuse d)
  | giveUp {d : Nat} : s.submitter d = .ready true → Move cfg s (.refuse d) (s.giveUp d)
  | list {d : Nat} {again : Bool} : s.submitter d = .ready again → Move cfg s (.list d) (s.list d)
  | accept {d : Nat} : s.submitter d = .listed → Move cfg s (.enqcmds d true) (s.accept d)
  | restart {d : Nat} : s.submitter d = .retrying → Move cfg s (.restart d) (s.restart d)
  | answer {d status : Nat} : s.busy d = true → dsaCompStatus status ≠ 0 →
      status ≠ idxdCompDescAbort → Move cfg s (.answer d status) (s.answer d status)
  | irq {memory : Bool} : Move cfg s (.irq memory) (irqStep cfg memory s)

def Submitter.Calm : Submitter → Prop
  | .away | .ready _ | .listed | .retrying => True
  | _ => False

theorem move_of_step (accepts : cfg.rejects = false)
    (keeps : cfg.requestIntHandles = false ∨ cfg.revokes = false)
    (calm : ∀ d, (s.submitter d).Calm) (none : s.revoker = [])
    (taken : step cfg s a = some t) : Move cfg s a t := by
  cases a with
  | alloc d =>
    simp only [step, Option.ite_none_right_eq_some, Option.some.injEq] at taken
    obtain ⟨⟨below, unused, away⟩, rfl⟩ := taken
    exact .alloc below unused away
  | refuse d =>
    simp only [step] at taken
    split at taken
    next client => exact Option.some.inj taken ▸ .refuse client
    next client => exact Option.some.inj taken ▸ .giveUp client
    next => contradiction
  | list d =>
    simp only [step] at taken
    split at taken
    next again client =>
      simp only [Option.ite_none_right_eq_some, Option.some.injEq] at taken
      exact taken.2 ▸ .list client
    next => contradiction
  | enqcmds d accepted =>
    simp only [step, accepts, Bool.false_eq_true, if_false] at taken
    split at taken
    next => contradiction
    next client =>
      simp only [Option.ite_none_right_eq_some, Option.some.injEq] at taken
      obtain ⟨rfl, rfl⟩ := taken
      exact .accept (Decidable.not_not.mp client)
  | restart d =>
    simp only [step, Option.ite_none_right_eq_some, Option.some.injEq] at taken
    exact taken.2 ▸ .restart taken.1
  | abort d =>
    have calm := calm d
    simp only [step, abortStep] at taken
    split at taken <;> simp_all [Submitter.Calm]
  | answer d status =>
    simp only [step, Option.ite_none_right_eq_some, Option.some.injEq] at taken
    obtain ⟨⟨busy, some, other⟩, rfl⟩ := taken
    exact .answer busy some other
  | irq memory => exact Option.some.inj taken ▸ .irq
  | revoke =>
    simp only [step, revokeStep, Option.ite_none_right_eq_some] at taken
    obtain ⟨⟨handles, lost, _⟩, _⟩ := taken
    rcases keeps with none | kept
    · simp [none] at handles
    · simp [kept] at lost
  | revoker => simp [step, none] at taken

end DsaTest.Driver
