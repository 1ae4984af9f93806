import DsaTest.Schedule
import DsaTest.Lib.Machine
import Mathlib.Logic.Function.Basic

/-! `dsa_copy`, the completion thread `dsa_desc_complete` and the devices of the
N-DSA modules as one machine that executes a single statement in each step.
`kthread_should_stop` stays false while `my_init` runs `dsa_copy`. -/
namespace DsaTest.Protocol

/-- A descriptor of a pool: its queue and its index in `wq->descs`. -/
abbrev Slot := Nat × Nat

/-- The statements by which the thread retires an entry and unlinks it. -/
inductive Stmt
  | setCookie
  | setError
  | setCompletion
  | descComplete
  | reportStatus
  | reportResult
  | pollIncr
  | unmapCompls
  | unmapHwDescs
  | freeSubCompl
  | freeSubHwDescs
  | freeBatchInfo
  | listDel
  | freeEntry
  deriving DecidableEq, Repr

open Stmt

/-- `if (desc_entry->batch_info) { .. }`, in the batch module only. -/
def releaseBatch (batchInfo : Bool) : List Stmt :=
  if batchInfo then [unmapCompls, unmapHwDescs, freeSubCompl, freeSubHwDescs, freeBatchInfo]
  else []

/-- The branch `status == DSA_COMP_SUCCESS`. The modules disagree on whether
the entry is marked before or after its descriptor is returned. -/
def successBranch : Variant → Bool → List Stmt
  | .loop, _ => [setCookie, descComplete, setCompletion, pollIncr]
  | .batch, batchInfo =>
    [setCookie, setCompletion, descComplete, pollIncr] ++ releaseBatch batchInfo

def errorBranch : Variant → Bool → List Stmt
  | .loop, _ => [setError, setCompletion, descComplete, reportStatus, reportResult, pollIncr]
  | .batch, batchInfo =>
    [setError, setCompletion, descComplete, reportStatus, reportResult, pollIncr] ++
      releaseBatch batchInfo

/-- The end of both branches, `if (!thread_execution)`. -/
def unlinkBranch : List Stmt := [listDel, freeEntry]

inductive Event
  | written (status : Nat)
  | ran (stmt : Stmt)
  deriving DecidableEq, Repr

/-- `struct idxd_desc_list`. The queue, `accepted` and `trace` are ghost fields:
did `idxd_submit_desc` hand the descriptor to the device, and what has the
device or the thread done for this entry so far? -/
structure Entry where
  wq : Nat
  desc : Option Slot
  completion : Bool
  batchInfo : Bool
  accepted : Bool
  trace : List Event

inductive MainPc
  | visit
  | append (wq : Nat) (batchInfo : Bool) (desc : Option Slot)
  | submit (entry : Nat)
  | testExecution
  | setExecution
  | wakeUp
  | waitWakeup
  | clearExecution
  | waitCompletion
  | done
  | oops
  deriving DecidableEq, Repr

/-- `pos` is `desc_entry` and `n` is `desc_entry_temp`, with `none` for the list head. -/
inductive ThreadPc
  | waitExecution
  | setWakeup
  | guard
  | scan
  | visit (pos : Nat) (n : Option Nat)
  | testSuccess (pos : Nat) (n : Option Nat)
  | testError (pos : Nat) (n : Option Nat)
  | retire (pos : Nat) (n : Option Nat) (rest : List Stmt)
  | unlink (pos : Nat) (n : Option Nat) (rest : List Stmt)
  | advance (n : Option Nat)
  | drained
  | setStatus
  | clearWakeup
  | waitAgain
  | oops
  deriving DecidableEq, Repr

/-- Entries are numbered in the order in which `dsa_copy` queues them. `holder`
is the pool bitmap (`none`: free) with the entry a descriptor was taken for, and
`busy` tells which descriptors a device has accepted and not yet answered. -/
structure State where
  main : MainPc
  todo : List (Nat × Nat)
  thread : ThreadPc
  pollEntry : Nat
  completionError : Bool
  threadExecution : Bool
  threadWakeup : Bool
  completionStatus : Nat
  idxdDescLists : List Nat
  count : Nat
  entry : Nat → Entry
  holder : Slot → Option Nat
  status : Slot → Nat
  busy : Slot → Bool
  leaked : Nat

def blankEntry : Entry := ⟨0, none, false, false, false, []⟩

def modifyAt (f : Nat → Entry) (e : Nat) (g : Entry → Entry) : Nat → Entry :=
  Function.update f e (g (f e))

@[simp] theorem modifyAt_self (f : Nat → Entry) (e : Nat) (g : Entry → Entry) :
    modifyAt f e g e = g (f e) := by simp [modifyAt]

theorem modifyAt_ne (f : Nat → Entry) {e i : Nat} (g : Entry → Entry) (h : i ≠ e) :
    modifyAt f e g i = f i := by simp [modifyAt, h]

theorem modifyAt_same {β : Type*} (π : Entry → β) {g : Entry → Entry}
    (same : ∀ v, π (g v) = π v) (f : Nat → Entry) (e i : Nat) :
    π (modifyAt f e g i) = π (f i) := by
  by_cases h : i = e
  · subst h
    simp [same]
  · rw [modifyAt_ne f g h]

def initial (cfg : Config) : State where
  main := .visit
  todo := cfg.visits
  thread := .waitExecution
  pollEntry := 0
  completionError := false
  threadExecution := false
  threadWakeup := false
  completionStatus := 0
  idxdDescLists := []
  count := 0
  entry := fun _ => blankEntry
  holder := fun _ => none
  status := fun _ => 0
  busy := fun _ => false
  leaked := 0

/-- Why a descriptor builder returns `NULL`. -/
inductive CreateFailure
  | notEnabled
  | tooLong
  | allocRefused
  deriving DecidableEq, Repr

inductive Action
  | allocDesc (index : Nat)
  | createFails (cause : CreateFailure)
  | submitFails
  | main
  | thread
  | device (d : Slot) (status : Nat)
  deriving DecidableEq, Repr

def Action.fails : Action → Bool
  | .createFails _ | .submitFails => true
  | _ => false

/-- `idxd_alloc_desc` takes a free descriptor of queue `k` and `__get_desc`
clears its completion record. With the pool empty the call blocks. -/
def allocDesc (cfg : Config) (s : State) (k index : Nat) : Option State :=
  if index < cfg.numDescs k ∧ s.holder (k, index) = none then
    some { s with
      main := .append k (cfg.batched k) (some (k, index))
      todo := s.todo.tail
      holder := Function.update s.holder (k, index) (some s.count)
      status := Function.update s.status (k, index) 0 }
  else none

/-- A builder returns `NULL`. The plain one leaves `desc_list->desc` empty. The
batch one has no length check, drops its three allocations, and `dsa_copy` reads
the next cursors through the missing task. -/
def createFails (cfg : Config) (s : State) (k : Nat) (cause : CreateFailure) : Option State :=
  if cfg.batched k then
    if cause = .tooLong then none
    else some { s with main := .oops, leaked := s.leaked + 3 }
  else some { s with main := .append k false none, todo := s.todo.tail }

/-- `list_add_tail` of a new entry whose `completion` is 0. -/
def appendEntry (s : State) (k : Nat) (batchInfo : Bool) (desc : Option Slot) : State :=
  { s with
    main := .submit s.count
    idxdDescLists := s.idxdDescLists ++ [s.count]
    entry := Function.update s.entry s.count ⟨k, desc, false, batchInfo, false, []⟩
    count := s.count + 1 }

/-- `idxd_submit_desc` hands the descriptor to the device. -/
def acceptDesc (s : State) (e : Nat) (d : Slot) : State :=
  { s with
    main := .testExecution
    entry := modifyAt s.entry e ({ · with accepted := true })
    busy := Function.update s.busy d true }

/-- One statement of `dsa_copy`, from the submission loop to the end of the
wait on `completion_status`. -/
def mainStep (cfg : Config) (s : State) (a : Action) : Option State :=
  match s.main, a with
  | .visit, .allocDesc index =>
    match s.todo with
    | (_, k) :: _ => allocDesc cfg s k index
    | [] => none
  | .visit, .createFails cause =>
    match s.todo with
    | (_, k) :: _ => createFails cfg s k cause
    | [] => none
  | .visit, .main => if s.todo = [] then some { s with main := .waitWakeup } else none
  | .append k batchInfo desc, .main => some (appendEntry s k batchInfo desc)
  | .submit e, .main =>
    match (s.entry e).desc with
    | none => some { s with main := .oops }
    | some d => some (acceptDesc s e d)
  | .submit e, .submitFails =>
    if (s.entry e).desc = none then none else some { s with main := .testExecution }
  | .testExecution, .main =>
    if s.threadExecution then some { s with main := .visit }
    else some { s with main := .setExecution }
  | .setExecution, .main => some { s with main := .wakeUp, threadExecution := true }
  | .wakeUp, .main => some { s with main := .visit }
  | .waitWakeup, .main => if s.threadWakeup then some { s with main := .clearExecution } else none
  | .clearExecution, .main => some { s with main := .waitCompletion, threadExecution := false }
  | .waitCompletion, .main =>
    if s.completionStatus ≠ 0 then some { s with main := .done } else none
  | _, _ => none

/-- `list_next_entry`, with `none` for the head. -/
def nextEntry (l : List Nat) (pos : Nat) : Option Nat :=
  (l.dropWhile (· ≠ pos)).tail.head?

/-- Continue `list_for_each_entry_safe` at `n`. -/
def advanceTo (l : List Nat) : Option Nat → ThreadPc
  | none => .guard
  | some pos => .visit pos (nextEntry l pos)

/-- `idxd_desc_complete(desc, .., 1)` gives the descriptor back to its pool. -/
def release (s : State) (pos : Nat) : Slot → Option Nat :=
  match (s.entry pos).desc with
  | none => s.holder
  | some d => Function.update s.holder d none

/-- Execute one statement of a branch for the entry `pos`. The others touch only
the entry's own descriptor and buffers, or print. -/
def execStmt (s : State) (pos : Nat) (stmt : Stmt) : State :=
  { s with
    completionError := s.completionError || stmt = setError
    pollEntry := if stmt = pollIncr then s.pollEntry + 1 else s.pollEntry
    holder := if stmt = descComplete then release s pos else s.holder
    idxdDescLists := if stmt = listDel then s.idxdDescLists.erase pos else s.idxdDescLists
    entry := modifyAt s.entry pos fun v =>
      { v with
        completion := v.completion || stmt = setCompletion
        trace := v.trace ++ [.ran stmt] } }

/-- One statement of `dsa_desc_complete`. -/
def threadStep (cfg : Config) (s : State) : Option State :=
  match s.thread with
  | .waitExecution => if s.threadExecution then some { s with thread := .setWakeup } else none
  | .setWakeup => some { s with thread := .guard, threadWakeup := true }
  | .guard =>
    if s.pollEntry < cfg.totalEntries ∧ s.idxdDescLists ≠ [] then some { s with thread := .scan }
    else some { s with thread := .drained }
  | .scan => some { s with thread := advanceTo s.idxdDescLists s.idxdDescLists.head? }
  | .visit pos n =>
    if (s.entry pos).completion then some { s with thread := .retire pos n [] }
    else some { s with thread := .testSuccess pos n }
  | .testSuccess pos n =>
    match (s.entry pos).desc with
    | none => some { s with thread := .oops }
    | some d =>
      if s.status d = 1 then
        some { s with
          thread := .retire pos n (successBranch cfg.variant (s.entry pos).batchInfo) }
      else some { s with thread := .testError pos n }
  | .testError pos n =>
    match (s.entry pos).desc with
    | none => some { s with thread := .oops }
    | some d =>
      if s.status d > 1 then
        some { s with
          thread := .retire pos n (errorBranch cfg.variant (s.entry pos).batchInfo) }
      else some { s with thread := .advance n }
  | .retire pos n (stmt :: rest) => some { execStmt s pos stmt with thread := .retire pos n rest }
  | .retire pos n [] =>
    if s.threadExecution then some { s with thread := .advance n }
    else some { s with thread := .unlink pos n unlinkBranch }
  | .unlink pos n (stmt :: rest) => some { execStmt s pos stmt with thread := .unlink pos n rest }
  | .unlink _ n [] => some { s with thread := .advance n }
  | .advance n => some { s with thread := advanceTo s.idxdDescLists n }
  | .drained =>
    if s.threadExecution = false ∧ s.idxdDescLists = [] then some { s with thread := .setStatus }
    else some { s with thread := .guard }
  | .setStatus =>
    some { s with
      thread := .clearWakeup
      completionStatus := if s.completionError then 2 else 1 }
  | .clearWakeup => some { s with thread := .waitAgain, threadWakeup := false }
  | .waitAgain => if s.threadExecution then some { s with thread := .guard } else none
  | .oops => none

/-- The ghost record of the entry that a device answers. -/
def answered (s : State) (d : Slot) (status : Nat) : Nat → Entry :=
  match s.holder d with
  | none => s.entry
  | some e => modifyAt s.entry e fun v => { v with trace := v.trace ++ [.written status] }

/-- A device writes a final status for a descriptor that it has accepted, once. -/
def deviceStep (s : State) (d : Slot) (status : Nat) : Option State :=
  if s.busy d ∧ status ≠ 0 then
    some { s with
      status := Function.update s.status d status
      busy := Function.update s.busy d false
      entry := answered s d status }
  else none

def step (cfg : Config) (s : State) : Action → Option State
  | .thread => threadStep cfg s
  | .device d status => deviceStep s d status
  | a => mainStep cfg s a

abbrev Run (cfg : Config) (h : List (State × Action)) (s : State) : Prop :=
  Machine.Run (step cfg) (initial cfg) h s

def oneQueue (variant : Variant) : Config := ⟨variant, [⟨1, 1, 1, 1, by decide⟩]⟩

end DsaTest.Protocol
