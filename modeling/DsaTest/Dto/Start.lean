import DsaTest.Lib.Machine

/-! How the functions of `dto.c` start. The first call of a process may come before the
constructor `init_dto`, which it then runs itself, after the test of `USE_ORIG_FUNC`. -/
namespace DsaTest.Dto

structure Library where
  initialized : Bool
  useStdLibCalls : Bool
  numWqs : Nat
  dsaMinSize : Nat
  deriving DecidableEq, Repr

def dtoDefaultMinSize : Nat := 8192

def Library.loaded : Library := ⟨false, false, 0, dtoDefaultMinSize⟩

/-- What `init_dto` finds: `DTO_USESTDC_CALLS`, `DTO_MIN_BYTES` and the queues of `dsa_init`,
none when it fails. -/
structure Setup where
  useStdcCalls : Bool
  minBytes : Option Nat
  queues : Nat

/-- `init_dto`, which runs once. -/
def initDto (setup : Setup) : Library :=
  if setup.useStdcCalls then { Library.loaded with initialized := true, useStdLibCalls := true }
  else
    { initialized := true
      useStdLibCalls := setup.queues = 0
      numWqs := setup.queues
      dsaMinSize := setup.minBytes.getD dtoDefaultMinSize }

/-- How a call finds the library. `USE_ORIG_FUNC` reads `entry` and the test of
`dto_initialized` reads `library`; they differ if another thread writes in between.
`initializing` tells that `init_dto` has been begun. -/
structure Arrival where
  entry : Library
  library : Library
  initializing : Bool
  setup : Setup

/-- Who does the work of a call. The division by `num_wqs` in `get_wq` ends the process. -/
inductive Route
  | internal
  | original
  | divides
  | device
  deriving DecidableEq, Repr

namespace Arrival

def useOrigFunc (at_ : Arrival) (n : Nat) : Bool :=
  at_.entry.useStdLibCalls || n < at_.entry.dsaMinSize

/-- The library behind the test of `dto_initialized`, where the call may run `init_dto`. -/
def started (at_ : Arrival) : Library :=
  if at_.library.initialized then at_.library else initDto at_.setup

def route (at_ : Arrival) (n : Nat) : Route :=
  if at_.library.initialized = false ∧ at_.initializing then .internal
  else if at_.useOrigFunc n then .original
  else if at_.started.numWqs = 0 then .divides
  else .device

end Arrival

def Library.tuned (lib : Library) (size : Nat) : Library := { lib with dsaMinSize := size }

/-- A call of one of the four functions for `size` bytes, and what the auto-tuning makes of
`dsa_min_size` in it. -/
structure Call where
  size : Nat
  dsaMinSize : Nat

/-- The library after a call of the only thread, if the process lives. -/
def callStep (setup : Setup) (lib : Library) (call : Call) : Option Library :=
  let at_ : Arrival := ⟨lib, lib, false, setup⟩
  match at_.route call.size with
  | .divides => none
  | .device => some (at_.started.tuned call.dsaMinSize)
  | _ => some at_.started

def Library.Ready (setup : Setup) (lib : Library) : Prop :=
  ∃ size, lib = (initDto setup).tuned size

variable {setup : Setup} {lib next : Library} {call : Call} {n : Nat}

theorem initDto_initialized (setup : Setup) : (initDto setup).initialized = true := by
  unfold initDto
  split <;> rfl

theorem initDto_numWqs_iff (setup : Setup) :
    (initDto setup).numWqs = 0 ↔ setup.useStdcCalls = true ∨ setup.queues = 0 := by
  unfold initDto
  split
  next plain => simp [plain, Library.loaded]
  next other => simp [other]

theorem initDto_useStdLibCalls (setup : Setup) :
    (initDto setup).useStdLibCalls = decide ((initDto setup).numWqs = 0) := by
  unfold initDto
  split <;> rfl

theorem callStep_eq_none_iff :
    callStep setup lib call = none ↔ Arrival.route ⟨lib, lib, false, setup⟩ call.size = .divides := by
  unfold callStep
  dsimp only
  split <;> simp_all

namespace Library.Ready

theorem started (ready : lib.Ready setup) : Arrival.started ⟨lib, lib, false, setup⟩ = lib := by
  obtain ⟨size, rfl⟩ := ready
  exact if_pos (initDto_initialized setup)

theorem route_ne (ready : lib.Ready setup) (n : Nat) :
    Arrival.route ⟨lib, lib, false, setup⟩ n ≠ .divides := by
  rw [Arrival.route, ready.started]
  obtain ⟨size, rfl⟩ := ready
  have plain := initDto_useStdLibCalls setup
  by_cases none : (initDto setup).numWqs = 0
  · simp [Library.tuned, Arrival.useOrigFunc, plain, none]
  · simp only [Library.tuned, none, Bool.false_eq_true, and_false, if_false]
    split <;> simp

theorem step (ready : (Arrival.started ⟨lib, lib, false, setup⟩).Ready setup)
    (taken : callStep setup lib call = some next) : next.Ready setup := by
  unfold callStep at taken
  dsimp only at taken
  split at taken
  next => contradiction
  next =>
    obtain ⟨size, same⟩ := ready
    cases taken
    exact ⟨call.dsaMinSize, by rw [same]; rfl⟩
  next =>
    cases taken
    exact ready

theorem lives (ready : lib.Ready setup) (calls : List Call) :
    Machine.exec (callStep setup) calls lib ≠ none := by
  induction calls generalizing lib with
  | nil => exact fun dead => nomatch dead
  | cons call rest ih =>
    rw [Machine.exec]
    cases taken : callStep setup lib call with
    | none => exact absurd (callStep_eq_none_iff.mp taken) (ready.route_ne call.size)
    | some next => exact ih (step (ready.started.symm ▸ ready) taken)

end Library.Ready

theorem route_loaded_iff :
    Arrival.route ⟨.loaded, .loaded, false, setup⟩ n = .divides ↔
      dtoDefaultMinSize ≤ n ∧ (initDto setup).numWqs = 0 := by
  have entry : Arrival.useOrigFunc ⟨.loaded, .loaded, false, setup⟩ n =
      decide (n < dtoDefaultMinSize) := Bool.false_or _
  have started : Arrival.started ⟨.loaded, .loaded, false, setup⟩ = initDto setup := rfl
  rw [Arrival.route, entry, started, if_neg (by simp)]
  by_cases small : n < dtoDefaultMinSize
  · simp [small, Nat.not_le.mpr small]
  · by_cases none : (initDto setup).numWqs = 0 <;> simp [small, none, Nat.le_of_not_lt small]

/-- The process dies in `get_wq` if and only if the first call comes before the constructor, is
offloaded by the size that the library is loaded with, and finds no queue. -/
theorem get_wq_divides_iff (setup : Setup) (calls : List Call) :
    Machine.exec (callStep setup) calls (initDto setup) ≠ none ∧
    (Machine.exec (callStep setup) calls .loaded = none ↔
      (∃ call ∈ calls.head?, dtoDefaultMinSize ≤ call.size) ∧
        (setup.useStdcCalls = true ∨ setup.queues = 0)) := by
  refine ⟨Library.Ready.lives ⟨_, rfl⟩ calls, ?_⟩
  rw [← initDto_numWqs_iff]
  cases calls with
  | nil => simp [Machine.exec]
  | cons call rest =>
    have first : Machine.exec (callStep setup) (call :: rest) .loaded = none ↔
        callStep setup .loaded call = none := by
      rw [Machine.exec]
      cases taken : callStep setup .loaded call with
      | none => simp
      | some next =>
        have ready : next.Ready setup := Library.Ready.step ⟨_, rfl⟩ taken
        simpa using ready.lives rest
    rw [first, callStep_eq_none_iff, route_loaded_iff]
    simp

end DsaTest.Dto
