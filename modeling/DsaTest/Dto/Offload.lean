import DsaTest.Retry

/-! What the operations of `dto.c` share: a descriptor is submitted at most three times, and
the thread waits for its completion record. -/
namespace DsaTest.Dto

open SingleDevice (dsaCompSuccess)

inductive ReturnCode
  | success
  | retries
  | pageFault
  | failOthers
  deriving DecidableEq, Repr

structure Comp where
  status : Nat
  result : Nat
  bytesCompleted : Nat
  deriving DecidableEq, Repr

def enqcmdMaxRetries : Nat := 3

/-- `retry r` is what `enqcmd` returns the `r`-th time. -/
def dsaSubmit (retry : Nat → Bool) : ReturnCode :=
  if (List.range enqcmdMaxRetries).all retry then .retries else .success

/-- With the new `thr_bytes_completed`, for a record that has been written. -/
def dsaWait (comp : Comp) (xferSize bytesCompleted : Nat) : ReturnCode × Nat :=
  if comp.status = dsaCompSuccess then (.success, bytesCompleted + xferSize)
  else if dsaCompStatus comp.status = dsaCompPageFaultNobof then
    (.pageFault, bytesCompleted + comp.bytesCompleted)
  else (.failOthers, bytesCompleted)

namespace Comp

/-- The bytes of a descriptor that its record reports as done. -/
def moved (comp : Comp) (xferSize : Nat) : Nat := (dsaWait comp xferSize 0).2

def Failed (comp : Comp) : Prop :=
  comp.status ≠ dsaCompSuccess ∧ dsaCompStatus comp.status ≠ dsaCompPageFaultNobof

instance (comp : Comp) : Decidable comp.Failed :=
  inferInstanceAs (Decidable (_ ∧ _))

/-- What every record of a descriptor of this size says. -/
structure Fits (maxTransferSize xferSize : Nat) (comp : Comp) : Prop where
  written : comp.status ≠ 0
  within : comp.moved xferSize ≤ xferSize
  refused : xferSize = 0 ∨ maxTransferSize < xferSize → comp.Failed

end Comp

variable {retry : Nat → Bool} {comp : Comp} {xferSize done maxTransferSize : Nat}

theorem dsaSubmit_cases (retry : Nat → Bool) : dsaSubmit retry = .success ∨ dsaSubmit retry = .retries := by
  unfold dsaSubmit
  split
  · exact .inr rfl
  · exact .inl rfl

theorem dsaWait_snd : (dsaWait comp xferSize done).2 = done + comp.moved xferSize := by
  unfold Comp.moved dsaWait
  split
  · simp
  · split <;> simp

theorem Comp.moved_of_failed (xferSize : Nat) (failed : comp.Failed) : comp.moved xferSize = 0 := by
  rw [Comp.moved, dsaWait, if_neg failed.1, if_neg failed.2]

theorem Comp.moved_of_success (success : comp.status = dsaCompSuccess) :
    comp.moved xferSize = xferSize := by
  rw [Comp.moved, dsaWait, if_pos success, Nat.zero_add]

theorem dsaWait_success_iff :
    (dsaWait comp xferSize done).1 = .success ↔ comp.status = dsaCompSuccess := by
  unfold dsaWait
  split
  next success => simp [success]
  next other => split <;> simp [other]

theorem Comp.Fits.stopped (fits : comp.Fits maxTransferSize xferSize)
    (refused : xferSize = 0 ∨ maxTransferSize < xferSize) :
    (dsaWait comp xferSize done).1 ≠ .success := by
  rw [Ne, dsaWait_success_iff]
  exact (fits.refused refused).1

def Comp.obliging (maxTransferSize xferSize : Nat) : Comp :=
  if 0 < xferSize ∧ xferSize ≤ maxTransferSize then ⟨dsaCompSuccess, 0, xferSize⟩
  else ⟨0x10, 0, 0⟩

@[simp] theorem Comp.obliging_result : (obliging maxTransferSize xferSize).result = 0 := by
  unfold obliging
  split <;> rfl

@[simp] theorem Comp.obliging_moved : (obliging maxTransferSize xferSize).moved xferSize =
    if 0 < xferSize ∧ xferSize ≤ maxTransferSize then xferSize else 0 := by
  unfold obliging
  split
  · exact Comp.moved_of_success rfl
  · exact Comp.moved_of_failed _ (by decide)

theorem Comp.obliging_fits (maxTransferSize xferSize : Nat) : (obliging maxTransferSize xferSize).Fits maxTransferSize xferSize where
  written := by
    unfold obliging
    split
    · exact Nat.one_ne_zero
    · decide
  within := by
    rw [obliging_moved]
    split <;> omega
  refused large := by
    rw [obliging, if_neg (by omega)]
    decide

end DsaTest.Dto
