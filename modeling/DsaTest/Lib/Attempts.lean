import Mathlib.Data.List.Basic

/-! Loops `while (fails() && n++ < max);` and what the counter says of them afterwards. -/
namespace DsaTest.Attempts

variable {α : Type*}

/-- The loop goes on after `n` failures; the outcomes are newest first. -/
structure Trying (fails : α → Bool) (max n : Nat) (outcomes : List α) : Prop where
  count : outcomes.length = n
  failed : ∀ a ∈ outcomes, fails a = true
  within : n ≤ max

/-- The loop has ended with the counter at `n`. -/
inductive Ended (fails : α → Bool) (max : Nat) : Nat → List α → Prop
  | passed {n a outcomes} : Trying fails max n outcomes → fails a = false →
      Ended fails max n (a :: outcomes)
  | exhausted {outcomes} : outcomes.length = max + 1 → (∀ a ∈ outcomes, fails a = true) →
      Ended fails max (max + 1) outcomes

variable {fails : α → Bool} {max n : Nat} {outcomes : List α} {a : α}

theorem Trying.start : Trying fails max 0 [] where
  count := rfl
  failed := by simp
  within := Nat.zero_le max

theorem Trying.again (trying : Trying fails max n outcomes) (failed : fails a = true)
    (more : n < max) : Trying fails max (n + 1) (a :: outcomes) where
  count := congrArg (· + 1) trying.count
  failed := by
    rw [List.forall_mem_cons]
    exact ⟨failed, trying.failed⟩
  within := more

theorem Trying.stop (trying : Trying fails max n outcomes) (failed : fails a = true)
    (last : ¬ n < max) : Ended fails max (n + 1) (a :: outcomes) := by
  have full : n = max := Nat.le_antisymm trying.within (Nat.not_lt.mp last)
  subst full
  apply Ended.exhausted
  · exact congrArg (· + 1) trying.count
  · rw [List.forall_mem_cons]
    exact ⟨failed, trying.failed⟩

theorem Ended.countP (ended : Ended fails max n outcomes) : outcomes.countP fails = n := by
  cases ended with
  | passed trying passed =>
    rw [List.countP_cons_of_neg (by simp [passed]), List.countP_eq_length.mpr trying.failed,
      trying.count]
  | exhausted length failed => rw [List.countP_eq_length.mpr failed, length]

theorem Ended.all_iff (ended : Ended fails max n outcomes) :
    (∀ a ∈ outcomes, fails a = true) ↔ n = max + 1 := by
  cases ended with
  | passed trying passed =>
    have within := trying.within
    simp only [List.forall_mem_cons, passed, Bool.false_eq_true, false_and, false_iff]
    omega
  | exhausted _ failed => simpa using failed

theorem Ended.head_iff (ended : Ended fails max n outcomes) :
    (∃ a, outcomes.head? = some a ∧ fails a = true) ↔ n = max + 1 := by
  cases ended with
  | passed trying passed =>
    have within := trying.within
    simp only [List.head?_cons, Option.some.injEq, exists_eq_left', passed, Bool.false_eq_true,
      false_iff]
    omega
  | exhausted length failed =>
    cases outcomes with
    | nil => simp at length
    | cons a rest => simpa using failed a List.mem_cons_self

/-- The counter ends behind its limit where everything fails; at the limit it ends where
the very last call is the first that passes. -/
theorem Ended.limit_iff (ended : Ended fails max n outcomes) :
    (n = max ↔ n = max + 1) ↔ outcomes.countP fails < max := by
  have bound : n ≤ max + 1 := by
    cases ended with
    | passed trying _ => exact Nat.le_succ_of_le trying.within
    | exhausted => exact Nat.le_refl _
  rw [ended.countP]
  omega

end DsaTest.Attempts
