import Mathlib.Logic.Function.Basic
import Mathlib.Data.Nat.ModEq

/-! Rings of a fixed size. Positions are counted from the beginning and taken modulo the size,
and fewer positions than the size are in use at a time. -/
namespace DsaTest.Ring

variable {α : Type*} {ring : Nat → α} {log : List α} {size first i j : Nat}

theorem slot_injective {last : Nat} (room : last < first + size) (i_first : first ≤ i)
    (i_last : i ≤ last) (j_first : first ≤ j) (j_last : j ≤ last) (same : i % size = j % size) :
    i = j := by
  have equal : i ≡ j [MOD size] := same
  exact Nat.le_antisymm (equal.le_of_lt_add (by omega)) (equal.symm.le_of_lt_add (by omega))

theorem slot_succ (k size : Nat) : (k % size + 1) % size = (k + 1) % size :=
  Nat.mod_add_mod k size 1

theorem room_succ {last : Nat} (room : last < first + size)
    (apart : (last + 1) % size ≠ first % size) : last + 1 < first + size := by
  by_contra full
  have last_eq : last + 1 = first + size := by omega
  rw [last_eq, Nat.add_mod_right] at apart
  exact apart rfl

/-- The ring holds what has been logged from the position `first` on. -/
def Holds (ring : Nat → α) (log : List α) (size first : Nat) : Prop :=
  ∀ k, first ≤ k → ∀ x, log[k]? = some x → ring (k % size) = x

theorem Holds.mono (holds : Holds ring log size i) (later : i ≤ j) : Holds ring log size j :=
  fun k from_ => holds k (Nat.le_trans later from_)

theorem Holds.push (holds : Holds ring log size first) (room : log.length < first + size) (x : α) :
    Holds (Function.update ring (log.length % size) x) (log ++ [x]) size first := by
  intro k from_ y at_
  rcases Nat.lt_trichotomy k log.length with old | rfl | new
  · have other : k % size ≠ log.length % size := by
      intro same
      have equal := slot_injective room from_ (Nat.le_of_lt old) (by omega) (Nat.le_refl _) same
      omega
    rw [Function.update_of_ne other]
    rw [List.getElem?_append_left old] at at_
    exact holds k from_ y at_
  · rw [List.getElem?_concat_length] at at_
    rw [Function.update_self]
    exact Option.some.inj at_
  · rw [List.getElem?_eq_none (by simp; omega)] at at_
    contradiction

end DsaTest.Ring
