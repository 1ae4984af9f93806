import Mathlib.Data.Nat.Basic

/-! Loops `do { .. } while (left >= least);` that do a job piece by piece and end early when
a piece goes wrong. -/
namespace DsaTest.Pieces

variable {σ : Type*}

section

variable (work : Nat → Nat → σ → σ) (stop : σ → Bool) (most : Nat) (least : Nat → Nat)

/-- `work` has the number of the piece and its size. Nothing is returned without fuel. -/
def pieces : (fuel turn left : Nat) → σ → Option σ
  | 0, _, _, _ => none
  | fuel + 1, turn, left, s =>
    let size := if left ≤ most then left else most
    let s := work turn size s
    if stop s then some s
    else if least turn ≤ left - size then pieces fuel (turn + 1) (left - size) s
    else some s

end

variable {work : Nat → Nat → σ → σ} {stop : σ → Bool} {most : Nat} {least : Nat → Nat}
  {I : Nat → Nat → σ → Prop} {J : σ → Prop} {fuel turn left : Nat} {s : σ}

/-- The loop returns, with `J`, when `I` holds before every piece and an empty piece stops it. -/
theorem pieces_spec
    (empty : ∀ turn left s, I turn left s → stop (work turn 0 s) = true)
    (stopped : ∀ turn left size s, I turn left s → size = min left most →
      stop (work turn size s) = true → J (work turn size s))
    (last : ∀ turn left size s, I turn left s → size = min left most →
      stop (work turn size s) = false → left - size < least turn → J (work turn size s))
    (next : ∀ turn left size s, I turn left s → size = min left most →
      stop (work turn size s) = false → least turn ≤ left - size →
      I (turn + 1) (left - size) (work turn size s))
    (start : I turn left s) (enough : left < fuel) :
    ∃ t, pieces work stop most least fuel turn left s = some t ∧ J t := by
  induction fuel generalizing turn left s with
  | zero => contradiction
  | succ fuel ih =>
    rw [pieces, ← Nat.min_def]
    generalize piece : min left most = size
    cases ends : stop (work turn size s) with
    | true =>
      simp only [if_true]
      exact ⟨_, rfl, stopped turn left size s start piece.symm ends⟩
    | false =>
      have taken : 0 < size := by
        rw [Nat.pos_iff_ne_zero]
        rintro rfl
        rw [empty turn left s start] at ends
        contradiction
      simp only [Bool.false_eq_true, if_false]
      split
      next more => exact ih (next turn left size s start piece.symm ends more) (by omega)
      next done => exact ⟨_, rfl, last turn left size s start piece.symm ends (by omega)⟩

end DsaTest.Pieces
