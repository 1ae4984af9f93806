import DsaTest.Lib.CInt
import Mathlib.Data.List.Count
import Mathlib.Data.List.Nodup
import Mathlib.Tactic.Ring

/-! The loop over the pages of an area, with which `init_region` reserves and stamps them,
`dsa_copy` copies them and `exit_module` releases them. -/
namespace DsaTest

open CInt (toSigned toUnsigned)

def pageSize : Nat := 4096

structure PageCount where
  npages : Nat
  positive : 0 < npages := by decide
  bound : npages < 2 ^ 31 := by decide

/-- `for (i = 0; i < NPAGES * PAGE_SIZE; i += PAGE_SIZE)` from `i` on: the values of `i` in the
body, with `none` where the fuel is used up. `i` is an `int`, `PAGE_SIZE` an `unsigned long`. -/
def pageLoop (npages : Nat) : Nat → Int → Option (List Int)
  | 0, _ => none
  | fuel + 1, i =>
    if toUnsigned 64 i < toUnsigned 64 (npages * pageSize) then
      (pageLoop npages fuel (toSigned 32 (toUnsigned 64 (toUnsigned 64 i + pageSize)))).map (i :: ·)
    else some []

structure VisitsEachPage (npages : Nat) (offsets : List Int) : Prop where
  once : ∀ p < npages, offsets.count (p * pageSize : Int) = 1
  only : ∀ i ∈ offsets, ∃ p < npages, i = p * pageSize

def intPages : Nat := 2 ^ 19

def offsetsOf (m : Nat) : List Int := (List.range m).map fun p : Nat => (p * pageSize : Int)

variable {npages fuel : Nat} {i : Int} {l : List Int}

def offsetAt (p : Nat) : Int := toSigned 32 (p * pageSize)

theorem lt_intPages {p : Nat} : p < intPages ↔ p < 524288 := Iff.rfl

theorem pageSize_eq : (pageSize : Int) = 4096 := rfl

theorem offsetAt_of_lt {p : Nat} (below : p < intPages) : offsetAt p = p * pageSize := by
  rw [lt_intPages] at below
  rw [offsetAt, pageSize_eq]
  exact CInt.toSigned_of_fits (by omega) (by omega)

theorem unsigned_offsetAt {p : Nat} (below : p < intPages) :
    toUnsigned 64 (offsetAt p) = p * pageSize := by
  rw [offsetAt_of_lt below]
  rw [lt_intPages] at below
  have same := CInt.toUnsigned_of_fits (w := 64) (x := p * pageSize) (by rw [pageSize_eq]; omega)
    (by rw [pageSize_eq]; omega)
  exact_mod_cast same

theorem unsigned_offsetAt_limit : toUnsigned 64 (offsetAt intPages) = 2 ^ 64 - 2 ^ 31 := by decide

theorem offsetAt_succ {p : Nat} (below : p < intPages) :
    toSigned 32 (toUnsigned 64 (toUnsigned 64 (offsetAt p) + pageSize)) = offsetAt (p + 1) := by
  rw [unsigned_offsetAt below]
  rw [lt_intPages] at below
  have next : ((p * pageSize : Nat) : Int) + pageSize = (p + 1 : Nat) * pageSize := by
    push_cast
    ring
  have same := CInt.toUnsigned_of_fits (w := 64) (x := (p + 1 : Nat) * pageSize)
    (by rw [pageSize_eq]; omega) (by rw [pageSize_eq]; omega)
  rw [next, same]
  rfl

theorem unsigned_size (bound : npages < 2 ^ 31) :
    toUnsigned 64 (npages * pageSize) = npages * pageSize := by
  have same := CInt.toUnsigned_of_fits (w := 64) (x := npages * pageSize)
    (by rw [pageSize_eq]; omega) (by rw [pageSize_eq]; omega)
  exact_mod_cast same

theorem pageLoop_from (bound : npages < 2 ^ 31) {p left : Nat}
    (here : p + left = min npages intPages) (enough : left < fuel) :
    pageLoop npages fuel (offsetAt p) =
      some ((List.range' p left).map fun p : Nat => (p * pageSize : Int)) := by
  induction left generalizing p fuel with
  | zero =>
    obtain ⟨fuel, rfl⟩ := Nat.exists_eq_succ_of_ne_zero (Nat.ne_of_gt enough)
    have stop : ¬ toUnsigned 64 (offsetAt p) < toUnsigned 64 (npages * pageSize) := by
      rw [unsigned_size bound]
      by_cases reached : p < intPages
      · rw [unsigned_offsetAt reached]
        simp only [pageSize]
        omega
      · have limit : p = intPages := by omega
        rw [limit, unsigned_offsetAt_limit]
        simp only [pageSize]
        omega
    rw [pageLoop, if_neg stop]
    rfl
  | succ left ih =>
    obtain ⟨fuel, rfl⟩ := Nat.exists_eq_succ_of_ne_zero (show fuel ≠ 0 by omega)
    have reached : p < intPages := by omega
    have more : toUnsigned 64 (offsetAt p) < toUnsigned 64 (npages * pageSize) := by
      rw [unsigned_size bound, unsigned_offsetAt reached]
      simp only [pageSize]
      omega
    rw [pageLoop, if_pos more, offsetAt_succ reached, ih (by omega) (by omega),
      offsetAt_of_lt reached]
    rfl

theorem pageLoop_eq (bound : npages < 2 ^ 31) (enough : min npages intPages < fuel) :
    pageLoop npages fuel 0 = some (offsetsOf (min npages intPages)) := by
  have loop := pageLoop_from bound (p := 0) (Nat.zero_add _) enough
  rw [← List.range_eq_range'] at loop
  exact loop

theorem pageLoop_more (ended : pageLoop npages fuel i = some l) (more : Nat) :
    pageLoop npages (fuel + more) i = some l := by
  induction fuel generalizing i l with
  | zero => contradiction
  | succ fuel ih =>
    rw [Nat.add_right_comm, pageLoop] at *
    split at ended
    next inside =>
      obtain ⟨later, run, shape⟩ := Option.map_eq_some_iff.mp ended
      rw [if_pos inside, ih run, ← shape]
      rfl
    next outside =>
      rw [if_neg outside]
      exact ended

/-- However much fuel the loop is given, it visits these pages. -/
theorem offsets_of_pageLoop (bound : npages < 2 ^ 31) (ended : pageLoop npages fuel 0 = some l) :
    l = offsetsOf (min npages intPages) := by
  have longer := pageLoop_more ended (min npages intPages + 1)
  rw [pageLoop_eq bound (by omega)] at longer
  exact (Option.some.inj longer).symm

theorem offset_injective : Function.Injective fun p : Nat => (p * pageSize : Int) := by
  intro p p' same
  simp only [pageSize] at same
  omega

theorem mem_offsetsOf {m : Nat} : i ∈ offsetsOf m ↔ ∃ p < m, i = p * pageSize := by
  simp [offsetsOf, eq_comm]

theorem visitsEachPage_iff {m : Nat} (within : m ≤ npages) :
    VisitsEachPage npages (offsetsOf m) ↔ m = npages := by
  constructor
  · intro visits
    by_contra fewer
    have member : ((m : Nat) * pageSize : Int) ∈ offsetsOf m := by
      rw [← List.one_le_count_iff, visits.once m (by omega)]
    obtain ⟨p, below, same⟩ := mem_offsetsOf.mp member
    have equal := offset_injective same
    omega
  · intro all
    subst all
    exact
      { once := by
          intro p below
          apply List.count_eq_one_of_mem
          · exact List.Nodup.map offset_injective List.nodup_range
          · exact mem_offsetsOf.mpr ⟨p, below, rfl⟩
        only := fun i visited => mem_offsetsOf.mp visited }

/-- The loop ends, and it visits every page exactly up to an area of 2 GiB. -/
theorem page_loop_iff (n : PageCount) :
    (∃ fuel l, pageLoop n.npages fuel 0 = some l) ∧
    ∀ fuel l, pageLoop n.npages fuel 0 = some l →
      (VisitsEachPage n.npages l ↔ n.npages ≤ 2 ^ 19) := by
  constructor
  · exact ⟨_, _, pageLoop_eq n.bound (Nat.lt_succ_self _)⟩
  · intro fuel l ended
    rw [offsets_of_pageLoop n.bound ended, visitsEachPage_iff (Nat.min_le_left _ _)]
    exact min_eq_left_iff

/-- The 1 GiB of `kernel_test.h`. -/
theorem page_loop_gib :
    ∃ fuel l, pageLoop (2 ^ 18) fuel 0 = some l ∧ VisitsEachPage (2 ^ 18) l := by
  obtain ⟨⟨fuel, l, ended⟩, visits⟩ := page_loop_iff { npages := 2 ^ 18 }
  exact ⟨fuel, l, ended, (visits fuel l ended).mpr (by decide)⟩

def wideArea : PageCount := { npages := 2 ^ 19 + 1 }

theorem page_loop_wide :
    ¬ ∀ (n : PageCount) (fuel : Nat) (l : List Int), pageLoop n.npages fuel 0 = some l →
      VisitsEachPage n.npages l := by
  intro claim
  have visits := claim wideArea _ _ (pageLoop_eq wideArea.bound (Nat.lt_succ_self _))
  rw [visitsEachPage_iff (Nat.min_le_left _ _)] at visits
  exact absurd visits (by decide)

end DsaTest
