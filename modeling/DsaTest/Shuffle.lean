import DsaTest.PageLoop
import Mathlib.Data.List.GetD
import Mathlib.Data.List.Perm.Basic
import Mathlib.Data.Set.Basic
import Mathlib.Logic.Function.Basic

/-! `random_arr`: the order in which the pages go into the scatter tables. -/
namespace DsaTest

/-- `tmp2 = arr[i]; arr[i] = arr[tmp]; arr[tmp] = tmp2;` -/
def swapAt (arr : List Nat) (i tmp : Nat) : List Nat :=
  (arr.set i (arr.getD tmp 0)).set tmp (arr.getD i 0)

/-- `(get_random_u32() >> 1) % NPAGES` -/
def randomIndex (n : Nat) (word : UInt32) : Nat := (word >>> 1).toNat % n

/-- The second loop of `random_arr`; `draw i` is the word drawn for entry `i`. -/
def shuffle (n : Nat) (draw : Nat → UInt32) : List Nat → List Nat → List Nat
  | [], arr => arr
  | i :: rest, arr => shuffle n draw rest (swapAt arr i (randomIndex n (draw i)))

def randomArr (n : Nat) (draw : Nat → UInt32) : List Nat :=
  shuffle n draw (List.range n) (List.range n)

theorem swapAt_perm {arr : List Nat} {i tmp : Nat} (inside : i < arr.length)
    (inside' : tmp < arr.length) : (swapAt arr i tmp).Perm arr := by
  unfold swapAt
  rw [List.getD_eq_getElem arr 0 inside, List.getD_eq_getElem arr 0 inside']
  exact List.set_set_perm inside inside'

theorem shuffle_perm {n : Nat} (draw : Nat → UInt32) {l arr : List Nat} (size : arr.length = n)
    (inside : ∀ i ∈ l, i < n) : (shuffle n draw l arr).Perm arr := by
  induction l generalizing arr with
  | nil => exact .refl arr
  | cons i rest ih =>
    rw [List.forall_mem_cons] at inside
    have drawn : randomIndex n (draw i) < n := Nat.mod_lt _ (by omega)
    have swapped : (swapAt arr i (randomIndex n (draw i))).Perm arr := swapAt_perm (by omega) (by omega)
    exact (ih (swapped.length_eq.trans size) inside.2).trans swapped

theorem randomArr_perm (n : Nat) (draw : Nat → UInt32) : (randomArr n draw).Perm (List.range n) :=
  shuffle_perm draw List.length_range fun _ => List.mem_range.mp

theorem length_randomArr (n : Nat) (draw : Nat → UInt32) : (randomArr n draw).length = n := by
  rw [(randomArr_perm n draw).length_eq, List.length_range]

theorem forall_randomArr {P : Nat → Prop} (n : Nat) (draw : Nat → UInt32) :
    (∀ j < n, P ((randomArr n draw).getD j 0)) ↔ ∀ p < n, P p := by
  have size := length_randomArr n draw
  have entries : (∀ j < n, P ((randomArr n draw).getD j 0)) ↔ ∀ p ∈ randomArr n draw, P p := by
    rw [List.forall_mem_iff_forall_getElem]
    constructor
    · intro all j inside
      have entry := all j (by omega)
      rwa [List.getD_eq_getElem _ 0 inside] at entry
    · intro all j below
      rw [List.getD_eq_getElem _ 0 (by omega)]
      exact all j (by omega)
  rw [entries]
  simp only [(randomArr_perm n draw).mem_iff, List.mem_range]

theorem shuffle_congr {n : Nat} {draw draw' : Nat → UInt32} {l arr : List Nat}
    (same : ∀ i ∈ l, draw i = draw' i) : shuffle n draw l arr = shuffle n draw' l arr := by
  induction l generalizing arr with
  | nil => rfl
  | cons i rest ih =>
    rw [List.forall_mem_cons] at same
    rw [shuffle, shuffle, same.1, ih same.2]

theorem randomIndex_ofNat {n j : Nat} (bound : n < 2 ^ 31) (below : j < n) :
    randomIndex n (UInt32.ofNat (2 * j)) = j := by
  have word : (UInt32.ofNat (2 * j) >>> 1).toNat = j := by
    rw [UInt32.toNat_shiftRight, UInt32.toNat_ofNat', Nat.mod_eq_of_lt (by omega)]
    change (2 * j) >>> 1 = j
    rw [Nat.shiftRight_eq_div_pow]
    omega
  rw [randomIndex, word, Nat.mod_eq_of_lt below]

theorem take_swapAt {arr : List Nat} {k j : Nat} (order : k ≤ j) (inside : j < arr.length) :
    (swapAt arr k j).take (k + 1) = arr.take k ++ [arr[j]] := by
  have front : (swapAt arr k j).take k = arr.take k := by
    rw [swapAt, List.take_set, List.take_set, List.set_eq_of_length_le (by simp; omega),
      List.set_eq_of_length_le (by simp)]
  have place : (swapAt arr k j)[k]? = some arr[j] := by
    rw [swapAt, List.getD_eq_getElem arr 0 inside, List.getD_eq_getElem arr 0 (by omega)]
    by_cases same : j = k
    · subst same
      rw [List.getElem?_set_self (by simpa using inside)]
    · rw [List.getElem?_set_ne same, List.getElem?_set_self (by omega)]
  rw [List.take_add_one, front, place]
  rfl

/-- From an array whose first `k` entries are in place the rest of the loop can put the
others there. The draw for entry `k` is the position of the entry that belongs there. -/
theorem shuffle_reaches {n left k : Nat} {arr target : List Nat} (bound : n < 2 ^ 31)
    (count : k + left = n) (size : arr.length = n) (perm : arr.Perm target)
    (placed : arr.take k = target.take k) :
    ∃ draw, shuffle n draw (List.range' k left) arr = target := by
  induction left generalizing k arr with
  | zero =>
    have length := perm.length_eq
    rw [List.take_of_length_le (by omega), List.take_of_length_le (by omega)] at placed
    exact ⟨fun _ => 0, placed⟩
  | succ left ih =>
    have inside : k < target.length := by
      have length := perm.length_eq
      omega
    have later : (arr.drop k).Perm (target.drop k) := by
      have whole : (arr.take k ++ arr.drop k).Perm (arr.take k ++ target.drop k) := by
        rw [List.take_append_drop, placed, List.take_append_drop]
        exact perm
      exact (List.perm_append_left_iff _).mp whole
    have needed : target[k] ∈ arr.drop k := by
      rw [later.mem_iff, List.drop_eq_getElem_cons inside]
      exact List.mem_cons_self
    obtain ⟨i, here, found⟩ := List.getElem_of_mem needed
    rw [List.length_drop] at here
    rw [List.getElem_drop] at found
    have exchanged : (swapAt arr k (k + i)).Perm arr := swapAt_perm (by omega) (by omega)
    have next : (swapAt arr k (k + i)).take (k + 1) = target.take (k + 1) := by
      rw [take_swapAt (Nat.le_add_right k i) (by omega), found, placed, List.take_add_one,
        List.getElem?_eq_getElem inside]
      rfl
    obtain ⟨draw, run⟩ := ih (by omega) (exchanged.length_eq.trans size) (exchanged.trans perm) next
    refine ⟨Function.update draw k (UInt32.ofNat (2 * (k + i))), ?_⟩
    have drawn : randomIndex n (Function.update draw k (UInt32.ofNat (2 * (k + i))) k) = k + i := by
      rw [Function.update_self, randomIndex_ofNat bound (by omega)]
    have same : ∀ l ∈ List.range' (k + 1) left,
        Function.update draw k (UInt32.ofNat (2 * (k + i))) l = draw l := by
      intro l member
      rw [List.mem_range'_1] at member
      exact Function.update_of_ne (by omega) _ _
    rw [List.range'_succ, shuffle, drawn, shuffle_congr same]
    exact run

/-- The arrays that `NPAGES` words can lead to are the orders of the pages. -/
theorem randomArr_range (n : PageCount) :
    {arr | ∃ words : List UInt32, words.length = n.npages ∧
      randomArr n.npages (fun i => words.getD i 0) = arr} =
      {arr | arr.Perm (List.range n.npages)} := by
  ext arr
  constructor
  · intro ⟨words, _, run⟩
    subst run
    exact randomArr_perm _ _
  · intro perm
    obtain ⟨draw, run⟩ := shuffle_reaches n.bound (Nat.zero_add _) List.length_range perm.symm rfl
    refine ⟨(List.range n.npages).map draw, by simp, ?_⟩
    rw [randomArr, List.range_eq_range']
    rw [List.range_eq_range'] at run
    rw [← run]
    apply shuffle_congr
    intro i member
    have below : i < n.npages := by simpa using member
    rw [List.getD_eq_getElem _ _ (by simpa using below)]
    simp

end DsaTest
