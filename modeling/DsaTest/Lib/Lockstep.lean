import Mathlib.Data.List.Nodup
import Mathlib.Data.List.Perm.Subperm
import Mathlib.Data.List.Zip

/-! Two sequences, each cut into pieces of its own, and walked piece by piece with the
shorter piece of a pair deciding. -/
namespace DsaTest.Lockstep

variable {α β : Type*}

/-- The positions matched by pairing the pieces. -/
def matched (xss : List (List α)) (yss : List (List β)) : List (α × β) :=
  (xss.zip yss).flatMap fun p => p.1.zip p.2

theorem matched_cons (xs : List α) (xss : List (List α)) (ys : List β) (yss : List (List β)) :
    matched (xs :: xss) (ys :: yss) = xs.zip ys ++ matched xss yss := by
  simp [matched]

theorem matched_swap (xss : List (List α)) (yss : List (List β)) :
    (matched xss yss).map Prod.swap = matched yss xss := by
  unfold matched
  rw [← List.zip_swap yss xss, List.flatMap_map, List.map_flatMap]
  simp

theorem matched_eq_zip {xss : List (List α)} {yss : List (List β)}
    (aligned : ∀ p ∈ xss.zip yss, p.1.length = p.2.length) :
    matched xss yss = xss.flatten.zip yss.flatten := by
  induction xss generalizing yss with
  | nil => simp [matched]
  | cons xs xss ih =>
    cases yss with
    | nil => simp [matched]
    | cons ys yss =>
      rw [List.zip_cons_cons, List.forall_mem_cons] at aligned
      rw [matched_cons, List.flatten_cons, List.flatten_cons, List.zip_append aligned.1,
        ih aligned.2]

theorem length_matched_le (xss : List (List α)) (yss : List (List β)) :
    (matched xss yss).length ≤ xss.flatten.length := by
  induction xss generalizing yss with
  | nil => simp [matched]
  | cons xs xss ih =>
    cases yss with
    | nil => simp [matched]
    | cons ys yss =>
      have rest := ih yss
      rw [matched_cons, List.flatten_cons, List.length_append, List.length_append, List.length_zip]
      omega

theorem le_of_length_matched {xss : List (List α)} {yss : List (List β)}
    (full : (matched xss yss).length = xss.flatten.length) :
    ∀ p ∈ xss.zip yss, p.1.length ≤ p.2.length := by
  induction xss generalizing yss with
  | nil => simp
  | cons xs xss ih =>
    cases yss with
    | nil => simp
    | cons ys yss =>
      have rest := length_matched_le xss yss
      rw [matched_cons, List.flatten_cons, List.length_append, List.length_append,
        List.length_zip] at full
      rw [List.zip_cons_cons, List.forall_mem_cons]
      constructor
      · change xs.length ≤ ys.length
        omega
      · exact ih (by omega)

theorem matched_full_iff {xss : List (List α)} {yss : List (List β)}
    (size : xss.flatten.length = yss.flatten.length) (distinct : yss.flatten.Nodup) :
    (∀ x ∈ xss.flatten.zip yss.flatten, x ∈ matched xss yss) ↔
      ∀ p ∈ xss.zip yss, p.1.length = p.2.length := by
  constructor
  · intro full
    have nodup : (xss.flatten.zip yss.flatten).Nodup := by
      apply List.Nodup.of_map Prod.snd
      rwa [List.map_snd_zip (Nat.le_of_eq size.symm)]
    have enough := (List.subperm_of_subset nodup full).length_le
    rw [List.length_zip] at enough
    have below := length_matched_le xss yss
    have left : (matched xss yss).length = xss.flatten.length := by omega
    have right : (matched yss xss).length = yss.flatten.length := by
      rw [← matched_swap, List.length_map]
      omega
    intro p pair
    have swapped : (p.2, p.1) ∈ yss.zip xss := by
      rw [← List.zip_swap, List.mem_map]
      exact ⟨p, pair, rfl⟩
    exact Nat.le_antisymm (le_of_length_matched left p pair) (le_of_length_matched right _ swapped)
  · intro aligned x inside
    rwa [matched_eq_zip aligned]

end DsaTest.Lockstep
