import Mathlib.Data.List.Basic

/-! Loops that may fail, as monadic folds over the list they run through, and
lists that a loop cuts into chunks. -/
namespace DsaTest.Walk

variable {σ α β : Type*}

/-- What holds after each prefix of a loop that has succeeded. -/
theorem foldlM_invariant {f : σ → α → Option σ} {P : List α → σ → Prop} {l : List α} {s t : σ}
    (base : P [] s)
    (keep : ∀ before a after u v, l = before ++ a :: after → P before u → f u a = some v →
      P (before ++ [a]) v)
    (result : l.foldlM f s = some t) : P l t := by
  suffices rest : ∀ (after before : List α) (u : σ), l = before ++ after → P before u →
      after.foldlM f u = some t → P l t from rest l [] s rfl base result
  intro after
  induction after with
  | nil =>
    intro before u split so result
    cases result
    rw [split, List.append_nil]
    exact so
  | cons a after ih =>
    intro before u split so result
    rw [List.foldlM_cons] at result
    obtain ⟨v, taken, result⟩ := Option.bind_eq_some_iff.mp result
    apply ih (before ++ [a]) v
    · rw [split, List.append_assoc, List.singleton_append]
    · exact keep before a after u v split so taken
    · exact result

theorem foldlM_succeeds {f : σ → α → Option σ} {P : List α → σ → Prop} {l : List α} {s : σ}
    (base : P [] s)
    (keep : ∀ before a after u, l = before ++ a :: after → P before u →
      ∃ v, f u a = some v ∧ P (before ++ [a]) v) :
    ∃ t, l.foldlM f s = some t ∧ P l t := by
  suffices rest : ∀ (after before : List α) (u : σ), l = before ++ after → P before u →
      ∃ t, after.foldlM f u = some t ∧ P l t from rest l [] s rfl base
  intro after
  induction after with
  | nil =>
    intro before u split so
    rw [split, List.append_nil]
    exact ⟨u, rfl, so⟩
  | cons a after ih =>
    intro before u split so
    obtain ⟨v, taken, so⟩ := keep before a after u split so
    obtain ⟨t, result, so⟩ := ih (before ++ [a]) v
      (by rw [split, List.append_assoc, List.singleton_append]) so
    refine ⟨t, ?_, so⟩
    rw [List.foldlM_cons, taken]
    exact result

theorem take_append_chunk (l : List α) (r b : Nat) :
    l.take (r * b) ++ (l.drop (r * b)).take b = l.take ((r + 1) * b) := by
  rw [Nat.succ_mul, List.take_add]

theorem flatMap_chunks (l : List α) (r b : Nat) :
    ((List.range r).flatMap fun j => (l.drop (j * b)).take b) = l.take (r * b) := by
  induction r with
  | zero => simp
  | succ r ih =>
    rw [List.range_succ, List.flatMap_append, ih, List.flatMap_singleton, take_append_chunk]

theorem flatMap_filter_perm {l : List α} (key : α → Nat) (g : α → List β) (n : Nat)
    (below : ∀ a ∈ l, key a < n) :
    ((List.range n).flatMap fun k => (l.filter (key · = k)).flatMap g).Perm (l.flatMap g) := by
  induction n generalizing l with
  | zero =>
    have none : l = [] := List.eq_nil_iff_forall_not_mem.mpr fun a inside =>
      absurd (below a inside) (Nat.not_lt_zero _)
    simp [none]
  | succ n ih =>
    have earlier : ((List.range n).flatMap fun k => (l.filter (key · = k)).flatMap g) =
        (List.range n).flatMap fun k => ((l.filter (key · ≠ n)).filter (key · = k)).flatMap g := by
      apply List.flatMap_congr
      intro k inside
      rw [List.mem_range] at inside
      rw [List.filter_filter]
      congr 1
      apply List.filter_congr
      intro a _
      by_cases here : key a = k
      · simp [here, Nat.ne_of_lt inside]
      · simp [here]
    rw [List.range_succ, List.flatMap_append, List.flatMap_singleton, earlier]
    have rest : ∀ a ∈ l.filter (key · ≠ n), key a < n := by
      intro a inside
      have ⟨member, other⟩ := List.mem_filter.mp inside
      have := below a member
      have : key a ≠ n := by simpa using other
      omega
    have split : (l.filter (key · = n) ++ l.filter (key · ≠ n)).Perm l := by
      simpa using List.filter_append_perm (key · = n) l
    have whole := split.flatMap_right g
    rw [List.flatMap_append] at whole
    exact ((ih rest).append_right _).trans (List.perm_append_comm.trans whole)

end DsaTest.Walk
