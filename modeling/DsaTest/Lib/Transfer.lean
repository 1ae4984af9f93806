import Mathlib.Data.List.Nodup
import Mathlib.Data.List.Perm.Basic

/-! Copies that take effect one after the other. Where no cell is written twice and no
cell read is ever written, their order does not matter. -/
namespace DsaTest.Transfer

variable {α β : Type*} [DecidableEq α]

/-- One copy, as a list of sources and destinations, reads before it writes. -/
def effect (mem : α → β) (t : List (α × α)) : α → β := fun b =>
  match t.find? fun p => p.2 = b with
  | some p => mem p.1
  | none => mem b

def run (mem : α → β) (ts : List (List (α × α))) : α → β := ts.foldl effect mem

theorem run_cons (mem : α → β) (t : List (α × α)) (ts : List (List (α × α))) :
    run mem (t :: ts) = run (effect mem t) ts := rfl

theorem effect_other {mem : α → β} {t : List (α × α)} {b : α} (other : b ∉ t.map Prod.snd) :
    effect mem t b = mem b := by
  have none : t.find? (fun p => p.2 = b) = none := by
    rw [List.find?_eq_none]
    intro p inside
    simp only [decide_eq_true_eq]
    exact fun same => other (List.mem_map.mpr ⟨p, inside, same⟩)
  simp [effect, none]

theorem effect_written {mem : α → β} {t : List (α × α)} (writes : (t.map Prod.snd).Nodup)
    {p : α × α} (inside : p ∈ t) : effect mem t p.2 = mem p.1 := by
  have found : t.find? (fun r => r.2 = p.2) = some p := by
    cases search : t.find? (fun r => r.2 = p.2) with
    | none =>
      rw [List.find?_eq_none] at search
      simpa using search p inside
    | some r =>
      have same : r.2 = p.2 := by simpa using List.find?_some search
      rw [List.inj_on_of_nodup_map writes (List.mem_of_find?_eq_some search) inside same]
  simp [effect, found]

theorem run_other {mem : α → β} {ts : List (List (α × α))} {b : α}
    (other : b ∉ ts.flatten.map Prod.snd) : run mem ts b = mem b := by
  induction ts generalizing mem with
  | nil => rfl
  | cons t ts ih =>
    rw [List.flatten_cons, List.map_append, List.mem_append, not_or] at other
    rw [run_cons, ih other.2, effect_other other.1]

/-- The value that every destination ends with is the one its source had at the start. -/
theorem run_written {mem : α → β} {ts : List (List (α × α))}
    (writes : (ts.flatten.map Prod.snd).Nodup)
    (apart : ∀ p ∈ ts.flatten, p.1 ∉ ts.flatten.map Prod.snd) {p : α × α}
    (inside : p ∈ ts.flatten) : run mem ts p.2 = mem p.1 := by
  induction ts generalizing mem with
  | nil => simp at inside
  | cons t ts ih =>
    simp only [List.flatten_cons, List.map_append, List.mem_append, not_or] at writes apart inside
    have ⟨now, later, once⟩ := List.nodup_append.mp writes
    rw [run_cons]
    cases inside with
    | inl here =>
      have written : p.2 ∈ t.map Prod.snd := List.mem_map_of_mem here
      rw [run_other fun again => once _ written _ again rfl, effect_written now here]
    | inr there =>
      rw [ih later (fun r inside => (apart r (.inr inside)).2) there,
        effect_other (apart p (.inr there)).1]

theorem run_perm_written {mem : α → β} {ts us : List (List (α × α))} (same : us.Perm ts)
    (writes : (ts.flatten.map Prod.snd).Nodup)
    (apart : ∀ p ∈ ts.flatten, p.1 ∉ ts.flatten.map Prod.snd) {p : α × α}
    (inside : p ∈ ts.flatten) : run mem us p.2 = mem p.1 := by
  have flat := same.flatten
  have dests := flat.map Prod.snd
  apply run_written (dests.nodup_iff.mpr writes)
  · intro r member
    rw [dests.mem_iff]
    exact apart r (flat.mem_iff.mp member)
  · exact flat.mem_iff.mpr inside

theorem run_perm_source {mem : α → β} {ts us : List (List (α × α))} (same : us.Perm ts)
    (apart : ∀ p ∈ ts.flatten, p.1 ∉ ts.flatten.map Prod.snd) {p : α × α}
    (inside : p ∈ ts.flatten) : run mem us p.1 = mem p.1 := by
  apply run_other
  rw [(same.flatten.map Prod.snd).mem_iff]
  exact apart p inside

end DsaTest.Transfer
