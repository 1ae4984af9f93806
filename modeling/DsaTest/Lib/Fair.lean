import DsaTest.Lib.Machine
import Mathlib.Order.WellFounded

/-! Machines that several parties drive: infinite behaviours, weak fairness, and the rule
by which a rank leads every fair behaviour to a goal. -/
namespace DsaTest.Machine

variable {σ α π β : Type*}

/-- An infinite behaviour. At a time without an action nothing happens. -/
structure Behaviour (step : σ → α → Option σ) (init : σ) where
  state : Nat → σ
  action : Nat → Option α
  start : state 0 = init
  acts : ∀ n a, action n = some a → step (state n) a = some (state (n + 1))
  idles : ∀ n, action n = none → state (n + 1) = state n

variable {step : σ → α → Option σ} {party : α → π} {init s t : σ}

/-- The party `p` has a step that it can take. -/
def Can (step : σ → α → Option σ) (party : α → π) (p : π) (s : σ) : Prop :=
  ∃ a t, party a = p ∧ step s a = some t

/-- Weak fairness: a party that can move from some time on does move after that time. -/
def Fair (party : α → π) (b : Behaviour step init) : Prop :=
  ∀ p n, (∀ m, n ≤ m → Can step party p (b.state m)) →
    ∃ m a, n ≤ m ∧ b.action m = some a ∧ party a = p

theorem Behaviour.stable (b : Behaviour step init) {P : σ → Prop}
    (keep : ∀ s a t, P s → step s a = some t → P t) {n m : Nat} (later : n ≤ m)
    (now : P (b.state n)) : P (b.state m) := by
  induction m, later using Nat.le_induction with
  | base => exact now
  | succ m _ ih =>
    cases taken : b.action m with
    | none => exact b.idles m taken ▸ ih
    | some a => exact keep _ a _ ih (b.acts m a taken)

/-- A rank that leads from `P` to `G`. As long as `G` does not hold the helpful party can
move, its moves lower the rank, and no other move raises the rank or, at the same rank,
changes who is helpful. -/
structure Ranking [Preorder β] (step : σ → α → Option σ) (party : α → π) (P G : σ → Prop)
    (rank : σ → β) (helpful : σ → π) : Prop where
  can : ∀ s, P s → ¬ G s → Can step party (helpful s) s
  keep : ∀ s a t, P s → ¬ G s → step s a = some t → P t
  lower : ∀ s a t, P s → ¬ G s → step s a = some t →
    G t ∨ rank t < rank s ∨ rank t = rank s ∧ helpful t = helpful s ∧ party a ≠ helpful s

variable [Preorder β] {P G : σ → Prop} {rank : σ → β} {helpful : σ → π}

/-- At a rank that is not lowered any more the same party stays helpful. -/
theorem Ranking.settled (ranking : Ranking step party P G rank helpful) (b : Behaviour step init)
    (always : ∀ n, P (b.state n)) (never : ∀ n, ¬ G (b.state n)) {n : Nat}
    (least : ∀ m, n ≤ m → ¬ rank (b.state m) < rank (b.state n)) {m : Nat} (later : n ≤ m) :
    rank (b.state m) = rank (b.state n) ∧ helpful (b.state m) = helpful (b.state n) := by
  induction m, later using Nat.le_induction with
  | base => exact ⟨rfl, rfl⟩
  | succ m later ih =>
    cases taken : b.action m with
    | none => exact b.idles m taken ▸ ih
    | some a =>
      rcases ranking.lower _ a _ (always m) (never m) (b.acts m a taken) with
        reached | lower | ⟨same, still, _⟩
      · exact absurd reached (never _)
      · exact absurd (ih.1 ▸ lower) (least _ (Nat.le_succ_of_le later))
      · exact ⟨same.trans ih.1, still.trans ih.2⟩

/-- Every fair behaviour reaches the goal. -/
theorem Ranking.eventually [WellFoundedLT β] (ranking : Ranking step party P G rank helpful)
    {b : Behaviour step init} (fair : Fair party b) (base : P init) : ∃ n, G (b.state n) := by
  by_contra none
  have never : ∀ n, ¬ G (b.state n) := fun n reached => none ⟨n, reached⟩
  have always (n : Nat) : P (b.state n) := by
    induction n with
    | zero => rwa [b.start]
    | succ n ih =>
      cases taken : b.action n with
      | none => exact b.idles n taken ▸ ih
      | some a => exact ranking.keep _ a _ ih (never n) (b.acts n a taken)
  -- by induction on the rank: at each time a later one is lower
  have descends (r : β) : ∀ n, rank (b.state n) ≠ r := by
    induction r using WellFoundedLT.induction with
    | ind r ih =>
      rintro n rfl
      have least (m : Nat) (_ : n ≤ m) : ¬ rank (b.state m) < rank (b.state n) :=
        fun lower => ih _ lower m rfl
      have settled (m : Nat) (later : n ≤ m) := ranking.settled b always never least later
      obtain ⟨m, a, later, taken, helps⟩ := fair (helpful (b.state n)) n fun m later =>
        (settled m later).2 ▸ ranking.can _ (always m) (never m)
      obtain ⟨same, still⟩ := settled m later
      rcases ranking.lower _ a _ (always m) (never m) (b.acts m a taken) with
        reached | lower | ⟨_, _, other⟩
      · exact never _ reached
      · exact least (m + 1) (Nat.le_succ_of_le later) (same ▸ lower)
      · exact other (helps.trans still.symm)
  exact descends _ 0 rfl

theorem Ranking.reaches [WellFoundedLT β] (ranking : Ranking step party P G rank helpful)
    (base : P s) : ∃ acts t, exec step acts s = some t ∧ P t ∧ G t := by
  induction h : rank s using WellFoundedLT.induction generalizing s with
  | ind r ih =>
    by_cases reached : G s
    · exact ⟨[], s, rfl, base, reached⟩
    · obtain ⟨a, t, helps, taken⟩ := ranking.can s base reached
      have next := ranking.keep s a t base reached taken
      rcases ranking.lower s a t base reached taken with goal | lower | ⟨_, _, other⟩
      · exact ⟨[a], t, by simp [exec, taken], next, goal⟩
      · obtain ⟨acts, u, result, ends⟩ := ih _ (h ▸ lower) next rfl
        exact ⟨a :: acts, u, by simp [exec, taken, result], ends⟩
      · exact absurd helps other

/-- The state and what is left of a list of actions after `n` steps, with `a` for ever when
the list is used up. -/
def follow (step : σ → α → Option σ) (a : α) (acts : List α) (s : σ) : Nat → σ × List α
  | 0 => (s, acts)
  | n + 1 =>
    let now := follow step a acts s n
    ((step now.1 (now.2.headD a)).getD now.1, now.2.tail)

theorem follow_left (a : α) (acts : List α) (s : σ) (n : Nat) :
    (follow step a acts s n).2 = acts.drop n := by
  induction n with
  | zero => rfl
  | succ n ih => rw [follow, ih, List.tail_drop]

/-- A trap: once inside only one party can move, and it stays inside. If a list of actions
leads into it then so does a fair behaviour. -/
theorem exists_fair_of_trap {Q : σ → Prop} {a : α} {acts : List α}
    (reached : exec step acts init = some s) (inside : Q s)
    (loops : ∀ s, Q s → ∃ t, step s a = some t ∧ Q t)
    (alone : ∀ s p, Q s → Can step party p s → p = party a) :
    ∃ b : Behaviour step init, Fair party b ∧ ∀ n, acts.length ≤ n → Q (b.state n) := by
  let now := follow step a acts init
  have leads (n : Nat) : ∃ t, exec step (now n).2 (now n).1 = some t ∧ Q t := by
    induction n with
    | zero => exact ⟨s, reached, inside⟩
    | succ n ih =>
      obtain ⟨t, result, ends⟩ := ih
      change ∃ t, exec step (now n).2.tail ((step (now n).1 ((now n).2.headD a)).getD _) = some t ∧ Q t
      cases left : (now n).2 with
      | nil =>
        rw [left] at result
        cases result
        obtain ⟨u, taken, ends⟩ := loops _ ends
        exact ⟨u, by simp [exec, taken], ends⟩
      | cons a' rest =>
        rw [left, exec, Option.bind_eq_some_iff] at result
        obtain ⟨u, taken, result⟩ := result
        exact ⟨t, by simpa [taken] using result, ends⟩
  have moves (n : Nat) : step (now n).1 ((now n).2.headD a) = some (now (n + 1)).1 := by
    obtain ⟨t, result, ends⟩ := leads n
    change _ = some ((step (now n).1 ((now n).2.headD a)).getD _)
    cases left : (now n).2 with
    | nil =>
      rw [left] at result
      cases result
      obtain ⟨u, taken, _⟩ := loops _ ends
      simp [taken]
    | cons a' rest =>
      rw [left, exec, Option.bind_eq_some_iff] at result
      obtain ⟨u, taken, _⟩ := result
      simp [taken]
  have trapped (n : Nat) (late : acts.length ≤ n) : (now n).2 = [] ∧ Q (now n).1 := by
    have empty : (now n).2 = [] := by rw [follow_left, List.drop_eq_nil_of_le late]
    obtain ⟨t, result, ends⟩ := leads n
    rw [empty] at result
    cases result
    exact ⟨empty, ends⟩
  let b : Behaviour step init :=
    { state := fun n => (now n).1
      action := fun n => some ((now n).2.headD a)
      start := rfl
      acts := by
        rintro n _ ⟨⟩
        exact moves n
      idles := by simp }
  refine ⟨b, ?_, fun n late => (trapped n late).2⟩
  intro p n able
  have late : n ≤ max n acts.length := Nat.le_max_left _ _
  obtain ⟨empty, inside⟩ := trapped (max n acts.length) (Nat.le_max_right _ _)
  refine ⟨max n acts.length, a, late, ?_, (alone _ p inside (able _ late)).symm⟩
  simp [b, empty]

end DsaTest.Machine
