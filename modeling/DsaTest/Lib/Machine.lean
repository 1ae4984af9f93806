import Mathlib.Data.List.Basic

/-! Machines given by a partial step function, their runs and the rules by
which a property of one step becomes a property of every run. -/
namespace DsaTest.Machine

variable {σ α : Type*}

/-- A finite run from `init`: the steps taken, newest first, and the state reached. -/
inductive Run (step : σ → α → Option σ) (init : σ) : List (σ × α) → σ → Prop
  | start : Run step init [] init
  | next {h s a t} : Run step init h s → step s a = some t → Run step init ((s, a) :: h) t

/-- Execute a list of actions, oldest first. -/
def exec (step : σ → α → Option σ) : List α → σ → Option σ
  | [], s => some s
  | a :: rest, s => (step s a).bind (exec step rest)

theorem exec_append (step : σ → α → Option σ) (xs ys : List α) (s : σ) :
    exec step (xs ++ ys) s = (exec step xs s).bind (exec step ys) := by
  induction xs generalizing s with
  | nil => rfl
  | cons a rest ih =>
    rw [List.cons_append, exec, exec, Option.bind_assoc]
    exact congrArg _ (funext ih)

variable {step : σ → α → Option σ} {init : σ}

/-- An inductive invariant holds in every state that a run reaches. -/
theorem Run.invariant {P : σ → Prop} (base : P init)
    (keep : ∀ s a t, P s → step s a = some t → P t)
    {h : List (σ × α)} {s : σ} (run : Run step init h s) : P s := by
  induction run with
  | start => exact base
  | next _ taken ih => exact keep _ _ _ ih taken

theorem exec_invariant {P : σ → Prop} (keep : ∀ s a t, P s → step s a = some t → P t)
    {acts : List α} {s t : σ} (so : P s) (result : exec step acts s = some t) : P t := by
  induction acts generalizing s with
  | nil => exact Option.some.inj result ▸ so
  | cons a rest ih =>
    obtain ⟨u, taken, result⟩ := Option.bind_eq_some_iff.mp result
    exact ih (keep s a u so taken) result

/-- The same rule for the runs all of whose steps meet a condition. -/
theorem Run.invariant_of_steps {P : σ → Prop} {C : σ → α → Prop} (base : P init)
    (keep : ∀ s a t, P s → C s a → step s a = some t → P t)
    {h : List (σ × α)} {s : σ} (run : Run step init h s)
    (steps : ∀ p ∈ h, C p.1 p.2) : P s := by
  induction run with
  | start => exact base
  | next _ taken ih =>
    have earlier := ih fun p member => steps p (List.mem_cons_of_mem _ member)
    exact keep _ _ _ earlier (steps _ List.mem_cons_self) taken

/-- A property that some step establishes and every step keeps holds at the end. -/
theorem Run.established {P I : σ → Prop} {C : σ → α → Prop}
    (inv : ∀ {h s}, Run step init h s → I s)
    (make : ∀ s a t, I s → C s a → step s a = some t → P t)
    (keep : ∀ s a t, I s → I t → P s → step s a = some t → P t)
    {h : List (σ × α)} {s : σ} (run : Run step init h s)
    {p : σ × α} (member : p ∈ h) (cond : C p.1 p.2) : P s := by
  induction run with
  | start => simp at member
  | next before taken ih =>
    rcases List.mem_cons.mp member with rfl | older
    · exact make _ _ _ (inv before) cond taken
    · exact keep _ _ _ (inv before) (inv (before.next taken)) (ih older) taken

theorem Run.of_mem {h : List (σ × α)} {s : σ} (run : Run step init h s) {p : σ × α}
    (member : p ∈ h) : ∃ h' t, Run step init h' p.1 ∧ step p.1 p.2 = some t := by
  induction run with
  | start => contradiction
  | next before taken ih =>
    cases member with
    | head => exact ⟨_, _, before, taken⟩
    | tail _ older => exact ih older

theorem Run.append_exec {h : List (σ × α)} {s t : σ} (run : Run step init h s)
    (acts : List α) (result : exec step acts s = some t) :
    ∃ h', Run step init (h' ++ h) t ∧ h'.map Prod.snd = acts.reverse := by
  induction acts generalizing s h with
  | nil =>
    cases result
    exact ⟨[], run, rfl⟩
  | cons a rest ih =>
    obtain ⟨u, taken, result⟩ := Option.bind_eq_some_iff.mp result
    obtain ⟨h', run', labels⟩ := ih (run.next taken) result
    exact ⟨h' ++ [(s, a)], by simpa using run', by simp [labels]⟩

theorem run_of_exec {acts : List α} {t : σ} (result : exec step acts init = some t) :
    ∃ h, Run step init h t ∧ h.map Prod.snd = acts.reverse := by
  obtain ⟨h, run, labels⟩ := Run.start.append_exec acts result
  exact ⟨h, by simpa using run, labels⟩

def execWhere (step : σ → α → Option σ) (C : σ → α → Bool) : List α → σ → Bool
  | [], _ => true
  | a :: rest, s =>
    match step s a with
    | some t => C s a && execWhere step C rest t
    | none => false

theorem Run.append_execWhere {C : σ → α → Bool} {h : List (σ × α)} {s : σ}
    (run : Run step init h s) (so : ∀ p ∈ h, C p.1 p.2 = true) (acts : List α)
    (result : execWhere step C acts s = true) :
    ∃ h' t, Run step init (h' ++ h) t ∧ (∀ p ∈ h' ++ h, C p.1 p.2 = true) ∧
      h'.map Prod.snd = acts.reverse := by
  induction acts generalizing s h with
  | nil => exact ⟨[], s, run, so, rfl⟩
  | cons a rest ih =>
    simp only [execWhere] at result
    split at result
    next t taken =>
      rw [Bool.and_eq_true] at result
      obtain ⟨h', u, run', so', labels⟩ :=
        ih (run.next taken) (List.forall_mem_cons.mpr ⟨result.1, so⟩) result.2
      exact ⟨h' ++ [(s, a)], u, by simpa using run', by simpa using so', by simp [labels]⟩
    next => contradiction

theorem run_of_execWhere {C : σ → α → Bool} {acts : List α}
    (result : execWhere step C acts init = true) :
    ∃ h t, Run step init h t ∧ (∀ p ∈ h, C p.1 p.2 = true) ∧ h.map Prod.snd = acts.reverse := by
  obtain ⟨h, t, run, so, labels⟩ := Run.start.append_execWhere (by simp) acts result
  exact ⟨h, t, by simpa using run, by simpa using so, labels⟩

/-- Repeating an action that lowers a rank until `Q` holds leads to `Q`. -/
theorem exec_reaches {P Q : σ → Prop} (rank : σ → Nat) (a : α)
    (progress : ∀ s, P s → ∃ t, step s a = some t ∧ (Q t ∨ P t ∧ rank t < rank s))
    (s : σ) (start : P s) : ∃ n t, exec step (List.replicate n a) s = some t ∧ Q t := by
  induction h : rank s using Nat.strongRecOn generalizing s with
  | ind r ih =>
    obtain ⟨t, taken, reached | ⟨again, lower⟩⟩ := progress s start
    · exact ⟨1, t, by simp [exec, taken], reached⟩
    · obtain ⟨n, u, result, reached⟩ := ih (rank t) (by omega) t again rfl
      exact ⟨n + 1, u, by simp [List.replicate_succ, exec, taken, result], reached⟩

/-- A coarser machine whose steps are executions of the finer one visits only
states that the finer machine visits. -/
theorem Run.refine {β : Type*} {coarse : σ → β → Option σ}
    (simulate : ∀ s b t, coarse s b = some t → ∃ acts, exec step acts s = some t)
    {h : List (σ × β)} {s : σ} (run : Run coarse init h s) :
    ∃ h', Run step init h' s := by
  induction run with
  | start => exact ⟨[], .start⟩
  | next _ taken ih =>
    obtain ⟨h', fine⟩ := ih
    obtain ⟨acts, result⟩ := simulate _ _ _ taken
    obtain ⟨more, longer, _⟩ := fine.append_exec acts result
    exact ⟨_, longer⟩

end DsaTest.Machine
