import DsaTest.Protocol.Completion

/-! Failures of creation and submission. `dsa_copy` tests neither result, so a
single failure leaves a missing descriptor, a lost allocation or an entry that
no device answers. -/
namespace DsaTest.Protocol

open Machine

variable {cfg : Config} {s t : State} {a : Action} {h : List (State × Action)}

def State.submissionOver (s : State) : Prop := s.main.left = true ∨ s.main = .oops

/-- No missing descriptor or task was dereferenced, nothing is leaked and every
unmarked entry of the list is with its device. -/
structure Sound (s : State) : Prop where
  main : s.main ≠ .oops
  thread : s.thread ≠ .oops
  leaked : s.leaked = 0
  inFlight : ∀ e ∈ s.idxdDescLists, (s.entry e).completion = false →
    (∃ d, (s.entry e).desc = some d) ∧ (s.entry e).accepted = true

/-- `dsa_copy` holds a missing descriptor, or has dereferenced one. -/
def Doomed (s : State) : Prop :=
  (∃ k batchInfo, s.main = .append k batchInfo none) ∨
    (∃ e, s.main = .submit e ∧ (s.entry e).desc = none) ∨ s.main = .oops

def Orphaned (s : State) : Prop :=
  ∃ e < s.count, (s.entry e).accepted = false ∧ s.main ≠ .submit e

theorem Move.submit_origin (move : Move cfg s a t) {e : Nat} (at_ : t.main = .submit e) :
    s.main = .submit e ∨ e = s.count := by
  cases move
  case append =>
    right
    simpa [appendEntry, eq_comm] using at_
  case mainControl control => cases control <;> simp at at_
  all_goals simp_all [acceptDesc, execStmt]

theorem doomed_step (phase : PhaseOk cfg s) (doomed : Doomed s) (move : Move cfg s a t) :
    Doomed t := by
  have static (e : Nat) (at_ : s.main = .submit e) : (t.entry e).desc = (s.entry e).desc := by
    have last := (phase.submitting e at_).1
    exact (move.static (by omega)).2.1
  rcases doomed with ⟨k, batchInfo, at_⟩ | ⟨e, at_, missing⟩ | at_
  · cases move
    case append at' =>
      rw [at_, MainPc.append.injEq] at at'
      obtain ⟨rfl, rfl, rfl⟩ := at'
      exact .inr (.inl ⟨s.count, rfl, by simp [appendEntry]⟩)
    case mainControl control => cases control <;> simp_all
    all_goals first | exact .inl ⟨k, batchInfo, at_⟩ | simp_all
  · have same := static e at_
    rw [missing] at same
    cases move
    case submitNull => exact .inr (.inr rfl)
    case accept at' some_ =>
      rw [at_, MainPc.submit.injEq] at at'
      subst at'
      simp [missing] at some_
    case reject at' some_ =>
      rw [at_, MainPc.submit.injEq] at at'
      subst at'
      exact absurd missing some_
    case mainControl control => cases control <;> simp_all
    all_goals first | exact .inr (.inl ⟨e, at_, same⟩) | simp_all
  · cases move
    case mainControl control => cases control <;> simp_all
    all_goals first | exact .inr (.inr at_) | simp_all

theorem orphaned_step (orphaned : Orphaned s) (move : Move cfg s a t) : Orphaned t := by
  obtain ⟨e, old, refused, away⟩ := orphaned
  have new : e < t.count := old.trans_le move.count_le
  have away' : t.main ≠ .submit e := by
    intro at_
    rcases move.submit_origin at_ with same | last
    · exact away same
    · omega
  rcases move.accepted old with same | ⟨at_, _, _⟩
  · exact ⟨e, new, same.trans refused, away'⟩
  · exact absurd at_ away

/-- Every failure has a consequence that no later step repairs. -/
theorem failure_step (ok : Inv cfg s) (fails : a.fails = true) (move : Move cfg s a t) :
    Doomed t ∨ Orphaned t := by
  cases move
  case createNull => exact .inl (.inl ⟨_, _, rfl⟩)
  case createOops => exact .inl (.inr (.inr rfl))
  case reject e at_ some_ =>
    obtain ⟨last, fresh⟩ := ok.phase.submitting e at_
    exact .inr ⟨e, by simp only; omega, fresh, by simp⟩
  all_goals simp [Action.fails] at fails

theorem spoiled_of_failure (run : Run cfg h s) (failed : ∃ p ∈ h, p.2.fails = true) :
    Doomed s ∨ Orphaned s := by
  obtain ⟨p, member, fails⟩ := failed
  apply Run.established (P := fun s => Doomed s ∨ Orphaned s) (I := Inv cfg)
    (C := fun _ a => a.fails = true) inv_of_run ?_ ?_ run member fails
  · exact fun s a t ok fails taken => failure_step ok fails (move_of_step taken)
  · intro s a t ok _ spoiled taken
    rcases spoiled with doomed | orphaned
    · exact .inl (doomed_step ok.phase doomed (move_of_step taken))
    · exact .inr (orphaned_step orphaned (move_of_step taken))

theorem EntriesOk.listed_of_refused (ok : EntriesOk cfg s) {e : Nat} (old : e < s.count)
    (refused : (s.entry e).accepted = false) :
    e ∈ s.idxdDescLists ∧ (s.entry e).completion = false := by
  cases ok.entries e old with
  | missing _ _ unmarked _ here => exact ⟨here, unmarked⟩
  | waiting _ _ _ waiting => exact ⟨waiting.listed, waiting.completion⟩
  | answered _ _ _ _ _ answered => simp [answered.accepted] at refused

theorem not_done_of_failure (run : Run cfg h s) (failed : ∃ p ∈ h, p.2.fails = true) :
    s.main ≠ .done := by
  intro done
  have ok := inv_of_run run
  rcases spoiled_of_failure run failed with doomed | ⟨e, old, refused, _⟩
  · simp [Doomed, done] at doomed
  · have listed := (ok.entries.listed_of_refused old refused).1
    rw [(reported_state ok (ok.phase.done done)).2.1] at listed
    simp at listed

structure Clean (s : State) : Prop where
  main : s.main ≠ .oops
  thread : s.thread ≠ .oops
  leaked : s.leaked = 0
  descs : ∀ e < s.count, (s.entry e).desc ≠ none
  created : ∀ k batchInfo desc, s.main = .append k batchInfo desc → desc ≠ none
  accepted : ∀ e < s.count, (s.entry e).accepted = false → s.main = .submit e

theorem clean_initial : Clean (initial cfg) where
  main := by simp [initial]
  thread := by simp [initial]
  leaked := rfl
  descs := by simp [initial]
  created := by simp [initial]
  accepted := by simp [initial]

theorem advanceTo_ne_oops (l : List Nat) (n : Option Nat) : advanceTo l n ≠ .oops := by
  cases n <;> simp [advanceTo]

theorem clean_step (ok : Inv cfg s) (clean : Clean s) (succeeds : a.fails = false)
    (move : Move cfg s a t) : Clean t where
  main := by
    have main := clean.main
    cases move
    case submitNull e at_ missing =>
      have last := (ok.phase.submitting e at_).1
      exact absurd missing (clean.descs e (by omega))
    case mainControl control => cases control <;> simp
    all_goals simp_all [Action.fails, appendEntry, acceptDesc, execStmt]
  thread := by
    have thread := clean.thread
    cases move
    case threadControl control =>
      cases control
      case missing pos n at_ missing | missingAgain pos n at_ missing =>
        have here := ok.entries.here pos (by simp [at_, ThreadPc.current])
        exact absurd missing (clean.descs pos here.1)
      case scan | advance => exact advanceTo_ne_oops _ _
      all_goals simp
    all_goals simp_all [appendEntry, acceptDesc]
  leaked := by
    have leaked := clean.leaked
    cases move
    all_goals simp_all [Action.fails, appendEntry, acceptDesc, execStmt]
  descs := by
    intro e new
    by_cases old : e < s.count
    · rw [(move.static old).2.1]
      exact clean.descs e old
    · cases move
      case append k batchInfo desc at_ =>
        have last : e = s.count := by
          have : e < s.count + 1 := new
          omega
        simpa [appendEntry, last] using clean.created k batchInfo desc at_
      all_goals exact absurd new old
  created := by
    have created := clean.created
    cases move
    case alloc => rintro _ _ _ ⟨⟩; simp
    case mainControl control => cases control <;> simp
    all_goals simp_all [Action.fails, appendEntry, acceptDesc, execStmt]
  accepted := by
    intro e new refused
    by_cases old : e < s.count
    · rcases move.accepted old with same | ⟨_, _, taken⟩
      · have at_ := clean.accepted e old (same.symm.trans refused)
        cases move
        case submitNull e' at' missing =>
          have last := (ok.phase.submitting e' at').1
          exact absurd missing (clean.descs e' (by omega))
        case accept e' d at' _ =>
          rw [at_, MainPc.submit.injEq] at at'
          subst at'
          simp [acceptDesc] at refused
        case mainControl control => cases control <;> simp_all
        all_goals first | exact at_ | simp_all [Action.fails]
      · simp [taken] at refused
    · cases move
      case append =>
        have last : e = s.count := by
          have : e < s.count + 1 := new
          omega
        simp [appendEntry, last]
      all_goals exact absurd new old

theorem clean_of_run (run : Run cfg h s) (succeeds : ∀ p ∈ h, p.2.fails = false) :
    Clean s := by
  have both : Inv cfg s ∧ Clean s := by
    apply run.invariant_of_steps (C := fun _ a => a.fails = false)
      ⟨⟨phase_initial, entries_initial, counts_initial⟩, clean_initial⟩ ?_ succeeds
    intro s a t ok succeeds taken
    exact ⟨inv_step ok.1 taken, clean_step ok.1 ok.2 succeeds (move_of_step taken)⟩
  exact both.2

/-- Submission ends soundly in exactly the runs in which nothing fails. After a failure
`dsa_copy` waits for `completion_status` for ever, or has died. -/
theorem submission_sound (run : Run cfg h s) (ended : s.submissionOver) :
    (Sound s ↔ ∀ p ∈ h, p.2.fails = false) ∧
      ((∃ p ∈ h, p.2.fails = true) → s.main ≠ .done) := by
  have ok := inv_of_run run
  refine ⟨?_, not_done_of_failure run⟩
  constructor
  · intro sound p member
    rw [← Bool.not_eq_true]
    intro fails
    rcases spoiled_of_failure run ⟨p, member, fails⟩ with doomed | ⟨e, old, refused, _⟩
    · rcases doomed with ⟨_, _, at_⟩ | ⟨_, at_, _⟩ | at_
      · simp [State.submissionOver, at_, MainPc.left] at ended
      · simp [State.submissionOver, at_, MainPc.left] at ended
      · exact sound.main at_
    · obtain ⟨listed, unmarked⟩ := ok.entries.listed_of_refused old refused
      have accepted := (sound.inFlight e listed unmarked).2
      simp [refused] at accepted
  · intro succeeds
    have clean := clean_of_run run succeeds
    refine ⟨clean.main, clean.thread, clean.leaked, ?_⟩
    intro e listed _
    have old := ok.entries.below e listed
    refine ⟨Option.ne_none_iff_exists'.mp (clean.descs e old), ?_⟩
    rw [← Bool.not_eq_false]
    intro refused
    have at_ := clean.accepted e old refused
    simp [State.submissionOver, at_, MainPc.left] at ended

def refusedActions : List Action :=
  [.allocDesc 0, .main, .submitFails, .main, .main, .main, .main]

theorem submission_sound_one :
    ∃ h s, Run (oneQueue .batch) h s ∧ s.submissionOver ∧ Sound s := by
  have reached : (exec (step (oneQueue .batch))
      [.allocDesc 0, .main, .main, .main, .main, .main, .main] (initial (oneQueue .batch))).map
      State.main = some .waitWakeup := by decide +kernel
  obtain ⟨s, result, at_⟩ := Option.map_eq_some_iff.mp reached
  obtain ⟨h, run, labels⟩ := run_of_exec result
  have ended : s.submissionOver := .inl (by rw [at_]; rfl)
  refine ⟨h, s, run, ended, (submission_sound run ended).1.mpr ?_⟩
  intro p member
  have label : p.2 ∈ h.map Prod.snd := List.mem_map_of_mem member
  rw [labels] at label
  revert label
  generalize p.2 = a
  revert a
  decide

/-- The refused descriptor is on the list, unmarked, and no device has it. -/
theorem submission_unsound_refused :
    ¬ ∀ (cfg : Config) (h : List (State × Action)) (s : State),
      Run cfg h s → s.submissionOver → Sound s := by
  intro claim
  have reached : (exec (step (oneQueue .batch)) refusedActions (initial (oneQueue .batch))).map
      (fun s => (s.main, s.idxdDescLists, (s.entry 0).completion, (s.entry 0).accepted)) =
      some (.waitWakeup, [0], false, false) := by decide +kernel
  obtain ⟨s, result, at_⟩ := Option.map_eq_some_iff.mp reached
  simp only [Prod.mk.injEq] at at_
  obtain ⟨main, listed, unmarked, refused⟩ := at_
  obtain ⟨h, run, _⟩ := run_of_exec result
  have sound := claim _ h s run (.inl (by rw [main]; rfl))
  have accepted := (sound.inFlight 0 (by simp [listed]) unmarked).2
  simp [refused] at accepted

end DsaTest.Protocol
