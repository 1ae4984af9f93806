import DsaTest.Protocol.Invariant
import Mathlib.Data.Finset.Card

/-! The two local variables of the thread, counted over the entries:
`poll_entry` and `completion_error`. -/
namespace DsaTest.Protocol

open Stmt

variable {cfg : Config} {s t : State} {a : Action}

def State.ranOn (s : State) (x : Stmt) : Finset Nat :=
  (Finset.range s.count).filter fun e => .ran x ∈ (s.entry e).trace

@[simp] theorem mem_ranOn {x : Stmt} {e : Nat} :
    e ∈ s.ranOn x ↔ e < s.count ∧ .ran x ∈ (s.entry e).trace := by
  simp [State.ranOn]

def ThreadPc.executing : ThreadPc → Option (Nat × Stmt)
  | .retire pos _ (stmt :: _) | .unlink pos _ (stmt :: _) => some (pos, stmt)
  | _ => none

theorem ranOn_exec {pos : Nat} (old : pos < s.count) (stmt x : Stmt) :
    (execStmt s pos stmt).ranOn x = if x = stmt then insert pos (s.ranOn x) else s.ranOn x := by
  ext e
  by_cases here : e = pos
  · subst here
    by_cases same : x = stmt
    · subst same
      simpa [execStmt] using old
    · simp [execStmt, same]
  · split <;> simp [execStmt, modifyAt_ne _ _ here, here]

theorem ranOn_append (k : Nat) (batchInfo : Bool) (desc : Option Slot) (x : Stmt) :
    (appendEntry s k batchInfo desc).ranOn x = s.ranOn x := by
  ext e
  rcases Nat.lt_trichotomy e s.count with below | rfl | above
  · simp [appendEntry, Nat.ne_of_lt below, below, Nat.lt_succ_of_lt below]
  · simp [appendEntry]
  · simp [appendEntry, Nat.not_lt_of_gt above, show ¬ e < s.count + 1 by omega]

theorem ran_modifyAt (f : Nat → Entry) (e i : Nat) (g : Entry → Entry) (x : Stmt)
    (same : ∀ v, .ran x ∈ (g v).trace ↔ .ran x ∈ v.trace) :
    .ran x ∈ (modifyAt f e g i).trace ↔ .ran x ∈ (f i).trace := by
  by_cases here : i = e
  · subst here
    simp [same]
  · rw [modifyAt_ne f g here]

theorem ran_answered (d : Slot) (status e : Nat) (x : Stmt) :
    .ran x ∈ (answered s d status e).trace ↔ .ran x ∈ (s.entry e).trace := by
  unfold answered
  cases s.holder d with
  | none => rfl
  | some e' => exact ran_modifyAt _ _ _ _ _ (by simp)

theorem counters_cases (ok : EntriesOk cfg s) (move : Move cfg s a t) :
    ((∀ x, t.ranOn x = s.ranOn x) ∧ t.pollEntry = s.pollEntry ∧
      t.completionError = s.completionError) ∨
    ∃ pos stmt, a = .thread ∧ s.thread.executing = some (pos, stmt) ∧
      (∀ x, t.ranOn x = if x = stmt then insert pos (s.ranOn x) else s.ranOn x) ∧
      t.pollEntry = (if stmt = pollIncr then s.pollEntry + 1 else s.pollEntry) ∧
      t.completionError = (s.completionError || stmt = setError) := by
  cases move
  case append => exact .inl ⟨ranOn_append _ _ _, rfl, rfl⟩
  case accept =>
    refine .inl ⟨fun x => ?_, rfl, rfl⟩
    ext e
    simp only [mem_ranOn, acceptDesc]
    rw [ran_modifyAt _ _ _ _ _ (by simp)]
  case retire pos n stmt rest at_ | unlink pos n stmt rest at_ =>
    have old := (ok.here pos (by simp [at_, ThreadPc.current])).1
    exact .inr ⟨pos, stmt, rfl, by simp [at_, ThreadPc.executing], ranOn_exec old stmt, rfl, rfl⟩
  case answer d status _ _ =>
    refine .inl ⟨fun x => ?_, rfl, rfl⟩
    ext e
    simp only [mem_ranOn, ran_answered]
  all_goals exact .inl ⟨fun _ => rfl, rfl, rfl⟩

theorem executing_fresh (ok : EntriesOk cfg s) {pos : Nat} {x : Stmt}
    (executing : s.thread.executing = some (pos, x)) : pos ∉ s.ranOn x := by
  have behind : s.thread.worksOn = some pos ∧ s.thread.current = some pos ∧
      ∃ rest, s.thread.remaining = x :: rest := by
    cases th : s.thread
    case retire pos' n rest | unlink pos' n rest =>
      cases rest <;>
        simp_all [ThreadPc.executing, ThreadPc.worksOn, ThreadPc.remaining, ThreadPc.current]
    all_goals simp [th, ThreadPc.executing] at executing
  obtain ⟨working, current, rest, remaining⟩ := behind
  obtain ⟨d, status, done, _, _, answered⟩ :=
    ok.answered_of_trace (ok.here pos current).1 (ok.worked pos working)
  simpa [answered.trace] using fun _ => answered.fresh working remaining

structure CountsOk (s : State) : Prop where
  polls : s.pollEntry = (s.ranOn pollIncr).card
  errors : s.completionError = true ↔ (s.ranOn setError).Nonempty

theorem counts_initial : CountsOk (initial cfg) where
  polls := by simp [initial, State.ranOn, blankEntry]
  errors := by simp [initial, State.ranOn, blankEntry]

theorem counts_step (entries : EntriesOk cfg s) (ok : CountsOk s) (move : Move cfg s a t) :
    CountsOk t := by
  rcases counters_cases entries move with ⟨ran, poll, error⟩ | ⟨pos, stmt, _, executing, ran, poll, error⟩
  · exact ⟨by rw [poll, ran, ok.polls], by rw [error, ran, ok.errors]⟩
  · have fresh := executing_fresh entries executing
    constructor
    · rw [poll, ran, ok.polls]
      by_cases same : pollIncr = stmt
      · subst same
        simp [Finset.card_insert_of_notMem fresh]
      · simp [same, Ne.symm same]
    · rw [error, ran]
      by_cases same : setError = stmt
      · subst same
        simp
      · simp [same, Ne.symm same, ok.errors]

structure Inv (cfg : Config) (s : State) : Prop where
  phase : PhaseOk cfg s
  entries : EntriesOk cfg s
  counts : CountsOk s

theorem inv_step (ok : Inv cfg s) (taken : step cfg s a = some t) : Inv cfg t where
  phase := phase_step ok.phase (move_of_step taken)
  entries := entries_step ok.phase ok.entries (move_of_step taken)
  counts := counts_step ok.entries ok.counts (move_of_step taken)

/-- Every state that a run reaches satisfies the invariant, whatever fails on the way. -/
theorem inv_of_run {h : List (State × Action)} (run : Run cfg h s) : Inv cfg s :=
  run.invariant ⟨phase_initial, entries_initial, counts_initial⟩ fun _ _ _ => inv_step

theorem PhaseOk.count_add (ok : PhaseOk cfg s) :
    s.count + s.main.pending.length + s.todo.length = cfg.visits.length := by
  have schedule := congrArg List.length ok.schedule
  simp only [State.queued, List.length_append, List.length_map, List.length_range] at schedule
  exact schedule

theorem Inv.count_le (ok : Inv cfg s) : s.count ≤ cfg.totalEntries := by
  have all := ok.phase.count_add
  have bound := cfg.visits_length_le
  omega

theorem CountsOk.pollEntry_le (ok : CountsOk s) : s.pollEntry ≤ s.count := by
  have inside := Finset.card_filter_le (Finset.range s.count)
    fun e => .ran pollIncr ∈ (s.entry e).trace
  rw [Finset.card_range] at inside
  rw [ok.polls]
  exact inside

end DsaTest.Protocol
