import DsaTest.Protocol.Counts

/-! The same machine with the visit of one list entry as one step, and the stop
test of the polling loop: `poll_entry < total_entries` counts retired entries,
while the list is drained only by visits made after `thread_execution` is false. -/
namespace DsaTest.Protocol

open Stmt Machine

variable {cfg : Config} {s t : State} {a : Action} {h : List (State × Action)}

def execAll (s : State) (pos : Nat) (stmts : List Stmt) : State :=
  stmts.foldl (fun s stmt => execStmt s pos stmt) s

/-- The end of a visit: unlink if `!thread_execution`, then go to `desc_entry_temp`. -/
def finishVisit (s : State) (pos : Nat) (n : Option Nat) : State :=
  if s.threadExecution then { s with thread := advanceTo s.idxdDescLists n }
  else
    { execAll s pos unlinkBranch with
      thread := advanceTo (execAll s pos unlinkBranch).idxdDescLists n }

/-- One iteration of `list_for_each_entry_safe` as a single step. -/
def scanEntry (cfg : Config) (s : State) (pos : Nat) (n : Option Nat) : State :=
  if (s.entry pos).completion then finishVisit s pos n
  else
    match (s.entry pos).desc with
    | none => { s with thread := .oops }
    | some d =>
      if s.status d = 0 then { s with thread := advanceTo s.idxdDescLists n }
      else
        finishVisit
          (execAll s pos (branchOf cfg.variant (s.entry pos).batchInfo (s.status d))) pos n

def scanStep (cfg : Config) (s : State) (a : Action) : Option State :=
  match a, s.thread with
  | .thread, .visit pos n => some (scanEntry cfg s pos n)
  | a, _ => step cfg s a

abbrev ScanRun (cfg : Config) (h : List (State × Action)) (s : State) : Prop :=
  Machine.Run (scanStep cfg) (initial cfg) h s

def ThreadReaches (cfg : Config) (s t : State) : Prop :=
  ∃ n, exec (step cfg) (List.replicate n .thread) s = some t

theorem ThreadReaches.refl (s : State) : ThreadReaches cfg s s := ⟨0, rfl⟩

theorem ThreadReaches.head {u : State} (first : threadStep cfg s = some t)
    (rest : ThreadReaches cfg t u) : ThreadReaches cfg s u := by
  obtain ⟨n, result⟩ := rest
  exact ⟨n + 1, by simp [List.replicate_succ, exec, step, first, result]⟩

theorem reaches_retire (s : State) (pos : Nat) (n : Option Nat) (stmts : List Stmt) {u : State}
    (rest : ThreadReaches cfg { execAll s pos stmts with thread := .retire pos n [] } u) :
    ThreadReaches cfg { s with thread := .retire pos n stmts } u := by
  induction stmts generalizing s with
  | nil => exact rest
  | cons stmt stmts ih =>
    apply ThreadReaches.head (t := { execStmt s pos stmt with thread := .retire pos n stmts })
    · rfl
    · exact ih (execStmt s pos stmt) rest

theorem reaches_unlink (s : State) (pos : Nat) (n : Option Nat) (stmts : List Stmt) {u : State}
    (rest : ThreadReaches cfg { execAll s pos stmts with thread := .unlink pos n [] } u) :
    ThreadReaches cfg { s with thread := .unlink pos n stmts } u := by
  induction stmts generalizing s with
  | nil => exact rest
  | cons stmt stmts ih =>
    apply ThreadReaches.head (t := { execStmt s pos stmt with thread := .unlink pos n stmts })
    · rfl
    · exact ih (execStmt s pos stmt) rest

theorem reaches_finish (s : State) (pos : Nat) (n : Option Nat) :
    ThreadReaches cfg { s with thread := .retire pos n [] } (finishVisit s pos n) := by
  have leave (u : State) : ThreadReaches cfg { u with thread := .advance n }
      { u with thread := advanceTo u.idxdDescLists n } := .head rfl (.refl _)
  unfold finishVisit
  by_cases running : s.threadExecution = true
  · rw [if_pos running]
    exact .head (by simp [threadStep, running]) (leave s)
  · rw [if_neg running]
    apply ThreadReaches.head (t := { s with thread := .unlink pos n unlinkBranch })
    · simp [threadStep, running]
    · exact reaches_unlink s pos n unlinkBranch (.head rfl (leave (execAll s pos unlinkBranch)))

/-- A visit in one step is what the statements of the visit do one after another. -/
theorem reaches_scanEntry {pos : Nat} {n : Option Nat} (at_ : s.thread = .visit pos n) :
    ThreadReaches cfg s (scanEntry cfg s pos n) := by
  unfold scanEntry
  by_cases marked : (s.entry pos).completion = true
  · rw [if_pos marked]
    exact .head (by simp [threadStep, at_, marked]) (reaches_finish s pos n)
  · rw [if_neg marked]
    apply ThreadReaches.head (t := { s with thread := .testSuccess pos n })
    · simp [threadStep, at_, marked]
    · cases desc : (s.entry pos).desc with
      | none => exact .head (by simp [threadStep, desc]) (.refl _)
      | some d =>
        simp only
        have branch (stmts : List Stmt) : ThreadReaches cfg { s with thread := .retire pos n stmts }
            (finishVisit (execAll s pos stmts) pos n) :=
          reaches_retire s pos n stmts (reaches_finish (execAll s pos stmts) pos n)
        rcases Nat.lt_trichotomy (s.status d) 1 with fresh | success | failed
        · rw [if_pos (by omega)]
          apply ThreadReaches.head (t := { s with thread := .testError pos n })
          · simp [threadStep, desc, Nat.ne_of_lt fresh]
          · apply ThreadReaches.head (t := { s with thread := .advance n })
            · simp [threadStep, desc, Nat.not_lt_of_gt fresh]
            · exact .head rfl (.refl _)
        · rw [if_neg (by omega)]
          apply ThreadReaches.head _ (branch _)
          simp [threadStep, desc, success, branchOf]
        · rw [if_neg (by omega)]
          apply ThreadReaches.head (t := { s with thread := .testError pos n })
          · simp [threadStep, desc, Nat.ne_of_gt failed]
          · apply ThreadReaches.head _ (branch _)
            simp [threadStep, desc, failed, branchOf, Nat.ne_of_gt failed]

theorem scanStep_cases (taken : scanStep cfg s a = some t) :
    (∃ pos n, a = .thread ∧ s.thread = .visit pos n ∧ t = scanEntry cfg s pos n) ∨
      (∀ pos n, a = .thread → s.thread ≠ .visit pos n) ∧ step cfg s a = some t := by
  unfold scanStep at taken
  split at taken
  · rename_i pos n at_
    cases taken
    exact .inl ⟨pos, n, rfl, at_, rfl⟩
  · rename_i other
    exact .inr ⟨fun pos n thread at_ => other pos n thread at_, taken⟩

/-- The coarse machine visits only states of the machine of single statements. -/
theorem run_of_scanRun (run : ScanRun cfg h s) : ∃ h', Run cfg h' s := by
  apply run.refine
  intro s a t taken
  rcases scanStep_cases taken with ⟨pos, n, _, at_, rfl⟩ | ⟨_, taken⟩
  · have reaches : ThreadReaches cfg s _ := reaches_scanEntry at_
    obtain ⟨n, result⟩ := reaches
    exact ⟨_, result⟩
  · exact ⟨[a], by simp [exec, taken]⟩

theorem inv_of_scanRun (run : ScanRun cfg h s) : Inv cfg s := by
  obtain ⟨_, fine⟩ := run_of_scanRun run
  exact inv_of_run fine

theorem execAll_frame (s : State) (pos : Nat) (stmts : List Stmt) :
    (execAll s pos stmts).main = s.main ∧
      (execAll s pos stmts).threadExecution = s.threadExecution ∧
      (execAll s pos stmts).count = s.count := by
  induction stmts generalizing s with
  | nil => exact ⟨rfl, rfl, rfl⟩
  | cons stmt stmts ih => exact ih (execStmt s pos stmt)

theorem execAll_pollEntry (s : State) (pos : Nat) (stmts : List Stmt) :
    (execAll s pos stmts).pollEntry = s.pollEntry + stmts.count pollIncr := by
  induction stmts generalizing s with
  | nil => rfl
  | cons stmt stmts ih =>
    have rest := ih (execStmt s pos stmt)
    simp only [execAll, List.foldl_cons] at rest ⊢
    rw [rest, List.count_cons]
    by_cases poll : stmt = pollIncr
    · simp only [execStmt, poll, ↓reduceIte, beq_self_eq_true]
      omega
    · simp [execStmt, poll]

theorem execAll_list (s : State) (pos : Nat) {stmts : List Stmt} (keeps : listDel ∉ stmts) :
    (execAll s pos stmts).idxdDescLists = s.idxdDescLists := by
  induction stmts generalizing s with
  | nil => rfl
  | cons stmt stmts ih =>
    rw [List.mem_cons, not_or] at keeps
    have rest := ih (execStmt s pos stmt) keeps.2
    simp only [execAll, List.foldl_cons] at rest ⊢
    rw [rest]
    simp [execStmt, Ne.symm keeps.1]

theorem count_pollIncr_branchOf (v : Variant) (batchInfo : Bool) (status : Nat) :
    (branchOf v batchInfo status).count pollIncr = 1 := by
  unfold branchOf
  split <;> cases v <;> cases batchInfo <;> decide

def State.retires (s : State) (pos : Nat) : Prop :=
  (s.entry pos).completion = false ∧ ∃ d, (s.entry pos).desc = some d ∧ s.status d ≠ 0

theorem finishVisit_spec (s : State) (pos : Nat) (n : Option Nat) :
    (finishVisit s pos n).main = s.main ∧
      (finishVisit s pos n).threadExecution = s.threadExecution ∧
      (finishVisit s pos n).count = s.count ∧ (finishVisit s pos n).pollEntry = s.pollEntry ∧
      (finishVisit s pos n).idxdDescLists =
        (if s.threadExecution then s.idxdDescLists else s.idxdDescLists.erase pos) ∧
      (finishVisit s pos n).thread = advanceTo (finishVisit s pos n).idxdDescLists n := by
  unfold finishVisit
  split
  · exact ⟨rfl, rfl, rfl, rfl, rfl, rfl⟩
  · exact ⟨rfl, rfl, rfl, rfl, rfl, rfl⟩

/-- What the visit of `pos` does to the variables of the stop test. -/
structure Visited (s : State) (pos : Nat) (n : Option Nat) (t : State) : Prop where
  main : t.main = s.main
  execution : t.threadExecution = s.threadExecution
  count : t.count = s.count
  polled : s.retires pos → t.pollEntry = s.pollEntry + 1
  kept : ¬ s.retires pos → t.pollEntry = s.pollEntry
  unlinked : (s.entry pos).completion = true ∨ s.retires pos → s.threadExecution = false →
    t.idxdDescLists = s.idxdDescLists.erase pos ∧ t.thread = advanceTo t.idxdDescLists n
  thread : t.thread = .oops ∨ t.thread = advanceTo t.idxdDescLists n

theorem visited_scanEntry (s : State) (pos : Nat) (n : Option Nat) :
    Visited s pos n (scanEntry cfg s pos n) := by
  unfold scanEntry
  by_cases marked : (s.entry pos).completion = true
  · rw [if_pos marked]
    have waits : ¬ s.retires pos := by simp [State.retires, marked]
    obtain ⟨main, execution, count, poll, list, thread⟩ := finishVisit_spec s pos n
    refine ⟨main, execution, count, fun retires => absurd retires waits, fun _ => poll, ?_,
      .inr thread⟩
    intro _ stopped
    simp only [stopped, Bool.false_eq_true, ↓reduceIte] at list
    exact ⟨list, thread⟩
  · rw [if_neg marked]
    have unmarked : (s.entry pos).completion = false := Bool.eq_false_iff.mpr marked
    cases desc : (s.entry pos).desc with
    | none =>
      have waits : ¬ s.retires pos := by simp [State.retires, desc]
      exact ⟨rfl, rfl, rfl, fun retires => absurd retires waits, fun _ => rfl,
        by simp [marked, waits], .inl rfl⟩
    | some d =>
      by_cases fresh : s.status d = 0
      · have waits : ¬ s.retires pos := by simp [State.retires, desc, fresh]
        simp only [fresh, ↓reduceIte]
        exact ⟨rfl, rfl, rfl, fun retires => absurd retires waits, fun _ => rfl,
          by simp [marked, waits], .inr rfl⟩
      · have retires : s.retires pos := ⟨unmarked, d, desc, fresh⟩
        simp only [fresh, ↓reduceIte]
        generalize branch : branchOf cfg.variant (s.entry pos).batchInfo (s.status d) = stmts
        obtain ⟨main, execution, count, poll, list, thread⟩ :=
          finishVisit_spec (execAll s pos stmts) pos n
        obtain ⟨main', execution', count'⟩ := execAll_frame s pos stmts
        have list' : (execAll s pos stmts).idxdDescLists = s.idxdDescLists := by
          apply execAll_list
          rw [← branch]
          exact (mem_branchOf _ _ _).2.2.2
        have polls : stmts.count pollIncr = 1 := by
          rw [← branch]
          exact count_pollIncr_branchOf _ _ _
        refine ⟨main.trans main', execution.trans execution', count.trans count', ?_, ?_, ?_,
          .inr thread⟩
        · intro _
          rw [poll, execAll_pollEntry, polls]
        · exact fun waits => absurd retires waits
        · intro _ stopped
          rw [execution', list'] at list
          simp only [stopped, Bool.false_eq_true, ↓reduceIte] at list
          exact ⟨list, thread⟩

def ThreadPc.interior : ThreadPc → Bool
  | .testSuccess _ _ | .testError _ _ | .retire _ _ _ | .unlink _ _ _ | .advance _ => true
  | _ => false

/-- What holds between two visits: `desc_entry_temp` is the next entry, or stands
at the list head with only unmarked entries queued since. -/
structure ScanOk (s : State) : Prop where
  between : s.thread.interior = false
  asleep : s.thread = .waitExecution → s.pollEntry = 0
  starting : s.main.starting = true → 0 < s.count
  temp : ∀ pos n, s.thread = .visit pos n → n = nextEntry s.idxdDescLists pos ∨
    n = none ∧ ∀ e ∈ s.idxdDescLists, pos < e → (s.entry e).completion = false

theorem scan_initial : ScanOk (initial cfg) where
  between := rfl
  asleep := fun _ => rfl
  starting := by simp [initial, MainPc.starting]
  temp := by simp [initial]

theorem nextEntry_append {l : List Nat} {pos q : Nat} (h : nextEntry l pos = some q) (c : Nat) :
    nextEntry (l ++ [c]) pos = some q := by
  induction l with
  | nil => simp [nextEntry] at h
  | cons e rest ih =>
    rw [List.cons_append]
    by_cases here : e = pos
    · subst here
      rw [nextEntry_cons_self] at h ⊢
      rw [List.head?_append, h, Option.some_or]
    · rw [nextEntry_cons_ne here] at h ⊢
      exact ih h

theorem ScanOk.of_fresh (thread : t.thread = .oops ∨ ∃ n, t.thread = advanceTo t.idxdDescLists n)
    (starting : t.main.starting = true → 0 < t.count) : ScanOk t := by
  rcases thread with dead | ⟨n, at_⟩
  · exact ⟨by simp [dead, ThreadPc.interior], by simp [dead], starting, by simp [dead]⟩
  · cases n with
    | none =>
      have guard : t.thread = .guard := at_
      exact ⟨by simp [guard, ThreadPc.interior], by simp [guard], starting, by simp [guard]⟩
    | some q =>
      have visit : t.thread = .visit q (nextEntry t.idxdDescLists q) := at_
      refine ⟨by simp [visit, ThreadPc.interior], by simp [visit], starting, ?_⟩
      intro pos n at_
      rw [visit, ThreadPc.visit.injEq] at at_
      obtain ⟨rfl, rfl⟩ := at_
      exact .inl rfl

theorem temp_append (ok : Inv cfg s) (scan : ScanOk s) (k : Nat) (batchInfo : Bool)
    (desc : Option Slot) {pos : Nat} {n : Option Nat} (at_ : s.thread = .visit pos n) :
    n = nextEntry (appendEntry s k batchInfo desc).idxdDescLists pos ∨
      n = none ∧ ∀ e ∈ (appendEntry s k batchInfo desc).idxdDescLists, pos < e →
        ((appendEntry s k batchInfo desc).entry e).completion = false := by
  have entries := ok.entries
  have here := (entries.here pos (by simp [at_, ThreadPc.current])).2
    (by simp [at_, ThreadPc.unlinking])
  have unmarked (later : ∀ e ∈ s.idxdDescLists, pos < e → (s.entry e).completion = false) :
      ∀ e ∈ (appendEntry s k batchInfo desc).idxdDescLists, pos < e →
        ((appendEntry s k batchInfo desc).entry e).completion = false := by
    intro e member above
    rcases List.mem_append.mp member with old | new
    · have below := entries.below e old
      simpa [appendEntry, Nat.ne_of_lt below] using later e old above
    · simp [appendEntry, List.mem_singleton.mp new]
  rcases scan.temp pos n at_ with next | ⟨head, later⟩
  · cases following : nextEntry s.idxdDescLists pos with
    | some q =>
      left
      rw [next, following]
      exact (nextEntry_append following s.count).symm
    | none =>
      refine .inr ⟨next.trans following, unmarked fun e member above => ?_⟩
      obtain ⟨q, some_, _⟩ := nextEntry_le entries.sorted here member above
      simp [following] at some_
  · exact .inr ⟨head, unmarked later⟩

theorem scan_step (ok : Inv cfg s) (scan : ScanOk s) (taken : scanStep cfg s a = some t) :
    ScanOk t := by
  rcases scanStep_cases taken with ⟨pos, n, _, at_, rfl⟩ | ⟨other, taken⟩
  · have visited : Visited s pos n (scanEntry cfg s pos n) := visited_scanEntry s pos n
    apply ScanOk.of_fresh
    · rcases visited.thread with dead | fresh
      · exact .inl dead
      · exact .inr ⟨n, fresh⟩
    · rw [visited.main, visited.count]
      exact scan.starting
  · have between := scan.between
    have starting := scan.starting
    have asleep := scan.asleep
    have temp := scan.temp
    have submitting := ok.phase.submitting
    have move := move_of_step taken
    clear taken
    cases move
    case append k batchInfo desc at_ =>
      exact ⟨between, asleep, fun _ => Nat.succ_pos _,
        fun pos n at_ => temp_append ok scan k batchInfo desc at_⟩
    case accept e d at_ _ =>
      have last := (submitting e at_).1
      refine ⟨between, asleep, fun _ => by simp only [acceptDesc]; omega, ?_⟩
      intro pos n at_
      have same (i : Nat) : ((acceptDesc s e d).entry i).completion = (s.entry i).completion :=
        modifyAt_same Entry.completion (by intro; rfl) _ _ _
      simp only [same]
      exact temp pos n at_
    case answer d status _ _ =>
      refine ⟨between, asleep, starting, ?_⟩
      intro pos n at_
      have same (i : Nat) : (answered s d status i).completion = (s.entry i).completion :=
        answered_same Entry.completion (by intros; rfl) _ _ _ _
      simp only [same]
      exact temp pos n at_
    case reject e at_ _ =>
      have last := (submitting e at_).1
      exact ⟨between, asleep, fun _ => by simp only; omega, temp⟩
    case mainControl control =>
      refine ⟨between, asleep, ?_, temp⟩
      cases control
      case idle at_ _ => exact fun _ => starting (by rw [at_]; rfl)
      all_goals simp [MainPc.starting]
    case retire at_ | unlink at_ => simp [at_, ThreadPc.interior] at between
    case threadControl control =>
      cases control
      case marked pos n at_ _ | unmarked pos n at_ _ => exact absurd at_ (other pos n rfl)
      case scan => exact .of_fresh (.inr ⟨_, rfl⟩) starting
      case missing at_ _ | missingAgain at_ _ | success at_ _ _ | notSuccess at_ _ _ |
          error at_ _ _ | notError at_ _ _ | keep at_ _ | drop at_ _ | unlinked at_ |
          advance at_ =>
        simp [at_, ThreadPc.interior] at between
      all_goals exact ⟨rfl, by simp, starting, by simp⟩
    case setWakeup | setStatus | clearWakeup => exact ⟨rfl, by simp, starting, by simp⟩
    all_goals exact ⟨between, asleep, by simp [MainPc.starting], temp⟩

/-- A step that does not retire the last of the `total_entries` entries, or does so
after `thread_execution` was cleared and at the head of the list. -/
def Timely (cfg : Config) (s : State) (a : Action) : Prop :=
  ∀ pos n, a = .thread → s.thread = .visit pos n → s.retires pos →
    s.pollEntry + 1 = cfg.totalEntries →
    s.threadExecution = false ∧ s.idxdDescLists.head? = some pos

/-- With all entries counted, the scan that counted the last one is draining the list. -/
def Draining (cfg : Config) (s : State) : Prop :=
  s.pollEntry = cfg.totalEntries → s.threadExecution = false ∧
    (s.idxdDescLists = [] ∨
      ∃ pos rest, s.idxdDescLists = pos :: rest ∧ s.thread = .visit pos rest.head?)

theorem draining_initial : Draining cfg (initial cfg) := by
  simp [Draining, initial]

theorem marked_of_counted (ok : Inv cfg s) (idle : s.thread.worksOn = none) {e : Nat}
    (counted : e ∈ s.ranOn pollIncr) : (s.entry e).completion = true := by
  obtain ⟨old, ran⟩ := mem_ranOn.mp counted
  obtain ⟨d, status, done, _, _, answered⟩ :=
    ok.entries.answered_of_trace old (List.ne_nil_of_mem ran)
  have member : pollIncr ∈ done := by simpa [answered.trace] using ran
  have marks := (mem_branchOf cfg.variant (s.entry e).batchInfo status).1
  rw [answered.completion, decide_eq_true_eq]
  rcases answered.settled (by simp [idle]) with rfl | rfl | rfl
  · simp at member
  · exact marks
  · exact List.mem_append_left _ marks

theorem poll_add_le (ok : Inv cfg s) (idle : s.thread.worksOn = none) (unmarked : Finset Nat)
    (inside : ∀ e ∈ unmarked, e < s.count ∧ (s.entry e).completion = false) :
    s.pollEntry + unmarked.card ≤ cfg.totalEntries := by
  have apart : Disjoint (s.ranOn pollIncr) unmarked := by
    rw [Finset.disjoint_left]
    intro e counted member
    have marked := marked_of_counted ok idle counted
    simp [(inside e member).2] at marked
  have within : s.ranOn pollIncr ∪ unmarked ⊆ Finset.range s.count := by
    intro e member
    rw [Finset.mem_range]
    rcases Finset.mem_union.mp member with counted | other
    · exact (mem_ranOn.mp counted).1
    · exact (inside e other).1
  have size := Finset.card_le_card within
  rw [Finset.card_union_of_disjoint apart, Finset.card_range, ← ok.counts.polls] at size
  exact size.trans ok.count_le

theorem all_marked (ok : Inv cfg s) (idle : s.thread.worksOn = none)
    (all : s.pollEntry = cfg.totalEntries) {e : Nat} (old : e < s.count) :
    (s.entry e).completion = true := by
  rw [← Bool.not_eq_false]
  intro unmarked
  have short := poll_add_le ok idle {e} (by simp [old, unmarked])
  rw [Finset.card_singleton] at short
  omega

theorem others_marked (ok : Inv cfg s) (idle : s.thread.worksOn = none)
    (last : s.pollEntry + 1 = cfg.totalEntries) {pos e : Nat} (here : pos < s.count)
    (unmarked : (s.entry pos).completion = false) (old : e < s.count) (other : e ≠ pos) :
    (s.entry e).completion = true := by
  rw [← Bool.not_eq_false]
  intro also
  have short := poll_add_le ok idle {e, pos} (by simp [old, also, here, unmarked])
  rw [Finset.card_pair other] at short
  omega

theorem draining_head {rest : List Nat} (list : t.idxdDescLists = rest)
    (thread : t.thread = advanceTo t.idxdDescLists rest.head?) :
    t.idxdDescLists = [] ∨
      ∃ pos rest, t.idxdDescLists = pos :: rest ∧ t.thread = .visit pos rest.head? := by
  cases rest with
  | nil => exact .inl list
  | cons q rest =>
    refine .inr ⟨q, rest, list, ?_⟩
    rw [thread, list, List.head?_cons]
    simp only [advanceTo, nextEntry_cons_self]

theorem draining_last (ok : Inv cfg s) (scan : ScanOk s) {pos : Nat} {n : Option Nat}
    (at_ : s.thread = .visit pos n) (last : s.pollEntry + 1 = cfg.totalEntries)
    (retires : s.retires pos) (visited : Visited s pos n t) (stopped : s.threadExecution = false)
    (head : s.idxdDescLists.head? = some pos) :
    t.idxdDescLists = [] ∨
      ∃ pos rest, t.idxdDescLists = pos :: rest ∧ t.thread = .visit pos rest.head? := by
  have idle : s.thread.worksOn = none := by simp [at_, ThreadPc.worksOn]
  have here := (ok.entries.here pos (by simp [at_, ThreadPc.current])).1
  obtain ⟨rest, list⟩ : ∃ rest, s.idxdDescLists = pos :: rest := by
    cases list : s.idxdDescLists with
    | nil => simp [list] at head
    | cons e rest =>
      simp only [list, List.head?_cons, Option.some.injEq] at head
      exact ⟨rest, by rw [head]⟩
  have next : n = rest.head? := by
    rcases scan.temp pos n at_ with following | ⟨none, later⟩
    · rw [following, list, nextEntry_cons_self]
    · cases rest with
      | nil => exact none
      | cons q rest =>
        have member : q ∈ s.idxdDescLists := by simp [list]
        have above : pos < q := by
          have sorted := ok.entries.sorted
          rw [list] at sorted
          exact List.rel_of_pairwise_cons sorted List.mem_cons_self
        have marked := others_marked ok idle last here retires.1 (ok.entries.below q member)
          (Nat.ne_of_gt above)
        simp [later q member above] at marked
  obtain ⟨list', thread⟩ := visited.unlinked (.inr retires) stopped
  rw [list, List.erase_cons_head] at list'
  rw [next] at thread
  exact draining_head list' thread

theorem draining_visit (ok : Inv cfg s) (scan : ScanOk s) (draining : Draining cfg s)
    {pos : Nat} {n : Option Nat} (at_ : s.thread = .visit pos n) (timely : Timely cfg s .thread)
    (visited : Visited s pos n t) : Draining cfg t := by
  intro all
  have idle : s.thread.worksOn = none := by simp [at_, ThreadPc.worksOn]
  have here := ok.entries.here pos (by simp [at_, ThreadPc.current])
  rw [visited.execution]
  by_cases already : s.pollEntry = cfg.totalEntries
  · obtain ⟨stopped, shape⟩ := draining already
    have marked := all_marked ok idle already here.1
    have member := here.2 (by simp [at_, ThreadPc.unlinking])
    rcases shape with empty | ⟨pos', rest, list, at'⟩
    · simp [empty] at member
    · rw [at_, ThreadPc.visit.injEq] at at'
      obtain ⟨rfl, rfl⟩ := at'
      obtain ⟨list', thread⟩ := visited.unlinked (.inl marked) stopped
      rw [list, List.erase_cons_head] at list'
      exact ⟨stopped, draining_head list' thread⟩
  · by_cases retires : s.retires pos
    · have last := (visited.polled retires).symm.trans all
      obtain ⟨stopped, head⟩ := timely pos n rfl at_ retires last
      exact ⟨stopped, draining_last ok scan at_ last retires visited stopped head⟩
    · exact absurd ((visited.kept retires).symm.trans all) already

theorem draining_step (ok : Inv cfg s) (scan : ScanOk s) (draining : Draining cfg s)
    (timely : Timely cfg s a) (taken : scanStep cfg s a = some t) : Draining cfg t := by
  rcases scanStep_cases taken with ⟨pos, n, rfl, at_, rfl⟩ | ⟨other, taken⟩
  · exact draining_visit ok scan draining at_ timely (visited_scanEntry s pos n)
  · have between := scan.between
    have emptied (pc : ThreadPc) (at_ : s.thread = pc) (outside : ∀ pos n, pc ≠ .visit pos n)
        (all : s.pollEntry = cfg.totalEntries) :
        s.threadExecution = false ∧ s.idxdDescLists = [] := by
      obtain ⟨stopped, empty | ⟨pos, rest, _, at'⟩⟩ := draining all
      · exact ⟨stopped, empty⟩
      · exact absurd (at_.symm.trans at') (outside pos _)
    have move := move_of_step taken
    clear taken
    cases move
    case append k batchInfo desc at_ =>
      intro all
      have polled : s.pollEntry = cfg.totalEntries := all
      have room := ok.phase.count_add
      have bound := cfg.visits_length_le
      have few := ok.counts.pollEntry_le
      simp only [at_, MainPc.pending, List.length_singleton] at room
      omega
    case setExecution at_ =>
      intro all
      obtain ⟨idle, _⟩ := draining all
      have asleep : s.thread = .waitExecution := by
        by_contra awake
        rcases ok.phase.started awake with running | stopped
        · simp [idle] at running
        · simp [at_, MainPc.stopped] at stopped
      have none := scan.asleep asleep
      have some_ := scan.starting (by rw [at_]; rfl)
      have bound := ok.count_le
      have polled : s.pollEntry = cfg.totalEntries := all
      omega
    case clearExecution => exact fun all => ⟨rfl, (draining all).2⟩
    case retire at_ | unlink at_ => simp [at_, ThreadPc.interior] at between
    case setWakeup at_ | setStatus at_ | clearWakeup at_ =>
      intro all
      obtain ⟨stopped, empty⟩ := emptied _ at_ (by simp) all
      exact ⟨stopped, .inl empty⟩
    case threadControl control =>
      intro all
      have outside (pos : Nat) (n : Option Nat) : s.thread ≠ .visit pos n := other pos n rfl
      obtain ⟨stopped, empty⟩ := emptied _ rfl outside all
      exact ⟨stopped, .inl empty⟩
    all_goals exact draining

theorem pollEntry_mono (ok : Inv cfg s) (taken : scanStep cfg s a = some t) :
    s.pollEntry ≤ t.pollEntry := by
  rcases scanStep_cases taken with ⟨pos, n, _, at_, rfl⟩ | ⟨_, taken⟩
  · have visited : Visited s pos n (scanEntry cfg s pos n) := visited_scanEntry s pos n
    by_cases retires : s.retires pos
    · rw [visited.polled retires]
      omega
    · rw [visited.kept retires]
  · rcases counters_cases ok.entries (move_of_step taken) with ⟨_, poll, _⟩ | ⟨_, stmt, _, _, _, poll, _⟩
    · rw [poll]
    · rw [poll]
      split <;> omega

theorem scan_of_run (run : ScanRun cfg h s) : ScanOk s := by
  induction run with
  | start => exact scan_initial
  | next before taken ih => exact scan_step (inv_of_scanRun before) ih taken

theorem draining_of_run (run : ScanRun cfg h s) (timely : ∀ p ∈ h, Timely cfg p.1 p.2) :
    Draining cfg s := by
  induction run with
  | start => exact draining_initial
  | next before taken ih =>
    have earlier := ih fun p member => timely p (List.mem_cons_of_mem _ member)
    exact draining_step (inv_of_scanRun before) (scan_of_run before) earlier
      (timely _ List.mem_cons_self) taken

/-- An untimely last retirement leaves `poll_entry` at its bound for ever. -/
theorem exhausted_of_untimely (run : ScanRun cfg h s) {p : State × Action} (member : p ∈ h)
    (untimely : ¬ Timely cfg p.1 p.2) : s.pollEntry = cfg.totalEntries := by
  apply Run.established (P := fun s => s.pollEntry = cfg.totalEntries) (I := Inv cfg)
    (C := fun s a => ¬ Timely cfg s a) inv_of_scanRun ?_ ?_ run member untimely
  · intro s a t _ untimely taken
    simp only [Timely, Classical.not_forall] at untimely
    obtain ⟨pos, n, rfl, at_, retires, last, _⟩ := untimely
    rcases scanStep_cases taken with ⟨pos', n', _, at', rfl⟩ | ⟨other, _⟩
    · rw [at_, ThreadPc.visit.injEq] at at'
      obtain ⟨rfl, rfl⟩ := at'
      have visited : Visited s pos n (scanEntry cfg s pos n) := visited_scanEntry s pos n
      rw [visited.polled retires, last]
    · exact absurd at_ (other pos n rfl)
  · intro s a t ok ok' all taken
    have grows := pollEntry_mono ok taken
    have bound := ok'.counts.pollEntry_le.trans ok'.count_le
    omega

/-- Wherever the thread stands at the guard of its polling loop with entries on
the list, the guard is enabled if and only if no step of the run was untimely. -/
theorem guard_enabled_iff (run : ScanRun cfg h s) (at_ : s.thread = .guard)
    (listed : s.idxdDescLists ≠ []) :
    s.pollEntry < cfg.totalEntries ↔ ∀ p ∈ h, Timely cfg p.1 p.2 := by
  have ok := inv_of_scanRun run
  have bound := ok.counts.pollEntry_le.trans ok.count_le
  constructor
  · intro enabled p member
    by_contra untimely
    have all := exhausted_of_untimely run member untimely
    omega
  · intro timely
    have draining := draining_of_run run timely
    by_contra closed
    obtain ⟨_, empty | ⟨pos, rest, _, at'⟩⟩ := draining (by omega)
    · exact listed empty
    · simp [at_] at at'

def wokenActions : List Action :=
  [.allocDesc 0, .main, .main, .main, .main, .main, .main, .thread, .thread]

theorem guard_enabled_one : ∃ h s, ScanRun (oneQueue .batch) h s ∧ s.main = .waitCompletion ∧
    s.idxdDescLists = [0] ∧ ∀ p ∈ h, Timely (oneQueue .batch) p.1 p.2 := by
  have reached : (exec (scanStep (oneQueue .batch)) (wokenActions ++ [.main, .main])
      (initial (oneQueue .batch))).map
      (fun s => (s.main, s.thread, s.idxdDescLists, s.pollEntry)) =
        some (.waitCompletion, .guard, [0], 0) := by
    decide +kernel
  obtain ⟨s, result, at_⟩ := Option.map_eq_some_iff.mp reached
  simp only [Prod.mk.injEq] at at_
  obtain ⟨main, guard, list, poll⟩ := at_
  obtain ⟨h, run, _⟩ := run_of_exec result
  have total : (oneQueue .batch).totalEntries = 1 := by decide
  exact ⟨h, s, run, main, list, (guard_enabled_iff run guard (by simp [list])).mp (by omega)⟩

/-- The answer is seen before `dsa_copy` clears `thread_execution`. -/
theorem guard_closed_one : ¬ ∀ (cfg : Config) (h : List (State × Action)) (s : State),
    ScanRun cfg h s → (∀ p ∈ h, p.2.fails = false) → s.main = .waitCompletion →
    s.completionStatus = 0 → s.thread = .guard → s.idxdDescLists ≠ [] →
    s.pollEntry < cfg.totalEntries := by
  intro claim
  have reached : (exec (scanStep (oneQueue .batch))
      (wokenActions ++ [.device (0, 0) 1, .thread, .thread, .thread, .main, .main])
      (initial (oneQueue .batch))).map (fun s => (s.main, s.completionStatus, s.thread,
        s.idxdDescLists, s.pollEntry)) =
      some (.waitCompletion, 0, .guard, [0], 1) := by decide +kernel
  obtain ⟨s, result, at_⟩ := Option.map_eq_some_iff.mp reached
  simp only [Prod.mk.injEq] at at_
  obtain ⟨main, unset, guard, list, poll⟩ := at_
  obtain ⟨h, run, labels⟩ := run_of_exec result
  have succeeds : ∀ p ∈ h, p.2.fails = false := by
    intro p member
    have label : p.2 ∈ h.map Prod.snd := List.mem_map_of_mem member
    rw [labels] at label
    revert label
    generalize p.2 = a
    revert a
    decide
  have enabled := claim _ h s run succeeds main unset guard (by simp [list])
  have total : (oneQueue .batch).totalEntries = 1 := by decide
  omega

/-- Nothing that can still happen changes this: `completion_status` stays 0. -/
structure Stuck (cfg : Config) (s : State) : Prop where
  main : s.main = .waitCompletion
  unset : s.completionStatus = 0
  listed : s.idxdDescLists ≠ []
  exhausted : s.pollEntry = cfg.totalEntries
  thread : s.thread = .guard ∨ s.thread = .drained

theorem stuck_step (stuck : Stuck cfg s) (move : Move cfg s a t) : Stuck cfg t := by
  obtain ⟨main, unset, listed, exhausted, thread⟩ := stuck
  cases move
  case mainControl control => cases control <;> simp_all
  case threadControl control =>
    refine ⟨main, unset, listed, exhausted, ?_⟩
    rcases thread with at_ | at_ <;> cases control <;> simp_all
  case answer => exact ⟨main, unset, listed, exhausted, thread⟩
  all_goals rcases thread with at_ | at_ <;> simp_all

end DsaTest.Protocol
