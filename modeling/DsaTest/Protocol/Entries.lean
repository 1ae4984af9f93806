import DsaTest.Protocol.Phase
import Mathlib.Data.List.Nodup

/-! The life of a list entry: queued, answered by its device, retired and then
unlinked by the thread, and what the pool and the completion record say in each
stage. The stages of all entries together are the invariant of the list. -/
namespace DsaTest.Protocol

open Stmt

variable {cfg : Config} {s t : State} {a : Action}

theorem nextEntry_cons_self (pos : Nat) (rest : List Nat) :
    nextEntry (pos :: rest) pos = rest.head? := by
  simp [nextEntry]

theorem nextEntry_cons_ne {pos e : Nat} (h : e ≠ pos) (rest : List Nat) :
    nextEntry (e :: rest) pos = nextEntry rest pos := by
  simp [nextEntry, h]

theorem nextEntry_mem {l : List Nat} {pos q : Nat} (h : nextEntry l pos = some q) : q ∈ l := by
  unfold nextEntry at h
  have tail := List.mem_of_mem_tail (List.mem_of_mem_head? h)
  exact (List.dropWhile_sublist _).mem tail

theorem nextEntry_gt {l : List Nat} (sorted : l.Pairwise (· < ·)) {pos q : Nat}
    (h : nextEntry l pos = some q) : pos < q := by
  induction l with
  | nil => simp [nextEntry] at h
  | cons e rest ih =>
    by_cases here : e = pos
    · subst here
      rw [nextEntry_cons_self] at h
      exact List.rel_of_pairwise_cons sorted (List.mem_of_mem_head? h)
    · rw [nextEntry_cons_ne here] at h
      exact ih sorted.of_cons h

theorem nextEntry_le {l : List Nat} (sorted : l.Pairwise (· < ·)) {q e : Nat} (first : q ∈ l)
    (later : e ∈ l) (below : q < e) : ∃ q', nextEntry l q = some q' ∧ q' ≤ e := by
  induction l with
  | nil => simp at first
  | cons i rest ih =>
    have after := List.pairwise_cons.mp sorted
    by_cases here : i = q
    · subst here
      rw [nextEntry_cons_self]
      have member : e ∈ rest := by simpa [Nat.ne_of_gt below] using later
      cases rest with
      | nil => simp at member
      | cons j rest =>
        refine ⟨j, rfl, ?_⟩
        rcases List.mem_cons.mp member with rfl | member
        · exact Nat.le_refl _
        · exact Nat.le_of_lt ((List.pairwise_cons.mp after.2).1 e member)
    · rw [nextEntry_cons_ne here]
      have first : q ∈ rest := by simpa [Ne.symm here] using first
      have smaller := after.1 q first
      have later : e ∈ rest := by
        rcases List.mem_cons.mp later with rfl | later
        · omega
        · exact later
      exact ih after.2 first later

def branchOf (v : Variant) (batchInfo : Bool) (status : Nat) : List Stmt :=
  if status = 1 then successBranch v batchInfo else errorBranch v batchInfo

theorem life_nodup (v : Variant) (batchInfo : Bool) (status : Nat) :
    (branchOf v batchInfo status ++ unlinkBranch).Nodup := by
  unfold branchOf
  split <;> cases v <;> cases batchInfo <;> decide

theorem mem_branchOf (v : Variant) (batchInfo : Bool) (status : Nat) :
    setCompletion ∈ branchOf v batchInfo status ∧ descComplete ∈ branchOf v batchInfo status ∧
      pollIncr ∈ branchOf v batchInfo status ∧ listDel ∉ branchOf v batchInfo status := by
  unfold branchOf
  split <;> cases v <;> cases batchInfo <;> decide

theorem setError_mem_branchOf (v : Variant) (batchInfo : Bool) (status : Nat) :
    setError ∈ branchOf v batchInfo status ↔ status ≠ 1 := by
  unfold branchOf
  split <;> cases v <;> cases batchInfo <;> simp_all [successBranch, errorBranch, releaseBatch]

def ThreadPc.worksOn : ThreadPc → Option Nat
  | .retire pos _ _ | .unlink pos _ _ => some pos
  | _ => none

def ThreadPc.remaining : ThreadPc → List Stmt
  | .retire _ _ rest | .unlink _ _ rest => rest
  | _ => []

/-- `desc_entry` while its list node is still needed. -/
def ThreadPc.current : ThreadPc → Option Nat
  | .visit pos _ | .testSuccess pos _ | .testError pos _ | .retire pos _ _ | .unlink pos _ _ => some pos
  | _ => none

/-- `desc_entry_temp`. -/
def ThreadPc.next : ThreadPc → Option Nat
  | .visit _ n | .testSuccess _ n | .testError _ n | .retire _ n _ | .unlink _ n _ | .advance n => n
  | _ => none

def ThreadPc.testing : ThreadPc → Option Nat
  | .testSuccess pos _ | .testError pos _ => some pos
  | _ => none

def Settled (branch done : List Stmt) : Prop :=
  done = [] ∨ done = branch ∨ done = branch ++ unlinkBranch

def Progress (th : ThreadPc) (e : Nat) (branch done : List Stmt) : Prop :=
  if th.worksOn = some e then
    done ++ th.remaining = branch ++ if th.unlinking then unlinkBranch else []
  else Settled branch done

structure Answered (cfg : Config) (s : State) (e : Nat) (d : Slot) (status : Nat)
    (done : List Stmt) : Prop where
  final : status ≠ 0
  accepted : (s.entry e).accepted = true
  trace : (s.entry e).trace = .written status :: done.map .ran
  completion : (s.entry e).completion = decide (setCompletion ∈ done)
  held : descComplete ∉ done → s.holder d = some e ∧ s.status d = status ∧ s.busy d = false
  listed : e ∈ s.idxdDescLists ↔ listDel ∉ done
  progress : Progress s.thread e (branchOf cfg.variant (s.entry e).batchInfo status) done

structure Waiting (s : State) (e : Nat) (d : Slot) : Prop where
  trace : (s.entry e).trace = []
  completion : (s.entry e).completion = false
  held : s.holder d = some e
  status : s.status d = 0
  busy : s.busy d = (s.entry e).accepted
  listed : e ∈ s.idxdDescLists

/-- The stage of one entry. An entry without a descriptor never leaves the first. -/
inductive EntryOk (cfg : Config) (s : State) (e : Nat) : Prop
  | missing : (s.entry e).desc = none → (s.entry e).trace = [] →
      (s.entry e).completion = false → (s.entry e).accepted = false →
      e ∈ s.idxdDescLists → EntryOk cfg s e
  | waiting (d : Slot) : (s.entry e).desc = some d → d.1 = (s.entry e).wq →
      Waiting s e d → EntryOk cfg s e
  | answered (d : Slot) (status : Nat) (done : List Stmt) : (s.entry e).desc = some d →
      d.1 = (s.entry e).wq → Answered cfg s e d status done → EntryOk cfg s e

theorem EntryOk.frame {e : Nat} (ok : EntryOk cfg s e) (entry : t.entry e = s.entry e)
    (slot : ∀ d, (s.entry e).desc = some d → s.holder d = some e →
      t.holder d = some e ∧ t.status d = s.status d ∧ t.busy d = s.busy d)
    (listed : e ∈ t.idxdDescLists ↔ e ∈ s.idxdDescLists)
    (progress : ∀ d status done, (s.entry e).desc = some d → Answered cfg s e d status done →
      Progress t.thread e (branchOf cfg.variant (s.entry e).batchInfo status) done) :
    EntryOk cfg t e := by
  cases ok with
  | missing desc trace completion accepted here =>
    rw [← entry] at desc trace completion accepted
    exact .missing desc trace completion accepted (listed.mpr here)
  | waiting d desc wq ok =>
    obtain ⟨held, status, busy⟩ := slot d desc ok.held
    rw [← entry] at desc wq
    refine .waiting d desc wq ⟨?_, ?_, held, ?_, ?_, listed.mpr ok.listed⟩
    · rw [entry, ok.trace]
    · rw [entry, ok.completion]
    · rw [status, ok.status]
    · rw [busy, entry, ok.busy]
  | answered d st done desc wq ok =>
    have held (notYet : descComplete ∉ done) :
        t.holder d = some e ∧ t.status d = st ∧ t.busy d = false := by
      obtain ⟨held, status, busy⟩ := ok.held notYet
      obtain ⟨held', status', busy'⟩ := slot d desc held
      exact ⟨held', status'.trans status, busy'.trans busy⟩
    have moved := progress d st done desc ok
    rw [← entry] at desc wq moved
    exact .answered d st done desc wq ⟨ok.final, by rw [entry, ok.accepted], by rw [entry, ok.trace],
      by rw [entry, ok.completion], held, listed.trans ok.listed, moved⟩

structure EntriesOk (cfg : Config) (s : State) : Prop where
  entries : ∀ e < s.count, EntryOk cfg s e
  sorted : s.idxdDescLists.Pairwise (· < ·)
  below : ∀ e ∈ s.idxdDescLists, e < s.count
  held : ∀ d e, s.holder d = some e →
    e < s.count ∧ (s.entry e).desc = some d ∧ .ran descComplete ∉ (s.entry e).trace ∨
    e = s.count ∧ ∃ k batchInfo, s.main = .append k batchInfo (some d)
  pending : ∀ k batchInfo d, s.main = .append k batchInfo (some d) →
    s.holder d = some s.count ∧ s.status d = 0 ∧ d.1 = k
  sent : ∀ d, s.busy d = true → ∃ e < s.count, (s.entry e).desc = some d ∧
    (s.entry e).trace = [] ∧ (s.entry e).accepted = true
  here : ∀ pos, s.thread.current = some pos →
    pos < s.count ∧ (s.thread.unlinking = false → pos ∈ s.idxdDescLists)
  next : ∀ q, s.thread.next = some q →
    q ∈ s.idxdDescLists ∧ ∀ pos, s.thread.current = some pos → pos < q
  worked : ∀ pos, s.thread.worksOn = some pos → (s.entry pos).trace ≠ []
  testing : ∀ pos, s.thread.testing = some pos → (s.entry pos).completion = false

theorem entries_initial : EntriesOk cfg (initial cfg) where
  entries := by simp [initial]
  sorted := by simp [initial]
  below := by simp [initial]
  held := by simp [initial]
  pending := by simp [initial]
  sent := by simp [initial]
  here := by simp [initial, ThreadPc.current]
  next := by simp [initial, ThreadPc.next]
  worked := by simp [initial, ThreadPc.worksOn]
  testing := by simp [initial, ThreadPc.testing]

theorem EntriesOk.holder_entry (ok : EntriesOk cfg s) {d : Slot} {e : Nat}
    (held : s.holder d = some e) (old : e < s.count) :
    (s.entry e).desc = some d ∧ .ran descComplete ∉ (s.entry e).trace := by
  rcases ok.held d e held with ⟨_, desc, notYet⟩ | ⟨new, _⟩
  · exact ⟨desc, notYet⟩
  · omega

theorem EntriesOk.answered_of_trace (ok : EntriesOk cfg s) {e : Nat} (old : e < s.count)
    (touched : (s.entry e).trace ≠ []) :
    ∃ d status done, (s.entry e).desc = some d ∧ d.1 = (s.entry e).wq ∧
      Answered cfg s e d status done := by
  cases ok.entries e old with
  | missing _ trace => exact absurd trace touched
  | waiting _ _ _ ok => exact absurd ok.trace touched
  | answered d status done desc wq ok => exact ⟨d, status, done, desc, wq, ok⟩

theorem EntriesOk.main_frame (ok : EntriesOk cfg s)
    (idle : ∀ k batchInfo d, s.main ≠ .append k batchInfo (some d)) (pc : MainPc)
    (idle' : ∀ k batchInfo d, pc ≠ .append k batchInfo (some d)) (todo : List (Nat × Nat))
    (execution : Bool) (leaked : Nat) :
    EntriesOk cfg { s with
      main := pc, todo := todo, threadExecution := execution, leaked := leaked } where
  entries := fun e old => (ok.entries e old).frame rfl (fun _ _ held => ⟨held, rfl, rfl⟩) Iff.rfl
    fun _ _ _ _ answered => answered.progress
  sorted := ok.sorted
  below := ok.below
  held := by
    intro d e held
    rcases ok.held d e held with old | ⟨_, k, batchInfo, at_⟩
    · exact .inl old
    · exact absurd at_ (idle k batchInfo d)
  pending := fun k batchInfo d at_ => absurd at_ (idle' k batchInfo d)
  sent := ok.sent
  here := ok.here
  next := ok.next
  worked := ok.worked
  testing := ok.testing

theorem EntriesOk.thread_frame (ok : EntriesOk cfg s) (th : ThreadPc) (wakeup : Bool)
    (completionStatus : Nat)
    (progress : ∀ e < s.count, ∀ d status done, (s.entry e).desc = some d →
      Answered cfg s e d status done →
      Progress th e (branchOf cfg.variant (s.entry e).batchInfo status) done)
    (here : ∀ pos, th.current = some pos →
      pos < s.count ∧ (th.unlinking = false → pos ∈ s.idxdDescLists))
    (next : ∀ q, th.next = some q →
      q ∈ s.idxdDescLists ∧ ∀ pos, th.current = some pos → pos < q)
    (worked : ∀ pos, th.worksOn = some pos → (s.entry pos).trace ≠ [])
    (testing : ∀ pos, th.testing = some pos → (s.entry pos).completion = false) :
    EntriesOk cfg { s with
      thread := th, threadWakeup := wakeup, completionStatus := completionStatus } where
  entries := fun e old => (ok.entries e old).frame rfl (fun _ _ held => ⟨held, rfl, rfl⟩) Iff.rfl
    (progress e old)
  sorted := ok.sorted
  below := ok.below
  held := ok.held
  pending := ok.pending
  sent := ok.sent
  here := here
  next := next
  worked := worked
  testing := testing

theorem progress_idle {th : ThreadPc} {e : Nat} {branch done : List Stmt}
    (idle : th.worksOn ≠ some e) : Progress th e branch done ↔ Settled branch done := by
  simp [Progress, idle]

theorem Answered.settled {e status : Nat} {d : Slot} {done : List Stmt}
    (ok : Answered cfg s e d status done) (idle : s.thread.worksOn ≠ some e) :
    Settled (branchOf cfg.variant (s.entry e).batchInfo status) done :=
  (progress_idle idle).mp ok.progress

theorem Answered.done_of_marked {e status : Nat} {d : Slot} {done : List Stmt}
    (ok : Answered cfg s e d status done) (idle : s.thread.worksOn ≠ some e)
    (marked : (s.entry e).completion = true) (here : e ∈ s.idxdDescLists) :
    done = branchOf cfg.variant (s.entry e).batchInfo status := by
  have completed : setCompletion ∈ done := by simpa [marked] using ok.completion
  rcases ok.settled idle with rfl | same | rfl
  · simp at completed
  · exact same
  · exact absurd (by simp [unlinkBranch]) (ok.listed.mp here)

theorem Answered.done_of_unmarked {e status : Nat} {d : Slot} {done : List Stmt}
    (ok : Answered cfg s e d status done) (idle : s.thread.worksOn ≠ some e)
    (unmarked : (s.entry e).completion = false) : done = [] := by
  have fresh : setCompletion ∉ done := by simpa [unmarked] using ok.completion
  have member := (mem_branchOf cfg.variant (s.entry e).batchInfo status).1
  rcases ok.settled idle with same | rfl | rfl
  · exact same
  · exact absurd member fresh
  · exact absurd (List.mem_append_left _ member) fresh

def AllSettled (cfg : Config) (s : State) : Prop :=
  ∀ e < s.count, ∀ d status done, (s.entry e).desc = some d → Answered cfg s e d status done →
    Settled (branchOf cfg.variant (s.entry e).batchInfo status) done

theorem allSettled_of_idle (idle : s.thread.worksOn = none) : AllSettled cfg s :=
  fun _ _ _ _ _ _ answered => answered.settled (by simp [idle])

theorem EntriesOk.quiet_step (ok : EntriesOk cfg s) (settled : AllSettled cfg s) (th : ThreadPc)
    (quiet : th.current = none ∧ th.next = none ∧ th.worksOn = none ∧ th.testing = none)
    (wakeup : Bool) (completionStatus : Nat) :
    EntriesOk cfg { s with
      thread := th, threadWakeup := wakeup, completionStatus := completionStatus } := by
  obtain ⟨current, next, worksOn, testing⟩ := quiet
  refine ok.thread_frame th wakeup completionStatus ?_ ?_ ?_ ?_ ?_
  · intro e old d status done desc answered
    exact (progress_idle (by simp [worksOn])).mpr (settled e old d status done desc answered)
  all_goals simp [current, next, worksOn, testing]

theorem EntriesOk.leave_step (ok : EntriesOk cfg s) (settled : AllSettled cfg s) (n : Option Nat)
    (next : ∀ q, n = some q → q ∈ s.idxdDescLists) :
    EntriesOk cfg { s with thread := .advance n } := by
  refine ok.thread_frame (.advance n) s.threadWakeup s.completionStatus settled ?_ ?_ ?_ ?_
  · simp [ThreadPc.current]
  · exact fun q at_ => ⟨next q at_, by simp [ThreadPc.current]⟩
  · simp [ThreadPc.worksOn]
  · simp [ThreadPc.testing]

theorem EntriesOk.advance_step (ok : EntriesOk cfg s) (settled : AllSettled cfg s) (n : Option Nat)
    (next : ∀ q, n = some q → q ∈ s.idxdDescLists) :
    EntriesOk cfg { s with thread := advanceTo s.idxdDescLists n } := by
  cases n with
  | none => exact ok.quiet_step settled .guard ⟨rfl, rfl, rfl, rfl⟩ _ _
  | some q =>
    have member := next q rfl
    refine ok.thread_frame (.visit q (nextEntry s.idxdDescLists q)) s.threadWakeup
      s.completionStatus settled ?_ ?_ ?_ ?_
    · rintro pos ⟨⟩
      exact ⟨ok.below q member, fun _ => member⟩
    · intro q' following
      refine ⟨nextEntry_mem following, ?_⟩
      rintro pos ⟨⟩
      exact nextEntry_gt ok.sorted following
    · simp [ThreadPc.worksOn]
    · simp [ThreadPc.testing]

theorem EntriesOk.test_step (ok : EntriesOk cfg s) {pos : Nat} {n : Option Nat} {th : ThreadPc}
    (idle : s.thread.worksOn = none) (current : s.thread.current = some pos)
    (linked : s.thread.unlinking = false) (following : s.thread.next = n)
    (unmarked : (s.entry pos).completion = false)
    (at_ : th = .testSuccess pos n ∨ th = .testError pos n) :
    EntriesOk cfg { s with thread := th } := by
  have here := ok.here pos current
  have next (q : Nat) (at_ : n = some q) : q ∈ s.idxdDescLists ∧ pos < q := by
    obtain ⟨member, after⟩ := ok.next q (following.trans at_)
    exact ⟨member, after pos current⟩
  have settled : AllSettled cfg s := allSettled_of_idle idle
  rcases at_ with rfl | rfl
  all_goals
    refine ok.thread_frame _ s.threadWakeup s.completionStatus settled ?_ ?_ ?_ ?_
    · rintro pos' ⟨⟩
      exact ⟨here.1, fun _ => here.2 linked⟩
    · intro q at_
      refine ⟨(next q at_).1, ?_⟩
      rintro pos' ⟨⟩
      exact (next q at_).2
    · simp [ThreadPc.worksOn]
    · rintro pos' ⟨⟩
      exact unmarked

theorem EntriesOk.branch_step (ok : EntriesOk cfg s) {pos : Nat} {n : Option Nat}
    {rest : List Stmt} (idle : s.thread.worksOn = none) (current : s.thread.current = some pos)
    (linked : s.thread.unlinking = false) (following : s.thread.next = n)
    (touched : (s.entry pos).trace ≠ [])
    (ahead : ∀ d status done, (s.entry pos).desc = some d → Answered cfg s pos d status done →
      done ++ rest = branchOf cfg.variant (s.entry pos).batchInfo status) :
    EntriesOk cfg { s with thread := .retire pos n rest } := by
  have here := ok.here pos current
  refine ok.thread_frame (.retire pos n rest) s.threadWakeup s.completionStatus ?_ ?_ ?_ ?_ ?_
  · intro e old d status done desc answered
    by_cases h : e = pos
    · subst h
      simpa [Progress, ThreadPc.worksOn, ThreadPc.remaining, ThreadPc.unlinking] using
        ahead d status done desc answered
    · refine (progress_idle (by simpa [ThreadPc.worksOn] using Ne.symm h)).mpr ?_
      exact answered.settled (by simp [idle])
  · rintro pos' ⟨⟩
    exact ⟨here.1, fun _ => here.2 linked⟩
  · intro q at_
    obtain ⟨member, after⟩ := ok.next q (following.trans at_)
    refine ⟨member, ?_⟩
    rintro pos' ⟨⟩
    exact after pos current
  · rintro pos' ⟨⟩
    exact touched
  · simp [ThreadPc.testing]

theorem EntriesOk.touched_of_status (ok : EntriesOk cfg s) {pos : Nat} {d : Slot}
    (old : pos < s.count) (desc : (s.entry pos).desc = some d) (final : s.status d ≠ 0) :
    (s.entry pos).trace ≠ [] := by
  cases ok.entries pos old with
  | missing none => simp [none] at desc
  | waiting d' desc' _ ok =>
    rw [desc, Option.some.injEq] at desc'
    subst desc'
    exact absurd ok.status final
  | answered d' status done _ _ ok => simp [ok.trace]

theorem Answered.of_unmarked {e status : Nat} {d : Slot} {done : List Stmt}
    (ok : Answered cfg s e d status done) (idle : s.thread.worksOn ≠ some e)
    (unmarked : (s.entry e).completion = false) : done = [] ∧ s.status d = status := by
  have fresh := ok.done_of_unmarked idle unmarked
  subst fresh
  exact ⟨rfl, (ok.held (by simp)).2.1⟩

theorem EntriesOk.found_step (ok : EntriesOk cfg s) {pos : Nat} {n : Option Nat} {d : Slot}
    {rest : List Stmt} (at_ : s.thread = .testSuccess pos n ∨ s.thread = .testError pos n)
    (desc : (s.entry pos).desc = some d) (final : s.status d ≠ 0)
    (branch : rest = branchOf cfg.variant (s.entry pos).batchInfo (s.status d)) :
    EntriesOk cfg { s with thread := .retire pos n rest } := by
  have place : s.thread.worksOn = none ∧ s.thread.current = some pos ∧
      s.thread.unlinking = false ∧ s.thread.next = n ∧ s.thread.testing = some pos := by
    rcases at_ with at_ | at_
    all_goals
      rw [at_]
      exact ⟨rfl, rfl, rfl, rfl, rfl⟩
  obtain ⟨idle, current, linked, following, testing⟩ := place
  have unmarked := ok.testing pos testing
  have touched := ok.touched_of_status (ok.here pos current).1 desc final
  apply ok.branch_step idle current linked following touched
  intro d' status done desc' answered
  obtain ⟨fresh, same⟩ := answered.of_unmarked (by simp [idle]) unmarked
  rw [desc, Option.some.injEq] at desc'
  subst desc'
  rw [fresh, branch, same, List.nil_append]

theorem allSettled_of_end {pos : Nat} {n : Option Nat}
    (at_ : s.thread = .retire pos n [] ∨ s.thread = .unlink pos n []) : AllSettled cfg s := by
  intro e old d status done desc answered
  by_cases here : e = pos
  · subst here
    have progress := answered.progress
    rcases at_ with at_ | at_
    · apply Or.inr
      apply Or.inl
      simpa [Progress, at_, ThreadPc.worksOn, ThreadPc.remaining, ThreadPc.unlinking] using progress
    · apply Or.inr
      apply Or.inr
      simpa [Progress, at_, ThreadPc.worksOn, ThreadPc.remaining, ThreadPc.unlinking] using progress
  · apply answered.settled
    rcases at_ with at_ | at_
    all_goals simpa [at_, ThreadPc.worksOn] using Ne.symm here

theorem EntriesOk.drop_step (ok : EntriesOk cfg s) {pos : Nat} {n : Option Nat}
    (at_ : s.thread = .retire pos n []) :
    EntriesOk cfg { s with thread := .unlink pos n unlinkBranch } := by
  have current : s.thread.current = some pos := by simp [at_, ThreadPc.current]
  refine ok.thread_frame (.unlink pos n unlinkBranch) s.threadWakeup s.completionStatus
    ?_ ?_ ?_ ?_ ?_
  · intro e old d status done desc answered
    have progress := answered.progress
    by_cases h : e = pos
    · subst h
      have whole : done = branchOf cfg.variant (s.entry e).batchInfo status := by
        simpa [Progress, at_, ThreadPc.worksOn, ThreadPc.remaining, ThreadPc.unlinking]
          using progress
      simp [Progress, ThreadPc.worksOn, ThreadPc.remaining, ThreadPc.unlinking, whole]
    · refine (progress_idle (by simpa [ThreadPc.worksOn] using Ne.symm h)).mpr ?_
      exact answered.settled (by simpa [at_, ThreadPc.worksOn] using Ne.symm h)
  · rintro pos' ⟨⟩
    exact ⟨(ok.here pos current).1, by simp [ThreadPc.unlinking]⟩
  · intro q next
    obtain ⟨member, after⟩ := ok.next q (by simpa [at_, ThreadPc.next] using next)
    refine ⟨member, ?_⟩
    rintro pos' ⟨⟩
    exact after pos current
  · rintro pos' ⟨⟩
    exact ok.worked pos (by simp [at_, ThreadPc.worksOn])
  · simp [ThreadPc.testing]

theorem EntriesOk.control_step (ok : EntriesOk cfg s) {pc : ThreadPc}
    (control : ThreadControl cfg s pc) : EntriesOk cfg { s with thread := pc } := by
  cases control
  case wake at_ _ | enter at_ _ _ | leave at_ _ | drained at_ _ _ | again at_ _ | rewake at_ _ =>
    exact ok.quiet_step (allSettled_of_idle (by simp [at_, ThreadPc.worksOn])) _
      ⟨rfl, rfl, rfl, rfl⟩ _ _
  case missing at_ _ | missingAgain at_ _ =>
    exact ok.quiet_step (allSettled_of_idle (by simp [at_, ThreadPc.worksOn])) _
      ⟨rfl, rfl, rfl, rfl⟩ _ _
  case scan at_ =>
    refine ok.advance_step (allSettled_of_idle (by simp [at_, ThreadPc.worksOn])) _ ?_
    exact fun q first => List.mem_of_mem_head? first
  case advance n at_ =>
    refine ok.advance_step (allSettled_of_idle (by simp [at_, ThreadPc.worksOn])) n ?_
    exact fun q next => (ok.next q (by simpa [at_, ThreadPc.next] using next)).1
  case marked pos n at_ marked =>
    have idle : s.thread.worksOn = none := by simp [at_, ThreadPc.worksOn]
    have current : s.thread.current = some pos := by simp [at_, ThreadPc.current]
    have linked : s.thread.unlinking = false := by simp [at_, ThreadPc.unlinking]
    obtain ⟨old, here⟩ := ok.here pos current
    refine ok.branch_step idle current linked (by simp [at_, ThreadPc.next]) ?_ ?_
    · cases ok.entries pos old with
      | missing _ _ unmarked => simp [unmarked] at marked
      | waiting _ _ _ ok => simp [ok.completion] at marked
      | answered _ _ _ _ _ ok => simp [ok.trace]
    · intro d status done _ answered
      simpa using answered.done_of_marked (by simp [idle]) marked (here linked)
  case unmarked pos n at_ unmarked =>
    exact ok.test_step (by simp [at_, ThreadPc.worksOn]) (by simp [at_, ThreadPc.current])
      (by simp [at_, ThreadPc.unlinking]) (by simp [at_, ThreadPc.next]) unmarked (.inl rfl)
  case notSuccess pos n d at_ _ _ =>
    exact ok.test_step (by simp [at_, ThreadPc.worksOn]) (by simp [at_, ThreadPc.current])
      (by simp [at_, ThreadPc.unlinking]) (by simp [at_, ThreadPc.next])
      (ok.testing pos (by simp [at_, ThreadPc.testing])) (.inr rfl)
  case success pos n d at_ desc succeeded =>
    exact ok.found_step (.inl at_) desc (by omega) (by simp [branchOf, succeeded])
  case error pos n d at_ desc failed =>
    exact ok.found_step (.inr at_) desc (by omega) (by simp [branchOf, Nat.ne_of_gt failed])
  case notError pos n d at_ _ _ =>
    refine ok.leave_step (allSettled_of_idle (by simp [at_, ThreadPc.worksOn])) n ?_
    exact fun q next => (ok.next q (by simpa [at_, ThreadPc.next] using next)).1
  case keep pos n at_ _ =>
    refine ok.leave_step (allSettled_of_end (.inl at_)) n ?_
    exact fun q next => (ok.next q (by simpa [at_, ThreadPc.next] using next)).1
  case unlinked pos n at_ =>
    refine ok.leave_step (allSettled_of_end (.inr at_)) n ?_
    exact fun q next => (ok.next q (by simpa [at_, ThreadPc.next] using next)).1
  case drop at_ _ => exact ok.drop_step at_

end DsaTest.Protocol
