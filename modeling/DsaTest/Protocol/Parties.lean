import DsaTest.Protocol.Failure
import DsaTest.Protocol.Pool
import DsaTest.Lib.Fair
import Mathlib.Algebra.Order.BigOperators.Group.Finset

/-! The three parties of the protocol when no creation and no submission fails: where
`dsa_copy` has to wait for the others, and the work that they do meanwhile. -/
namespace DsaTest.Protocol

open Stmt Machine

variable {cfg : Config} {s t : State} {a : Action}

inductive Party
  | dsaCopy
  | thread
  | device
  deriving DecidableEq, Repr

def Action.party : Action → Party
  | .thread => .thread
  | .device _ _ => .device
  | _ => .dsaCopy

def okStep (cfg : Config) (s : State) (a : Action) : Option State :=
  if a.fails then none else step cfg s a

theorem okStep_eq_some : okStep cfg s a = some t ↔ a.fails = false ∧ step cfg s a = some t := by
  cases fails : a.fails <;> simp [okStep, fails]

def ThreadPc.asleep : ThreadPc → Bool
  | .waitExecution | .setWakeup => true
  | _ => false

def ThreadPc.awake : ThreadPc → Bool
  | .waitExecution | .setWakeup | .waitAgain => false
  | _ => true

/-- `dsa_copy` is past its wait on `thread_wakeup`. -/
def MainPc.sawWakeup : MainPc → Bool
  | .clearExecution | .waitCompletion | .done => true
  | _ => false

@[simp] theorem advanceTo_asleep (l : List Nat) (n : Option Nat) :
    (advanceTo l n).asleep = false := by cases n <;> rfl

@[simp] theorem advanceTo_awake (l : List Nat) (n : Option Nat) :
    (advanceTo l n).awake = true := by cases n <;> rfl

structure Alive (cfg : Config) (s : State) : Prop where
  inv : Inv cfg s
  clean : Clean s
  wakeup : s.threadWakeup = s.thread.awake
  seen : s.main.sawWakeup → s.thread.asleep = false
  linked : s.main.stopped = false → ∀ e < s.count, e ∈ s.idxdDescLists

theorem alive_initial : Alive cfg (initial cfg) where
  inv := ⟨phase_initial, entries_initial, counts_initial⟩
  clean := clean_initial
  wakeup := rfl
  seen := by simp [initial, MainPc.sawWakeup]
  linked := by simp [initial]

theorem Alive.not_rewaking (ok : Alive cfg s) (at_ : s.thread = .waitAgain) :
    s.threadExecution = false :=
  ok.inv.phase.stopped (ok.inv.phase.empty (by simp [at_, ThreadPc.finished])).1

theorem Alive.wakeup_step (ok : Alive cfg s) (move : Move cfg s a t) :
    t.threadWakeup = t.thread.awake := by
  have wakeup := ok.wakeup
  cases move
  case threadControl control =>
    cases control
    case rewake at_ running => simp [ok.not_rewaking at_] at running
    case scan at_ | advance at_ => exact wakeup.trans (by rw [at_, advanceTo_awake]; rfl)
    all_goals simp_all [ThreadPc.awake]
  all_goals simp_all [ThreadPc.awake, appendEntry, acceptDesc, execStmt]

theorem Alive.seen_step (ok : Alive cfg s) (move : Move cfg s a t) :
    t.main.sawWakeup → t.thread.asleep = false := by
  have seen := ok.seen
  have wakeup := ok.wakeup
  cases move
  case mainControl control =>
    cases control
    case sawWakeup at_ woken =>
      intro _
      cases at' : s.thread <;> simp_all [ThreadPc.awake, ThreadPc.asleep]
    all_goals simp_all [MainPc.sawWakeup]
  case threadControl control =>
    cases control
    case scan | advance => exact fun _ => advanceTo_asleep _ _
    all_goals simp_all [ThreadPc.asleep]
  all_goals simp_all [MainPc.sawWakeup, ThreadPc.asleep, appendEntry, acceptDesc, execStmt]

theorem EntriesOk.not_listDel (ok : EntriesOk cfg s) {pos : Nat} {n : Option Nat} {stmt : Stmt}
    {rest : List Stmt} (at_ : s.thread = .retire pos n (stmt :: rest)) : stmt ≠ listDel := by
  rintro rfl
  obtain ⟨old, _⟩ := ok.here pos (by simp [at_, ThreadPc.current])
  obtain ⟨d, status, done, _, _, answered⟩ :=
    ok.answered_of_trace old (ok.worked pos (by simp [at_, ThreadPc.worksOn]))
  have progress := answered.progress
  simp only [Progress, at_, ThreadPc.worksOn, ThreadPc.remaining, ThreadPc.unlinking, ↓reduceIte,
    Bool.false_eq_true, List.append_nil] at progress
  apply (mem_branchOf cfg.variant (s.entry pos).batchInfo status).2.2.2
  rw [← progress]
  simp

theorem Alive.linked_step (ok : Alive cfg s) (move : Move cfg s a t) :
    t.main.stopped = false → ∀ e < t.count, e ∈ t.idxdDescLists := by
  have linked := ok.linked
  cases move
  case append at_ =>
    intro _ e new
    have running : s.main.stopped = false := by simp [at_, MainPc.stopped]
    rw [appendEntry, List.mem_append, List.mem_singleton]
    rcases Nat.lt_succ_iff_lt_or_eq.mp new with old | rfl
    · exact .inl (linked running e old)
    · exact .inr rfl
  case retire pos n stmt rest at_ =>
    have keeps := ok.inv.entries.not_listDel at_
    simpa [execStmt, keeps] using linked
  case unlink at_ =>
    have stopped := ok.inv.phase.unlinking (by simp [at_, ThreadPc.unlinking])
    simp [execStmt, stopped]
  case mainControl control => cases control <;> simp_all [MainPc.stopped]
  all_goals simp_all [MainPc.stopped, acceptDesc]

theorem alive_step (ok : Alive cfg s) (taken : okStep cfg s a = some t) : Alive cfg t := by
  obtain ⟨succeeds, taken⟩ := okStep_eq_some.mp taken
  have move := move_of_step taken
  exact {
    inv := inv_step ok.inv taken
    clean := clean_step ok.inv ok.clean succeeds move
    wakeup := ok.wakeup_step move
    seen := ok.seen_step move
    linked := ok.linked_step move }

inductive Blocked (cfg : Config) (s : State) : Prop
  | pool (r k : Nat) (rest : List (Nat × Nat)) : s.main = .visit → s.todo = (r, k) :: rest →
      (∀ j < cfg.numDescs k, s.holder (k, j) ≠ none) → Blocked cfg s
  | wakeup : s.main = .waitWakeup → s.threadWakeup = false → Blocked cfg s
  | completion : s.main = .waitCompletion → s.completionStatus = 0 → Blocked cfg s

theorem can_dsaCopy (ok : Alive cfg s) (going : s.main ≠ .done) (free : ¬ Blocked cfg s) :
    Can (okStep cfg) Action.party .dsaCopy s := by
  have main (taken : (mainStep cfg s .main).isSome) : Can (okStep cfg) Action.party .dsaCopy s := by
    obtain ⟨t, taken⟩ := Option.isSome_iff_exists.mp taken
    exact ⟨.main, t, rfl, okStep_eq_some.mpr ⟨rfl, taken⟩⟩
  cases at_ : s.main with
  | visit =>
    cases left : s.todo with
    | nil => exact main (by simp [mainStep, at_, left])
    | cons p rest =>
      obtain ⟨r, k⟩ := p
      have some_ : ∃ j < cfg.numDescs k, s.holder (k, j) = none := by
        by_contra full
        push Not at full
        exact free (.pool r k rest at_ left full)
      obtain ⟨j, inPool, available⟩ := some_
      have taken : (allocDesc cfg s k j).isSome := by simp [allocDesc, inPool, available]
      obtain ⟨t, taken⟩ := Option.isSome_iff_exists.mp taken
      exact ⟨.allocDesc j, t, rfl, okStep_eq_some.mpr ⟨rfl, by simp [step, mainStep, at_, left, taken]⟩⟩
  | append => exact main (by simp [mainStep, at_])
  | submit e =>
    have last := (ok.inv.phase.submitting e at_).1
    obtain ⟨d, desc⟩ := Option.ne_none_iff_exists'.mp (ok.clean.descs e (by omega))
    exact main (by simp [mainStep, at_, desc])
  | testExecution => exact main (by simp only [mainStep, at_]; split <;> rfl)
  | setExecution | wakeUp | clearExecution => exact main (by simp [mainStep, at_])
  | waitWakeup =>
    have woken : s.threadWakeup = true := by
      rw [← Bool.not_eq_false]
      exact fun idle => free (.wakeup at_ idle)
    exact main (by simp [mainStep, at_, woken])
  | waitCompletion =>
    have written : s.completionStatus ≠ 0 := fun unset => free (.completion at_ unset)
    exact main (by simp [mainStep, at_, written])
  | done => exact absurd at_ going
  | oops => exact absurd at_ ok.clean.main

theorem Blocked.not_dsaCopy (blocked : Blocked cfg s) (succeeds : a.fails = false)
    (move : Move cfg s a t) : a.party ≠ .dsaCopy := by
  intro mine
  cases move
  case alloc r k rest index at_ left inPool available =>
    cases blocked with
    | pool r' k' rest' _ left' full =>
      rw [left', List.cons.injEq, Prod.mk.injEq] at left
      obtain ⟨⟨rfl, rfl⟩, rfl⟩ := left
      exact full index inPool available
    | wakeup at_' | completion at_' => simp [at_'] at at_
  case createNull | createOops | reject => simp [Action.fails] at succeeds
  case mainControl control => cases blocked <;> cases control <;> simp_all
  case append | submitNull | accept | setExecution | clearExecution => cases blocked <;> simp_all
  all_goals simp [Action.party] at mine

theorem Blocked.of_step (blocked : Blocked cfg t) (other : a.party ≠ .dsaCopy)
    (ok : Alive cfg s) (move : Move cfg s a t) : Blocked cfg s := by
  cases move
  case retire pos n stmt rest at_ | unlink pos n stmt rest at_ =>
    cases blocked with
    | pool r k rest main left full =>
      refine .pool r k rest main left fun j inPool available => full j inPool ?_
      simp only [execStmt]
      split
      · rcases release_cases s pos (k, j) with same | freed
        · exact same.trans available
        · exact freed
      · exact available
    | wakeup main idle => exact .wakeup main idle
    | completion main unset => exact .completion main unset
  case clearWakeup at_ =>
    have stopped := (ok.inv.phase.empty (by simp [at_, ThreadPc.finished])).1
    cases blocked with
    | pool r k rest main left full => exact .pool r k rest main left full
    | wakeup main => simp [show s.main = .waitWakeup from main, MainPc.stopped] at stopped
    | completion main unset => exact .completion main unset
  case setWakeup =>
    cases blocked with
    | pool r k rest main left full => exact .pool r k rest main left full
    | wakeup main idle => simp at idle
    | completion main unset => exact .completion main unset
  case setStatus =>
    cases blocked with
    | pool r k rest main left full => exact .pool r k rest main left full
    | wakeup main idle => exact .wakeup main idle
    | completion main unset => exact absurd unset (verdict_ne_zero _)
  case threadControl | answer =>
    cases blocked with
    | pool r k rest main left full => exact .pool r k rest main left full
    | wakeup main idle => exact .wakeup main idle
    | completion main unset => exact .completion main unset
  all_goals simp [Action.party] at other

def MainPc.ahead : MainPc → Nat
  | .append _ _ _ => 9
  | .submit _ => 8
  | .testExecution => 7
  | .setExecution => 6
  | .wakeUp => 5
  | .visit => 4
  | .waitWakeup => 3
  | .clearExecution => 2
  | .waitCompletion => 1
  | .done | .oops => 0

def State.ahead (s : State) : Nat := 8 * s.todo.length + s.main.ahead

def ThreadPc.phase : ThreadPc → Nat
  | .waitExecution => 2
  | .setWakeup => 1
  | _ => 0

@[simp] theorem advanceTo_phase (l : List Nat) (n : Option Nat) :
    (advanceTo l n).phase = 0 := by cases n <;> rfl

/-- The answers and statements that the queued entries may still see. -/
def State.work (s : State) : Nat :=
  ∑ e ∈ Finset.range s.count, (18 - (s.entry e).trace.length)

theorem EntriesOk.trace_length (ok : EntriesOk cfg s) {e : Nat} (old : e < s.count) :
    (s.entry e).trace.length ≤ 18 := by
  have short (status : Nat) :
      (branchOf cfg.variant (s.entry e).batchInfo status).length < 16 := by
    unfold branchOf
    split
    · exact (branch_length _ _).1
    · exact (branch_length _ _).2
  cases ok.entries e old with
  | missing _ trace => simp [trace]
  | waiting _ _ _ waiting => simp [waiting.trace]
  | answered d status done _ _ answered =>
    have bound := short status
    have length : done.length ≤ 17 := by
      by_cases working : s.thread.worksOn = some e
      · have progress := answered.progress
        rw [Progress, if_pos working] at progress
        have lengths := congrArg List.length progress
        simp only [List.length_append] at lengths
        have tail : (if s.thread.unlinking then unlinkBranch else []).length ≤ 2 := by
          split <;> simp [unlinkBranch]
        omega
      · rcases answered.settled working with rfl | rfl | rfl
        · simp
        · omega
        · simp only [List.length_append, unlinkBranch, List.length_cons, List.length_nil]
          omega
    simp only [answered.trace, List.length_cons, List.length_map]
    omega

theorem work_lt (count : t.count = s.count)
    (grown : ∀ i, (s.entry i).trace.length ≤ (t.entry i).trace.length) {e : Nat}
    (old : e < s.count) (longer : (s.entry e).trace.length < (t.entry e).trace.length)
    (bound : (t.entry e).trace.length ≤ 18) : t.work < s.work := by
  unfold State.work
  rw [count]
  apply Finset.sum_lt_sum
  · intro i _
    have := grown i
    omega
  · exact ⟨e, Finset.mem_range.mpr old, by omega⟩

theorem length_modifyAt (f : Nat → Entry) (e i : Nat) {g : Entry → Entry}
    (grows : ∀ v, (g v).trace.length = v.trace.length + 1) :
    (f i).trace.length ≤ (modifyAt f e g i).trace.length := by
  by_cases here : i = e
  · subst here
    simp [grows]
  · rw [modifyAt_ne f g here]

theorem work_exec (ok : Alive cfg s) (ok' : Alive cfg t) {pos : Nat} (stmt : Stmt)
    (current : s.thread.current = some pos) (count : t.count = s.count)
    (entry : t.entry = (execStmt s pos stmt).entry) : t.work < s.work := by
  have old := (ok.inv.entries.here pos current).1
  have longer : (s.entry pos).trace.length < (t.entry pos).trace.length := by
    simp [entry, execStmt]
  refine work_lt count ?_ old longer (ok'.inv.entries.trace_length (count ▸ old))
  intro i
  rw [entry]
  exact length_modifyAt _ _ _ (by simp)

/-- A step of the thread or of a device either does some of the work, or is a step of the
thread that leaves all entries as they are. -/
theorem work_step (ok : Alive cfg s) (ok' : Alive cfg t) (other : a.party ≠ .dsaCopy)
    (move : Move cfg s a t) :
    t.work + t.thread.phase < s.work + s.thread.phase ∨
      a = .thread ∧ t.entry = s.entry ∧ t.work + t.thread.phase = s.work + s.thread.phase := by
  have same (pc : ThreadPc) (wakeup : Bool) (status : Nat) :
      State.work { s with thread := pc, threadWakeup := wakeup, completionStatus := status } =
        s.work := rfl
  cases move
  case retire pos n stmt rest at_ =>
    have less := work_exec ok ok' stmt (by simp [at_, ThreadPc.current]) rfl rfl
    simp only [at_, ThreadPc.phase]
    exact .inl (by omega)
  case unlink pos n stmt rest at_ =>
    have less := work_exec ok ok' stmt (by simp [at_, ThreadPc.current]) rfl rfl
    simp only [at_, ThreadPc.phase]
    exact .inl (by omega)
  case answer d status busy final =>
    obtain ⟨e, old, desc, untouched, _⟩ := ok.inv.entries.sent d busy
    have held := (ok.inv.entries.waiting_of old desc (.inr untouched)).2.held
    have entry : answered s d status =
        modifyAt s.entry e fun v => { v with trace := v.trace ++ [.written status] } := by
      simp [answered, held]
    have longer : (s.entry e).trace.length < (answered s d status e).trace.length := by
      simp [entry]
    left
    apply Nat.add_lt_add_right
    refine work_lt rfl ?_ old longer (ok'.inv.entries.trace_length old)
    intro i
    simp only [entry]
    exact length_modifyAt _ _ _ (by simp)
  case setWakeup at_ =>
    left
    simp only [at_, ThreadPc.phase, same]
    omega
  case setStatus at_ | clearWakeup at_ =>
    right
    simp [at_, ThreadPc.phase, State.work]
  case threadControl control =>
    cases control
    case wake at_ _ =>
      left
      simp [at_, ThreadPc.phase, State.work]
    case scan at_ | advance at_ =>
      refine .inr ⟨rfl, rfl, ?_⟩
      rw [advanceTo_phase, at_]
      rfl
    all_goals
      right
      simp_all [ThreadPc.phase, State.work]
  all_goals simp [Action.party] at other

end DsaTest.Protocol
