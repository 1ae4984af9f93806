import DsaTest.Retry
import DsaTest.Lib.Machine

/-! `dsa_copy` of `kernel_test_basecodes.c`: one descriptor, submitted again after each page
fault, and the device that answers each submission once. The return value of
`idxd_submit_desc` is ignored there; every submission is accepted here. -/
namespace DsaTest.Basecodes

open SingleDevice (dsaCompSuccess pollRetryMax)

inductive Pc
  | submit
  | poll
  | limitTest
  | testSuccess
  | testFault
  | touch
  | advance (f : Field)
  | done
  deriving DecidableEq, Repr

/-- How the device answers. In `success` it may leave any byte count in the record. -/
inductive Response
  | success (bytes : Nat)
  | pageFault (write : Bool) (bytes faultAddr : Nat)
  deriving DecidableEq, Repr

def Response.bytes : Response → Nat
  | .success bytes | .pageFault _ bytes _ => bytes

def Response.record : Response → CompletionRecord
  | .success bytes => ⟨dsaCompSuccess, bytes, 0⟩
  | .pageFault write bytes faultAddr => ⟨faultStatus write, bytes, faultAddr⟩

/-- The last four fields are ghost: the submissions still with the device and the answers
that it has given, with their numbers and their bytes, the number of the last answer, and
the answers that each field of the descriptor has been moved on by. -/
structure State where
  pc : Pc
  hw : Memmove
  completion : CompletionRecord
  poll : Nat
  fault : Nat
  submissions : Nat
  inFlight : List (Nat × Nat)
  answers : List (Nat × Nat)
  writer : Nat
  consumed : Field → List (Nat × Nat)

inductive Action
  | cpu
  | answer (no : Nat) (r : Response)
  deriving DecidableEq, Repr

def faultRetryMax : Nat := 10000

/-- `__get_desc` has cleared the completion record. -/
def initial (b : Buffers) : State where
  pc := .submit
  hw := b.rest 0
  completion := ⟨0, 0, 0⟩
  poll := 0
  fault := 0
  submissions := 0
  inFlight := []
  answers := []
  writer := 0
  consumed := fun _ => []

def afterField : Field → Pc
  | .srcAddr => .advance .dstAddr
  | .dstAddr => .advance .xferSize
  | .xferSize => .submit

def submit (s : State) : State :=
  { s with
    pc := .poll
    submissions := s.submissions + 1
    inFlight := s.inFlight ++ [(s.submissions, s.hw.xferSize)] }

def advance (s : State) (f : Field) : State :=
  { s with
    pc := afterField f
    hw := s.hw.move s.completion.bytesCompleted f
    consumed := Function.update s.consumed f
      (s.consumed f ++ [(s.writer, s.completion.bytesCompleted)]) }

/-- One step of `dsa_copy` from `retry` on. The page that has faulted is touched without
an effect on the copy. -/
def cpuStep (s : State) : Option State :=
  match s.pc with
  | .submit => some (submit s)
  | .poll =>
    if s.completion.status ≠ 0 then some { s with pc := .limitTest }
    else if s.poll < pollRetryMax then some { s with poll := s.poll + 1 }
    else some { s with pc := .limitTest, poll := s.poll + 1 }
  | .limitTest =>
    if s.poll ≥ pollRetryMax ∨ s.fault ≥ faultRetryMax then some { s with pc := .done }
    else some { s with pc := .testSuccess }
  | .testSuccess =>
    if s.completion.status ≠ dsaCompSuccess then
      some { s with pc := .testFault, fault := s.fault + 1 }
    else some { s with pc := .done }
  | .testFault =>
    if dsaCompStatus s.completion.status = dsaCompPageFaultNobof then some { s with pc := .touch }
    else some { s with pc := .done }
  | .touch => some { s with pc := .advance .srcAddr }
  | .advance f => some (advance s f)
  | .done => none

/-- The device answers a submission that it still has, with no more bytes than it has
been given. -/
def answerStep (s : State) (no : Nat) (r : Response) : Option State :=
  match s.inFlight.find? (·.1 = no) with
  | none => none
  | some (_, size) =>
    if r.bytes ≤ size then
      some { s with
        completion := r.record
        inFlight := s.inFlight.filter (·.1 ≠ no)
        answers := s.answers ++ [(no, r.bytes)]
        writer := no }
    else none

def step (s : State) : Action → Option State
  | .cpu => cpuStep s
  | .answer no r => answerStep s no r

abbrev Run (b : Buffers) (h : List (State × Action)) (s : State) : Prop :=
  Machine.Run step (initial b) h s

def total (answers : List (Nat × Nat)) : Nat := (answers.map Prod.snd).sum

/-- The descriptor has moved on by what has been answered, each answer counted once. -/
structure Accounted (b : Buffers) (s : State) : Prop where
  src : s.hw.srcAddr = b.src + total s.answers
  dst : s.hw.dstAddr = b.dst + total s.answers
  size : s.hw.xferSize + total s.answers = b.length
  once : ∀ f, s.consumed f = s.answers

def NoStale (h : List (State × Action)) : Prop :=
  ∀ p ∈ h, p.2 = .cpu → ∀ f, p.1.pc = .advance f → p.1.inFlight = []

/-- The fields that the fault branch has moved on by the last answer. -/
def Pc.passed : Pc → Field → Bool
  | .advance f, g => g.before f
  | _, _ => false

variable {b : Buffers} {s t : State} {a : Action} {h : List (State × Action)}

/-- What the numbers of the submissions say in every run. -/
structure Numbered (s : State) : Prop where
  nodup : ((s.answers ++ s.inFlight).map Prod.fst).Nodup
  below : ∀ p ∈ s.answers ++ s.inFlight, p.1 < s.submissions
  last : s.completion.status ≠ 0 → (s.writer, s.completion.bytesCompleted) ∈ s.answers
  faulted : ∀ f, s.pc = .advance f → s.completion.status ≠ 0
  touched : s.pc = .touch → s.completion.status ≠ 0

theorem record_status (r : Response) : r.record.status ≠ 0 := by
  cases r with
  | success => exact Nat.one_ne_zero
  | pageFault write => exact (faultStatus_spec write).1

theorem record_bytes (r : Response) : r.record.bytesCompleted = r.bytes := by
  cases r <;> rfl

structure Control (s : State) (pc : Pc) : Prop where
  origin : s.pc ≠ .submit ∧ ∀ f, s.pc ≠ .advance f
  notSubmit : pc ≠ .submit
  advance : ∀ f, pc = .advance f → f = .srcAddr ∧ s.pc = .touch
  touch : pc = .touch → s.completion.status ≠ 0

inductive Move (s : State) : Action → State → Prop
  | control {pc poll fault} : Control s pc →
      Move s .cpu { s with pc := pc, poll := poll, fault := fault }
  | submit : s.pc = .submit → Move s .cpu (submit s)
  | advance {f} : s.pc = .advance f → Move s .cpu (advance s f)
  | answer {no size r} : (no, size) ∈ s.inFlight → r.bytes ≤ size →
      Move s (.answer no r) { s with
        completion := r.record
        inFlight := s.inFlight.filter (·.1 ≠ no)
        answers := s.answers ++ [(no, r.bytes)]
        writer := no }

theorem control_of (here : s.pc ≠ .submit ∧ ∀ f, s.pc ≠ .advance f) {pc : Pc}
    (there : pc ≠ .submit ∧ pc ≠ .touch ∧ ∀ f, pc ≠ .advance f) : Control s pc where
  origin := here
  notSubmit := there.1
  advance f same := absurd same (there.2.2 f)
  touch same := absurd same there.2.1

theorem move_of_cpuStep (taken : cpuStep s = some t) : Move s .cpu t := by
  unfold cpuStep at taken
  split at taken
  next at_ =>
    cases taken
    exact .submit at_
  next at_ =>
    have here : Control s .limitTest := control_of (by simp [at_]) (by simp)
    split at taken
    next =>
      cases taken
      exact .control here
    next =>
      split at taken
      next =>
        cases taken
        exact .control (control_of (by simp [at_]) (by simp [at_]))
      next =>
        cases taken
        exact .control here
  next at_ =>
    split at taken
    next =>
      cases taken
      exact .control (control_of (by simp [at_]) (by simp))
    next =>
      cases taken
      exact .control (control_of (by simp [at_]) (by simp))
  next at_ =>
    split at taken
    next =>
      cases taken
      exact .control (control_of (by simp [at_]) (by simp))
    next =>
      cases taken
      exact .control (control_of (by simp [at_]) (by simp))
  next at_ =>
    split at taken
    next fault =>
      cases taken
      have some : s.completion.status ≠ 0 := by
        intro zero
        rw [zero] at fault
        contradiction
      exact .control ⟨by simp [at_], by simp, by simp, fun _ => some⟩
    next =>
      cases taken
      exact .control (control_of (by simp [at_]) (by simp))
  next at_ =>
    cases taken
    exact .control ⟨by simp [at_], by simp, fun f same => ⟨by simpa using same.symm, at_⟩, by simp⟩
  next f at_ =>
    cases taken
    exact .advance at_
  next => contradiction

theorem move_of_step (taken : step s a = some t) : Move s a t := by
  cases a with
  | cpu => exact move_of_cpuStep taken
  | answer no r =>
    simp only [step, answerStep] at taken
    split at taken
    next => contradiction
    next no' size found =>
      have number : no' = no := by simpa using List.find?_some found
      subst number
      split at taken
      next inside =>
        cases taken
        exact .answer (List.mem_of_find?_eq_some found) inside
      next => contradiction

theorem numbered_initial : Numbered (initial b) where
  nodup := by simp [initial]
  below := by simp [initial]
  last := by simp [initial]
  faulted := by simp [initial]
  touched := by simp [initial]

theorem Numbered.submit (ok : Numbered s) : Numbered (submit s) where
  nodup := by
    have fresh : s.submissions ∉ (s.answers ++ s.inFlight).map Prod.fst := by
      intro inside
      have ⟨p, member, same⟩ := List.mem_map.mp inside
      have below := ok.below p member
      omega
    simp only [Basecodes.submit]
    rw [← List.append_assoc, List.map_append, List.nodup_append]
    refine ⟨ok.nodup, List.nodup_singleton _, ?_⟩
    intro no inside no' new same
    have number : no' = s.submissions := by simpa using new
    rw [same, number] at inside
    exact fresh inside
  below := by
    intro p inside
    simp only [Basecodes.submit] at inside ⊢
    rw [← List.append_assoc, List.mem_append, List.mem_singleton] at inside
    cases inside with
    | inl old => exact Nat.lt_succ_of_lt (ok.below p old)
    | inr new =>
      rw [new]
      exact Nat.lt_succ_self _
  last := ok.last
  faulted := by simp [Basecodes.submit]
  touched := by simp [Basecodes.submit]

theorem Numbered.answer {no size : Nat} {r : Response} (ok : Numbered s)
    (inside : (no, size) ∈ s.inFlight) : Numbered { s with
      completion := r.record
      inFlight := s.inFlight.filter (·.1 ≠ no)
      answers := s.answers ++ [(no, r.bytes)]
      writer := no } where
  nodup := by
    have nodup := ok.nodup
    rw [List.map_append, List.nodup_append] at nodup
    have ⟨old, flying, apart⟩ := nodup
    have number : no ∈ s.inFlight.map Prod.fst := List.mem_map_of_mem inside
    have rest : ((s.inFlight.filter (·.1 ≠ no)).map Prod.fst).Sublist (s.inFlight.map Prod.fst) :=
      List.filter_sublist.map _
    have gone : no ∉ (s.inFlight.filter (·.1 ≠ no)).map Prod.fst := by simp
    simp only
    rw [List.append_assoc, List.map_append, List.map_append, List.nodup_append]
    refine ⟨old, ?_, ?_⟩
    · exact List.nodup_cons.mpr ⟨gone, flying.sublist rest⟩
    · intro i inside' j after
      cases after with
      | head => exact apart i inside' no number
      | tail _ later => exact apart i inside' j (rest.mem later)
  below := by
    intro p member
    simp only [List.mem_append, List.mem_singleton, List.mem_filter] at member
    cases member with
    | inl before =>
      cases before with
      | inl old => exact ok.below p (List.mem_append_left _ old)
      | inr new =>
        rw [new]
        exact ok.below (no, size) (List.mem_append_right _ inside)
    | inr flying => exact ok.below p (List.mem_append_right _ flying.1)
  last := by
    intro _
    rw [record_bytes]
    exact List.mem_append_right _ (List.mem_singleton_self _)
  faulted := fun _ _ => record_status r
  touched := fun _ => record_status r

theorem numbered_step (ok : Numbered s) (taken : step s a = some t) : Numbered t := by
  cases move_of_step taken with
  | control here =>
    exact
      { nodup := ok.nodup
        below := ok.below
        last := ok.last
        faulted := fun f at_ => ok.touched (here.advance f at_).2
        touched := here.touch }
  | submit => exact ok.submit
  | @advance f at_ =>
    have some := ok.faulted f at_
    exact
      { nodup := ok.nodup
        below := ok.below
        last := ok.last
        faulted := fun _ _ => some
        touched := fun _ => some }
  | answer inside => exact ok.answer inside

theorem numbered_of_run (run : Run b h s) : Numbered s :=
  run.invariant numbered_initial fun _ _ _ => numbered_step

/-- Where a run without a stale read is: before a submission, with all answers counted;
waiting for the only submission; or with its answer, by which some fields have been moved. -/
inductive Stage (b : Buffers) (s : State) : Prop
  | submitting : s.pc = .submit → s.inFlight = [] → (∀ f, s.consumed f = s.answers) → Stage b s
  | waiting (no size : Nat) : s.pc ≠ .submit → (∀ f, s.pc.passed f = false) →
      s.inFlight = [(no, size)] → size + total s.answers = b.length →
      (∀ f, s.consumed f = s.answers) → Stage b s
  | answered (old : List (Nat × Nat)) : s.pc ≠ .submit → s.inFlight = [] →
      s.answers = old ++ [(s.writer, s.completion.bytesCompleted)] →
      (∀ f, s.consumed f = if s.pc.passed f then s.answers else old) → Stage b s

structure Good (b : Buffers) (s : State) : Prop where
  stage : Stage b s
  bound : total s.answers ≤ b.length
  fields : ∀ f, s.hw.get f = (b.rest (total (s.consumed f))).get f

theorem good_initial : Good b (initial b) where
  stage := .submitting rfl rfl fun _ => rfl
  bound := Nat.zero_le _
  fields _ := rfl

theorem total_append (answers : List (Nat × Nat)) (no bytes : Nat) :
    total (answers ++ [(no, bytes)]) = total answers + bytes := by
  simp [total]

theorem Control.passed {pc : Pc} (control : Control s pc) (f : Field) :
    s.pc.passed f = false ∧ pc.passed f = false := by
  have here : s.pc.passed f = false := by
    cases at_ : s.pc with
    | advance g => exact absurd at_ (control.origin.2 g)
    | _ => rfl
  refine ⟨here, ?_⟩
  cases at_ : pc with
  | advance g =>
    have ⟨first, _⟩ := control.advance g at_
    rw [first]
    exact f.not_before_first
  | _ => rfl

theorem passed_afterField (f g : Field) (more : f ≠ .xferSize) :
    (afterField f).passed g = (decide (g = f) || (Pc.advance f).passed g) := by
  cases f <;> cases g <;> first | rfl | contradiction

theorem Good.control {pc : Pc} {poll fault : Nat} (ok : Good b s) (here : Control s pc) :
    Good b { s with pc := pc, poll := poll, fault := fault } := by
  refine ⟨?_, ok.bound, ok.fields⟩
  cases ok.stage with
  | submitting at_ => exact absurd at_ here.origin.1
  | waiting no size _ _ flying rest consumed =>
    exact .waiting no size here.notSubmit (fun f => (here.passed f).2) flying rest consumed
  | answered old _ idle last consumed =>
    refine .answered old here.notSubmit idle last ?_
    intro f
    have before := consumed f
    rw [(here.passed f).1] at before
    rw [(here.passed f).2]
    exact before

theorem Good.submit (ok : Good b s) (at_ : s.pc = .submit) : Good b (submit s) := by
  refine ⟨?_, ok.bound, ok.fields⟩
  cases ok.stage with
  | submitting _ idle consumed =>
    have size : s.hw.xferSize + total s.answers = b.length := by
      have here : s.hw.xferSize = b.length - total (s.consumed .xferSize) := ok.fields .xferSize
      have bound := ok.bound
      rw [consumed] at here
      omega
    refine .waiting s.submissions s.hw.xferSize (by simp [Basecodes.submit]) (fun _ => rfl) ?_ size
      consumed
    simp [Basecodes.submit, idle]
  | waiting _ _ other => exact absurd at_ other
  | answered _ other => exact absurd at_ other

theorem Good.advance {f : Field} (ok : Good b s) (at_ : s.pc = .advance f) (idle : s.inFlight = []) :
    Good b (advance s f) := by
  cases ok.stage with
  | submitting other => simp [at_] at other
  | waiting _ _ _ _ flying => simp [idle] at flying
  | answered old _ _ last consumed =>
    have here : s.consumed f = old := by
      rw [consumed, at_]
      simp [Pc.passed, f.not_before_self]
    have now : (Basecodes.advance s f).consumed f = s.answers := by
      simp [Basecodes.advance, here, last]
    have others {g : Field} (other : g ≠ f) :
        (Basecodes.advance s f).consumed g = s.consumed g := by
      simp [Basecodes.advance, other]
    refine ⟨?_, ok.bound, ?_⟩
    · by_cases final : f = .xferSize
      · refine .submitting (by simp [Basecodes.advance, final, afterField]) idle ?_
        intro g
        by_cases same : g = f
        · rw [same, now]
          rfl
        · rw [others same, consumed, at_, final]
          rw [final] at same
          have passed : (Pc.advance .xferSize).passed g = true := g.before_last.resolve_left same
          rw [passed]
          rfl
      · refine .answered old ?_ idle last ?_
        · cases f <;> simp [Basecodes.advance, afterField] at final ⊢
        · intro g
          have passed := passed_afterField f g final
          by_cases same : g = f
          · rw [same, now]
            rw [same] at passed
            simp [Basecodes.advance, passed]
          · rw [others same, consumed, at_]
            simp [Basecodes.advance, passed, same]
    · intro g
      by_cases same : g = f
      · have bytes : total old + s.completion.bytesCompleted = total s.answers := by
          rw [last, total_append]
        have before := ok.fields f
        have bound := ok.bound
        rw [here] at before
        rw [same, now, ← bytes]
        exact b.get_move before (by omega)
      · rw [others same]
        exact (s.hw.get_move_other _ same).trans (ok.fields g)

theorem Good.answer {no size : Nat} {r : Response} (ok : Good b s)
    (inside : (no, size) ∈ s.inFlight) (bytes : r.bytes ≤ size) : Good b { s with
      completion := r.record
      inFlight := s.inFlight.filter (·.1 ≠ no)
      answers := s.answers ++ [(no, r.bytes)]
      writer := no } := by
  cases ok.stage with
  | submitting _ idle => simp [idle] at inside
  | answered _ _ idle => simp [idle] at inside
  | waiting no' size' other passed flying rest consumed =>
    rw [flying, List.mem_singleton, Prod.mk.injEq] at inside
    have ⟨number, given⟩ := inside
    subst number given
    refine ⟨.answered s.answers other ?_ ?_ ?_, ?_, ok.fields⟩
    · simp [flying]
    · simp [record_bytes]
    · intro f
      rw [passed]
      exact consumed f
    · simp only [total_append]
      omega

theorem good_step (ok : Good b s)
    (fresh : a = .cpu → ∀ f, s.pc = .advance f → s.inFlight = []) (taken : step s a = some t) :
    Good b t := by
  cases move_of_step taken with
  | control here => exact ok.control here
  | submit at_ => exact ok.submit at_
  | @advance f at_ => exact ok.advance at_ (fresh rfl f at_)
  | answer inside bytes => exact ok.answer inside bytes

theorem good_of_run (run : Run b h s) (fresh : NoStale h) : Good b s :=
  run.invariant_of_steps good_initial (fun _ _ _ => good_step) fresh

def CountedTwice (s : State) : Prop := ∃ f, ¬ (s.consumed f).Nodup

theorem countedTwice_step (twice : CountedTwice s) (taken : step s a = some t) : CountedTwice t := by
  have ⟨f, again⟩ := twice
  refine ⟨f, ?_⟩
  cases move_of_step taken with
  | @advance g at_ =>
    intro nodup
    apply again
    by_cases same : f = g
    · subst same
      simp only [advance, Function.update_self] at nodup
      exact nodup.of_append_left
    · simpa [advance, same] using nodup
  | _ => exact again

theorem countedTwice_of_run (run : Run b h s) (stale : ¬ NoStale h) : CountedTwice s := by
  induction run with
  | start => exact absurd (by simp [NoStale]) stale
  | @next h s a t before taken ih =>
    by_cases fresh : NoStale h
    · unfold NoStale at stale fresh
      rw [List.forall_mem_cons] at stale
      have late : ∃ f, a = .cpu ∧ s.pc = .advance f ∧ s.inFlight ≠ [] := by
        by_contra none
        apply stale
        refine ⟨?_, fresh⟩
        intro cpu f at_
        by_contra flying
        exact none ⟨f, cpu, at_, flying⟩
      have ⟨f, cpu, at_, flying⟩ := late
      subst cpu
      have numbered := numbered_of_run before
      refine ⟨f, ?_⟩
      simp only [step, cpuStep, at_] at taken
      cases taken
      cases (good_of_run before fresh).stage with
      | submitting other => simp [at_] at other
      | answered _ _ idle => exact absurd idle flying
      | waiting _ _ _ _ _ _ consumed =>
        have counted := numbered.last (numbered.faulted f at_)
        rw [← consumed f] at counted
        intro nodup
        simp only [advance, Function.update_self] at nodup
        have ⟨_, _, apart⟩ := List.nodup_append.mp nodup
        exact apart _ counted _ (List.mem_singleton_self _) rfl
    · exact countedTwice_step (ih fresh) taken

/-- At a submission the descriptor has moved on by the answers so far, each counted once,
exactly where no answer has been read while a submission was unanswered. -/
theorem accounted_iff (run : Run b h s) (at_ : s.pc = .submit) : Accounted b s ↔ NoStale h := by
  constructor
  · intro accounted
    by_contra stale
    have ⟨f, again⟩ := countedTwice_of_run run stale
    apply again
    rw [accounted.once f]
    have numbers := (numbered_of_run run).nodup
    rw [List.map_append] at numbers
    exact numbers.of_append_left.of_map _
  · intro fresh
    have good := good_of_run run fresh
    cases good.stage with
    | waiting _ _ other => exact absurd at_ other
    | answered _ other => exact absurd at_ other
    | submitting _ _ consumed =>
      have fields := good.fields
      have bound := good.bound
      simp only [consumed] at fields
      exact
        { src := fields .srcAddr
          dst := fields .dstAddr
          size := by
            have size : s.hw.xferSize = b.length - total s.answers := fields .xferSize
            omega
          once := consumed }

/-- `PAGE_SIZE * int_pow(2, PAGE_ORDER)` bytes. -/
def pages : Buffers := ⟨0x100000, 0x300000, 4096 * 2 ^ 8, by decide, by decide, by decide⟩

/-- A page fault that is there at the first look, and the fault branch. -/
def faultActions : List Action :=
  [.cpu, .answer 0 (.pageFault true 700000 0x3aae60)] ++ List.replicate 8 .cpu

theorem accounted_fault : ∃ h s, Run pages h s ∧ s.hw = pages.rest 700000 ∧ NoStale h := by
  have reached : (Machine.exec step faultActions (initial pages)).map (fun s =>
      (s.pc, s.hw, s.answers, [Field.srcAddr, .dstAddr, .xferSize].all (s.consumed · = s.answers))) =
      some (.submit, pages.rest 700000, [(0, 700000)], true) := by decide +kernel
  have ⟨s, result, shape⟩ := Option.map_eq_some_iff.mp reached
  have ⟨h, run, _⟩ := Machine.run_of_exec result
  simp only [Prod.mk.injEq, List.all_eq_true, decide_eq_true_eq] at shape
  have ⟨at_, hw, answers, consumed⟩ := shape
  have accounted : Accounted pages s :=
    { src := by rw [hw, answers]; rfl
      dst := by rw [hw, answers]; rfl
      size := by rw [hw, answers]; rfl
      once := by
        intro f
        apply consumed
        cases f <;> decide }
  exact ⟨h, s, run, hw, (accounted_iff run at_).mp accounted⟩

/-- The status of the first fault is still there at the second look. -/
def staleActions : List Action := faultActions ++ List.replicate 9 .cpu

/-- The bytes of one page fault are added twice, and `xfer_size` wraps. -/
theorem unaccounted_stale : ¬ ∀ (b : Buffers) (h : List (State × Action)) (s : State),
    Run b h s → s.pc = .submit → Accounted b s := by
  intro claim
  have reached : (Machine.exec step staleActions (initial pages)).map (fun s =>
      (s.pc, s.hw.xferSize, s.answers)) =
      some (.submit, 2 ^ 32 - 351424, [(0, 700000)]) := by decide +kernel
  have ⟨s, result, shape⟩ := Option.map_eq_some_iff.mp reached
  have ⟨h, run, _⟩ := Machine.run_of_exec result
  simp only [Prod.mk.injEq] at shape
  have ⟨at_, size, answers⟩ := shape
  have whole := (claim pages h s run at_).size
  rw [size, answers] at whole
  contradiction

end DsaTest.Basecodes
