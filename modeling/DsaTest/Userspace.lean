import DsaTest.Retry
import DsaTest.Lib.Transfer
import DsaTest.Lib.Machine

/-! The copy loop of `memmove_userguide_ref.c` and `mmap_to_userspace_dsa_v.c`, from `retry`
on, against a device that writes the bytes it reports. -/
namespace DsaTest.Userspace

open SingleDevice (dsaCompSuccess)

/-- `ENQ_RETRY_MAX` and `POLL_RETRY_MAX` -/
structure RetryLimits where
  enqRetryMax : Nat
  pollRetryMax : Nat

def retryLimits : RetryLimits := ⟨1000, 10000⟩

structure CopyBuffers extends Buffers where
  apart : src + length ≤ dst ∨ dst + length ≤ src

inductive Exit
  | enqLimit
  | pollLimit
  | failed
  | successful
  deriving DecidableEq, Repr

inductive Pc
  | retry
  | enqcmd
  | enqTest
  | poll
  | pollTest
  | testSuccess
  | testFault
  | touch
  | advance (f : Field)
  | done (e : Exit)
  deriving DecidableEq, Repr

/-- How the device answers: all bytes are copied; a prefix is copied; or anything may have
happened to the memory. -/
inductive Answer
  | success (bytes : Nat)
  | pageFault (write : Bool) (bytes faultAddr : Nat)
  | error (comp : CompletionRecord) (mem : Nat → UInt8)

def Answer.comp : Answer → CompletionRecord
  | .success bytes => ⟨dsaCompSuccess, bytes, 0⟩
  | .pageFault write bytes faultAddr => ⟨faultStatus write, bytes, faultAddr⟩
  | .error comp _ => comp

def Answer.mem (mem : Nat → UInt8) (m : Memmove) : Answer → Nat → UInt8
  | .success _ => Transfer.effect mem m.copied
  | .pageFault _ bytes _ => Transfer.effect mem { m with xferSize := bytes }.copied
  | .error _ mem' => mem'

/-- The answers that the device may give to a memmove. -/
def Answer.Fits (m : Memmove) : Answer → Prop
  | .success _ => True
  | .pageFault _ bytes _ => bytes ≤ m.xferSize
  | .error comp _ => comp.status ≠ 0 ∧ comp.status ≠ dsaCompSuccess ∧
      dsaCompStatus comp.status ≠ dsaCompPageFaultNobof

instance (m : Memmove) (answer : Answer) : Decidable (answer.Fits m) :=
  match answer with
  | .success _ => inferInstanceAs (Decidable True)
  | .pageFault _ bytes _ => inferInstanceAs (Decidable (bytes ≤ m.xferSize))
  | .error comp _ => inferInstanceAs (Decidable (comp.status ≠ 0 ∧ comp.status ≠ dsaCompSuccess ∧
      dsaCompStatus comp.status ≠ dsaCompPageFaultNobof))

/-- `inFlight` has the descriptors that the device has accepted and not answered. -/
structure State where
  pc : Pc
  desc : Memmove
  comp : CompletionRecord
  enqRetry : Nat
  pollRetry : Nat
  mem : Nat → UInt8
  inFlight : List Memmove

inductive Action
  | cpu
  | enqcmd (accepted : Bool)
  | answer (i : Nat) (answer : Answer)

/-- The descriptor is filled in; `comp` is not. -/
def initial (b : CopyBuffers) (comp : CompletionRecord) (mem : Nat → UInt8) : State where
  pc := .retry
  desc := b.rest 0
  comp := comp
  enqRetry := 0
  pollRetry := 0
  mem := mem
  inFlight := []

def afterField : Field → Pc
  | .srcAddr => .advance .dstAddr
  | .dstAddr => .advance .xferSize
  | .xferSize => .retry

/-- `wr ? *t = *t : *t` -/
def touch (comp : CompletionRecord) (mem : Nat → UInt8) : Nat → UInt8 :=
  if dsaCompStatusWrite comp.status ≠ 0 then
    Function.update mem comp.faultAddr (mem comp.faultAddr)
  else mem

variable (limits : RetryLimits)

/-- `enqcmd(..) && enq_retry++ < ENQ_RETRY_MAX` -/
def enqcmdStep (accepted : Bool) (s : State) : Option State :=
  match s.pc with
  | .enqcmd =>
    if accepted then some { s with pc := .enqTest, inFlight := s.inFlight ++ [s.desc] }
    else if s.enqRetry < limits.enqRetryMax then some { s with enqRetry := s.enqRetry + 1 }
    else some { s with pc := .enqTest, enqRetry := s.enqRetry + 1 }
  | _ => none

/-- The steps of `main` other than `enqcmd`. -/
def cpuStep (s : State) : Option State :=
  match s.pc with
  | .retry => some { s with pc := .enqcmd, comp.status := 0, enqRetry := 0 }
  | .enqcmd => none
  | .enqTest =>
    if s.enqRetry = limits.enqRetryMax then some { s with pc := .done .enqLimit }
    else some { s with pc := .poll, pollRetry := 0 }
  | .poll =>
    if s.comp.status ≠ 0 then some { s with pc := .pollTest }
    else if s.pollRetry < limits.pollRetryMax then some { s with pollRetry := s.pollRetry + 1 }
    else some { s with pc := .pollTest, pollRetry := s.pollRetry + 1 }
  | .pollTest =>
    if s.pollRetry = limits.pollRetryMax then some { s with pc := .done .pollLimit }
    else some { s with pc := .testSuccess }
  | .testSuccess =>
    if s.comp.status ≠ dsaCompSuccess then some { s with pc := .testFault }
    else some { s with pc := .done .successful }
  | .testFault =>
    if dsaCompStatus s.comp.status = dsaCompPageFaultNobof then some { s with pc := .touch }
    else some { s with pc := .done .failed }
  | .touch => some { s with pc := .advance .srcAddr, mem := touch s.comp s.mem }
  | .advance f => some { s with pc := afterField f, desc := s.desc.move s.comp.bytesCompleted f }
  | .done _ => none

/-- The device answers one of the descriptors that it has. -/
def answerStep (s : State) (i : Nat) (answer : Answer) : Option State :=
  match s.inFlight[i]? with
  | none => none
  | some m =>
    if answer.Fits m then
      some { s with
        comp := answer.comp
        mem := answer.mem s.mem m
        inFlight := s.inFlight.eraseIdx i }
    else none

def step (s : State) : Action → Option State
  | .cpu => cpuStep limits s
  | .enqcmd accepted => enqcmdStep limits accepted s
  | .answer i answer => answerStep s i answer

abbrev Run (b : CopyBuffers) (comp : CompletionRecord) (mem : Nat → UInt8)
    (h : List (State × Action)) (s : State) : Prop :=
  Machine.Run (step limits) (initial b comp mem) h s

/-- A descriptor for what is left: both addresses have moved by the bytes that
`xfer_size` has lost. -/
structure InStep (b : Buffers) (m : Memmove) : Prop where
  size : m.xferSize ≤ b.length
  src : m.srcAddr = b.src + (b.length - m.xferSize)
  dst : m.dstAddr = b.dst + (b.length - m.xferSize)

/-- The fields that the fault branch has moved on by the last answer. -/
def Pc.passed : Pc → Field → Bool
  | .advance f, g => g.before f
  | _, _ => false

inductive Phase
  | before
  | waiting
  | fault
  | success
  deriving DecidableEq

def Pc.phase : Pc → Phase
  | .retry | .enqcmd => .before
  | .touch | .advance _ => .fault
  | .done .successful => .success
  | _ => .waiting

variable {limits} {b : CopyBuffers} {comp : CompletionRecord} {mem : Nat → UInt8}
  {s t : State} {a : Action} {h : List (State × Action)}

/-- The fault branch only reads the page and writes what it has read. -/
theorem touch_eq (comp : CompletionRecord) (mem : Nat → UInt8) : touch comp mem = mem := by
  unfold touch
  split
  next => exact Function.update_eq_self _ _
  next => rfl

inductive Control (s : State) : Pc → Prop
  | wait {pc} : s.pc.phase = .waiting → pc.phase = .waiting → Control s pc
  | fault : s.pc.phase = .waiting → dsaCompStatus s.comp.status = dsaCompPageFaultNobof →
      Control s .touch
  | touched : s.pc = .touch → Control s (.advance .srcAddr)
  | success : s.pc.phase = .waiting → s.comp.status = dsaCompSuccess →
      Control s (.done .successful)

inductive Move (s : State) : Action → State → Prop
  | retry : s.pc = .retry →
      Move s .cpu { s with pc := .enqcmd, comp.status := 0, enqRetry := 0 }
  | rejected {pc enqRetry} : s.pc = .enqcmd → pc = .enqcmd ∨ pc = .enqTest →
      Move s (.enqcmd false) { s with pc := pc, enqRetry := enqRetry }
  | accepted : s.pc = .enqcmd →
      Move s (.enqcmd true) { s with pc := .enqTest, inFlight := s.inFlight ++ [s.desc] }
  | control {pc pollRetry} : Control s pc → Move s .cpu { s with pc := pc, pollRetry := pollRetry }
  | advance {f} : s.pc = .advance f →
      Move s .cpu { s with pc := afterField f, desc := s.desc.move s.comp.bytesCompleted f }
  | answer {i m answer} : s.inFlight[i]? = some m → answer.Fits m →
      Move s (.answer i answer) { s with
        comp := answer.comp
        mem := answer.mem s.mem m
        inFlight := s.inFlight.eraseIdx i }

theorem move_of_cpuStep (taken : cpuStep limits s = some t) : Move s .cpu t := by
  have wait {at_ pc : Pc} {pollRetry : Nat} (here : s.pc = at_) (waiting : at_.phase = .waiting)
      (there : pc.phase = .waiting) : Move s .cpu { s with pc := pc, pollRetry := pollRetry } := by
    rw [← here] at waiting
    exact .control (.wait waiting there)
  unfold cpuStep at taken
  split at taken
  next at_ =>
    cases taken
    exact .retry at_
  next => contradiction
  next at_ =>
    split at taken
    next =>
      cases taken
      exact wait at_ rfl rfl
    next =>
      cases taken
      exact wait at_ rfl rfl
  next at_ =>
    split at taken
    next =>
      cases taken
      exact wait at_ rfl rfl
    next =>
      split at taken
      next =>
        cases taken
        exact .control (.wait (by rw [at_]; rfl) (by rw [at_]; rfl))
      next =>
        cases taken
        exact wait at_ rfl rfl
  next at_ =>
    split at taken
    next =>
      cases taken
      exact wait at_ rfl rfl
    next =>
      cases taken
      exact wait at_ rfl rfl
  next at_ =>
    split at taken
    next =>
      cases taken
      exact wait at_ rfl rfl
    next success =>
      cases taken
      exact .control (.success (by rw [at_]; rfl) (not_not.mp success))
  next at_ =>
    split at taken
    next fault =>
      cases taken
      exact .control (.fault (by rw [at_]; rfl) fault)
    next =>
      cases taken
      exact wait at_ rfl rfl
  next at_ =>
    cases taken
    rw [touch_eq]
    exact .control (.touched at_)
  next f at_ =>
    cases taken
    exact .advance at_
  next => contradiction

theorem move_of_step (taken : step limits s a = some t) : Move s a t := by
  cases a with
  | cpu => exact move_of_cpuStep taken
  | enqcmd accepted =>
    simp only [step, enqcmdStep] at taken
    split at taken
    next at_ =>
      cases accepted with
      | true =>
        cases taken
        exact .accepted at_
      | false =>
        simp only [Bool.false_eq_true, if_false] at taken
        split at taken
        next =>
          cases taken
          exact .rejected at_ (.inl at_)
        next =>
          cases taken
          exact .rejected at_ (.inr rfl)
    next => contradiction
  | answer i answer =>
    simp only [step, answerStep] at taken
    split at taken
    next => contradiction
    next m here =>
      split at taken
      next fits =>
        cases taken
        exact .answer here fits
      next => contradiction

/-- The source is as it was at the start, and so are the first `n` bytes of the copy. -/
structure Kept (b : CopyBuffers) (mem now : Nat → UInt8) (n : Nat) : Prop where
  source : ∀ i < b.length, now (b.src + i) = mem (b.src + i)
  copied : ∀ i < n, now (b.dst + i) = mem (b.src + i)

theorem copied_dests (m : Memmove) :
    m.copied.map Prod.snd = List.range' m.dstAddr m.xferSize := by
  apply List.map_snd_zip
  simp

theorem mem_copied (m : Memmove) {i : Nat} (inside : i < m.xferSize) :
    (m.srcAddr + i, m.dstAddr + i) ∈ m.copied := by
  rw [List.mem_iff_getElem]
  have here : i < m.copied.length := by simpa [Memmove.copied] using inside
  exact ⟨i, here, by simp [Memmove.copied]⟩

theorem Kept.longer {now : Nat → UInt8} {n : Nat} (kept : Kept b mem now n) {m : Memmove}
    (src : m.srcAddr = b.src + n) (dst : m.dstAddr = b.dst + n)
    (inside : n + m.xferSize ≤ b.length) :
    Kept b mem (Transfer.effect now m.copied) (n + m.xferSize) := by
  have apart := b.apart
  have other {x : Nat} (outside : x < b.dst + n ∨ b.dst + n + m.xferSize ≤ x) :
      Transfer.effect now m.copied x = now x := by
    apply Transfer.effect_other
    rw [copied_dests, List.mem_range'_1]
    omega
  have written {i : Nat} (here : i < m.xferSize) :
      Transfer.effect now m.copied (m.dstAddr + i) = now (m.srcAddr + i) := by
    apply Transfer.effect_written _ (mem_copied m here)
    rw [copied_dests]
    exact List.nodup_range'
  exact
    { source := by
        intro i here
        rw [other (by omega)]
        exact kept.source i here
      copied := by
        intro i here
        by_cases old : i < n
        · rw [other (by omega)]
          exact kept.copied i old
        · have place : n + (i - n) = i := by omega
          have next : i - n < m.xferSize := by omega
          have value := written next
          rw [src, dst, Nat.add_assoc, Nat.add_assoc, place] at value
          rw [value]
          apply kept.source
          omega }

/-- Where a run is, with `n` bytes copied before the last submission. -/
inductive Stage (b : CopyBuffers) (mem : Nat → UInt8) (s : State) (n : Nat) : Prop
  | retry : s.pc = .retry → s.inFlight = [] → s.desc = b.rest n → Kept b mem s.mem n → Stage b mem s n
  | enqcmd : s.pc = .enqcmd → s.inFlight = [] → s.comp.status = 0 → s.desc = b.rest n →
      Kept b mem s.mem n → Stage b mem s n
  | waiting : s.pc.phase = .waiting → s.inFlight = [] ∨ s.inFlight = [b.rest n] →
      s.comp.status = 0 → s.desc = b.rest n → Kept b mem s.mem n → Stage b mem s n
  | success : s.pc.phase = .waiting ∨ s.pc = .done .successful → s.inFlight = [] →
      s.comp.status = dsaCompSuccess → Kept b mem s.mem b.length → Stage b mem s n
  | fault : s.pc.phase = .waiting ∨ s.pc.phase = .fault → s.inFlight = [] →
      dsaCompStatus s.comp.status = dsaCompPageFaultNobof →
      n + s.comp.bytesCompleted ≤ b.length →
      (∀ f, s.desc.get f =
        (b.rest (if s.pc.passed f then n + s.comp.bytesCompleted else n)).get f) →
      Kept b mem s.mem (n + s.comp.bytesCompleted) → Stage b mem s n
  | error : s.pc.phase = .waiting → s.inFlight = [] → s.comp.status ≠ dsaCompSuccess →
      dsaCompStatus s.comp.status ≠ dsaCompPageFaultNobof → Stage b mem s n

def Good (b : CopyBuffers) (mem : Nat → UInt8) (s : State) : Prop :=
  ∃ n ≤ b.length, Stage b mem s n

theorem good_initial : Good b mem (initial b comp mem) := by
  have start : Kept b mem mem 0 := ⟨fun _ _ => rfl, fun i none => absurd none i.not_lt_zero⟩
  exact ⟨0, Nat.zero_le _, .retry rfl rfl rfl start⟩

theorem Pc.passed_of_phase {pc : Pc} (phase : pc.phase = .waiting) (f : Field) :
    pc.passed f = false := by
  cases pc with
  | advance => contradiction
  | _ => rfl

theorem Stage.at_retry {n : Nat} (stage : Stage b mem s n) (at_ : s.pc = .retry) :
    s.inFlight = [] ∧ s.desc = b.rest n ∧ Kept b mem s.mem n := by
  cases stage with
  | retry _ idle desc kept => exact ⟨idle, desc, kept⟩
  | enqcmd other => simp [at_] at other
  | waiting other => simp [at_, Pc.phase] at other
  | success other => simp [at_, Pc.phase] at other
  | fault other => simp [at_, Pc.phase] at other
  | error other => simp [at_, Pc.phase] at other

theorem Stage.at_enqcmd {n : Nat} (stage : Stage b mem s n) (at_ : s.pc = .enqcmd) :
    s.inFlight = [] ∧ s.comp.status = 0 ∧ s.desc = b.rest n ∧ Kept b mem s.mem n := by
  cases stage with
  | retry other => simp [at_] at other
  | enqcmd _ idle cleared desc kept => exact ⟨idle, cleared, desc, kept⟩
  | waiting other => simp [at_, Pc.phase] at other
  | success other => simp [at_, Pc.phase] at other
  | fault other => simp [at_, Pc.phase] at other
  | error other => simp [at_, Pc.phase] at other

theorem Stage.control {n pollRetry : Nat} {pc : Pc} (stage : Stage b mem s n)
    (control : Control s pc) : Stage b mem { s with pc := pc, pollRetry := pollRetry } n := by
  cases control with
  | wait here there =>
    cases stage with
    | retry other => simp [other, Pc.phase] at here
    | enqcmd other => simp [other, Pc.phase] at here
    | waiting _ flying cleared desc kept => exact .waiting there flying cleared desc kept
    | success _ idle status kept => exact .success (.inl there) idle status kept
    | fault _ idle status inside desc kept =>
      refine .fault (.inl there) idle status inside ?_ kept
      intro f
      have before := desc f
      rw [Pc.passed_of_phase here] at before
      rw [Pc.passed_of_phase there]
      exact before
    | error _ idle success fault => exact .error there idle success fault
  | fault here page =>
    cases stage with
    | retry other => simp [other, Pc.phase] at here
    | enqcmd other => simp [other, Pc.phase] at here
    | waiting _ _ cleared =>
      rw [cleared] at page
      contradiction
    | success _ _ status =>
      rw [status] at page
      contradiction
    | fault _ idle status inside desc kept =>
      refine .fault (.inr rfl) idle status inside ?_ kept
      intro f
      have before := desc f
      rw [Pc.passed_of_phase here] at before
      exact before
    | error _ _ _ other => exact absurd page other
  | touched at_ =>
    cases stage with
    | retry other => simp [at_] at other
    | enqcmd other => simp [at_] at other
    | waiting other => simp [at_, Pc.phase] at other
    | success other => simp [at_, Pc.phase] at other
    | fault _ idle status inside desc kept =>
      refine .fault (.inr rfl) idle status inside ?_ kept
      intro f
      have before := desc f
      rw [at_] at before
      cases f <;> exact before
    | error other => simp [at_, Pc.phase] at other
  | success here status =>
    cases stage with
    | retry other => simp [other, Pc.phase] at here
    | enqcmd other => simp [other, Pc.phase] at here
    | waiting _ _ cleared =>
      rw [cleared] at status
      contradiction
    | success _ idle _ kept => exact .success (.inr rfl) idle status kept
    | fault _ _ page =>
      rw [status] at page
      contradiction
    | error _ _ other => exact absurd status other

theorem Stage.at_advance {n : Nat} {f : Field} (stage : Stage b mem s n) (at_ : s.pc = .advance f) :
    s.inFlight = [] ∧ dsaCompStatus s.comp.status = dsaCompPageFaultNobof ∧
      n + s.comp.bytesCompleted ≤ b.length ∧
      (∀ g, s.desc.get g =
        (b.rest (if g.before f then n + s.comp.bytesCompleted else n)).get g) ∧
      Kept b mem s.mem (n + s.comp.bytesCompleted) := by
  cases stage with
  | retry other => simp [at_] at other
  | enqcmd other => simp [at_] at other
  | waiting other => simp [at_, Pc.phase] at other
  | success other => simp [at_, Pc.phase] at other
  | fault _ idle status inside desc kept =>
    rw [at_] at desc
    exact ⟨idle, status, inside, desc, kept⟩
  | error other => simp [at_, Pc.phase] at other

theorem get_advance {n : Nat} {desc : Memmove} {bytes : Nat} {f : Field}
    (before : ∀ g, desc.get g = (b.rest (if g.before f then n + bytes else n)).get g)
    (inside : n + bytes ≤ b.length) (g : Field) : (desc.move bytes f).get g =
      (b.rest (if g = f ∨ g.before f then n + bytes else n)).get g := by
  by_cases same : g = f
  · have here := before f
    rw [f.not_before_self] at here
    rw [same, if_pos (.inl rfl)]
    exact b.get_move here inside
  · rw [desc.get_move_other _ same, before g]
    simp [same]

theorem Stage.advance {n : Nat} {f : Field} (stage : Stage b mem s n) (at_ : s.pc = .advance f) :
    ∃ m ≤ b.length,
      Stage b mem { s with pc := afterField f, desc := s.desc.move s.comp.bytesCompleted f } m := by
  have ⟨idle, status, inside, before, kept⟩ := stage.at_advance at_
  have fields := get_advance before inside
  by_cases last : f = .xferSize
  · refine ⟨n + s.comp.bytesCompleted, inside, .retry ?_ idle ?_ kept⟩
    · rw [last]
      rfl
    · apply Memmove.ext_get
      intro g
      rw [last] at fields
      rw [last, fields, if_pos g.before_last]
  · refine ⟨n, by omega, .fault (.inr ?_) idle status inside ?_ kept⟩
    · cases f <;> first | rfl | contradiction
    · intro g
      have next : (afterField f).passed g = (decide (g = f) || g.before f) := by
        cases f <;> cases g <;> first | rfl | contradiction
      rw [fields, next]
      simp

theorem Stage.answer {n i : Nat} {m : Memmove} {answer : Answer} (stage : Stage b mem s n)
    (bound : n ≤ b.length) (here : s.inFlight[i]? = some m) (fits : answer.Fits m) :
    Stage b mem { s with
      comp := answer.comp
      mem := answer.mem s.mem m
      inFlight := s.inFlight.eraseIdx i } n := by
  have busy : s.inFlight ≠ [] := by
    intro idle
    simp [idle] at here
  cases stage with
  | retry _ idle => exact absurd idle busy
  | enqcmd _ idle => exact absurd idle busy
  | success _ idle => exact absurd idle busy
  | fault _ idle => exact absurd idle busy
  | error _ idle => exact absurd idle busy
  | waiting waiting flying cleared desc kept =>
    have alone : s.inFlight = [b.rest n] := flying.resolve_left busy
    rw [alone, List.getElem?_singleton] at here
    split at here
    next zero =>
      cases here
      have idle : s.inFlight.eraseIdx i = [] := by
        rw [alone, zero]
        rfl
      cases answer with
      | success bytes =>
        have longer := kept.longer (m := b.rest n) rfl rfl (by simp only [Buffers.rest]; omega)
        have whole : n + (b.rest n).xferSize = b.length := by
          simp only [Buffers.rest]
          omega
        rw [whole] at longer
        exact .success (.inl waiting) idle rfl longer
      | pageFault write bytes faultAddr =>
        have inside : n + bytes ≤ b.length := by
          simp only [Answer.Fits, Buffers.rest] at fits
          omega
        refine .fault (.inl waiting) idle (faultStatus_spec write).2.2 inside ?_ ?_
        · intro f
          rw [Pc.passed_of_phase waiting]
          exact congrArg (·.get f) desc
        · exact kept.longer (m := { b.rest n with xferSize := bytes }) rfl rfl inside
      | error comp mem' => exact .error waiting idle fits.2.1 fits.2.2
    next => contradiction

theorem good_step (ok : Good b mem s) (taken : step limits s a = some t) : Good b mem t := by
  have ⟨n, bound, stage⟩ : ∃ n ≤ b.length, Stage b mem s n := ok
  cases move_of_step taken with
  | retry at_ =>
    have ⟨idle, desc, kept⟩ := stage.at_retry at_
    exact ⟨n, bound, .enqcmd rfl idle rfl desc kept⟩
  | rejected at_ next =>
    have ⟨idle, cleared, desc, kept⟩ := stage.at_enqcmd at_
    refine ⟨n, bound, ?_⟩
    cases next with
    | inl again => exact .enqcmd again idle cleared desc kept
    | inr gone =>
      rw [gone]
      exact .waiting rfl (.inl idle) cleared desc kept
  | accepted at_ =>
    have ⟨idle, cleared, desc, kept⟩ := stage.at_enqcmd at_
    have flying : s.inFlight ++ [s.desc] = [b.rest n] := by
      rw [idle, desc]
      rfl
    exact ⟨n, bound, .waiting rfl (.inr flying) cleared desc kept⟩
  | control here => exact ⟨n, bound, stage.control here⟩
  | advance at_ => exact stage.advance at_
  | answer here fits => exact ⟨n, bound, stage.answer bound here fits⟩

theorem good_of_run (run : Run limits b comp mem h s) : Good b mem s :=
  run.invariant good_initial fun _ _ _ => good_step

theorem inStep_of_good (good : Good b mem s) (at_ : s.pc = .enqcmd) : InStep b.toBuffers s.desc := by
  have ⟨n, bound, stage⟩ : ∃ n ≤ b.length, Stage b mem s n := good
  have ⟨_, _, desc, _⟩ := stage.at_enqcmd at_
  have left : b.length - (b.length - n) = n := by omega
  rw [desc]
  exact
    { size := Nat.sub_le _ _
      src := by
        simp only [Buffers.rest]
        rw [left]
      dst := by
        simp only [Buffers.rest]
        rw [left] }

theorem kept_of_good (good : Good b mem s) (at_ : s.pc = .done .successful) :
    Kept b mem s.mem b.length := by
  have ⟨n, bound, stage⟩ : ∃ n ≤ b.length, Stage b mem s n := good
  cases stage with
  | retry other => simp [at_] at other
  | enqcmd other => simp [at_] at other
  | waiting other => simp [at_, Pc.phase] at other
  | success _ _ _ kept => exact kept
  | fault other => simp [at_, Pc.phase] at other
  | error other => simp [at_, Pc.phase] at other

/-- Every submission is for what is left, and a copy that is reported successful is whole. -/
theorem copied_of_run (run : Run limits b comp mem h s) :
    (∀ p ∈ h, ∀ accepted, p.2 = .enqcmd accepted → InStep b.toBuffers p.1.desc) ∧
    (s.pc = .done .successful → ∀ i < b.length, s.mem (b.dst + i) = s.mem (b.src + i)) := by
  constructor
  · intro p member accepted enqcmd
    have ⟨_, t, before, taken⟩ := run.of_mem member
    apply inStep_of_good (good_of_run before)
    rw [enqcmd] at taken
    cases move_of_step taken with
    | rejected at_ => exact at_
    | accepted at_ => exact at_
  · intro at_ i inside
    have kept := kept_of_good (good_of_run run) at_
    rw [kept.copied i inside, kept.source i inside]

def pages : CopyBuffers :=
  { src := 0x1000000
    dst := 0x2000000
    length := 1024 * 4096
    srcEnd := by decide
    dstEnd := by decide
    lengthBound := by decide
    apart := by decide }

def faultActions : List Action :=
  [.cpu, .enqcmd false, .enqcmd true, .cpu, .cpu, .answer 0 (.pageFault true 700000 0x20aae60)] ++
    List.replicate 9 .cpu ++ [.enqcmd true, .answer 0 (.success 0)] ++ List.replicate 4 .cpu

theorem copied_fault : ∃ h s,
    Run retryLimits pages ⟨0, 0, 0⟩ (fun x => .ofNat (x + x / 0x1000000)) h s ∧
    s.desc = pages.rest 700000 ∧ ∀ i < 1024 * 4096, s.mem (0x2000000 + i) = s.mem (0x1000000 + i) := by
  have reached : (Machine.exec (step retryLimits) faultActions
      (initial pages ⟨0, 0, 0⟩ fun x => .ofNat (x + x / 0x1000000))).map (fun s => (s.pc, s.desc)) =
      some (.done .successful, pages.rest 700000) := by decide +kernel
  have ⟨s, result, shape⟩ := Option.map_eq_some_iff.mp reached
  have ⟨h, run, _⟩ := Machine.run_of_exec result
  rw [Prod.mk.injEq] at shape
  have ⟨at_, desc⟩ := shape
  exact ⟨h, s, run, desc, (copied_of_run run).2 at_⟩

end DsaTest.Userspace
