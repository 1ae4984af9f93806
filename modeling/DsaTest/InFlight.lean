import DsaTest.Pass
import DsaTest.BatchDevice

/-! What the device may still be working on when `dsa_copy` of the single-device modules
unmaps the tables or returns. -/
namespace DsaTest.SingleDevice

/-- Every submission that the device has accepted is answered. -/
def Settled (env : CopyEnv) (st : CopyState) : Prop :=
  ∀ k < st.submits, env.submitOk k = true → env.answered st.scans k = true

/-- Where a pass begins: the scans and the calls of `idxd_submit_desc` so far, the first new
descriptor, and what is left on the list: how many failed entries, and the descriptors
not counted yet. -/
structure PassStart where
  scans : Nat
  no : Nat
  submits : Nat
  failed : Nat
  waiting : List Nat

namespace PassStart

def first : PassStart := ⟨0, 0, 0, 0, []⟩

variable (p : PassStart)

def pending (size : Nat) : List Nat := p.waiting ++ List.range' p.no size

def length (size : Nat) : Nat := p.failed + p.waiting.length + size

def next (env : CopyEnv) (size m : Nat) : PassStart where
  scans := p.scans + m
  no := p.no + size
  submits := p.submits + p.length size
  failed := p.failed + (p.pending size).countP fun i => seen env p.scans i m > dsaCompSuccess
  waiting := (p.pending size).filter fun i => seen env p.scans i m = 0

end PassStart

/-- Of the calls below `count` all up to the first refusal are answered after `scans` scans. -/
def Answered (env : CopyEnv) (count scans : Nat) : Prop :=
  ∀ k < count, (∀ j ≤ k, env.submitOk j = true) → env.answered scans k = true

/-- The pass that ends the copy: all that the device has been given up to then is answered
when the polling loop stops, or at the refusal. -/
structure LastPass (env : CopyEnv) (p : PassStart) (size : Nat) : Prop where
  polled : AllAccepted env p.submits (p.length size) →
    ∃ m, Stops env p.scans (p.pending size) size m ∧
      Answered env (p.submits + p.length size) (p.scans + m)
  refused : ¬ AllAccepted env p.submits (p.length size) →
    Answered env (p.submits + p.length size) p.scans

/-- The pass that ends a copy in passes of these sizes, the last or one with a refusal, is
answered in time. -/
def InTime (env : CopyEnv) : List Nat → PassStart → Prop
  | [], _ => True
  | [size], p => LastPass env p size
  | size :: next :: sizes, p =>
    (AllAccepted env p.submits (p.length size) →
      ∃ m, Stops env p.scans (p.pending size) size m ∧
        InTime env (next :: sizes) (p.next env size m)) ∧
    (¬ AllAccepted env p.submits (p.length size) →
      Answered env (p.submits + p.length size) p.scans)

variable {q : Queue} {env : CopyEnv} {st st' : CopyState} {l new : List ListEntry}
  {p : PassStart} {n m size left loop : Nat} {ok : Bool}

/-- What passes have left on the list, and that none of them was refused. -/
structure Carried (env : CopyEnv) (l : List ListEntry) (p : PassStart) : Prop where
  waiting : waitingOf l = p.waiting
  failed : failedOf l = p.failed
  accepted : ∀ k < p.submits, env.submitOk k = true

structure Pass (env : CopyEnv) (st : CopyState) (old new : List ListEntry) (p : PassStart) :
    Prop where
  lists : st.lists = old ++ new
  fresh : ∀ e ∈ new, e.completion = false
  numbers : new.map (·.no) = List.range' p.no new.length
  scans : st.scans = p.scans
  submits : st.submits = p.submits
  carried : Carried env old p

variable {old : List ListEntry}

theorem Pass.pending (pass : Pass env st old new p) : waitingOf st.lists = p.pending new.length := by
  rw [pass.lists, waitingOf_append, pass.carried.waiting, waitingOf_fresh pass.fresh, pass.numbers,
    PassStart.pending]

theorem Pass.failed (pass : Pass env st old new p) : failedOf st.lists = p.failed := by
  have none : failedOf new = 0 := by
    rw [failedOf, List.countP_eq_zero]
    intro e listed
    simp [pass.fresh e listed]
  rw [pass.lists, failedOf, List.countP_append, ← failedOf, ← failedOf, none, pass.carried.failed]
  rfl

theorem Pass.length (pass : Pass env st old new p) : st.lists.length = p.length new.length := by
  have oldLength : old.length = p.failed + p.waiting.length := by
    rw [length_waitingOf, pass.carried.failed, pass.carried.waiting]
  rw [pass.lists, List.length_append, oldLength]
  rfl

theorem Pass.accepted (pass : Pass env st old new p) {k : Nat}
    (here : AllAccepted env st.submits k) : ∀ j < p.submits + k, env.submitOk j = true := by
  intro j below
  by_cases before : j < p.submits
  · exact pass.carried.accepted j before
  · have now := here (j - p.submits) (by omega)
    rwa [pass.submits, Nat.add_sub_of_le (Nat.le_of_not_lt before)] at now

theorem Pass.settled_polled (pass : Pass env st old new p)
    (accepted : AllAccepted env st.submits st.lists.length)
    (passed : Passed env new.length st st' m) :
    Settled env st' ↔ Answered env (p.submits + p.length new.length) (p.scans + m) := by
  have all := pass.accepted accepted
  rw [Settled, passed.submits, passed.scans, pass.submits, pass.scans, pass.length]
  rw [pass.length] at all
  constructor
  · intro settled k below before
    exact settled k below (before k (Nat.le_refl k))
  · intro answered k below _
    exact answered k below fun j earlier => all j (Nat.lt_of_le_of_lt earlier below)

theorem Pass.settled_refused (pass : Pass env st old new p) {k : Nat} (refused : Refused env st st' k) :
    Settled env st' ↔ Answered env (p.submits + p.length new.length) p.scans := by
  have all := pass.accepted refused.accepted
  have inside := refused.inside
  have stopped := refused.refused
  rw [pass.length] at inside
  rw [pass.submits] at stopped
  rw [Settled, refused.submits, refused.scans, pass.submits, pass.scans]
  constructor
  · intro settled i below before
    have early : i < p.submits + k := by
      by_contra late
      rw [before (p.submits + k) (Nat.le_of_not_lt late)] at stopped
      contradiction
    exact settled i (by omega) (before i (Nat.le_refl i))
  · intro answered i below accepted
    have early : i < p.submits + k := by
      by_contra late
      rw [show i = p.submits + k by omega, stopped] at accepted
      contradiction
    exact answered i (by omega) fun j earlier => all j (Nat.lt_of_le_of_lt earlier early)

theorem Pass.not_accepted (pass : Pass env st old new p) {k : Nat} (refused : Refused env st st' k) :
    ¬ AllAccepted env p.submits (p.length new.length) := by
  intro all
  have stopped := refused.refused
  rw [← pass.length, ← pass.submits] at all
  rw [all k refused.inside] at stopped
  contradiction

theorem Pass.settled (pass : Pass env st old new p)
    (result : submitAndPoll env new.length st = some (ok, st')) :
    Settled env st' ↔ LastPass env p new.length := by
  cases ok with
  | true =>
    obtain ⟨accepted, m, passed⟩ := submitAndPoll_passed result
    have stops := passed.stops
    rw [pass.scans, pass.pending] at stops
    rw [pass.settled_polled accepted passed]
    rw [pass.submits, pass.length] at accepted
    constructor
    · intro answered
      exact ⟨fun _ => ⟨m, stops, answered⟩, fun refused => absurd accepted refused⟩
    · intro last
      obtain ⟨m', stops', answered⟩ := last.polled accepted
      rw [stops.unique stops']
      exact answered
  | false =>
    obtain ⟨k, refused⟩ := submitAndPoll_refused result
    have stopped := pass.not_accepted refused
    rw [pass.settled_refused refused]
    constructor
    · intro answered
      exact ⟨fun accepted => absurd accepted stopped, fun _ => answered⟩
    · intro last
      exact last.refused stopped

theorem Pass.next (pass : Pass env st old new p)
    (accepted : AllAccepted env st.submits st.lists.length)
    (passed : Passed env new.length st st' m) :
    Carried env st'.lists (p.next env new.length m) where
  waiting := by
    rw [passed.waiting, pass.pending, pass.scans]
    rfl
  failed := by
    rw [passed.failed, pass.failed, pass.pending, pass.scans]
    rfl
  accepted := by
    have all := pass.accepted accepted
    rwa [pass.length] at all

structure Between (q : Queue) (env : CopyEnv) (st : CopyState) (p : PassStart) : Prop where
  src : st.src = q.src.sgl.drop p.no
  dst : st.dst = q.dst.sgl.drop p.no
  built : st.built = p.no
  scans : st.scans = p.scans
  submits : st.submits = p.submits
  carried : Carried env st.lists p

theorem Between.pass {built : CopyState} (between : Between q env st p)
    (chunk : ChunkBuilt q st built p.no size) :
    ∃ new, Pass env built st.lists new p ∧ new.length = size := by
  obtain ⟨new, lists, length, numbers, fresh, _⟩ := chunk.lists
  rw [between.built] at numbers
  refine ⟨new, ?_, length⟩
  exact
    { lists := lists
      fresh := fresh
      numbers := length ▸ numbers
      scans := chunk.scans.trans between.scans
      submits := chunk.submits.trans between.submits
      carried := between.carried }

theorem Pass.between {built : CopyState} (pass : Pass env built old new p)
    (accepted : AllAccepted env built.submits built.lists.length)
    (passed : Passed env new.length built st m) (chunk : ChunkBuilt q st' built p.no new.length)
    (before : st'.built = p.no) : Between q env st (p.next env new.length m) where
  src := passed.src.trans chunk.src
  dst := passed.dst.trans chunk.dst
  built := by rw [passed.built, chunk.count, before, PassStart.next]
  scans := by rw [passed.scans, pass.scans, PassStart.next]
  submits := by rw [passed.submits, pass.submits, pass.length, PassStart.next]
  carried := pass.next accepted passed

theorem nextLoop_settled (between : Between q env st p)
    (place : p.no = min (loop * q.wq.numDescs) q.totalNents) (begun : left = 0 → p.submits = 0)
    (result : nextLoop q env left loop st = .ok (ok, st')) :
    Settled env st' ↔ InTime env (chunkSizes q left loop) p := by
  induction left generalizing loop st p with
  | zero =>
    cases result
    have settled : Settled env st' := by
      rw [Settled, between.submits, begun rfl]
      simp
    simp [settled, chunkSizes, InTime]
  | succ left ih =>
    have whole := chunk_whole q loop
    have inside := Nat.min_le_right ((loop + 1) * q.wq.numDescs) q.totalNents
    rw [← whole, ← place] at inside
    simp only [nextLoop, chunk_size] at result
    split at result
    next => cases result
    next built building =>
      have chunk := chunkBuilt between.src between.dst inside building
      obtain ⟨new, pass, length⟩ := between.pass chunk
      rw [← length] at result chunk
      rw [chunkSizes, ← length]
      cases left with
      | zero =>
        rw [chunkSizes, InTime]
        split at result
        next => cases result
        next mid polling =>
          cases result
          exact pass.settled polling
        next mid polling =>
          cases result
          exact pass.settled polling
      | succ left =>
        rw [chunkSizes, InTime, ← chunkSizes]
        split at result
        next => cases result
        next mid polling =>
          obtain ⟨accepted, m, passed⟩ := submitAndPoll_passed polling
          have stops := passed.stops
          rw [pass.scans, pass.pending] at stops
          have after := pass.between accepted passed chunk between.built
          rw [pass.submits, pass.length] at accepted
          have place' : (p.next env new.length m).no =
              min ((loop + 1) * q.wq.numDescs) q.totalNents := by
            rw [← whole, ← place, ← length]
            rfl
          rw [ih after place' (fun none => absurd none (Nat.succ_ne_zero _)) result]
          constructor
          · intro rest
            exact ⟨fun _ => ⟨m, stops, rest⟩, fun refused => absurd accepted refused⟩
          · intro inTime
            obtain ⟨m', stops', rest⟩ := inTime.1 accepted
            rw [stops.unique stops']
            exact rest
        next mid polling =>
          cases result
          obtain ⟨k, refused⟩ := submitAndPoll_refused polling
          have stopped := pass.not_accepted refused
          rw [pass.settled_refused refused]
          constructor
          · intro answered
            exact ⟨fun accepted => absurd accepted stopped, fun _ => answered⟩
          · intro inTime
            exact inTime.2 stopped

theorem carried_first (env : CopyEnv) : Carried env [] .first where
  waiting := rfl
  failed := rfl
  accepted := by simp [PassStart.first]

theorem between_first (q : Queue) (env : CopyEnv) : Between q env (copyInitial q) .first where
  src := rfl
  dst := rfl
  built := rfl
  scans := rfl
  submits := rfl
  carried := carried_first env

theorem single_pass (q : Queue) (env : CopyEnv) (src dst : Segment) (trace : List CopyEvent) :
    Pass env (addEntry q env { copyInitial q with trace := trace } src dst) []
      [⟨0, createDesc q env 0 src dst, false⟩] .first where
  lists := rfl
  fresh := by simp
  numbers := rfl
  scans := rfl
  submits := rfl
  carried := carried_first env

theorem copySingle_settled (returned : copySingle q env = .ok (ok, st)) :
    Settled env st ↔ LastPass env .first 1 := by
  unfold copySingle at returned
  split at returned
  next src srcs dst dsts _ _ =>
    split at returned
    next => cases returned
    next built created =>
      have shape : built = addEntry q env { copyInitial q with trace := [.chunk 1] } src dst := by
        rw [createEntry] at created
        split at created
        next => cases created
        next =>
          cases created
          rfl
      split at returned
      next => cases returned
      next polling =>
        cases returned
        subst shape
        exact (single_pass q env src dst [.chunk 1]).settled polling
  next => cases returned

theorem dsaCopy_settled (returned : dsaCopy q env = .ok st) :
    Settled env st ↔ InTime env (chunks q) .first := by
  obtain ⟨⟨finished, last⟩, run, trace⟩ := ok_of_map returned
  have same : Settled env st ↔ Settled env last := by
    rw [← trace]
    simp only
    split
    next => exact Iff.rfl
    next => exact Iff.rfl
  rw [same]
  split at run
  next several =>
    rw [chunks, if_pos several]
    have place : PassStart.first.no = min (0 * q.wq.numDescs) q.totalNents := by
      rw [Nat.zero_mul, Nat.zero_min]
      rfl
    exact nextLoop_settled (between_first q env) place (fun _ => rfl) run
  next one =>
    rw [chunks, if_neg one, InTime]
    exact copySingle_settled run

end DsaTest.SingleDevice

namespace DsaTest.BatchDevice

open SingleDevice

variable {q : Queue} {device n : Nat} {env : CopyEnv} {st st' : BatchState} {finished : Bool}

theorem submitAndPoll_copy (result : submitAndPoll device env n st = .returned finished st') :
    ∃ copy, SingleDevice.submitAndPoll env n st.toCopyState = some (finished, copy) ∧
      st'.toCopyState =
        if finished then { copy with trace := copy.trace ++ [.unmap] } else copy := by
  unfold submitAndPoll at result
  unfold SingleDevice.submitAndPoll
  split at result
  next => contradiction
  next copy submitted =>
    cases result
    exact ⟨copy, by simp [submitted]⟩
  next copy submitted =>
    cases result
    refine ⟨_, by simp only [submitted]; rfl, ?_⟩
    simp only [if_true]
    rw [pollLoop_copy]

def listed (q : Queue) : Nat := if q.src.nents > 1 ∧ q.dst.nents > 1 then nents q else 1

theorem Built.pass (built : Built q device env st n) :
    Pass env st.toCopyState [] st.lists .first ∧ st.lists.length = n := by
  obtain ⟨batches, pieces, lists, _, _⟩ := built.entries
  have length : batches.length = n := by
    rw [← pieces.length_eq, List.length_range]
  refine ⟨?_, by rw [lists, List.length_map, List.length_zipIdx, length]⟩
  exact
    { lists := rfl
      fresh := by
        rw [lists]
        intro e inside
        obtain ⟨_, _, same⟩ := List.mem_map.mp inside
        rw [← same]
      numbers := by
        rw [lists, List.map_map, List.length_map, List.length_zipIdx, ← List.zipIdx_map_snd]
        rfl
      scans := built.scans
      submits := built.submits
      carried := carried_first env }

theorem dsaCopy_settled (returned : dsaCopy q device env = .returned finished st) :
    Settled env st.toCopyState ↔ InTime env [listed q] .first := by
  have pass : ∃ built new, Pass env built.toCopyState [] new .first ∧ new.length = listed q ∧
      submitAndPoll device env (listed q) built = .returned finished st := by
    unfold dsaCopy at returned
    split at returned
    next => contradiction
    next => contradiction
    next built ready =>
      unfold building at ready
      unfold listed
      split at ready
      next several =>
        rw [if_pos several] at returned ⊢
        have ended : BuildEnd q device env (nents q)
            (buildBatches q device env (nents q) 0 (initial q)) :=
          buildBatches_end (several_of_branch several) (Nat.zero_add _)
            (built_initial (several_of_branch several))
        rw [ready] at ended
        cases ended with
        | ready whole =>
          obtain ⟨pass, length⟩ := whole.pass
          exact ⟨built, _, pass, length, returned⟩
      next one =>
        rw [if_neg one] at returned ⊢
        unfold buildPlain at ready
        split at ready
        next src srcs dst dsts _ _ =>
          cases ready
          have called : (if q.wq.enabled = true ∧ min src.length dst.length ≤ q.wq.maxXferBytes
              then callAlloc (initial q) else initial q).toCopyState =
              { copyInitial q with trace := [] } := by
            split <;> rfl
          have pass := single_pass q env src dst []
          rw [← called] at pass
          exact ⟨_, [⟨0, createDesc q env 0 src dst, false⟩], pass, rfl, returned⟩
        next => contradiction
  obtain ⟨built, new, pass, length, result⟩ := pass
  obtain ⟨copy, polled, same⟩ := submitAndPoll_copy result
  have settled : Settled env st.toCopyState ↔ Settled env copy := by
    rw [same]
    split
    next => exact Iff.rfl
    next => exact Iff.rfl
  rw [← length] at polled ⊢
  rw [settled, pass.settled polled, InTime]

end DsaTest.BatchDevice

namespace DsaTest

open SingleDevice

theorem stops_prompt (p : PassStart) {size : Nat} (some : 0 < size) :
    Stops promptEnv p.scans (p.pending size) size 1 where
  within := by decide
  busy := by
    intro n below
    have first : n = 0 := by omega
    simpa [first, seen] using some
  ended := by
    apply Or.inr
    have all : (p.pending size).countP (fun i => seen promptEnv p.scans i 1 ≠ 0) =
        (p.pending size).length := by
      rw [List.countP_eq_length]
      intro i _
      exact decide_eq_true Nat.one_ne_zero
    rw [all, PassStart.pending, List.length_append, List.length_range']
    exact Nat.le_add_left _ _

theorem lastPass_prompt (p : PassStart) {size : Nat} (some : 0 < size) :
    LastPass promptEnv p size where
  polled := fun _ => ⟨1, stops_prompt p some, fun _ _ _ => rfl⟩
  refused := fun refused => absurd (fun _ _ => rfl) refused

def refusingEnv : CopyEnv where
  grant := alwaysGranted
  submitOk i := i == 0
  status _ _ := 0
  answered _ _ := false

end DsaTest
