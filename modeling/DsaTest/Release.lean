import DsaTest.Protocol.Completion
import DsaTest.BatchDevice

/-! The release of the two buffers of a batch by the completion code of the batch modules,
against their mapping by the builder. -/
namespace DsaTest.Protocol

open Stmt

/-- What a statement of the thread does to the buffers of its entry. -/
def Stmt.bufferEvents (info : BatchInfo) (device : Nat) : Stmt → List BufferEvent
  | unmapCompls => [.unmap (info.unmapping device .subCompl)]
  | unmapHwDescs => [.unmap (info.unmapping device .subHwDescs)]
  | freeSubCompl => [.free .subCompl]
  | freeSubHwDescs => [.free .subHwDescs]
  | _ => []

/-- `wq_to_dev(desc_entry->desc->wq)`, where `dev` tells the device of each queue. -/
def Event.bufferEvents (info : BatchInfo) (dev : Nat → Nat) (desc : Option Slot) :
    Event → List BufferEvent
  | .ran stmt => (desc.map fun d => stmt.bufferEvents info (dev d.1)).getD []
  | .written _ => []

/-- The buffers of an entry, mapped when its batch was built for the queue. -/
def Entry.bufferLife (info : BatchInfo) (dev : Nat → Nat) (e : Entry) : List BufferEvent :=
  info.mapEvents (dev e.wq) ++ e.trace.flatMap (Event.bufferEvents info dev e.desc)

structure Observed (s : State) (e : Nat) : Prop where
  old : e < s.count
  batchInfo : (s.entry e).batchInfo = true
  marked : (s.entry e).completion = true
  idle : s.thread.worksOn ≠ some e

variable {cfg : Config} {h : List (State × Action)} {s : State}

theorem branch_bufferEvents (info : BatchInfo) (device status : Nat) :
    (branchOf .batch true status).flatMap (Stmt.bufferEvents info device) =
      [.unmap (info.unmapping device .subCompl), .unmap (info.unmapping device .subHwDescs),
        .free .subCompl, .free .subHwDescs] := by
  unfold branchOf
  split <;> rfl

theorem unlink_bufferEvents (info : BatchInfo) (device : Nat) :
    unlinkBranch.flatMap (Stmt.bufferEvents info device) = [] := rfl

def releasedLife (info : BatchInfo) (device : Nat) : List BufferEvent :=
  info.mapEvents device ++
    [.unmap (info.unmapping device .subCompl), .unmap (info.unmapping device .subHwDescs),
      .free .subCompl, .free .subHwDescs]

theorem Observed.bufferLife (variant : cfg.variant = .batch) (ok : EntriesOk cfg s) {e : Nat}
    (observed : Observed s e) (info : BatchInfo) (dev : Nat → Nat) :
    (s.entry e).bufferLife info dev = releasedLife info (dev (s.entry e).wq) := by
  cases ok.entries e observed.old with
  | missing _ _ unmarked => exact absurd observed.marked (by simp [unmarked])
  | waiting _ _ _ waiting => exact absurd observed.marked (by simp [waiting.completion])
  | answered d status done desc wq answered =>
    have completed : setCompletion ∈ done := by simpa [observed.marked] using answered.completion
    have events : done.flatMap (Stmt.bufferEvents info (dev (s.entry e).wq)) =
        [.unmap (info.unmapping (dev (s.entry e).wq) .subCompl),
          .unmap (info.unmapping (dev (s.entry e).wq) .subHwDescs),
          .free .subCompl, .free .subHwDescs] := by
      have settled := answered.settled observed.idle
      rw [variant, observed.batchInfo] at settled
      cases settled with
      | inl none => exact absurd completed (by simp [none])
      | inr past =>
        cases past with
        | inl branch => rw [branch, branch_bufferEvents]
        | inr whole =>
          rw [whole, List.flatMap_append, branch_bufferEvents, unlink_bufferEvents, List.append_nil]
    have same : (Event.bufferEvents info dev (some d)) ∘ Event.ran =
        Stmt.bufferEvents info (dev (s.entry e).wq) := by
      funext stmt
      simp [Event.bufferEvents, wq]
    rw [Entry.bufferLife, releasedLife, answered.trace, desc, List.flatMap_cons, List.flatMap_map]
    simp only [Function.comp_def] at same
    rw [same, events]
    rfl

theorem subHwDescs_paired (info : BatchInfo) (device : Nat) :
    Paired (releasedLife info device) .subHwDescs := by
  have different : info.unmapping device .subCompl ≠ info.mapping device .subHwDescs := by
    simp [BatchInfo.unmapping, BatchInfo.mapping]
  have same : info.unmapping device .subHwDescs = info.mapping device .subHwDescs := rfl
  refine ⟨info.mapping device .subHwDescs, ?_, ?_, ?_, ?_⟩
  · rw [releasedLife, same]
    apply List.Sublist.cons
    apply List.Sublist.cons_cons
    apply List.Sublist.cons
    apply List.Sublist.cons_cons
    exact List.singleton_sublist.mpr (by simp)
  · intro other
    by_cases here : other = info.mapping device .subHwDescs
    · simp [releasedLife, BatchInfo.mapEvents, here]
    · simp [releasedLife, BatchInfo.mapEvents, here, Ne.symm here]
  · rw [releasedLife, same]
    simp [BatchInfo.mapEvents, different]
  · simp [releasedLife, BatchInfo.mapEvents]

theorem subCompl_not_paired (info : BatchInfo) (device : Nat) :
    ¬ Paired (releasedLife info device) .subCompl := by
  apply not_paired
  intro m m' mapped unmapped
  have mapping : m = info.mapping device .subCompl := by
    simpa [releasedLife, BatchInfo.mapEvents] using mapped
  have unmapping : m' = info.unmapping device .subCompl ∨ m' = info.unmapping device .subHwDescs := by
    simpa [releasedLife, BatchInfo.mapEvents] using unmapped
  rw [mapping]
  cases unmapping with
  | inl same => exact same ▸ info.unmapping_ne_mapping device device .subCompl
  | inr same => exact same ▸ info.unmapping_ne_mapping device device .subHwDescs

theorem released_paired_iff (info : BatchInfo) (device : Nat) (buffer : BatchBuffer) :
    Paired (releasedLife info device) buffer ↔ buffer = .subHwDescs := by
  cases buffer with
  | subCompl => simp [subCompl_not_paired]
  | subHwDescs => simp [subHwDescs_paired]

end DsaTest.Protocol

namespace DsaTest.BatchDevice

open SingleDevice

def BatchState.bufferLife (st : BatchState) (no : Nat) : List BufferEvent :=
  (st.buffers.filter (·.1 = no)).map Prod.snd

structure Observed (st : BatchState) (no : Nat) : Prop where
  batch : ∃ desc info, .build no (some (.batch desc info)) ∈ st.trace
  counted : ∃ status, .count no status ∈ st.trace

def Unfreed (st : BatchState) : Prop := ∀ event ∈ st.buffers, ∀ buffer, event.2 ≠ .free buffer

variable {q : Queue} {device : Nat} {env : CopyEnv} {st : BatchState}

theorem unfreed_addBatch (unfreed : Unfreed st) (task : BatchTask) :
    Unfreed (addBatch device (callAlloc st) task) := by
  intro event inside buffer
  cases List.mem_append.mp inside with
  | inl before => exact unfreed event before buffer
  | inr mapped =>
    have ⟨ev, member, same⟩ := List.mem_map.mp mapped
    rw [← same]
    intro free
    simp [BatchInfo.mapEvents, show ev = .free buffer from free] at member

theorem unfreed_buildBatches (left i : Nat) (unfreed : Unfreed st) :
    Unfreed (buildBatches q device env left i st).state := by
  induction left generalizing i st with
  | zero => exact unfreed
  | succ left ih =>
    simp only [buildBatches]
    split
    next => exact unfreed
    next =>
      split
      next => exact unfreed
      next =>
        split
        next => exact unfreed
        next => exact unfreed
        next => exact ih _ (unfreed_addBatch unfreed _)

theorem unfreed_pollLoop (n left pollEntry : Nat) (unfreed : Unfreed st) :
    Unfreed (pollLoop device env n left pollEntry st) := by
  induction left generalizing pollEntry st with
  | zero => exact unfreed
  | succ left ih =>
    rw [pollLoop]
    split
    next =>
      apply ih
      intro event inside buffer
      cases List.mem_append.mp inside with
      | inl before => exact unfreed event before buffer
      | inr scanned =>
        obtain ⟨e, _, unmapped⟩ := List.mem_flatMap.mp scanned
        intro free
        unfold unmapBuffers at unmapped
        split at unmapped
        next =>
          split at unmapped
          next =>
            simp only [List.mem_cons, List.not_mem_nil, or_false] at unmapped
            cases unmapped with
            | inl same => simp [same] at free
            | inr same => simp [same] at free
          next => simp at unmapped
        next => simp at unmapped
    next => exact unfreed

theorem unfreed_submitAndPoll (n : Nat) (unfreed : Unfreed st) :
    Unfreed (submitAndPoll device env n st).state := by
  unfold submitAndPoll
  split
  next => exact unfreed
  next => exact unfreed
  next => exact unfreed_pollLoop n _ _ unfreed

theorem unfreed_building : Unfreed (building q device env).state := by
  have start : Unfreed (initial q) := by simp [Unfreed, initial]
  unfold building
  split
  next => exact unfreed_buildBatches _ _ start
  next =>
    unfold buildPlain
    split
    next =>
      simp only [Building.state]
      split
      next => exact start
      next => exact start
    next => exact start

theorem dsaCopy_unfreed (q : Queue) (device : Nat) (env : CopyEnv) :
    Unfreed (dsaCopy q device env).state := by
  have built : Unfreed (building q device env).state := unfreed_building
  unfold dsaCopy
  split
  next ended =>
    rw [ended] at built
    exact built
  next ended =>
    rw [ended] at built
    exact built
  next ended =>
    rw [ended] at built
    exact unfreed_submitAndPoll _ built

theorem Unfreed.not_paired (unfreed : Unfreed st) (no : Nat) (buffer : BatchBuffer) :
    ¬ Paired (st.bufferLife no) buffer := by
  intro ⟨mapping, order, _⟩
  have freed : .free buffer ∈ st.bufferLife no := order.mem (by simp)
  have ⟨event, inside, same⟩ := List.mem_map.mp freed
  exact unfreed event (List.mem_filter.mp inside).1 buffer same

end DsaTest.BatchDevice

namespace DsaTest

open Protocol

/-- Which buffer of the batches that have been dealt with is mapped, unmapped and freed in
pairs: the sub-descriptors in the N-DSA module. The sub-completion records there, and both
buffers in the single-device module, never are. -/
theorem buffers_paired_iff {cfg : Config} {h : List (State × Action)} {s : State}
    (variant : cfg.variant = .batch) (run : Run cfg h s) (dev : Nat → Nat) (info : Nat → BatchInfo)
    (q : Queue) (device : Nat) (env : SingleDevice.CopyEnv) (buffer : BatchBuffer) :
    ((∀ e, Observed s e → Paired ((s.entry e).bufferLife (info e) dev) buffer) ↔
      buffer = .subHwDescs ∨ ∀ e, ¬ Observed s e) ∧
    ((∀ no, BatchDevice.Observed (BatchDevice.dsaCopy q device env).state no →
        Paired ((BatchDevice.dsaCopy q device env).state.bufferLife no) buffer) ↔
      ∀ no, ¬ BatchDevice.Observed (BatchDevice.dsaCopy q device env).state no) := by
  have entries := (inv_of_run run).entries
  constructor
  · constructor
    · intro paired
      by_cases other : buffer = .subHwDescs
      · exact .inl other
      · right
        intro e observed
        have here := paired e observed
        rw [observed.bufferLife variant entries, released_paired_iff] at here
        exact other here
    · intro either e observed
      rw [observed.bufferLife variant entries, released_paired_iff]
      exact either.resolve_right fun none => none e observed
  · constructor
    · intro paired no observed
      exact (BatchDevice.dsaCopy_unfreed q device env).not_paired no buffer (paired no observed)
    · intro none no observed
      exact absurd observed (none no)

theorem observed_drain : ∃ h s, Run twoQueues h s ∧ Observed s 0 := by
  have reached : (Machine.exec (step twoQueues) drainActions (Protocol.initial twoQueues)).map
      (fun s => (decide (0 < s.count), (s.entry 0).batchInfo, (s.entry 0).completion,
        s.thread.worksOn)) = some (true, true, true, none) := by decide +kernel
  have ⟨s, result, shape⟩ := Option.map_eq_some_iff.mp reached
  have ⟨h, run, _⟩ := Machine.run_of_exec result
  simp only [Prod.mk.injEq, decide_eq_true_eq] at shape
  have ⟨old, batchInfo, marked, idle⟩ := shape
  exact ⟨h, s, run, old, batchInfo, marked, by simp [idle]⟩

theorem buffers_paired_drain : ∃ s : State, Observed s 0 ∧
    Paired ((s.entry 0).bufferLife ⟨[], 0x1000, 0x2000, 64, 128⟩ id) .subHwDescs := by
  have ⟨h, s, run, observed⟩ := observed_drain
  have ⟨paired, _⟩ := buffers_paired_iff rfl run id (fun _ => ⟨[], 0x1000, 0x2000, 64, 128⟩)
    threeSegmentQueue 0 promptEnv .subHwDescs
  exact ⟨s, observed, paired.mpr (.inl rfl) 0 observed⟩

/-- The completion records are unmapped with another direction than they were mapped with,
and the single-device module frees nothing. -/
theorem buffers_unpaired_drain :
    (¬ ∀ (cfg : Config) (h : List (State × Action)) (s : State) (dev : Nat → Nat)
      (info : Nat → BatchInfo), cfg.variant = .batch → Run cfg h s → ∀ e, Observed s e →
        ∀ buffer, Paired ((s.entry e).bufferLife (info e) dev) buffer) ∧
    ¬ ∀ (q : Queue) (device : Nat) (env : SingleDevice.CopyEnv) (no : Nat),
      BatchDevice.Observed (BatchDevice.dsaCopy q device env).state no →
        ∀ buffer, Paired ((BatchDevice.dsaCopy q device env).state.bufferLife no) buffer := by
  constructor
  · intro claim
    have ⟨h, s, run, observed⟩ := observed_drain
    have paired := claim twoQueues h s id (fun _ => ⟨[], 0x1000, 0x2000, 64, 128⟩) rfl run 0 observed
      .subCompl
    rw [observed.bufferLife rfl (inv_of_run run).entries, released_paired_iff] at paired
    contradiction
  · intro claim
    have built : ∃ desc info, (BatchDevice.dsaCopy threeSegmentQueue 0 promptEnv).state.trace[0]? =
        some (.build 0 (some (.batch desc info))) := ⟨_, _, rfl⟩
    have counted : (BatchDevice.dsaCopy threeSegmentQueue 0 promptEnv).state.trace[4]? =
        some (.count 0 1) := by rfl
    have ⟨desc, info, first⟩ := built
    have observed : BatchDevice.Observed (BatchDevice.dsaCopy threeSegmentQueue 0 promptEnv).state 0 :=
      ⟨⟨desc, info, List.mem_of_getElem? first⟩, ⟨1, List.mem_of_getElem? counted⟩⟩
    exact (BatchDevice.dsaCopy_unfreed threeSegmentQueue 0 promptEnv).not_paired 0 .subCompl
      (claim threeSegmentQueue 0 promptEnv 0 observed .subCompl)

end DsaTest
