import DsaTest.Polling
import DsaTest.Buffers

/-! `dsa_copy` of the single-device module `kernel_test_sgtable_batch.c`: every batch of
the list is built before the first one is submitted, and all are polled together. -/
namespace DsaTest.BatchDevice

open SingleDevice

/-- `allocs` records how many descriptors are held at each call of `idxd_alloc_desc`, and
`buffers` what happens to the buffers of each batch. -/
structure BatchState extends CopyState where
  allocs : List Nat
  buffers : List (Nat × BufferEvent)

/-- How the code before the submission ends: in the blocking `idxd_alloc_desc`, with a
dereference of `NULL`, or at its end. -/
inductive Building
  | blocked (st : BatchState)
  | oops (st : BatchState)
  | ready (st : BatchState)

inductive Outcome
  | blocked (st : BatchState)
  | oops (st : BatchState)
  | returned (finished : Bool) (st : BatchState)

def Building.state : Building → BatchState
  | .blocked st | .oops st | .ready st => st

def Outcome.state : Outcome → BatchState
  | .blocked st | .oops st | .returned _ st => st

section

variable (q : Queue) (device : Nat) (env : CopyEnv)

def nents : Nat := q.shape.descsEntries .batch

def callAlloc (st : BatchState) : BatchState := { st with allocs := st.allocs ++ [st.built] }

def addBatch (st : BatchState) (task : BatchTask) : BatchState :=
  { st with
    src := task.nextSgSrc
    dst := task.nextSgDst
    lists := st.lists ++ [⟨st.built, some (.batch task.desc task.batchInfo), false⟩]
    built := st.built + 1
    trace := st.trace ++ [.build st.built (some (.batch task.desc task.batchInfo))]
    buffers := st.buffers ++ (task.batchInfo.mapEvents device).map (st.built, ·) }

/-- The loop `for (int i = 0; i < nents; i++)`. A builder that returns `NULL` is
dereferenced at `batch_task->next_sg_src`. -/
def buildBatches : Nat → Nat → BatchState → Building
  | 0, _, st => .ready st
  | left + 1, i, st =>
    let leftEnts := q.totalNents - i * q.wq.maxBatchSize
    let batchSize := if leftEnts > q.wq.maxBatchSize then q.wq.maxBatchSize else leftEnts
    if q.wq.enabled = false then .oops st
    else if q.wq.numDescs ≤ st.built then .blocked (callAlloc st)
    else
      match idxdDescDmaSubmitMemcpySg q.wq (env.grant st.built) st.dst st.src batchSize copyFlags with
      | .null | .oops => .oops (callAlloc st)
      | .made task => buildBatches left (i + 1) (addBatch device (callAlloc st) task)

/-- The branch for a list of one segment, whose builder looks at the transfer limit
before it allocates. -/
def buildPlain (st : BatchState) : Building :=
  match q.src.sgl, q.dst.sgl with
  | src :: _, dst :: _ =>
    let called :=
      if q.wq.enabled ∧ min src.length dst.length ≤ q.wq.maxXferBytes then callAlloc st else st
    .ready { called with toCopyState := addEntry q env called.toCopyState src dst }
  | _, _ => .oops st

/-- `if (desc_entry->batch_info) { .. }` after a success; the error branch has none. -/
def unmapBuffers (status : Nat → Nat) (e : ListEntry) : List (Nat × BufferEvent) :=
  match e.desc with
  | some (.batch _ info) =>
    if e.completion = false ∧ status e.no = dsaCompSuccess then
      [(e.no, .unmap (info.unmapping device .subCompl)),
        (e.no, .unmap (info.unmapping device .subHwDescs))]
    else []
  | _ => []

def scan (st : BatchState) : BatchState :=
  { st with
    toCopyState := SingleDevice.scan env st.toCopyState
    buffers := st.buffers ++ st.lists.flatMap (unmapBuffers device (env.status st.scans)) }

def pollLoop (nents : Nat) : Nat → Nat → BatchState → BatchState
  | 0, _, st => st
  | left + 1, pollEntry, st =>
    if pollEntry < nents then
      pollLoop nents left (pollEntry + pollCount env st.toCopyState) (scan device env st)
    else st

/-- From `list_for_each_entry` to the return. -/
def submitAndPoll (nents : Nat) (st : BatchState) : Outcome :=
  match submitList env st.lists st.toCopyState with
  | none => .oops st
  | some (false, copy) => .returned false { st with toCopyState := copy }
  | some (true, copy) =>
    let polled := pollLoop device env nents pollRetryMax 0 { st with toCopyState := copy }
    .returned true { polled with trace := polled.trace ++ [.unmap] }

def initial : BatchState where
  toCopyState := copyInitial q
  allocs := []
  buffers := []

def building : Building :=
  if q.src.nents > 1 ∧ q.dst.nents > 1 then buildBatches q device env (nents q) 0 (initial q)
  else buildPlain q env (initial q)

def dsaCopy : Outcome :=
  match building q device env with
  | .blocked st => .blocked st
  | .oops st => .oops st
  | .ready st =>
    submitAndPoll device env (if q.src.nents > 1 ∧ q.dst.nents > 1 then nents q else 1) st

end

variable {q : Queue} {device : Nat} {env : CopyEnv} {st : BatchState} {i left : Nat}

structure Built (q : Queue) (device : Nat) (env : CopyEnv) (st : BatchState) (i : Nat) : Prop where
  src : st.src = q.src.sgl.drop (q.batchCursor i)
  dst : st.dst = q.dst.sgl.drop (q.batchCursor i)
  built : st.built = i
  scans : st.scans = 0
  submits : st.submits = 0
  allocs : st.allocs = List.range i
  granted : ∀ j < i, j < q.wq.numDescs ∧ env.grant j ≠ none ∧ q.wq.enabled = true
  entries : ∃ batches : List (IdxdDesc × BatchInfo),
    List.Forall₂ (fun j batch => Cut q j (.batch batch.1 batch.2)) (List.range i) batches ∧
    st.lists = batches.zipIdx.map (fun b => ⟨b.2, some (.batch b.1.1 b.1.2), false⟩) ∧
    st.trace = batches.zipIdx.map (fun b => .build b.2 (some (.batch b.1.1 b.1.2))) ∧
    st.buffers = batches.zipIdx.flatMap (fun b => (b.1.2.mapEvents device).map (b.2, ·))

theorem built_initial (several : q.totalNents ≠ 1) : Built q device env (initial q) 0 where
  src := by simp [initial, copyInitial, Queue.batchCursor_several several]
  dst := by simp [initial, copyInitial, Queue.batchCursor_several several]
  built := rfl
  scans := rfl
  submits := rfl
  allocs := rfl
  granted := by simp
  entries := ⟨[], .nil, rfl, rfl, rfl⟩

theorem Built.next (built : Built q device env st i) (several : q.totalNents ≠ 1)
    (below : i * q.wq.maxBatchSize < q.totalNents) (enabled : q.wq.enabled = true)
    (free : i < q.wq.numDescs) (granted : env.grant i ≠ none) :
    ∃ st', Built q device env st' (i + 1) ∧
      buildBatches q device env (left + 1) i st = buildBatches q device env left (i + 1) st' := by
  have ⟨g, grant⟩ := Option.ne_none_iff_exists'.mp granted
  have ⟨task, made, srcs, dsts, piece⟩ := batch_made enabled several below g
  have ⟨batches, pieces, lists, trace, buffers⟩ := built.entries
  have length : batches.length = i := by
    rw [← pieces.length_eq, List.length_range]
  refine ⟨addBatch device (callAlloc st) task, ?_, ?_⟩
  · exact
      { src := srcs
        dst := dsts
        built := by simp [addBatch, callAlloc, built.built]
        scans := built.scans
        submits := built.submits
        allocs := by simp [addBatch, callAlloc, built.allocs, built.built, List.range_succ]
        granted := by
          intro j below
          by_cases old : j < i
          · exact built.granted j old
          · have last : j = i := by omega
            rw [last]
            exact ⟨free, granted, enabled⟩
        entries := by
          refine ⟨batches ++ [(task.desc, task.batchInfo)], ?_, ?_, ?_, ?_⟩
          · rw [List.range_succ]
            exact List.rel_append pieces (.cons piece .nil)
          · simp [addBatch, callAlloc, lists, built.built, List.zipIdx_append, length]
          · simp [addBatch, callAlloc, trace, built.built, List.zipIdx_append, length]
          · simp [addBatch, callAlloc, buffers, built.built, List.zipIdx_append, length] }
  · rw [built.src.symm, built.dst.symm] at made
    simp only [buildBatches, enabled, Bool.true_eq_false, ↓reduceIte, built.built,
      Nat.not_le_of_lt free, grant, made]

inductive BuildEnd (q : Queue) (device : Nat) (env : CopyEnv) (n : Nat) : Building → Prop
  | ready {s} : Built q device env s n → BuildEnd q device env n (.ready s)
  | disabled {s j} : j < n → Built q device env s j → q.wq.enabled = false →
      BuildEnd q device env n (.oops s)
  | blocked {s j} : j < n → Built q device env s j → q.wq.enabled = true → q.wq.numDescs ≤ j →
      BuildEnd q device env n (.blocked (callAlloc s))
  | refused {s j} : j < n → Built q device env s j → j < q.wq.numDescs → env.grant j = none →
      BuildEnd q device env n (.oops (callAlloc s))

theorem buildBatches_end (several : q.totalNents ≠ 1) (size : i + left = nents q)
    (built : Built q device env st i) :
    BuildEnd q device env (nents q) (buildBatches q device env left i st) := by
  induction left generalizing i st with
  | zero =>
    rw [Nat.add_zero] at size
    exact .ready (size ▸ built)
  | succ left ih =>
    have due : i < nents q := by omega
    have below : i * q.wq.maxBatchSize < q.totalNents := (q.shape.lt_descsEntries_batch i).mp due
    by_cases enabled : q.wq.enabled = true
    · by_cases free : i < q.wq.numDescs
      · by_cases granted : env.grant i = none
        · simp only [buildBatches, enabled, Bool.true_eq_false, ↓reduceIte, built.built,
            Nat.not_le_of_lt free, granted, idxdDescDmaSubmitMemcpySg]
          exact .refused due built free granted
        · obtain ⟨st', built', same⟩ : ∃ st', Built q device env st' (i + 1) ∧
              buildBatches q device env (left + 1) i st = buildBatches q device env left (i + 1) st' :=
            built.next several below enabled free granted
          rw [same]
          exact ih (by omega) built'
      · simp only [buildBatches, enabled, Bool.true_eq_false, ↓reduceIte, built.built,
          Nat.le_of_not_lt free]
        exact .blocked due built enabled (Nat.le_of_not_lt free)
    · rw [Bool.not_eq_true] at enabled
      simp only [buildBatches, enabled, ↓reduceIte]
      exact .disabled due built enabled

theorem Built.le_numDescs (built : Built q device env st i) : i ≤ q.wq.numDescs := by
  cases i with
  | zero => exact Nat.zero_le _
  | succ i => exact (built.granted i (Nat.lt_succ_self i)).1

theorem Built.callAlloc_allocs (built : Built q device env st i) :
    (callAlloc st).allocs = List.range (i + 1) := by
  rw [callAlloc, built.allocs, built.built, List.range_succ]

theorem BuildEnd.starved_iff {n : Nat} {result : Building}
    (ended : BuildEnd q device env n result) :
    q.wq.numDescs ∈ result.state.allocs ↔
      q.wq.numDescs < n ∧ q.wq.enabled = true ∧ ∀ j < q.wq.numDescs, env.grant j ≠ none := by
  cases ended with
  | ready built =>
    have room := built.le_numDescs
    simp only [Building.state, built.allocs, List.mem_range]
    omega
  | disabled due built disabled =>
    have room := built.le_numDescs
    simp only [Building.state, built.allocs, List.mem_range, disabled]
    simp only [Bool.false_eq_true, false_and, and_false, iff_false]
    omega
  | @blocked s j due built enabled full =>
    have all : j = q.wq.numDescs := Nat.le_antisymm built.le_numDescs full
    subst all
    simp only [Building.state, built.callAlloc_allocs, List.mem_range]
    have granted : ∀ j < q.wq.numDescs, env.grant j ≠ none := fun j held => (built.granted j held).2.1
    simpa [due, enabled] using granted
  | @refused s j due built free refused =>
    simp only [Building.state, built.callAlloc_allocs, List.mem_range]
    constructor
    · intro called
      omega
    · intro ⟨_, _, granted⟩
      exact absurd refused (granted j free)

theorem pollLoop_copy (device n left pollEntry : Nat) (st : BatchState) :
    (pollLoop device env n left pollEntry st).toCopyState =
      SingleDevice.pollLoop env n left pollEntry st.toCopyState := by
  induction left generalizing pollEntry st with
  | zero => rfl
  | succ left ih =>
    rw [pollLoop, SingleDevice.pollLoop]
    split
    next => exact ih _ _
    next => rfl

theorem pollLoop_allocs (n left pollEntry : Nat) (st : BatchState) :
    (pollLoop device env n left pollEntry st).allocs = st.allocs := by
  induction left generalizing pollEntry st with
  | zero => rfl
  | succ left ih =>
    rw [pollLoop]
    split
    next => exact ih _ _
    next => rfl

theorem submitAndPoll_allocs (n : Nat) (st : BatchState) :
    (submitAndPoll device env n st).state.allocs = st.allocs := by
  unfold submitAndPoll
  split
  next => rfl
  next => rfl
  next => exact pollLoop_allocs _ _ _ _

theorem dsaCopy_allocs (q : Queue) (device : Nat) (env : CopyEnv) :
    (dsaCopy q device env).state.allocs = (building q device env).state.allocs := by
  unfold dsaCopy
  split
  next ended => simp [ended, Outcome.state, Building.state]
  next ended => simp [ended, Outcome.state, Building.state]
  next ended => simp [ended, submitAndPoll_allocs, Building.state]

theorem buildPlain_allocs (numDescs : 0 < q.wq.numDescs) :
    q.wq.numDescs ∉ (buildPlain q env (initial q)).state.allocs := by
  unfold buildPlain
  split
  next =>
    simp only [Building.state]
    split
    next => simp [callAlloc, initial, copyInitial, Nat.ne_of_gt numDescs]
    next => simp [initial]
  next => simp [Building.state, initial]

theorem several_of_branch (several : q.src.nents > 1 ∧ q.dst.nents > 1) : q.totalNents ≠ 1 := by
  have total : q.totalNents = min q.src.nents q.dst.nents := Shape.totalNents_eq_min q.shape
  omega

/-- `dsa_copy` asks for one more descriptor while it holds all of them exactly where the
list needs more batches than the queue has descriptors and the first `num_descs`
creations succeed. -/
theorem never_starves_iff (q : Queue) (device : Nat) (env : CopyEnv)
    (numDescs : 0 < q.wq.numDescs) :
    q.wq.numDescs ∉ (dsaCopy q device env).state.allocs ↔
      nents q ≤ q.wq.numDescs ∨ q.wq.enabled = false ∨
        ∃ j < q.wq.numDescs, env.grant j = none := by
  rw [dsaCopy_allocs]
  by_cases several : q.src.nents > 1 ∧ q.dst.nents > 1
  · have ended : BuildEnd q device env (nents q) (buildBatches q device env (nents q) 0 (initial q)) :=
      buildBatches_end (several_of_branch several) (Nat.zero_add _)
        (built_initial (several_of_branch several))
    rw [building, if_pos several, ended.starved_iff]
    simp only [not_and, not_forall, not_not, Bool.eq_false_iff, exists_prop]
    constructor
    · intro starved
      by_cases more : q.wq.numDescs < nents q
      · by_cases enabled : q.wq.enabled = true
        · exact .inr (.inr (starved more enabled))
        · exact .inr (.inl enabled)
      · exact .inl (Nat.le_of_not_lt more)
    · intro condition more enabled
      cases condition with
      | inl enough => exact absurd more (Nat.not_lt_of_le enough)
      | inr other => exact other.resolve_left (not_not_intro enabled)
  · have few : q.totalNents ≤ 1 := by
      have total : q.totalNents = min q.src.nents q.dst.nents := Shape.totalNents_eq_min q.shape
      omega
    have one : nents q ≤ q.wq.numDescs := by
      by_contra more
      have begun : q.wq.numDescs * q.wq.maxBatchSize < q.totalNents :=
        (q.shape.lt_descsEntries_batch _).mp (Nat.lt_of_not_le more)
      have grown := Nat.mul_le_mul numDescs q.wq.maxBatchSize_pos
      omega
    rw [building, if_neg several]
    simp [buildPlain_allocs numDescs, one]

theorem never_starves_three : threeSegmentQueue.wq.numDescs ∉
    (dsaCopy threeSegmentQueue 0 promptEnv).state.allocs :=
  (never_starves_iff threeSegmentQueue 0 promptEnv (by decide)).mpr (.inl (by decide))

def tightQueue (src dst : MappedTable) : Queue where
  wq := { enabled := true, maxXferBytes := 16384, maxBatchSize := 1, numDescs := 1, complSize := 32,
          pasid := none, maxBatchSize_pos := Nat.one_pos }
  src := src
  dst := dst

/-- The second of two batches waits for the descriptor of the first. -/
theorem starves_tight :
    ¬ ∀ (q : Queue) (device : Nat) (env : CopyEnv), 2 ≤ q.totalNents → 0 < q.wq.numDescs →
      (∀ i, env.grant i ≠ none) → q.wq.numDescs ∉ (dsaCopy q device env).state.allocs := by
  intro claim
  have never := claim (tightQueue alignedQueue.src alignedQueue.dst) 0 promptEnv (by decide)
    (by decide) promptEnv_serving.granted
  revert never
  decide

end DsaTest.BatchDevice
