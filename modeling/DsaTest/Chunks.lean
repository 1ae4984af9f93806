import DsaTest.Polling

/-! The chunks of `kernel_test_sgtable.c`: what is left of one chunk on
`idxd_desc_lists` is submitted again with the next. -/
namespace DsaTest.SingleDevice

def CopyEvent.submits (no : Nat) : CopyEvent → Bool
  | .submit n _ _ => n = no
  | _ => false

/-- The descriptors built since the last chunk began. -/
def CopyEvent.current (numbers : List Nat) : CopyEvent → List Nat
  | .chunk _ => []
  | .build no _ => no :: numbers
  | _ => numbers

/-- `poll_entry` counts only descriptors of the chunk that is being polled. -/
def CountsOwn : List Nat → List CopyEvent → Prop
  | _, [] => True
  | numbers, ev :: rest =>
    (∀ no status, ev = .count no status → no ∈ numbers) ∧ CountsOwn (ev.current numbers) rest

/-- Each descriptor on the list is passed to `idxd_submit_desc` once, and counted in its
own chunk only. -/
structure SubmittedOnce (trace : List CopyEvent) : Prop where
  once : ∀ no desc, .build no (some desc) ∈ trace → trace.countP (·.submits no) = 1
  own : CountsOwn [] trace

/-- `n` scans from `start` on are what it takes until all descriptors of the chunk from
`no` on have been answered, each with success. -/
structure Succeeds (env : CopyEnv) (start no size n : Nat) : Prop where
  within : n ≤ pollRetryMax
  success : ∀ i, no ≤ i → i < no + size → seen env start i n = dsaCompSuccess
  needed : ∀ n' < n, ∃ i, no ≤ i ∧ i < no + size ∧ seen env start i n' = 0

/-- After `n` scans from `start` on the chunk from `no` on is through, or given up at the
poll limit, and none of its descriptors has been found with success. -/
structure Fails (env : CopyEnv) (start no size n : Nat) : Prop where
  within : n ≤ pollRetryMax
  failed : ∀ i, no ≤ i → i < no + size → seen env start i n ≠ dsaCompSuccess
  needed : ∀ n' < n, ∃ i, no ≤ i ∧ i < no + size ∧ seen env start i n' = 0
  stopped : n = pollRetryMax ∨ ∀ i, no ≤ i → i < no + size → seen env start i n ≠ 0

/-- Every chunk but the last is answered with success before the poll limit, up to the
first, if any, in which nothing succeeds: it keeps the whole pool. -/
def Clear (env : CopyEnv) : List Nat → Nat → Nat → Prop
  | size :: next :: sizes, start, no =>
    (∃ n, Succeeds env start no size n ∧ Clear env (next :: sizes) (start + n) (no + size)) ∨
      ∃ n, Fails env start no size n
  | _, _, _ => True

def chunkSizes (q : Queue) : Nat → Nat → List Nat
  | 0, _ => []
  | left + 1, loop =>
    min q.wq.numDescs (q.totalNents - loop * q.wq.numDescs) :: chunkSizes q left (loop + 1)

def chunks (q : Queue) : List Nat :=
  if q.src.nents > 1 ∧ q.dst.nents > 1 then chunkSizes q (loopTimes q) 0 else [1]

variable {q : Queue} {env : CopyEnv} {st st' : CopyState} {l : List ListEntry}
  {n size start no left loop : Nat}

theorem countsOwn_append (numbers : List Nat) (t u : List CopyEvent) :
    CountsOwn numbers (t ++ u) ↔
      CountsOwn numbers t ∧ CountsOwn (t.foldl CopyEvent.current numbers) u := by
  induction t generalizing numbers with
  | nil => simp [CountsOwn]
  | cons ev rest ih => simp [CountsOwn, ih, and_assoc]

theorem current_builds (numbers : List Nat) (l : List ListEntry) :
    (l.map fun e => CopyEvent.build e.no e.desc).foldl CopyEvent.current numbers =
      (l.map (·.no)).reverse ++ numbers := by
  induction l generalizing numbers with
  | nil => rfl
  | cons e rest ih => simp [CopyEvent.current, ih]

theorem countsOwn_builds (numbers : List Nat) (l : List ListEntry) :
    CountsOwn numbers (l.map fun e => .build e.no e.desc) := by
  induction l generalizing numbers with
  | nil => trivial
  | cons e rest ih => exact ⟨by simp, ih _⟩

def submission (l : List ListEntry) : List CopyEvent :=
  l.filterMap fun e => e.desc.map fun desc => .submit e.no desc true

theorem mem_submission {ev : CopyEvent} (inside : ev ∈ submission l) :
    ∃ no desc, ev = .submit no desc true := by
  have ⟨e, _, made⟩ := List.mem_filterMap.mp inside
  have ⟨desc, _, same⟩ := Option.map_eq_some_iff.mp made
  exact ⟨e.no, desc, same.symm⟩

theorem countsOwn_submission (numbers : List Nat) (l : List CopyEvent)
    (kind : ∀ ev ∈ l, ∃ no desc, ev = .submit no desc true) :
    CountsOwn numbers l ∧ l.foldl CopyEvent.current numbers = numbers := by
  induction l generalizing numbers with
  | nil => exact ⟨trivial, rfl⟩
  | cons ev rest ih =>
    rw [List.forall_mem_cons] at kind
    have ⟨⟨no, desc, same⟩, later⟩ := kind
    subst same
    exact ⟨⟨by simp, (ih numbers later).1⟩, (ih numbers later).2⟩

theorem countsOwn_counts {numbers : List Nat} {counts : List CopyEvent}
    (own : ∀ ev ∈ counts, ∃ no ∈ numbers, ∃ status, ev = .count no status) :
    CountsOwn numbers counts := by
  induction counts with
  | nil => trivial
  | cons ev rest ih =>
    rw [List.forall_mem_cons] at own
    have ⟨⟨no, inside, status, same⟩, later⟩ := own
    subst same
    refine ⟨?_, ih later⟩
    intro no' status' same
    cases same
    exact inside

theorem submitList_all {ok : Bool} (accepted : ∀ i, env.submitOk i = true)
    (result : submitList env l st = some (ok, st')) :
    ok = true ∧ (∀ e ∈ l, e.desc ≠ none) ∧ st' = { st with
      submits := st.submits + l.length
      trace := st.trace ++ submission l } := by
  induction l generalizing st with
  | nil =>
    cases result
    simp [submission]
  | cons e rest ih =>
    rw [submitList] at result
    split at result
    next => contradiction
    next desc made =>
      simp only [accepted, if_true] at result
      obtain ⟨all, made', shape⟩ := ih result
      refine ⟨all, by simpa [made] using made', ?_⟩
      rw [shape]
      simp [submission, made, Nat.add_assoc, Nat.add_comm 1]

theorem countP_submission (made : ∀ e ∈ l, e.desc ≠ none) (no : Nat) :
    (submission l).countP (·.submits no) = (l.map (·.no)).count no := by
  induction l with
  | nil => rfl
  | cons e rest ih =>
    rw [List.forall_mem_cons] at made
    have ⟨desc, here⟩ := Option.ne_none_iff_exists'.mp made.1
    have split : submission (e :: rest) = .submit e.no desc true :: submission rest := by
      simp [submission, here]
    rw [split, List.countP_cons, ih made.2, List.map_cons, List.count_cons]
    simp [CopyEvent.submits]

/-- A trace over the descriptors below `n` in which each has been submitted once. -/
structure Sound (trace : List CopyEvent) (n : Nat) : Prop extends SubmittedOnce trace where
  old : ∀ no desc, .build no desc ∈ trace → no < n
  unsubmitted : ∀ no, n ≤ no → trace.countP (·.submits no) = 0

theorem sound_nil : Sound [] 0 where
  once := by simp
  own := trivial
  old := by simp
  unsubmitted := by simp

def chunkTrace (l : List ListEntry) (counts : List CopyEvent) : List CopyEvent :=
  .chunk l.length :: (l.map fun e => .build e.no e.desc) ++ submission l ++ counts

theorem countP_chunkTrace {counts : List CopyEvent} (made : ∀ e ∈ l, e.desc ≠ none)
    (own : ∀ ev ∈ counts, ∃ e ∈ l, ∃ status, ev = .count e.no status) (no : Nat) :
    (chunkTrace l counts).countP (·.submits no) = (l.map (·.no)).count no := by
  have builds : (l.map fun e => CopyEvent.build e.no e.desc).countP (·.submits no) = 0 := by
    simp [List.countP_eq_zero, CopyEvent.submits]
  have polls : counts.countP (·.submits no) = 0 := by
    rw [List.countP_eq_zero]
    intro ev inside
    have ⟨e, _, status, same⟩ := own ev inside
    simp [same, CopyEvent.submits]
  rw [chunkTrace, List.countP_append, List.countP_append, List.countP_cons, builds, polls,
    countP_submission made]
  simp [CopyEvent.submits]

theorem mem_chunkTrace {counts : List CopyEvent} {no : Nat} {desc : Option Handed}
    (own : ∀ ev ∈ counts, ∃ e ∈ l, ∃ status, ev = .count e.no status)
    (inside : .build no desc ∈ chunkTrace l counts) : no ∈ l.map (·.no) := by
  rw [chunkTrace, List.mem_append, List.mem_append] at inside
  cases inside with
  | inl early =>
    cases early with
    | inl built =>
      cases built with
      | tail _ built =>
        have ⟨e, listed, same⟩ := List.mem_map.mp built
        cases same
        exact List.mem_map_of_mem listed
    | inr submitted =>
      have ⟨_, _, same⟩ := mem_submission submitted
      cases same
  | inr polled =>
    have ⟨_, _, _, same⟩ := own _ polled
    cases same

theorem countsOwn_chunkTrace {counts : List CopyEvent} (numbers : List Nat)
    (own : ∀ ev ∈ counts, ∃ e ∈ l, ∃ status, ev = .count e.no status) :
    CountsOwn numbers (chunkTrace l counts) := by
  have submitted (numbers : List Nat) : CountsOwn numbers (submission l) ∧
      (submission l).foldl CopyEvent.current numbers = numbers :=
    countsOwn_submission numbers _ fun _ => mem_submission
  rw [chunkTrace, countsOwn_append, countsOwn_append, List.foldl_append, (submitted _).2]
  refine ⟨⟨⟨by simp, countsOwn_builds _ _⟩, (submitted _).1⟩, ?_⟩
  apply countsOwn_counts
  intro ev inside
  have ⟨e, listed, status, same⟩ := own ev inside
  refine ⟨e.no, ?_, status, same⟩
  rw [List.foldl_cons, current_builds]
  simpa using Or.inl ⟨e, listed, rfl⟩

theorem Sound.chunk {trace counts : List CopyEvent} (sound : Sound trace n)
    (numbers : l.map (·.no) = List.range' n l.length) (made : ∀ e ∈ l, e.desc ≠ none)
    (own : ∀ ev ∈ counts, ∃ e ∈ l, ∃ status, ev = .count e.no status) :
    Sound (trace ++ chunkTrace l counts) (n + l.length) := by
  have submits (no : Nat) : (trace ++ chunkTrace l counts).countP (·.submits no) =
      trace.countP (·.submits no) + if n ≤ no ∧ no < n + l.length then 1 else 0 := by
    rw [List.countP_append, countP_chunkTrace made own, numbers, (List.nodup_range' 1).count]
    simp [List.mem_range'_1]
  have new {no : Nat} {desc : Option Handed} (inside : .build no desc ∈ chunkTrace l counts) :
      n ≤ no ∧ no < n + l.length := by
    have number := mem_chunkTrace own inside
    rwa [numbers, List.mem_range'_1] at number
  exact
    { once := by
        intro no desc inside
        rw [submits]
        cases List.mem_append.mp inside with
        | inl built =>
          have below := sound.old no desc built
          rw [sound.once no desc built, if_neg (by omega)]
        | inr built => rw [sound.unsubmitted no (new built).1, if_pos (new built)]
      own := by
        rw [countsOwn_append]
        exact ⟨sound.own, countsOwn_chunkTrace _ own⟩
      old := by
        intro no desc inside
        cases List.mem_append.mp inside with
        | inl built => exact Nat.lt_add_right _ (sound.old no desc built)
        | inr built => exact (new built).2
      unsubmitted := by
        intro no beyond
        rw [submits, sound.unsubmitted no (by omega), if_neg (by omega)] }

theorem leftAfter_eq_nil_iff :
    leftAfter env start n l = [] ↔ ∀ e ∈ l, seen env start e.no n = dsaCompSuccess := by
  simp [leftAfter, List.filter_eq_nil_iff]

theorem length_leftAfter_iff : (leftAfter env start n l).length = l.length ↔
    ∀ e ∈ l, seen env start e.no n ≠ dsaCompSuccess := by
  rw [leftAfter, List.length_map, List.length_filter_eq_length_iff]
  simp

section

variable {m : Nat} (numbers : l.map (·.no) = List.range' no l.length)
  (ended : PollEnd env start l.length pollRetryMax l st st' m)
include numbers ended

theorem PollEnd.unique (within : n ≤ pollRetryMax)
    (stopped : n = pollRetryMax ∨ ∀ i, no ≤ i → i < no + l.length → seen env start i n ≠ 0)
    (needed : ∀ n' < n, ∃ i, no ≤ i ∧ i < no + l.length ∧ seen env start i n' = 0) : n = m := by
  rw [← forall_numbers numbers fun i => seen env start i n ≠ 0] at stopped
  apply scans_unique within stopped _ ended.within ended.busy ended.ended
  intro n' below
  rw [exists_numbers numbers fun i => seen env start i n' = 0]
  exact needed n' below

theorem PollEnd.needed : ∀ n' < m, ∃ i, no ≤ i ∧ i < no + l.length ∧ seen env start i n' = 0 := by
  intro n' below
  rw [← exists_numbers numbers fun i => seen env start i n' = 0]
  exact unseen_of_busy (ended.busy n' below)

theorem PollEnd.succeeds_iff :
    Succeeds env start no l.length n ↔ n = m ∧ leftAfter env start m l = [] := by
  rw [leftAfter_eq_nil_iff, forall_numbers numbers fun i => seen env start i m = dsaCompSuccess]
  constructor
  · intro succeeds
    have answered : ∀ i, no ≤ i → i < no + l.length → seen env start i n ≠ 0 := by
      intro i above below
      rw [succeeds.success i above below]
      exact Nat.one_ne_zero
    have same := ended.unique numbers succeeds.within (.inr answered) succeeds.needed
    exact ⟨same, same ▸ succeeds.success⟩
  · rintro ⟨same, all⟩
    subst same
    exact ⟨ended.within, all, ended.needed numbers⟩

theorem PollEnd.fails_iff :
    Fails env start no l.length n ↔ n = m ∧ (leftAfter env start m l).length = l.length := by
  rw [length_leftAfter_iff, forall_numbers numbers fun i => seen env start i m ≠ dsaCompSuccess]
  constructor
  · intro fails
    have same := ended.unique numbers fails.within fails.stopped fails.needed
    exact ⟨same, same ▸ fails.failed⟩
  · rintro ⟨same, none⟩
    subst same
    have stopped := ended.ended
    rw [length_le_counted_iff, forall_numbers numbers fun i => seen env start i n ≠ 0] at stopped
    exact ⟨ended.within, none, ended.needed numbers, stopped⟩

end

theorem submitAndPoll_end {ok : Bool} {nents : Nat} (accepted : ∀ i, env.submitOk i = true)
    (fresh : ∀ e ∈ st.lists, e.completion = false)
    (result : submitAndPoll env nents st = some (ok, st')) :
    ok = true ∧ (∀ e ∈ st.lists, e.desc ≠ none) ∧ ∃ m,
      PollEnd env st.scans nents pollRetryMax st.lists { st with
        submits := st.submits + st.lists.length
        trace := st.trace ++ submission st.lists } st' m := by
  unfold submitAndPoll at result
  split at result
  next mid submitted =>
    have ⟨_, made, shape⟩ := submitList_all accepted submitted
    cases result
    subst shape
    have fresh' : ∀ e ∈ ({ st with
        submits := st.submits + st.lists.length
        trace := st.trace ++ submission st.lists } : CopyState).lists, e.completion = false := fresh
    exact ⟨rfl, made, pollLoop_fresh fresh'⟩
  next failed =>
    cases ok with
    | true => exact absurd result (failed st')
    | false =>
      have ⟨all, _⟩ := submitList_all accepted result
      contradiction

theorem submitAndPoll_ok {ok : Bool} {nents : Nat} (accepted : ∀ i, env.submitOk i = true)
    (result : submitAndPoll env nents st = some (ok, st')) :
    ok = true ∧ ∀ e ∈ st.lists, e.desc ≠ none := by
  unfold submitAndPoll at result
  split at result
  next mid submitted =>
    have ⟨_, made, _⟩ := submitList_all accepted submitted
    cases result
    exact ⟨rfl, made⟩
  next =>
    have ⟨all, made, _⟩ := submitList_all accepted result
    exact ⟨all, made⟩

/-- How a chunk ends that starts with the new entries `st.lists` only, from number `n`
on: after `m` scans, with `st'.lists` left over. -/
structure ChunkEnd (env : CopyEnv) (st st' : CopyState) (n m : Nat) : Prop where
  src : st'.src = st.src
  dst : st'.dst = st.dst
  built : st'.built = st.built
  scans : st'.scans = st.scans + m
  sound : Sound st'.trace (n + st.lists.length)
  succeeds : ∀ n', Succeeds env st.scans n st.lists.length n' ↔ n' = m ∧ st'.lists = []
  fails : ∀ n', Fails env st.scans n st.lists.length n' ↔
    n' = m ∧ st'.lists.length = st.lists.length
  few : st'.lists.length ≤ st.lists.length
  left : ∀ e ∈ st'.lists, ∃ desc, e.desc = some desc ∧ .build e.no (some desc) ∈ st'.trace

theorem chunk_end {ok : Bool} {trace : List CopyEvent} (accepted : ∀ i, env.submitOk i = true)
    (sound : Sound trace n) (fresh : ∀ e ∈ st.lists, e.completion = false)
    (numbers : st.lists.map (·.no) = List.range' n st.lists.length)
    (before : st.trace = trace ++
      .chunk st.lists.length :: st.lists.map fun e => .build e.no e.desc)
    (result : submitAndPoll env st.lists.length st = some (ok, st')) :
    ok = true ∧ ∃ m, ChunkEnd env st st' n m := by
  obtain ⟨all, made, m, ended⟩ := submitAndPoll_end accepted fresh result
  obtain ⟨counts, shape, own, _⟩ := ended.state
  have whole : st'.trace = trace ++ chunkTrace st.lists counts := by
    rw [shape, before, chunkTrace]
    simp
  have lists : st'.lists = leftAfter env st.scans m st.lists := by rw [shape]
  refine ⟨all, m, ?_⟩
  exact
    { src := by rw [shape]
      dst := by rw [shape]
      built := by rw [shape]
      scans := by rw [shape]
      sound := by
        rw [whole]
        exact sound.chunk numbers made own
      succeeds := by
        intro n'
        rw [lists]
        exact ended.succeeds_iff numbers
      fails := by
        intro n'
        rw [lists]
        exact ended.fails_iff numbers
      few := by
        rw [lists, leftAfter, List.length_map]
        exact List.length_filter_le _ _
      left := by
        intro e listed
        rw [lists] at listed
        obtain ⟨e', kept, same⟩ := List.mem_map.mp listed
        have listed' := (List.mem_filter.mp kept).1
        obtain ⟨desc, here⟩ := Option.ne_none_iff_exists'.mp (made e' listed')
        subst same
        refine ⟨desc, here, ?_⟩
        rw [whole, ← here, chunkTrace]
        simp only [List.mem_append, List.mem_cons, List.mem_map]
        exact .inr (.inl (.inl (.inr ⟨e', listed', rfl⟩))) }

def Twice (no : Nat) (st : CopyState) : Prop :=
  (∃ desc, .build no (some desc) ∈ st.trace) ∧ 2 ≤ st.trace.countP (·.submits no)

theorem Twice.grows {P : CopyEvent → Prop} (twice : Twice no st) (grows : Grows P st st') :
    Twice no st' := by
  have ⟨⟨desc, built⟩, count⟩ := twice
  have ⟨more, grown, _⟩ := grows
  rw [Twice, grown, List.countP_append]
  exact ⟨⟨desc, List.mem_append_left _ built⟩, by omega⟩

theorem Twice.not_once (twice : Twice no st) : ¬ SubmittedOnce st.trace := by
  intro once
  have ⟨⟨desc, built⟩, count⟩ := twice
  have one := once.once no desc built
  omega

theorem submitAndPoll_twice {ok : Bool} {nents : Nat} {e : ListEntry}
    (accepted : ∀ i, env.submitOk i = true) (listed : e ∈ st.lists)
    (built : ∃ desc, .build e.no (some desc) ∈ st.trace)
    (once : st.trace.countP (·.submits e.no) = 1)
    (result : submitAndPoll env nents st = some (ok, st')) : Twice e.no st' := by
  have again {ok : Bool} {mid : CopyState} (submitted : submitList env st.lists st = some (ok, mid)) :
      Twice e.no mid := by
    have ⟨_, made, shape⟩ := submitList_all accepted submitted
    have listed' : e.no ∈ st.lists.map (·.no) := List.mem_map_of_mem listed
    have count := List.one_le_count_iff.mpr listed'
    have ⟨desc, inside⟩ := built
    rw [Twice, shape, List.countP_append, once, countP_submission made]
    exact ⟨⟨desc, List.mem_append_left _ inside⟩, by omega⟩
  unfold submitAndPoll at result
  split at result
  next mid submitted =>
    cases result
    exact (again submitted).grows (pollLoop_grows _ _ _ _ _)
  next => exact again result

structure ChunkStart (q : Queue) (st : CopyState) (n : Nat) : Prop where
  src : st.src = q.src.sgl.drop n
  dst : st.dst = q.dst.sgl.drop n
  lists : st.lists = []
  built : st.built = n
  sound : Sound st.trace n

structure ChunkBuilt (q : Queue) (st built : CopyState) (n size : Nat) : Prop where
  src : built.src = q.src.sgl.drop (n + size)
  dst : built.dst = q.dst.sgl.drop (n + size)
  scans : built.scans = st.scans
  submits : built.submits = st.submits
  count : built.built = st.built + size
  lists : ∃ new, built.lists = st.lists ++ new ∧ new.length = size ∧
    new.map (·.no) = List.range' st.built size ∧ (∀ e ∈ new, e.completion = false) ∧
    built.trace = st.trace ++ .chunk size :: new.map fun e => .build e.no e.desc

theorem chunkBuilt {built : CopyState} (src : st.src = q.src.sgl.drop n)
    (dst : st.dst = q.dst.sgl.drop n) (inside : n + size ≤ q.totalNents)
    (building : buildChunk q env size { st with trace := st.trace ++ [.chunk size] } = .ok built) :
    ChunkBuilt q st built n size := by
  have exactly : built =
      ({ st with trace := st.trace ++ [.chunk size] } : CopyState).after q env n size :=
    buildChunk_ok src dst inside building
  have length : ((q.pairs.drop n).take size).length = size := by
    rw [List.length_take, List.length_drop, q.length_pairs, Nat.min_eq_left (by omega)]
  rw [exactly]
  exact
    { src := rfl
      dst := rfl
      scans := rfl
      submits := rfl
      count := rfl
      lists := by
        refine ⟨_, rfl, ?_, ?_, fun e => newEntries_unmarked, by simp [CopyState.after]⟩
        · simp [newEntries, length]
        · rw [newEntries_numbers, length] }

theorem ChunkStart.builds (env : CopyEnv) (chunk : ChunkStart q st n) (inside : n + size ≤ q.totalNents)
    (room : size ≤ q.wq.numDescs) : ∃ built,
      buildChunk q env size { st with trace := st.trace ++ [.chunk size] } = .ok built := by
  refine ⟨_, buildChunk_room chunk.src chunk.dst inside ?_⟩
  simpa [chunk.lists] using room

theorem ChunkStart.next {ok : Bool} {built : CopyState} (chunk : ChunkStart q st n)
    (accepted : ∀ i, env.submitOk i = true) (inside : n + size ≤ q.totalNents)
    (building : buildChunk q env size { st with trace := st.trace ++ [.chunk size] } = .ok built)
    (polling : submitAndPoll env size built = some (ok, st')) :
    ok = true ∧ ∃ m, ChunkEnd env built st' n m ∧ ChunkBuilt q st built n size ∧
      built.lists.length = size := by
  have new := chunkBuilt chunk.src chunk.dst inside building
  have ⟨entries, lists, length, numbers, fresh, trace⟩ := new.lists
  rw [chunk.lists, List.nil_append] at lists
  rw [← lists] at length numbers fresh trace
  rw [← length] at polling
  rw [chunk.built, ← length] at numbers
  rw [← length] at trace
  have ⟨all, m, ended⟩ := chunk_end accepted chunk.sound fresh numbers trace polling
  exact ⟨all, m, ended, new, length⟩

theorem lt_totalNents_of_lt_loopTimes (positive : 0 < q.wq.numDescs) (below : loop < loopTimes q) :
    loop * q.wq.numDescs < q.totalNents := by
  have whole := Nat.div_add_mod q.totalNents q.wq.numDescs
  rw [loopTimes] at below
  rw [Nat.mul_comm] at whole
  split at below
  next part =>
    have most := Nat.mul_le_mul_right q.wq.numDescs (Nat.le_of_lt_succ below)
    omega
  next =>
    rw [Nat.add_zero] at below
    have most := Nat.mul_le_mul_right q.wq.numDescs (Nat.succ_le_of_lt below)
    rw [Nat.succ_mul] at most
    omega

theorem chunk_size (q : Queue) (loop : Nat) :
    (if q.totalNents - loop * q.wq.numDescs > q.wq.numDescs then q.wq.numDescs
      else q.totalNents - loop * q.wq.numDescs) =
      min q.wq.numDescs (q.totalNents - loop * q.wq.numDescs) := by
  split <;> omega

theorem chunk_whole (q : Queue) (loop : Nat) :
    min (loop * q.wq.numDescs) q.totalNents +
      min q.wq.numDescs (q.totalNents - loop * q.wq.numDescs) =
      min ((loop + 1) * q.wq.numDescs) q.totalNents := by
  rw [Nat.succ_mul]
  omega

theorem createDesc_full {src dst : Segment} (full : q.wq.numDescs ≤ st.held)
    (free : ¬ blocks q env st src dst = true) : createDesc q env st.built src dst = none := by
  rw [createDesc, idxdDescDmaSubmitMemcpy, Option.map_eq_none_iff]
  split
  next => rfl
  next enabled =>
    split
    next => rfl
    next fits =>
      rw [Bool.not_eq_false] at enabled
      have refused : env.grant st.built = none := by
        simpa [blocks, enabled, Nat.le_of_not_gt fits, full] using free
      rw [refused]
      rfl

theorem buildChunk_full (full : q.wq.numDescs ≤ st.held)
    (result : buildChunk q env size st = .ok st' ∨ buildChunk q env size st = .error (.blocked st')) :
    ∃ new, st'.lists = st.lists ++ new ∧ ∀ e ∈ new, e.desc = none := by
  induction size generalizing st with
  | zero =>
    cases result with
    | inl ended =>
      cases ended
      exact ⟨[], by simp, by simp⟩
    | inr waits => cases waits
  | succ size ih =>
    rw [buildChunk] at result
    split at result
    next src srcs dst dsts _ _ =>
      simp only [createEntry] at result
      by_cases waits : blocks q env st src dst = true
      · rw [if_pos waits] at result
        cases result with
        | inl ended => cases ended
        | inr stopped =>
          cases stopped
          exact ⟨[], by simp, by simp⟩
      · rw [if_neg waits] at result
        have none := createDesc_full full waits
        have full' : q.wq.numDescs ≤ ({ addEntry q env st src dst with
            src := srcs, dst := dsts } : CopyState).held := by
          simpa [CopyState.held, addEntry, none] using full
        obtain ⟨new, lists, nulls⟩ := ih full' result
        refine ⟨⟨st.built, createDesc q env st.built src dst, false⟩ :: new, ?_, ?_⟩
        · rw [lists]
          simp [addEntry]
        · rw [List.forall_mem_cons]
          exact ⟨none, nulls⟩
    next =>
      cases result with
      | inl ended => cases ended
      | inr waits => cases waits

theorem Sound.waiting {trace : List CopyEvent} (sound : Sound trace n)
    (new : ∀ e ∈ l, n ≤ e.no) :
    SubmittedOnce (trace ++ [.chunk size] ++ l.map fun e => .build e.no e.desc) ↔
      ∀ e ∈ l, e.desc = none := by
  have submits (no : Nat) :
      (trace ++ [CopyEvent.chunk size] ++ l.map fun e => CopyEvent.build e.no e.desc).countP
        (·.submits no) = trace.countP (·.submits no) := by
    simp [List.countP_append, CopyEvent.submits]
  constructor
  · intro once e listed
    by_contra made
    obtain ⟨desc, here⟩ := Option.ne_none_iff_exists'.mp made
    have one := once.once e.no desc (List.mem_append_right _ (List.mem_map.mpr ⟨e, listed, by rw [here]⟩))
    rw [submits, sound.unsubmitted e.no (new e listed)] at one
    contradiction
  · intro nulls
    exact
      { once := by
          intro no desc built
          rw [submits]
          rw [List.mem_append, List.mem_append] at built
          rcases built with (before | started) | now
          · exact sound.once no desc before
          · simp at started
          · obtain ⟨e, listed, same⟩ := List.mem_map.mp now
            rw [CopyEvent.build.injEq, nulls e listed] at same
            simp at same
        own := by
          rw [countsOwn_append, countsOwn_append]
          exact ⟨⟨sound.own, by simp [CountsOwn]⟩, countsOwn_builds _ _⟩ }

/-- After a chunk that has left entries: they, and the descriptors of the list, in the order
of their creation. -/
structure Left (q : Queue) (st : CopyState) (n : Nat) : Prop where
  src : st.src = q.src.sgl.drop n
  dst : st.dst = q.dst.sgl.drop n
  built : st.built = n
  sound : Sound st.trace n
  remains : st.lists ≠ []
  room : st.lists.length ≤ q.wq.numDescs
  made : ∀ e ∈ st.lists, ∃ desc, e.desc = some desc ∧ .build e.no (some desc) ∈ st.trace

theorem Left.held (left : Left q st n) : st.held = st.lists.length := by
  rw [CopyState.held, List.countP_eq_length]
  intro e listed
  obtain ⟨desc, here, _⟩ := left.made e listed
  simp [here]

theorem Left.used (left : Left q st n) (all : st.lists.length = q.wq.numDescs)
    (trace : List CopyEvent) : q.wq.numDescs ≤ ({ st with trace := trace } : CopyState).held := by
  change q.wq.numDescs ≤ st.held
  rw [left.held, all]

theorem Left.waits {j : Nat} (left : Left q st n)
    (building : buildChunk q env size { st with trace := st.trace ++ [.chunk size] } =
      .error (.blocked (({ st with trace := st.trace ++ [.chunk size] } : CopyState).after q env n j)))
    (full : q.wq.numDescs ≤
      (({ st with trace := st.trace ++ [.chunk size] } : CopyState).after q env n j).held) :
    SubmittedOnce (({ st with trace := st.trace ++ [.chunk size] } : CopyState).after q env n j).trace ↔
      st.lists.length = q.wq.numDescs := by
  have new : ∀ e ∈ newEntries q env st.built ((q.pairs.drop n).take j), n ≤ e.no := by
    intro e listed
    have number : e.no ∈ (newEntries q env st.built ((q.pairs.drop n).take j)).map (·.no) :=
      List.mem_map_of_mem listed
    rw [newEntries_numbers, List.mem_range'_1, left.built] at number
    exact number.1
  have law : SubmittedOnce (st.trace ++ [.chunk size] ++
      (newEntries q env st.built ((q.pairs.drop n).take j)).map fun e => .build e.no e.desc) ↔
      ∀ e ∈ newEntries q env st.built ((q.pairs.drop n).take j), e.desc = none :=
    left.sound.waiting new
  refine law.trans ?_
  have held : (({ st with trace := st.trace ++ [.chunk size] } : CopyState).after q env n j).held =
      st.held + (newEntries q env st.built ((q.pairs.drop n).take j)).countP (·.desc.isSome) := by
    rw [CopyState.after, CopyState.held, List.countP_append]
    rfl
  constructor
  · intro nulls
    have none : (newEntries q env st.built ((q.pairs.drop n).take j)).countP (·.desc.isSome) = 0 := by
      rw [List.countP_eq_zero]
      intro e listed
      simp [nulls e listed]
    have room := left.room
    rw [held, none, left.held] at full
    omega
  · intro all
    obtain ⟨entries, lists, nulls⟩ := buildChunk_full (left.used all _) (.inr building)
    have same := List.append_cancel_left lists
    rwa [same]

theorem Left.not_full {ok : Bool} {built mid : CopyState} {new : List ListEntry}
    (left : Left q st n) (accepted : ∀ i, env.submitOk i = true)
    (building : buildChunk q env size { st with trace := st.trace ++ [.chunk size] } = .ok built)
    (lists : built.lists = st.lists ++ new) (more : 0 < q.wq.numDescs → 0 < new.length)
    (polling : submitAndPoll env size built = some (ok, mid)) :
    st.lists.length ≠ q.wq.numDescs := by
  intro all
  obtain ⟨new', lists', nulls⟩ := buildChunk_full (left.used all _) (.inl building)
  rw [lists] at lists'
  have same := List.append_cancel_left lists'
  have positive := List.length_pos_iff.mpr left.remains
  obtain ⟨e, first⟩ := List.exists_mem_of_length_pos (more (all ▸ positive))
  have here := (submitAndPoll_ok accepted polling).2 e
    (by rw [lists]; exact List.mem_append_right _ first)
  exact here (nulls e (same ▸ first))

/-- The chunk after one that has left entries submits them again, or waits. -/
theorem nextLoop_left {ok : Bool} (accepted : ∀ i, env.submitOk i = true)
    (before : Left q st (min (loop * q.wq.numDescs) q.totalNents))
    (more : min (loop * q.wq.numDescs) q.totalNents < q.totalNents)
    (result : nextLoop q env (left + 1) loop st = .ok (ok, st') ∨
      nextLoop q env (left + 1) loop st = .error (.blocked st')) :
    SubmittedOnce st'.trace ↔ st.lists.length = q.wq.numDescs := by
  have inside := chunk_whole q loop
  have bound := Nat.min_le_right ((loop + 1) * q.wq.numDescs) q.totalNents
  rw [← inside] at bound
  obtain ⟨size, same⟩ : ∃ size, size = min q.wq.numDescs (q.totalNents - loop * q.wq.numDescs) :=
    ⟨_, rfl⟩
  simp only [nextLoop, chunk_size, ← same] at result
  rw [← same] at bound
  have ends : ChunkEnds q env { st with trace := st.trace ++ [.chunk size] } _ size
      (buildChunk q env size { st with trace := st.trace ++ [.chunk size] }) :=
    buildChunk_ends env before.src before.dst bound
  cases building : buildChunk q env size { st with trace := st.trace ++ [.chunk size] } with
  | error stop =>
    rw [building] at result ends
    cases ends with
    | blocked below full =>
      cases result with
      | inl returned => cases returned
      | inr waits =>
        cases waits
        exact before.waits building full
  | ok built =>
    simp only [building] at result
    obtain ⟨new, lists, length, _, _, trace⟩ := (chunkBuilt before.src before.dst bound building).lists
    obtain ⟨e, listed⟩ := List.exists_mem_of_ne_nil _ before.remains
    obtain ⟨desc, _, inside'⟩ := before.made e listed
    have listed' : e ∈ built.lists := by
      rw [lists]
      exact List.mem_append_left _ listed
    have built' : ∃ desc, .build e.no (some desc) ∈ built.trace := by
      rw [trace]
      exact ⟨desc, List.mem_append_left _ inside'⟩
    have once' : built.trace.countP (·.submits e.no) = 1 := by
      have others : (new.map fun e => CopyEvent.build e.no e.desc).countP (·.submits e.no) = 0 := by
        simp [List.countP_eq_zero, CopyEvent.submits]
      rw [trace, List.countP_append, List.countP_cons, before.sound.once e.no desc inside', others]
      simp [CopyEvent.submits]
    have twice {mid : CopyState} (polling : submitAndPoll env size built = some (true, mid))
        (grows : Grows (fun _ => True) mid st') :
        SubmittedOnce st'.trace ↔ st.lists.length = q.wq.numDescs := by
      have again := submitAndPoll_twice accepted listed' built' once' polling
      have part := before.not_full accepted building lists (by omega) polling
      simp [(again.grows grows).not_once, part]
    split at result
    next => simp at result
    next mid polling => exact twice polling (nextLoop_grows result)
    next mid polling =>
      obtain ⟨all, _⟩ := submitAndPoll_ok accepted polling
      contradiction

theorem numDescs_pos (rounds : loop + 1 < loopTimes q) : 0 < q.wq.numDescs := by
  apply Nat.pos_of_ne_zero
  intro none
  rw [loopTimes, none, Nat.div_zero] at rounds
  split at rounds <;> omega

theorem chunk_full (rounds : loop + 1 < loopTimes q) :
    min q.wq.numDescs (q.totalNents - loop * q.wq.numDescs) = q.wq.numDescs := by
  have more := lt_totalNents_of_lt_loopTimes (numDescs_pos rounds) rounds
  rw [Nat.succ_mul] at more
  omega

theorem ChunkEnd.clear_iff {built mid : CopyState} {m : Nat} (below : loop + 1 < loopTimes q)
    (ended : ChunkEnd env built mid (min (loop * q.wq.numDescs) q.totalNents) m)
    (length : built.lists.length = q.wq.numDescs) :
    Clear env (chunkSizes q (left + 1 + 1) loop) built.scans
        (min (loop * q.wq.numDescs) q.totalNents) ↔
      mid.lists = [] ∧ Clear env (chunkSizes q (left + 1) (loop + 1)) mid.scans
        (min ((loop + 1) * q.wq.numDescs) q.totalNents) ∨
      mid.lists.length = q.wq.numDescs := by
  have whole := chunk_whole q loop
  have succeeds := ended.succeeds
  have fails := ended.fails
  rw [length] at succeeds fails
  rw [chunk_full below] at whole
  rw [chunkSizes, chunkSizes, Clear, chunk_full below, whole, ended.scans]
  simp only [succeeds, fails]
  apply or_congr
  · constructor
    · rintro ⟨n', ⟨same, empty⟩, later⟩
      exact ⟨empty, same ▸ later⟩
    · rintro ⟨empty, later⟩
      exact ⟨m, ⟨rfl, empty⟩, later⟩
  · simp

/-- Each descriptor is submitted once where no chunk but the last leaves anything, or the
first that does leaves all. -/
theorem nextLoop_once {ok : Bool} (accepted : ∀ i, env.submitOk i = true)
    (rounds : loop + left ≤ loopTimes q)
    (chunk : ChunkStart q st (min (loop * q.wq.numDescs) q.totalNents))
    (result : nextLoop q env left loop st = .ok (ok, st') ∨
      nextLoop q env left loop st = .error (.blocked st')) :
    SubmittedOnce st'.trace ↔
      Clear env (chunkSizes q left loop) st.scans (min (loop * q.wq.numDescs) q.totalNents) := by
  induction left generalizing loop st with
  | zero =>
    cases result with
    | inl returned =>
      cases returned
      simp [chunkSizes, Clear, chunk.sound.toSubmittedOnce]
    | inr waits => cases waits
  | succ left ih =>
    have whole := chunk_whole q loop
    have inside := Nat.min_le_right ((loop + 1) * q.wq.numDescs) q.totalNents
    rw [← whole] at inside
    obtain ⟨built, building⟩ := chunk.builds env inside (Nat.min_le_left _ _)
    simp only [nextLoop, chunk_size, building] at result
    split at result
    next => simp at result
    next mid polling =>
      obtain ⟨_, m, ended, new, length⟩ := chunk.next accepted inside building polling
      have sound := ended.sound
      rw [length, whole] at sound
      cases left with
      | zero =>
        cases result with
        | inl returned =>
          cases returned
          simp [chunkSizes, Clear, sound.toSubmittedOnce]
        | inr waits => cases waits
      | succ left =>
        have below : loop + 1 < loopTimes q := by omega
        have positive := numDescs_pos below
        have more := lt_totalNents_of_lt_loopTimes positive below
        have src : mid.src = q.src.sgl.drop (min ((loop + 1) * q.wq.numDescs) q.totalNents) := by
          rw [ended.src, new.src, whole]
        have dst : mid.dst = q.dst.sgl.drop (min ((loop + 1) * q.wq.numDescs) q.totalNents) := by
          rw [ended.dst, new.dst, whole]
        have count : mid.built = min ((loop + 1) * q.wq.numDescs) q.totalNents := by
          rw [ended.built, new.count, chunk.built, whole]
        rw [← new.scans, ended.clear_iff below (length.trans (chunk_full below))]
        by_cases empty : mid.lists = []
        · have start : ChunkStart q mid (min ((loop + 1) * q.wq.numDescs) q.totalNents) :=
            ⟨src, dst, empty, count, sound⟩
          have later := ih (by omega) start result
          have none : 0 ≠ q.wq.numDescs := Nat.ne_of_lt positive
          simp [later, empty, none]
        · have few := ended.few
          rw [length] at few
          have before : Left q mid (min ((loop + 1) * q.wq.numDescs) q.totalNents) :=
            ⟨src, dst, count, sound, empty, few.trans (Nat.min_le_left _ _), ended.left⟩
          have later := nextLoop_left accepted before (by omega) result
          simp [later, empty]
    next mid polling =>
      obtain ⟨all, _⟩ := chunk.next accepted inside building polling
      contradiction

theorem submittedOnce_unmap (trace : List CopyEvent) :
    SubmittedOnce (trace ++ [.unmap]) ↔ SubmittedOnce trace := by
  have own : CountsOwn [] (trace ++ [.unmap]) ↔ CountsOwn [] trace := by
    simp [countsOwn_append, CountsOwn]
  constructor
  · intro ⟨once, counts⟩
    exact ⟨by simpa [CopyEvent.submits] using once, own.mp counts⟩
  · intro ⟨once, counts⟩
    exact ⟨by simpa [CopyEvent.submits] using once, own.mpr counts⟩

theorem chunkStart_initial (q : Queue) : ChunkStart q (copyInitial q) 0 where
  src := rfl
  dst := rfl
  lists := rfl
  built := rfl
  sound := sound_nil

theorem copySingle_once {ok : Bool} (accepted : ∀ i, env.submitOk i = true)
    (result : copySingle q env = .ok (ok, st')) : SubmittedOnce st'.trace := by
  unfold copySingle at result
  split at result
  next src srcs dst dsts _ _ =>
    split at result
    next => cases result
    next built created =>
      have shape : built = addEntry q env { copyInitial q with trace := [.chunk 1] } src dst := by
        rw [createEntry] at created
        split at created
        next => cases created
        next =>
          cases created
          rfl
      split at result
      next => cases result
      next polling =>
        cases result
        subst shape
        have fresh : ∀ e ∈ [(⟨0, createDesc q env 0 src dst, false⟩ : ListEntry)],
            e.completion = false := by simp
        obtain ⟨_, m, ended⟩ : ok = true ∧ ∃ m, ChunkEnd env (addEntry q env
            { copyInitial q with trace := [.chunk 1] } src dst) st' 0 m :=
          chunk_end accepted sound_nil fresh rfl rfl polling
        exact ended.sound.toSubmittedOnce
  next => cases result

theorem copySingle_waits (result : copySingle q env = .error (.blocked st)) :
    SubmittedOnce st.trace := by
  unfold copySingle at result
  split at result
  next src srcs dst dsts _ _ =>
    split at result
    next stop created =>
      cases result
      rw [createEntry] at created
      split at created
      next =>
        cases created
        exact ⟨by simp, by simp [CountsOwn]⟩
      next => cases created
    next =>
      split at result
      next => cases result
      next => cases result
  next => cases result

/-- `st` is where a copy that dereferences no `NULL` ends: its return, or its wait for a
descriptor. -/
def EndsIn (q : Queue) (env : CopyEnv) (st : CopyState) : Prop :=
  dsaCopy q env = .ok st ∨ dsaCopy q env = .error (.blocked st)

/-- Where no submission fails, each descriptor is submitted once, and counted in its own
chunk only, exactly where each chunk but the last succeeds as a whole before the poll
limit, or the first that does not keeps the whole pool, so that nothing more is built. -/
theorem submitted_once_iff (q : Queue) (env : CopyEnv) (accepted : ∀ i, env.submitOk i = true)
    (ends : EndsIn q env st) : SubmittedOnce st.trace ↔ Clear env (chunks q) 0 0 := by
  have several (ok : Bool) (branch : q.src.nents > 1 ∧ q.dst.nents > 1) {last : CopyState}
      (result : nextLoop q env (loopTimes q) 0 (copyInitial q) = .ok (ok, last) ∨
        nextLoop q env (loopTimes q) 0 (copyInitial q) = .error (.blocked last)) :
      SubmittedOnce last.trace ↔ Clear env (chunks q) 0 0 := by
    have chunk : ChunkStart q (copyInitial q) (min (0 * q.wq.numDescs) q.totalNents) := by
      rw [Nat.zero_mul, Nat.zero_min]
      exact chunkStart_initial q
    have once := nextLoop_once accepted (Nat.le_of_eq (Nat.zero_add _)) chunk result
    rw [Nat.zero_mul, Nat.zero_min] at once
    rwa [chunks, if_pos branch]
  cases ends with
  | inl returned =>
    have ⟨⟨finished, last⟩, run, trace⟩ := ok_of_map returned
    have same : SubmittedOnce st.trace ↔ SubmittedOnce last.trace := by
      rw [← trace]
      simp only
      split
      next => exact submittedOnce_unmap _
      next => rfl
    rw [same]
    split at run
    next branch => exact several _ branch (.inl run)
    next one =>
      rw [chunks, if_neg one]
      simp [copySingle_once accepted run, Clear]
  | inr waits =>
    have run := error_of_map waits
    split at run
    next branch => exact several true branch (.inr run)
    next one =>
      rw [chunks, if_neg one]
      simp [copySingle_waits run, Clear]

def twoDescQueue : Queue :=
  { threeSegmentQueue with wq := { threeSegmentQueue.wq with numDescs := 2 } }

theorem submitted_once_prompt :
    ∃ st, dsaCopy twoDescQueue promptEnv = .ok st ∧ SubmittedOnce st.trace := by
  have run : (dsaCopy twoDescQueue promptEnv).isOk = true := by decide
  have ⟨st, returned⟩ := ok_of_isOk run
  refine ⟨st, returned, ?_⟩
  apply (submitted_once_iff twoDescQueue promptEnv (fun _ => rfl) (.inl returned)).mpr
  have succeeds : Succeeds promptEnv 0 0 2 1 :=
    { within := by decide
      success := fun _ _ _ => rfl
      needed := by
        intro n' below
        have first : n' = 0 := by omega
        subst first
        exact ⟨0, by decide, by decide, rfl⟩ }
  exact .inl ⟨1, succeeds, trivial⟩

def failingEnv : CopyEnv := { promptEnv with status := fun _ no => if no = 0 then 3 else dsaCompSuccess }

/-- What has failed in the first chunk is submitted again with the second. -/
theorem submitted_twice_after_error :
    ¬ ∀ (q : Queue) (env : CopyEnv) (st : CopyState), 1 ≤ q.wq.numDescs →
      (∀ i, env.submitOk i = true) → dsaCopy q env = .ok st → SubmittedOnce st.trace := by
  intro claim
  have run : (dsaCopy twoDescQueue failingEnv).map (fun st =>
      (st.trace.find? CopyEvent.isBuild, st.trace.countP (·.submits 0))) =
      .ok (some (.build 0 (createDesc twoDescQueue failingEnv 0 ⟨0x10000, 4096⟩ ⟨0x50000, 4096⟩)),
        2) := by rfl
  have ⟨st, returned, found⟩ := ok_of_map run
  rw [Prod.mk.injEq] at found
  have made : createDesc twoDescQueue failingEnv 0 ⟨0x10000, 4096⟩ ⟨0x50000, 4096⟩ =
      some _ := rfl
  rw [made] at found
  have one := (claim _ _ st (by decide) (fun _ => rfl) returned).once 0 _
    (List.mem_of_find?_eq_some found.1)
  rw [found.2] at one
  contradiction

end DsaTest.SingleDevice
