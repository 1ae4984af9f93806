import DsaTest.Chunks

/-! Chunked submission in `kernel_test_sgtable.c`: the chunks cover the pairs, and none of
them has to wait for a descriptor of the pool. -/
namespace DsaTest.SingleDevice

/-- Each chunk is answered with success before the poll limit, in whatever order. -/
def AllSucceed (env : CopyEnv) : List Nat → Nat → Nat → Prop
  | [], _, _ => True
  | size :: sizes, start, no =>
    ∃ n, Succeeds env start no size n ∧ AllSucceed env sizes (start + n) (no + size)

def CopyEvent.built? : CopyEvent → Option (Nat × Option (List Memmove))
  | .build no desc => some (no, desc.map Handed.memmoves)
  | _ => none

def CopyEvent.fill : List Nat → CopyEvent → List Nat
  | sizes, .chunk _ => 0 :: sizes
  | [], .build _ _ => [1]
  | size :: sizes, .build _ _ => (size + 1) :: sizes
  | sizes, _ => sizes

/-- The descriptors taken from the pool; `idxd_desc_complete` gives back what is counted
with success. -/
def CopyEvent.held : List Nat → CopyEvent → List Nat
  | numbers, .build no (some _) => numbers ++ [no]
  | numbers, .count no status => if status = dsaCompSuccess then numbers.filter (· ≠ no) else numbers
  | numbers, _ => numbers

/-- A chunk begins with the whole pool free, and each creation finds a free descriptor. -/
def Unblocked (numDescs : Nat) : List Nat → List CopyEvent → Prop
  | _, [] => True
  | numbers, ev :: rest =>
    (∀ size, ev = .chunk size → numbers = []) ∧
    (∀ no desc, ev = .build no desc → numbers.length < numDescs) ∧
    Unblocked numDescs (ev.held numbers) rest

/-- A trace covers `pairs`: one descriptor is built for each, in order, by chunks that
fit into the pool, and at the end none is held. -/
structure Covers (numDescs : Nat) (pairs : List (Segment × Segment)) (trace : List CopyEvent) :
    Prop where
  built : trace.filterMap CopyEvent.built? =
    pairs.zipIdx.map fun p => (p.2, some [minMove p.1])
  sizes : ∀ size ∈ trace.foldl CopyEvent.fill [], 1 ≤ size ∧ size ≤ numDescs
  unblocked : Unblocked numDescs [] trace
  released : trace.foldl CopyEvent.held [] = []

variable {q : Queue} {env : CopyEnv} {st st' : CopyState} {l : List ListEntry}
  {n size start no left loop numDescs : Nat} {ok : Bool}

theorem unblocked_append (numbers : List Nat) (t u : List CopyEvent) :
    Unblocked numDescs numbers (t ++ u) ↔
      Unblocked numDescs numbers t ∧ Unblocked numDescs (t.foldl CopyEvent.held numbers) u := by
  induction t generalizing numbers with
  | nil => simp [Unblocked]
  | cons ev rest ih => simp [Unblocked, ih, and_assoc]

section

variable {counts : List CopyEvent}

theorem held_build {e : ListEntry} (made : e.desc ≠ none) (numbers : List Nat) :
    CopyEvent.held numbers (.build e.no e.desc) = numbers ++ [e.no] := by
  obtain ⟨desc, here⟩ := Option.ne_none_iff_exists'.mp made
  rw [here, CopyEvent.held]

theorem held_builds (made : ∀ e ∈ l, e.desc ≠ none) (numbers : List Nat) :
    (l.map fun e => CopyEvent.build e.no e.desc).foldl CopyEvent.held numbers =
      numbers ++ l.map (·.no) := by
  induction l generalizing numbers with
  | nil => simp
  | cons e rest ih =>
    rw [List.forall_mem_cons] at made
    rw [List.map_cons, List.foldl_cons, held_build made.1, ih made.2]
    simp

theorem unblocked_builds (made : ∀ e ∈ l, e.desc ≠ none) (numbers : List Nat)
    (room : numbers.length + l.length ≤ numDescs) :
    Unblocked numDescs numbers (l.map fun e => .build e.no e.desc) := by
  induction l generalizing numbers with
  | nil => trivial
  | cons e rest ih =>
    rw [List.forall_mem_cons] at made
    rw [List.length_cons] at room
    rw [List.map_cons, Unblocked, held_build made.1]
    refine ⟨by simp, fun _ _ _ => by omega, ?_⟩
    apply ih made.2
    rw [List.length_append, List.length_singleton]
    omega

theorem held_submission (numbers : List Nat) (l : List ListEntry) :
    (submission l).foldl CopyEvent.held numbers = numbers := by
  induction l with
  | nil => rfl
  | cons e rest ih =>
    cases here : e.desc with
    | none => simpa [submission, here] using ih
    | some desc => simpa [submission, here, CopyEvent.held] using ih

theorem unblocked_submission (numbers : List Nat) (l : List ListEntry) :
    Unblocked numDescs numbers (submission l) := by
  induction l with
  | nil => trivial
  | cons e rest ih =>
    cases here : e.desc with
    | none => simpa [submission, here] using ih
    | some desc => simpa [submission, here, Unblocked, CopyEvent.held] using ih

theorem mem_held_counts (own : ∀ ev ∈ counts, ∃ e ∈ l, ev = .count e.no dsaCompSuccess)
    (numbers : List Nat) (i : Nat) :
    i ∈ counts.foldl CopyEvent.held numbers ↔
      i ∈ numbers ∧ .count i dsaCompSuccess ∉ counts := by
  induction counts generalizing numbers with
  | nil => simp
  | cons ev rest ih =>
    rw [List.forall_mem_cons] at own
    obtain ⟨⟨e, _, same⟩, later⟩ := own
    subst same
    rw [List.foldl_cons, ih later]
    simp [CopyEvent.held, and_assoc]

theorem unblocked_counts (own : ∀ ev ∈ counts, ∃ e ∈ l, ev = .count e.no dsaCompSuccess)
    (numbers : List Nat) : Unblocked numDescs numbers counts := by
  induction counts generalizing numbers with
  | nil => trivial
  | cons ev rest ih =>
    rw [List.forall_mem_cons] at own
    obtain ⟨⟨e, _, same⟩, later⟩ := own
    subst same
    exact ⟨by simp, by simp, ih later _⟩

theorem held_chunkTrace (made : ∀ e ∈ l, e.desc ≠ none)
    (own : ∀ ev ∈ counts, ∃ e ∈ l, ev = .count e.no dsaCompSuccess)
    (all : ∀ e ∈ l, .count e.no dsaCompSuccess ∈ counts) :
    (chunkTrace l counts).foldl CopyEvent.held [] = [] := by
  rw [chunkTrace, List.foldl_append, List.foldl_append, List.foldl_cons, CopyEvent.held,
    held_builds made, held_submission, List.nil_append, List.eq_nil_iff_forall_not_mem]
  · intro i here
    rw [mem_held_counts own] at here
    obtain ⟨e, listed, number⟩ := List.mem_map.mp here.1
    apply here.2
    rw [← number]
    exact all e listed
  · simp
  · simp

theorem unblocked_chunkTrace (made : ∀ e ∈ l, e.desc ≠ none) (room : l.length ≤ numDescs)
    (own : ∀ ev ∈ counts, ∃ e ∈ l, ev = .count e.no dsaCompSuccess) :
    Unblocked numDescs [] (chunkTrace l counts) := by
  rw [chunkTrace, unblocked_append, unblocked_append]
  refine ⟨⟨⟨by simp, by simp, ?_⟩, unblocked_submission _ _⟩, unblocked_counts own _⟩
  apply unblocked_builds made
  simpa [CopyEvent.held] using room

theorem fill_chunkTrace (own : ∀ ev ∈ counts, ∃ e ∈ l, ev = .count e.no dsaCompSuccess)
    (sizes : List Nat) :
    (chunkTrace l counts).foldl CopyEvent.fill sizes = l.length :: sizes := by
  have builds (size : Nat) (l : List ListEntry) :
      (l.map fun e => CopyEvent.build e.no e.desc).foldl CopyEvent.fill (size :: sizes) =
        (size + l.length) :: sizes := by
    induction l generalizing size with
    | nil => rfl
    | cons e rest ih => simp [CopyEvent.fill, ih, Nat.add_assoc, Nat.add_comm 1]
  have others (t : List CopyEvent) (sizes : List Nat)
      (kind : ∀ ev ∈ t, ∀ sizes, CopyEvent.fill sizes ev = sizes) :
      t.foldl CopyEvent.fill sizes = sizes := by
    induction t with
    | nil => rfl
    | cons ev rest ih =>
      rw [List.forall_mem_cons] at kind
      rw [List.foldl_cons, kind.1, ih kind.2]
  rw [chunkTrace, List.foldl_append, List.foldl_append, List.foldl_cons, CopyEvent.fill, builds,
    others (submission l), others counts, Nat.zero_add]
  · intro ev inside sizes
    obtain ⟨e, _, same⟩ := own ev inside
    subst same
    cases sizes <;> rfl
  · intro ev inside sizes
    obtain ⟨no, desc, same⟩ := mem_submission inside
    subst same
    cases sizes <;> rfl

theorem built_chunkTrace (own : ∀ ev ∈ counts, ∃ e ∈ l, ev = .count e.no dsaCompSuccess) :
    (chunkTrace l counts).filterMap CopyEvent.built? =
      l.map fun e => (e.no, e.desc.map Handed.memmoves) := by
  have submitted : (submission l).filterMap CopyEvent.built? = [] := by
    rw [List.filterMap_eq_nil_iff]
    intro ev inside
    obtain ⟨no, desc, same⟩ := mem_submission inside
    subst same
    rfl
  have polled : counts.filterMap CopyEvent.built? = [] := by
    rw [List.filterMap_eq_nil_iff]
    intro ev inside
    obtain ⟨e, _, same⟩ := own ev inside
    subst same
    rfl
  have builds (l : List ListEntry) :
      (l.map fun e => CopyEvent.build e.no e.desc).filterMap CopyEvent.built? =
        l.map fun e => (e.no, e.desc.map Handed.memmoves) := by
    induction l with
    | nil => rfl
    | cons e rest ih => simp [CopyEvent.built?, ih]
  have first : CopyEvent.built? (.chunk l.length) = none := rfl
  rw [chunkTrace, List.filterMap_append, List.filterMap_append, submitted, polled,
    List.filterMap_cons_none first, builds, List.append_nil, List.append_nil]

theorem Covers.chunk {pairs new : List (Segment × Segment)} {trace : List CopyEvent}
    (covers : Covers numDescs pairs trace)
    (entries : (l.map fun e => (e.no, e.desc.map Handed.memmoves)) =
      (new.zipIdx pairs.length).map fun p => (p.2, some [minMove p.1]))
    (made : ∀ e ∈ l, e.desc ≠ none) (holds : 1 ≤ l.length) (room : l.length ≤ numDescs)
    (own : ∀ ev ∈ counts, ∃ e ∈ l, ev = .count e.no dsaCompSuccess)
    (all : ∀ e ∈ l, .count e.no dsaCompSuccess ∈ counts) :
    Covers numDescs (pairs ++ new) (trace ++ chunkTrace l counts) where
  built := by
    rw [List.filterMap_append, covers.built, built_chunkTrace own, entries, List.zipIdx_append,
      List.map_append, Nat.zero_add]
  sizes := by
    rw [List.foldl_append, fill_chunkTrace own, List.forall_mem_cons]
    exact ⟨⟨holds, room⟩, covers.sizes⟩
  unblocked := by
    rw [unblocked_append, covers.released]
    exact ⟨covers.unblocked, unblocked_chunkTrace made room own⟩
  released := by
    rw [List.foldl_append, covers.released, held_chunkTrace made own all]

end

theorem covers_nil (numDescs : Nat) : Covers numDescs [] [] where
  built := rfl
  sizes := by simp
  unblocked := trivial
  released := rfl

theorem scanList_keeps {status : Nat → Nat} {e : ListEntry} (listed : e ∈ l)
    (marked : e.completion = true) : e ∈ (scanList status l).1 := by
  induction l with
  | nil => contradiction
  | cons e' rest ih =>
    rw [List.mem_cons] at listed
    cases listed with
    | inl same =>
      subst same
      simp [scanList_marked marked]
    | inr later =>
      have kept := ih later
      simp only [scanList]
      split
      · exact List.mem_cons_of_mem _ kept
      · split
        · exact kept
        · split
          · exact List.mem_cons_of_mem _ kept
          · exact List.mem_cons_of_mem _ kept

theorem scanList_counts {status : Nat → Nat} {c : Nat × Nat} (counted : c ∈ (scanList status l).2) :
    c.2 = dsaCompSuccess ∨ ∃ e ∈ (scanList status l).1, e.completion = true := by
  induction l with
  | nil => contradiction
  | cons e rest ih =>
    have later (e' : ListEntry) (inside : c ∈ (scanList status rest).2) :
        c.2 = dsaCompSuccess ∨ ∃ e ∈ e' :: (scanList status rest).1, e.completion = true := by
      cases ih inside with
      | inl success => exact .inl success
      | inr failed =>
        obtain ⟨e, kept, marked⟩ := failed
        exact .inr ⟨e, List.mem_cons_of_mem _ kept, marked⟩
    simp only [scanList] at counted ⊢
    split at counted
    next marked =>
      rw [if_pos marked]
      exact later _ counted
    next unmarked =>
      rw [if_neg unmarked]
      split at counted
      next success =>
        rw [if_pos success]
        cases counted with
        | head => exact .inl success
        | tail _ inside => exact ih inside
      next other =>
        rw [if_neg other]
        split at counted
        next error =>
          rw [if_pos error]
          exact .inr ⟨_, List.mem_cons_self, rfl⟩
        next waiting =>
          rw [if_neg waiting]
          exact later _ counted

theorem pollLoop_counts (env : CopyEnv) (nents left pollEntry : Nat) (st : CopyState) :
    (∀ e ∈ st.lists, e.completion = true → e ∈ (pollLoop env nents left pollEntry st).lists) ∧
      Grows (fun ev => ∀ no status, ev = .count no status → status = dsaCompSuccess ∨
        ∃ e ∈ (pollLoop env nents left pollEntry st).lists, e.completion = true) st
        (pollLoop env nents left pollEntry st) := by
  induction left generalizing pollEntry st with
  | zero => exact ⟨fun _ listed _ => listed, .refl _ _⟩
  | succ left ih =>
    rw [pollLoop]
    split
    next =>
      obtain ⟨keeps, grows⟩ := ih (pollEntry + pollCount env st) (scan env st)
      refine ⟨fun e listed marked => keeps e (scanList_keeps listed marked) marked, ?_⟩
      refine Grows.trans ⟨_, rfl, ?_⟩ grows
      intro ev inside no status same
      obtain ⟨c, counted, here⟩ := List.mem_map.mp inside
      rw [← here, CopyEvent.count.injEq] at same
      rw [← same.2]
      cases scanList_counts counted with
      | inl success => exact .inl success
      | inr failed =>
        obtain ⟨e, kept, marked⟩ := failed
        exact .inr ⟨e, keeps e kept marked, marked⟩
    next => exact ⟨fun _ listed _ => listed, .refl _ _⟩

/-- A chunk that leaves nothing on the list has counted each of its descriptors with
success. -/
theorem submitAndPoll_cleared (accepted : ∀ i, env.submitOk i = true)
    (fresh : ∀ e ∈ st.lists, e.completion = false)
    (result : submitAndPoll env st.lists.length st = some (ok, st')) (empty : st'.lists = []) :
    (∀ e ∈ st.lists, e.desc ≠ none) ∧ ∃ counts,
      st'.trace = st.trace ++ submission st.lists ++ counts ∧
      (∀ ev ∈ counts, ∃ e ∈ st.lists, ev = .count e.no dsaCompSuccess) ∧
      ∀ e ∈ st.lists, .count e.no dsaCompSuccess ∈ counts := by
  unfold submitAndPoll at result
  split at result
  next mid submitted =>
    obtain ⟨_, made, shape⟩ := submitList_all accepted submitted
    cases result
    have fresh' : ∀ e ∈ mid.lists, e.completion = false := by rwa [shape]
    obtain ⟨m, ended⟩ : ∃ m, PollEnd env mid.scans st.lists.length pollRetryMax mid.lists mid
        (pollLoop env st.lists.length pollRetryMax 0 mid) m := pollLoop_fresh fresh'
    obtain ⟨_, more, grown, success⟩ := pollLoop_counts env st.lists.length pollRetryMax 0 mid
    obtain ⟨counts, final, own, found⟩ := ended.state
    have same : more = counts := by
      rw [final] at grown
      exact (List.append_cancel_left grown).symm
    have listed : mid.lists = st.lists := by rw [shape]
    have errorless : ∀ e ∈ mid.lists, seen env mid.scans e.no m = dsaCompSuccess := by
      rw [← leftAfter_eq_nil_iff, ← empty, final]
    rw [listed] at own found errorless
    rw [empty] at success
    refine ⟨made, counts, ?_, ?_, ?_⟩
    · rw [final, shape]
    · intro ev inside
      obtain ⟨e, here, status, count⟩ := own ev inside
      have done := success ev (same ▸ inside) e.no status count
      refine ⟨e, here, ?_⟩
      simpa [count] using done
    · intro e here
      have answered : seen env mid.scans e.no m ≠ 0 := by
        rw [errorless e here]
        exact Nat.one_ne_zero
      have unseen : seen env mid.scans e.no (mid.scans - mid.scans) = 0 := by
        rw [Nat.sub_self]
        rfl
      obtain ⟨status, inside⟩ := (found e.no).mpr ⟨e, here, rfl, unseen, answered⟩
      have done := success _ (same ▸ inside) e.no status rfl
      have right : status = dsaCompSuccess := by simpa using done
      exact right ▸ inside
  next failed =>
    cases ok with
    | true => exact absurd result (failed st')
    | false =>
      obtain ⟨all, _⟩ := submitList_all accepted result
      contradiction

theorem createDesc_moves {src dst : Segment} {desc : Handed}
    (made : createDesc q env no src dst = some desc) : desc.memmoves = [minMove (src, dst)] := by
  rw [createDesc, idxdDescDmaSubmitMemcpy] at made
  split at made
  next => contradiction
  next =>
    split at made
    next => contradiction
    next =>
      obtain ⟨d, granted, same⟩ := Option.map_eq_some_iff.mp made
      obtain ⟨g, _, shape⟩ := Option.map_eq_some_iff.mp granted
      rw [← same, ← shape]
      rfl

theorem newEntries_created {pairs : List (Segment × Segment)}
    (made : ∀ e ∈ newEntries q env no pairs, e.desc ≠ none) :
    ((newEntries q env no pairs).map fun e => (e.no, e.desc.map Handed.memmoves)) =
      (pairs.zipIdx no).map fun p => (p.2, some [minMove p.1]) := by
  rw [newEntries, List.map_map]
  apply List.map_congr_left
  intro p inside
  have there : createDesc q env p.2 p.1.1 p.1.2 ≠ none := made _ (List.mem_map_of_mem inside)
  obtain ⟨desc, created⟩ := Option.ne_none_iff_exists'.mp there
  simp only [Function.comp_apply]
  rw [created, Option.map_some, createDesc_moves created]

theorem ChunkStart.covers {built : CopyState} (chunk : ChunkStart q st n)
    (covers : Covers q.wq.numDescs (q.pairs.take n) st.trace)
    (accepted : ∀ i, env.submitOk i = true) (inside : n + size ≤ q.totalNents)
    (holds : 1 ≤ size) (room : size ≤ q.wq.numDescs)
    (building : buildChunk q env size { st with trace := st.trace ++ [.chunk size] } = .ok built)
    (polling : submitAndPoll env size built = some (ok, st')) {m : Nat}
    (success : Succeeds env st.scans n size m) :
    ok = true ∧ st'.scans = st.scans + m ∧ ChunkStart q st' (n + size) ∧
      Covers q.wq.numDescs (q.pairs.take (n + size)) st'.trace := by
  obtain ⟨all, m', ended, new, length⟩ := chunk.next accepted inside building polling
  have succeeds := ended.succeeds m
  rw [length, new.scans] at succeeds
  obtain ⟨same, empty⟩ := succeeds.mp success
  have exactly : built =
      ({ st with trace := st.trace ++ [.chunk size] } : CopyState).after q env n size :=
    buildChunk_ok chunk.src chunk.dst inside building
  have lists : built.lists = newEntries q env n ((q.pairs.drop n).take size) := by
    rw [exactly]
    simp [CopyState.after, chunk.lists, chunk.built]
  have fresh : ∀ e ∈ built.lists, e.completion = false := by
    intro e listed
    rw [lists] at listed
    exact newEntries_unmarked listed
  have sized : submitAndPoll env built.lists.length built = some (ok, st') := by rwa [length]
  obtain ⟨made, counts, trace, own, counted⟩ := submitAndPoll_cleared accepted fresh sized empty
  have whole : st'.trace = st.trace ++ chunkTrace built.lists counts := by
    rw [trace, chunkTrace, length, exactly]
    simp [CopyState.after, chunk.lists]
  have covered : (q.pairs.take n).length = n := by
    rw [List.length_take, q.length_pairs, Nat.min_eq_left (by omega)]
  refine ⟨all, ?_, ?_, ?_⟩
  · rw [ended.scans, new.scans, same]
  · have sound := ended.sound
    rw [length] at sound
    exact
      { src := by rw [ended.src, new.src]
        dst := by rw [ended.dst, new.dst]
        lists := empty
        built := by rw [ended.built, new.count, chunk.built]
        sound := sound }
  · rw [whole, List.take_add]
    apply covers.chunk
    · rw [covered, lists]
      rw [lists] at made
      exact newEntries_created made
    · exact made
    · rwa [length]
    · rwa [length]
    · exact own
    · exact counted

theorem nextLoop_covers (accepted : ∀ i, env.submitOk i = true) (positive : 0 < q.wq.numDescs)
    (chunk : ChunkStart q st (min (loop * q.wq.numDescs) q.totalNents))
    (covers : Covers q.wq.numDescs (q.pairs.take (min (loop * q.wq.numDescs) q.totalNents)) st.trace)
    (rounds : loop + left ≤ loopTimes q)
    (success : AllSucceed env (chunkSizes q left loop) st.scans
      (min (loop * q.wq.numDescs) q.totalNents))
    (result : nextLoop q env left loop st = .ok (ok, st') ∨
      nextLoop q env left loop st = .error (.blocked st')) :
    nextLoop q env left loop st = .ok (true, st') ∧ Covers q.wq.numDescs
      (q.pairs.take (min ((loop + left) * q.wq.numDescs) q.totalNents)) st'.trace := by
  induction left generalizing loop st with
  | zero =>
    cases result with
    | inl returned =>
      cases returned
      exact ⟨rfl, covers⟩
    | inr waits => cases waits
  | succ left ih =>
    have whole := chunk_whole q loop
    have inside := Nat.min_le_right ((loop + 1) * q.wq.numDescs) q.totalNents
    rw [← whole] at inside
    have more := lt_totalNents_of_lt_loopTimes positive (show loop < loopTimes q by omega)
    obtain ⟨m, first, later⟩ := success
    obtain ⟨built, building⟩ := chunk.builds env inside (Nat.min_le_left _ _)
    have step {ok : Bool} {mid : CopyState}
        (polling : submitAndPoll env (min q.wq.numDescs (q.totalNents - loop * q.wq.numDescs))
          built = some (ok, mid)) :=
      chunk.covers covers accepted inside (by omega) (Nat.min_le_left _ _) building polling first
    simp only [nextLoop, chunk_size, building] at result ⊢
    cases polled : submitAndPoll env (min q.wq.numDescs (q.totalNents - loop * q.wq.numDescs)) built with
    | none => simp [polled] at result
    | some ended =>
      obtain ⟨going, mid⟩ := ended
      obtain ⟨all, scans, start, covered⟩ := step polled
      subst all
      simp only [polled] at result ⊢
      rw [whole] at start covered later
      rw [← scans] at later
      rw [show loop + (left + 1) = loop + 1 + left by omega]
      exact ih start covered (by omega) later result

theorem covers_unmap {pairs : List (Segment × Segment)} {trace : List CopyEvent}
    (covers : Covers numDescs pairs trace) : Covers numDescs pairs (trace ++ [.unmap]) where
  built := by
    rw [List.filterMap_append, covers.built]
    exact List.append_nil _
  sizes := by
    have same : ∀ sizes, CopyEvent.fill sizes .unmap = sizes := by
      intro sizes
      cases sizes <;> rfl
    simpa [same] using covers.sizes
  unblocked := by
    rw [unblocked_append]
    exact ⟨covers.unblocked, by simp [Unblocked]⟩
  released := by simpa [CopyEvent.held] using covers.released

/-- Where every chunk succeeds, the chunks cover the pairs of the two lists and no creation
waits; and where all creations do, the copy returns. -/
theorem chunks_cover (q : Queue) (env : CopyEnv) (two : 2 ≤ q.totalNents)
    (room : 1 ≤ q.wq.numDescs) (accepted : ∀ i, env.submitOk i = true)
    (success : AllSucceed env (chunks q) 0 0) :
    (∀ st, dsaCopy q env = .ok st → Covers q.wq.numDescs q.pairs st.trace) ∧
      ¬ Waits (dsaCopy q env) ∧
      (Willing q → (∀ i, env.grant i ≠ none) → ∃ st, dsaCopy q env = .ok st) := by
  have total : q.totalNents = min q.src.nents q.dst.nents := Shape.totalNents_eq_min q.shape
  have several : q.src.nents > 1 ∧ q.dst.nents > 1 := by omega
  have zero : min (0 * q.wq.numDescs) q.totalNents = 0 := by
    rw [Nat.zero_mul, Nat.zero_min]
  have start : ChunkStart q (copyInitial q) (min (0 * q.wq.numDescs) q.totalNents) := by
    rw [zero]
    exact chunkStart_initial q
  have nothing : Covers q.wq.numDescs (q.pairs.take (min (0 * q.wq.numDescs) q.totalNents))
      (copyInitial q).trace := by
    rw [zero]
    exact covers_nil _
  have rounds : AllSucceed env (chunkSizes q (loopTimes q) 0) (copyInitial q).scans
      (min (0 * q.wq.numDescs) q.totalNents) := by
    rw [chunks, if_pos several] at success
    rwa [zero]
  have free : ¬ Waits (dsaCopy q env) := by
    rintro ⟨st, waits⟩
    have run := error_of_map waits
    rw [if_pos several] at run
    have ended : nextLoop q env (loopTimes q) 0 (copyInitial q) = .ok (true, st) ∨
        nextLoop q env (loopTimes q) 0 (copyInitial q) = .error (.blocked st) := .inr run
    obtain ⟨returned, _⟩ := nextLoop_covers accepted room start nothing
      (Nat.le_of_eq (Nat.zero_add _)) rounds ended
    rw [run] at returned
    contradiction
  refine ⟨?_, free, ?_⟩
  · intro st returned
    obtain ⟨⟨finished, last⟩, run, trace⟩ := ok_of_map returned
    rw [if_pos several] at run
    obtain ⟨all, covers⟩ := nextLoop_covers accepted room start nothing
      (Nat.le_of_eq (Nat.zero_add _)) rounds (.inl run)
    rw [run] at all
    cases all
    rw [Nat.zero_add, Nat.min_eq_right (le_loopTimes_mul room),
      List.take_of_length_le (Nat.le_of_eq q.length_pairs)] at covers
    rw [← trace]
    exact covers_unmap covers
  · intro willing granted
    obtain ⟨st, returned, _⟩ := (dsaCopy_memmoves willing ⟨granted, accepted⟩ room
      (show 0 < q.src.nents by omega) (show 0 < q.dst.nents by omega)).resolve_left free
    exact ⟨st, returned⟩

theorem chunks_cover_prompt : ∃ st, dsaCopy twoDescQueue promptEnv = .ok st ∧
    Covers 2 twoDescQueue.pairs st.trace := by
  have answered (no size : Nat) (start : Nat) (holds : 0 < size) :
      Succeeds promptEnv start no size 1 :=
    { within := by decide
      success := fun _ _ _ => rfl
      needed := by
        intro n' below
        have first : n' = 0 := by omega
        subst first
        exact ⟨no, Nat.le_refl _, by omega, rfl⟩ }
  have success : AllSucceed promptEnv (chunks twoDescQueue) 0 0 :=
    ⟨1, answered 0 2 0 (by decide), 1, answered 2 1 1 (by decide), trivial⟩
  have run : (dsaCopy twoDescQueue promptEnv).isOk = true := by decide
  obtain ⟨st, returned⟩ := ok_of_isOk run
  exact ⟨st, returned, (chunks_cover twoDescQueue promptEnv (by decide) (by decide) (fun _ => rfl)
    success).1 st returned⟩

end DsaTest.SingleDevice
