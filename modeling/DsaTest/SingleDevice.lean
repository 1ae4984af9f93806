import DsaTest.Paths

/-! `dsa_copy` of the single-device module `kernel_test_sgtable.c`: chunks of at most
`num_descs` descriptors are built, submitted and polled one after the other. -/
namespace DsaTest.SingleDevice

/-- `struct idxd_desc_list`, with `none` for a `NULL` descriptor; `no` numbers the
creations. -/
structure ListEntry where
  no : Nat
  desc : Option Handed
  completion : Bool

/-- What the kernel and the device answer: to each creation (`none` for an error of
`idxd_alloc_desc`: the device is off, or a signal ends its wait), to each call of
`idxd_submit_desc`, what each scan reads in the completion record of each descriptor, and
which calls the device has answered after so many scans. The last two are apart: a
descriptor can be with the device twice, and its record says only that one submission of
it, or of an earlier user of its place in the pool, is through. -/
structure CopyEnv where
  grant : Nat → Option Grant
  submitOk : Nat → Bool
  status : Nat → Nat → Nat
  answered : Nat → Nat → Bool

inductive CopyEvent
  | chunk (nents : Nat)
  | build (no : Nat) (desc : Option Handed)
  | submit (no : Nat) (desc : Handed) (ok : Bool)
  | count (no status : Nat)
  | unmap

/-- `lists` is `idxd_desc_lists`. -/
structure CopyState where
  src : List Segment
  dst : List Segment
  lists : List ListEntry
  built : Nat
  submits : Nat
  scans : Nat
  trace : List CopyEvent

/-- How a copy ends short of its return: in the blocking `idxd_alloc_desc`, or with a
dereference of `NULL`. -/
inductive Stop
  | blocked (st : CopyState)
  | oops

def dsaCompSuccess : Nat := 1

def pollRetryMax : Nat := 1000000

section

variable (q : Queue) (env : CopyEnv)

def createDesc (no : Nat) (src dst : Segment) : Option Handed :=
  (idxdDescDmaSubmitMemcpy q.wq (env.grant no) dst.address src.address
    (min src.length dst.length) copyFlags).map .plain

/-- The body of `for_each_2_sg`: the new entry goes to the end of the list. -/
def addEntry (st : CopyState) (src dst : Segment) : CopyState :=
  { st with
    lists := st.lists ++ [⟨st.built, createDesc q env st.built src dst, false⟩]
    built := st.built + 1
    trace := st.trace ++ [.build st.built (createDesc q env st.built src dst)] }

/-- The descriptors of the pool that are taken. Only the success branch of the polling
loop gives one back, and it removes the entry. -/
def CopyState.held (st : CopyState) : Nat := st.lists.countP (·.desc.isSome)

/-- Does `idxd_desc_dma_submit_memcpy` get as far as `idxd_alloc_desc`, and is no descriptor
free there? With `IDXD_OP_BLOCK` it then waits, and nobody else gives one back. -/
def blocks (st : CopyState) (src dst : Segment) : Bool :=
  q.wq.enabled && decide (min src.length dst.length ≤ q.wq.maxXferBytes) &&
    decide (q.wq.numDescs ≤ st.held) && (env.grant st.built).isSome

def createEntry (st : CopyState) (src dst : Segment) : Except Stop CopyState :=
  if blocks q env st src dst then .error (.blocked st) else .ok (addEntry q env st src dst)

/-- `for_each_2_sg` over `nents` pairs from `src` and `dst`, which are then moved on. -/
def buildChunk : Nat → CopyState → Except Stop CopyState
  | 0, st => .ok st
  | nents + 1, st =>
    match st.src, st.dst with
    | src :: srcs, dst :: dsts =>
      match createEntry q env st src dst with
      | .ok st => buildChunk nents { st with src := srcs, dst := dsts }
      | stopped => stopped
    | _, _ => .error .oops

/-- `idxd_submit_desc` for the entries of the list; `false` stands for `goto out`. -/
def submitList : List ListEntry → CopyState → Option (Bool × CopyState)
  | [], st => some (true, st)
  | e :: rest, st =>
    match e.desc with
    | none => none
    | some desc =>
      let st' := { st with
        submits := st.submits + 1
        trace := st.trace ++ [.submit e.no desc (env.submitOk st.submits)] }
      if env.submitOk st.submits then submitList rest st' else some (false, st')

/-- `list_for_each_entry_safe`: the entries left, and those that `poll_entry` counts. -/
def scanList (status : Nat → Nat) : List ListEntry → List ListEntry × List (Nat × Nat)
  | [] => ([], [])
  | e :: rest =>
    let (kept, counted) := scanList status rest
    if e.completion then (e :: kept, counted)
    else if status e.no = dsaCompSuccess then (kept, (e.no, status e.no) :: counted)
    else if status e.no > dsaCompSuccess then
      ({ e with completion := true } :: kept, (e.no, status e.no) :: counted)
    else (e :: kept, counted)

def scan (st : CopyState) : CopyState :=
  { st with
    lists := (scanList (env.status st.scans) st.lists).1
    scans := st.scans + 1
    trace := st.trace ++ (scanList (env.status st.scans) st.lists).2.map fun c => .count c.1 c.2 }

def pollCount (st : CopyState) : Nat := (scanList (env.status st.scans) st.lists).2.length

/-- `while (poll++ < POLL_RETRY_MAX && poll_entry < nents)` -/
def pollLoop (nents : Nat) : Nat → Nat → CopyState → CopyState
  | 0, _, st => st
  | left + 1, pollEntry, st =>
    if pollEntry < nents then pollLoop nents left (pollEntry + pollCount env st) (scan env st)
    else st

/-- From `list_for_each_entry` to the end of the polling loop. -/
def submitAndPoll (nents : Nat) (st : CopyState) : Option (Bool × CopyState) :=
  match submitList env st.lists st with
  | some (true, st) => some (true, pollLoop env nents pollRetryMax 0 st)
  | result => result

def loopTimes : Nat :=
  q.totalNents / q.wq.numDescs + if q.totalNents % q.wq.numDescs ≠ 0 then 1 else 0

/-- The code from `next_loop` on, once for each of the `loop_times` chunks. -/
def nextLoop : Nat → Nat → CopyState → Except Stop (Bool × CopyState)
  | 0, _, st => .ok (true, st)
  | left + 1, loop, st =>
    let leftEnts := q.totalNents - loop * q.wq.numDescs
    let nents := if leftEnts > q.wq.numDescs then q.wq.numDescs else leftEnts
    match buildChunk q env nents { st with trace := st.trace ++ [.chunk nents] } with
    | .error stop => .error stop
    | .ok st =>
      match submitAndPoll env nents st with
      | none => .error .oops
      | some (true, st) => nextLoop left (loop + 1) st
      | some (false, st) => .ok (false, st)

def copyInitial : CopyState where
  src := q.src.sgl
  dst := q.dst.sgl
  lists := []
  built := 0
  submits := 0
  scans := 0
  trace := []

/-- The branch for a list of one segment. -/
def copySingle : Except Stop (Bool × CopyState) :=
  match q.src.sgl, q.dst.sgl with
  | src :: _, dst :: _ =>
    match createEntry q env { copyInitial q with trace := [.chunk 1] } src dst with
    | .error stop => .error stop
    | .ok st =>
      match submitAndPoll env 1 st with
      | none => .error .oops
      | some ended => .ok ended
  | _, _ => .error .oops

/-- `out` skips the unmapping. -/
def dsaCopy : Except Stop CopyState :=
  let ended :=
    if q.src.nents > 1 ∧ q.dst.nents > 1 then nextLoop q env (loopTimes q) 0 (copyInitial q)
    else copySingle q env
  ended.map fun (finished, st) =>
    if finished then { st with trace := st.trace ++ [.unmap] } else st

end

def Waits {α : Type} (result : Except Stop α) : Prop := ∃ st, result = .error (.blocked st)

section

variable {α β ε : Type} {f : α → β} {result : Except ε α}

theorem ok_of_isOk (ok : result.isOk = true) : ∃ a, result = .ok a := by
  cases result with
  | error e => contradiction
  | ok a => exact ⟨a, rfl⟩

theorem ok_of_map {b : β} (mapped : result.map f = .ok b) : ∃ a, result = .ok a ∧ f a = b := by
  cases result with
  | error e => contradiction
  | ok a =>
    cases mapped
    exact ⟨a, rfl, rfl⟩

theorem error_of_map {e : ε} (mapped : result.map f = .error e) : result = .error e := by
  cases result with
  | error e' =>
    cases mapped
    rfl
  | ok a => contradiction

end

theorem not_waits {α : Type} {result : Except Stop α} (ok : result.isOk = true) : ¬ Waits result := by
  rintro ⟨st, waits⟩
  rw [waits] at ok
  contradiction

/-- The memmoves that the device has been given. -/
def CopyEvent.memmoves : CopyEvent → List Memmove
  | .submit _ desc true => desc.memmoves
  | _ => []

def CopyState.memmoves (st : CopyState) : List Memmove := st.trace.flatMap CopyEvent.memmoves

def ListEntry.memmoves (e : ListEntry) : List Memmove := (e.desc.map Handed.memmoves).getD []

variable {q : Queue} {env : CopyEnv} {st st' : CopyState} {c n : Nat}

structure Serving (env : CopyEnv) : Prop where
  granted : ∀ i, env.grant i ≠ none
  accepted : ∀ i, env.submitOk i = true

theorem createDesc_eq (willing : Willing q) (serving : Serving env) (no : Nat) {src dst : Segment}
    (pair : (src, dst) ∈ q.pairs) :
    (createDesc q env no src dst).map Handed.memmoves = some [minMove (src, dst)] := by
  have ⟨g, grant⟩ := Option.ne_none_iff_exists'.mp (serving.granted no)
  have made := idxdDescDmaSubmitMemcpy_eq willing.enabled (willing.fits _ pair) g dst.address
    src.address copyFlags
  rw [createDesc, grant, made]
  rfl

def newEntries (q : Queue) (env : CopyEnv) (no : Nat) (pairs : List (Segment × Segment)) :
    List ListEntry :=
  (pairs.zipIdx no).map fun p => ⟨p.2, createDesc q env p.2 p.1.1 p.1.2, false⟩

theorem newEntries_numbers (no : Nat) (pairs : List (Segment × Segment)) :
    (newEntries q env no pairs).map (·.no) = List.range' no pairs.length := by
  rw [newEntries, List.map_map, ← List.zipIdx_map_snd]
  rfl

theorem newEntries_unmarked {no : Nat} {pairs : List (Segment × Segment)} {e : ListEntry}
    (new : e ∈ newEntries q env no pairs) : e.completion = false := by
  have ⟨p, _, same⟩ := List.mem_map.mp new
  rw [← same]

def CopyState.after (q : Queue) (env : CopyEnv) (st : CopyState) (c n : Nat) : CopyState where
  src := q.src.sgl.drop (c + n)
  dst := q.dst.sgl.drop (c + n)
  lists := st.lists ++ newEntries q env st.built ((q.pairs.drop c).take n)
  built := st.built + n
  submits := st.submits
  scans := st.scans
  trace := st.trace ++
    (newEntries q env st.built ((q.pairs.drop c).take n)).map fun e => .build e.no e.desc

theorem after_zero (src : st.src = q.src.sgl.drop c) (dst : st.dst = q.dst.sgl.drop c) :
    st.after q env c 0 = st := by
  simp [CopyState.after, newEntries, ← src, ← dst]

theorem after_succ {s d : Segment} (head : (q.pairs.drop c).take 1 = [(s, d)]) (n : Nat) :
    ({ addEntry q env st s d with
      src := q.src.sgl.drop (c + 1), dst := q.dst.sgl.drop (c + 1) } : CopyState).after q env (c + 1) n =
      st.after q env c (n + 1) := by
  have pairs : (q.pairs.drop c).take (n + 1) = (s, d) :: (q.pairs.drop (c + 1)).take n := by
    rw [Nat.add_comm n 1, List.take_add, head, List.drop_drop]
    rfl
  rw [CopyState.after, CopyState.after, pairs]
  simp [newEntries, addEntry, Nat.add_assoc, Nat.add_comm 1]

/-- How the creations for `n` pairs from `c` on end, up to a dereference of `NULL`. -/
inductive ChunkEnds (q : Queue) (env : CopyEnv) (st : CopyState) (c n : Nat) :
    Except Stop CopyState → Prop
  | ready : ChunkEnds q env st c n (.ok (st.after q env c n))
  | blocked {j : Nat} : j < n → q.wq.numDescs ≤ (st.after q env c j).held →
      ChunkEnds q env st c n (.error (.blocked (st.after q env c j)))

theorem ChunkEnds.next {s d : Segment} {nents : Nat} {result : Except Stop CopyState}
    (head : (q.pairs.drop c).take 1 = [(s, d)])
    (rest : ChunkEnds q env { addEntry q env st s d with
      src := q.src.sgl.drop (c + 1), dst := q.dst.sgl.drop (c + 1) } (c + 1) nents result) :
    ChunkEnds q env st c (nents + 1) result := by
  cases rest with
  | ready =>
    rw [after_succ head]
    exact .ready
  | @blocked j below full =>
    rw [after_succ head] at full ⊢
    exact .blocked (Nat.succ_lt_succ below) full

theorem buildChunk_ends (env : CopyEnv) {nents : Nat} (src : st.src = q.src.sgl.drop c)
    (dst : st.dst = q.dst.sgl.drop c) (inside : c + nents ≤ q.totalNents) :
    ChunkEnds q env st c nents (buildChunk q env nents st) := by
  induction nents generalizing c st with
  | zero =>
    have none : ChunkEnds q env st c 0 (.ok (st.after q env c 0)) := .ready
    rwa [after_zero src dst] at none
  | succ nents ih =>
    have ⟨s, d, srcs, dsts, head, _⟩ := q.pair_at (show c < q.totalNents by omega)
    rw [buildChunk, src, dst, srcs, dsts]
    simp only [createEntry]
    by_cases waits : blocks q env st s d = true
    · have full : q.wq.numDescs ≤ (st.after q env c 0).held := by
        simp only [blocks, Bool.and_eq_true, decide_eq_true_eq] at waits
        rw [after_zero src dst]
        exact waits.1.2
      have blocked : ChunkEnds q env st c (nents + 1) _ := .blocked (Nat.succ_pos nents) full
      rw [after_zero src dst] at blocked
      rwa [if_pos waits]
    · rw [if_neg waits]
      exact .next head (ih rfl rfl (by omega))

theorem held_le (st : CopyState) : st.held ≤ st.lists.length := List.countP_le_length

theorem buildChunk_room {nents : Nat} (src : st.src = q.src.sgl.drop c)
    (dst : st.dst = q.dst.sgl.drop c) (inside : c + nents ≤ q.totalNents)
    (room : st.lists.length + nents ≤ q.wq.numDescs) :
    buildChunk q env nents st = .ok (st.after q env c nents) := by
  have ends : ChunkEnds q env st c nents (buildChunk q env nents st) :=
    buildChunk_ends env src dst inside
  generalize buildChunk q env nents st = result at ends ⊢
  cases ends with
  | ready => rfl
  | @blocked j below full =>
    have few := held_le (st.after q env c j)
    have size : (newEntries q env st.built ((q.pairs.drop c).take j)).length ≤ j := by
      rw [newEntries, List.length_map, List.length_zipIdx]
      exact List.length_take_le _ _
    rw [CopyState.after, List.length_append] at few
    rw [CopyState.after] at full
    omega

theorem buildChunk_ok {nents : Nat} {built : CopyState} (src : st.src = q.src.sgl.drop c)
    (dst : st.dst = q.dst.sgl.drop c) (inside : c + nents ≤ q.totalNents)
    (result : buildChunk q env nents st = .ok built) : built = st.after q env c nents := by
  have ends : ChunkEnds q env st c nents (buildChunk q env nents st) :=
    buildChunk_ends env src dst inside
  rw [result] at ends
  cases ends
  rfl

theorem newEntries_moves (willing : Willing q) (serving : Serving env) (no : Nat)
    {pairs : List (Segment × Segment)} (inside : ∀ p ∈ pairs, p ∈ q.pairs) :
    (newEntries q env no pairs).map (fun e => (e.desc.map Handed.memmoves, e.completion)) =
      pairs.map fun p => (some [minMove p], false) := by
  induction pairs generalizing no with
  | nil => rfl
  | cons p rest ih =>
    rw [List.forall_mem_cons] at inside
    have created := createDesc_eq willing serving no inside.1
    have later := ih (no + 1) inside.2
    simp only [newEntries] at later
    simp [newEntries, created, later]

theorem submitList_eq (serving : Serving env) {l : List ListEntry}
    (made : ∀ e ∈ l, e.desc ≠ none) :
    submitList env l st = some (true, { st with
      submits := st.submits + l.length
      trace := st.trace ++ l.filterMap fun e => e.desc.map fun desc => .submit e.no desc true }) := by
  induction l generalizing st with
  | nil => simp [submitList]
  | cons e rest ih =>
    have ⟨desc, here⟩ := Option.ne_none_iff_exists'.mp (made e List.mem_cons_self)
    rw [List.forall_mem_cons] at made
    simp only [submitList, here, serving.accepted, if_true, ih made.2]
    simp [here, Nat.add_assoc, Nat.add_comm 1]

theorem memmoves_submitted (l : List ListEntry) :
    (l.filterMap fun e => e.desc.map fun desc => CopyEvent.submit e.no desc true).flatMap
      CopyEvent.memmoves = l.flatMap ListEntry.memmoves := by
  induction l with
  | nil => rfl
  | cons e rest ih =>
    rw [List.flatMap_cons, ← ih, List.filterMap_cons]
    cases here : e.desc with
    | none => simp [ListEntry.memmoves, here]
    | some desc => simp [ListEntry.memmoves, here, CopyEvent.memmoves]

theorem scanList_mem {status : Nat → Nat} {l : List ListEntry} {e : ListEntry}
    (kept : e ∈ (scanList status l).1) : ∃ e' ∈ l, e'.no = e.no ∧ e'.desc = e.desc := by
  induction l with
  | nil => simp [scanList] at kept
  | cons e' rest ih =>
    have later (inside : e ∈ (scanList status rest).1) :
        ∃ e'' ∈ e' :: rest, e''.no = e.no ∧ e''.desc = e.desc := by
      have ⟨e'', member, same⟩ := ih inside
      exact ⟨e'', List.mem_cons_of_mem _ member, same⟩
    have here (same : e'.no = e.no ∧ e'.desc = e.desc) :
        ∃ e'' ∈ e' :: rest, e''.no = e.no ∧ e''.desc = e.desc := ⟨e', List.mem_cons_self, same⟩
    simp only [scanList] at kept
    split at kept
    · cases List.mem_cons.mp kept with
      | inl same => exact here (by simp [same])
      | inr inside => exact later inside
    · split at kept
      · exact later kept
      · split at kept
        · cases List.mem_cons.mp kept with
          | inl same => exact here (by simp [same])
          | inr inside => exact later inside
        · cases List.mem_cons.mp kept with
          | inl same => exact here (by simp [same])
          | inr inside => exact later inside

structure Polled (st st' : CopyState) : Prop where
  src : st'.src = st.src
  dst : st'.dst = st.dst
  lists : ∀ e ∈ st'.lists, ∃ e' ∈ st.lists, e'.no = e.no ∧ e'.desc = e.desc
  memmoves : st'.memmoves = st.memmoves

theorem Polled.refl (st : CopyState) : Polled st st :=
  ⟨rfl, rfl, fun e inside => ⟨e, inside, rfl, rfl⟩, rfl⟩

theorem Polled.trans {st'' : CopyState} (one : Polled st st') (two : Polled st' st'') :
    Polled st st'' where
  src := two.src.trans one.src
  dst := two.dst.trans one.dst
  lists e inside := by
    have ⟨e', inside', same⟩ := two.lists e inside
    have ⟨e'', inside'', same'⟩ := one.lists e' inside'
    exact ⟨e'', inside'', same'.1.trans same.1, same'.2.trans same.2⟩
  memmoves := two.memmoves.trans one.memmoves

theorem polled_scan (env : CopyEnv) (st : CopyState) : Polled st (scan env st) where
  src := rfl
  dst := rfl
  lists _ inside := scanList_mem inside
  memmoves := by simp [scan, CopyState.memmoves, List.flatMap_map, CopyEvent.memmoves]

theorem polled_pollLoop (env : CopyEnv) (nents left pollEntry : Nat) (st : CopyState) :
    Polled st (pollLoop env nents left pollEntry st) := by
  induction left generalizing pollEntry st with
  | zero => exact .refl st
  | succ left ih =>
    rw [pollLoop]
    split
    next => exact (polled_scan env st).trans (ih _ _)
    next => exact .refl st

/-- The memmoves of the first `n` pairs are issued, and none of another pair ever is. -/
structure Issued (q : Queue) (st : CopyState) (n : Nat) : Prop where
  lists : ∀ e ∈ st.lists, ∃ desc, e.desc = some desc ∧ ∀ m ∈ desc.memmoves, m ∈ q.pairs.map minMove
  only : ∀ m ∈ st.memmoves, m ∈ q.pairs.map minMove
  all : ∀ m ∈ (q.pairs.take n).map minMove, m ∈ st.memmoves

structure Covered (q : Queue) (st : CopyState) (n : Nat) : Prop extends Issued q st n where
  src : st.src = q.src.sgl.drop n
  dst : st.dst = q.dst.sgl.drop n

theorem submitAndPoll_issued (serving : Serving env) (nents : Nat)
    (lists : ∀ e ∈ st.lists, ∃ desc, e.desc = some desc ∧
      ∀ m ∈ desc.memmoves, m ∈ q.pairs.map minMove)
    (only : ∀ m ∈ st.memmoves, m ∈ q.pairs.map minMove)
    (all : ∀ m ∈ (q.pairs.take n).map minMove,
      m ∈ st.memmoves ∨ m ∈ st.lists.flatMap ListEntry.memmoves) :
    ∃ st', submitAndPoll env nents st = some (true, st') ∧ st'.src = st.src ∧ st'.dst = st.dst ∧
      Issued q st' n := by
  have made : ∀ e ∈ st.lists, e.desc ≠ none := by
    intro e inside
    have ⟨desc, here, _⟩ := lists e inside
    simp [here]
  have polled := polled_pollLoop env nents pollRetryMax 0 { st with
    submits := st.submits + st.lists.length
    trace := st.trace ++ st.lists.filterMap fun e => e.desc.map fun desc => .submit e.no desc true }
  have moves := polled.memmoves
  simp only [CopyState.memmoves, List.flatMap_append, memmoves_submitted] at moves
  refine ⟨_, by rw [submitAndPoll, submitList_eq serving made], polled.src, polled.dst, ?_⟩
  exact
    { lists := by
        intro e inside
        have ⟨e', inside', _, same⟩ := polled.lists e inside
        rw [← same]
        exact lists e' inside'
      only := by
        intro m inside
        rw [CopyState.memmoves, moves, List.mem_append] at inside
        cases inside with
        | inl before => exact only m before
        | inr now =>
          have ⟨e, listed, move⟩ := List.mem_flatMap.mp now
          have ⟨desc, here, pairs⟩ := lists e listed
          apply pairs
          simpa [ListEntry.memmoves, here] using move
      all := by
        intro m inside
        rw [CopyState.memmoves, moves, List.mem_append]
        exact all m inside }

theorem chunk_covered (willing : Willing q) (serving : Serving env) {nents : Nat} {built : CopyState}
    (covered : Covered q st n) (inside : n + nents ≤ q.totalNents)
    (building : buildChunk q env nents { st with trace := st.trace ++ [.chunk nents] } = .ok built) :
    ∃ st', submitAndPoll env nents built = some (true, st') ∧ Covered q st' (n + nents) := by
  have shape : built =
      ({ st with trace := st.trace ++ [.chunk nents] } : CopyState).after q env n nents :=
    buildChunk_ok covered.src covered.dst inside building
  obtain ⟨new, entries⟩ :
      ∃ new, new = newEntries q env st.built ((q.pairs.drop n).take nents) := ⟨_, rfl⟩
  have fresh : new.map (fun e => (e.desc.map Handed.memmoves, e.completion)) =
      ((q.pairs.drop n).take nents).map fun p => (some [minMove p], false) := by
    rw [entries]
    apply newEntries_moves willing serving
    intro p member
    exact List.mem_of_mem_drop (List.mem_of_mem_take member)
  have made : ∀ e ∈ new, ∃ p ∈ (q.pairs.drop n).take nents,
      e.desc.map Handed.memmoves = some [minMove p] := by
    intro e member
    have image : (e.desc.map Handed.memmoves, e.completion) ∈
        new.map fun e => (e.desc.map Handed.memmoves, e.completion) := List.mem_map_of_mem member
    rw [fresh] at image
    have ⟨p, pair, same⟩ := List.mem_map.mp image
    exact ⟨p, pair, (congrArg Prod.fst same).symm⟩
  have moves : new.flatMap ListEntry.memmoves = ((q.pairs.drop n).take nents).map minMove := by
    have firsts := congrArg (List.map Prod.fst) fresh
    rw [List.map_map, List.map_map] at firsts
    calc new.flatMap ListEntry.memmoves
        = (new.map fun e => e.desc.map Handed.memmoves).flatMap (·.getD []) := by
          rw [List.flatMap_map]
          rfl
      _ = (((q.pairs.drop n).take nents).map fun p => some [minMove p]).flatMap (·.getD []) :=
          congrArg (List.flatMap (·.getD [])) firsts
      _ = ((q.pairs.drop n).take nents).map minMove := by
          rw [List.flatMap_map]
          exact List.map_eq_flatMap.symm
  have lists : built.lists = st.lists ++ new := by rw [shape, entries, CopyState.after]
  have trace : built.trace = st.trace ++ [.chunk nents] ++ new.map fun e => .build e.no e.desc := by
    rw [shape, entries, CopyState.after]
  have recorded : (new.map fun e => CopyEvent.build e.no e.desc).flatMap CopyEvent.memmoves = [] := by
    simp [List.flatMap_map, CopyEvent.memmoves]
  have same : built.memmoves = st.memmoves := by
    simp [trace, CopyState.memmoves, recorded, CopyEvent.memmoves]
  have ⟨st', ended, src, dst, issued⟩ : ∃ st', submitAndPoll env nents built = some (true, st') ∧
      st'.src = built.src ∧ st'.dst = built.dst ∧ Issued q st' (n + nents) := by
    apply submitAndPoll_issued serving nents
    · intro e listed
      rw [lists, List.mem_append] at listed
      cases listed with
      | inl old => exact covered.lists e old
      | inr member =>
        have ⟨p, pair, one⟩ := made e member
        have ⟨desc, here, move⟩ := Option.map_eq_some_iff.mp one
        refine ⟨desc, here, ?_⟩
        rw [move, List.forall_mem_singleton]
        exact List.mem_map_of_mem (List.mem_of_mem_drop (List.mem_of_mem_take pair))
    · rw [same]
      exact covered.only
    · intro m due
      rw [List.take_add, List.map_append, List.mem_append] at due
      rw [same, lists, List.flatMap_append, List.mem_append, moves]
      cases due with
      | inl old => exact .inl (covered.all m old)
      | inr now => exact .inr (.inr now)
  rw [shape, CopyState.after] at src dst
  exact ⟨st', ended, issued, src, dst⟩

theorem le_loopTimes_mul (positive : 0 < q.wq.numDescs) :
    q.totalNents ≤ loopTimes q * q.wq.numDescs := by
  have whole := Nat.div_add_mod q.totalNents q.wq.numDescs
  have part := Nat.mod_lt q.totalNents positive
  rw [Nat.mul_comm] at whole
  rw [loopTimes, Nat.add_mul]
  split
  next => omega
  next => omega

theorem nextLoop_covered (willing : Willing q) (serving : Serving env) (left : Nat) {loop : Nat}
    (covered : Covered q st (min (loop * q.wq.numDescs) q.totalNents)) :
    Waits (nextLoop q env left loop st) ∨ ∃ st', nextLoop q env left loop st = .ok (true, st') ∧
      Covered q st' (min ((loop + left) * q.wq.numDescs) q.totalNents) := by
  induction left generalizing loop st with
  | zero => exact .inr ⟨st, rfl, covered⟩
  | succ left ih =>
    have size : (if q.totalNents - loop * q.wq.numDescs > q.wq.numDescs then q.wq.numDescs
        else q.totalNents - loop * q.wq.numDescs) =
        min ((loop + 1) * q.wq.numDescs) q.totalNents - min (loop * q.wq.numDescs) q.totalNents := by
      rw [Nat.succ_mul]
      split <;> omega
    have grows : min (loop * q.wq.numDescs) q.totalNents ≤
        min ((loop + 1) * q.wq.numDescs) q.totalNents := by
      rw [Nat.succ_mul]
      omega
    have inside : min (loop * q.wq.numDescs) q.totalNents +
        (min ((loop + 1) * q.wq.numDescs) q.totalNents - min (loop * q.wq.numDescs) q.totalNents) ≤
        q.totalNents := by omega
    have start : ({ st with trace := st.trace ++ [.chunk (min ((loop + 1) * q.wq.numDescs)
        q.totalNents - min (loop * q.wq.numDescs) q.totalNents)] } : CopyState).src =
        q.src.sgl.drop (min (loop * q.wq.numDescs) q.totalNents) := covered.src
    have ends := buildChunk_ends env start covered.dst inside
    simp only [nextLoop, size]
    cases building : buildChunk q env _ { st with trace := st.trace ++ [.chunk _] } with
    | error stop =>
      rw [building] at ends
      cases ends with
      | blocked => exact .inl ⟨_, rfl⟩
    | ok built =>
      have ⟨mid, polling, after⟩ := chunk_covered willing serving covered inside building
      rw [Nat.add_sub_of_le grows] at after
      simp only [polling]
      rw [show loop + (left + 1) = loop + 1 + left by omega]
      exact ih after

theorem covered_initial (q : Queue) : Covered q (copyInitial q) 0 where
  src := rfl
  dst := rfl
  lists := by simp [copyInitial]
  only := by simp [copyInitial, CopyState.memmoves]
  all := by simp

theorem createEntry_initial (numDescs : 0 < q.wq.numDescs) (trace : List CopyEvent)
    (src dst : Segment) : createEntry q env { copyInitial q with trace := trace } src dst =
      .ok (addEntry q env { copyInitial q with trace := trace } src dst) := by
  have free : ¬ q.wq.numDescs ≤ ({ copyInitial q with trace := trace } : CopyState).held :=
    Nat.not_le_of_lt numDescs
  rw [createEntry, if_neg]
  simp [blocks, free]

theorem single_issued (willing : Willing q) (serving : Serving env) (numDescs : 0 < q.wq.numDescs)
    (single : q.totalNents = 1) :
    ∃ st, copySingle q env = .ok (true, st) ∧ Issued q st 1 := by
  have room := q.totalNents_le
  have ⟨src, srcs, atSrc⟩ := List.exists_cons_of_length_pos (show 0 < q.src.sgl.length by omega)
  have ⟨dst, dsts, atDst⟩ := List.exists_cons_of_length_pos (show 0 < q.dst.sgl.length by omega)
  have ⟨s, d, atSrc', atDst', chunk, pair⟩ := q.pair_at (show 0 < q.totalNents by omega)
  rw [List.drop_zero, atSrc, List.cons.injEq] at atSrc'
  rw [List.drop_zero, atDst, List.cons.injEq] at atDst'
  rw [← atSrc'.1, ← atDst'.1] at chunk pair
  rw [List.drop_zero, List.take_of_length_le (by rw [q.length_pairs, single])] at chunk
  have created := createDesc_eq willing serving 0 pair
  have ⟨desc, made, move⟩ := Option.map_eq_some_iff.mp created
  have ⟨st', ended, _, _, issued⟩ : ∃ st', submitAndPoll env 1 (addEntry q env
        { copyInitial q with trace := [.chunk 1] } src dst) =
        some (true, st') ∧ st'.src = q.src.sgl ∧ st'.dst = q.dst.sgl ∧ Issued q st' 1 := by
    apply submitAndPoll_issued serving 1
    · intro e listed
      have same : e = ⟨0, some desc, false⟩ := by
        simpa [addEntry, copyInitial, made] using listed
      subst same
      exact ⟨desc, rfl, by simp [move, chunk]⟩
    · simp [addEntry, copyInitial, CopyState.memmoves, CopyEvent.memmoves]
    · intro m due
      right
      simpa [addEntry, copyInitial, ListEntry.memmoves, made, move, chunk] using due
  refine ⟨st', ?_, issued⟩
  simp only [copySingle, atSrc, atDst, createEntry_initial numDescs, ended]

theorem several_issued (willing : Willing q) (serving : Serving env)
    (numDescs : 0 < q.wq.numDescs) : Waits (nextLoop q env (loopTimes q) 0 (copyInitial q)) ∨
    ∃ st, nextLoop q env (loopTimes q) 0 (copyInitial q) = .ok (true, st) ∧
      Issued q st q.totalNents := by
  have start : Covered q (copyInitial q) (min (0 * q.wq.numDescs) q.totalNents) := by
    rw [Nat.zero_mul, Nat.zero_min]
    exact covered_initial q
  cases nextLoop_covered willing serving (loopTimes q) start with
  | inl waits => exact .inl waits
  | inr returned =>
    have ⟨st, run, covered⟩ := returned
    rw [Nat.zero_add, Nat.min_eq_right (le_loopTimes_mul numDescs)] at covered
    exact .inr ⟨st, run, covered.toIssued⟩

/-- However the descriptors complete, the memmoves issued are those of the pairs, unless
the failed ones keep so much of the pool that a later chunk waits for ever. -/
theorem dsaCopy_memmoves (willing : Willing q) (serving : Serving env)
    (numDescs : 0 < q.wq.numDescs) (srcNents : 0 < q.src.nents) (dstNents : 0 < q.dst.nents) :
    Waits (dsaCopy q env) ∨
      ∃ st, dsaCopy q env = .ok st ∧ ∀ m, m ∈ st.memmoves ↔ m ∈ q.pairs.map minMove := by
  have total : q.totalNents = min q.src.nents q.dst.nents := Shape.totalNents_eq_min q.shape
  have ended : Waits (dsaCopy q env) ∨ ∃ st, Issued q st q.totalNents ∧
      dsaCopy q env = .ok { st with trace := st.trace ++ [.unmap] } := by
    unfold dsaCopy
    split
    next several =>
      cases several_issued willing serving numDescs with
      | inl waits =>
        have ⟨st, stopped⟩ := waits
        exact .inl ⟨st, by rw [stopped]; rfl⟩
      | inr returned =>
        have ⟨st, run, issued⟩ := returned
        exact .inr ⟨st, issued, by rw [run]; rfl⟩
    next one =>
      have single : q.totalNents = 1 := by omega
      have ⟨st, run, issued⟩ := single_issued willing serving numDescs single
      rw [single]
      exact .inr ⟨st, issued, by rw [run]; rfl⟩
  refine ended.imp_right ?_
  intro ⟨st, issued, run⟩
  refine ⟨_, run, ?_⟩
  have same : CopyState.memmoves { st with trace := st.trace ++ [.unmap] } = st.memmoves := by
    simp [CopyState.memmoves, CopyEvent.memmoves]
  intro m
  rw [same]
  constructor
  · exact issued.only m
  · have whole : q.pairs.take q.totalNents = q.pairs :=
      List.take_of_length_le (Nat.le_of_eq q.length_pairs)
    rw [← whole]
    exact issued.all m

end DsaTest.SingleDevice

namespace DsaTest

def promptEnv : SingleDevice.CopyEnv where
  grant := alwaysGranted
  submitOk _ := true
  status _ _ := SingleDevice.dsaCompSuccess
  answered _ _ := true

theorem promptEnv_serving : SingleDevice.Serving promptEnv where
  granted := by simp [promptEnv, alwaysGranted]
  accepted _ := rfl

end DsaTest
