import DsaTest.Chunks

/-! One pass of the single-device modules over `idxd_desc_lists`, whatever is on the list:
its submission, up to a refusal, and the polling of the entries not counted yet. -/
namespace DsaTest.SingleDevice

def AllAccepted (env : CopyEnv) (submits count : Nat) : Prop :=
  ∀ k < count, env.submitOk (submits + k) = true

def waitingOf (l : List ListEntry) : List Nat := (l.filter fun e => !e.completion).map (·.no)

def failedOf (l : List ListEntry) : Nat := l.countP (·.completion)

/-- The polling loop of a pass with `size` new descriptors makes `m` scans while the
descriptors `pending` are not counted. -/
structure Stops (env : CopyEnv) (start : Nat) (pending : List Nat) (size m : Nat) : Prop where
  within : m ≤ pollRetryMax
  busy : ∀ n < m, pending.countP (fun i => seen env start i n ≠ 0) < size
  ended : m = pollRetryMax ∨ size ≤ pending.countP fun i => seen env start i m ≠ 0

variable {env : CopyEnv} {st st' : CopyState} {l : List ListEntry} {n k start size : Nat}
  {ok : Bool}

structure Submitted (env : CopyEnv) (l : List ListEntry) (st st' : CopyState) (ok : Bool)
    (k : Nat) : Prop where
  accepted : AllAccepted env st.submits k
  all : ok = true → k = l.length ∧ st' = { st with
      submits := st.submits + l.length, trace := st.trace ++ submission l }
  refused : ok = false → k < l.length ∧ env.submitOk (st.submits + k) = false ∧
    st'.submits = st.submits + k + 1 ∧ st'.scans = st.scans

theorem submitList_end (result : submitList env l st = some (ok, st')) :
    ∃ k, Submitted env l st st' ok k := by
  induction l generalizing st with
  | nil =>
    cases result
    exact ⟨0, by simp [AllAccepted], by simp [submission], by simp⟩
  | cons e rest ih =>
    rw [submitList] at result
    split at result
    next => contradiction
    next desc made =>
      simp only at result
      split at result
      next accepted =>
        obtain ⟨k, tail⟩ := ih result
        refine ⟨k + 1, ?_⟩
        exact
          { accepted := by
              intro j below
              cases j with
              | zero => exact accepted
              | succ j =>
                have later := tail.accepted j (by omega)
                rwa [Nat.add_assoc, Nat.add_comm 1] at later
            all := by
              intro all
              obtain ⟨whole, shape⟩ := tail.all all
              rw [shape]
              simp [submission, made, accepted, whole, Nat.add_assoc, Nat.add_comm 1]
            refused := by
              intro stopped
              obtain ⟨below, refused, submits, scans⟩ := tail.refused stopped
              rw [Nat.add_assoc, Nat.add_comm 1] at refused
              refine ⟨Nat.succ_lt_succ below, refused, ?_, scans⟩
              rw [submits, Nat.add_assoc st.submits 1 k, Nat.add_comm 1 k] }
      next refused =>
        cases result
        refine ⟨0, by simp [AllAccepted], by simp, ?_⟩
        intro _
        exact ⟨Nat.succ_pos _, by simpa using refused, rfl, rfl⟩

theorem length_waitingOf (l : List ListEntry) : l.length = failedOf l + (waitingOf l).length := by
  rw [failedOf, waitingOf, List.length_map, ← List.countP_eq_length_filter]
  simpa using l.length_eq_countP_add_countP (·.completion)

theorem waitingOf_append (l l' : List ListEntry) :
    waitingOf (l ++ l') = waitingOf l ++ waitingOf l' := by
  simp [waitingOf]

theorem waitingOf_fresh (fresh : ∀ e ∈ l, e.completion = false) : waitingOf l = l.map (·.no) := by
  have all : l.filter (fun e => !e.completion) = l := by
    rw [List.filter_eq_self]
    intro e listed
    simp [fresh e listed]
  rw [waitingOf, all]

theorem Stops.unique {pending : List Nat} {m m' : Nat} (one : Stops env start pending size m)
    (two : Stops env start pending size m') : m = m' := by
  have least {m m' : Nat} (one : Stops env start pending size m)
      (two : Stops env start pending size m') : ¬ m < m' := by
    intro before
    have busy := two.busy m before
    have within := two.within
    cases one.ended with
    | inl limit => omega
    | inr enough => omega
  have first := least one two
  have second := least two one
  omega

inductive Skips : List ListEntry → List ListEntry → List ListEntry → Prop
  | nil : Skips [] [] []
  | skip {e marked u l} : e.completion = true → Skips marked u l → Skips (e :: marked) u (e :: l)
  | keep {e marked u l} : Skips marked u l → Skips marked (e :: u) (e :: l)

variable {marked u : List ListEntry}

theorem skips_filter (l : List ListEntry) :
    Skips (l.filter (·.completion)) (l.filter fun e => !e.completion) l := by
  induction l with
  | nil => exact .nil
  | cons e rest ih =>
    cases here : e.completion with
    | true =>
      rw [List.filter_cons_of_pos (by simp [here]), List.filter_cons_of_neg (by simp [here])]
      exact .skip here ih
    | false =>
      rw [List.filter_cons_of_neg (by simp [here]), List.filter_cons_of_pos (by simp [here])]
      exact .keep ih

theorem Skips.waitingOf (skips : Skips marked u l) : waitingOf l = waitingOf u := by
  induction skips with
  | nil => rfl
  | skip here _ ih => simpa [SingleDevice.waitingOf, here] using ih
  | @keep e marked u l _ ih =>
    have split (l : List ListEntry) : SingleDevice.waitingOf (e :: l) =
        SingleDevice.waitingOf [e] ++ SingleDevice.waitingOf l := waitingOf_append [e] l
    rw [split l, split u, ih]

theorem Skips.failedOf (skips : Skips marked u l) : failedOf l = marked.length + failedOf u := by
  induction skips with
  | nil => rfl
  | skip here _ ih =>
    rw [SingleDevice.failedOf, List.countP_cons, ← SingleDevice.failedOf, ih, here,
      List.length_cons]
    simp only [if_true]
    omega
  | keep _ ih =>
    rw [SingleDevice.failedOf, SingleDevice.failedOf, List.countP_cons, List.countP_cons,
      ← SingleDevice.failedOf, ← SingleDevice.failedOf, ih, Nat.add_assoc]

theorem scanList_skips (status : Nat → Nat) (skips : Skips marked u l) :
    Skips marked (scanList status u).1 (scanList status l).1 ∧
      (scanList status l).2 = (scanList status u).2 := by
  induction skips with
  | nil => exact ⟨.nil, rfl⟩
  | skip here _ ih =>
    rw [scanList_marked here]
    exact ⟨.skip here ih.1, ih.2⟩
  | keep _ ih =>
    have ⟨lists, counts⟩ := ih
    simp only [scanList]
    split
    next => exact ⟨.keep lists, counts⟩
    next =>
      split
      next => exact ⟨lists, by rw [counts]⟩
      next =>
        split
        next => exact ⟨.keep lists, by rw [counts]⟩
        next => exact ⟨.keep lists, counts⟩

theorem pollLoop_skips (env : CopyEnv) (nents left pollEntry : Nat)
    (skips : Skips marked u st.lists) :
    ∃ l, pollLoop env nents left pollEntry st =
      { pollLoop env nents left pollEntry { st with lists := u } with lists := l } ∧
      Skips marked (pollLoop env nents left pollEntry { st with lists := u }).lists l := by
  induction left generalizing pollEntry st u with
  | zero => exact ⟨st.lists, rfl, skips⟩
  | succ left ih =>
    have ⟨lists, counts⟩ := scanList_skips (env.status st.scans) skips
    have count : pollCount env st = pollCount env { st with lists := u } := by
      simp only [pollCount, counts]
    have scanned : { scan env st with lists := (scan env { st with lists := u }).lists } =
        scan env { st with lists := u } := by
      simp only [scan, counts]
    rw [pollLoop, pollLoop, count]
    split
    next =>
      rw [← scanned]
      exact ih _ lists
    next => exact ⟨st.lists, rfl, skips⟩

theorem leftAfter_waiting (l : List ListEntry) : waitingOf (leftAfter env start n l) =
    (l.map (·.no)).filter fun i => seen env start i n = 0 := by
  induction l with
  | nil => rfl
  | cons e rest ih =>
    rw [leftAfter_cons, List.map_cons]
    by_cases waiting : seen env start e.no n = 0
    · rw [List.filter_cons_of_pos (by simpa using waiting), ← ih]
      simp [waitingOf, waiting, dsaCompSuccess]
    · rw [List.filter_cons_of_neg (by simpa using waiting), ← ih]
      split
      next => rfl
      next other =>
        have failed : seen env start e.no n > dsaCompSuccess := by
          unfold dsaCompSuccess at other ⊢
          omega
        simp [waitingOf, failed]

theorem counted_eq (l : List ListEntry) : counted env start n l =
    (l.map (·.no)).countP fun i => seen env start i n ≠ 0 := by
  rw [counted, List.countP_map]
  rfl

theorem leftAfter_failed (l : List ListEntry) : failedOf (leftAfter env start n l) =
    (l.map (·.no)).countP fun i => seen env start i n > dsaCompSuccess := by
  induction l with
  | nil => rfl
  | cons e rest ih =>
    rw [leftAfter_cons, List.map_cons, List.countP_cons, ← ih]
    split
    next success => simp [success]
    next => simp [failedOf, List.countP_cons]

/-- How a pass ends in which all submissions succeed, after `m` scans. -/
structure Passed (env : CopyEnv) (size : Nat) (st st' : CopyState) (m : Nat) : Prop where
  src : st'.src = st.src
  dst : st'.dst = st.dst
  built : st'.built = st.built
  submits : st'.submits = st.submits + st.lists.length
  scans : st'.scans = st.scans + m
  stops : Stops env st.scans (waitingOf st.lists) size m
  waiting : waitingOf st'.lists = (waitingOf st.lists).filter fun i => seen env st.scans i m = 0
  failed : failedOf st'.lists = failedOf st.lists +
    (waitingOf st.lists).countP fun i => seen env st.scans i m > dsaCompSuccess

theorem submitAndPoll_passed (result : submitAndPoll env size st = some (true, st')) :
    AllAccepted env st.submits st.lists.length ∧ ∃ m, Passed env size st st' m := by
  have mid : ∃ mid, submitList env st.lists st = some (true, mid) ∧
      st' = pollLoop env size pollRetryMax 0 mid := by
    rw [submitAndPoll] at result
    split at result
    next mid submitted =>
      cases result
      exact ⟨mid, submitted, rfl⟩
    next failed => exact absurd result (failed st')
  obtain ⟨mid, submitting, polling⟩ := mid
  obtain ⟨k, submitted⟩ := submitList_end submitting
  obtain ⟨whole, shape⟩ := submitted.all rfl
  have accepted := submitted.accepted
  rw [whole] at accepted
  have lists : mid.lists = st.lists := by rw [shape]
  -- the marked entries stay where they are, so the loop is run without them
  obtain ⟨inner, only⟩ : ∃ inner : CopyState,
      inner = { mid with lists := st.lists.filter fun e => !e.completion } := ⟨_, rfl⟩
  have numbers : waitingOf st.lists = inner.lists.map (·.no) := by rw [only, waitingOf]
  have start : inner.scans = st.scans := by rw [only, shape]
  have fresh : ∀ e ∈ inner.lists, e.completion = false := by
    rw [only]
    intro e listed
    simpa using (List.mem_filter.mp listed).2
  have apart := skips_filter st.lists
  rw [← lists] at apart
  obtain ⟨l, skipped, skips⟩ := pollLoop_skips env size pollRetryMax 0 apart
  rw [lists, ← only] at skipped skips
  obtain ⟨m, ended⟩ : ∃ m, PollEnd env inner.scans size pollRetryMax inner.lists inner
      (pollLoop env size pollRetryMax 0 inner) m := pollLoop_fresh fresh
  obtain ⟨counts, run, _, _⟩ := ended.state
  rw [skipped, run] at polling
  rw [run] at skips
  refine ⟨accepted, m, ?_⟩
  exact
    { src := by rw [polling, only, shape]
      dst := by rw [polling, only, shape]
      built := by rw [polling, only, shape]
      submits := by rw [polling, only, shape]
      scans := by rw [polling, ← start]
      stops := by
        have busy := ended.busy
        have stopped := ended.ended
        simp only [counted_eq, ← numbers, start] at busy stopped
        exact ⟨ended.within, busy, stopped⟩
      waiting := by
        rw [polling, skips.waitingOf, leftAfter_waiting, ← numbers, start]
      failed := by
        rw [polling, skips.failedOf, leftAfter_failed, ← numbers, start,
          ← List.countP_eq_length_filter]
        rfl }

/-- How a pass ends at a refusal, after `k` calls that succeed. -/
structure Refused (env : CopyEnv) (st st' : CopyState) (k : Nat) : Prop where
  inside : k < st.lists.length
  accepted : AllAccepted env st.submits k
  refused : env.submitOk (st.submits + k) = false
  submits : st'.submits = st.submits + k + 1
  scans : st'.scans = st.scans

theorem submitAndPoll_refused (result : submitAndPoll env size st = some (false, st')) :
    ∃ k, Refused env st st' k := by
  have submitting : submitList env st.lists st = some (false, st') := by
    rw [submitAndPoll] at result
    split at result
    next => cases result
    next => exact result
  obtain ⟨k, submitted⟩ := submitList_end submitting
  obtain ⟨inside, refused, submits, scans⟩ := submitted.refused rfl
  exact ⟨k, inside, submitted.accepted, refused, submits, scans⟩

end DsaTest.SingleDevice
