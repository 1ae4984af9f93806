import DsaTest.SingleDevice

/-! The polling loop of the single-device modules: what is left of a list of fresh
entries after some scans, and how many scans a list takes. -/
namespace DsaTest.SingleDevice

/-- The first final status that `n` scans from scan `start` on find in descriptor `no`,
or 0. -/
def seen (env : CopyEnv) (start no : Nat) : Nat → Nat
  | 0 => 0
  | n + 1 => if seen env start no n = 0 then env.status (start + n) no else seen env start no n

def leftAfter (env : CopyEnv) (start n : Nat) (l : List ListEntry) : List ListEntry :=
  (l.filter fun e => seen env start e.no n ≠ dsaCompSuccess).map fun e =>
    { e with completion := decide (seen env start e.no n > dsaCompSuccess) }

def counted (env : CopyEnv) (start n : Nat) (l : List ListEntry) : Nat :=
  l.countP fun e => seen env start e.no n ≠ 0

variable {env : CopyEnv} {st : CopyState} {l : List ListEntry} {start n nents left : Nat}

theorem leftAfter_cons (e : ListEntry) (rest : List ListEntry) :
    leftAfter env start n (e :: rest) = if seen env start e.no n = dsaCompSuccess
      then leftAfter env start n rest
      else { e with completion := decide (seen env start e.no n > dsaCompSuccess) } ::
        leftAfter env start n rest := by
  rw [leftAfter, List.filter_cons]
  split
  next kept => rw [if_neg (by simpa using kept)]; rfl
  next gone => rw [if_pos (by simpa using gone)]; rfl

theorem counted_cons (e : ListEntry) (rest : List ListEntry) :
    counted env start n (e :: rest) =
      counted env start n rest + if seen env start e.no n = 0 then 0 else 1 := by
  rw [counted, List.countP_cons]
  by_cases waiting : seen env start e.no n = 0
  · simp [waiting, counted]
  · simp [waiting, counted]

theorem leftAfter_zero (fresh : ∀ e ∈ l, e.completion = false) : leftAfter env start 0 l = l := by
  induction l with
  | nil => rfl
  | cons e rest ih =>
    rw [List.forall_mem_cons] at fresh
    have here : ({ e with completion := false } : ListEntry) = e := by
      rw [← fresh.1]
    rw [leftAfter_cons, ih fresh.2]
    simp [seen, dsaCompSuccess, here]

theorem counted_zero : counted env start 0 l = 0 := by simp [counted, seen]

theorem counted_le : counted env start n l ≤ l.length := List.countP_le_length

theorem length_le_counted_iff :
    l.length ≤ counted env start n l ↔ ∀ e ∈ l, seen env start e.no n ≠ 0 := by
  have bound : counted env start n l ≤ l.length := counted_le
  have all : counted env start n l = l.length ↔ ∀ e ∈ l, seen env start e.no n ≠ 0 := by
    rw [counted, List.countP_eq_length]
    simp
  rw [← all]
  omega

theorem unseen_of_busy (busy : counted env start n l < l.length) :
    ∃ e ∈ l, seen env start e.no n = 0 := by
  by_contra none
  have answered : ∀ e ∈ l, seen env start e.no n ≠ 0 := by
    intro e listed unseen
    exact none ⟨e, listed, unseen⟩
  have enough := length_le_counted_iff.mpr answered
  omega

/-- A loop stops with the first scan after which all is answered, or at its limit. -/
theorem scans_unique {m limit : Nat} (within : n ≤ limit)
    (stopped : n = limit ∨ ∀ e ∈ l, seen env start e.no n ≠ 0)
    (needed : ∀ n' < n, ∃ e ∈ l, seen env start e.no n' = 0) (most : m ≤ limit)
    (busy : ∀ n' < m, counted env start n' l < l.length)
    (ended : m = limit ∨ l.length ≤ counted env start m l) : n = m := by
  apply Nat.le_antisymm
  · by_contra more
    have ⟨e, listed, unseen⟩ := needed m (Nat.lt_of_not_le more)
    cases ended with
    | inl last => exact more (last ▸ within)
    | inr enough => exact length_le_counted_iff.mp enough e listed unseen
  · by_contra fewer
    cases stopped with
    | inl last => exact fewer (last ▸ most)
    | inr answered =>
      have waiting := busy n (Nat.lt_of_not_le fewer)
      have enough := length_le_counted_iff.mpr answered
      omega

section

variable {no : Nat} (numbers : l.map (·.no) = List.range' no l.length)
include numbers

theorem forall_numbers (P : Nat → Prop) :
    (∀ e ∈ l, P e.no) ↔ ∀ i, no ≤ i → i < no + l.length → P i := by
  have image : (∀ i ∈ l.map (·.no), P i) ↔ ∀ e ∈ l, P e.no := List.forall_mem_map
  rw [← image, numbers]
  simp [List.mem_range'_1]

theorem exists_numbers (P : Nat → Prop) :
    (∃ e ∈ l, P e.no) ↔ ∃ i, no ≤ i ∧ i < no + l.length ∧ P i := by
  have none : (∀ e ∈ l, ¬ P e.no) ↔ ∀ i, no ≤ i → i < no + l.length → ¬ P i :=
    forall_numbers numbers fun i => ¬ P i
  rw [← not_iff_not]
  simpa [not_exists] using none

end

section

variable {status : Nat → Nat} {e : ListEntry} {rest : List ListEntry}

theorem scanList_marked (marked : e.completion = true) :
    scanList status (e :: rest) = (e :: (scanList status rest).1, (scanList status rest).2) := by
  simp [scanList, marked]

theorem scanList_success (unmarked : e.completion = false) (success : status e.no = dsaCompSuccess) :
    scanList status (e :: rest) =
      ((scanList status rest).1, (e.no, status e.no) :: (scanList status rest).2) := by
  simp [scanList, unmarked, success]

theorem scanList_error (unmarked : e.completion = false) (error : status e.no > dsaCompSuccess) :
    scanList status (e :: rest) =
      ({ e with completion := true } :: (scanList status rest).1,
        (e.no, status e.no) :: (scanList status rest).2) := by
  simp [scanList, unmarked, error, Nat.ne_of_gt error]

theorem scanList_waiting (unmarked : e.completion = false) (waiting : status e.no = 0) :
    scanList status (e :: rest) = (e :: (scanList status rest).1, (scanList status rest).2) := by
  simp [scanList, unmarked, waiting, dsaCompSuccess]

end

structure Scanned (env : CopyEnv) (start n : Nat) (l : List ListEntry)
    (result : List ListEntry × List (Nat × Nat)) : Prop where
  kept : result.1 = leftAfter env start (n + 1) l
  count : counted env start n l + result.2.length = counted env start (n + 1) l
  found : ∀ i, (∃ status, (i, status) ∈ result.2) ↔
    ∃ e ∈ l, e.no = i ∧ seen env start i n = 0 ∧ seen env start i (n + 1) ≠ 0

section

variable {e : ListEntry} {rest kept : List ListEntry} {result : List ListEntry × List (Nat × Nat)}
  (tail : Scanned env start n rest result)
  (list : kept = leftAfter env start (n + 1) (e :: rest))
include tail list

theorem Scanned.cons_same (same : seen env start e.no (n + 1) = seen env start e.no n) :
    Scanned env start n (e :: rest) (kept, result.2) where
  kept := list
  count := by
    have count := tail.count
    simp only [counted_cons, same]
    omega
  found := by
    intro i
    rw [tail.found, List.exists_mem_cons_iff]
    constructor
    · exact .inr
    · intro either
      cases either with
      | inl here =>
        obtain ⟨number, before, after⟩ := here
        subst number
        exact absurd (same.trans before) after
      | inr there => exact there

theorem Scanned.cons_new (status : Nat) (before : seen env start e.no n = 0)
    (after : seen env start e.no (n + 1) ≠ 0) :
    Scanned env start n (e :: rest) (kept, (e.no, status) :: result.2) where
  kept := list
  count := by
    have count := tail.count
    rw [counted_cons, counted_cons, if_pos before, if_neg after, List.length_cons]
    omega
  found := by
    intro i
    rw [List.exists_mem_cons_iff, ← tail.found]
    constructor
    · rintro ⟨status', inside⟩
      cases inside with
      | head => exact .inl ⟨rfl, before, after⟩
      | tail _ there => exact .inr ⟨status', there⟩
    · intro either
      cases either with
      | inl here => exact ⟨status, here.1 ▸ List.mem_cons_self⟩
      | inr there =>
        obtain ⟨status', inside⟩ := there
        exact ⟨status', List.mem_cons_of_mem _ inside⟩

end

theorem scanList_leftAfter (l : List ListEntry) :
    Scanned env start n l (scanList (env.status (start + n)) (leftAfter env start n l)) := by
  induction l with
  | nil => exact ⟨rfl, rfl, by simp [leftAfter, scanList]⟩
  | cons e rest ih =>
    by_cases waiting : seen env start e.no n = 0
    · have later : seen env start e.no (n + 1) = env.status (start + n) e.no := by
        rw [seen, if_pos waiting]
      have unmarked : decide (seen env start e.no n > dsaCompSuccess) = false := by
        simp [waiting, dsaCompSuccess]
      have first : seen env start e.no n ≠ dsaCompSuccess := by simp [waiting, dsaCompSuccess]
      rw [leftAfter_cons, if_neg first, unmarked]
      by_cases success : env.status (start + n) e.no = dsaCompSuccess
      · rw [scanList_success (e := { e with completion := false }) rfl success]
        apply ih.cons_new
        · rw [leftAfter_cons, later, if_pos success, ih.kept]
        · exact waiting
        · simp [later, success, dsaCompSuccess]
      · by_cases error : env.status (start + n) e.no > dsaCompSuccess
        · rw [scanList_error (e := { e with completion := false }) rfl error]
          apply ih.cons_new
          · rw [leftAfter_cons, later, if_neg success, ih.kept]
            simp [error]
          · exact waiting
          · rw [later]
            exact Nat.ne_of_gt (Nat.zero_lt_of_lt error)
        · have none : env.status (start + n) e.no = 0 := by
            simp only [dsaCompSuccess] at success error
            omega
          rw [scanList_waiting (e := { e with completion := false }) rfl none]
          apply ih.cons_same
          · rw [leftAfter_cons, later, if_neg success, ih.kept]
            simp [error]
          · rw [later, none, waiting]
    · have later : seen env start e.no (n + 1) = seen env start e.no n := by
        rw [seen, if_neg waiting]
      by_cases success : seen env start e.no n = dsaCompSuccess
      · rw [leftAfter_cons, if_pos success]
        apply ih.cons_same _ later
        rw [leftAfter_cons, later, if_pos success, ih.kept]
      · have error : seen env start e.no n > dsaCompSuccess := by
          simp only [dsaCompSuccess] at success ⊢
          omega
        have marked : decide (seen env start e.no n > dsaCompSuccess) = true := by simp [error]
        rw [leftAfter_cons, if_neg success, marked,
          scanList_marked (e := { e with completion := true }) rfl]
        apply ih.cons_same _ later
        rw [leftAfter_cons, later, if_neg success, marked, ih.kept]

/-- How a polling loop over the fresh entries `l` ends after `m` scans in all. -/
structure PollEnd (env : CopyEnv) (start nents limit : Nat) (l : List ListEntry)
    (st st' : CopyState) (m : Nat) : Prop where
  state : ∃ counts, st' = { st with
      lists := leftAfter env start m l, scans := start + m, trace := st.trace ++ counts } ∧
    (∀ ev ∈ counts, ∃ e ∈ l, ∃ status, ev = .count e.no status) ∧
    ∀ i, (∃ status, .count i status ∈ counts) ↔
      ∃ e ∈ l, e.no = i ∧ seen env start i (st.scans - start) = 0 ∧ seen env start i m ≠ 0
  since : st.scans ≤ start + m
  within : m ≤ limit
  busy : ∀ n < m, counted env start n l < nents
  ended : m = limit ∨ nents ≤ counted env start m l

theorem pollEnd_here (env : CopyEnv) (lists : st.lists = leftAfter env start n l) (scans : st.scans = start + n) :
    ∃ counts, st = { st with
        lists := leftAfter env start n l, scans := start + n, trace := st.trace ++ counts } ∧
      (∀ ev ∈ counts, ∃ e ∈ l, ∃ status, ev = .count e.no status) ∧
      ∀ i, (∃ status, .count i status ∈ counts) ↔
        ∃ e ∈ l, e.no = i ∧ seen env start i (st.scans - start) = 0 ∧ seen env start i n ≠ 0 := by
  refine ⟨[], by simp [← lists, ← scans], by simp, ?_⟩
  intro i
  rw [scans, Nat.add_sub_cancel_left]
  simp only [List.not_mem_nil, exists_false, false_iff]
  intro ⟨_, _, _, waiting, answered⟩
  exact answered waiting

theorem seen_stays {i : Nat} (answered : seen env start i n ≠ 0) {m : Nat} (later : n ≤ m) :
    seen env start i m = seen env start i n := by
  induction later with
  | refl => rfl
  | step _ ih => rw [seen, ih, if_neg answered]

theorem PollEnd.of_scan {limit m : Nat} {st' : CopyState} (lists : st.lists = leftAfter env start n l)
    (scans : st.scans = start + n) (ended : PollEnd env start nents limit l (scan env st) st' m) :
    PollEnd env start nents limit l st st' m := by
  have scanned : Scanned env start n l
      (scanList (env.status (start + n)) (leftAfter env start n l)) := scanList_leftAfter l
  obtain ⟨⟨counts, shape, own, found⟩, since, within, busy, ended⟩ := ended
  have moved : (scan env st).scans = start + (n + 1) := by
    rw [scan, scans, Nat.add_assoc]
  rw [moved] at since
  refine ⟨⟨(scanList (env.status (start + n)) (leftAfter env start n l)).2.map
    (fun c => .count c.1 c.2) ++ counts, ?_, ?_, ?_⟩, by omega, within, busy, ended⟩
  · rw [shape]
    simp [scan, lists, scans]
  · intro ev inside
    cases List.mem_append.mp inside with
    | inl now =>
      obtain ⟨c, member, same⟩ := List.mem_map.mp now
      obtain ⟨e, listed, number, _⟩ := (scanned.found c.1).mp ⟨c.2, member⟩
      exact ⟨e, listed, c.2, by rw [number, ← same]⟩
    | inr after => exact own ev after
  · intro i
    have now : (∃ status, CopyEvent.count i status ∈
        (scanList (env.status (start + n)) (leftAfter env start n l)).2.map
          fun c => .count c.1 c.2) ↔
        ∃ status, (i, status) ∈
          (scanList (env.status (start + n)) (leftAfter env start n l)).2 := by simp
    have after := found i
    rw [moved, Nat.add_sub_cancel_left] at after
    rw [scans, Nat.add_sub_cancel_left]
    simp only [List.mem_append, exists_or]
    rw [now, scanned.found, after]
    constructor
    · intro either
      cases either with
      | inl first =>
        obtain ⟨e, listed, number, waiting, answered⟩ := first
        have stays := seen_stays answered (show n + 1 ≤ m by omega)
        exact ⟨e, listed, number, waiting, stays ▸ answered⟩
      | inr second =>
        obtain ⟨e, listed, number, waiting, answered⟩ := second
        refine ⟨e, listed, number, ?_, answered⟩
        by_contra before
        exact before (seen_stays before (Nat.le_succ n) ▸ waiting)
    · rintro ⟨e, listed, number, waiting, answered⟩
      by_cases first : seen env start i (n + 1) = 0
      · exact .inr ⟨e, listed, number, first, answered⟩
      · exact .inl ⟨e, listed, number, waiting, first⟩

/-- The loop, from the point where it has made `n` scans. -/
theorem pollLoop_from (lists : st.lists = leftAfter env start n l) (scans : st.scans = start + n)
    (busy : ∀ n' < n, counted env start n' l < nents) :
    ∃ m, PollEnd env start nents (n + left) l st
      (pollLoop env nents left (counted env start n l) st) m := by
  induction left generalizing n st with
  | zero =>
    have state := pollEnd_here env lists scans
    exact ⟨n, state, Nat.le_of_eq scans, Nat.le_refl _, busy, .inl rfl⟩
  | succ left ih =>
    rw [pollLoop]
    split
    next more =>
      have scanned : Scanned env start n l
          (scanList (env.status (start + n)) (leftAfter env start n l)) := scanList_leftAfter l
      have next : counted env start n l + pollCount env st = counted env start (n + 1) l := by
        rw [pollCount, lists, scans, scanned.count]
      have kept : (scan env st).lists = leftAfter env start (n + 1) l := by
        rw [scan, lists, scans]
        exact scanned.kept
      have moved : (scan env st).scans = start + (n + 1) := by
        rw [scan, scans, Nat.add_assoc]
      have later : ∀ n' < n + 1, counted env start n' l < nents := by
        intro n' below
        by_cases old : n' < n
        · exact busy n' old
        · rwa [show n' = n by omega]
      obtain ⟨m, ended⟩ := ih kept moved later
      rw [next, show n + (left + 1) = n + 1 + left by omega]
      exact ⟨m, ended.of_scan lists scans⟩
    next enough =>
      have state := pollEnd_here env lists scans
      exact ⟨n, state, Nat.le_of_eq scans, Nat.le_add_right _ _, busy,
        .inr (Nat.le_of_not_lt enough)⟩

theorem pollLoop_fresh (fresh : ∀ e ∈ st.lists, e.completion = false) :
    ∃ m, PollEnd env st.scans nents left st.lists st (pollLoop env nents left 0 st) m := by
  have ⟨m, ended⟩ : ∃ m, PollEnd env st.scans nents (0 + left) st.lists st
      (pollLoop env nents left (counted env st.scans 0 st.lists) st) m :=
    pollLoop_from (leftAfter_zero fresh).symm (Nat.add_zero _).symm (by simp)
  rw [counted_zero, Nat.zero_add] at ended
  exact ⟨m, ended⟩

def Grows (P : CopyEvent → Prop) (st st' : CopyState) : Prop :=
  ∃ more, st'.trace = st.trace ++ more ∧ ∀ ev ∈ more, P ev

theorem Grows.refl (P : CopyEvent → Prop) (st : CopyState) : Grows P st st := ⟨[], by simp, by simp⟩

theorem Grows.trans {P : CopyEvent → Prop} {st st' st'' : CopyState} (one : Grows P st st')
    (two : Grows P st' st'') : Grows P st st'' := by
  have ⟨more, grown, kind⟩ := one
  have ⟨more', grown', kind'⟩ := two
  refine ⟨more ++ more', by rw [grown', grown, List.append_assoc], ?_⟩
  rw [List.forall_mem_append]
  exact ⟨kind, kind'⟩

theorem Grows.mono {P Q : CopyEvent → Prop} {st st' : CopyState} (grows : Grows P st st')
    (weaker : ∀ ev, P ev → Q ev) : Grows Q st st' := by
  have ⟨more, grown, kind⟩ := grows
  exact ⟨more, grown, fun ev inside => weaker ev (kind ev inside)⟩

def CopyEvent.isBuild : CopyEvent → Bool
  | .build _ _ => true
  | _ => false

theorem submitList_grows {ok : Bool} {st' : CopyState} (result : submitList env l st = some (ok, st')) :
    Grows (·.isBuild = false) st st' := by
  induction l generalizing st with
  | nil =>
    cases result
    exact .refl _ _
  | cons e rest ih =>
    rw [submitList] at result
    split at result
    next => contradiction
    next desc made =>
      have one : Grows (·.isBuild = false) st { st with
          submits := st.submits + 1
          trace := st.trace ++ [.submit e.no desc (env.submitOk st.submits)] } :=
        ⟨_, rfl, by simp [CopyEvent.isBuild]⟩
      simp only at result
      split at result
      next => exact one.trans (ih result)
      next =>
        cases result
        exact one

theorem scan_grows (env : CopyEnv) (st : CopyState) : Grows (·.isBuild = false) st (scan env st) := by
  refine ⟨_, rfl, ?_⟩
  intro ev inside
  have ⟨c, _, same⟩ := List.mem_map.mp inside
  rw [← same]
  rfl

theorem pollLoop_grows (env : CopyEnv) (nents left pollEntry : Nat) (st : CopyState) :
    Grows (·.isBuild = false) st (pollLoop env nents left pollEntry st) := by
  induction left generalizing pollEntry st with
  | zero => exact .refl _ _
  | succ left ih =>
    rw [pollLoop]
    split
    next => exact (scan_grows env st).trans (ih _ _)
    next => exact .refl _ _

theorem submitAndPoll_grows {ok : Bool} {st' : CopyState}
    (result : submitAndPoll env nents st = some (ok, st')) : Grows (·.isBuild = false) st st' := by
  unfold submitAndPoll at result
  split at result
  next mid submitted =>
    cases result
    exact (submitList_grows submitted).trans (pollLoop_grows _ _ _ _ _)
  next => exact submitList_grows result

theorem buildChunk_grows {q : Queue} {st' : CopyState}
    (result : buildChunk q env nents st = .ok st' ∨ buildChunk q env nents st = .error (.blocked st')) :
    Grows (fun _ => True) st st' := by
  induction nents generalizing st with
  | zero =>
    cases result with
    | inl ended =>
      cases ended
      exact .refl _ _
    | inr waits => cases waits
  | succ nents ih =>
    rw [buildChunk] at result
    split at result
    next src srcs dst dsts _ _ =>
      have one : Grows (fun _ => True) st { addEntry q env st src dst with src := srcs, dst := dsts } :=
        ⟨_, rfl, by simp⟩
      simp only [createEntry] at result
      by_cases waits : blocks q env st src dst = true
      · rw [if_pos waits] at result
        cases result with
        | inl ended => cases ended
        | inr stopped =>
          cases stopped
          exact .refl _ _
      · rw [if_neg waits] at result
        exact one.trans (ih result)
    next =>
      cases result with
      | inl ended => cases ended
      | inr waits => cases waits

theorem nextLoop_grows {q : Queue} {ok : Bool} {loop : Nat} {st' : CopyState}
    (result : nextLoop q env left loop st = .ok (ok, st') ∨
      nextLoop q env left loop st = .error (.blocked st')) : Grows (fun _ => True) st st' := by
  induction left generalizing loop st with
  | zero =>
    cases result with
    | inl ended =>
      cases ended
      exact .refl _ _
    | inr waits => cases waits
  | succ left ih =>
    have start {nents : Nat} {built : CopyState}
        (more : Grows (fun _ => True) { st with trace := st.trace ++ [.chunk nents] } built) :
        Grows (fun _ => True) st built := Grows.trans ⟨_, rfl, by simp⟩ more
    simp only [nextLoop] at result
    split at result
    next stop building =>
      cases result with
      | inl ended => cases ended
      | inr waits =>
        cases waits
        exact start (buildChunk_grows (.inr building))
    next built building =>
      have chunk := start (buildChunk_grows (.inl building))
      split at result
      next =>
        cases result with
        | inl ended => cases ended
        | inr waits => cases waits
      next mid polled =>
        exact (chunk.trans ((submitAndPoll_grows polled).mono fun _ _ => trivial)).trans (ih result)
      next mid polled =>
        cases result with
        | inl ended =>
          cases ended
          exact chunk.trans ((submitAndPoll_grows polled).mono fun _ _ => trivial)
        | inr waits => cases waits

end DsaTest.SingleDevice
