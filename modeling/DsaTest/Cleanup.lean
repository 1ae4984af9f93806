import DsaTest.Scatter
import Mathlib.Data.List.Nodup
import Mathlib.Data.List.TakeWhile

/-! `free_sgt` of `vmalloc_to_sgtable`: which tables it reads, and what it releases, after
a failure at any of the calls. -/
namespace DsaTest

def sgCalls (k : Nat) : List (Side × Nat) :=
  (List.range k).flatMap fun i => [(.src, i), (.dst, i)]

def TableMem.isLive : TableMem → Bool
  | .live _ => true
  | _ => false

/-- `sg_free_table` for one table after the other, with the tables whose scatterlist is
released; `none` where `sgl` is read of a table that nothing has initialised. -/
def freeTables : List (Side × Nat) → SgState → Option (List (Side × Nat) × SgState)
  | [], st => some ([], st)
  | (side, i) :: rest, st =>
    match st.tables side i with
    | .garbage => none
    | .cleared => freeTables rest st
    | .live _ =>
      (freeTables rest (setTable st side i .cleared)).map fun freed =>
        ((side, i) :: freed.1, freed.2)

/-- The loops before the label `free_sgt`. -/
def tableLoops (variant : Variant) (env : SgEnv) (arr : List Nat) (n k : Nat) :
    Except SgFault SgState :=
  allocTables env (nentsPerTable n k) (List.range k) (sgInitial variant) >>=
    fillTables env arr n (List.range k)

def allocated (env : SgEnv) (k : Nat) : List (Side × Nat) :=
  (sgCalls k).takeWhile fun c => env.allocOk c.1 c.2

/-- `free_sgt` reads initialised tables only, and releases each allocated one once. -/
def CleansUp (env : SgEnv) (k : Nat) (st : SgState) : Prop :=
  ∃ freed st', freeTables (sgCalls k) st = some (freed, st') ∧ freed.Nodup ∧
    ∀ c, c ∈ freed ↔ c ∈ allocated env k

variable {env : SgEnv} {st st' : SgState} {calls : List (Side × Nat)} {k nents : Nat}

theorem mem_sgCalls {c : Side × Nat} : c ∈ sgCalls k ↔ c.2 < k := by
  obtain ⟨side, i⟩ := c
  cases side <;> simp [sgCalls]

theorem sgCalls_nodup (k : Nat) : (sgCalls k).Nodup := by
  rw [sgCalls, List.nodup_flatMap]
  constructor
  · intro i _
    simp
  · apply List.nodup_range.imp
    intro i j other
    simp [List.Disjoint, other, other.symm]

theorem cleared_cons (calls : List (Side × Nat)) (c : Side × Nat) (st st' : SgState)
    (same : ∀ side i, (side, i) ≠ c → st'.tables side i = st.tables side i)
    (here : st'.tables c.1 c.2 = .cleared) (side : Side) (i : Nat) :
    (if (side, i) ∈ calls then TableMem.cleared else st'.tables side i) =
      if (side, i) ∈ c :: calls then .cleared else st.tables side i := by
  by_cases own : (side, i) = c
  · subst own
    simp [here]
  · simp [own, same side i own]

theorem freeTables_eq (nodup : calls.Nodup) :
    freeTables calls st = if ∀ c ∈ calls, st.tables c.1 c.2 ≠ .garbage then
      some (calls.filter fun c => (st.tables c.1 c.2).isLive,
        { st with tables := fun side i => if (side, i) ∈ calls then .cleared else st.tables side i })
      else none := by
  induction calls generalizing st with
  | nil => simp [freeTables]
  | cons c rest ih =>
    obtain ⟨side, i⟩ := c
    rw [List.nodup_cons] at nodup
    rw [freeTables]
    cases here : st.tables side i with
    | garbage => simp [here]
    | cleared =>
      have tables := cleared_cons rest (side, i) st st (fun _ _ _ => rfl) here
      have reads : (∀ c ∈ (side, i) :: rest, st.tables c.1 c.2 ≠ .garbage) ↔
          ∀ c ∈ rest, st.tables c.1 c.2 ≠ .garbage := by
        simp [here]
      have first : (st.tables side i).isLive = false := by rw [here]; rfl
      simp only [ih nodup.2, reads, tables, List.filter_cons, first, Bool.false_eq_true, if_false]
    | live t =>
      have others : ∀ c ∈ rest, (setTable st side i .cleared).tables c.1 c.2 =
          st.tables c.1 c.2 := by
        intro c inside
        apply setTable_other
        intro same
        have own : c = (side, i) := Prod.ext same.1 same.2
        exact nodup.1 (own ▸ inside)
      have tables := cleared_cons rest (side, i) st (setTable st side i .cleared)
        (fun _ _ other => setTable_other _ (by simpa using other)) (setTable_same st side i _)
      have kept : (rest.filter fun c => ((setTable st side i .cleared).tables c.1 c.2).isLive) =
          rest.filter fun c => (st.tables c.1 c.2).isLive := by
        apply List.filter_congr
        intro c inside
        rw [others c inside]
      have reads : (∀ c ∈ rest, (setTable st side i .cleared).tables c.1 c.2 ≠ .garbage) ↔
          ∀ c ∈ rest, st.tables c.1 c.2 ≠ .garbage := by
        apply forall₂_congr
        intro c inside
        rw [others c inside]
      have reads' : (∀ c ∈ (side, i) :: rest, st.tables c.1 c.2 ≠ .garbage) ↔
          ∀ c ∈ rest, st.tables c.1 c.2 ≠ .garbage := by
        simp [here]
      have first : (st.tables side i).isLive = true := by rw [here]; rfl
      simp only [ih nodup.2, reads, reads', tables, kept, List.filter_cons, first, if_true]
      split <;> rfl

theorem freeSgt_eq (k : Nat) (st : SgState) :
    freeSgt k st = (freeTables (sgCalls k) st).map (·.2) := by
  have reads : (∀ c ∈ sgCalls k, st.tables c.1 c.2 ≠ .garbage) ↔
      ∀ i < k, st.tables .src i ≠ .garbage ∧ st.tables .dst i ≠ .garbage := by
    constructor
    · intro all i below
      exact ⟨all (.src, i) (mem_sgCalls.mpr below), all (.dst, i) (mem_sgCalls.mpr below)⟩
    · rintro all ⟨side, i⟩ inside
      have both := all i (mem_sgCalls.mp inside)
      cases side with
      | src => exact both.1
      | dst => exact both.2
  rw [freeTables_eq (sgCalls_nodup k), freeSgt]
  by_cases all : ∀ i < k, st.tables .src i ≠ .garbage ∧ st.tables .dst i ≠ .garbage
  · rw [if_pos all, if_pos (reads.mpr all)]
    simp [mem_sgCalls]
  · rw [if_neg all, if_neg (mt reads.mp all)]
    rfl

theorem vmallocToSgtable_of_failed {variant : Variant} {arr : List Nat} {n : Nat}
    (failed : tableLoops variant env arr n k = .error (.freeSgt st)) :
    vmallocToSgtable variant env arr n k =
      (freeTables (sgCalls k) st).elim .oops fun freed => .freed freed.2 := by
  rw [tableLoops] at failed
  rw [vmallocToSgtable, failed]
  simp only [freeSgt_eq]
  cases freeTables (sgCalls k) st with
  | none => rfl
  | some freed => rfl

def allocCalls (env : SgEnv) (nents : Nat) : List (Side × Nat) → SgState → Except SgFault SgState
  | [], st => .ok st
  | c :: rest, st =>
    if env.allocOk c.1 c.2 then
      allocCalls env nents rest (setTable st c.1 c.2 (.live (sgAllocTable nents)))
    else .error (.freeSgt (setTable st c.1 c.2 .cleared))

theorem allocTables_eq (l : List Nat) (st : SgState) :
    allocTables env nents l st =
      allocCalls env nents (l.flatMap fun i => [(.src, i), (.dst, i)]) st := by
  induction l generalizing st with
  | nil => rfl
  | cons i rest ih =>
    rw [allocTables, List.flatMap_cons, List.cons_append, List.singleton_append, allocCalls]
    cases src : env.allocOk .src i with
    | false => simp
    | true =>
      cases dst : env.allocOk .dst i with
      | false => simp [allocCalls, dst]
      | true => simp [allocCalls, dst, ih]

/-- The allocations stop at `c`: the calls `before` have succeeded, those `after` have not been
made. -/
structure StopsAt (env : SgEnv) (calls before : List (Side × Nat)) (c : Side × Nat)
    (after : List (Side × Nat)) (st st' : SgState) : Prop where
  calls : calls = before ++ c :: after
  accepted : ∀ b ∈ before, env.allocOk b.1 b.2 = true
  refused : env.allocOk c.1 c.2 = false
  live : ∀ b ∈ before, b ≠ c → (st'.tables b.1 b.2).isLive = true
  cleared : st'.tables c.1 c.2 = .cleared
  others : ∀ b, b ∉ before → b ≠ c → st'.tables b.1 b.2 = st.tables b.1 b.2

theorem setTable_ne {b c : Side × Nat} (mem : TableMem) (other : b ≠ c) :
    (setTable st c.1 c.2 mem).tables b.1 b.2 = st.tables b.1 b.2 :=
  setTable_other mem fun same => other (Prod.ext same.1 same.2)

theorem allocCalls_failed (failed : allocCalls env nents calls st = .error (.freeSgt st')) :
    ∃ before c after, StopsAt env calls before c after st st' := by
  induction calls generalizing st with
  | nil => contradiction
  | cons first rest ih =>
    rw [allocCalls] at failed
    split at failed
    next accepted =>
      obtain ⟨before, c, after, stops⟩ := ih failed
      refine ⟨first :: before, c, after, ?_⟩
      exact
        { calls := by rw [stops.calls, List.cons_append]
          accepted := by
            rw [List.forall_mem_cons]
            exact ⟨accepted, stops.accepted⟩
          refused := stops.refused
          live := by
            rw [List.forall_mem_cons]
            refine ⟨?_, stops.live⟩
            intro other
            by_cases again : first ∈ before
            · exact stops.live first again other
            · rw [stops.others first again other, setTable_same]
              rfl
          cleared := stops.cleared
          others := by
            intro b outside other
            rw [List.mem_cons, not_or] at outside
            rw [stops.others b outside.2 other, setTable_ne _ outside.1] }
    next refused =>
      rw [Except.error.injEq, SgFault.freeSgt.injEq] at failed
      rw [← failed]
      refine ⟨[], first, rest, ?_⟩
      exact
        { calls := rfl
          accepted := by simp
          refused := by simpa using refused
          live := by simp
          cleared := setTable_same ..
          others := fun _ _ other => setTable_ne _ other }

theorem allocCalls_ok (done : allocCalls env nents calls st = .ok st') :
    (∀ c ∈ calls, env.allocOk c.1 c.2 = true ∧ (st'.tables c.1 c.2).isLive = true) ∧
      ∀ side i, (st.tables side i).isLive = true → (st'.tables side i).isLive = true := by
  induction calls generalizing st with
  | nil =>
    cases done
    simp
  | cons first rest ih =>
    rw [allocCalls] at done
    split at done
    next accepted =>
      obtain ⟨all, stays⟩ := ih done
      constructor
      · rw [List.forall_mem_cons]
        refine ⟨⟨accepted, stays _ _ ?_⟩, all⟩
        rw [setTable_same]
        rfl
      · intro side i live
        apply stays
        by_cases here : side = first.1 ∧ i = first.2
        · obtain ⟨rfl, rfl⟩ := here
          rw [setTable_same]
          rfl
        · rwa [setTable_other _ here]
    next => contradiction

def AllLive (k : Nat) (st : SgState) : Prop :=
  ∀ side i, i < k → (st.tables side i).isLive = true

def Ends (P : SgState → Prop) : Except SgFault SgState → Prop
  | .ok st => P st
  | .error (.freeSgt st) => P st
  | .error .oops => True

theorem Ends.bind {P : SgState → Prop} {x : Except SgFault SgState}
    {f : SgState → Except SgFault SgState} (first : Ends P x) (next : ∀ st, P st → Ends P (f st)) :
    Ends P (x >>= f) := by
  cases x with
  | ok st => exact next st first
  | error fault => exact first

theorem AllLive.setTable (live : AllLive k st) (side : Side) (i : Nat) (t : SgTable) :
    AllLive k (setTable st side i (.live t)) := by
  intro s l below
  by_cases here : s = side ∧ l = i
  · obtain ⟨rfl, rfl⟩ := here
    rw [setTable_same]
    rfl
  · rw [setTable_other _ here]
    exact live s l below

section

variable {arr : List Nat} {n : Nat}

theorem AllLive.advance (live : AllLive k st) (side : Side) : AllLive k (st.advance side) := by
  cases side <;> exact live

theorem fillTable_ends (side : Side) (i left j : Nat) (live : AllLive k st) :
    Ends (AllLive k) (fillTable env arr n side i left j st) := by
  induction left generalizing j st with
  | zero => exact live
  | succ left ih =>
    rw [fillTable]
    split
    next => exact live
    next =>
      split
      next => exact live.advance side
      next =>
        split
        next => exact ih _ ((live.advance side).setTable side i _)
        next => trivial
      next => trivial

theorem markPrev_ends (live : AllLive k st) : Ends (AllLive k) (markPrev st) := by
  rw [markPrev]
  split
  next => trivial
  next =>
    split
    next => exact live.setTable _ _ _
    next => trivial

theorem fillSide_ends (side : Side) (i : Nat) (live : AllLive k st) :
    Ends (AllLive k) (fillSide env arr n side i st) :=
  Ends.bind (fillTable_ends side i _ 0 live) fun _ => markPrev_ends

theorem fillTables_ends (l : List Nat) (live : AllLive k st) :
    Ends (AllLive k) (fillTables env arr n l st) := by
  induction l generalizing st with
  | nil => exact live
  | cons i rest ih =>
    apply Ends.bind (fillSide_ends .src i live)
    intro st live
    apply Ends.bind (fillSide_ends .dst i live)
    intro st live
    exact ih live

end

theorem sgInitial_garbage_iff (variant : Variant) (side : Side) (i : Nat) :
    (sgInitial variant).tables side i ≠ .garbage ↔ variant = .batch := by
  cases variant <;> simp [sgInitial]

theorem ne_garbage_of_live {mem : TableMem} (live : mem.isLive = true) : mem ≠ .garbage := by
  intro garbage
  rw [garbage] at live
  contradiction

/-- The tables at `free_sgt`: those allocated have a scatterlist, and all others have been
cleared, unless a table has been left as `kmalloc` has returned it. -/
structure AtFree (variant : Variant) (env : SgEnv) (k : Nat) (st : SgState) : Prop where
  live : ∀ c ∈ sgCalls k, (st.tables c.1 c.2).isLive = true ↔ c ∈ allocated env k
  initialised : (∀ c ∈ sgCalls k, st.tables c.1 c.2 ≠ .garbage) ↔
    variant = .batch ∨ ∀ c ∈ (sgCalls k).dropLast, env.allocOk c.1 c.2 = true

section

variable {variant : Variant} {before after : List (Side × Nat)} {c : Side × Nat}
  (stops : StopsAt env (sgCalls k) before c after (sgInitial variant) st)
include stops

theorem StopsAt.allocated : allocated env k = before := by
  have refused := stops.refused
  rw [DsaTest.allocated, stops.calls, List.takeWhile_append_of_pos stops.accepted,
    List.takeWhile_cons_of_neg (by simp [refused]), List.append_nil]

theorem StopsAt.nodup : (c ∉ before ∧ c ∉ after) ∧ (before ++ after).Nodup := by
  have nodup := sgCalls_nodup k
  rwa [stops.calls, List.nodup_middle, List.nodup_cons, List.mem_append, not_or] at nodup

theorem StopsAt.before_live {b : Side × Nat} (early : b ∈ before) :
    (st.tables b.1 b.2).isLive = true :=
  stops.live b early fun same => stops.nodup.1.1 (same ▸ early)

theorem StopsAt.after_initial {b : Side × Nat} (later : b ∈ after) :
    st.tables b.1 b.2 = (sgInitial variant).tables b.1 b.2 := by
  apply stops.others
  · intro earlier
    exact List.disjoint_of_nodup_append stops.nodup.2 earlier later
  · intro same
    exact stops.nodup.1.2 (same ▸ later)

theorem StopsAt.initialised_iff :
    (∀ b ∈ sgCalls k, st.tables b.1 b.2 ≠ .garbage) ↔ variant = .batch ∨ after = [] := by
  constructor
  · intro reads
    cases after with
    | nil => exact .inr rfl
    | cons next rest =>
      have there := reads next (by simp [stops.calls])
      rw [stops.after_initial List.mem_cons_self, sgInitial_garbage_iff] at there
      exact .inl there
  · intro either b inside
    rw [stops.calls, List.mem_append, List.mem_cons] at inside
    obtain early | same | later := inside
    · exact ne_garbage_of_live (stops.before_live early)
    · simp [same, stops.cleared]
    · cases either with
      | inl batch => rwa [stops.after_initial later, sgInitial_garbage_iff]
      | inr none_ => simp [none_] at later

theorem StopsAt.dropLast_iff :
    (∀ b ∈ (sgCalls k).dropLast, env.allocOk b.1 b.2 = true) ↔ after = [] := by
  rw [stops.calls]
  cases after with
  | nil =>
    rw [List.dropLast_concat]
    exact iff_of_true stops.accepted rfl
  | cons next rest =>
    refine iff_of_false ?_ (by simp)
    intro ok
    have inside : c ∈ (before ++ c :: next :: rest).dropLast := by
      rw [List.dropLast_append_cons, List.mem_append]
      exact .inr (by simp)
    have refused := stops.refused
    rw [ok c inside] at refused
    contradiction

theorem StopsAt.atFree : AtFree variant env k st where
  live b inside := by
    rw [stops.allocated]
    constructor
    · intro here
      rw [stops.calls, List.mem_append, List.mem_cons] at inside
      obtain early | same | later := inside
      · exact early
      · rw [same, stops.cleared] at here
        contradiction
      · rw [stops.after_initial later] at here
        cases variant with
        | loop => contradiction
        | batch => contradiction
    · exact stops.before_live
  initialised := by rw [stops.initialised_iff, stops.dropLast_iff]

end

theorem atFree_of_allLive {variant : Variant} (live : AllLive k st)
    (all : ∀ c ∈ sgCalls k, env.allocOk c.1 c.2 = true) : AtFree variant env k st where
  live c inside := by
    have every : allocated env k = sgCalls k := List.takeWhile_eq_self_iff.mpr all
    rw [every]
    exact iff_of_true (live c.1 c.2 (mem_sgCalls.mp inside)) inside
  initialised := by
    refine iff_of_true ?_ (.inr fun c inside => all c (List.dropLast_subset _ inside))
    intro c inside
    exact ne_garbage_of_live (live c.1 c.2 (mem_sgCalls.mp inside))

theorem atFree {variant : Variant} {arr : List Nat} {n : Nat}
    (failed : tableLoops variant env arr n k = .error (.freeSgt st)) : AtFree variant env k st := by
  rw [tableLoops, allocTables_eq] at failed
  change allocCalls env (nentsPerTable n k) (sgCalls k) (sgInitial variant) >>= _ = _ at failed
  cases allocation : allocCalls env (nentsPerTable n k) (sgCalls k) (sgInitial variant) with
  | error fault =>
    rw [allocation] at failed
    have same : fault = .freeSgt st := Except.error.inj failed
    rw [same] at allocation
    obtain ⟨_, _, _, stops⟩ := allocCalls_failed allocation
    exact stops.atFree
  | ok mid =>
    rw [allocation] at failed
    obtain ⟨all, _⟩ := allocCalls_ok allocation
    have alive : AllLive k mid := fun side i below => (all (side, i) (mem_sgCalls.mpr below)).2
    have ends : Ends (AllLive k) (fillTables env arr n (List.range k) mid) := fillTables_ends _ alive
    have last : fillTables env arr n (List.range k) mid = .error (.freeSgt st) := failed
    rw [last] at ends
    exact atFree_of_allLive ends fun c inside => (all c inside).1

/-- What matters is that no table has been left as it was found. -/
theorem AtFree.cleansUp_iff_reads {variant : Variant} (here : AtFree variant env k st) :
    CleansUp env k st ↔ ∀ c ∈ sgCalls k, st.tables c.1 c.2 ≠ .garbage := by
  have nodup := sgCalls_nodup k
  rw [CleansUp, freeTables_eq nodup]
  split
  next reads =>
    refine iff_of_true ⟨_, _, rfl, nodup.filter _, ?_⟩ reads
    intro c
    rw [List.mem_filter]
    constructor
    · intro inside
      exact (here.live c inside.1).mp inside.2
    · intro allocated
      have called : c ∈ sgCalls k := (List.takeWhile_prefix _).subset allocated
      exact ⟨called, (here.live c called).mpr allocated⟩
  next garbage =>
    apply iff_of_false _ garbage
    rintro ⟨_, _, none, _⟩
    contradiction

/-- At `free_sgt` only initialised tables are read, and each allocated one is released
once, exactly in the batch module, or where the function fails no earlier than at the last
call of `sg_alloc_table`; and the calls counted are those with which it ends. -/
theorem cleansUp_iff {variant : Variant} {env : SgEnv} {arr : List Nat} {n k : Nat} {st : SgState}
    (failed : tableLoops variant env arr n k = .error (.freeSgt st)) :
    (CleansUp env k st ↔
      variant = .batch ∨ ∀ c ∈ (sgCalls k).dropLast, env.allocOk c.1 c.2 = true) ∧
    vmallocToSgtable variant env arr n k =
      (freeTables (sgCalls k) st).elim .oops fun freed => .freed freed.2 := by
  have here := atFree failed
  rw [here.cleansUp_iff_reads, here.initialised]
  exact ⟨Iff.rfl, vmallocToSgtable_of_failed failed⟩

def SgEnv.failingAt (side : Side) (i : Nat) : SgEnv :=
  { SgEnv.willing with allocOk := fun s l => !(s = side && l = i) }

theorem cleansUp_last : ∃ st, tableLoops .loop (.failingAt .dst 1) [0, 1, 2, 3] 4 2 =
    .error (.freeSgt st) ∧ CleansUp (.failingAt .dst 1) 2 st := by
  have failed : ∃ st, tableLoops .loop (.failingAt .dst 1) [0, 1, 2, 3] 4 2 =
      .error (.freeSgt st) := ⟨_, rfl⟩
  obtain ⟨st, run⟩ := failed
  exact ⟨st, run, (cleansUp_iff run).1.mpr (.inr (by decide))⟩

/-- With one queue, the first call fails in the loop module: `dst_sgts[0]` is freed as
`kmalloc` has left it. -/
theorem cleanup_reads_garbage :
    ¬ ∀ (variant : Variant) (env : SgEnv) (arr : List Nat) (n k : Nat) (st : SgState), 1 ≤ k →
      tableLoops variant env arr n k = .error (.freeSgt st) → CleansUp env k st := by
  intro claim
  have failed : ∃ st, tableLoops .loop (.failingAt .src 0) (List.range (2 ^ 18)) (2 ^ 18) 1 =
      .error (.freeSgt st) ∧ freeTables (sgCalls 1) st = none := ⟨_, rfl, rfl⟩
  obtain ⟨st, run, oops⟩ := failed
  obtain ⟨freed, st', cleaned, _⟩ := claim _ _ _ _ 1 st (by decide) run
  rw [oops] at cleaned
  contradiction

end DsaTest
