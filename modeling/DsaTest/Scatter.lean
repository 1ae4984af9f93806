import DsaTest.Schedule

/-! `vmalloc_to_sgtable`: `2 * enabled_wqs` scatter tables of equal size are
allocated, filled with the pages in the order of `arr` and end-marked behind the
last entry set. -/
namespace DsaTest

/-- `struct scatterlist`: the page set, if any, and the end mark. -/
structure SgEntry where
  page : Option Nat
  last : Bool
  deriving DecidableEq, Repr

structure SgTable where
  sgl : List SgEntry
  origNents : Nat
  deriving DecidableEq, Repr

/-- The entries from `sgl` by `sg_next`, which returns `NULL` after an end mark. -/
def SgTable.reach (t : SgTable) : List SgEntry := t.sgl.take (t.sgl.findIdx (·.last) + 1)

def SgTable.Consistent (t : SgTable) : Prop :=
  t.reach.length = t.origNents ∧ ∀ e ∈ t.reach, e.page ≠ none

instance (t : SgTable) : Decidable t.Consistent :=
  inferInstanceAs (Decidable (_ ∧ _))

def sgAllocTable (nents : Nat) : SgTable where
  sgl := (List.range nents).map fun j => ⟨none, j + 1 = nents⟩
  origNents := nents

def SgTable.setPage (t : SgTable) (j page : Nat) : SgTable :=
  { t with sgl := t.sgl.modify j fun e => { e with page := some page } }

def SgTable.markEnd (t : SgTable) (j : Nat) : SgTable :=
  { t with sgl := t.sgl.modify j fun e => { e with last := true } }

inductive Side
  | src
  | dst
  deriving DecidableEq, Repr

/-- A `struct sg_table` as `kmalloc` leaves it, with `sgl` cleared, or allocated. -/
inductive TableMem
  | garbage
  | cleared
  | live (table : SgTable)
  deriving DecidableEq, Repr

/-- `prevSg` is the variable `prev_sg`, which both loops share over all tables. -/
structure SgState where
  tables : Side → Nat → TableMem
  idx : Nat
  prevSg : Option (Side × Nat × Nat)

/-- What the kernel answers: `sg_alloc_table` for each table, and
`vmalloc_to_page` for each page of the two areas. -/
structure SgEnv where
  allocOk : Side → Nat → Bool
  page : Side → Nat → Option Nat

inductive SgFault
  | freeSgt (st : SgState)
  | oops

def nentsPerTable (n k : Nat) : Nat := if n % k = 0 then n / k else n / k + 1

def setTable (st : SgState) (side : Side) (i : Nat) (mem : TableMem) : SgState :=
  { st with tables := fun s l => if s = side ∧ l = i then mem else st.tables s l }

/-- `kmalloc` in the loop module, `kzalloc` in the batch module. -/
def sgInitial (variant : Variant) : SgState where
  tables := fun _ _ => match variant with
    | .loop => .garbage
    | .batch => .cleared
  idx := 0
  prevSg := none

/-- A failing `sg_alloc_table` leaves a cleared table. -/
def allocTables (env : SgEnv) (nents : Nat) : List Nat → SgState → Except SgFault SgState
  | [], st => .ok st
  | i :: rest, st =>
    if env.allocOk .src i = false then .error (.freeSgt (setTable st .src i .cleared))
    else if env.allocOk .dst i = false then
      .error (.freeSgt (setTable (setTable st .src i (.live (sgAllocTable nents))) .dst i .cleared))
    else
      allocTables env nents rest
        (setTable (setTable st .src i (.live (sgAllocTable nents))) .dst i
          (.live (sgAllocTable nents)))

/-- The index into `arr` for entry `j`: `idx + j`, or `idx++`. -/
def SgState.cursor (st : SgState) (j : Nat) : Side → Nat
  | .src => st.idx + j
  | .dst => st.idx

def SgState.advance (st : SgState) : Side → SgState
  | .src => st
  | .dst => { st with idx := st.idx + 1 }

/-- `for_each_sgtable_sg` over one table, from entry `j` with `left` entries to go. -/
def fillTable (env : SgEnv) (arr : List Nat) (n : Nat) (side : Side) (i : Nat) :
    Nat → Nat → SgState → Except SgFault SgState
  | 0, _, st => .ok st
  | left + 1, j, st =>
    if st.cursor j side ≥ n then .ok st
    else
      match env.page side (arr.getD (st.cursor j side) 0), st.tables side i with
      | none, _ => .error (.freeSgt (st.advance side))
      | some page, .live t =>
        if j < t.reach.length then
          fillTable env arr n side i left (j + 1)
            { setTable (st.advance side) side i (.live (t.setPage j page)) with
              prevSg := some (side, i, j) }
        else .error .oops
      | some _, _ => .error .oops

def markPrev (st : SgState) : Except SgFault SgState :=
  match st.prevSg with
  | none => .error .oops
  | some (side, i, j) =>
    match st.tables side i with
    | .live t => .ok (setTable st side i (.live (t.markEnd j)))
    | _ => .error .oops

def SgState.origNents (st : SgState) (side : Side) (i : Nat) : Nat :=
  match st.tables side i with
  | .live t => t.origNents
  | _ => 0

def fillSide (env : SgEnv) (arr : List Nat) (n : Nat) (side : Side) (i : Nat) (st : SgState) :
    Except SgFault SgState := do
  let st ← fillTable env arr n side i (st.origNents side i) 0 st
  markPrev st

def fillTables (env : SgEnv) (arr : List Nat) (n : Nat) :
    List Nat → SgState → Except SgFault SgState
  | [], st => .ok st
  | i :: rest, st => do
    let st ← fillSide env arr n .src i st
    let st ← fillSide env arr n .dst i st
    fillTables env arr n rest st

/-- `sg_free_table` for every table; it reads `sgl`, so garbage is fatal. -/
def freeSgt (k : Nat) (st : SgState) : Option SgState :=
  if ∀ i < k, st.tables .src i ≠ .garbage ∧ st.tables .dst i ≠ .garbage then
    some { st with tables := fun side i => if i < k then .cleared else st.tables side i }
  else none

inductive SgResult
  | ready (st : SgState)
  | freed (st : SgState)
  | oops

/-- `arr` is what `random_arr` has left, `n` is `NPAGES` and `k` is `enabled_wqs`. -/
def vmallocToSgtable (variant : Variant) (env : SgEnv) (arr : List Nat) (n k : Nat) : SgResult :=
  match allocTables env (nentsPerTable n k) (List.range k) (sgInitial variant) >>=
      fillTables env arr n (List.range k) with
  | .ok st => .ready st
  | .error .oops => .oops
  | .error (.freeSgt st) =>
    match freeSgt k st with
    | some st => .freed st
    | none => .oops

def partTable (page : Nat → Option Nat) (c f : Nat) (marked : Bool) : SgTable where
  sgl := (List.range c).map fun j =>
    ⟨if j < f then page j else none, j + 1 = c || (marked && j + 1 = f)⟩
  origNents := c

theorem except_bind_eq_ok {ε α β : Type} {x : Except ε α} {f : α → Except ε β} {b : β} :
    x >>= f = .ok b ↔ ∃ a, x = .ok a ∧ f a = .ok b := by
  cases x with
  | error e => simp [bind, Except.bind]
  | ok a => simp [bind, Except.bind]

variable {page : Nat → Option Nat} {c f : Nat}

theorem partTable_congr {page' : Nat → Option Nat} (marked : Bool)
    (same : ∀ j < f, page j = page' j) : partTable page c f marked = partTable page' c f marked := by
  unfold partTable
  congr 1
  apply List.map_congr_left
  intro j _
  by_cases below : j < f
  · simp [below, same j below]
  · simp [below]

theorem sgAllocTable_eq (page : Nat → Option Nat) (c : Nat) :
    sgAllocTable c = partTable page c 0 false := by
  simp [sgAllocTable, partTable]

theorem partTable_zero (page : Nat → Option Nat) (c : Nat) :
    partTable page c 0 true = partTable page c 0 false := by
  simp [partTable]

theorem setPage_partTable {j p : Nat} (found : page j = some p) :
    (partTable page c j false).setPage j p = partTable page c (j + 1) false := by
  simp only [partTable, SgTable.setPage, SgTable.mk.injEq, and_true]
  apply List.ext_getElem
  · simp
  · intro i h h'
    rw [List.getElem_modify]
    simp only [List.getElem_map, List.getElem_range]
    rcases Nat.lt_trichotomy i j with below | rfl | above
    · rw [if_neg (by omega)]
      simp [below, Nat.lt_succ_of_lt below]
    · simp [found]
    · rw [if_neg (by omega)]
      simp [Nat.not_lt_of_gt above, show ¬ i < j + 1 by omega]

theorem markEnd_partTable (marked : Bool) (some_ : 0 < f) :
    (partTable page c f marked).markEnd (f - 1) = partTable page c f true := by
  simp only [partTable, SgTable.markEnd, SgTable.mk.injEq, and_true]
  apply List.ext_getElem
  · simp
  · intro i h h'
    rw [List.getElem_modify]
    simp only [List.getElem_map, List.getElem_range]
    by_cases here : f - 1 = i
    · have last : i + 1 = f := by omega
      simp [here, last]
    · have other : ¬ i + 1 = f := by omega
      simp [here, other]

theorem reach_length (t : SgTable) {m : Nat} (inside : m < t.sgl.length)
    (mark : t.sgl[m].last = true) (first : ∀ j (h : j < m), t.sgl[j].last = false) :
    t.reach.length = m + 1 := by
  have found : t.sgl.findIdx (·.last) = m := by
    rw [List.findIdx_eq inside]
    exact ⟨mark, fun j h => by simp [first j h]⟩
  rw [SgTable.reach, found, List.length_take]
  omega

theorem reach_partTable_open (positive : 0 < c) (f : Nat) :
    (partTable page c f false).reach.length = c := by
  have length := reach_length (partTable page c f false) (m := c - 1)
    (by simp [partTable]; omega) (by simp [partTable]; omega) (by simp [partTable]; omega)
  omega

theorem reach_partTable_marked (positive : 0 < f) (fits : f ≤ c) :
    (partTable page c f true).reach.length = f := by
  have length := reach_length (partTable page c f true) (m := f - 1)
    (by simp [partTable]; omega) (by simp [partTable]; omega) (by simp [partTable]; omega)
  omega

theorem setTable_setTable (st : SgState) (side : Side) (i : Nat) (a b : TableMem) :
    setTable (setTable st side i a) side i b = setTable st side i b := by
  simp only [setTable, SgState.mk.injEq, and_true]
  funext s l
  by_cases here : s = side ∧ l = i <;> simp [here]

@[simp] theorem setTable_same (st : SgState) (side : Side) (i : Nat) (a : TableMem) :
    (setTable st side i a).tables side i = a := by
  simp [setTable]

theorem setTable_self {st : SgState} {side : Side} {i : Nat} {a : TableMem}
    (here : st.tables side i = a) : setTable st side i a = st := by
  cases st
  simp only [setTable, SgState.mk.injEq, and_true] at here ⊢
  funext s l
  by_cases at_ : s = side ∧ l = i
  · obtain ⟨rfl, rfl⟩ := at_
    simpa using here.symm
  · simp [at_]

theorem setTable_other {st : SgState} {side s : Side} {i l : Nat} (a : TableMem)
    (other : ¬ (s = side ∧ l = i)) : (setTable st side i a).tables s l = st.tables s l := by
  simp [setTable, other]

def SgEnv.pageAt (env : SgEnv) (arr : List Nat) (side : Side) (base j : Nat) : Option Nat :=
  env.page side (arr.getD (base + j) 0)

def Side.taken (side : Side) (count : Nat) : Nat :=
  match side with
  | .src => 0
  | .dst => count

variable {env : SgEnv} {arr : List Nat} {n : Nat} {side : Side} {i : Nat}

def SgState.entrySet (st : SgState) (env : SgEnv) (arr : List Nat) (side : Side) (i base c j : Nat) :
    SgState :=
  { setTable (st.advance side) side i (.live (partTable (env.pageAt arr side base) c (j + 1) false))
    with prevSg := some (side, i, j) }

theorem fillTable_step {base left j p : Nat} {st : SgState} (cursor : st.cursor j side = base + j)
    (size : left + 1 + j = c)
    (here : st.tables side i = .live (partTable (env.pageAt arr side base) c j false))
    (room : base + j < n) (found : env.pageAt arr side base j = some p) :
    fillTable env arr n side i (left + 1) j st =
      fillTable env arr n side i left (j + 1) (st.entrySet env arr side i base c j) := by
  have reached : j < (partTable (env.pageAt arr side base) c j false).reach.length := by
    rw [reach_partTable_open (by omega)]
    omega
  have page : env.page side (arr.getD (base + j) 0) = some p := found
  rw [fillTable, cursor, if_neg (by omega), page, here]
  simp only [if_pos reached, setPage_partTable found]
  rfl

theorem cursor_entrySet {base j : Nat} {st : SgState} (cursor : st.cursor j side = base + j) :
    (st.entrySet env arr side i base c j).cursor (j + 1) side = base + (j + 1) := by
  cases side with
  | src => exact congrArg (· + 1) cursor
  | dst => exact congrArg (· + 1) cursor

theorem fillTable_ok {base : Nat} {left j : Nat} {st st' : SgState}
    (run : fillTable env arr n side i left j st = .ok st')
    (cursor : st.cursor j side = base + j) (size : left + j = c)
    (here : st.tables side i = .live (partTable (env.pageAt arr side base) c j false))
    (inside : j ≤ n - base) :
    st' = { setTable st side i
              (.live (partTable (env.pageAt arr side base) c (min c (n - base)) false)) with
            idx := st.idx + side.taken (min c (n - base) - j)
            prevSg := if j < min c (n - base) then some (side, i, min c (n - base) - 1)
              else st.prevSg } ∧
      ∀ l, j ≤ l → l < min c (n - base) → env.pageAt arr side base l ≠ none := by
  have none_taken : side.taken (j - j) = 0 := by cases side <;> simp [Side.taken]
  induction left generalizing j st with
  | zero =>
    rw [fillTable, Except.ok.injEq] at run
    have full : min c (n - base) = j := by omega
    rw [full, none_taken, if_neg (by omega), setTable_self here]
    exact ⟨run.symm, by omega⟩
  | succ left ih =>
    by_cases room : base + j < n
    · have more : j < min c (n - base) := by omega
      have found : env.pageAt arr side base j ≠ none := by
        intro missing
        have page : env.page side (arr.getD (base + j) 0) = none := missing
        rw [fillTable, cursor, if_neg (by omega), page] at run
        contradiction
      have ⟨p, set_⟩ := Option.ne_none_iff_exists'.mp found
      rw [fillTable_step cursor size here room set_] at run
      have ⟨shape, pages⟩ := ih run (cursor_entrySet cursor) (by omega) (setTable_same ..) (by omega)
        (by cases side <;> simp [Side.taken])
      constructor
      · have prev : (if j + 1 < min c (n - base) then some (side, i, min c (n - base) - 1)
            else some (side, i, j)) = some (side, i, min c (n - base) - 1) := by
          split
          · rfl
          · rw [show min c (n - base) - 1 = j by omega]
        have steps : (st.entrySet env arr side i base c j).idx +
            side.taken (min c (n - base) - (j + 1)) =
            st.idx + side.taken (min c (n - base) - j) := by
          cases side
          · rfl
          · simp only [SgState.entrySet, setTable, SgState.advance, Side.taken]
            omega
        have tables : (setTable (st.entrySet env arr side i base c j) side i
              (.live (partTable (env.pageAt arr side base) c (min c (n - base)) false))).tables =
            (setTable st side i
              (.live (partTable (env.pageAt arr side base) c (min c (n - base)) false))).tables := by
          change (setTable (setTable (st.advance side) side i _) side i _).tables = _
          rw [setTable_setTable]
          cases side <;> rfl
        rw [shape, if_pos more, SgState.mk.injEq]
        exact ⟨tables, steps, prev⟩
      · intro l from_ below
        cases Nat.eq_or_lt_of_le from_ with
        | inl same => rwa [← same]
        | inr above => exact pages l above below
    · have full : min c (n - base) = j := by omega
      rw [fillTable, cursor, if_pos (by omega), Except.ok.injEq] at run
      rw [full, none_taken, if_neg (by omega), setTable_self here]
      exact ⟨run.symm, by omega⟩

def filled (n c i : Nat) : Nat := min c (n - i * c)

/-- Between two tables: `done side` tables are filled and end-marked, the others are
as allocated, and `prev_sg` is the last entry set. -/
structure FilledUpTo (env : SgEnv) (arr : List Nat) (n c k : Nat) (done : Side → Nat)
    (st : SgState) : Prop where
  tables : ∀ side i, i < done side →
    st.tables side i = .live (partTable (env.pageAt arr side (i * c)) c (filled n c i) true)
  pages : ∀ side i j, i < done side → j < filled n c i →
    env.pageAt arr side (i * c) j ≠ none
  fresh : ∀ side i, done side ≤ i → i < k → st.tables side i = .live (sgAllocTable c)
  index : st.idx = min (done .dst * c) n
  prev : (∀ side, done side = 0) ∧ st.prevSg = none ∨
    ∃ side i, st.prevSg = some (side, i, filled n c i - 1) ∧ i < done side ∧ 0 < filled n c i

variable {k : Nat} {done : Side → Nat} {st st' : SgState}

theorem pageAt_start (env : SgEnv) (arr : List Nat) (side : Side) (n c i : Nat) {j : Nat}
    (below : j < filled n c i) :
    env.pageAt arr side (min (i * c) n) j = env.pageAt arr side (i * c) j := by
  rw [Nat.min_eq_left]
  unfold filled at below
  omega

theorem filled_start (n c i : Nat) : min c (n - min (i * c) n) = filled n c i := by
  unfold filled
  omega

theorem FilledUpTo.remark (inv : FilledUpTo env arr n c k done st) {s : Side} {l : Nat}
    (inside : l < done s) (some_ : 0 < filled n c l) :
    ∃ t, st.tables s l = .live t ∧ setTable st s l (.live (t.markEnd (filled n c l - 1))) = st := by
  have here := inv.tables s l inside
  refine ⟨_, here, ?_⟩
  rw [markEnd_partTable true some_]
  exact setTable_self here

theorem FilledUpTo.extend (inv : FilledUpTo env arr n c k done st) (turn : done side = i)
    (index : done .dst = i)
    (tables : st'.tables = (setTable st side i
      (.live (partTable (env.pageAt arr side (i * c)) c (filled n c i) true))).tables)
    (pages : ∀ j < filled n c i, env.pageAt arr side (i * c) j ≠ none)
    (idx : st'.idx = st.idx + side.taken (filled n c i))
    (prev : ∃ side' l, st'.prevSg = some (side', l, filled n c l - 1) ∧
      l < Function.update done side (i + 1) side' ∧ 0 < filled n c l) :
    FilledUpTo env arr n c k (Function.update done side (i + 1)) st' where
  tables s l below := by
    by_cases here : s = side ∧ l = i
    · obtain ⟨rfl, rfl⟩ := here
      rw [tables, setTable_same]
    · rw [tables, setTable_other _ here]
      apply inv.tables
      by_cases same : s = side
      · subst same
        have other : l ≠ i := fun same => here ⟨rfl, same⟩
        rw [Function.update_self] at below
        omega
      · rwa [Function.update_of_ne same] at below
  pages s l j below := by
    by_cases same : s = side
    · subst same
      rw [Function.update_self] at below
      by_cases here : l = i
      · subst here
        exact pages j
      · exact inv.pages s l j (by omega)
    · rw [Function.update_of_ne same] at below
      exact inv.pages s l j below
  fresh s l above inside := by
    by_cases same : s = side
    · subst same
      rw [Function.update_self] at above
      rw [tables, setTable_other _ (by omega)]
      exact inv.fresh s l (by omega) inside
    · rw [Function.update_of_ne same] at above
      rw [tables, setTable_other _ (by simp [same])]
      exact inv.fresh s l above inside
  index := by
    rw [idx, inv.index, index]
    cases side
    · simp [Side.taken, index]
    · simp only [Side.taken, Function.update_self, filled, Nat.add_mul]
      omega
  prev := .inr prev

theorem FilledUpTo.mark {mid : SgState} (inv : FilledUpTo env arr n c k done st) (some_ : 0 < n)
    (positive : 0 < c) (turn : done side = i) (index : done .dst = i) (inside : i < k)
    (filling : fillTable env arr n side i c 0 st = .ok mid) :
    ∃ st', markPrev mid = .ok st' ∧
      FilledUpTo env arr n c k (Function.update done side (i + 1)) st' := by
  have fresh := inv.fresh side i (by omega) inside
  have start : st.idx = min (i * c) n := by rw [inv.index, index]
  have cursor : st.cursor 0 side = min (i * c) n + 0 := by cases side <;> simp [SgState.cursor, start]
  have ⟨shape, pages⟩ := fillTable_ok filling cursor (Nat.add_zero c)
    (by rw [fresh, sgAllocTable_eq]) (Nat.zero_le _)
  rw [filled_start, partTable_congr false fun j => pageAt_start env arr side n c i] at shape
  rw [filled_start] at pages
  have found : ∀ j < filled n c i, env.pageAt arr side (i * c) j ≠ none := by
    intro j below
    rw [← pageAt_start env arr side n c i below]
    exact pages j (Nat.zero_le j) below
  by_cases empty : filled n c i = 0
  · have same : mid = st := by
      rw [shape, empty, ← sgAllocTable_eq, setTable_self fresh]
      cases side <;> rfl
    rcases inv.prev with ⟨first, _⟩ | ⟨s, l, prev, earlier, set_⟩
    · have := first side
      unfold filled at empty
      simp only [← turn, this] at empty
      omega
    · have ⟨t, here, unchanged⟩ := inv.remark earlier set_
      refine ⟨st, by simp only [same, markPrev, prev, here, unchanged], ?_⟩
      apply inv.extend turn index _ found
      · rw [empty]
        cases side <;> rfl
      · refine ⟨s, l, prev, ?_, set_⟩
        by_cases own : s = side
        · subst own
          rw [Function.update_self]
          omega
        · rwa [Function.update_of_ne own]
      · rw [empty, partTable_zero, ← sgAllocTable_eq, setTable_self fresh]
  · have set_ : 0 < filled n c i := by omega
    have prev : mid.prevSg = some (side, i, filled n c i - 1) := by rw [shape, Nat.sub_zero, if_pos set_]
    have here : mid.tables side i =
        .live (partTable (env.pageAt arr side (i * c)) c (filled n c i) false) := by
      rw [shape]
      exact setTable_same st side i _
    refine ⟨_, by simp only [markPrev, prev, here, markEnd_partTable false set_]; rfl, ?_⟩
    apply inv.extend turn index _ found
    · rw [shape]
      rfl
    · exact ⟨side, i, prev, by rw [Function.update_self]; omega, set_⟩
    · rw [shape]
      change (setTable (setTable st side i _) side i _).tables = _
      rw [setTable_setTable]

theorem FilledUpTo.origNents (inv : FilledUpTo env arr n c k done st) (turn : done side ≤ i)
    (inside : i < k) : st.origNents side i = c := by
  simp [SgState.origNents, inv.fresh side i turn inside, sgAllocTable]

theorem fillSide_ok (inv : FilledUpTo env arr n c k done st) (some_ : 0 < n) (positive : 0 < c)
    (turn : done side = i) (index : done .dst = i) (inside : i < k)
    (run : fillSide env arr n side i st = .ok st') :
    FilledUpTo env arr n c k (Function.update done side (i + 1)) st' := by
  rw [fillSide, inv.origNents turn.le inside] at run
  have ⟨mid, filling, marking⟩ := except_bind_eq_ok.mp run
  have ⟨st'', marked, after⟩ := inv.mark some_ positive turn index inside filling
  rw [marking, Except.ok.injEq] at marked
  rwa [marked]

theorem fillTable_runs {base : Nat} {left j : Nat} {st : SgState}
    (cursor : st.cursor j side = base + j) (size : left + j = c)
    (here : st.tables side i = .live (partTable (env.pageAt arr side base) c j false))
    (found : ∀ l, base + l < n → env.pageAt arr side base l ≠ none) :
    ∃ st', fillTable env arr n side i left j st = .ok st' := by
  induction left generalizing j st with
  | zero => exact ⟨st, rfl⟩
  | succ left ih =>
    by_cases room : base + j < n
    · have ⟨p, set_⟩ := Option.ne_none_iff_exists'.mp (found j room)
      rw [fillTable_step cursor size here room set_]
      exact ih (cursor_entrySet cursor) (by omega) (setTable_same ..)
    · rw [fillTable, cursor, if_pos (by omega)]
      exact ⟨st, rfl⟩

theorem fillSide_runs (inv : FilledUpTo env arr n c k done st) (some_ : 0 < n) (positive : 0 < c)
    (turn : done side = i) (index : done .dst = i) (inside : i < k)
    (found : ∀ j < n, env.pageAt arr side 0 j ≠ none) :
    ∃ st', fillSide env arr n side i st = .ok st' ∧
      FilledUpTo env arr n c k (Function.update done side (i + 1)) st' := by
  have fresh := inv.fresh side i turn.le inside
  have start : st.idx = min (i * c) n := by rw [inv.index, index]
  have cursor : st.cursor 0 side = min (i * c) n + 0 := by cases side <;> simp [SgState.cursor, start]
  have from_ : ∀ l, min (i * c) n + l < n → env.pageAt arr side (min (i * c) n) l ≠ none := by
    intro l below
    have := found _ below
    rwa [SgEnv.pageAt, Nat.zero_add] at this
  have ⟨mid, filling⟩ : ∃ mid, fillTable env arr n side i c 0 st = .ok mid :=
    fillTable_runs cursor (Nat.add_zero c) (by rw [fresh, sgAllocTable_eq]) from_
  have ⟨st', marking, after⟩ := inv.mark some_ positive turn index inside filling
  refine ⟨st', ?_, after⟩
  rw [fillSide, inv.origNents turn.le inside]
  exact except_bind_eq_ok.mpr ⟨mid, filling, marking⟩

theorem both_done (i : Nat) :
    Function.update (Function.update (fun _ : Side => i) .src (i + 1)) .dst (i + 1) =
      fun _ => i + 1 := by
  funext side
  cases side <;> rfl

theorem fillTables_ok (some_ : 0 < n) (positive : 0 < c) {count i : Nat}
    (inv : FilledUpTo env arr n c k (fun _ => i) st) (inside : i + count ≤ k)
    (run : fillTables env arr n (List.range' i count) st = .ok st') :
    FilledUpTo env arr n c k (fun _ => i + count) st' := by
  induction count generalizing i st with
  | zero =>
    rw [List.range'_zero, fillTables, Except.ok.injEq] at run
    rwa [← run]
  | succ count ih =>
    rw [List.range'_succ, fillTables] at run
    have ⟨mid, src, run⟩ := except_bind_eq_ok.mp run
    have ⟨mid', dst, run⟩ := except_bind_eq_ok.mp run
    have after := fillSide_ok (i := i) inv some_ positive rfl rfl (by omega) src
    have after := fillSide_ok (i := i) after some_ positive rfl rfl (by omega) dst
    rw [both_done] at after
    have rest := ih after (by omega) run
    rwa [show i + 1 + count = i + (count + 1) by omega] at rest

theorem fillTables_runs (some_ : 0 < n) (positive : 0 < c)
    (found : ∀ side, ∀ j < n, env.pageAt arr side 0 j ≠ none) {count i : Nat}
    (inv : FilledUpTo env arr n c k (fun _ => i) st) (inside : i + count ≤ k) :
    ∃ st', fillTables env arr n (List.range' i count) st = .ok st' := by
  induction count generalizing i st with
  | zero => exact ⟨st, rfl⟩
  | succ count ih =>
    have ⟨mid, src, after⟩ := fillSide_runs (i := i) inv some_ positive rfl rfl (by omega) (found .src)
    have ⟨mid', dst, after⟩ := fillSide_runs (i := i) after some_ positive rfl rfl (by omega) (found .dst)
    rw [both_done] at after
    have ⟨st', rest⟩ := ih after (by omega)
    refine ⟨st', ?_⟩
    rw [List.range'_succ, fillTables]
    exact except_bind_eq_ok.mpr ⟨mid, src, except_bind_eq_ok.mpr ⟨mid', dst, rest⟩⟩

theorem allocTables_runs {nents count i : Nat} (st : SgState)
    (granted : ∀ side l, i ≤ l → l < i + count → env.allocOk side l = true) :
    ∃ st', allocTables env nents (List.range' i count) st = .ok st' := by
  induction count generalizing i st with
  | zero => exact ⟨st, rfl⟩
  | succ count ih =>
    rw [List.range'_succ, allocTables, if_neg (by simp [granted .src i (by omega) (by omega)]),
      if_neg (by simp [granted .dst i (by omega) (by omega)])]
    exact ih _ fun side l above below => granted side l (by omega) (by omega)

theorem allocTables_ok {nents count i : Nat}
    (run : allocTables env nents (List.range' i count) st = .ok st') :
    st'.idx = st.idx ∧ st'.prevSg = st.prevSg ∧
      (∀ side l, st'.tables side l =
        if i ≤ l ∧ l < i + count then .live (sgAllocTable nents) else st.tables side l) ∧
      ∀ side l, i ≤ l → l < i + count → env.allocOk side l = true := by
  induction count generalizing i st with
  | zero =>
    rw [List.range'_zero, allocTables, Except.ok.injEq] at run
    subst run
    refine ⟨rfl, rfl, fun side l => ?_, by omega⟩
    rw [if_neg (by omega)]
  | succ count ih =>
    rw [List.range'_succ, allocTables] at run
    split at run
    next => contradiction
    next src =>
      split at run
      next => contradiction
      next dst =>
        have ⟨index, prev, tables, granted⟩ := ih run
        refine ⟨index, prev, fun side l => ?_, fun side l above below => ?_⟩
        · rw [tables]
          by_cases here : l = i
          · subst here
            rw [if_neg (by omega), if_pos (by omega)]
            cases side <;> simp [setTable]
          · by_cases later : i + 1 ≤ l ∧ l < i + 1 + count
            · rw [if_pos later, if_pos (by omega)]
            · rw [if_neg later, if_neg (by omega)]
              simp [setTable, here]
        · by_cases here : l = i
          · subst here
            rw [Bool.not_eq_false] at src dst
            cases side
            · exact src
            · exact dst
          · exact granted side l (by omega) (by omega)

theorem nentsPerTable_pos (some_ : 0 < n) (tables : 0 < k) : 0 < nentsPerTable n k := by
  unfold nentsPerTable
  split
  next divides =>
    exact Nat.div_pos (Nat.le_of_dvd some_ (Nat.dvd_of_mod_eq_zero divides)) tables
  next => exact Nat.succ_pos _

theorem FilledUpTo.start {variant : Variant}
    (run : allocTables env c (List.range k) (sgInitial variant) = .ok st) :
    FilledUpTo env arr n c k (fun _ => 0) st := by
  rw [List.range_eq_range'] at run
  have ⟨index, prev, fresh, _⟩ := allocTables_ok run
  exact
    { tables := by intro _ _ below; omega
      pages := by intro _ _ _ below; omega
      fresh := by
        intro side i _ inside
        rw [fresh, if_pos (by omega)]
      index := by simp [index, sgInitial]
      prev := .inl ⟨fun _ => rfl, prev⟩ }

/-- When the function succeeds, table `i` holds the pages from `i * c` on and its end
mark stands at the last of them. -/
theorem vmallocToSgtable_ready {variant : Variant} (some_ : 0 < n) (tables : 0 < k)
    (run : vmallocToSgtable variant env arr n k = .ready st) :
    FilledUpTo env arr n (nentsPerTable n k) k (fun _ => k) st := by
  unfold vmallocToSgtable at run
  split at run
  next st' body =>
    rw [SgResult.ready.injEq] at run
    subst run
    have ⟨mid, allocated, filling⟩ := except_bind_eq_ok.mp body
    rw [List.range_eq_range'] at filling
    have done := fillTables_ok some_ (nentsPerTable_pos some_ tables) (.start allocated)
      (by omega) filling
    rwa [Nat.zero_add] at done
  next => contradiction
  next =>
    split at run <;> contradiction

theorem vmallocToSgtable_runs (variant : Variant) (some_ : 0 < n) (tables : 0 < k)
    (granted : ∀ side, ∀ i < k, env.allocOk side i = true)
    (found : ∀ side, ∀ j < n, env.pageAt arr side 0 j ≠ none) :
    ∃ st, vmallocToSgtable variant env arr n k = .ready st := by
  have ⟨mid, allocated⟩ : ∃ mid, allocTables env (nentsPerTable n k) (List.range' 0 k)
      (sgInitial variant) = .ok mid :=
    allocTables_runs _ fun side l _ below => granted side l (by omega)
  rw [← List.range_eq_range'] at allocated
  have ⟨st, filling⟩ : ∃ st, fillTables env arr n (List.range' 0 k) mid = .ok st :=
    fillTables_runs some_ (nentsPerTable_pos some_ tables) found (.start allocated) (by omega)
  rw [← List.range_eq_range'] at filling
  refine ⟨st, ?_⟩
  unfold vmallocToSgtable
  rw [except_bind_eq_ok.mpr ⟨mid, allocated, filling⟩]

theorem nentsPerTable_mul (tables : 0 < k) : n ≤ k * nentsPerTable n k := by
  have whole := Nat.div_add_mod n k
  have part := Nat.mod_lt n tables
  unfold nentsPerTable
  split
  next => omega
  next =>
    rw [Nat.mul_succ]
    omega

theorem vmallocToSgtable_needs {variant : Variant} (some_ : 0 < n) (tables : 0 < k)
    (run : vmallocToSgtable variant env arr n k = .ready st) :
    (∀ side, ∀ i < k, env.allocOk side i = true) ∧
      ∀ side, ∀ j < n, env.pageAt arr side 0 j ≠ none := by
  have inv := vmallocToSgtable_ready some_ tables run
  constructor
  · unfold vmallocToSgtable at run
    split at run
    next st' body =>
      have ⟨mid, allocated, _⟩ := except_bind_eq_ok.mp body
      rw [List.range_eq_range'] at allocated
      have ⟨_, _, _, granted⟩ := allocTables_ok allocated
      exact fun side i below => granted side i (Nat.zero_le i) (by omega)
    next => contradiction
    next =>
      split at run <;> contradiction
  · intro side j below
    have positive := nentsPerTable_pos some_ tables
    have split := Nat.div_add_mod' j (nentsPerTable n k)
    have part := Nat.mod_lt j positive
    have table : j / nentsPerTable n k < k := by
      rw [Nat.div_lt_iff_lt_mul positive]
      exact Nat.lt_of_lt_of_le below (nentsPerTable_mul tables)
    have page := inv.pages side (j / nentsPerTable n k) (j % nentsPerTable n k) table (by
      unfold filled
      omega)
    rw [SgEnv.pageAt, split] at page
    rwa [SgEnv.pageAt, Nat.zero_add]

theorem partTable_consistent_iff (positive : 0 < c) (fits : f ≤ c)
    (found : ∀ j < f, page j ≠ none) : (partTable page c f true).Consistent ↔ f = c := by
  constructor
  · intro consistent
    by_cases empty : f = 0
    · subst empty
      have unset : (⟨none, 1 = c⟩ : SgEntry) ∈ (partTable page c 0 true).reach := by
        rw [SgTable.reach, List.mem_take_iff_getElem]
        refine ⟨0, ?_, ?_⟩
        · simp [partTable]
          omega
        · simp [partTable]
      exact absurd rfl (consistent.2 _ unset)
    · rw [← consistent.1.trans (show (partTable page c f true).origNents = c from rfl)]
      exact (reach_partTable_marked (by omega) fits).symm
  · intro full
    subst full
    refine ⟨reach_partTable_marked positive (Nat.le_refl f), fun e inside => ?_⟩
    have set_ : ∃ j < f, e.page = page j := by
      have entry := List.mem_of_mem_take inside
      simp only [partTable, List.mem_map, List.mem_range] at entry
      obtain ⟨j, below, rfl⟩ := entry
      exact ⟨j, below, if_pos below⟩
    obtain ⟨j, below, same⟩ := set_
    rw [same]
    exact found j below

/-- The tables are all full exactly when the pages divide evenly. -/
theorem filled_all_iff (some_ : 0 < n) (tables : 0 < k) :
    (∀ i < k, filled n (nentsPerTable n k) i = nentsPerTable n k) ↔ k ∣ n := by
  constructor
  · intro full
    have last := full (k - 1) (by omega)
    have room : (k - 1) * nentsPerTable n k + nentsPerTable n k ≤ n := by
      have := nentsPerTable_pos some_ tables
      unfold filled at last
      omega
    have whole : k * nentsPerTable n k ≤ n := by
      rwa [← Nat.succ_mul, Nat.succ_eq_add_one, Nat.sub_add_cancel tables] at room
    by_contra rest
    have ceil : nentsPerTable n k = n / k + 1 := by
      rw [nentsPerTable, if_neg fun even => rest (Nat.dvd_of_mod_eq_zero even)]
    have := Nat.lt_mul_div_succ n tables
    rw [ceil] at whole
    omega
  · intro even i inside
    have size : nentsPerTable n k * k = n := by
      rw [nentsPerTable, if_pos (Nat.mod_eq_zero_of_dvd even), Nat.div_mul_cancel even]
    have below : (i + 1) * nentsPerTable n k ≤ n := by
      calc (i + 1) * nentsPerTable n k
          ≤ k * nentsPerTable n k := Nat.mul_le_mul_right _ inside
        _ = n := by rw [Nat.mul_comm, size]
    rw [Nat.succ_mul] at below
    unfold filled
    omega

theorem FilledUpTo.consistent_iff (some_ : 0 < n) (tables : 0 < k)
    (inv : FilledUpTo env arr n (nentsPerTable n k) k (fun _ => k) st) :
    (∀ side, ∀ i < k, ∃ t, st.tables side i = .live t ∧ t.Consistent) ↔ k ∣ n := by
  have positive := nentsPerTable_pos some_ tables
  have each : ∀ side, ∀ i < k, (∃ t, st.tables side i = .live t ∧ t.Consistent) ↔
      filled n (nentsPerTable n k) i = nentsPerTable n k := by
    intro side i inside
    have full := partTable_consistent_iff (f := filled n (nentsPerTable n k) i) positive
      (Nat.min_le_left _ _) fun j => inv.pages side i j inside
    rw [inv.tables side i inside, ← full]
    simp
  rw [← filled_all_iff some_ tables]
  constructor
  · intro all i inside
    exact (each .src i inside).mp (all .src i inside)
  · intro full side i inside
    exact (each side i inside).mpr (full i inside)

/-- Every table given to `dma_map_sgtable` is consistent exactly when the queues
divide the pages evenly: `orig_nents` stays at the rounded-up size, wherever the end
mark is. -/
theorem tables_consistent_iff {variant : Variant} {env : SgEnv} {arr : List Nat} {n k : Nat}
    {st : SgState} (some_ : 0 < n) (tables : 0 < k)
    (run : vmallocToSgtable variant env arr n k = .ready st) :
    (∀ side, ∀ i < k, ∃ t, st.tables side i = .live t ∧ t.Consistent) ↔ k ∣ n :=
  (vmallocToSgtable_ready some_ tables run).consistent_iff some_ tables

def SgEnv.willing : SgEnv where
  allocOk _ _ := true
  page _ p := some p

theorem tables_consistent_even :
    ∃ st, vmallocToSgtable .batch .willing [2, 0, 3, 1] 4 2 = .ready st ∧
      ∀ side, ∀ i < 2, ∃ t, st.tables side i = .live t ∧ t.Consistent := by
  have ends : ∃ st, vmallocToSgtable .batch .willing [2, 0, 3, 1] 4 2 = .ready st := ⟨_, rfl⟩
  obtain ⟨st, run⟩ := ends
  exact ⟨st, run, (tables_consistent_iff (by decide) (by decide) run).mpr (by decide)⟩

/-- Five pages over three queues: the last table has room for two and gets one. -/
theorem tables_inconsistent_three :
    ∃ st, vmallocToSgtable .batch .willing [0, 1, 2, 3, 4] 5 3 = .ready st ∧
      ∃ t, st.tables .src 2 = .live t ∧ t.origNents = 2 ∧ t.reach.length = 1 ∧ ¬ t.Consistent :=
  ⟨_, rfl, _, rfl, by decide⟩

end DsaTest
