import DsaTest.DataPath

/-! `my_init` of the N-DSA modules, up to the call of `dsa_copy`: what it acquires, and
what is left of that when a step fails. -/
namespace DsaTest

structure WqAttrs where
  enabled : Bool
  dmaengine : Bool
  kernel : Bool

structure IdxdDevice where
  enabled : Bool
  configurable : Bool
  pasidEnabled : Bool
  wqs : List WqAttrs

/-- The list `idxd_wqs` after the loop over the devices; `none` is a device without
driver data. -/
def idxdWqs (devices : List (Option IdxdDevice)) : List WqAttrs :=
  devices.flatMap fun
    | none => []
    | some d =>
      if d.enabled && d.configurable then
        d.wqs.filter fun wq => wq.enabled && wq.dmaengine && wq.kernel && d.pasidEnabled
      else []

/-- The outcomes of the fallible steps; `mapOk` is what `dma_map_sgtable` reports. -/
structure LoadEnv where
  threadOk : Bool
  areaOk : Nat → Bool
  devices : List (Option IdxdDevice)
  draw : Nat → UInt32
  sg : SgEnv
  mapOk : Side → Nat → Bool

def LoadEnv.enabledWqs (env : LoadEnv) : Nat := (idxdWqs env.devices).length

/-- What the module holds. -/
structure LoadState where
  thread : Bool
  areas : Nat → Bool
  channels : Nat
  sg : Option SgState
  mapped : Side → Nat → Bool

def loadInitial : LoadState where
  thread := false
  areas := fun _ => false
  channels := 0
  sg := none
  mapped := fun _ _ => false

/-- How `my_init` ends; `enters` is the call of `dsa_copy`. -/
inductive Loaded
  | returns (code : Int) (st : LoadState)
  | enters (st : LoadState)
  | oops

def enomem : Int := 12

def enodev : Int := 19

def areaCount : Nat := 6

section

variable (env : LoadEnv)

/-- A missing area frees them all. -/
def initRegion (st : LoadState) : Int × LoadState :=
  if ∃ j < areaCount, env.areaOk j = false then (-enomem, { st with areas := fun _ => false })
  else (0, { st with areas := fun j => j < areaCount })

def initDsa (st : LoadState) : Int × LoadState :=
  if env.enabledWqs = 0 then (-enodev, st) else (0, { st with channels := env.enabledWqs })

/-- `dma_map_sgtable` goes through `orig_nents` entries by `sg_next`; `none` stands for
the dereference of the `NULL` behind an end mark, or of garbage. -/
def dmaMapSgtable (ok : Bool) : TableMem → Option Bool
  | .garbage => none
  | .cleared => some ok
  | .live t => if t.reach.length < t.origNents then none else some ok

def mapTable (side : Side) (i : Nat) (st : LoadState) : Option (Bool × LoadState) :=
  match st.sg with
  | none => none
  | some sg =>
    (dmaMapSgtable (env.mapOk side i) (sg.tables side i)).map fun ok =>
      (ok, { st with mapped := fun s l => if s = side ∧ l = i then ok else st.mapped s l })

/-- A failure ends the loop and is not reported. -/
def sgtableToDmaMap : List Nat → LoadState → Option LoadState
  | [], st => some st
  | i :: rest, st =>
    match mapTable env .src i st with
    | none => none
    | some (false, st) => some st
    | some (true, st) =>
      match mapTable env .dst i st with
      | none => none
      | some (false, st) => some st
      | some (true, st) => sgtableToDmaMap rest st

/-- `vmalloc_to_sgtable(); sgtable_to_dma_map(); dsa_copy();` -/
def prepareTables (variant : Variant) (n : Nat) (st : LoadState) : Loaded :=
  match vmallocToSgtable variant env.sg (randomArr n env.draw) n env.enabledWqs with
  | .oops => .oops
  | .freed sg | .ready sg =>
    match sgtableToDmaMap env (List.range env.enabledWqs) { st with sg := some sg } with
    | none => .oops
    | some st => .enters st

def myInit (variant : Variant) (n : Nat) : Loaded :=
  if env.threadOk = false then .returns (-1) loadInitial
  else
    let (initResult, st) := initRegion env { loadInitial with thread := true }
    if initResult < 0 then .returns initResult st
    else
      let (dsaResult, st) := initDsa env st
      if dsaResult < 0 then .returns dsaResult st else prepareTables env variant n st

end

def Prepared (st : LoadState) : Prop :=
  ∃ sg, st.sg = some sg ∧ ∀ side, ∀ i < st.channels,
    (∃ t, sg.tables side i = .live t ∧ t.Consistent) ∧ st.mapped side i = true

structure Released (st : LoadState) : Prop where
  thread : st.thread = false
  areas : ∀ j, st.areas j = false
  channels : st.channels = 0
  tables : ∀ sg, st.sg = some sg → ∀ side i t, sg.tables side i ≠ .live t
  mapped : ∀ side i, st.mapped side i = false

def AllOrNothing : Loaded → Prop
  | .returns code st => code < 0 ∧ Released st
  | .enters st => Prepared st
  | .oops => False

structure LoadEnv.Succeeds (env : LoadEnv) (n : Nat) : Prop where
  thread : env.threadOk = true
  areas : ∀ j < areaCount, env.areaOk j = true
  queues : 0 < env.enabledWqs
  tables : ∀ side, ∀ i < env.enabledWqs, env.sg.allocOk side i = true
  pages : ∀ side, ∀ p < n, env.sg.page side p ≠ none
  maps : ∀ side, ∀ i < env.enabledWqs, env.mapOk side i = true

variable {env : LoadEnv} {n : Nat} {side : Side} {i : Nat} {st st' : LoadState} {sg : SgState}

structure MapFrame (env : LoadEnv) (st st' : LoadState) : Prop where
  sg : st'.sg = st.sg
  channels : st'.channels = st.channels
  mapped : ∀ side i, st'.mapped side i = true → st.mapped side i = true ∨ env.mapOk side i = true

theorem mapTable_frame {ok : Bool} (run : mapTable env side i st = some (ok, st')) :
    MapFrame env st st' := by
  unfold mapTable at run
  split at run
  next => contradiction
  next sg held =>
    have ⟨ok', walked, same⟩ := Option.map_eq_some_iff.mp run
    rw [Prod.mk.injEq] at same
    rw [← same.2]
    refine ⟨rfl, rfl, fun s l => ?_⟩
    simp only
    split
    next here =>
      intro reported
      right
      rw [here.1, here.2]
      unfold dmaMapSgtable at walked
      split at walked
      next => contradiction
      next => rwa [Option.some.inj walked]
      next =>
        split at walked
        next => contradiction
        next => rwa [Option.some.inj walked]
    next => exact .inl

theorem MapFrame.trans {st'' : LoadState} (one : MapFrame env st st') (two : MapFrame env st' st'') :
    MapFrame env st st'' where
  sg := two.sg.trans one.sg
  channels := two.channels.trans one.channels
  mapped side i reported := by
    cases two.mapped side i reported with
    | inl before => exact one.mapped side i before
    | inr ok => exact .inr ok

theorem sgtableToDmaMap_frame {l : List Nat} (run : sgtableToDmaMap env l st = some st') :
    MapFrame env st st' := by
  induction l generalizing st with
  | nil =>
    cases Option.some.inj run
    exact ⟨rfl, rfl, fun _ _ => .inl⟩
  | cons i rest ih =>
    rw [sgtableToDmaMap] at run
    split at run
    next => contradiction
    next st1 src =>
      cases Option.some.inj run
      exact mapTable_frame src
    next st1 src =>
      split at run
      next => contradiction
      next st2 dst =>
        cases Option.some.inj run
        exact (mapTable_frame src).trans (mapTable_frame dst)
      next st2 dst =>
        exact ((mapTable_frame src).trans (mapTable_frame dst)).trans (ih run)

theorem mapTable_runs {t : SgTable} (held : st.sg = some sg) (live : sg.tables side i = .live t)
    (consistent : t.Consistent) (ok : env.mapOk side i = true) :
    mapTable env side i st = some (true, { st with
      mapped := fun s l => if s = side ∧ l = i then true else st.mapped s l }) := by
  have walk : ¬ t.reach.length < t.origNents := by
    rw [consistent.1]
    exact Nat.lt_irrefl _
  simp [mapTable, held, live, dmaMapSgtable, walk, ok]

theorem sgtableToDmaMap_runs {l : List Nat} (held : st.sg = some sg)
    (tables : ∀ side, ∀ i ∈ l, (∃ t, sg.tables side i = .live t ∧ t.Consistent) ∧
      env.mapOk side i = true) :
    ∃ st', sgtableToDmaMap env l st = some st' ∧ ∀ side i,
      i ∈ l ∨ st.mapped side i = true → st'.mapped side i = true := by
  induction l generalizing st with
  | nil => exact ⟨st, rfl, by simp⟩
  | cons i rest ih =>
    have ⟨⟨t, live, consistent⟩, ok⟩ := tables .src i List.mem_cons_self
    have ⟨⟨t', live', consistent'⟩, ok'⟩ := tables .dst i List.mem_cons_self
    have src := mapTable_runs held live consistent ok
    have dst : mapTable env .dst i { st with
        mapped := fun s l => if s = .src ∧ l = i then true else st.mapped s l } = _ :=
      mapTable_runs held live' consistent' ok'
    have held' : ({ st with mapped := fun s l => if s = Side.dst ∧ l = i then true
        else if s = Side.src ∧ l = i then true else st.mapped s l } : LoadState).sg = some sg := held
    have ⟨st', run, mapped⟩ := ih held' fun side j inside =>
      tables side j (List.mem_cons_of_mem _ inside)
    refine ⟨st', by simp only [sgtableToDmaMap, src, dst, run], fun side j due => ?_⟩
    apply mapped
    by_cases here : j = i
    · right
      cases side <;> simp [here]
    · cases due with
      | inl inside =>
        left
        exact (List.mem_cons.mp inside).resolve_left here
      | inr before =>
        right
        simpa [here] using before

theorem freed_not_live {variant : Variant} {sgEnv : SgEnv} {arr : List Nat} {k : Nat}
    (run : vmallocToSgtable variant sgEnv arr n k = .freed sg) (inside : i < k) (t : SgTable) :
    sg.tables side i ≠ .live t := by
  unfold vmallocToSgtable at run
  split at run
  next => contradiction
  next => contradiction
  next st _ =>
    split at run
    next st' freed =>
      cases run
      unfold freeSgt at freed
      split at freed
      next =>
        rw [← Option.some.inj freed]
        simp [inside]
      next => contradiction
    next => contradiction

/-- The copy is entered with everything prepared exactly when every table is allocated,
filled, consistent and mapped. -/
theorem prepareTables_iff (variant : Variant) (some_ : 0 < n) (queues : 0 < env.enabledWqs)
    (channels : st.channels = env.enabledWqs) (unmapped : ∀ side i, st.mapped side i = false) :
    AllOrNothing (prepareTables env variant n st) ↔
      ((∀ side, ∀ i < env.enabledWqs, env.sg.allocOk side i = true) ∧
        (∀ side, ∀ p < n, env.sg.page side p ≠ none) ∧
        ∀ side, ∀ i < env.enabledWqs, env.mapOk side i = true) ∧ env.enabledWqs ∣ n := by
  constructor
  · intro done
    unfold prepareTables at done
    split at done
    next => contradiction
    next sg run =>
      split at done
      next => contradiction
      next st' mapped =>
        have frame := sgtableToDmaMap_frame mapped
        have ⟨sg', held, ready⟩ := done
        rw [frame.sg, Option.some.injEq] at held
        rw [frame.channels] at ready
        have ⟨⟨t, live, _⟩, _⟩ := ready .src 0 (by rw [channels]; exact queues)
        rw [← held] at live
        exact absurd live (freed_not_live run queues t)
    next sg run =>
      split at done
      next => contradiction
      next st' mapped =>
        have frame := sgtableToDmaMap_frame mapped
        have ⟨sg', held, ready⟩ := done
        rw [frame.sg, Option.some.injEq] at held
        rw [frame.channels] at ready
        subst held
        have ⟨granted, found⟩ := vmallocToSgtable_needs some_ queues run
        have inv := vmallocToSgtable_ready some_ queues run
        refine ⟨⟨granted, fun side => (pageAt_randomArr env.sg env.draw side).mp (found side),
          fun side i inside => ?_⟩, (inv.consistent_iff some_ queues).mp fun side i inside => ?_⟩
        · have reported := (ready side i (by rw [channels]; exact inside)).2
          cases frame.mapped side i reported with
          | inl before => simp [unmapped] at before
          | inr ok => exact ok
        · exact (ready side i (by rw [channels]; exact inside)).1
  · rintro ⟨⟨granted, found, maps⟩, even⟩
    have ⟨sg, run⟩ := vmallocToSgtable_runs variant some_ queues granted fun side =>
      (pageAt_randomArr env.sg env.draw side).mpr (found side)
    have consistent := ((vmallocToSgtable_ready some_ queues run).consistent_iff some_ queues).mpr even
    have held : ({ st with sg := some sg } : LoadState).sg = some sg := rfl
    have all : ∀ side, ∀ i ∈ List.range env.enabledWqs,
        (∃ t, sg.tables side i = .live t ∧ t.Consistent) ∧ env.mapOk side i = true := by
      intro side i inside
      rw [List.mem_range] at inside
      exact ⟨consistent side i inside, maps side i inside⟩
    have ⟨st', mapping, mapped⟩ := sgtableToDmaMap_runs held all
    have frame := sgtableToDmaMap_frame mapping
    unfold prepareTables
    rw [run]
    simp only [mapping]
    refine ⟨sg, frame.sg, fun side i inside => ?_⟩
    rw [frame.channels] at inside
    have below : i < env.enabledWqs := by rwa [← channels]
    exact ⟨consistent side i below, mapped side i (.inl (List.mem_range.mpr below))⟩

theorem not_released_of_thread {code : Int} (running : st.thread = true) :
    ¬ AllOrNothing (.returns code st) := by
  intro done
  have stopped := done.2.thread
  rw [running] at stopped
  contradiction

/-- Loading is all or nothing exactly when nothing is acquired, or everything works and
the queues divide the pages evenly: no failing step releases what the earlier ones have
acquired, and the last two do not even report it. -/
theorem load_iff (env : LoadEnv) (variant : Variant) (some_ : 0 < n) :
    AllOrNothing (myInit env variant n) ↔
      env.threadOk = false ∨ env.Succeeds n ∧ env.enabledWqs ∣ n := by
  by_cases thread : env.threadOk = false
  · have ends : AllOrNothing (myInit env variant n) := by
      rw [myInit, if_pos thread]
      exact ⟨by decide, rfl, fun _ => rfl, rfl, by simp [loadInitial], fun _ _ => rfl⟩
    simp [ends, thread]
  · by_cases areas : ∃ j < areaCount, env.areaOk j = false
    · have region : myInit env variant n = .returns (-enomem)
          { loadInitial with thread := true, areas := fun _ => false } := by
        simp [myInit, thread, initRegion, areas, enomem]
      have missing : ¬ env.Succeeds n := by
        intro succeeds
        have ⟨j, below, failed⟩ := areas
        rw [succeeds.areas j below] at failed
        contradiction
      rw [region]
      simp [not_released_of_thread, thread, missing]
    · by_cases queues : env.enabledWqs = 0
      · have dsa : myInit env variant n = .returns (-enodev)
            { loadInitial with thread := true, areas := fun j => j < areaCount } := by
          simp [myInit, thread, initRegion, areas, initDsa, queues, enodev]
        have missing : ¬ env.Succeeds n := fun succeeds =>
          absurd queues (Nat.ne_of_gt succeeds.queues)
        rw [dsa]
        simp [not_released_of_thread, thread, missing]
      · have tables : myInit env variant n = prepareTables env variant n
            { loadInitial with
              thread := true
              areas := fun j => j < areaCount
              channels := env.enabledWqs } := by
          simp [myInit, thread, initRegion, areas, initDsa, queues]
        rw [tables, prepareTables_iff variant some_ (Nat.pos_of_ne_zero queues) rfl fun _ _ => rfl]
        constructor
        · rintro ⟨⟨granted, found, maps⟩, even⟩
          exact .inr ⟨⟨by simpa using thread, by simpa using areas, Nat.pos_of_ne_zero queues,
            granted, found, maps⟩, even⟩
        · intro condition
          have ⟨succeeds, even⟩ := condition.resolve_left thread
          exact ⟨⟨succeeds.tables, succeeds.pages, succeeds.maps⟩, even⟩

def smoothEnv : LoadEnv where
  threadOk := true
  areaOk _ := true
  devices := [some ⟨true, true, true, [⟨true, true, true⟩, ⟨true, true, true⟩]⟩]
  draw _ := 5
  sg := .willing
  mapOk _ _ := true

theorem load_smooth : AllOrNothing (myInit smoothEnv .batch 4) := by
  apply (load_iff smoothEnv .batch (by decide)).mpr
  right
  exact ⟨⟨rfl, fun _ _ => rfl, by decide, fun _ _ _ => rfl, by simp [smoothEnv, SgEnv.willing],
    fun _ _ _ => rfl⟩, by decide⟩

/-- A failing `vmalloc` leaves the thread behind; a failing mapping of the last table
leads into `dsa_copy`. -/
theorem load_partial :
    ¬ AllOrNothing (myInit { smoothEnv with areaOk := fun j => j ≠ 2 } .batch 4) ∧
    ¬ AllOrNothing (myInit { smoothEnv with mapOk := fun side i => side = .src ∨ i ≠ 1 } .batch 4) := by
  constructor
  · apply not_released_of_thread
    decide
  · rintro ⟨sg, held, ready⟩
    have mapped := (ready .dst 1 (by decide)).2
    revert mapped
    decide

end DsaTest
