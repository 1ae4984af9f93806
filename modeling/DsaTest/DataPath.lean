import DsaTest.Bytes
import DsaTest.PageLoop
import DsaTest.Scatter
import DsaTest.Shuffle
import DsaTest.Lib.Transfer

/-! The data path of the N-DSA modules as a whole: the pages in the order of `arr`, cut
into tables, mapped for DMA, and the memmoves that the queues receive for them. -/
namespace DsaTest

abbrev Location := Nat × Nat

def pageBytes (frame : Nat) : List Location := (List.range pageSize).map fun o => (frame, o)

/-- The frames under `vmalloc_area` and `vmalloc_area2`; no two pages share one. -/
structure Areas (n : Nat) where
  frame : Side → Nat → Nat
  distinct : ∀ s p s' p', p < n → p' < n → frame s p = frame s' p' → s = s' ∧ p = p'

/-- `vmalloc_to_page` on the two areas, with every allocation succeeding. -/
def Areas.env {n : Nat} (areas : Areas n) : SgEnv where
  allocOk _ _ := true
  page side p := if p < n then some (areas.frame side p) else none

def SgTable.pages (t : SgTable) : List Nat := t.sgl.filterMap (·.page)

def TableMem.pages : TableMem → List Nat
  | .live t => t.pages
  | _ => []

/-- What `dma_map_sgtable` makes of the two tables of queue `i`: `bus` is the device's
view of memory, in which the segments of each table cover the bytes of its filled
pages in order. The two sides are grouped alike. -/
structure QueueMapping (st : SgState) (i : Nat) where
  queue : Queue
  bus : Nat → Location
  src_bytes : queue.src.bytes.map bus = (st.tables .src i).pages.flatMap pageBytes
  dst_bytes : queue.dst.bytes.map bus = (st.tables .dst i).pages.flatMap pageBytes
  alike : queue.src.segments.map (·.length) = queue.dst.segments.map (·.length)

def SubmitState.transfers (st : SubmitState) (bus : Nat → Nat → Location) :
    List (List (Location × Location)) :=
  st.handed.flatMap fun h => h.2.memmoves.map fun m => m.copied.map (Prod.map (bus h.1) (bus h.1))

def busOf {st : SgState} {k : Nat} (mappings : ∀ i : Fin k, QueueMapping st i) (i : Nat) :
    Nat → Location :=
  if h : i < k then (mappings ⟨i, h⟩).bus else fun _ => (0, 0)

def queuesOf {st : SgState} {k : Nat} (mappings : ∀ i : Fin k, QueueMapping st i) : List Queue :=
  List.ofFn fun i => (mappings i).queue

def Areas.pageCopy {n : Nat} (areas : Areas n) (p : Nat) : List (Location × Location) :=
  (List.range pageSize).map fun o => ((areas.frame .src p, o), (areas.frame .dst p, o))

variable {n k c f i : Nat} {areas : Areas n} {arr : List Nat} {side : Side} {st : SgState}

theorem partTable_pages {page : Nat → Option Nat} {g : Nat → Nat} (marked : Bool) (fits : f ≤ c)
    (found : ∀ j < f, page j = some (g j)) :
    (partTable page c f marked).pages = (List.range f).map g := by
  have set_ : (List.range f).filterMap (fun j => if j < f then page j else none) =
      (List.range f).map g := by
    rw [← List.filterMap_eq_map]
    apply List.filterMap_congr
    intro j below
    rw [List.mem_range] at below
    rw [if_pos below, found j below]
    rfl
  have unset : ((List.range (c - f)).map (f + ·)).filterMap
      (fun j => if j < f then page j else none) = [] := by
    rw [List.filterMap_eq_nil_iff, List.forall_mem_map]
    intro j _
    rw [if_neg (by omega)]
  have split : List.range c = List.range f ++ (List.range (c - f)).map (f + ·) := by
    rw [← List.range_add, Nat.add_sub_of_le fits]
  rw [SgTable.pages, partTable, List.filterMap_map]
  change (List.range c).filterMap (fun j => if j < f then page j else none) = _
  rw [split, List.filterMap_append, set_, unset, List.append_nil]

theorem FilledUpTo.pages_eq {done : Side → Nat} (inv : FilledUpTo areas.env arr n c k done st)
    (size : arr.length = n) (inside : i < done side) :
    (st.tables side i).pages = ((arr.drop (i * c)).take c).map (areas.frame side) := by
  have found : ∀ j < filled n c i, areas.env.pageAt arr side (i * c) j =
      some (areas.frame side (arr.getD (i * c + j) 0)) := by
    intro j below
    have page := inv.pages side i j inside below
    simp only [SgEnv.pageAt, Areas.env] at page ⊢
    split at page
    next here => rw [if_pos here]
    next => contradiction
  have fits : filled n c i ≤ c := Nat.min_le_left _ _
  rw [inv.tables side i inside, TableMem.pages, partTable_pages true fits found]
  apply List.ext_getElem
  · simp [filled, size]
  · intro j h h'
    have below : i * c + j < arr.length := by
      simp only [List.length_map, List.length_range, filled] at h
      omega
    simp [List.getElem?_eq_getElem below]

theorem pageBytes_zip {α : Type} (l : List α) (g h : α → Nat) :
    ((l.map g).flatMap pageBytes).zip ((l.map h).flatMap pageBytes) =
      l.flatMap fun p => (List.range pageSize).map fun o => ((g p, o), (h p, o)) := by
  induction l with
  | nil => rfl
  | cons p l ih =>
    rw [List.map_cons, List.map_cons, List.flatMap_cons, List.flatMap_cons, List.flatMap_cons,
      List.zip_append (by simp [pageBytes]), ih, pageBytes, pageBytes, List.zip_map']

theorem QueueMapping.aligned (mapping : QueueMapping st i) : mapping.queue.Aligned := by
  intro p pair
  have ⟨j, below, here⟩ := List.mem_iff_getElem.mp pair
  have same : (mapping.queue.src.segments.map (·.length))[j]? =
      (mapping.queue.dst.segments.map (·.length))[j]? := by rw [mapping.alike]
  simp only [Queue.pairs, List.length_zip] at below
  simp only [Queue.pairs, List.getElem_zip] at here
  rw [List.getElem?_map, List.getElem?_map, List.getElem?_eq_getElem (by omega),
    List.getElem?_eq_getElem (by omega)] at same
  rw [← here]
  simpa using same

theorem dstMove_eq_minMove {q : Queue} (aligned : q.Aligned) :
    q.pairs.map q.batchMove = q.pairs.map minMove := by
  apply List.map_congr_left
  intro p pair
  unfold Queue.batchMove
  split
  next => rfl
  next => rw [dstMove, minMove, aligned p pair, Nat.min_self]

theorem submitAll_aligned {queues : List Queue} {grants : Nat → Option Grant} (variant : Variant)
    (willing : ∀ q ∈ queues, Willing q) (aligned : ∀ q ∈ queues, q.Aligned)
    (granted : ∀ i, grants i ≠ none) :
    ∃ sub, submitAll queues grants variant = some sub ∧
      ∀ k q, queues[k]? = some q → sub.memmovesOf k = q.pairs.map minMove := by
  cases variant with
  | loop =>
    have ⟨sub, run, served⟩ := submitAll_loop willing granted
    refine ⟨sub, run, fun k q found => ?_⟩
    rw [(served k q found).moves, List.take_of_length_le (Nat.le_of_eq q.length_pairs)]
  | batch =>
    have ⟨sub, run, served⟩ := submitAll_batch willing granted
    refine ⟨sub, run, fun k q found => ?_⟩
    rw [(served k q found).moves, q.batchMoves_whole,
      dstMove_eq_minMove (aligned q (List.mem_of_getElem? found))]

theorem handed_below {queues : List Queue} {grants : Nat → Option Grant} {variant : Variant}
    {sub : SubmitState} (run : submitAll queues grants variant = some sub) :
    ∀ h ∈ sub.handed, h.1 < queues.length := by
  intro h inside
  have image : h.1 ∈ sub.handed.map Prod.fst := List.mem_map_of_mem inside
  rw [submitAll_queues run, List.mem_map] at image
  obtain ⟨⟨r, k⟩, visit, same⟩ := image
  have ⟨q, found, _⟩ := queue_of_due (Config.mem_visits _ |>.mp visit)
  rw [← same]
  exact (List.getElem?_eq_some_iff.mp found).1

theorem QueueMapping.copied (mapping : QueueMapping st i)
    {l : List Nat} (src : (st.tables .src i).pages = l.map (areas.frame .src))
    (dst : (st.tables .dst i).pages = l.map (areas.frame .dst)) :
    (mapping.queue.pairs.map minMove).flatMap
        (fun m => m.copied.map (Prod.map mapping.bus mapping.bus)) = l.flatMap areas.pageCopy := by
  have table : (mapping.queue.pairs.map minMove).flatMap Memmove.copied =
      mapping.queue.src.bytes.zip mapping.queue.dst.bytes := by
    rw [copied_pairs, Lockstep.matched_eq_zip ((aligned_iff _).mp mapping.aligned)]
    rfl
  calc (mapping.queue.pairs.map minMove).flatMap
        (fun m => m.copied.map (Prod.map mapping.bus mapping.bus))
      = (mapping.queue.src.bytes.zip mapping.queue.dst.bytes).map
          (Prod.map mapping.bus mapping.bus) := by
        rw [← table, List.map_flatMap]
    _ = ((l.map (areas.frame .src)).flatMap pageBytes).zip
          ((l.map (areas.frame .dst)).flatMap pageBytes) := by
        rw [← List.zip_map, mapping.src_bytes, mapping.dst_bytes, src, dst]
    _ = l.flatMap areas.pageCopy := pageBytes_zip l _ _

theorem transfers_perm {sub : SubmitState} (below : ∀ h ∈ sub.handed, h.1 < k)
    (bus : Nat → Nat → Location) :
    ((List.range k).flatMap fun i =>
      (sub.memmovesOf i).flatMap fun m => m.copied.map (Prod.map (bus i) (bus i))).Perm
      (sub.transfers bus).flatten := by
  have sorted := Walk.flatMap_filter_perm (l := sub.handed) Prod.fst (fun h =>
    h.2.memmoves.flatMap fun m => m.copied.map (Prod.map (bus h.1) (bus h.1))) k below
  have flat : (sub.transfers bus).flatten = sub.handed.flatMap fun h =>
      h.2.memmoves.flatMap fun m => m.copied.map (Prod.map (bus h.1) (bus h.1)) := by
    rw [SubmitState.transfers, List.flatten_eq_flatMap, List.flatMap_assoc]
    simp only [List.flatMap_map, id_eq]
  rw [flat]
  have own : ∀ i, ((sub.handed.filter (·.1 = i)).flatMap fun h =>
        h.2.memmoves.flatMap fun m => m.copied.map (Prod.map (bus h.1) (bus h.1))) =
      (sub.memmovesOf i).flatMap fun m => m.copied.map (Prod.map (bus i) (bus i)) := by
    intro i
    rw [SubmitState.memmovesOf, List.flatMap_assoc]
    apply List.flatMap_congr
    intro h inside
    have same : h.1 = i := by simpa using (List.mem_filter.mp inside).2
    rw [same]
  simpa only [own] using sorted

/-- Together the queues copy every page of the area once. -/
theorem transfers_pages {sub : SubmitState} (inv : FilledUpTo areas.env arr n c k (fun _ => k) st)
    (pages : arr.Perm (List.range n)) (enough : n ≤ k * c)
    (mappings : ∀ i : Fin k, QueueMapping st i) (below : ∀ h ∈ sub.handed, h.1 < k)
    (moves : ∀ i : Fin k, sub.memmovesOf i = (mappings i).queue.pairs.map minMove) :
    (sub.transfers (busOf mappings)).flatten.Perm ((List.range n).flatMap areas.pageCopy) := by
  have size : arr.length = n := by rw [pages.length_eq, List.length_range]
  have each : ∀ i ∈ List.range k, ((sub.memmovesOf i).flatMap fun m =>
      m.copied.map (Prod.map (busOf mappings i) (busOf mappings i))) =
        ((arr.drop (i * c)).take c).flatMap areas.pageCopy := by
    intro i inside
    rw [List.mem_range] at inside
    have bus : busOf mappings i = (mappings ⟨i, inside⟩).bus := by simp [busOf, inside]
    rw [moves ⟨i, inside⟩, bus]
    exact (mappings ⟨i, inside⟩).copied (inv.pages_eq size inside) (inv.pages_eq size inside)
  have order := transfers_perm below (busOf mappings)
  rw [List.flatMap_congr each, ← List.flatMap_assoc, Walk.flatMap_chunks,
    List.take_of_length_le (by omega)] at order
  exact order.symm.trans (pages.flatMap_right _)

theorem mem_pageCopies {x : Location × Location} :
    x ∈ (List.range n).flatMap areas.pageCopy ↔ ∃ p < n, ∃ o < pageSize,
      x = ((areas.frame .src p, o), (areas.frame .dst p, o)) := by
  simp only [List.mem_flatMap, List.mem_range, Areas.pageCopy, List.mem_map, eq_comm]

theorem pageCopies_writes (areas : Areas n) :
    (((List.range n).flatMap areas.pageCopy).map Prod.snd).Nodup := by
  have dests : ((List.range n).flatMap areas.pageCopy).map Prod.snd =
      (List.range n).flatMap fun p => pageBytes (areas.frame .dst p) := by
    rw [List.map_flatMap]
    simp only [Areas.pageCopy, List.map_map]
    rfl
  rw [dests, List.nodup_flatMap]
  constructor
  · intro p _
    exact List.nodup_range.map fun o o' same => (Prod.mk.inj same).2
  · apply List.Pairwise.imp_of_mem _ (List.nodup_range (n := n))
    intro p p' inside inside' other x atP atP'
    rw [List.mem_range] at inside inside'
    have ⟨o, _, here⟩ := List.mem_map.mp atP
    have ⟨o', _, here'⟩ := List.mem_map.mp atP'
    have frames := (Prod.mk.inj (here.trans here'.symm)).1
    exact other (areas.distinct _ _ _ _ inside inside' frames).2

theorem pageCopies_apart (areas : Areas n) :
    ∀ x ∈ (List.range n).flatMap areas.pageCopy,
      x.1 ∉ ((List.range n).flatMap areas.pageCopy).map Prod.snd := by
  intro x inside written
  have ⟨y, member, same⟩ := List.mem_map.mp written
  have ⟨p, below, o, _, atX⟩ := mem_pageCopies.mp inside
  have ⟨p', below', o', _, atY⟩ := mem_pageCopies.mp member
  rw [atX, atY, Prod.mk.injEq] at same
  have apart := (areas.distinct _ _ _ _ below' below same.1).1
  contradiction

/-- Copies of all pages, in any order, leave the destination area equal to the source area. -/
theorem area_copied {ts order : List (List (Location × Location))}
    (copied : ts.flatten.Perm ((List.range n).flatMap areas.pageCopy)) (same : order.Perm ts)
    (mem : Location → UInt8) {p o : Nat} (page : p < n) (offset : o < pageSize) :
    Transfer.run mem order (areas.frame .dst p, o) = mem (areas.frame .src p, o) ∧
      Transfer.run mem order (areas.frame .src p, o) = mem (areas.frame .src p, o) := by
  have dests := copied.map Prod.snd
  have writes := dests.nodup_iff.mpr (pageCopies_writes areas)
  have apart : ∀ x ∈ ts.flatten, x.1 ∉ ts.flatten.map Prod.snd := by
    intro x inside
    rw [dests.mem_iff]
    exact pageCopies_apart areas x (copied.mem_iff.mp inside)
  have byte : ((areas.frame .src p, o), (areas.frame .dst p, o)) ∈ ts.flatten :=
    copied.mem_iff.mpr (mem_pageCopies.mpr ⟨p, page, o, offset, rfl⟩)
  exact ⟨Transfer.run_perm_written same writes apart byte, Transfer.run_perm_source same apart byte⟩

theorem pageAt_randomArr (env : SgEnv) (draw : Nat → UInt32) (side : Side) :
    (∀ j < n, env.pageAt (randomArr n draw) side 0 j ≠ none) ↔ ∀ p < n, env.page side p ≠ none := by
  simp only [SgEnv.pageAt, Nat.zero_add]
  exact forall_randomArr (P := fun p => env.page side p ≠ none) n draw

def directTable (frames : List Nat) : MappedTable where
  sgl := frames.map fun frame => ⟨frame * pageSize, pageSize⟩
  nents := frames.length
  nents_le := by simp

def directBus (address : Nat) : Location := (address / pageSize, address % pageSize)

theorem directTable_segments (frames : List Nat) :
    (directTable frames).segments = frames.map fun frame => ⟨frame * pageSize, pageSize⟩ := by
  simp [MappedTable.segments, directTable]

theorem directTable_bytes (frames : List Nat) :
    (directTable frames).bytes.map directBus = frames.flatMap pageBytes := by
  rw [MappedTable.bytes, directTable_segments, List.map_map, ← List.flatMap_def, List.map_flatMap]
  apply List.flatMap_congr
  intro frame _
  apply List.ext_getElem
  · simp [Segment.bytes, pageBytes]
  · intro o h h'
    have below : o < pageSize := by simpa [pageBytes] using h'
    have address : directBus (frame * pageSize + o) = (frame, o) := by
      unfold directBus pageSize at *
      apply Prod.ext
      · change (frame * 4096 + o) / 4096 = frame
        omega
      · change (frame * 4096 + o) % 4096 = o
        omega
    simpa [Segment.bytes, pageBytes] using address

def directMapping (st : SgState) (i : Nat)
    (even : (st.tables .src i).pages.length = (st.tables .dst i).pages.length) :
    QueueMapping st i where
  queue := pairedQueue (directTable (st.tables .src i).pages) (directTable (st.tables .dst i).pages)
  bus := directBus
  src_bytes := directTable_bytes _
  dst_bytes := directTable_bytes _
  alike := by
    simp only [pairedQueue, directTable_segments, List.map_map]
    change List.map (fun _ => pageSize) _ = List.map (fun _ => pageSize) _
    rw [List.map_const', List.map_const', even]

theorem directMapping_willing (even : (st.tables .src i).pages.length = (st.tables .dst i).pages.length) :
    Willing (directMapping st i even).queue where
  enabled := rfl
  fits := by
    intro p pair
    have source : p.1 ∈ (directTable (st.tables .src i).pages).segments := (List.of_mem_zip pair).1
    rw [directTable_segments, List.mem_map] at source
    have ⟨frame, _, same⟩ := source
    rw [← same]
    have limit : pageSize ≤ 16384 := by decide
    exact Nat.le_trans (Nat.min_le_left _ _) limit

def consecutiveAreas (n : Nat) : Areas n where
  frame side p := match side with
    | .src => p
    | .dst => n + p
  distinct s p s' p' below below' same := by
    cases s with
    | src =>
      cases s' with
      | src => exact ⟨rfl, same⟩
      | dst =>
        have same : p = n + p' := same
        exact absurd (same ▸ below) (Nat.not_lt_of_ge (Nat.le_add_right n p'))
    | dst =>
      cases s' with
      | src =>
        have same : n + p = p' := same
        exact absurd (same ▸ below') (Nat.not_lt_of_ge (Nat.le_add_right n p))
      | dst => exact ⟨rfl, Nat.add_left_cancel same⟩

end DsaTest
