import Mathlib.Data.List.Basic
import Mathlib.Algebra.BigOperators.Group.List.Basic
import Mathlib.Algebra.Order.BigOperators.Group.List
import Mathlib.Algebra.Order.Ring.Nat
import Mathlib.Data.Finset.Prod

/-! The counts that `dsa_copy` of the N-DSA modules computes from the mapped
tables, and the order in which its two nested loops visit the work queues. A table
of `K` has at most `NPAGES / K + 1` segments, so `total_entries`, the largest count
times `K`, is at most `NPAGES + K`. `random_arr` gets no memory for more than 2^20
pages: nothing comes near 2^31, and `int` and `u32` are `Nat` here. -/
namespace DsaTest

/-- `kernel_test_sgtable.c` and `kernel_test_sgtable_batch.c`. -/
inductive Variant
  | loop
  | batch
  deriving DecidableEq, Repr

/-- What the counts of one work queue depend on: the `nents` of its two mapped
tables, `idxd->max_batch_size` and `wq->num_descs`. -/
structure Shape where
  srcNents : Nat
  dstNents : Nat
  maxBatchSize : Nat
  numDescs : Nat
  maxBatchSize_pos : 0 < maxBatchSize := by decide
  deriving DecidableEq, Repr

/-- Both modules take the smaller of the two `nents`. -/
def Shape.totalNents (q : Shape) : Nat :=
  if q.srcNents > q.dstNents then q.dstNents else q.srcNents

theorem Shape.totalNents_eq_min (q : Shape) :
    q.totalNents = min q.srcNents q.dstNents := by
  unfold totalNents
  split <;> omega

/-- The descriptors of a queue: one per pair of segments, or one per batch. -/
def Shape.descsEntries (q : Shape) : Variant → Nat
  | .loop => q.totalNents
  | .batch => q.totalNents / q.maxBatchSize + if q.totalNents % q.maxBatchSize ≠ 0 then 1 else 0

theorem Shape.lt_descsEntries_batch (q : Shape) (r : Nat) :
    r < q.descsEntries .batch ↔ r * q.maxBatchSize < q.totalNents := by
  have whole := Nat.div_add_mod q.totalNents q.maxBatchSize
  have part := Nat.mod_lt q.totalNents q.maxBatchSize_pos
  rw [Nat.mul_comm] at whole
  simp only [descsEntries]
  constructor
  · intro below
    rcases Nat.lt_or_ge r (q.totalNents / q.maxBatchSize) with full | last
    · have chunks : (r + 1) * q.maxBatchSize ≤ q.totalNents / q.maxBatchSize * q.maxBatchSize :=
        Nat.mul_le_mul_right _ full
      rw [Nat.succ_mul] at chunks
      have positive := q.maxBatchSize_pos
      omega
    · split at below
      · have same : r = q.totalNents / q.maxBatchSize := by omega
        rw [same]
        omega
      · omega
  · intro begun
    by_contra beyond
    have chunks : q.totalNents / q.maxBatchSize * q.maxBatchSize ≤ r * q.maxBatchSize :=
      Nat.mul_le_mul_right _ (by omega)
    split at beyond
    · have more : (q.totalNents / q.maxBatchSize + 1) * q.maxBatchSize ≤ r * q.maxBatchSize :=
        Nat.mul_le_mul_right _ (by omega)
      rw [Nat.succ_mul] at more
      omega
    · omega

/-- Does the batch module send this queue batch descriptors, or the one plain
memmove it keeps for a list of one segment? -/
def Shape.batched (q : Shape) : Variant → Bool
  | .loop => false
  | .batch => q.totalNents ≠ 1

structure Config where
  variant : Variant
  queues : List Shape

namespace Config

variable (cfg : Config)

def enabledWqs : Nat := cfg.queues.length

def descsEntries (k : Nat) : Nat :=
  (cfg.queues[k]?.map (·.descsEntries cfg.variant)).getD 0

def batched (k : Nat) : Bool :=
  (cfg.queues[k]?.map (·.batched cfg.variant)).getD false

def numDescs (k : Nat) : Nat :=
  (cfg.queues[k]?.map (·.numDescs)).getD 0

def maxEnts : Nat :=
  cfg.queues.foldl (fun m q => max m (q.descsEntries cfg.variant)) 0

def totalEntries : Nat := cfg.maxEnts * cfg.enabledWqs

def round (curEnt : Nat) : List Nat :=
  (List.range cfg.enabledWqs).filter (curEnt < cfg.descsEntries ·)

def visitsUpTo (rounds : Nat) : List (Nat × Nat) :=
  (List.range rounds).flatMap fun curEnt => (cfg.round curEnt).map (curEnt, ·)

def visits : List (Nat × Nat) :=
  (List.range cfg.maxEnts).flatMap fun curEnt => (cfg.round curEnt).map (curEnt, ·)

theorem visits_eq : cfg.visits = cfg.visitsUpTo cfg.maxEnts := rfl

theorem visits_length_le : cfg.visits.length ≤ cfg.totalEntries := by
  have rounds (curEnt : Nat) :
      ((cfg.round curEnt).map (Prod.mk curEnt)).length ≤ cfg.enabledWqs := by
    rw [List.length_map]
    exact (List.length_filter_le _ _).trans (by simp)
  unfold visits totalEntries
  rw [List.length_flatMap]
  calc ((List.range cfg.maxEnts).map fun curEnt => ((cfg.round curEnt).map (Prod.mk curEnt)).length).sum
      ≤ ((List.range cfg.maxEnts).map fun _ => cfg.enabledWqs).sum :=
        List.sum_le_sum fun curEnt _ => rounds curEnt
    _ = cfg.maxEnts * cfg.enabledWqs := by simp

private theorem foldl_max_ge (counts : List Nat) (start : Nat) :
    start ≤ counts.foldl max start ∧ ∀ c ∈ counts, c ≤ counts.foldl max start := by
  induction counts generalizing start with
  | nil => simp
  | cons c rest ih =>
    obtain ⟨first, others⟩ := ih (max start c)
    refine ⟨by simp only [List.foldl_cons]; omega, ?_⟩
    intro c' member
    rcases List.mem_cons.mp member with rfl | later
    · simp only [List.foldl_cons]
      omega
    · exact others c' later

theorem descsEntries_le_maxEnts (k : Nat) : cfg.descsEntries k ≤ cfg.maxEnts := by
  unfold descsEntries maxEnts
  cases found : cfg.queues[k]? with
  | none => simp
  | some q =>
    have member : q.descsEntries cfg.variant ∈ cfg.queues.map (·.descsEntries cfg.variant) :=
      List.mem_map_of_mem (List.mem_of_getElem? found)
    have bound := (foldl_max_ge _ 0).2 _ member
    rw [List.foldl_map] at bound
    simpa using bound

theorem lt_enabledWqs_of_lt_descsEntries {r k : Nat} (h : r < cfg.descsEntries k) :
    k < cfg.enabledWqs := by
  unfold descsEntries at h
  unfold enabledWqs
  by_contra out
  rw [List.getElem?_eq_none (by omega)] at h
  simp at h

theorem mem_visitsUpTo {rounds r k : Nat} :
    (r, k) ∈ cfg.visitsUpTo rounds ↔ r < rounds ∧ r < cfg.descsEntries k := by
  simp only [visitsUpTo, round, List.mem_flatMap, List.mem_range, List.mem_map, List.mem_filter,
    decide_eq_true_eq, Prod.mk.injEq]
  constructor
  · rintro ⟨r', inside, k', ⟨_, below⟩, rfl, rfl⟩
    exact ⟨inside, below⟩
  · rintro ⟨inside, below⟩
    exact ⟨r, inside, k, ⟨cfg.lt_enabledWqs_of_lt_descsEntries below, below⟩, rfl, rfl⟩

theorem mem_visits {r k : Nat} : (r, k) ∈ cfg.visits ↔ r < cfg.descsEntries k := by
  rw [visits_eq, mem_visitsUpTo]
  exact ⟨And.right, fun below => ⟨below.trans_le (cfg.descsEntries_le_maxEnts k), below⟩⟩

/-- The order of the nested loops: by round, then by queue. -/
def Earlier (a b : Nat × Nat) : Prop := a.1 < b.1 ∨ a.1 = b.1 ∧ a.2 < b.2

theorem visitsUpTo_sorted (rounds : Nat) : (cfg.visitsUpTo rounds).Pairwise Earlier := by
  unfold visitsUpTo
  rw [List.pairwise_flatMap]
  constructor
  · intro curEnt _
    rw [List.pairwise_map]
    apply (List.pairwise_lt_range.filter _).imp
    intro j k before
    exact .inr ⟨rfl, before⟩
  · apply List.pairwise_lt_range.imp
    intro r r' before a inA b inB
    obtain ⟨_, _, rfl⟩ := List.mem_map.mp inA
    obtain ⟨_, _, rfl⟩ := List.mem_map.mp inB
    exact .inl before

theorem visits_sorted : cfg.visits.Pairwise Earlier := cfg.visitsUpTo_sorted _

theorem visitsUpTo_nodup (rounds : Nat) : (cfg.visitsUpTo rounds).Nodup := by
  apply (cfg.visitsUpTo_sorted rounds).imp
  rintro a b before rfl
  unfold Earlier at before
  omega

theorem filter_visitsUpTo (rounds k : Nat) :
    (cfg.visitsUpTo rounds).filter (·.2 = k) =
      (List.range (min rounds (cfg.descsEntries k))).map (·, k) := by
  have same : ((cfg.visitsUpTo rounds).filter (·.2 = k)).Perm
      ((List.range (min rounds (cfg.descsEntries k))).map (·, k)) := by
    rw [List.perm_ext_iff_of_nodup]
    · rintro ⟨r, j⟩
      simp only [List.mem_filter, mem_visitsUpTo, decide_eq_true_eq, List.mem_map, List.mem_range,
        Prod.mk.injEq, Nat.lt_min]
      constructor
      · rintro ⟨below, rfl⟩
        exact ⟨r, below, rfl, rfl⟩
      · rintro ⟨_, below, rfl, rfl⟩
        exact ⟨below, rfl⟩
    · exact (cfg.visitsUpTo_nodup rounds).filter _
    · rw [List.Nodup, List.pairwise_map]
      apply List.nodup_range.imp
      intro r r' different
      simp [different]
  have inOrder : ((List.range (min rounds (cfg.descsEntries k))).map (·, k)).Pairwise Earlier := by
    rw [List.pairwise_map]
    apply List.pairwise_lt_range.imp
    intro r r' before
    exact .inl before
  have antisymm (a b : Nat × Nat) (before : Earlier a b) (after : Earlier b a) : a = b := by
    unfold Earlier at before after
    omega
  exact List.Perm.eq_of_pairwise (fun a b _ _ => antisymm a b)
    ((cfg.visitsUpTo_sorted rounds).filter _) inOrder same

theorem countP_visitsUpTo {rounds : Nat} {before after : List (Nat × Nat)} {r k : Nat}
    (split : cfg.visitsUpTo rounds = before ++ (r, k) :: after) : before.countP (·.2 = k) = r := by
  have order := cfg.filter_visitsUpTo rounds k
  rw [split, List.filter_append, List.filter_cons_of_pos (by simp)] at order
  have here := congrArg (·[(before.filter (·.2 = k)).length]?) order
  simp only [List.getElem?_append_right (Nat.le_refl _), Nat.sub_self,
    List.getElem?_cons_zero, List.getElem?_map] at here
  rw [List.countP_eq_length_filter]
  obtain ⟨j, found, same⟩ := Option.map_eq_some_iff.mp here.symm
  rw [List.getElem?_eq_some_iff] at found
  obtain ⟨_, found⟩ := found
  simp only [List.getElem_range, Prod.mk.injEq] at found same
  omega

theorem countP_visitsUpTo_all (rounds k : Nat) :
    (cfg.visitsUpTo rounds).countP (·.2 = k) = min rounds (cfg.descsEntries k) := by
  rw [List.countP_eq_length_filter, filter_visitsUpTo, List.length_map, List.length_range]

theorem countP_visits_all (k : Nat) : cfg.visits.countP (·.2 = k) = cfg.descsEntries k := by
  rw [visits_eq, countP_visitsUpTo_all, Nat.min_eq_right (cfg.descsEntries_le_maxEnts k)]

theorem visitsUpTo_add (n m : Nat) : cfg.visitsUpTo (n + m) = cfg.visitsUpTo n ++
    (List.range m).flatMap fun i => (cfg.round (n + i)).map (n + i, ·) := by
  unfold visitsUpTo
  rw [List.range_add, List.flatMap_append, List.flatMap_map]

theorem visitsUpTo_eq_visits {rounds : Nat} (enough : cfg.maxEnts ≤ rounds) :
    cfg.visitsUpTo rounds = cfg.visits := by
  have empty : ((List.range (rounds - cfg.maxEnts)).flatMap fun i =>
      (cfg.round (cfg.maxEnts + i)).map (Prod.mk (cfg.maxEnts + i))) = [] := by
    rw [List.flatMap_eq_nil_iff]
    intro i _
    rw [List.map_eq_nil_iff, round, List.filter_eq_nil_iff]
    intro k _
    have bound := cfg.descsEntries_le_maxEnts k
    simp only [decide_eq_true_eq]
    omega
  rw [← Nat.add_sub_of_le enough, visitsUpTo_add, empty, List.append_nil, visits_eq]

theorem visits_eq_append (rounds : Nat) : ∃ later, cfg.visits = cfg.visitsUpTo rounds ++ later := by
  by_cases enough : cfg.maxEnts ≤ rounds
  · exact ⟨[], by rw [cfg.visitsUpTo_eq_visits enough, List.append_nil]⟩
  · have more := cfg.visitsUpTo_add rounds (cfg.maxEnts - rounds)
    rw [Nat.add_sub_of_le (by omega), ← visits_eq] at more
    exact ⟨_, more⟩

theorem foldl_max_le {counts : List Nat} {start m : Nat} (first : start ≤ m)
    (others : ∀ c ∈ counts, c ≤ m) : counts.foldl max start ≤ m := by
  induction counts generalizing start with
  | nil => exact first
  | cons c rest ih =>
    have here := others c List.mem_cons_self
    exact ih (by omega) fun c' later => others c' (List.mem_cons_of_mem _ later)

theorem maxEnts_le {m : Nat} (all : ∀ q ∈ cfg.queues, q.descsEntries cfg.variant ≤ m) :
    cfg.maxEnts ≤ m := by
  have bound : (cfg.queues.map (·.descsEntries cfg.variant)).foldl max 0 ≤ m := by
    refine foldl_max_le (Nat.zero_le _) ?_
    intro c member
    obtain ⟨q, inside, rfl⟩ := List.mem_map.mp member
    exact all q inside
  rwa [List.foldl_map] at bound

theorem descsEntries_of_mem {q : Shape} (member : q ∈ cfg.queues) :
    ∃ k < cfg.enabledWqs, cfg.descsEntries k = q.descsEntries cfg.variant := by
  obtain ⟨k, found⟩ := List.mem_iff_getElem?.mp member
  exact ⟨k, (List.getElem?_eq_some_iff.mp found).1, by simp [descsEntries, found]⟩

/-- `total_entries` exceeds the number of visits exactly if two queues differ in their
number of descriptors. -/
theorem visits_lt_totalEntries_iff : cfg.visits.length < cfg.totalEntries ↔
    ∃ p ∈ cfg.queues, ∃ q ∈ cfg.queues, p.descsEntries cfg.variant ≠ q.descsEntries cfg.variant := by
  have nodup : cfg.visits.Nodup := cfg.visitsUpTo_nodup cfg.maxEnts
  let pairs := Finset.range cfg.maxEnts ×ˢ Finset.range cfg.enabledWqs
  have size : pairs.card = cfg.totalEntries := by simp [pairs, totalEntries]
  have within : cfg.visits.toFinset ⊆ pairs := by
    rintro ⟨r, k⟩ visited
    have below := cfg.mem_visits.mp (List.mem_toFinset.mp visited)
    exact Finset.mem_product.mpr ⟨Finset.mem_range.mpr (below.trans_le (cfg.descsEntries_le_maxEnts k)),
      Finset.mem_range.mpr (cfg.lt_enabledWqs_of_lt_descsEntries below)⟩
  rw [← size, ← List.toFinset_card_of_nodup nodup]
  constructor
  · intro fewer
    by_contra same
    push Not at same
    refine absurd (Finset.card_le_card ?_) (Nat.not_le_of_gt fewer)
    rintro ⟨r, k⟩ inside
    obtain ⟨belowMax, queue⟩ := Finset.mem_product.mp inside
    rw [Finset.mem_range] at belowMax queue
    have found : cfg.queues[k]? = some cfg.queues[k] := List.getElem?_eq_getElem queue
    have bound := cfg.maxEnts_le fun q member =>
      Nat.le_of_eq (same q member cfg.queues[k] (List.getElem_mem queue))
    rw [List.mem_toFinset, mem_visits, descsEntries, found]
    exact belowMax.trans_le bound
  · rintro ⟨p, inP, q, inQ, differ⟩
    obtain ⟨i, queueI, countI⟩ := cfg.descsEntries_of_mem inP
    obtain ⟨j, queueJ, countJ⟩ := cfg.descsEntries_of_mem inQ
    have missed (k : Nat) (queue : k < cfg.enabledWqs) (fewer : cfg.descsEntries k < cfg.maxEnts) :
        cfg.visits.toFinset.card < pairs.card := by
      refine Finset.card_lt_card ⟨within, fun all => ?_⟩
      have inside : (cfg.descsEntries k, k) ∈ pairs := by simp [pairs, fewer, queue]
      have visited := all inside
      rw [List.mem_toFinset, mem_visits] at visited
      omega
    have leI := cfg.descsEntries_le_maxEnts i
    have leJ := cfg.descsEntries_le_maxEnts j
    rcases Nat.lt_or_gt_of_ne differ with less | more
    · exact missed i queueI (by omega)
    · exact missed j queueJ (by omega)

end Config

end DsaTest
