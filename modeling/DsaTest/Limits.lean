import DsaTest.BatchDevice

/-! The counts and sizes in the descriptors that the batch modules create, against the
limits of the queue they go to. -/
namespace DsaTest

variable {queues : List Queue} {grants : Nat → Option Grant} {q : Queue} {handed : Handed}
  {k r i : Nat} {visit : Nat × Nat}

def Handed.desc : Handed → IdxdDesc
  | .plain desc | .batch desc _ => desc

def Handed.descCount (handed : Handed) : Option Nat :=
  match handed.desc.hw.operation with
  | .batch _ descCount => some descCount
  | .memmove _ => none

theorem Cut.descCount (piece : Cut q i handed) :
    handed.descCount = if q.totalNents = 1 then none else some (q.cut i).length := by
  cases piece with
  | plain single _ operation => simp [Handed.descCount, Handed.desc, operation, single]
  | batch several operation _ => simp [Handed.descCount, Handed.desc, operation, several]

/-- Some part of the submission loop of the N-DSA module hands the descriptor to queue `k`. -/
def HandedOver (queues : List Queue) (grants : Nat → Option Grant) (k : Nat) (handed : Handed) :
    Prop :=
  ∃ before after st, (submitConfig queues .batch).visits = before ++ after ∧
    before.foldlM (visitQueue queues grants .batch) (submitInitial queues) = some st ∧
    (k, handed) ∈ st.handed

/-- The loop gets to the visit, and its creation and all earlier ones succeed. -/
def Creating (queues : List Queue) (grants : Nat → Option Grant) (visit : Nat × Nat) : Prop :=
  ∃ before after, (submitConfig queues .batch).visits = before ++ visit :: after ∧
    ∀ i earlier, (before ++ [visit])[i]? = some earlier → CreatesAt queues grants i earlier

theorem HandedOver.piece (given : HandedOver queues grants k handed) :
    ∃ r q, queues[k]? = some q ∧ Creating queues grants (r, k) ∧ Cut q r handed := by
  have ⟨before, after, st, split, result, member⟩ := given
  have reached := reached_of_submit split result
  have ⟨i, inside, at_⟩ := List.getElem_of_mem member
  have length := reached.handed.length_eq
  have same := reached.handed.get (show i < before.length by omega) inside
  simp only [List.get_eq_getElem, at_] at same
  have ⟨queue, q, found, piece⟩ := same
  have here : before[i] = (before[i].1, k) := by rw [queue]
  rw [← queue] at found
  refine ⟨before[i].1, q, found, ?_, piece⟩
  have parts : before = before.take i ++ before[i] :: before.drop (i + 1) := by
    rw [List.cons_getElem_drop_succ, List.take_append_drop]
  refine ⟨before.take i, before.drop (i + 1) ++ after, ?_, ?_⟩
  · rw [split, ← here, ← List.cons_append, ← List.append_assoc, ← parts]
  · intro j earlier at_
    rw [← here, List.take_append_getElem, List.getElem?_take] at at_
    split at at_
    next => exact reached.creates j earlier at_
    next => contradiction

theorem Creating.handedOver (creating : Creating queues grants visit) :
    ∃ q handed, queues[visit.2]? = some q ∧ visit.1 * q.wq.maxBatchSize < q.totalNents ∧
      Cut q visit.1 handed ∧ HandedOver queues grants visit.2 handed := by
  have ⟨before, after, split, creates⟩ := creating
  have whole : (submitConfig queues .batch).visits = (before ++ [visit]) ++ after := by
    rw [split, List.append_assoc, List.singleton_append]
  have ⟨st, result, reached⟩ := submit_reaches whole creates
  have due := Config.mem_visits (submitConfig queues .batch) |>.mp
    (show visit ∈ (submitConfig queues .batch).visits by simp [split])
  have length := reached.handed.length_eq
  rw [List.length_append, List.length_singleton] at length
  have same := reached.handed.get (show before.length < (before ++ [visit]).length by simp)
    (show before.length < st.handed.length by omega)
  simp only [List.get_eq_getElem, List.getElem_concat_length] at same
  have ⟨queue, q, found, piece⟩ := same
  have begun : visit.1 * q.wq.maxBatchSize < q.totalNents := by
    rw [descsEntries_eq found] at due
    exact (q.shape.lt_descsEntries_batch _).mp due
  refine ⟨q, _, found, begun, piece, before ++ [visit], after, st, whole, result, ?_⟩
  rw [← queue]
  exact List.getElem_mem _

structure WqLimits where
  maxXferBytes : Nat
  maxBatchSize : Nat

def WqLimits.Respected (limits : WqLimits) (handed : Handed) : Prop :=
  (∀ descCount, handed.descCount = some descCount → descCount ≤ limits.maxBatchSize) ∧
    ∀ m ∈ handed.memmoves, m.xferSize ≤ limits.maxXferBytes

/-- The piece of round `r` is within the limits: its number of pairs where it goes in a
batch, and the length that the path it takes reads from each pair. -/
def Queue.WithinLimits (q : Queue) (limits : WqLimits) (r : Nat) : Prop :=
  (q.totalNents ≠ 1 →
    min q.wq.maxBatchSize (q.totalNents - r * q.wq.maxBatchSize) ≤ limits.maxBatchSize) ∧
  ∀ p ∈ q.cut r, (if q.totalNents = 1 then min p.1.length p.2.length else p.2.length) ≤
    limits.maxXferBytes

theorem Cut.respected_iff (piece : Cut q r handed) (limits : WqLimits) :
    limits.Respected handed ↔ q.WithinLimits limits r := by
  have size (p : Segment × Segment) : (q.batchMove p).xferSize =
      if q.totalNents = 1 then min p.1.length p.2.length else p.2.length := by
    rw [Queue.batchMove]
    split <;> rfl
  have sizes : (∀ m ∈ handed.memmoves, m.xferSize ≤ limits.maxXferBytes) ↔
      ∀ p ∈ q.cut r, (if q.totalNents = 1 then min p.1.length p.2.length else p.2.length) ≤
        limits.maxXferBytes := by
    rw [piece.memmoves, List.forall_mem_map]
    simp only [size]
  have counts : (∀ descCount, handed.descCount = some descCount → descCount ≤ limits.maxBatchSize) ↔
      (q.totalNents ≠ 1 →
        min q.wq.maxBatchSize (q.totalNents - r * q.wq.maxBatchSize) ≤ limits.maxBatchSize) := by
    rw [piece.descCount, q.length_cut]
    by_cases single : q.totalNents = 1
    · simp [single]
    · simp [single]
  exact and_congr counts sizes

/-- The batch module compares with the limits of the device, and only the transfer size
of a plain descriptor. The limits of the queues hold exactly where every piece it gets
to is within them. -/
theorem limits_respected_iff (queues : List Queue) (grants : Nat → Option Grant)
    (limits : Nat → WqLimits) :
    (∀ k handed, HandedOver queues grants k handed → (limits k).Respected handed) ↔
      ∀ r k q, queues[k]? = some q → Creating queues grants (r, k) →
        q.WithinLimits (limits k) r := by
  constructor
  · intro respected r k q found creating
    have ⟨q', handed, found', _, piece, given⟩ := creating.handedOver
    rw [found, Option.some.injEq] at found'
    subst found'
    exact (piece.respected_iff _).mp (respected k handed given)
  · intro within k handed given
    have ⟨r, q, found, creating, piece⟩ := given.piece
    exact (piece.respected_iff _).mpr (within r k q found creating)

/-- A queue of a device that takes batches of two, itself limited to batches of one. -/
theorem limits_exceeded_aligned :
    ¬ ∀ (queues : List Queue) (grants : Nat → Option Grant) (limits : Nat → WqLimits),
      (∀ k q, queues[k]? = some q → (limits k).maxXferBytes ≤ q.wq.maxXferBytes ∧
        (limits k).maxBatchSize ≤ q.wq.maxBatchSize) →
      (∀ q ∈ queues, ∀ p ∈ q.pairs, p.1.length < 2 ^ 32 ∧ p.2.length < 2 ^ 32) →
      ∀ k handed, HandedOver queues grants k handed → (limits k).Respected handed := by
  intro claim
  have below : ∀ (k : Nat) (q : Queue), [alignedQueue][k]? = some q → 16384 ≤ q.wq.maxXferBytes ∧
      1 ≤ q.wq.maxBatchSize := by
    intro k q found
    have here : q = alignedQueue := by simpa using List.mem_of_getElem? found
    rw [here]
    decide
  have short : ∀ q ∈ [alignedQueue], ∀ p ∈ q.pairs, p.1.length < 2 ^ 32 ∧ p.2.length < 2 ^ 32 := by
    rw [List.forall_mem_singleton]
    decide
  have run : (submitAll [alignedQueue] alwaysGranted .batch).map
      (fun st => st.handed.map fun p => (p.1, p.2.descCount)) = some [(0, some 2)] := by decide
  have ⟨st, result, counts⟩ := Option.map_eq_some_iff.mp run
  have member : (0, some 2) ∈ st.handed.map fun p => (p.1, p.2.descCount) := by
    rw [counts]
    exact List.mem_cons_self
  have ⟨⟨k, handed⟩, given, same⟩ := List.mem_map.mp member
  rw [Prod.mk.injEq] at same
  have respected := claim [alignedQueue] alwaysGranted (fun _ => ⟨16384, 1⟩) below short k handed
    ⟨_, [], st, (List.append_nil _).symm, result, given⟩
  have tooMany := respected.1 2 same.2
  exact absurd tooMany (by decide)

theorem Queue.degenerate_iff (limit : 2 ≤ q.wq.maxBatchSize)
    (begun : r * q.wq.maxBatchSize < q.totalNents) :
    (q.cut r).length < 2 ↔
      q.totalNents % q.wq.maxBatchSize = 1 ∧ r = q.totalNents / q.wq.maxBatchSize := by
  rw [q.length_cut]
  constructor
  · intro short
    have one : q.totalNents = 1 + q.wq.maxBatchSize * r := by
      rw [Nat.mul_comm]
      omega
    rw [one, Nat.add_mul_mod_self_left, Nat.add_mul_div_left _ _ q.wq.maxBatchSize_pos,
      Nat.mod_eq_of_lt limit, Nat.div_eq_of_lt limit]
    omega
  · intro ⟨remainder, last⟩
    have whole := Nat.div_add_mod q.totalNents q.wq.maxBatchSize
    rw [← last, remainder, Nat.mul_comm] at whole
    omega

theorem Cut.two_le {descCount : Nat} (piece : Cut q r handed) (limit : 2 ≤ q.wq.maxBatchSize)
    (begun : r * q.wq.maxBatchSize < q.totalNents) (count : handed.descCount = some descCount)
    (other : 2 ≤ q.totalNents → q.totalNents % q.wq.maxBatchSize = 1 →
      r ≠ q.totalNents / q.wq.maxBatchSize) : 2 ≤ descCount := by
  rw [piece.descCount] at count
  split at count
  next => contradiction
  next several =>
    cases count
    by_contra short
    have ⟨remainder, last⟩ := (Queue.degenerate_iff limit begun).mp (Nat.lt_of_not_le short)
    exact other (by omega) remainder last

theorem Queue.last_begun (remainder : q.totalNents % q.wq.maxBatchSize = 1) :
    q.totalNents / q.wq.maxBatchSize * q.wq.maxBatchSize < q.totalNents := by
  have whole := Nat.div_add_mod q.totalNents q.wq.maxBatchSize
  rw [remainder, Nat.mul_comm] at whole
  omega

namespace BatchDevice

open SingleDevice

/-- The first `j + 1` creations of the single-device module succeed. -/
def Creating (q : Queue) (env : CopyEnv) (j : Nat) : Prop :=
  q.wq.enabled = true ∧ ∀ i ≤ j, i < q.wq.numDescs ∧ env.grant i ≠ none

def Produced (q : Queue) (device : Nat) (env : CopyEnv) (handed : Handed) : Prop :=
  ∃ no, .build no (some handed) ∈ (dsaCopy q device env).state.trace

variable {device : Nat} {env : CopyEnv}

theorem BuildEnd.built {n : Nat} {result : Building} (ended : BuildEnd q device env n result) :
    ∃ st j, Built q device env st j ∧ result.state.trace = st.trace ∧
      ∀ i, i < j ↔ i < n ∧ Creating q env i := by
  have creating {st : BatchState} {j : Nat} (built : Built q device env st j) (i : Nat)
      (old : i < j) : Creating q env i :=
    ⟨(built.granted i old).2.2, fun i' inside =>
      have ⟨free, granted, _⟩ := built.granted i' (by omega)
      ⟨free, granted⟩⟩
  cases ended with
  | @ready st built =>
    exact ⟨st, n, built, rfl, fun i => ⟨fun old => ⟨old, creating built i old⟩, And.left⟩⟩
  | @disabled st j due built disabled =>
    refine ⟨st, j, built, rfl, fun i => ⟨fun old => ⟨by omega, creating built i old⟩, ?_⟩⟩
    intro ⟨_, enabled, _⟩
    rw [disabled] at enabled
    contradiction
  | @blocked st j due built _ full =>
    refine ⟨st, j, built, rfl, fun i => ⟨fun old => ⟨by omega, creating built i old⟩, ?_⟩⟩
    intro ⟨_, _, earlier⟩
    by_contra late
    have ⟨free, _⟩ := earlier j (by omega)
    omega
  | @refused st j due built _ refused =>
    refine ⟨st, j, built, rfl, fun i => ⟨fun old => ⟨by omega, creating built i old⟩, ?_⟩⟩
    intro ⟨_, _, earlier⟩
    by_contra late
    have ⟨_, granted⟩ := earlier j (by omega)
    exact granted refused

theorem dsaCopy_grows (q : Queue) (device : Nat) (env : CopyEnv) :
    Grows (·.isBuild = false) (building q device env).state.toCopyState
      (dsaCopy q device env).state.toCopyState := by
  unfold dsaCopy
  split
  next st ended =>
    rw [ended]
    exact .refl _ _
  next st ended =>
    rw [ended]
    exact .refl _ _
  next st ended =>
    rw [ended]
    generalize (if q.src.nents > 1 ∧ q.dst.nents > 1 then nents q else 1) = n
    unfold submitAndPoll
    split
    next => exact .refl _ _
    next copy submitted => exact submitList_grows submitted
    next copy submitted =>
      have polled := pollLoop_grows env n pollRetryMax 0 copy
      rw [← pollLoop_copy device n pollRetryMax 0 { st with toCopyState := copy }] at polled
      exact ((submitList_grows submitted).trans polled).trans ⟨[.unmap], rfl, by simp [CopyEvent.isBuild]⟩

theorem produced_iff : Produced q device env handed ↔
    ∃ no, .build no (some handed) ∈ (building q device env).state.trace := by
  have ⟨more, grown, kind⟩ := dsaCopy_grows q device env
  simp only [Produced, grown, List.mem_append]
  constructor
  · intro ⟨no, built⟩
    cases built with
    | inl before => exact ⟨no, before⟩
    | inr after =>
      have other := kind _ after
      contradiction
  · intro ⟨no, before⟩
    exact ⟨no, .inl before⟩

/-- The batches that are built are the pieces whose creations succeed. -/
theorem produced_several (device : Nat) (env : CopyEnv)
    (several : q.src.nents > 1 ∧ q.dst.nents > 1) :
    (∀ handed, Produced q device env handed → ∃ i, i < nents q ∧ Creating q env i ∧ Cut q i handed) ∧
    ∀ i < nents q, Creating q env i → ∃ handed, Produced q device env handed ∧ Cut q i handed := by
  have ended : BuildEnd q device env (nents q) (building q device env) := by
    rw [building, if_pos several]
    exact buildBatches_end (several_of_branch several) (Nat.zero_add _)
      (built_initial (several_of_branch several))
  obtain ⟨st, j, built, trace, creating⟩ := ended.built
  obtain ⟨batches, pieces, _, builds, _⟩ := built.entries
  have length := pieces.length_eq
  rw [List.length_range] at length
  have produced (handed : Handed) : Produced q device env handed ↔
      ∃ i, ∃ inside : i < batches.length, handed = .batch batches[i].1 batches[i].2 := by
    rw [produced_iff, trace, builds]
    constructor
    · rintro ⟨no, member⟩
      obtain ⟨b, inside, same⟩ := List.mem_map.mp member
      obtain ⟨below, at_⟩ := List.mem_zipIdx' inside
      simp only [CopyEvent.build.injEq, Option.some.injEq] at same
      exact ⟨b.2, below, by rw [← same.2, at_]⟩
    · rintro ⟨i, inside, same⟩
      refine ⟨i, List.mem_map.mpr ⟨(batches[i], i), ?_, by rw [same]⟩⟩
      rw [List.mk_mem_zipIdx_iff_getElem?, List.getElem?_eq_getElem inside]
  have piece (i : Nat) (inside : i < batches.length) :
      Cut q i (.batch batches[i].1 batches[i].2) := by
    have same := pieces.get (show i < (List.range j).length by rw [List.length_range]; omega) inside
    simpa using same
  constructor
  · intro handed given
    obtain ⟨i, inside, same⟩ := (produced handed).mp given
    obtain ⟨due, succeeds⟩ := (creating i).mp (by omega)
    exact ⟨i, due, succeeds, same ▸ piece i inside⟩
  · intro i due succeeds
    have inside : i < batches.length := by
      have := (creating i).mpr ⟨due, succeeds⟩
      omega
    exact ⟨_, (produced _).mpr ⟨i, inside, rfl⟩, piece i inside⟩

theorem produced_single (single : ¬ (q.src.nents > 1 ∧ q.dst.nents > 1))
    (given : Produced q device env handed) : handed.descCount = none := by
  rw [produced_iff, building, if_neg single, buildPlain] at given
  obtain ⟨no, member⟩ := given
  split at member
  next src _ dst _ _ _ =>
    have trace (st : CopyState) (inside : CopyEvent.build no (some handed) ∈
        (addEntry q env st src dst).trace) (empty : st.trace = []) : handed.descCount = none := by
      simp only [addEntry, empty, List.nil_append, List.mem_singleton, CopyEvent.build.injEq] at inside
      obtain ⟨desc, made, same⟩ := Option.map_eq_some_iff.mp inside.2.symm
      rw [idxdDescDmaSubmitMemcpy] at made
      split at made
      next => contradiction
      next =>
        split at made
        next => contradiction
        next =>
          obtain ⟨g, _, shape⟩ := Option.map_eq_some_iff.mp made
          rw [← same, ← shape]
          rfl
    simp only [Building.state] at member
    split at member
    next => exact trace _ member rfl
    next => exact trace _ member rfl
  next => simp [Building.state, initial, copyInitial] at member

end BatchDevice

/-- Both batch modules make the last batch of a list with one sub-descriptor exactly where
the list leaves a remainder of one, and no other. -/
theorem no_degenerate_batch_iff (queues : List Queue) (grants : Nat → Option Grant)
    (limits : ∀ q ∈ queues, 2 ≤ q.wq.maxBatchSize) :
    ((∀ k handed descCount, HandedOver queues grants k handed →
        handed.descCount = some descCount → 2 ≤ descCount) ↔
      ∀ k q, queues[k]? = some q → 2 ≤ q.totalNents → q.totalNents % q.wq.maxBatchSize = 1 →
        ¬ Creating queues grants (q.totalNents / q.wq.maxBatchSize, k)) ∧
    ∀ (q : Queue) (device : Nat) (env : SingleDevice.CopyEnv), 2 ≤ q.wq.maxBatchSize →
      ((∀ handed descCount, BatchDevice.Produced q device env handed →
          handed.descCount = some descCount → 2 ≤ descCount) ↔
        (2 ≤ q.totalNents → q.totalNents % q.wq.maxBatchSize = 1 →
          ¬ BatchDevice.Creating q env (q.totalNents / q.wq.maxBatchSize))) := by
  constructor
  · constructor
    · intro enough k q found several remainder creating
      have ⟨q', handed, found', begun, piece, given⟩ := creating.handedOver
      rw [found, Option.some.injEq] at found'
      subst found'
      have count := piece.descCount
      rw [if_neg (by omega)] at count
      have short := (Queue.degenerate_iff (limits q (List.mem_of_getElem? found)) begun).mpr
        ⟨remainder, rfl⟩
      have two := enough k handed _ given count
      omega
    · intro condition k handed descCount given count
      have ⟨r, q, found, creating, piece⟩ := given.piece
      have ⟨q', _, found', begun, _⟩ := creating.handedOver
      rw [found, Option.some.injEq] at found'
      subst found'
      exact piece.two_le (limits q (List.mem_of_getElem? found)) begun count
        fun several remainder last => condition k q found several remainder (last ▸ creating)
  · intro q device env limit
    by_cases branch : q.src.nents > 1 ∧ q.dst.nents > 1
    · have ⟨pieces, made⟩ := BatchDevice.produced_several device env branch
      constructor
      · intro enough several remainder creating
        have begun := Queue.last_begun remainder
        have due := (q.shape.lt_descsEntries_batch _).mpr begun
        have ⟨handed, given, piece⟩ := made _ due creating
        have count := piece.descCount
        rw [if_neg (by omega)] at count
        have short := (Queue.degenerate_iff limit begun).mpr ⟨remainder, rfl⟩
        have two := enough handed _ given count
        omega
      · intro condition handed descCount given count
        have ⟨i, due, creating, piece⟩ := pieces handed given
        exact piece.two_le limit ((q.shape.lt_descsEntries_batch _).mp due) count
          fun several remainder last => condition several remainder (last ▸ creating)
    · have few : q.totalNents ≤ 1 := by
        have total : q.totalNents = min q.src.nents q.dst.nents := Shape.totalNents_eq_min q.shape
        omega
      constructor
      · intro _ several
        omega
      · intro _ handed descCount given count
        rw [BatchDevice.produced_single branch given] at count
        contradiction

theorem no_degenerate_batch_even :
    (∀ k handed descCount, HandedOver [alignedQueue] alwaysGranted k handed →
      handed.descCount = some descCount → 2 ≤ descCount) ∧
    ∀ handed descCount, BatchDevice.Produced alignedQueue 0 promptEnv handed →
      handed.descCount = some descCount → 2 ≤ descCount := by
  have limits : ∀ q ∈ [alignedQueue], 2 ≤ q.wq.maxBatchSize := by
    rw [List.forall_mem_singleton]
    decide
  have even : ¬ alignedQueue.totalNents % alignedQueue.wq.maxBatchSize = 1 := by decide
  have both := no_degenerate_batch_iff [alignedQueue] alwaysGranted limits
  constructor
  · apply both.1.mpr
    intro k q found _ remainder
    have here : q = alignedQueue := by simpa using List.mem_of_getElem? found
    exact absurd (here ▸ remainder) even
  · apply (both.2 alignedQueue 0 promptEnv (by decide)).mpr
    intro _ remainder
    exact absurd remainder even

/-- Three segments in batches of two leave a batch of one. -/
theorem degenerate_batch_three :
    (¬ ∀ (queues : List Queue) (grants : Nat → Option Grant),
      (∀ q ∈ queues, 1 ≤ q.totalNents ∧ 2 ≤ q.wq.maxBatchSize) → ∀ k handed descCount,
      HandedOver queues grants k handed → handed.descCount = some descCount → 2 ≤ descCount) ∧
    ¬ ∀ (q : Queue) (device : Nat) (env : SingleDevice.CopyEnv),
      1 ≤ q.totalNents → 2 ≤ q.wq.maxBatchSize → ∀ handed descCount,
      BatchDevice.Produced q device env handed → handed.descCount = some descCount →
        2 ≤ descCount := by
  constructor
  · intro claim
    have run : (submitAll [threeSegmentQueue] alwaysGranted .batch).map
        (fun st => st.handed.map fun p => (p.1, p.2.descCount)) =
        some [(0, some 2), (0, some 1)] := by decide
    have ⟨st, result, counts⟩ := Option.map_eq_some_iff.mp run
    have member : (0, some 1) ∈ st.handed.map fun p => (p.1, p.2.descCount) := by
      rw [counts]
      exact List.mem_cons_of_mem _ List.mem_cons_self
    have ⟨⟨k, handed⟩, given, same⟩ := List.mem_map.mp member
    rw [Prod.mk.injEq] at same
    have two := claim [threeSegmentQueue] alwaysGranted
      (by rw [List.forall_mem_singleton]; decide) k handed 1
      ⟨_, [], st, (List.append_nil _).symm, result, given⟩ same.2
    omega
  · intro claim
    have creating : BatchDevice.Creating threeSegmentQueue promptEnv 1 := by
      refine ⟨rfl, ?_⟩
      intro i early
      exact ⟨Nat.lt_of_le_of_lt early (by decide), promptEnv_serving.granted i⟩
    have ⟨handed, given, piece⟩ := (BatchDevice.produced_several (q := threeSegmentQueue) 0 promptEnv
      (by decide)).2 1 (by decide) creating
    have count := piece.descCount
    have two := claim threeSegmentQueue 0 promptEnv (by decide) (by decide) handed 1 given
      (by rw [count]; decide)
    omega

end DsaTest
