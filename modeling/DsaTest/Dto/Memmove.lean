import DsaTest.Dto.Copy

/-! Which calls of `memcpy` and `memmove` leave the memory that the plain function leaves. -/
namespace DsaTest.Dto

open CString (Memory moveEach moveEach_self memmove_forward_iff memmove_backward memmove_zero
  memmove_self memmove_again_iff)

variable {knobs : Knobs} {device : MoveDevice knobs.maxTransferSize} {isMemcpy : Bool}
  {dest src n turn len : Nat} {job : MoveJob} {reply : MoveReply} {mem : Memory} {p : Progress}
  {maxTransferSize : Nat}

theorem dtoMemcpymove_forward (clean : device.Clean) (safe : dest ≤ src ∨ src + n ≤ dest)
    (apart : isMemcpy = true → src + n ≤ dest ∨ dest + n ≤ src) (direction : Nat) :
    ∃ q, dtoMemcpymove knobs device isMemcpy dest src n ⟨mem, 0, direction, .success⟩ = some q ∧
      finishMove dest src n q = CString.memmove mem dest src n := by
  obtain ⟨q, result, so⟩ := dtoMemcpymove_rule (P := Prefix dest src n mem)
    (fun _ bound so fits => movePiece_extends clean safe apart bound so fits) direction
    ⟨(memmove_zero mem dest src).symm, Nat.zero_le n, .inl rfl⟩
  exact ⟨q, result, so.finish safe⟩

theorem dtoMemcpymove_apart (device : MoveDevice knobs.maxTransferSize)
    (apart : src + n ≤ dest ∨ dest + n ≤ src ∨
      knobs.maxTransferSize < n - cpuSize knobs isMemcpy dest src 0 n ∧ dest + knobs.threshold ≤ src)
    (direction : Nat) :
    ∃ q, dtoMemcpymove knobs device isMemcpy dest src n ⟨mem, 0, direction, .success⟩ = some q ∧
      finishMove dest src n q = CString.memmove mem dest src n := by
  have short {len : Nat} (part : knobs.IsPiece isMemcpy dest src n len) (fits : len ≤ n) :
      src + n ≤ dest ∨ dest + len ≤ src := by
    unfold Knobs.IsPiece at part
    omega
  obtain ⟨q, result, so⟩ := dtoMemcpymove_rule (P := Copied dest src n mem)
    (fun part bound so fits => movePiece_copies
      (short part (Nat.le_trans (Nat.le_add_left _ _) fits)) bound so fits) direction
    ⟨fun o below => absurd below (Nat.not_lt_zero o), fun _ _ _ => rfl, fun _ _ => rfl,
      Nat.zero_le n, .inl rfl⟩
  exact ⟨q, result, so.finish⟩

theorem dtoMemcpymove_self (device : MoveDevice knobs.maxTransferSize) (direction : Nat) :
    ∃ q, dtoMemcpymove knobs device isMemcpy dest dest n ⟨mem, 0, direction, .success⟩ = some q ∧
      finishMove dest dest n q = CString.memmove mem dest dest n := by
  obtain ⟨q, result, so⟩ := dtoMemcpymove_rule (P := fun p => p.mem = mem) (fun _ bound so _ => by
      rcases movePiece_cases device _ rfl bound with rejected | ⟨reply, -, -, result⟩
      · rw [rejected, so]
      · rw [result, moveEach_self, so]) direction rfl
  refine ⟨q, result, ?_⟩
  unfold finishMove
  split
  · split <;> rw [memmove_self, memmove_self, so]
  · rw [memmove_self, so]

theorem movePiece_untouched (device : MoveDevice knobs.maxTransferSize) (p : Progress)
    (none : cpuSize knobs isMemcpy dest src turn len = 0)
    (bound : len < 2 ^ 32) (refused : len = 0 ∨ knobs.maxTransferSize < len) :
    let q := movePiece knobs device isMemcpy dest src turn len p
    q.mem = p.mem ∧ q.done = p.done := by
  rcases movePiece_cases device p none bound with
    rejected | ⟨reply, answer, -, result⟩
  · rw [rejected]
    exact ⟨rfl, rfl⟩
  · have moved := Comp.moved_of_failed len (answer.refused refused)
    have order := answer.order_of_refused rfl refused
    rw [result]
    simp [order, moved, moveEach, Transfer.run]

theorem finishMove_untouched (none : p.done = 0) :
    finishMove dest src n p = CString.memmove p.mem dest src n := by
  rw [finishMove_eq (.inl none), none, Nat.add_zero, Nat.add_zero,
    Nat.sub_zero]

theorem cpuSize_overlapping (knobs : Knobs) (turn : Nat) (up : dest ≤ src + len)
    (down : src ≤ dest + len) : cpuSize knobs false dest src turn len = 0 := by
  have overlapping : isOverlappingBuffers dest src len = true := by
    unfold isOverlappingBuffers
    simp only [Bool.not_eq_true', Bool.or_eq_false_iff, decide_eq_false_iff_not]
    omega
  rw [cpuSize, overlapping]
  rfl

theorem movePiece_backward (clean : device.Clean) (ahead : src < dest) (meet : dest < src + n)
    (bound : n < 2 ^ 32) (direction : Nat) :
    finishMove dest src n (movePiece knobs device false dest src turn n
      ⟨mem, 0, direction, .success⟩) = CString.memmove mem dest src n := by
  rcases movePiece_cases device ⟨mem, 0, direction, .success⟩
    (cpuSize_overlapping knobs turn (Nat.le_of_lt meet) (by omega)) bound with
    rejected | ⟨reply, answer, errors, result⟩
  · rw [rejected]
    exact finishMove_untouched rfl
  · rw [result]
    simp only [Nat.zero_add, Nat.add_zero, Nat.sub_zero] at answer ⊢
    have within := answer.within
    simp only at within
    by_cases front : reply.comp.result = 0
    · have moves := answer.moves_front mem (errors clean) front (.inl rfl)
      have ends : reply.comp.moved n = 0 ∨ reply.comp.moved n = n := by
        by_contra part
        exact answer.backwards ⟨ahead, meet⟩ (by simp only; omega) (by simp only; omega) front
      simp only [Nat.zero_add] at moves
      cases ends with
      | inl none =>
        rw [finishMove_untouched none, moves, none, memmove_zero]
      | inr all =>
        rw [finishMove, if_neg (by simp [all]), moves, all]
    · have moves := answer.moves_back mem (errors clean) front rfl
      simp only at moves
      rw [finishMove]
      dsimp only
      rw [if_neg front]
      split
      next =>
        rw [moves, memmove_backward (Nat.le_of_lt ahead), Nat.sub_add_cancel within]
      next all =>
        rw [moves, Decidable.not_not.mp all, Nat.sub_self]
        rfl

/-- The copy is cut, and something of the first piece is done before the rest of the source,
which it overwrites, is read. -/
def Clobbers (knobs : Knobs) (dest src n : Nat) : Prop :=
  (src < dest ∧ dest < src + n) ∧
  knobs.route n = .device ∧
  (knobs.maxTransferSize < n ∧ 0 < knobs.threshold ∧ knobs.threshold < n) ∧
  (0 < cpuSize knobs false dest src 1 knobs.threshold ∨
    knobs.threshold ≤ knobs.maxTransferSize)

instance (knobs : Knobs) (dest src n : Nat) : Decidable (Clobbers knobs dest src n) :=
  inferInstanceAs (Decidable (_ ∧ _))

theorem dtoMemcpymove_untouched (device : MoveDevice knobs.maxTransferSize) (mem : Memory)
    (up : dest ≤ src + n) (down : src ≤ dest + n) (cut : knobs.maxTransferSize < n)
    (refused : 0 < knobs.threshold → knobs.threshold < n →
      cpuSize knobs false dest src 1 knobs.threshold = 0 ∧ knobs.maxTransferSize < knobs.threshold)
    (direction : Nat) :
    ∃ q, dtoMemcpymove knobs device false dest src n ⟨mem, 0, direction, .success⟩ = some q ∧
      finishMove dest src n q = CString.memmove mem dest src n := by
  obtain ⟨size, piece⟩ : ∃ size, (if n ≤ knobs.threshold then n else knobs.threshold) = size :=
    ⟨_, rfl⟩
  have bound : size < 2 ^ 32 := by
    have := knobs.threshold_bound
    split at piece <;> omega
  have none : cpuSize knobs false dest src 1 size = 0 ∧
      (size = 0 ∨ knobs.maxTransferSize < size) := by
    split at piece
    next => exact ⟨piece ▸ cpuSize_overlapping knobs _ up down, by omega⟩
    next long =>
      rw [← piece]
      rcases Nat.eq_zero_or_pos knobs.threshold with zero | some
      · rw [zero]
        exact ⟨Nat.le_zero.mp cpuSize_le, .inl rfl⟩
      · obtain ⟨alone, large⟩ := refused some (Nat.lt_of_not_le long)
        exact ⟨alone, .inr large⟩
  have same := movePiece_untouched device ⟨mem, 0, direction, .success⟩ none.1 bound none.2
  have stops : (movePiece knobs device false dest src 1 size ⟨mem, 0, direction, .success⟩).result ≠
      .success := movePiece_refused (by omega) (by omega)
  refine ⟨movePiece knobs device false dest src 1 size ⟨mem, 0, direction, .success⟩, ?_, ?_⟩
  · rw [dtoMemcpymove, if_neg (by rw [cpuSize_overlapping knobs _ up down]; omega), Pieces.pieces]
    simp [piece, stops]
  · rw [finishMove_untouched same.2, same.1]

theorem dtoMemcpymove_cut (device : MoveDevice knobs.maxTransferSize) (mem : Memory)
    (ahead : src < dest) (meet : dest < src + n) (offloaded : knobs.route n = .device)
    (cut : knobs.maxTransferSize < n) (safe : ¬ Clobbers knobs dest src n) (direction : Nat) :
    ∃ q, dtoMemcpymove knobs device false dest src n ⟨mem, 0, direction, .success⟩ = some q ∧
      finishMove dest src n q = CString.memmove mem dest src n := by
  refine dtoMemcpymove_untouched device mem (Nat.le_of_lt meet) (by omega) cut
    (fun some long => ?_) direction
  have idle : ¬ (0 < cpuSize knobs false dest src 1 knobs.threshold ∨
      knobs.threshold ≤ knobs.maxTransferSize) := fun taken =>
    safe ⟨⟨ahead, meet⟩, offloaded, ⟨cut, some, long⟩, taken⟩
  omega

def MoveReply.front (comp : Comp) (size : Nat) (job : MoveJob) : MoveReply where
  comp := comp
  moved := List.range' job.cpu size
  order :=
    if job.dest ≤ job.src then List.range (job.cpu + size)
    else (List.range (job.cpu + size)).reverse

theorem MoveReply.front_fits {comp : Comp} {size : Nat} (fits : comp.Fits maxTransferSize job.dsa)
    (front : comp.result = 0) (moved : ¬ comp.Failed → size = comp.moved job.dsa)
    (whole : comp.moved job.dsa = 0 ∨ comp.moved job.dsa = job.dsa) (inside : size ≤ job.dsa)
    (large : maxTransferSize < job.dsa → size = 0) :
    (MoveReply.front comp size job).Fits maxTransferSize job where
  toFits := fits
  direction back := absurd front back
  backwards _ some part := by
    simp only [MoveReply.front] at some part
    omega
  inside o member := by
    have member := List.mem_range'_1.mp member
    omega
  large much := by rw [MoveReply.front, large much, List.range'_zero]
  reported answered := by
    rw [MoveJob.portion]
    simp only [MoveReply.front, front, if_true, moved answered]
    exact List.Perm.refl _
  copied := by
    simp only [MoveReply.front, CString.range_append_range']
    split
    · exact List.Perm.refl _
    · exact List.reverse_perm _
  careful := by
    apply List.Pairwise.filter
    simp only [MoveReply.front]
    split
    next behind => exact CString.careful_range behind _
    next ahead => exact CString.careful_reverse (Nat.lt_of_not_le ahead) _

def MoveReply.obliging (maxTransferSize : Nat) (job : MoveJob) : MoveReply :=
  let comp := Comp.obliging maxTransferSize job.dsa
  .front comp (comp.moved job.dsa) job

theorem MoveReply.obliging_comp :
    (obliging maxTransferSize job).comp = .obliging maxTransferSize job.dsa := rfl

theorem MoveReply.obliging_fits : (obliging maxTransferSize job).Fits maxTransferSize job := by
  refine MoveReply.front_fits (Comp.obliging_fits _ _) Comp.obliging_result (fun _ => rfl) ?_
    (Comp.obliging_fits _ _).within fun much => ?_
  · rw [Comp.obliging_moved]
    split
    next => exact .inr rfl
    next => exact .inl rfl
  · rw [Comp.obliging_moved, if_neg (by omega)]

theorem MoveReply.obliging_clean : (obliging maxTransferSize job).Clean := by
  intro failed
  have moved := Comp.moved_of_failed job.dsa failed
  rw [obliging_comp] at moved
  simp only [obliging, MoveReply.front, moved, List.range'_zero]

def MoveDevice.full (maxTransferSize : Nat) : MoveDevice maxTransferSize where
  retry turn _ := 1 < turn
  reply _ := .obliging maxTransferSize
  fits _ _ := MoveReply.obliging_fits

theorem MoveDevice.full_clean : (full maxTransferSize).Clean := fun _ _ => MoveReply.obliging_clean

theorem dtoMemcpymove_full (clobbers : Clobbers knobs dest src n) :
    ∃ left, 0 < left ∧ left < n ∧ ∀ mem, ∃ q,
      dtoMemcpymove knobs (.full _) false dest src n ⟨mem, 0, 0, .success⟩ = some q ∧
      q.mem = CString.memmove mem dest src left ∧ q.done = left ∧ q.direction = 0 := by
  obtain ⟨⟨ahead, meet⟩, -, ⟨cut, some, long⟩, taken⟩ := clobbers
  obtain ⟨cpu, own⟩ : ∃ cpu, cpuSize knobs false dest src 1 knobs.threshold = cpu := ⟨_, rfl⟩
  have split : cpu ≤ knobs.threshold := own ▸ cpuSize_le
  have alone : cpu = 0 ∨ src + knobs.threshold ≤ dest ∨ dest + knobs.threshold ≤ src :=
    own ▸ cpuSize_apart fun copy => nomatch copy
  have bound : knobs.threshold - cpu < 2 ^ 32 :=
    Nat.lt_of_le_of_lt (Nat.sub_le _ _) knobs.threshold_bound
  rw [own] at taken
  let reply := MoveReply.obliging knobs.maxTransferSize ⟨dest, src, cpu, knobs.threshold - cpu⟩
  have fits : reply.Fits knobs.maxTransferSize ⟨dest, src, cpu, knobs.threshold - cpu⟩ :=
    MoveReply.obliging_fits
  have moved : reply.comp.moved (knobs.threshold - cpu) =
      if 0 < knobs.threshold - cpu ∧ knobs.threshold - cpu ≤ knobs.maxTransferSize then
        knobs.threshold - cpu
      else 0 := Comp.obliging_moved
  refine ⟨cpu + reply.comp.moved (knobs.threshold - cpu), ?_, ?_, fun mem => ?_⟩
  · rw [moved]
    split <;> omega
  · have within := fits.within
    dsimp only at within
    omega
  · have first := movePiece_of_accepted (.full knobs.maxTransferSize) ⟨mem, 0, 0, .success⟩
      own bound rfl reply rfl
    have moves := fits.moves_front mem MoveReply.obliging_clean Comp.obliging_result
      (by dsimp only; omega)
    simp only [Nat.add_zero, Nat.zero_add, moves] at first
    rw [dtoMemcpymove, if_neg (by rw [cpuSize_overlapping knobs _ (by omega) (by omega)]; omega),
      Pieces.pieces, if_neg (Nat.not_le.mpr long)]
    simp only [first]
    split
    next => exact ⟨_, rfl, rfl, rfl, Comp.obliging_result⟩
    next =>
      split
      next =>
        obtain ⟨m, rfl⟩ := Nat.exists_eq_add_of_lt long
        rw [Pieces.pieces, movePiece_of_rejected rfl]
        exact ⟨_, rfl, rfl, rfl, Comp.obliging_result⟩
      next => exact ⟨_, rfl, rfl, rfl, Comp.obliging_result⟩

theorem safe_of_right
    (right : ∀ mem, memmove knobs (.full _) dest src n 0 mem = some (CString.memmove mem dest src n)) :
    knobs.route n ≠ .divides ∧ ¬ Clobbers knobs dest src n := by
  constructor
  · intro divides
    have dead := right fun _ => 0
    rw [memmove, memcpymove, divides] at dead
    contradiction
  · intro clobbers
    obtain ⟨left, some, part, copied⟩ := dtoMemcpymove_full clobbers
    obtain ⟨⟨ahead, meet⟩, offloaded, _⟩ := clobbers
    have same : ∀ mem, CString.memmove (CString.memmove mem dest src left) (dest + left)
        (src + left) (n - left) = CString.memmove mem dest src (left + (n - left)) := by
      intro mem
      obtain ⟨q, result, moved, done, front⟩ := copied mem
      have whole := right mem
      simp only [memmove, memcpymove, offloaded, result, Option.map_some, Option.some.injEq] at whole
      rw [finishMove_eq (.inr front), moved, done] at whole
      rw [whole, Nat.add_sub_of_le (Nat.le_of_lt part)]
    have safe := memmove_forward_iff.mp same
    omega

/-- `memmove` is right on every memory unless the copy clobbers or the process dies, with every
device that has moved nothing when it reports an error. -/
theorem memmove_iff (knobs : Knobs) (dest src n : Nat) :
    (∀ device : MoveDevice knobs.maxTransferSize, device.Clean → ∀ direction mem,
      memmove knobs device dest src n direction mem = some (CString.memmove mem dest src n)) ↔
    knobs.route n ≠ .divides ∧ ¬ Clobbers knobs dest src n := by
  constructor
  · intro right
    exact safe_of_right fun mem => right (.full _) MoveDevice.full_clean 0 mem
  · rintro ⟨alive, safe⟩ device clean direction mem
    refine memcpymove_of_device alive fun offloaded => ?_
    by_cases front : dest ≤ src ∨ src + n ≤ dest
    · have forward (copy : false = true) : src + n ≤ dest ∨ dest + n ≤ src := nomatch copy
      exact dtoMemcpymove_forward clean front forward direction
    rw [not_or, Nat.not_le, Nat.not_le] at front
    by_cases cut : knobs.maxTransferSize < n
    · exact dtoMemcpymove_cut device mem front.1 front.2 offloaded cut safe direction
    · rw [dtoMemcpymove, if_pos (by
        rw [cpuSize_overlapping knobs _ (by omega) (by omega)]; omega)]
      exact ⟨_, rfl, movePiece_backward clean front.1 front.2 (Nat.lt_of_le_of_lt (Nat.not_lt.mp cut)
        knobs.max_bound) direction⟩

/-- Two pieces of two megabytes, one page up. -/
example : Clobbers
    { entry := initDto ⟨false, none, 1⟩, library := initDto ⟨false, none, 1⟩
      initializing := true, setup := ⟨false, none, 1⟩
      maxTransferSize := 0x200000, threshold := 0x200000
      dsaMinSize := fun _ => 8192, share := fun _ _ => 0
      share_le := fun _ => Nat.zero_le, max_bound := by decide, threshold_bound := by decide }
    0x1000 0 0x400000 := by decide

/-- The device can fail with the first piece after it has overwritten some of the source, from
which the plain function then copies everything. -/
def Spoils (knobs : Knobs) (dest src n : Nat) : Prop :=
  (dest ≠ src ∧ dest < src + n ∧ src < dest + n) ∧
  knobs.route n = .device ∧
  (n ≤ knobs.maxTransferSize ∨
    dest < src ∧ src < dest + knobs.threshold ∧ knobs.threshold < n ∧
      knobs.threshold ≤ knobs.maxTransferSize)

instance (knobs : Knobs) (dest src n : Nat) : Decidable (Spoils knobs dest src n) :=
  inferInstanceAs (Decidable (_ ∧ _))

def MoveDevice.late (maxTransferSize : Nat) : MoveDevice maxTransferSize where
  retry _ _ := false
  reply _ job := .front ⟨0x10, 0, 0⟩ (if job.dsa ≤ maxTransferSize then job.dsa else 0) job
  fits _ job := by
    have failed : Comp.Failed ⟨0x10, 0, 0⟩ := by decide
    have none := Comp.moved_of_failed job.dsa failed
    refine MoveReply.front_fits ⟨by decide, by omega, fun _ => failed⟩ rfl (absurd failed)
      (.inl none) ?_ fun much => if_neg (Nat.not_le.mpr much)
    split <;> omega

theorem movePiece_late (mem : Memory) (own : cpuSize knobs isMemcpy dest src turn len = 0)
    (taken : len ≤ knobs.maxTransferSize) :
    movePiece knobs (.late _) isMemcpy dest src turn len ⟨mem, 0, 0, .success⟩ =
      ⟨CString.memmove mem dest src len, 0, 0, .failOthers⟩ := by
  have moved := Comp.moved_of_failed len (by decide : Comp.Failed ⟨0x10, 0, 0⟩)
  have copied : dtoInternalMemcpymove dest src len mem = _ := dtoInternalMemcpymove_eq
  rw [dtoInternalMemcpymove] at copied
  rw [movePiece_of_accepted (.late _) ⟨mem, 0, 0, .success⟩ own
    (Nat.lt_of_le_of_lt taken knobs.max_bound) rfl _ rfl]
  simp only [MoveDevice.late, MoveReply.front, Nat.add_zero, Nat.sub_zero, Nat.zero_add, if_pos taken,
    copied, moved]
  rfl

theorem dtoMemcpymove_late (spoils : Spoils knobs dest src n) :
    ∃ size, 0 < size ∧ size ≤ n ∧ src < dest + size ∧ ∀ mem, ∃ q,
      dtoMemcpymove knobs (.late _) false dest src n ⟨mem, 0, 0, .success⟩ = some q ∧
      finishMove dest src n q =
        CString.memmove (CString.memmove mem dest src size) dest src n := by
  obtain ⟨⟨differ, up, down⟩, -, way⟩ := spoils
  have whole := cpuSize_overlapping knobs 0 (Nat.le_of_lt up) (Nat.le_of_lt down)
  by_cases once : n ≤ knobs.maxTransferSize
  · refine ⟨n, by omega, Nat.le_refl n, down, fun mem =>
      ⟨⟨CString.memmove mem dest src n, 0, 0, .failOthers⟩, ?_, finishMove_untouched rfl⟩⟩
    rw [dtoMemcpymove, if_pos (by omega), movePiece_late mem whole once]
  · obtain ⟨behind, reach, long, taken⟩ := way.resolve_left once
    have own : cpuSize knobs false dest src 1 knobs.threshold = 0 :=
      cpuSize_overlapping knobs 1 (by omega) (Nat.le_of_lt reach)
    refine ⟨knobs.threshold, by omega, Nat.le_of_lt long, reach, fun mem =>
      ⟨⟨CString.memmove mem dest src knobs.threshold, 0, 0, .failOthers⟩, ?_,
        finishMove_untouched rfl⟩⟩
    rw [dtoMemcpymove, if_neg (by omega), Pieces.pieces, if_neg (Nat.not_le.mpr long)]
    simp only [movePiece_late mem own taken]
    rfl

theorem dtoMemcpymove_any (device : MoveDevice knobs.maxTransferSize) (mem : Memory)
    (offloaded : knobs.route n = .device) (safe : ¬ Clobbers knobs dest src n)
    (kept : ¬ Spoils knobs dest src n) (direction : Nat) :
    ∃ q, dtoMemcpymove knobs device false dest src n ⟨mem, 0, direction, .success⟩ = some q ∧
      finishMove dest src n q = CString.memmove mem dest src n := by
  by_cases same : dest = src
  · subst same
    exact dtoMemcpymove_self device direction
  by_cases apart : src + n ≤ dest ∨ dest + n ≤ src
  · exact dtoMemcpymove_apart device (by omega) direction
  have cut : knobs.maxTransferSize < n := by
    by_contra once
    exact kept ⟨by omega, offloaded, .inl (Nat.le_of_not_lt once)⟩
  rcases Nat.lt_or_gt_of_ne same with behind | ahead
  · have whole := cpuSize_overlapping knobs 0 (by omega : dest ≤ src + n) (by omega)
    by_cases reach : src < dest + knobs.threshold
    · refine dtoMemcpymove_untouched device mem (by omega) (by omega) cut (fun _ long => ?_) direction
      refine ⟨cpuSize_overlapping knobs 1 (by omega) (Nat.le_of_lt reach), ?_⟩
      by_contra taken
      exact kept ⟨by omega, offloaded, .inr ⟨behind, reach, long, Nat.le_of_not_lt taken⟩⟩
    · exact dtoMemcpymove_apart device (.inr (.inr (by omega))) direction
  · exact dtoMemcpymove_cut device mem ahead (by omega) offloaded cut safe direction

/-- `memmove` is right on every memory and with every device, whatever an error leaves, unless
the copy clobbers, the process dies, or such an error spoils the source. -/
theorem memmove_errors_iff (knobs : Knobs) (dest src n : Nat) :
    (∀ (device : MoveDevice knobs.maxTransferSize) (direction : Nat) (mem : Memory),
      memmove knobs device dest src n direction mem = some (CString.memmove mem dest src n)) ↔
    knobs.route n ≠ .divides ∧ ¬ Clobbers knobs dest src n ∧ ¬ Spoils knobs dest src n := by
  constructor
  · intro right
    obtain ⟨alive, safe⟩ := safe_of_right fun mem => right (.full _) 0 mem
    refine ⟨alive, safe, fun spoils => ?_⟩
    obtain ⟨size, some, part, reach, copied⟩ := dtoMemcpymove_late spoils
    obtain ⟨⟨differ, up, -⟩, offloaded, -⟩ := spoils
    have again : ∀ mem, CString.memmove (CString.memmove mem dest src size) dest src n =
        CString.memmove mem dest src n := by
      intro mem
      obtain ⟨q, result, finished⟩ := copied mem
      have whole := right (.late _) 0 mem
      simp only [memmove, memcpymove, offloaded, result, Option.map_some, Option.some.injEq] at whole
      rw [← whole, finished]
    have apart := (memmove_again_iff part).mp again
    omega
  · rintro ⟨alive, safe, kept⟩ device direction mem
    exact memcpymove_of_device alive fun offloaded =>
      dtoMemcpymove_any device mem offloaded safe kept direction

/-- `memcpy` of buffers apart is right with every device, where the process lives. -/
theorem memcpy_apart (knobs : Knobs) (device : MoveDevice knobs.maxTransferSize)
    (dest src n direction : Nat) (mem : Memory) (apart : src + n ≤ dest ∨ dest + n ≤ src) :
    memcpy knobs device dest src n direction mem =
      if knobs.route n = .divides then none else some (CString.memmove mem dest src n) := by
  split
  next divides => rw [memcpy, memcpymove, divides]
  next alive =>
    exact memcpymove_of_device alive fun _ => dtoMemcpymove_apart device (by omega) direction

/-- Half of every piece of at most eight bytes is left to the device, which is full after two. -/
theorem memcpy_apart_halves :
    memcpy
      { entry := initDto ⟨false, some 2, 1⟩, library := initDto ⟨false, some 2, 1⟩
        initializing := true, setup := ⟨false, some 2, 1⟩
        maxTransferSize := 4, threshold := 8
        dsaMinSize := fun _ => 2, share := fun _ len => len / 2
        share_le := fun _ len => Nat.div_le_self len 2, max_bound := by decide
        threshold_bound := by decide }
      (.full 4) 0 100 30 1 (fun a => UInt8.ofNat a) =
      some (CString.memmove (fun a => UInt8.ofNat a) 0 100 30) :=
  memcpy_apart _ _ 0 100 30 1 _ (by decide)

end DsaTest.Dto
