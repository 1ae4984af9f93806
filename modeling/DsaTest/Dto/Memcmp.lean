import DsaTest.Dto.Copy

/-! `memcmp` of `dto.c`. Where the device reports a mismatch, the result is taken from the
first bytes behind the piece that it has compared, not from those that differ. -/
namespace DsaTest.Dto

open CString (Memory FirstDifference memcmp_of_first memcmp_drop memcmp_eq_zero_iff
  firstDifference_of_differ)
open SingleDevice (dsaCompSuccess)

structure CompareJob where
  src1 : Nat
  src2 : Nat
  size : Nat

/-- How a device may answer: `comp.result` is 0 as long as it has found no difference. -/
structure CompareJob.Fits (maxTransferSize : Nat) (mem : Memory) (job : CompareJob) (comp : Comp) :
    Prop extends comp.Fits maxTransferSize job.size where
  mismatch : comp.result ≠ 0 → comp.status = dsaCompSuccess ∧
    ∃ o < job.size, mem (job.src1 + o) ≠ mem (job.src2 + o)
  matching : comp.result = 0 → ∀ o < comp.moved job.size, mem (job.src1 + o) = mem (job.src2 + o)

structure CompareDevice (maxTransferSize : Nat) where
  retry : Nat → Nat → Bool
  reply : Nat → Memory → CompareJob → Comp
  fits : ∀ turn mem (job : CompareJob), job.Fits maxTransferSize mem (reply turn mem job)

/-- `mismatch` is `thr_comp.result`. -/
structure Compared where
  done : Nat
  mismatch : Nat
  result : ReturnCode

/-- `thr_bytes_completed`, `thr_comp.result` and the code; nothing is written of a descriptor
that is not accepted. -/
def dsaExecute (retry : Nat → Bool) (comp : Comp) (xferSize : Nat) (p : Compared) : Compared :=
  match dsaSubmit retry with
  | .success =>
    let (result, done) := dsaWait comp xferSize p.done
    ⟨done, comp.result, result⟩
  | code => { p with result := code }

section

variable (knobs : Knobs) (device : CompareDevice knobs.maxTransferSize) (s1 s2 : Nat) (mem : Memory)

def comparePiece (turn len : Nat) (p : Compared) : Compared :=
  let job : CompareJob := ⟨s1 + p.done, s2 + p.done, len % 2 ^ 32⟩
  dsaExecute (device.retry turn) (device.reply turn mem job) job.size p

def difference (o : Nat) : Int := (mem (s1 + o)).toNat - (mem (s2 + o)).toNat

/-- What `dto_memcmp` returns, and `thr_bytes_completed` afterwards. -/
def compareResult (n : Nat) (p : Compared) : Int × Nat :=
  if p.mismatch ≠ 0 then (difference s1 s2 mem p.done, n) else (0, p.done)

def dtoMemcmp (n : Nat) : Option (Int × Nat) :=
  let start : Compared := ⟨0, 0, .success⟩
  if n ≤ knobs.maxTransferSize then
    some (compareResult s1 s2 mem n (comparePiece knobs device s1 s2 mem 1 n start))
  else
    (Pieces.pieces (comparePiece knobs device s1 s2 mem)
      (fun p => p.result ≠ .success || p.mismatch ≠ 0) knobs.maxTransferSize knobs.dsaMinSize
      (n + 1) 1 n start).map (compareResult s1 s2 mem n)

def origMemcmp (front n : Nat) : Int :=
  CString.memcmp (fun o => mem (s1 + front + o)) (fun o => mem (s2 + front + o)) n

def finishCompare (n : Nat) (p : Int × Nat) : Int :=
  if p.2 ≠ n then origMemcmp s1 s2 mem p.2 (n - p.2) else p.1

def dtoInternalMemcmp (n : Nat) : Int :=
  match (List.range n).find? fun i => mem (s1 + i) ≠ mem (s2 + i) with
  | some i => difference s1 s2 mem i
  | none => 0

/-- Nothing is returned where the process dies. -/
def memcmp (n : Nat) : Option Int :=
  match knobs.route n with
  | .internal => some (dtoInternalMemcmp s1 s2 mem n)
  | .original => some (origMemcmp s1 s2 mem 0 n)
  | .divides => none
  | .device => (dtoMemcmp knobs device s1 s2 mem n).map (finishCompare s1 s2 mem n)

end

/-- The piece with number `i` is given to the device when nothing goes wrong before it. -/
def Reached (knobs : Knobs) (n i : Nat) : Prop :=
  0 < knobs.maxTransferSize ∧
  ∀ j < i, knobs.dsaMinSize (j + 1) ≤ n - (j + 1) * knobs.maxTransferSize

def pieceEnd (knobs : Knobs) (n o : Nat) : Nat :=
  min n ((o / knobs.maxTransferSize + 1) * knobs.maxTransferSize)

abbrev DifferAt (mem : Memory) (s1 s2 n k : Nat) : Prop :=
  FirstDifference (fun o => mem (s1 + o)) (fun o => mem (s2 + o)) n k

variable {knobs : Knobs} {device : CompareDevice knobs.maxTransferSize}
  {s1 s2 n turn len done i k : Nat} {mem : Memory} {p : Compared}

theorem dsaExecute_cases (retry : Nat → Bool) (comp : Comp) (xferSize : Nat) (p : Compared) :
    dsaExecute retry comp xferSize p = { p with result := .retries } ∨
    dsaExecute retry comp xferSize p =
      ⟨p.done + comp.moved xferSize, comp.result, (dsaWait comp xferSize p.done).1⟩ := by
  unfold dsaExecute
  rcases dsaSubmit_cases retry with accepted | rejected
  · exact .inr (by simp only [accepted, ← dsaWait_snd])
  · exact .inl (by simp only [rejected])

structure Matching (mem : Memory) (s1 s2 : Nat) (p : Compared) : Prop where
  same : ∀ o < p.done, mem (s1 + o) = mem (s2 + o)
  none : p.mismatch = 0

theorem comparePiece_cases {q : Compared}
    (piece : comparePiece knobs device s1 s2 mem turn len p = q) (bound : len < 2 ^ 32)
    (so : Matching mem s1 s2 p) (fits : p.done + len ≤ n) :
    (len = 0 → q.result ≠ .success) ∧
    ((Matching mem s1 s2 q ∧ q.done ≤ p.done + len ∧
        (q.result = .success → q.done = p.done + len)) ∨
      (q.mismatch ≠ 0 ∧ q.done = p.done + len ∧
        ∃ k, p.done ≤ k ∧ k < p.done + len ∧ DifferAt mem s1 s2 n k)) := by
  have answer := device.fits turn mem ⟨s1 + p.done, s2 + p.done, len⟩
  have within := answer.within
  rw [comparePiece] at piece
  simp only [Nat.mod_eq_of_lt bound] at piece
  generalize device.reply turn mem ⟨s1 + p.done, s2 + p.done, len⟩ = comp at *
  dsimp only at within
  rcases dsaExecute_cases (device.retry turn) comp len p with
    rejected | answered
  · rw [← piece, rejected]
    exact ⟨fun _ success => (nomatch success), .inl ⟨⟨so.same, so.none⟩, Nat.le_add_right _ _,
      fun success => (nomatch success)⟩⟩
  rw [← piece, answered]
  refine ⟨fun none => answer.stopped (.inl none), ?_⟩
  dsimp only
  by_cases match_ : comp.result = 0
  · refine .inl ⟨⟨fun o below => ?_, match_⟩, by omega, fun success => ?_⟩
    · by_cases old : o < p.done
      · exact so.same o old
      · obtain ⟨x, rfl⟩ := Nat.exists_eq_add_of_le (Nat.not_lt.mp old)
        have same := answer.matching match_ x (by dsimp only at below ⊢; omega)
        simpa only [Nat.add_assoc] using same
    · rw [dsaWait_success_iff] at success
      rw [Comp.moved_of_success success]
  · obtain ⟨success, x, inside, differ⟩ := answer.mismatch match_
    rw [Comp.moved_of_success success]
    refine .inr ⟨match_, rfl, ?_⟩
    dsimp only at inside differ
    have behind : mem (s1 + (p.done + x)) ≠ mem (s2 + (p.done + x)) := by
      simpa only [Nat.add_assoc] using differ
    obtain ⟨k, early, first⟩ := firstDifference_of_differ (a := fun o => mem (s1 + o))
      (b := fun o => mem (s2 + o)) (by omega : p.done + x < n) behind
    refine ⟨k, ?_, by omega, first⟩
    by_contra old
    exact first.differ (so.same k (Nat.lt_of_not_le old))

theorem pieceEnd_eq (k : Nat) {size : Nat} (piece : size = min (n - i * knobs.maxTransferSize)
    knobs.maxTransferSize) (low : i * knobs.maxTransferSize ≤ k)
    (high : k < i * knobs.maxTransferSize + size) :
    k / knobs.maxTransferSize = i ∧ pieceEnd knobs n k = i * knobs.maxTransferSize + size := by
  have next : (i + 1) * knobs.maxTransferSize =
      i * knobs.maxTransferSize + knobs.maxTransferSize := Nat.succ_mul _ _
  have number : k / knobs.maxTransferSize = i := Nat.div_eq_of_lt_le low (by omega)
  refine ⟨number, ?_⟩
  rw [pieceEnd, number]
  omega

def Outcome (knobs : Knobs) (mem : Memory) (s1 s2 n : Nat) (p : Compared) : Prop :=
  (Matching mem s1 s2 p ∧ p.done ≤ n) ∨
  (p.mismatch ≠ 0 ∧ ∃ k, DifferAt mem s1 s2 n k ∧ Reached knobs n (k / knobs.maxTransferSize) ∧
    p.done = pieceEnd knobs n k)

structure Comparing (knobs : Knobs) (mem : Memory) (s1 s2 n turn left : Nat) (p : Compared) (i : Nat) :
    Prop extends Matching mem s1 s2 p where
  number : turn = i + 1
  done : p.done = min n (i * knobs.maxTransferSize)
  rest : p.done + left = n
  reached : 0 < knobs.maxTransferSize → Reached knobs n i

theorem Comparing.piece {left size : Nat} {q : Compared}
    (so : Comparing knobs mem s1 s2 n turn left p i) (piece : size = min left knobs.maxTransferSize)
    (run : comparePiece knobs device s1 s2 mem turn size p = q) :
    Outcome knobs mem s1 s2 n q ∧
      (q.result = .success → q.mismatch = 0 → knobs.dsaMinSize turn ≤ left - size →
        Comparing knobs mem s1 s2 n (turn + 1) (left - size) q (i + 1)) := by
  have done := so.done
  have rest := so.rest
  have max := knobs.max_bound
  obtain ⟨-, cases⟩ := comparePiece_cases run (by omega) so.toMatching
    (by omega : p.done + size ≤ n)
  rcases cases with ⟨kept, within, exact⟩ | ⟨found, ends, k, low, high, first⟩
  · refine ⟨.inl ⟨kept, by omega⟩, fun success _ more => ?_⟩
    have next : (i + 1) * knobs.maxTransferSize =
        i * knobs.maxTransferSize + knobs.maxTransferSize := Nat.succ_mul _ _
    have taken := exact success
    refine ⟨kept, by rw [so.number], by omega, by omega, fun some => ⟨some, fun j below => ?_⟩⟩
    rcases Nat.lt_succ_iff_lt_or_eq.mp below with earlier | rfl
    · exact (so.reached some).2 j earlier
    · rw [so.number] at more
      omega
  · refine ⟨.inr ⟨found, k, first, ?_⟩, fun _ none => absurd none found⟩
    have whole : size = min (n - i * knobs.maxTransferSize) knobs.maxTransferSize := by omega
    obtain ⟨number, here⟩ := pieceEnd_eq k whole (by omega) (by omega)
    rw [number, here]
    exact ⟨so.reached (by omega), by omega⟩

theorem comparing_start : Comparing knobs mem s1 s2 n 1 n ⟨0, 0, .success⟩ 0 where
  same o below := absurd below (Nat.not_lt_zero o)
  none := rfl
  number := rfl
  done := by simp
  rest := Nat.zero_add n
  reached some := ⟨some, fun j below => absurd below (Nat.not_lt_zero j)⟩

def Compared.Goes (p : Compared) (least rest : Nat) : Prop :=
  p.result = .success ∧ p.mismatch = 0 ∧ least ≤ rest

/-- The rule for the loop: `J` holds behind the piece that ends it, `I` of the numbers of all
pieces. -/
theorem comparePieces_rule (device : CompareDevice knobs.maxTransferSize) (s1 s2 n : Nat)
    (mem : Memory) {I : Nat → Prop} {J : Compared → Prop} (first : I 0)
    (step : ∀ {turn left size p i} q, Comparing knobs mem s1 s2 n turn left p i → I i →
      size = min left knobs.maxTransferSize →
      comparePiece knobs device s1 s2 mem turn size p = q →
      (¬ q.Goes (knobs.dsaMinSize turn) (left - size) → J q) ∧
      (q.Goes (knobs.dsaMinSize turn) (left - size) → I (i + 1))) :
    ∃ q, Pieces.pieces (comparePiece knobs device s1 s2 mem)
      (fun p => p.result ≠ .success || p.mismatch ≠ 0) knobs.maxTransferSize knobs.dsaMinSize
      (n + 1) 1 n ⟨0, 0, .success⟩ = some q ∧ J q := by
  apply Pieces.pieces_spec (I := fun turn left p =>
    ∃ i, Comparing knobs mem s1 s2 n turn left p i ∧ I i)
  · rintro turn left p ⟨i, so, _⟩
    have rest := so.rest
    have empty := (comparePiece_cases (rfl : comparePiece knobs device s1 s2 mem turn 0 p = _)
      (by decide) so.toMatching (by omega : p.done + 0 ≤ n)).1 rfl
    simp [empty]
  · rintro turn left size p ⟨i, so, now⟩ piece ends
    apply (step _ so now piece rfl).1
    rintro ⟨success, none, _⟩
    simp [success, none] at ends
  · rintro turn left size p ⟨i, so, now⟩ piece _ few
    apply (step _ so now piece rfl).1
    exact fun goes => absurd goes.2.2 (Nat.not_le.mpr few)
  · rintro turn left size p ⟨i, so, now⟩ piece goes more
    obtain ⟨success, equal⟩ : (comparePiece knobs device s1 s2 mem turn size p).result = .success ∧
        (comparePiece knobs device s1 s2 mem turn size p).mismatch = 0 := by simpa using goes
    exact ⟨i + 1, (so.piece piece rfl).2 success equal more,
      (step _ so now piece rfl).2 ⟨success, equal, more⟩⟩
  · exact ⟨0, comparing_start, first⟩
  · exact Nat.lt_succ_self n

theorem dtoMemcmp_outcome (device : CompareDevice knobs.maxTransferSize) (s1 s2 n : Nat)
    (mem : Memory) :
    ∃ q, dtoMemcmp knobs device s1 s2 mem n = some (compareResult s1 s2 mem n q) ∧
      Outcome knobs mem s1 s2 n q := by
  unfold dtoMemcmp
  split
  next once => exact ⟨_, rfl, (comparing_start.piece (by omega) rfl).1⟩
  next =>
    obtain ⟨q, result, so⟩ := comparePieces_rule device s1 s2 n mem
      (I := fun _ => True) (J := Outcome knobs mem s1 s2 n) trivial
      fun q so _ piece run => ⟨fun _ => (so.piece piece run).1, fun _ => trivial⟩
    exact ⟨q, by simp only [result, Option.map_some], so⟩

/-- A device that gives no cause to leave the loop but a difference. -/
def Willing (device : CompareDevice knobs.maxTransferSize) : Prop :=
  ∀ mem s1 s2 turn size p, 0 < size → size ≤ knobs.maxTransferSize →
    (comparePiece knobs device s1 s2 mem turn size p).result = .success

theorem Comparing.willing {left size : Nat} {q : Compared} (willing : Willing device)
    (first : DifferAt mem s1 s2 n k) (some : 0 < knobs.maxTransferSize)
    (so : Comparing knobs mem s1 s2 n turn left p i) (early : i ≤ k / knobs.maxTransferSize)
    (piece : size = min left knobs.maxTransferSize)
    (run : comparePiece knobs device s1 s2 mem turn size p = q) :
    (q.mismatch ≠ 0 ∧ q.done = pieceEnd knobs n k) ∨
    (q.result = .success ∧ q.mismatch = 0 ∧ i < k / knobs.maxTransferSize ∧
      left - size = n - (i + 1) * knobs.maxTransferSize) := by
  have inside := first.inside
  have done := so.done
  have rest := so.rest
  have max := knobs.max_bound
  have below : i * knobs.maxTransferSize ≤ k := (Nat.le_div_iff_mul_le some).mp early
  have next : (i + 1) * knobs.maxTransferSize =
      i * knobs.maxTransferSize + knobs.maxTransferSize := Nat.succ_mul _ _
  have success : q.result = .success := run ▸ willing mem s1 s2 turn size p (by omega) (by omega)
  rcases (comparePiece_cases run (by omega) so.toMatching (by omega : p.done + size ≤ n)).2 with
    ⟨kept, _, exact⟩ | ⟨found, ends, k', low, high, first'⟩
  · have taken := exact success
    have later : q.done ≤ k := by
      by_contra passed
      exact first.differ (kept.same k (Nat.lt_of_not_le passed))
    refine .inr ⟨success, kept.none, ?_, by omega⟩
    exact (Nat.le_div_iff_mul_le some).mpr (by rw [Nat.succ_eq_add_one]; omega)
  · have same : k' = k := first'.unique first
    subst same
    have whole : size = min (n - i * knobs.maxTransferSize) knobs.maxTransferSize := by omega
    have here := (pieceEnd_eq k' whole (by omega) (by omega)).2
    exact .inl ⟨found, by omega⟩

theorem dtoMemcmp_willing (willing : Willing device) (first : DifferAt mem s1 s2 n k)
    (reached : Reached knobs n (k / knobs.maxTransferSize)) :
    ∃ q, dtoMemcmp knobs device s1 s2 mem n = some (compareResult s1 s2 mem n q) ∧
      q.mismatch ≠ 0 ∧ q.done = pieceEnd knobs n k := by
  unfold dtoMemcmp
  split
  next once =>
    refine ⟨_, rfl, ?_⟩
    rcases comparing_start.willing willing first reached.1 (Nat.zero_le _)
      (by omega : n = min n knobs.maxTransferSize) rfl with found | ⟨_, _, later, _⟩
    · exact found
    · have := (Nat.le_div_iff_mul_le reached.1).mp later
      have := first.inside
      omega
  next =>
    obtain ⟨q, result, so⟩ := comparePieces_rule device s1 s2 n mem
      (I := fun i => i ≤ k / knobs.maxTransferSize)
      (J := fun q => q.mismatch ≠ 0 ∧ q.done = pieceEnd knobs n k) (Nat.zero_le _)
      (by
        intro turn left size p i q so early piece run
        rcases so.willing willing first reached.1 early piece run with
          found | ⟨success, none, later, rest⟩
        · exact ⟨fun _ => found, fun goes => absurd goes.2.1 found.1⟩
        · refine ⟨fun ends => absurd ⟨success, none, ?_⟩ ends, fun _ => later⟩
          rw [rest, so.number]
          exact reached.2 i later)
    exact ⟨q, by simp only [result, Option.map_some], so⟩

theorem finishCompare_mismatch {q : Compared} (found : q.mismatch ≠ 0) :
    finishCompare s1 s2 mem n (compareResult s1 s2 mem n q) = difference s1 s2 mem q.done := by
  rw [compareResult, if_pos found, finishCompare, if_neg (by simp)]

theorem origMemcmp_of_first (first : DifferAt mem s1 s2 n k) :
    origMemcmp s1 s2 mem 0 n = difference s1 s2 mem k := by
  simpa [origMemcmp, difference] using memcmp_of_first first

theorem finishCompare_matching {q : Compared} (so : Matching mem s1 s2 q) (within : q.done ≤ n) :
    finishCompare s1 s2 mem n (compareResult s1 s2 mem n q) = origMemcmp s1 s2 mem 0 n := by
  have rest := memcmp_drop (a := fun o => mem (s1 + o)) (b := fun o => mem (s2 + o)) within so.same
  rw [compareResult, if_neg (by simp [so.none]), finishCompare]
  dsimp only
  split
  next => simpa [origMemcmp, Nat.add_assoc] using rest
  next whole =>
    have equal : CString.memcmp (fun o => mem (s1 + o)) (fun o => mem (s2 + o)) n = 0 := by
      rw [memcmp_eq_zero_iff, ← Decidable.not_not.mp whole]
      exact so.same
    simpa [origMemcmp] using equal.symm

theorem dtoInternalMemcmp_eq : dtoInternalMemcmp s1 s2 mem n = origMemcmp s1 s2 mem 0 n := by
  unfold dtoInternalMemcmp origMemcmp CString.memcmp difference
  simp only [Nat.add_zero]
  split <;> rename_i found <;> simp only [found]

def CompareDevice.willing (maxTransferSize : Nat) : CompareDevice maxTransferSize where
  retry _ _ := false
  reply _ mem job := { Comp.obliging maxTransferSize job.size with
    result := if 0 < job.size ∧ job.size ≤ maxTransferSize ∧
      ∃ o < job.size, mem (job.src1 + o) ≠ mem (job.src2 + o) then 1 else 0 }
  fits turn mem job :=
    { Comp.obliging_fits maxTransferSize job.size with
      mismatch := by
        intro found
        obtain ⟨some, few, differ⟩ : 0 < job.size ∧ job.size ≤ maxTransferSize ∧
            ∃ o < job.size, mem (job.src1 + o) ≠ mem (job.src2 + o) := by
          by_contra other
          exact found (if_neg other)
        exact ⟨congrArg Comp.status (if_pos ⟨some, few⟩), differ⟩
      matching := by
        intro equal o below
        have moved : o < (Comp.obliging maxTransferSize job.size).moved job.size := below
        rw [Comp.obliging_moved] at moved
        split at moved
        next taken =>
          by_contra differ
          exact absurd equal (by simp only [taken, true_and]; rw [if_pos ⟨o, moved, differ⟩]; simp)
        next => omega }

theorem CompareDevice.willing_willing (knobs : Knobs) : Willing (willing knobs.maxTransferSize) := by
  intro mem s1 s2 turn size p some few
  have bound : size < 2 ^ 32 := Nat.lt_of_le_of_lt few knobs.max_bound
  have taken : (Comp.obliging knobs.maxTransferSize size).status = dsaCompSuccess :=
    congrArg Comp.status (if_pos ⟨some, few⟩)
  simp only [comparePiece, Nat.mod_eq_of_lt bound]
  rw [dsaExecute, show dsaSubmit ((willing knobs.maxTransferSize).retry turn) = .success from rfl]
  exact dsaWait_success_iff.mpr taken

/-- `memcmp` has the right sign with every device if and only if the process lives and, where
the call is offloaded, the first difference that the device may be asked for has the sign of
the bytes at the end of its piece. -/
theorem memcmp_sign_iff (knobs : Knobs) (s1 s2 n : Nat) (mem : Memory) :
    (∀ device : CompareDevice knobs.maxTransferSize, ∃ r,
      memcmp knobs device s1 s2 mem n = some r ∧ r.sign = (origMemcmp s1 s2 mem 0 n).sign) ↔
    knobs.route n ≠ .divides ∧ (knobs.route n = .device →
      ∀ k, DifferAt mem s1 s2 n k → Reached knobs n (k / knobs.maxTransferSize) →
        (difference s1 s2 mem (pieceEnd knobs n k)).sign = (difference s1 s2 mem k).sign) := by
  unfold memcmp
  cases route : knobs.route n with
  | internal => simp [dtoInternalMemcmp_eq]
  | original => simp
  | divides =>
    have some : Nonempty (CompareDevice knobs.maxTransferSize) := ⟨.willing _⟩
    simp
  | device =>
    simp only [ne_eq, reduceCtorEq, not_false_eq_true, true_and, forall_const]
    constructor
    · intro right k first reached
      obtain ⟨q, result, found, ends⟩ := dtoMemcmp_willing
        (CompareDevice.willing_willing knobs) first reached
      obtain ⟨r, value, sign⟩ := right (.willing _)
      rw [result, Option.map_some, finishCompare_mismatch found, ends, Option.some.injEq] at value
      rw [value, sign, origMemcmp_of_first first]
    · intro same device
      obtain ⟨q, result, outcome⟩ := dtoMemcmp_outcome device s1 s2 n mem
      refine ⟨_, by rw [result, Option.map_some], ?_⟩
      rcases outcome with ⟨kept, within⟩ | ⟨found, k, first, reached, ends⟩
      · rw [finishCompare_matching kept within]
      · rw [finishCompare_mismatch found, ends, same k first reached, origMemcmp_of_first first]

end DsaTest.Dto
