import DsaTest.Dto.Offload
import DsaTest.Dto.Start
import DsaTest.Lib.Memmove
import DsaTest.Lib.Pieces

/-! `memcpy` and `memmove` of `dto.c`: a share of the bytes is copied by the processor while
the device copies the rest, a long copy is cut into pieces, and what is left undone is
copied with the plain function. -/
namespace DsaTest.Dto

open CString (Memory moveEach moveEach_range' moveEach_apart moveEach_outside Careful
  memmove_forward memmove_zero memmove_inside memmove_outside eq_memmove)
open SingleDevice (dsaCompSuccess)

/-- The variables of the library that a call reads. `maxTransferSize` is that of its queue,
`share` is `(size_t) (len * cpu_size_fraction)` and `threshold` the size of a piece, both with
the fraction of the time they are computed at. -/
structure Knobs extends Arrival where
  maxTransferSize : Nat
  threshold : Nat
  dsaMinSize : Nat → Nat
  share : Nat → Nat → Nat
  share_le : ∀ turn len, share turn len ≤ len
  max_bound : maxTransferSize < 2 ^ 32
  threshold_bound : threshold < 2 ^ 32

/-- A piece of a copy: the processor has its first `cpu` bytes, the device the next `dsa`. -/
structure MoveJob where
  dest : Nat
  src : Nat
  cpu : Nat
  dsa : Nat
  deriving DecidableEq, Repr

namespace MoveJob

def Ahead (job : MoveJob) : Prop := job.src < job.dest ∧ job.dest < job.src + job.dsa

instance (job : MoveJob) : Decidable job.Ahead := inferInstanceAs (Decidable (_ ∧ _))

def portion (job : MoveJob) (comp : Comp) : List Nat :=
  let moved := comp.moved job.dsa
  if comp.result = 0 then List.range' job.cpu moved
  else List.range' (job.cpu + (job.dsa - moved)) moved

end MoveJob

/-- `moved` has the bytes that the device has copied when the record is seen, and `order`
these and the processor's in the order of the copies. -/
structure MoveReply where
  comp : Comp
  moved : List Nat
  order : List Nat
  deriving DecidableEq, Repr

/-- How a device may answer: `comp.result` says whether it has started from the back, and a
byte of the source is never overwritten by the device before it is read by it. Too large a
descriptor is refused, and any other error may come after some bytes. -/
structure MoveReply.Fits (maxTransferSize : Nat) (job : MoveJob) (reply : MoveReply) : Prop
    extends reply.comp.Fits maxTransferSize job.dsa where
  direction : reply.comp.result ≠ 0 → job.Ahead
  backwards : job.Ahead → 0 < reply.comp.moved job.dsa → reply.comp.moved job.dsa < job.dsa →
    reply.comp.result ≠ 0
  inside : ∀ o ∈ reply.moved, job.cpu ≤ o ∧ o < job.cpu + job.dsa
  large : maxTransferSize < job.dsa → reply.moved = []
  reported : ¬ reply.comp.Failed → reply.moved.Perm (job.portion reply.comp)
  copied : reply.order.Perm (List.range job.cpu ++ reply.moved)
  careful : Careful job.dest job.src (reply.order.filter (job.cpu ≤ ·))

/-- An error comes before the first byte. -/
def MoveReply.Clean (reply : MoveReply) : Prop := reply.comp.Failed → reply.moved = []

structure MoveDevice (maxTransferSize : Nat) where
  retry : Nat → Nat → Bool
  reply : Nat → MoveJob → MoveReply
  fits : ∀ turn job, (reply turn job).Fits maxTransferSize job

def MoveDevice.Clean {maxTransferSize : Nat} (device : MoveDevice maxTransferSize) : Prop :=
  ∀ turn job, (device.reply turn job).Clean

/-- `direction` is `thr_comp.result`. -/
structure Progress where
  mem : Memory
  done : Nat
  direction : Nat
  result : ReturnCode

section

variable (knobs : Knobs) (device : MoveDevice knobs.maxTransferSize) (isMemcpy : Bool)
  (dest src : Nat)

def isOverlappingBuffers (dest src n : Nat) : Bool := !(dest + n < src || src + n < dest)

def cpuSize (turn len : Nat) : Nat :=
  if !isMemcpy && isOverlappingBuffers dest src len then 0 else knobs.share turn len

/-- Submit the descriptor, copy the processor's share and wait for the device. -/
def submitMove (turn : Nat) (job : MoveJob) (p : Progress) : Progress :=
  match dsaSubmit (device.retry turn) with
  | .success =>
    let reply := device.reply turn job
    let (result, done) := dsaWait reply.comp job.dsa (p.done + job.cpu)
    ⟨moveEach p.mem job.dest job.src reply.order, done, reply.comp.result, result⟩
  | code => { p with result := code }

/-- One turn of the loop; the whole of a copy that fits into a descriptor has the same form. -/
def movePiece (turn len : Nat) (p : Progress) : Progress :=
  let cpu := cpuSize knobs isMemcpy dest src turn len
  submitMove knobs device turn ⟨dest + p.done, src + p.done, cpu, (len - cpu) % 2 ^ 32⟩ p

def dtoMemcpymove (n : Nat) (p : Progress) : Option Progress :=
  let p := { p with done := 0 }
  if n - cpuSize knobs isMemcpy dest src 0 n ≤ knobs.maxTransferSize then
    some (movePiece knobs device isMemcpy dest src 0 n p)
  else
    Pieces.pieces (movePiece knobs device isMemcpy dest src) (·.result ≠ .success)
      knobs.threshold knobs.dsaMinSize (n + 1) 1 n p

def finishMove (n : Nat) (p : Progress) : Memory :=
  if p.done ≠ n then
    if p.direction = 0 then CString.memmove p.mem (dest + p.done) (src + p.done) (n - p.done)
    else CString.memmove p.mem dest src (n - p.done)
  else p.mem

def dtoInternalMemcpymove (n : Nat) (mem : Memory) : Memory :=
  moveEach mem dest src (if dest ≤ src then List.range n else (List.range n).reverse)

/-- `direction` is what an earlier call of the thread has left in `thr_comp`. Nothing is
returned where the process dies. -/
def memcpymove (n direction : Nat) (mem : Memory) : Option Memory :=
  match knobs.route n with
  | .internal => some (dtoInternalMemcpymove dest src n mem)
  | .original => some (CString.memmove mem dest src n)
  | .divides => none
  | .device =>
    (dtoMemcpymove knobs device isMemcpy dest src n ⟨mem, 0, direction, .success⟩).map
      (finishMove dest src n)

def memcpy : (n direction : Nat) → Memory → Option Memory := memcpymove knobs device true dest src

def memmove : (n direction : Nat) → Memory → Option Memory := memcpymove knobs device false dest src

end

variable {knobs : Knobs} {device : MoveDevice knobs.maxTransferSize} {isMemcpy : Bool}
  {dest src n turn len : Nat} {job : MoveJob} {reply : MoveReply} {mem : Memory} {p : Progress}
  {maxTransferSize : Nat}

namespace MoveReply.Fits

theorem below (fits : reply.Fits maxTransferSize job) {o : Nat} (member : o ∈ reply.order) :
    o < job.cpu + job.dsa := by
  have member := fits.copied.mem_iff.mp member
  rw [List.mem_append, List.mem_range] at member
  cases member with
  | inl mine => omega
  | inr moved => exact (fits.inside o moved).2

theorem careful_order (fits : reply.Fits maxTransferSize job)
    (apart : job.cpu = 0 ∨ job.src + (job.cpu + job.dsa) ≤ job.dest ∨
      job.dest + (job.cpu + job.dsa) ≤ job.src) : Careful job.dest job.src reply.order := by
  cases apart with
  | inl alone =>
    have careful := fits.careful
    rwa [alone, List.filter_eq_self.mpr (by simp)] at careful
  | inr apart => exact Careful.of_apart apart fun o member => fits.below member

theorem front_mem (fits : reply.Fits maxTransferSize job) (front : reply.comp.result = 0) {o : Nat}
    (done : o < job.cpu + reply.comp.moved job.dsa) : o ∈ reply.order := by
  rw [fits.copied.mem_iff, List.mem_append, List.mem_range]
  by_cases mine : o < job.cpu
  · exact .inl mine
  · refine .inr ?_
    have answered : ¬ reply.comp.Failed := by
      intro failed
      rw [Comp.moved_of_failed _ failed] at done
      omega
    rw [(fits.reported answered).mem_iff, MoveJob.portion, if_pos front, List.mem_range'_1]
    omega

theorem order_of_refused (fits : reply.Fits maxTransferSize job) (alone : job.cpu = 0)
    (refused : job.dsa = 0 ∨ maxTransferSize < job.dsa) : reply.order = [] := by
  have none : reply.moved = [] := by
    rcases refused with empty | large
    · rw [List.eq_nil_iff_forall_not_mem]
      intro o member
      have := fits.inside o member
      omega
    · exact fits.large large
  have copied := fits.copied
  rwa [alone, none, List.range_zero, List.append_nil, List.perm_nil] at copied

theorem copied_portion (fits : reply.Fits maxTransferSize job) (clean : reply.Clean) :
    reply.order.Perm (List.range job.cpu ++ job.portion reply.comp) := by
  have copied := fits.copied
  by_cases failed : reply.comp.Failed
  · rwa [MoveJob.portion, Comp.moved_of_failed _ failed, List.range'_zero, List.range'_zero,
      ite_self, ← clean failed]
  · exact copied.trans (List.Perm.append_left _ (fits.reported failed))

theorem moves_front (mem : Memory) (fits : reply.Fits maxTransferSize job) (clean : reply.Clean)
    (front : reply.comp.result = 0)
    (apart : job.cpu = 0 ∨ job.src + (job.cpu + job.dsa) ≤ job.dest ∨
      job.dest + (job.cpu + job.dsa) ≤ job.src) :
    moveEach mem job.dest job.src reply.order =
      CString.memmove mem job.dest job.src (job.cpu + reply.comp.moved job.dsa) := by
  have range : reply.order.Perm (List.range' 0 (job.cpu + reply.comp.moved job.dsa)) := by
    have copied := fits.copied_portion clean
    rwa [MoveJob.portion, if_pos front, CString.range_append_range', List.range_eq_range']
      at copied
  simpa using moveEach_range' (fits.careful_order apart) range

theorem moves_back (mem : Memory) (fits : reply.Fits maxTransferSize job) (clean : reply.Clean)
    (back : reply.comp.result ≠ 0) (alone : job.cpu = 0) :
    moveEach mem job.dest job.src reply.order =
      CString.memmove mem (job.dest + (job.dsa - reply.comp.moved job.dsa))
        (job.src + (job.dsa - reply.comp.moved job.dsa)) (reply.comp.moved job.dsa) := by
  have copied := fits.copied_portion clean
  rw [MoveJob.portion, if_neg back, alone, List.range_zero, List.nil_append, Nat.zero_add] at copied
  exact moveEach_range' (fits.careful_order (.inl alone)) copied

end MoveReply.Fits

theorem cpuSize_le : cpuSize knobs isMemcpy dest src turn len ≤ len := by
  unfold cpuSize
  split
  · exact Nat.zero_le len
  · exact knobs.share_le turn len

theorem cpuSize_apart (apart : isMemcpy = true → src + len ≤ dest ∨ dest + len ≤ src) :
    cpuSize knobs isMemcpy dest src turn len = 0 ∨ src + len ≤ dest ∨ dest + len ≤ src := by
  cases isMemcpy with
  | true => exact .inr (apart rfl)
  | false =>
    unfold cpuSize isOverlappingBuffers
    split
    next => exact .inl rfl
    next other =>
      simp only [Bool.not_false, Bool.true_and, Bool.not_eq_true', Bool.not_eq_false,
        Bool.or_eq_true, decide_eq_true_eq] at other
      omega

theorem movePiece_of_rejected (rejected : dsaSubmit (device.retry turn) = .retries) :
    movePiece knobs device isMemcpy dest src turn len p = { p with result := .retries } := by
  simp only [movePiece, submitMove, rejected]

theorem movePiece_of_accepted (device : MoveDevice knobs.maxTransferSize) (p : Progress) {cpu : Nat}
    (own : cpuSize knobs isMemcpy dest src turn len = cpu)
    (bound : len - cpu < 2 ^ 32) (accepted : dsaSubmit (device.retry turn) = .success)
    (reply : MoveReply)
    (answer : device.reply turn ⟨dest + p.done, src + p.done, cpu, len - cpu⟩ = reply) :
    movePiece knobs device isMemcpy dest src turn len p =
      ⟨moveEach p.mem (dest + p.done) (src + p.done) reply.order,
        p.done + cpu + reply.comp.moved (len - cpu), reply.comp.result,
        (dsaWait reply.comp (len - cpu) (p.done + cpu)).1⟩ := by
  simp only [movePiece, submitMove, own, Nat.mod_eq_of_lt bound, accepted, answer, ← dsaWait_snd]

theorem movePiece_cases (device : MoveDevice knobs.maxTransferSize) (p : Progress) {cpu : Nat}
    (own : cpuSize knobs isMemcpy dest src turn len = cpu)
    (bound : len - cpu < 2 ^ 32) :
    movePiece knobs device isMemcpy dest src turn len p = { p with result := .retries } ∨
    ∃ reply : MoveReply,
      reply.Fits knobs.maxTransferSize ⟨dest + p.done, src + p.done, cpu, len - cpu⟩ ∧
      (device.Clean → reply.Clean) ∧
      movePiece knobs device isMemcpy dest src turn len p =
        ⟨moveEach p.mem (dest + p.done) (src + p.done) reply.order,
          p.done + cpu + reply.comp.moved (len - cpu), reply.comp.result,
          (dsaWait reply.comp (len - cpu) (p.done + cpu)).1⟩ := by
  rcases dsaSubmit_cases (device.retry turn) with accepted | rejected
  · exact .inr ⟨_, device.fits turn _, fun clean => clean turn _,
      movePiece_of_accepted device p own bound accepted _ rfl⟩
  · exact .inl (movePiece_of_rejected rejected)

theorem movePiece_success (bound : len - cpuSize knobs isMemcpy dest src turn len < 2 ^ 32)
    (success : (movePiece knobs device isMemcpy dest src turn len p).result = .success) :
    (movePiece knobs device isMemcpy dest src turn len p).done = p.done + len := by
  have split : cpuSize knobs isMemcpy dest src turn len ≤ len := cpuSize_le
  rcases movePiece_cases device p rfl bound with rejected | ⟨reply, -, -, result⟩
  · rw [rejected] at success
    contradiction
  · rw [result, dsaWait_success_iff] at success
    rw [result, Comp.moved_of_success success, Nat.add_assoc, Nat.add_sub_of_le split]

structure Prefix (dest src n : Nat) (mem : Memory) (p : Progress) : Prop where
  mem : p.mem = CString.memmove mem dest src p.done
  done : p.done ≤ n
  direction : p.done = 0 ∨ p.direction = 0

theorem movePiece_extends (clean : device.Clean) (safe : dest ≤ src ∨ src + n ≤ dest)
    (apart : isMemcpy = true → src + n ≤ dest ∨ dest + n ≤ src)
    (bound : len - cpuSize knobs isMemcpy dest src turn len < 2 ^ 32)
    (so : Prefix dest src n mem p) (fits : p.done + len ≤ n) :
    Prefix dest src n mem (movePiece knobs device isMemcpy dest src turn len p) := by
  obtain ⟨cpu, own⟩ : ∃ cpu, cpuSize knobs isMemcpy dest src turn len = cpu := ⟨_, rfl⟩
  have split : cpu ≤ len := own ▸ cpuSize_le
  have alone : cpu = 0 ∨ src + len ≤ dest ∨ dest + len ≤ src :=
    own ▸ cpuSize_apart fun copy => by have := apart copy; omega
  rcases movePiece_cases device p own (own ▸ bound) with
    rejected | ⟨reply, answer, errors, result⟩
  · rw [rejected]
    exact ⟨so.mem, so.done, so.direction⟩
  · have front : reply.comp.result = 0 := by
      by_contra back
      have ahead := answer.direction back
      simp only [MoveJob.Ahead] at ahead
      omega
    have moves := answer.moves_front p.mem (errors clean) front (by dsimp only; omega)
    have within := answer.within
    dsimp only at moves within
    rw [result]
    refine ⟨?_, by dsimp only; omega, .inr front⟩
    dsimp only
    rw [moves, so.mem, memmove_forward (by omega), Nat.add_assoc]

theorem movePiece_refused
    (bound : len - cpuSize knobs isMemcpy dest src turn len < 2 ^ 32)
    (refused : len = cpuSize knobs isMemcpy dest src turn len ∨
      knobs.maxTransferSize < len - cpuSize knobs isMemcpy dest src turn len) :
    (movePiece knobs device isMemcpy dest src turn len p).result ≠ .success := by
  have split : cpuSize knobs isMemcpy dest src turn len ≤ len := cpuSize_le
  rcases movePiece_cases device p rfl bound with
    rejected | ⟨reply, answer, -, result⟩
  · rw [rejected]
    exact fun success => nomatch success
  · rw [result]
    exact answer.toFits.stopped (by dsimp only; omega)

theorem dtoInternalMemcpymove_eq :
    dtoInternalMemcpymove dest src n mem = CString.memmove mem dest src n := by
  unfold dtoInternalMemcpymove
  split
  next behind =>
    exact moveEach_range' (CString.careful_range behind n) (by rw [List.range_eq_range'])
  next ahead =>
    have range : (List.range n).reverse.Perm (List.range' 0 n) := by
      rw [← List.range_eq_range']
      exact List.reverse_perm _
    exact moveEach_range' (CString.careful_reverse (Nat.lt_of_not_le ahead) n) range

theorem finishMove_eq (direction : p.done = 0 ∨ p.direction = 0) :
    finishMove dest src n p =
      CString.memmove p.mem (dest + p.done) (src + p.done) (n - p.done) := by
  unfold finishMove
  split
  next =>
    split
    next => rfl
    next back => rw [direction.resolve_right back, Nat.add_zero, Nat.add_zero]
  next whole => rw [Decidable.not_not.mp whole, Nat.sub_self, memmove_zero]

theorem Prefix.finish (so : Prefix dest src n mem p) (safe : dest ≤ src ∨ src + n ≤ dest) :
    finishMove dest src n p = CString.memmove mem dest src n := by
  have done := so.done
  rw [finishMove_eq so.direction, so.mem, memmove_forward (by omega),
    Nat.add_sub_of_le done]

/-- What is done has been copied, the source of the rest is as it was, and at most the
destination is touched. -/
structure Copied (dest src n : Nat) (mem : Memory) (p : Progress) : Prop where
  front : ∀ o < p.done, p.mem (dest + o) = mem (src + o)
  rest : ∀ o, p.done ≤ o → o < n → p.mem (src + o) = mem (src + o)
  outside : ∀ x, (∀ o < n, x ≠ dest + o) → p.mem x = mem x
  done : p.done ≤ n
  direction : p.done = 0 ∨ p.direction = 0

/-- A piece that does not reach the source of the rest copies what is reported, whatever else
an error leaves. -/
theorem movePiece_copies (apart : src + n ≤ dest ∨ dest + len ≤ src)
    (bound : len - cpuSize knobs isMemcpy dest src turn len < 2 ^ 32)
    (so : Copied dest src n mem p) (fits : p.done + len ≤ n) :
    Copied dest src n mem (movePiece knobs device isMemcpy dest src turn len p) := by
  obtain ⟨cpu, own⟩ : ∃ cpu, cpuSize knobs isMemcpy dest src turn len = cpu := ⟨_, rfl⟩
  have split : cpu ≤ len := own ▸ cpuSize_le
  rcases movePiece_cases device p own (own ▸ bound) with
    rejected | ⟨reply, answer, -, result⟩
  · rw [rejected]
    exact ⟨so.front, so.rest, so.outside, so.done, so.direction⟩
  have front : reply.comp.result = 0 := by
    by_contra back
    have ahead := answer.direction back
    simp only [MoveJob.Ahead] at ahead
    omega
  have within := answer.within
  have below (o : Nat) (member : o ∈ reply.order) : o < len := by
    have := answer.below member
    dsimp only at this
    omega
  dsimp only at within
  rw [result]
  refine ⟨fun o old => ?_, fun o later inside => ?_, fun x outside => ?_, by dsimp only; omega,
    .inr front⟩
  · dsimp only at old ⊢
    by_cases earlier : o < p.done
    · rw [moveEach_outside fun q _ => by omega, so.front o earlier]
    · obtain ⟨r, rfl⟩ := Nat.exists_eq_add_of_le (Nat.not_lt.mp earlier)
      have member : r ∈ reply.order := answer.front_mem front (by dsimp only; omega)
      have source := so.rest (p.done + r) (Nat.le_add_right _ _) (by omega)
      rw [← Nat.add_assoc, moveEach_apart (n := len) (by omega) below member, Nat.add_assoc, source]
  · dsimp only at later ⊢
    rw [moveEach_outside, so.rest o (by omega) inside]
    intro q member
    have := below q member
    omega
  · dsimp only
    rw [moveEach_outside, so.outside x outside]
    intro o member same
    have := below o member
    exact outside (p.done + o) (by omega) (by omega)

theorem Copied.finish (so : Copied dest src n mem p) :
    finishMove dest src n p = CString.memmove mem dest src n := by
  have done := so.done
  rw [finishMove_eq so.direction]
  apply eq_memmove
  · intro o below
    by_cases old : o < p.done
    · rw [memmove_outside (by omega), so.front o old]
    · have source := so.rest o (Nat.le_of_not_lt old) below
      obtain ⟨r, rfl⟩ := Nat.exists_eq_add_of_le (Nat.not_lt.mp old)
      rw [← Nat.add_assoc, memmove_inside (by omega), Nat.add_assoc, source]
  · intro x outside
    rw [memmove_outside, so.outside x outside]
    have := outside (x - dest)
    omega

/-- The whole of a copy that fits into a descriptor, or a piece of a longer one. -/
def Knobs.IsPiece (knobs : Knobs) (isMemcpy : Bool) (dest src n len : Nat) : Prop :=
  n - cpuSize knobs isMemcpy dest src 0 n ≤ knobs.maxTransferSize ∨ len ≤ knobs.threshold

/-- The rule for a whole copy: `P` is kept by every piece that begins behind what is done. -/
theorem dtoMemcpymove_rule {P : Progress → Prop}
    (piece : ∀ {turn len : Nat} {p : Progress}, knobs.IsPiece isMemcpy dest src n len →
      len - cpuSize knobs isMemcpy dest src turn len < 2 ^ 32 → P p → p.done + len ≤ n →
      P (movePiece knobs device isMemcpy dest src turn len p))
    (direction : Nat) (start : P ⟨mem, 0, direction, .success⟩) :
    ∃ q, dtoMemcpymove knobs device isMemcpy dest src n ⟨mem, 0, direction, .success⟩ = some q ∧
      P q := by
  unfold dtoMemcpymove
  split
  next once =>
    exact ⟨_, rfl, piece (.inl once) (Nat.lt_of_le_of_lt once knobs.max_bound) start (by simp)⟩
  next =>
    have small {turn len : Nat} (most : len ≤ knobs.threshold) :
        len - cpuSize knobs isMemcpy dest src turn len < 2 ^ 32 :=
      Nat.lt_of_le_of_lt (Nat.le_trans (Nat.sub_le _ _) most) knobs.threshold_bound
    apply Pieces.pieces_spec (I := fun _ left p => P p ∧ p.done + left = n)
    · intro turn left p _
      simpa using movePiece_refused (small (Nat.zero_le _)) (.inl (Nat.le_zero.mp cpuSize_le).symm)
    · intro turn left size p so least _
      exact piece (.inr (by omega)) (small (by omega)) so.1 (by omega)
    · intro turn left size p so least _ _
      exact piece (.inr (by omega)) (small (by omega)) so.1 (by omega)
    · intro turn left size p so least goes _
      refine ⟨piece (.inr (by omega)) (small (by omega)) so.1 (by omega), ?_⟩
      rw [movePiece_success (small (by omega)) (by simpa using goes)]
      omega
    · exact ⟨start, Nat.zero_add n⟩
    · exact Nat.lt_succ_self n

/-- A call is right on every route but one when the library's offloading is. -/
theorem memcpymove_of_device (alive : knobs.route n ≠ .divides) {direction : Nat}
    (right : knobs.route n = .device → ∃ q,
      dtoMemcpymove knobs device isMemcpy dest src n ⟨mem, 0, direction, .success⟩ = some q ∧
        finishMove dest src n q = CString.memmove mem dest src n) :
    memcpymove knobs device isMemcpy dest src n direction mem =
      some (CString.memmove mem dest src n) := by
  unfold memcpymove
  cases route : knobs.route n with
  | internal => simp only [dtoInternalMemcpymove_eq]
  | original => rfl
  | divides => contradiction
  | device =>
    obtain ⟨q, result, so⟩ := right route
    simp only [result, Option.map_some, so]

end DsaTest.Dto
