import DsaTest.Dto.Copy

/-! `memset` of `dto.c`: the processor fills its share of every piece while the device fills
the rest with the pattern of the descriptor. -/
namespace DsaTest.Dto

open CString (Memory memset_append memset_zero)
open CInt (toUnsigned)

structure FillJob where
  dst : Nat
  size : Nat

/-- `filled` tells which bytes the device has filled when the record is seen. -/
structure FillReply where
  comp : Comp
  filled : Nat → Bool

/-- How a device may answer: an error may come after any bytes. -/
structure FillReply.Fits (maxTransferSize : Nat) (job : FillJob) (reply : FillReply) : Prop
    extends reply.comp.Fits maxTransferSize job.size where
  inside : ∀ o, reply.filled o = true → o < job.size
  reported : ¬ reply.comp.Failed →
    ∀ o, reply.filled o = decide (o < reply.comp.moved job.size)

structure FillDevice (maxTransferSize : Nat) where
  retry : Nat → Nat → Bool
  reply : Nat → FillJob → FillReply
  fits : ∀ turn job, (reply turn job).Fits maxTransferSize job

def fillByte (c : Int) : UInt8 := (toUnsigned 8 c).toUInt8

def memsetPattern (c : Int) : Fin 8 → UInt8 := fun _ => fillByte c

def memfill (mem : Memory) (dst : Nat) (pattern : Fin 8 → UInt8) (filled : Nat → Bool) : Memory :=
  fun x => if dst ≤ x ∧ filled (x - dst) then pattern (Fin.ofNat 8 (x - dst)) else mem x

section

variable (knobs : Knobs) (device : FillDevice knobs.maxTransferSize) (s : Nat) (c : Int)

/-- `fraction` is the turn that `cpu_size_fraction` has been read in. -/
def fillPiece (fraction turn len : Nat) (p : Progress) : Progress :=
  let cpu := knobs.share fraction len
  let job : FillJob := ⟨s + cpu + p.done, (len - cpu) % 2 ^ 32⟩
  match dsaSubmit (device.retry turn) with
  | .success =>
    let reply := device.reply turn job
    let mem := memfill p.mem job.dst (memsetPattern c) reply.filled
    let (result, done) := dsaWait reply.comp job.size (p.done + cpu)
    ⟨CString.memset mem (s + p.done) (fillByte c) cpu, done, reply.comp.result, result⟩
  | code => { p with result := code }

def dtoMemset (n : Nat) (p : Progress) : Option Progress :=
  let p := { p with done := 0 }
  if n - knobs.share 0 n ≤ knobs.maxTransferSize then some (fillPiece knobs device s c 0 0 n p)
  else
    -- the loop has its own snapshot of the fraction
    Pieces.pieces (fillPiece knobs device s c 1) (·.result ≠ .success) knobs.threshold
      knobs.dsaMinSize (n + 1) 1 n p

def finishFill (n : Nat) (p : Progress) : Memory :=
  if p.done ≠ n then CString.memset p.mem (s + p.done) (fillByte c) (n - p.done) else p.mem

def dtoInternalMemset (n : Nat) (mem : Memory) : Memory :=
  (List.range n).foldl (fun mem i => Function.update mem (s + i) (fillByte c)) mem

/-- Nothing is returned where the process dies. -/
def memset (n direction : Nat) (mem : Memory) : Option Memory :=
  match knobs.route n with
  | .internal => some (dtoInternalMemset s c n mem)
  | .original => some (CString.memset mem s (fillByte c) n)
  | .divides => none
  | .device => (dtoMemset knobs device s c n ⟨mem, 0, direction, .success⟩).map (finishFill s c n)

end

variable {knobs : Knobs} {device : FillDevice knobs.maxTransferSize} {s n turn fraction len : Nat}
  {c : Int} {mem : Memory} {p : Progress}

theorem memset_inside {x size : Nat} {b : UInt8} (inside : s ≤ x ∧ x < s + size) :
    CString.memset mem s b size x = b := if_pos inside

theorem memset_outside {x size : Nat} {b : UInt8} (outside : x < s ∨ s + size ≤ x) :
    CString.memset mem s b size x = mem x := by
  rw [CString.memset, if_neg (by omega)]

theorem memfill_outside {dst size x : Nat} {pattern : Fin 8 → UInt8} {filled : Nat → Bool}
    (inside : ∀ o, filled o = true → o < size) (outside : x < dst ∨ dst + size ≤ x) :
    memfill mem dst pattern filled x = mem x := by
  rw [memfill, if_neg]
  rintro ⟨above, here⟩
  have := inside _ here
  omega

structure Filled (s n : Nat) (c : Int) (mem : Memory) (p : Progress) : Prop where
  front : ∀ x, s ≤ x → x < s + p.done → p.mem x = fillByte c
  outside : ∀ x, x < s ∨ s + n ≤ x → p.mem x = mem x
  done : p.done ≤ n

theorem fillPiece_cases (device : FillDevice knobs.maxTransferSize) (s turn : Nat) (c : Int)
    (p : Progress) {cpu : Nat} (own : knobs.share fraction len = cpu) (bound : len - cpu < 2 ^ 32) :
    fillPiece knobs device s c fraction turn len p = { p with result := .retries } ∨
    ∃ reply : FillReply, reply.Fits knobs.maxTransferSize ⟨s + cpu + p.done, len - cpu⟩ ∧
      fillPiece knobs device s c fraction turn len p =
        ⟨CString.memset (memfill p.mem (s + cpu + p.done) (memsetPattern c) reply.filled)
            (s + p.done) (fillByte c) cpu,
          p.done + cpu + reply.comp.moved (len - cpu), reply.comp.result,
          (dsaWait reply.comp (len - cpu) (p.done + cpu)).1⟩ := by
  rw [fillPiece]
  simp only [own, Nat.mod_eq_of_lt bound]
  rcases dsaSubmit_cases (device.retry turn) with accepted | rejected
  · exact .inr ⟨_, device.fits turn _, by simp only [accepted, dsaWait_snd]⟩
  · exact .inl (by simp only [rejected])

theorem fillPiece_filled (bound : len - knobs.share fraction len < 2 ^ 32)
    (so : Filled s n c mem p) (fits : p.done + len ≤ n) {q : Progress}
    (piece : fillPiece knobs device s c fraction turn len p = q) :
    Filled s n c mem q ∧ (q.result = .success → q.done = p.done + len) ∧
      (len = 0 → q.result ≠ .success) := by
  obtain ⟨cpu, own⟩ : ∃ cpu, knobs.share fraction len = cpu := ⟨_, rfl⟩
  have share : cpu ≤ len := own ▸ knobs.share_le fraction len
  rcases fillPiece_cases device s turn c p own (own ▸ bound) with
    rejected | ⟨reply, answer, result⟩
  · rw [← piece, rejected]
    exact ⟨⟨so.front, so.outside, so.done⟩, fun success => (nomatch success),
      fun _ success => (nomatch success)⟩
  have within := answer.within
  dsimp only at within
  rw [← piece, result]
  refine ⟨⟨fun x above below => ?_, fun x outside => ?_, by dsimp only; omega⟩, fun success => ?_,
    fun none => answer.stopped (by dsimp only; omega)⟩
  · dsimp only at below ⊢
    by_cases mine : s + p.done ≤ x ∧ x < s + p.done + cpu
    · exact memset_inside mine
    rw [memset_outside (by omega)]
    by_cases earlier : x < s + p.done
    · rw [memfill_outside answer.inside (by dsimp only; omega), so.front x above earlier]
    · have answered : ¬ reply.comp.Failed := by
        intro failed
        rw [Comp.moved_of_failed _ failed] at below
        omega
      have here : reply.filled (x - (s + cpu + p.done)) = true := by
        rw [answer.reported answered, decide_eq_true_eq]
        dsimp only
        omega
      rw [memfill, if_pos ⟨by omega, here⟩]
      rfl
  · dsimp only
    rw [memset_outside (by omega), memfill_outside answer.inside (by dsimp only; omega),
      so.outside x outside]
  · rw [dsaWait_success_iff] at success
    dsimp only
    rw [Comp.moved_of_success success]
    omega

theorem Filled.finish (so : Filled s n c mem p) :
    finishFill s c n p = CString.memset mem s (fillByte c) n := by
  have done := so.done
  have rest : finishFill s c n p = CString.memset p.mem (s + p.done) (fillByte c) (n - p.done) := by
    unfold finishFill
    split
    next => rfl
    next whole => rw [Decidable.not_not.mp whole, Nat.sub_self, memset_zero]
  rw [rest]
  funext x
  by_cases inside : s ≤ x ∧ x < s + n
  · rw [memset_inside inside]
    by_cases old : x < s + p.done
    · rw [memset_outside (.inl old), so.front x inside.1 old]
    · exact memset_inside (by omega)
  · rw [memset_outside (by omega), memset_outside (by omega), so.outside x (by omega)]

theorem dtoInternalMemset_eq :
    dtoInternalMemset s c n mem = CString.memset mem s (fillByte c) n := by
  unfold dtoInternalMemset
  induction n with
  | zero => simp
  | succ n ih =>
    rw [List.range_succ, List.foldl_append, ih, ← memset_append]
    funext x
    simp only [List.foldl_cons, List.foldl_nil, Function.update_apply]
    conv_rhs => rw [CString.memset]
    by_cases here : x = s + n
    · rw [if_pos here, if_pos (by omega)]
    · rw [if_neg here, if_neg (by omega)]

end DsaTest.Dto
