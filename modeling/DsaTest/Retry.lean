import DsaTest.Descriptor
import DsaTest.Bytes

/-! The completion record of a memmove and the fault branch that continues a copy behind
the bytes that are done, as the kernel copy and the user-space copies have them. -/
namespace DsaTest

/-- The fields of `struct dsa_completion_record` that the copies read. -/
structure CompletionRecord where
  status : Nat
  bytesCompleted : Nat
  faultAddr : Nat
  deriving DecidableEq, Repr

def dsaCompPageFaultNobof : Nat := 3

def dsaCompStatus (status : Nat) : Nat := status &&& 0x7f

def dsaCompStatusWrite (status : Nat) : Nat := status &&& 0x80

/-- The status of a page fault, with a bit for a fault of a write. -/
def faultStatus (write : Bool) : Nat := if write then 0x83 else 3

theorem faultStatus_spec (write : Bool) : faultStatus write ≠ 0 ∧
    faultStatus write ≠ SingleDevice.dsaCompSuccess ∧
    dsaCompStatus (faultStatus write) = dsaCompPageFaultNobof := by
  cases write <;> decide

/-- The fields that the fault branch moves on, in its order. -/
inductive Field
  | srcAddr
  | dstAddr
  | xferSize
  deriving DecidableEq, Repr

/-- `g.before f` when `g` has been moved on once the branch comes to `f`. -/
def Field.before : Field → Field → Bool
  | .srcAddr, .dstAddr | .srcAddr, .xferSize | .dstAddr, .xferSize => true
  | _, _ => false

theorem Field.not_before_self (f : Field) : f.before f = false := by
  cases f <;> rfl

theorem Field.not_before_first (g : Field) : g.before .srcAddr = false := by
  cases g <;> rfl

theorem Field.before_last (g : Field) : g = .xferSize ∨ g.before .xferSize := by
  cases g <;> decide

namespace Memmove

def get (hw : Memmove) : Field → Nat
  | .srcAddr => hw.srcAddr
  | .dstAddr => hw.dstAddr
  | .xferSize => hw.xferSize

/-- `hw->src_addr += bytes`, `hw->dst_addr += bytes` or `hw->xfer_size -= bytes`, in 64
and 32 bits. -/
def move (hw : Memmove) (bytes : Nat) : Field → Memmove
  | .srcAddr => { hw with srcAddr := (hw.srcAddr + bytes) % 2 ^ 64 }
  | .dstAddr => { hw with dstAddr := (hw.dstAddr + bytes) % 2 ^ 64 }
  | .xferSize => { hw with xferSize := (hw.xferSize + (2 ^ 32 - bytes % 2 ^ 32)) % 2 ^ 32 }

theorem get_move_other (hw : Memmove) (bytes : Nat) {f g : Field} (other : g ≠ f) :
    (hw.move bytes f).get g = hw.get g := by
  cases f <;> cases g <;> first | rfl | contradiction

theorem ext_get {hw hw' : Memmove} (same : ∀ f, hw.get f = hw'.get f) : hw = hw' := by
  have src := same .srcAddr
  have dst := same .dstAddr
  have size := same .xferSize
  cases hw
  cases hw'
  simp_all [get]

end Memmove

structure Buffers where
  src : Nat
  dst : Nat
  length : Nat
  srcEnd : src + length < 2 ^ 64
  dstEnd : dst + length < 2 ^ 64
  lengthBound : length < 2 ^ 32

def Buffers.rest (b : Buffers) (n : Nat) : Memmove := ⟨b.src + n, b.dst + n, b.length - n⟩

/-- The additions of the fault branch do not wrap inside the buffers. -/
theorem Buffers.get_move {b : Buffers} {hw : Memmove} {n bytes : Nat} {f : Field}
    (here : hw.get f = (b.rest n).get f) (inside : n + bytes ≤ b.length) :
    (hw.move bytes f).get f = (b.rest (n + bytes)).get f := by
  have src := b.srcEnd
  have dst := b.dstEnd
  have bound := b.lengthBound
  cases f with
  | srcAddr =>
    simp only [Memmove.get, Memmove.move, rest] at here ⊢
    rw [here, Nat.mod_eq_of_lt (by omega), Nat.add_assoc]
  | dstAddr =>
    simp only [Memmove.get, Memmove.move, rest] at here ⊢
    rw [here, Nat.mod_eq_of_lt (by omega), Nat.add_assoc]
  | xferSize =>
    simp only [Memmove.get, Memmove.move, rest] at here ⊢
    rw [here]
    omega

end DsaTest
