import Mathlib.Data.List.Basic
import Mathlib.Data.Nat.Find

/-! The string and memory functions of C on a memory of bytes. -/
namespace DsaTest.CString

abbrev Memory := Nat → UInt8

/-- The bytes of a text of ASCII characters. -/
def bytesOf (text : List Char) : List UInt8 := text.map fun c => c.toNat.toUInt8

/-- What `sprintf` leaves of a text: its bytes and a terminator. -/
def sprintf (mem : Memory) (dest : Nat) (text : List UInt8) : Memory := fun x =>
  if dest ≤ x then ((text ++ [0])[x - dest]?).getD (mem x) else mem x

def strlen (bound : Nat) (mem : Memory) (s : Nat) : Nat :=
  (List.range bound).findIdx fun o => mem (s + o) = 0

def memset (mem : Memory) (dest : Nat) (c : UInt8) (size : Nat) : Memory := fun x =>
  if dest ≤ x ∧ x < dest + size then c else mem x

/-- The sign is that of the first pair of bytes that differ. -/
def memcmp (a b : Memory) (size : Nat) : Int :=
  match (List.range size).find? fun x => a x ≠ b x with
  | none => 0
  | some x => (a x).toNat - (b x).toNat

variable {mem : Memory} {dest bound : Nat} {text : List UInt8}

theorem sprintf_inside {o : Nat} (inside : o ≤ text.length) :
    sprintf mem dest text (dest + o) = ((text ++ [0])[o]?).getD 0 := by
  have here : o < (text ++ [0]).length := by simpa using Nat.lt_succ_of_le inside
  rw [sprintf, if_pos (Nat.le_add_right _ _), Nat.add_sub_cancel_left,
    List.getElem?_eq_getElem here]
  rfl

theorem sprintf_outside {x : Nat} (outside : x < dest ∨ dest + text.length < x) :
    sprintf mem dest text x = mem x := by
  unfold sprintf
  split
  next above =>
    rw [List.getElem?_eq_none (by simp only [List.length_append, List.length_singleton]; omega)]
    rfl
  next => rfl

theorem strlen_sprintf (room : text.length < bound) (printed : ∀ c ∈ text, c ≠ 0) :
    strlen bound (sprintf mem dest text) dest = text.length := by
  rw [strlen, List.findIdx_eq (by simpa using room)]
  constructor
  · simp [sprintf_inside]
  · intro o below
    have char : ((text ++ [0])[o]?).getD 0 = text[o] := by
      rw [List.getElem?_append_left below, List.getElem?_eq_getElem below]
      rfl
    rw [List.getElem_range, sprintf_inside (Nat.le_of_lt below), char]
    simpa using printed _ (List.getElem_mem below)

@[simp] theorem memset_zero (mem : Memory) (dest : Nat) (c : UInt8) : memset mem dest c 0 = mem := by
  funext x
  rw [memset, if_neg (by omega)]

theorem memset_append (mem : Memory) (dest : Nat) (c : UInt8) (left right : Nat) :
    memset (memset mem dest c left) (dest + left) c right = memset mem dest c (left + right) := by
  funext x
  unfold memset
  by_cases first : dest ≤ x ∧ x < dest + left
  · rw [if_neg (by omega), if_pos first, if_pos (by omega)]
  · by_cases second : dest + left ≤ x ∧ x < dest + left + right
    · rw [if_pos second, if_pos (by omega)]
    · rw [if_neg second, if_neg first, if_neg (by omega)]

theorem memcmp_eq_zero_iff {a b : Memory} {size : Nat} :
    memcmp a b size = 0 ↔ ∀ x < size, a x = b x := by
  unfold memcmp
  split
  next found =>
    simpa using found
  next x found =>
    have differs : a x ≠ b x := by simpa using List.find?_some found
    have inside : x < size := List.mem_range.mp (List.mem_of_find?_eq_some found)
    constructor
    · intro same
      have values : (a x).toNat = (b x).toNat := by omega
      exact absurd (UInt8.toNat_inj.mp values) differs
    · intro equal
      exact absurd (equal x inside) differs

structure FirstDifference (a b : Memory) (size k : Nat) : Prop where
  inside : k < size
  differ : a k ≠ b k
  before : ∀ x < k, a x = b x

theorem FirstDifference.unique {a b : Memory} {size k l : Nat} (first : FirstDifference a b size k)
    (other : FirstDifference a b size l) : k = l := by
  rcases Nat.lt_trichotomy k l with less | same | greater
  · exact absurd (other.before k less) first.differ
  · exact same
  · exact absurd (first.before l greater) other.differ

theorem memcmp_of_first {a b : Memory} {size k : Nat} (first : FirstDifference a b size k) :
    memcmp a b size = (a k).toNat - (b k).toNat := by
  have found : (List.range size).find? (fun x => a x ≠ b x) = some k := by
    rw [List.find?_range_eq_some]
    exact ⟨by simpa using first.differ, List.mem_range.mpr first.inside,
      fun x below => by simpa using first.before x below⟩
  rw [memcmp, found]

theorem firstDifference_of_differ {a b : Memory} {size x : Nat} (inside : x < size)
    (differ : a x ≠ b x) : ∃ k ≤ x, FirstDifference a b size k := by
  have differs : ∃ x, a x ≠ b x := ⟨x, differ⟩
  have early : Nat.find differs ≤ x := Nat.find_min' differs differ
  exact ⟨Nat.find differs, early, Nat.lt_of_le_of_lt early inside, Nat.find_spec differs,
    fun y below => Decidable.not_not.mp (Nat.find_min differs below)⟩

theorem memcmp_drop {a b : Memory} {size front : Nat} (inside : front ≤ size)
    (same : ∀ x < front, a x = b x) :
    memcmp (fun x => a (front + x)) (fun x => b (front + x)) (size - front) = memcmp a b size := by
  by_cases equal : ∀ x < size, a x = b x
  · rw [memcmp_eq_zero_iff.mpr equal, memcmp_eq_zero_iff]
    exact fun x below => equal (front + x) (by omega)
  · obtain ⟨x, below, differ⟩ : ∃ x, x < size ∧ a x ≠ b x := by simpa using equal
    obtain ⟨k, -, first⟩ := firstDifference_of_differ below differ
    have behind : front ≤ k := by
      by_contra early
      exact first.differ (same k (Nat.lt_of_not_le early))
    obtain ⟨o, rfl⟩ := Nat.exists_eq_add_of_le behind
    have k_inside := first.inside
    rw [memcmp_of_first first, memcmp_of_first (k := o) ⟨by omega, first.differ,
      fun x early => first.before (front + x) (by omega)⟩]

end DsaTest.CString
