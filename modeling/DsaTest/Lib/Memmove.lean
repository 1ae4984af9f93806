import DsaTest.Lib.CString
import DsaTest.Lib.Transfer

/-! `memmove` on a memory of bytes: as one step, in two parts, and byte by byte in an
order that reads every byte before it is overwritten. -/
namespace DsaTest.CString

def memmove (mem : Memory) (dest src size : Nat) : Memory := fun x =>
  if dest ≤ x ∧ x < dest + size then mem (src + (x - dest)) else mem x

variable {mem : Memory} {dest src lo size left right : Nat} {order : List Nat}

theorem memmove_inside {o : Nat} (inside : o < size) :
    memmove mem dest src size (dest + o) = mem (src + o) := by
  rw [memmove, if_pos (by omega), Nat.add_sub_cancel_left]

theorem memmove_outside {x : Nat} (outside : x < dest ∨ dest + size ≤ x) :
    memmove mem dest src size x = mem x := by
  rw [memmove, if_neg (by omega)]

@[simp] theorem memmove_zero (mem : Memory) (dest src : Nat) : memmove mem dest src 0 = mem := by
  funext x
  exact memmove_outside (by omega)

theorem eq_memmove {mem' : Memory} (inside : ∀ o < size, mem' (dest + o) = mem (src + o))
    (outside : ∀ x, (∀ o < size, x ≠ dest + o) → mem' x = mem x) :
    mem' = memmove mem dest src size := by
  funext x
  by_cases moved : dest ≤ x ∧ x < dest + size
  · obtain ⟨o, rfl⟩ := Nat.exists_eq_add_of_le moved.1
    rw [inside o (by omega), memmove_inside (by omega)]
  · rw [outside x (by omega), memmove_outside (by omega)]

theorem memmove_forward (safe : dest ≤ src ∨ src + (left + right) ≤ dest) :
    memmove (memmove mem dest src left) (dest + left) (src + left) right =
      memmove mem dest src (left + right) := by
  apply eq_memmove
  · intro o inside
    by_cases first : o < left
    · rw [memmove_outside (by omega), memmove_inside first]
    · obtain ⟨p, rfl⟩ := Nat.exists_eq_add_of_le (Nat.not_lt.mp first)
      rw [← Nat.add_assoc, memmove_inside (by omega), memmove_outside (by omega), Nat.add_assoc]
  · intro x outside
    have := outside (x - dest)
    rw [memmove_outside (by omega), memmove_outside (by omega)]

theorem memmove_forward_iff :
    (∀ mem, memmove (memmove mem dest src left) (dest + left) (src + left) right =
      memmove mem dest src (left + right)) ↔
    left = 0 ∨ right = 0 ∨ dest ≤ src ∨ src + (left + right) ≤ dest := by
  constructor
  · intro same
    by_contra clash
    simp only [not_or, Nat.not_le] at clash
    -- the first byte that is written and then read
    obtain ⟨o, here⟩ : ∃ o, max dest (src + left) = src + left + o := ⟨_, (Nat.add_sub_of_le
      (Nat.le_max_right dest (src + left))).symm⟩
    let mem : Memory := fun x => if x = src + left + o then 1 else 0
    have value := congrFun (same mem) (dest + left + o)
    have moved : memmove mem dest src (left + right) (dest + left + o) = 1 := by
      rw [Nat.add_assoc, memmove_inside (by omega), ← Nat.add_assoc]
      exact if_pos rfl
    have clobbered : memmove mem dest src left (src + left + o) = 0 := by
      rw [memmove, if_pos (by omega)]
      exact if_neg (by omega)
    rw [memmove_inside (by omega), clobbered, moved] at value
    contradiction
  · rintro (rfl | rfl | safe)
    · simp
    · simp
    · exact fun _ => memmove_forward safe

theorem memmove_self (mem : Memory) (dest size : Nat) : memmove mem dest dest size = mem := by
  funext x
  unfold memmove
  split
  next inside => rw [Nat.add_sub_of_le inside.1]
  next => rfl

/-- A copy is begun once more when nothing of the source has been overwritten. -/
theorem memmove_again_iff (part : left ≤ size) :
    (∀ mem, memmove (memmove mem dest src left) dest src size = memmove mem dest src size) ↔
    left = 0 ∨ dest = src ∨ src + size ≤ dest ∨ dest + left ≤ src := by
  constructor
  · intro same
    by_contra clash
    simp only [not_or, Nat.not_le] at clash
    -- the first byte of the source that is overwritten
    obtain ⟨o, here⟩ : ∃ o, max src dest = src + o := ⟨_, (Nat.add_sub_of_le
      (Nat.le_max_left src dest)).symm⟩
    let mem : Memory := fun x => if x = src + o then 1 else 0
    have value := congrFun (same mem) (dest + o)
    have clobbered : memmove mem dest src left (src + o) = 0 := by
      rw [memmove, if_pos (by omega)]
      exact if_neg (by omega)
    rw [memmove_inside (by omega), clobbered, memmove_inside (by omega)] at value
    exact absurd (value.trans (if_pos rfl)) (by decide)
  · rintro (rfl | rfl | apart) mem
    · simp
    · simp [memmove_self]
    · apply eq_memmove
      · intro o inside
        rw [memmove_inside inside, memmove_outside (by omega)]
      · intro x outside
        have := outside (x - dest)
        rw [memmove_outside (by omega), memmove_outside (by omega)]

theorem memmove_backward (safe : src ≤ dest) :
    memmove (memmove mem (dest + left) (src + left) right) dest src left =
      memmove mem dest src (left + right) := by
  apply eq_memmove
  · intro o inside
    by_cases first : o < left
    · rw [memmove_inside first, memmove_outside (by omega)]
    · obtain ⟨p, rfl⟩ := Nat.exists_eq_add_of_le (Nat.not_lt.mp first)
      rw [memmove_outside (by omega), ← Nat.add_assoc, memmove_inside (by omega), Nat.add_assoc]
  · intro x outside
    have := outside (x - dest)
    rw [memmove_outside (by omega), memmove_outside (by omega)]

/-- The bytes at these offsets, one after the other. -/
def moveEach (mem : Memory) (dest src : Nat) (order : List Nat) : Memory :=
  Transfer.run mem (order.map fun o => [(src + o, dest + o)])

theorem moveEach_cons (mem : Memory) (dest src o : Nat) (order : List Nat) :
    moveEach mem dest src (o :: order) =
      moveEach (Function.update mem (dest + o) (mem (src + o))) dest src order := by
  unfold moveEach
  rw [List.map_cons, Transfer.run_cons]
  congr 1
  funext x
  by_cases here : x = dest + o
  · simp [Transfer.effect, here]
  · simp [Transfer.effect, here, Ne.symm here]

/-- No byte is overwritten before it is read. -/
def Careful (dest src : Nat) (order : List Nat) : Prop :=
  order.Pairwise fun o p => dest + o ≠ src + p

instance (dest src : Nat) (order : List Nat) : Decidable (Careful dest src order) :=
  inferInstanceAs (Decidable (order.Pairwise _))

theorem moveEach_self (mem : Memory) (dest : Nat) (order : List Nat) :
    moveEach mem dest dest order = mem := by
  induction order with
  | nil => rfl
  | cons o order ih => rw [moveEach_cons, Function.update_eq_self, ih]

theorem moveEach_outside {x : Nat} (outside : ∀ o ∈ order, x ≠ dest + o) :
    moveEach mem dest src order x = mem x := by
  induction order generalizing mem with
  | nil => rfl
  | cons o order ih =>
    rw [List.forall_mem_cons] at outside
    rw [moveEach_cons, ih outside.2, Function.update_of_ne outside.1]

theorem moveEach_apart {n o : Nat} (apart : src + n ≤ dest ∨ dest + n ≤ src)
    (inside : ∀ o ∈ order, o < n) (member : o ∈ order) :
    moveEach mem dest src order (dest + o) = mem (src + o) := by
  induction order generalizing mem with
  | nil => simp at member
  | cons p order ih =>
    rw [List.forall_mem_cons] at inside
    rw [moveEach_cons]
    by_cases later : o ∈ order
    · have := inside.2 o later
      rw [ih inside.2 later, Function.update_of_ne (by omega)]
    · obtain rfl : o = p := (List.mem_cons.mp member).resolve_right later
      rw [moveEach_outside, Function.update_self]
      intro q other same
      exact later (Nat.add_left_cancel same ▸ other)

theorem moveEach_inside (careful : Careful dest src order) (once : order.Nodup) {o : Nat}
    (inside : o ∈ order) : moveEach mem dest src order (dest + o) = mem (src + o) := by
  induction order generalizing mem with
  | nil => simp at inside
  | cons p order ih =>
    obtain ⟨unread, careful⟩ := List.pairwise_cons.mp careful
    obtain ⟨fresh, once⟩ := List.nodup_cons.mp once
    rw [moveEach_cons]
    rcases List.mem_cons.mp inside with rfl | later
    · rw [moveEach_outside, Function.update_self]
      intro q member same
      exact fresh (Nat.add_left_cancel same ▸ member)
    · rw [ih careful once later, Function.update_of_ne (unread o later).symm]

theorem range_append_range' (k n : Nat) :
    List.range k ++ List.range' k n = List.range (k + n) := by
  rw [List.range_eq_range', List.range_eq_range', ← List.range'_append_1, Nat.zero_add]

theorem moveEach_range' (careful : Careful dest src order)
    (range : order.Perm (List.range' lo size)) :
    moveEach mem dest src order = memmove mem (dest + lo) (src + lo) size := by
  have once : order.Nodup := range.nodup_iff.mpr List.nodup_range'
  apply eq_memmove
  · intro o inside
    have member : lo + o ∈ order := range.mem_iff.mpr (by simp [inside])
    rw [Nat.add_assoc, moveEach_inside careful once member, Nat.add_assoc]
  · intro x outside
    apply moveEach_outside
    intro o member same
    obtain ⟨above, below⟩ := List.mem_range'_1.mp (range.mem_iff.mp member)
    exact outside (o - lo) (by omega) (by omega)

theorem careful_range (behind : dest ≤ src) (n : Nat) : Careful dest src (List.range n) :=
  List.pairwise_lt_range.imp fun before => by omega

theorem careful_reverse (ahead : src < dest) (n : Nat) :
    Careful dest src (List.range n).reverse :=
  List.pairwise_reverse.mpr (List.pairwise_lt_range.imp fun before => by omega)

theorem Careful.of_apart {n : Nat} (apart : src + n ≤ dest ∨ dest + n ≤ src)
    (inside : ∀ o ∈ order, o < n) : Careful dest src order := by
  apply List.Pairwise.imp_of_mem (R := fun _ _ => True)
  · intro o p left right _
    have := inside o left
    have := inside p right
    omega
  · exact List.pairwise_of_forall fun _ _ => trivial

end DsaTest.CString
