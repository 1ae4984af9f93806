import DsaTest.PageLoop
import DsaTest.Lib.CString

/-! The check with `memcmp` at the end of `dsa_copy`, against the stamps that `init_region`
writes into the two areas: which bytes it can miss. -/
namespace DsaTest

open CInt (toUnsigned)
open CString (Memory bytesOf sprintf strlen memset memcmp)

/-- The stamp of a page: the name of its area and its number. -/
def stampText (name : String) (page : Nat) : List UInt8 :=
  bytesOf (name.toList ++ ' ' :: Nat.toDigits 10 page)

def filler : UInt8 := 48

/-- `sprintf(area + i, ..)` and the `memset` behind the string. -/
def stampPage (name : String) (area : Memory) (i : Int) : Memory :=
  let area := sprintf area i.toNat (stampText name (toUnsigned 64 i / pageSize))
  let length := strlen pageSize area i.toNat
  memset area (i.toNat + length + 1) filler (pageSize - length - 1)

namespace PageCount

variable (n : PageCount)

def size : Nat := n.npages * pageSize

/-- The loop never needs more fuel. -/
def offsets : List Int := (pageLoop n.npages (n.npages + 1) 0).getD []

/-- The last loop of `init_region`, for one area. -/
def stampArea (name : String) (area : Memory) : Memory := n.offsets.foldl (stampPage name) area

end PageCount

inductive Report
  | dsaSuccess
  | dsaFail
  deriving DecidableEq, Repr

/-- `memcmp(vmalloc_area, vmalloc_area2, NPAGES * PAGE_SIZE)` and what is printed for it. -/
def selfCheck (n : PageCount) (area area2 : Memory) : Report :=
  if memcmp area area2 n.size = 0 then .dsaSuccess else .dsaFail

/-- The destination after the device has copied some bytes. -/
def copyBytes (copied : Nat → Bool) (area area2 : Memory) : Memory := fun x =>
  if copied x then area x else area2 x

/-- `init_region` on the two areas, a copy of some bytes, and the check. -/
def checkedCopy (n : PageCount) (area area2 : Memory) (copied : Nat → Bool) : Report :=
  selfCheck n (n.stampArea "vmalloc" area)
    (copyBytes copied (n.stampArea "vmalloc" area) (n.stampArea "vmalloc2" area2))

/-- The check finds every copy that has left a byte out. -/
def Detects (n : PageCount) (area area2 : Memory) (copied : Nat → Bool) : Prop :=
  checkedCopy n area area2 copied = .dsaSuccess → ∀ x < n.size, copied x = true

/-- The offsets in page `p` at which the two stamps differ: the blank and the `2` behind the
name, the digits that are not the same as the one before, the terminators. -/
inductive Marked (p : Nat) : Nat → Prop
  | name : Marked p 7
  | blank : Marked p 8
  | digit {k} : 0 < k → k < (Nat.toDigits 10 p).length →
      (Nat.toDigits 10 p)[k]? ≠ (Nat.toDigits 10 p)[k - 1]? → Marked p (8 + k)
  | terminator : Marked p (8 + (Nat.toDigits 10 p).length)
  | terminator2 : Marked p (9 + (Nat.toDigits 10 p).length)

/-- Where the two areas differ before the copy. Pages that an `int` offset does not reach
are as `vmalloc` has left them. -/
def Differs (area area2 : Memory) (x : Nat) : Prop :=
  if x / pageSize < intPages then Marked (x / pageSize) (x % pageSize) else area x ≠ area2 x

variable {n : PageCount} {area area2 : Memory} {p o : Nat}

theorem offsets_eq (n : PageCount) : n.offsets = offsetsOf (min n.npages intPages) := by
  have enough : min n.npages intPages < n.npages + 1 := Nat.lt_succ_of_le (Nat.min_le_left _ _)
  rw [PageCount.offsets, pageLoop_eq n.bound enough]
  rfl

def stampByte (text : List UInt8) (o : Nat) : UInt8 := ((text ++ [0])[o]?).getD filler

theorem stampPage_eq {name : String} (below : p < intPages)
    (room : (stampText name p).length < pageSize) (printed : ∀ c ∈ stampText name p, c ≠ 0)
    (x : Nat) : stampPage name area (p * pageSize : Int) x =
      if x / pageSize = p then stampByte (stampText name p) (x % pageSize) else area x := by
  have start : ((p * pageSize : Int)).toNat = p * pageSize := by
    rw [pageSize_eq]
    simp only [pageSize]
    omega
  have number : toUnsigned 64 (p * pageSize : Int) / pageSize = p := by
    rw [← offsetAt_of_lt below, unsigned_offsetAt below]
    exact Nat.mul_div_cancel _ (by decide)
  simp only [stampPage, start, number, CString.strlen_sprintf room printed, memset]
  have split : p * pageSize + x % pageSize = x ↔ x / pageSize = p := by
    simp only [pageSize]
    omega
  by_cases here : x / pageSize = p
  · rw [if_pos here]
    have place := split.mpr here
    by_cases text : x % pageSize ≤ (stampText name p).length
    · rw [if_neg (by omega)]
      have byte : sprintf area (p * pageSize) (stampText name p) (p * pageSize + x % pageSize) =
          ((stampText name p ++ [0])[x % pageSize]?).getD 0 := CString.sprintf_inside text
      rw [place] at byte
      rw [byte, stampByte, List.getElem?_eq_getElem (by simpa using Nat.lt_succ_of_le text)]
      rfl
    · have inside : x % pageSize < pageSize := Nat.mod_lt _ (by decide)
      rw [if_pos (by omega), stampByte, List.getElem?_eq_none (by simp; omega)]
      rfl
  · rw [if_neg here, if_neg]
    · apply CString.sprintf_outside
      simp only [pageSize] at *
      omega
    · simp only [pageSize] at *
      omega

theorem digits_length {p : Nat} (below : p < intPages) : (Nat.toDigits 10 p).length ≤ 6 := by
  rw [lt_intPages] at below
  rw [Nat.length_toDigits_le_iff (by decide) (by decide)]
  omega

theorem digit_printed {c : Char} (digit : c ∈ Nat.toDigits 10 p) :
    48 ≤ c.toNat ∧ c.toNat ≤ 57 := by
  have kind := Nat.isDigit_of_mem_toDigits (by decide) (by decide) digit
  rw [Char.isDigit, Bool.and_eq_true, decide_eq_true_eq, decide_eq_true_eq] at kind
  exact ⟨UInt32.le_iff_toNat_le.mp kind.1, UInt32.le_iff_toNat_le.mp kind.2⟩

theorem digit_byte {c : Char} (digit : c ∈ Nat.toDigits 10 p) :
    c.toNat.toUInt8.toNat = c.toNat := by
  have range := digit_printed digit
  simp only [Nat.toUInt8, UInt8.toNat_ofNat']
  omega

def stampTail (p : Nat) : List UInt8 := bytesOf (' ' :: Nat.toDigits 10 p) ++ [0]

def tailByte (p k : Nat) : UInt8 := ((stampTail p)[k]?).getD filler

theorem tailByte_digit {k : Nat} (inside : k < (Nat.toDigits 10 p).length) :
    tailByte p (k + 1) = (Nat.toDigits 10 p)[k].toNat.toUInt8 := by
  have here : k < ((Nat.toDigits 10 p).map fun c => c.toNat.toUInt8).length := by simpa using inside
  simp only [tailByte, stampTail, bytesOf, List.map_cons, List.cons_append, List.getElem?_cons_succ]
  rw [List.getElem?_append_left here, List.getElem?_eq_getElem here, List.getElem_map]
  rfl

theorem tailByte_terminator : tailByte p ((Nat.toDigits 10 p).length + 1) = 0 := by
  simp [tailByte, stampTail, bytesOf]

theorem tailByte_filler {k : Nat} (behind : (Nat.toDigits 10 p).length < k) :
    tailByte p (k + 1) = filler := by
  rw [tailByte, List.getElem?_eq_none (by simp [stampTail, bytesOf]; omega)]
  rfl

theorem stampByte_vmalloc (k : Nat) : stampByte (stampText "vmalloc" p) (7 + k) = tailByte p k := by
  have text : stampText "vmalloc" p ++ [0] = bytesOf "vmalloc".toList ++ stampTail p := by
    simp [stampText, stampTail, bytesOf]
  rw [stampByte, text, List.getElem?_append_right (by simp [bytesOf])]
  simp [bytesOf, tailByte]

theorem stampByte_vmalloc2 (k : Nat) :
    stampByte (stampText "vmalloc2" p) (8 + k) = tailByte p k := by
  have text : stampText "vmalloc2" p ++ [0] = bytesOf "vmalloc2".toList ++ stampTail p := by
    simp [stampText, stampTail, bytesOf]
  rw [stampByte, text, List.getElem?_append_right (by simp [bytesOf])]
  simp [bytesOf, tailByte]

theorem tailByte_blank : tailByte p 0 = 32 := rfl

theorem tailByte_digit_ne {k : Nat} (inside : k < (Nat.toDigits 10 p).length) :
    tailByte p (k + 1) ≠ 32 ∧ tailByte p (k + 1) ≠ 0 := by
  have member := List.getElem_mem inside
  have range := digit_printed member
  have byte := digit_byte member
  rw [tailByte_digit inside]
  constructor
  · intro same
    rw [same] at byte
    change 32 = _ at byte
    omega
  · intro same
    rw [same] at byte
    change 0 = _ at byte
    omega

theorem tailByte_digits_iff {k : Nat} (inside : k + 1 < (Nat.toDigits 10 p).length) :
    tailByte p (k + 2) = tailByte p (k + 1) ↔
      (Nat.toDigits 10 p)[k + 1]? = (Nat.toDigits 10 p)[k]? := by
  have before : k < (Nat.toDigits 10 p).length := by omega
  rw [tailByte_digit inside, tailByte_digit before, List.getElem?_eq_getElem inside,
    List.getElem?_eq_getElem before, Option.some_inj, ← UInt8.toNat_inj,
    digit_byte (List.getElem_mem inside), digit_byte (List.getElem_mem before), Char.toNat_inj]

/-- The second stamp is the first with one byte more in front of the tail, so they differ
where the tail changes from one byte to the next. -/
theorem tailByte_changes_iff (k : Nat) :
    tailByte p (k + 1) ≠ tailByte p k ↔ Marked p (8 + k) := by
  have some_ : 0 < (Nat.toDigits 10 p).length := Nat.length_toDigits_pos
  constructor
  · intro changes
    rcases Nat.lt_trichotomy k (Nat.toDigits 10 p).length with below | last | above
    · cases k with
      | zero => exact .blank
      | succ k =>
        rw [ne_eq, tailByte_digits_iff below] at changes
        exact .digit (Nat.succ_pos k) below changes
    · rw [last]
      exact .terminator
    · by_cases next : k = (Nat.toDigits 10 p).length + 1
      · have place : 8 + k = 9 + (Nat.toDigits 10 p).length := by omega
        rw [place]
        exact .terminator2
      · obtain ⟨j, rfl⟩ := Nat.exists_eq_succ_of_ne_zero (show k ≠ 0 by omega)
        rw [tailByte_filler above, tailByte_filler (by omega)] at changes
        contradiction
  · intro marked same
    generalize place : 8 + k = o at marked
    cases marked with
    | name => omega
    | blank =>
      have first : k = 0 := by omega
      subst first
      exact (tailByte_digit_ne some_).1 (same.trans tailByte_blank)
    | @digit j positive inside differ =>
      have here : k = j - 1 + 1 := by omega
      subst here
      rw [tailByte_digits_iff (by omega)] at same
      have number : j - 1 + 1 = j := by omega
      rw [number] at same
      exact differ same
    | terminator =>
      have here : k = (Nat.toDigits 10 p).length - 1 + 1 := by omega
      have last := (tailByte_digit_ne (p := p) (k := (Nat.toDigits 10 p).length - 1) (by omega)).2
      have number : k = (Nat.toDigits 10 p).length := by omega
      rw [← here, ← same, number] at last
      exact last tailByte_terminator
    | terminator2 =>
      have here : k = (Nat.toDigits 10 p).length + 1 := by omega
      subst here
      rw [tailByte_terminator, tailByte_filler (Nat.lt_succ_self _)] at same
      exact absurd same (by decide)

theorem Marked.seven_le (marked : Marked p o) : 7 ≤ o := by
  cases marked <;> omega

theorem stamps_differ_iff : stampByte (stampText "vmalloc" p) o ≠ stampByte (stampText "vmalloc2" p) o ↔
    Marked p o := by
  by_cases name : o < 7
  · have same : stampByte (stampText "vmalloc" p) o = stampByte (stampText "vmalloc2" p) o := by
      have cases : o = 0 ∨ o = 1 ∨ o = 2 ∨ o = 3 ∨ o = 4 ∨ o = 5 ∨ o = 6 := by omega
      rcases cases with rfl | rfl | rfl | rfl | rfl | rfl | rfl <;> rfl
    constructor
    · intro differ
      exact absurd same differ
    · intro marked
      exact absurd name (Nat.not_lt_of_le marked.seven_le)
  · by_cases first : o = 7
    · subst first
      constructor
      · intro _
        exact .name
      · intro _ same
        have blank : stampByte (stampText "vmalloc" p) 7 = 32 := stampByte_vmalloc 0
        have two : stampByte (stampText "vmalloc2" p) 7 = 50 := rfl
        rw [blank, two] at same
        exact absurd same (by decide)
    · obtain ⟨k, rfl⟩ := Nat.exists_eq_add_of_le (show 8 ≤ o by omega)
      have here : stampByte (stampText "vmalloc" p) (8 + k) = tailByte p (k + 1) := by
        rw [← stampByte_vmalloc]
        congr 1
        omega
      rw [here, stampByte_vmalloc2]
      exact tailByte_changes_iff k

structure AreaName (name : String) : Prop where
  short : name.toList.length ≤ 16
  printed : name.toList.all (fun c => c.toNat.toUInt8 ≠ 0) = true

theorem areaName_vmalloc : AreaName "vmalloc" := ⟨by decide, by decide⟩

theorem areaName_vmalloc2 : AreaName "vmalloc2" := ⟨by decide, by decide⟩

theorem AreaName.room {name : String} (ok : AreaName name) (below : p < intPages) :
    (stampText name p).length < pageSize := by
  have short := ok.short
  have digits := digits_length below
  simp only [stampText, bytesOf, List.length_map, List.length_append, List.length_cons, pageSize]
  omega

theorem AreaName.printed_text {name : String} (ok : AreaName name) :
    ∀ c ∈ stampText name p, c ≠ 0 := by
  intro c member
  obtain ⟨char, inside, rfl⟩ := List.mem_map.mp member
  rcases List.mem_append.mp inside with named | blank
  · simpa using List.all_eq_true.mp ok.printed char named
  · rcases List.mem_cons.mp blank with rfl | digit
    · decide
    · intro zero
      have byte := digit_byte digit
      have range := digit_printed digit
      rw [zero] at byte
      change 0 = _ at byte
      omega

theorem stampArea_eq {name : String} (ok : AreaName name) (n : PageCount) (area : Memory) (x : Nat) :
    n.stampArea name area x =
      if x / pageSize < min n.npages intPages then
        stampByte (stampText name (x / pageSize)) (x % pageSize)
      else area x := by
  have pages (m : Nat) (within : m ≤ intPages) :
      (offsetsOf m).foldl (stampPage name) area x =
        if x / pageSize < m then stampByte (stampText name (x / pageSize)) (x % pageSize)
        else area x := by
    induction m with
    | zero => simp [offsetsOf]
    | succ m ih =>
      have next : offsetsOf (m + 1) = offsetsOf m ++ [(m * pageSize : Int)] := by
        simp [offsetsOf, List.range_succ]
      have below : m < intPages := within
      rw [next, List.foldl_append, List.foldl_cons, List.foldl_nil,
        stampPage_eq below (ok.room below) ok.printed_text, ih (Nat.le_of_lt below)]
      by_cases here : x / pageSize = m
      · rw [if_pos here, if_pos (by omega), here]
      · rw [if_neg here]
        by_cases before : x / pageSize < m
        · rw [if_pos before, if_pos (by omega)]
        · rw [if_neg before, if_neg (by omega)]
  rw [PageCount.stampArea, offsets_eq]
  exact pages _ (Nat.min_le_right _ _)

theorem areas_differ_iff (n : PageCount) (area area2 : Memory) {x : Nat} (inside : x < n.size) :
    n.stampArea "vmalloc" area x ≠ n.stampArea "vmalloc2" area2 x ↔ Differs area area2 x := by
  have page : x / pageSize < n.npages := Nat.div_lt_of_lt_mul (by rwa [Nat.mul_comm])
  rw [stampArea_eq areaName_vmalloc, stampArea_eq areaName_vmalloc2, Differs]
  by_cases reached : x / pageSize < intPages
  · rw [if_pos (by omega), if_pos (by omega), if_pos reached]
    exact stamps_differ_iff
  · rw [if_neg (by omega), if_neg (by omega), if_neg reached]

theorem checkedCopy_eq_success_iff (n : PageCount) (area area2 : Memory) (copied : Nat → Bool) :
    checkedCopy n area area2 copied = .dsaSuccess ↔
      ∀ x < n.size, copied x = false → ¬ Differs area area2 x := by
  have equal : checkedCopy n area area2 copied = .dsaSuccess ↔
      ∀ x < n.size, n.stampArea "vmalloc" area x =
        copyBytes copied (n.stampArea "vmalloc" area) (n.stampArea "vmalloc2" area2) x := by
    rw [checkedCopy, selfCheck, ← CString.memcmp_eq_zero_iff]
    split
    next same => exact ⟨fun _ => same, fun _ => rfl⟩
    next other => exact ⟨fun report => absurd report (by decide), fun same => absurd same other⟩
  rw [equal]
  apply forall₂_congr
  intro x inside
  rw [← areas_differ_iff n area area2 inside, not_not, copyBytes]
  cases copied x with
  | true => simp
  | false => simp

/-- A copy that leaves bytes out is found exactly where one of them is marked. -/
theorem self_check_detects_iff (n : PageCount) (area area2 : Memory) (copied : Nat → Bool) :
    Detects n area area2 copied ↔ (∀ x < n.size, copied x = true) ∨
      ∃ x < n.size, copied x = false ∧ Differs area area2 x := by
  rw [Detects, checkedCopy_eq_success_iff]
  constructor
  · intro detects
    by_cases missed : ∃ x < n.size, copied x = false ∧ Differs area area2 x
    · exact .inr missed
    · apply Or.inl
      apply detects
      intro x inside out differs
      exact missed ⟨x, inside, out, differs⟩
  · intro found success
    cases found with
    | inl whole => exact whole
    | inr missed =>
      obtain ⟨x, inside, out, differs⟩ := missed
      exact absurd differs (success x inside out)

/-- One page of which the first byte is not copied. -/
theorem self_check_misses :
    ¬ ∀ (n : PageCount) (area area2 : Memory) (copied : Nat → Bool), Detects n area area2 copied := by
  intro claim
  have detects := claim { npages := 1 } (fun _ => 0) (fun _ => 0) fun x => x ≠ 0
  have success : checkedCopy { npages := 1 } (fun _ => 0) (fun _ => 0) (fun x => x ≠ 0) =
      .dsaSuccess := by
    rw [checkedCopy_eq_success_iff]
    intro x _ out differs
    have first : x = 0 := by simpa using out
    rw [first] at differs
    have marked : 7 ≤ 0 := Marked.seven_le (p := 0) differs
    omega
  exact absurd (detects success 0 (by decide)) (by decide)

end DsaTest
