import DsaTest.PageLoop

/-! `my_mmap` of `vmalloc_to_userspace.c` and of `kmalloc_to_userspace.c`: which pages of the
area a mapping shows. -/
namespace DsaTest.ToUserspace

open CInt (toSigned toUnsigned)

/-- `struct vm_area_struct` of a request: whole pages of user space, at least one. -/
structure Vma where
  vmStart : Nat
  vmEnd : Nat
  vmPgoff : Nat
  vmPageProt : Nat
  startAligned : pageSize ∣ vmStart := by decide
  endAligned : pageSize ∣ vmEnd := by decide
  nonempty : vmStart < vmEnd := by decide
  user : vmEnd < 2 ^ 63 := by decide

def Vma.firstPage (vma : Vma) : Nat := vma.vmStart / pageSize

def Vma.pages (vma : Vma) : Nat := (vma.vmEnd - vma.vmStart) / pageSize

abbrev PageTable := Nat → Option Nat

/-- `remap_pfn_range(vma, addr, pfn, size, prot)`: 0 after the frames from `pfn` on have been
mapped, or an error; pages outside of the range stay as they are. -/
structure RemapPfnRange where
  call : Vma → PageTable → Nat → Nat → Nat → Nat → Int × PageTable
  nonpos : ∀ vma pt addr pfn size prot, (call vma pt addr pfn size prot).1 ≤ 0
  mapped : ∀ vma pt addr pfn size prot, pageSize ∣ addr →
    (call vma pt addr pfn size prot).1 = 0 → ∀ j, j * pageSize < size →
      (call vma pt addr pfn size prot).2 (addr / pageSize + j) = some (pfn + j)
  outside : ∀ vma pt addr pfn size prot, pageSize ∣ addr →
    ∀ p, p < addr / pageSize ∨ addr + size ≤ p * pageSize →
      (call vma pt addr pfn size prot).2 p = pt p

/-- An area of `NPAGES` pages at `base`, with the frame of each page. -/
structure Area where
  base : Nat
  frame : Nat → Nat

/-- `vmalloc_to_pfn`, or `page_to_pfn(virt_to_page(..))`. -/
def Area.toPfn (area : Area) (addr : Nat) : Nat := area.frame ((addr - area.base) / pageSize)

def kmallocArea (base pfn : Nat) : Area where
  base := base
  frame k := pfn + k

def eio : Int := 5

section

variable (n : PageCount) (remap : RemapPfnRange) (area : Area) (vma : Vma)

/-- `while (length > 0)` -/
def mapPages (start ptr : Nat) (length : Int) (pt : PageTable) : Int × PageTable :=
  if 0 < length then
    let (ret, pt) := remap.call vma pt start (area.toPfn ptr) pageSize vma.vmPageProt
    if ret < 0 then (ret, pt)
    else mapPages (start + pageSize) (ptr + pageSize) (length - pageSize) pt
  else (0, pt)
termination_by length.toNat
decreasing_by
  rw [pageSize_eq]
  omega

def Vma.length (vma : Vma) : Int := toSigned 64 (vma.vmEnd - vma.vmStart)

/-- `length > NPAGES * PAGE_SIZE`, a comparison of `unsigned long`. -/
def Vma.tooLong (vma : Vma) : Bool := toUnsigned 64 vma.length > toUnsigned 64 (n.npages * pageSize)

def vmallocMmap (pt : PageTable) : Int × PageTable :=
  if vma.tooLong n then (-eio, pt)
  else mapPages remap area vma vma.vmStart area.base vma.length pt

def kmallocMmap (pt : PageTable) : Int × PageTable :=
  if vma.tooLong n then (-eio, pt)
  else
    let (ret, pt) := remap.call vma pt vma.vmStart (area.toPfn area.base) vma.length.toNat
      vma.vmPageProt
    if ret < 0 then (ret, pt) else (0, pt)

end

/-- A call of `my_mmap` that returns 0 shows the pages of the area from page `offset` on, in
their order; what reaches beyond the area is refused, and nothing mapped. -/
structure Exposes (n : PageCount) (area : Area) (vma : Vma) (offset : Nat) (pt : PageTable)
    (result : Int × PageTable) : Prop where
  shows : result.1 = 0 → ∀ i < vma.pages,
    result.2 (vma.firstPage + i) = some (area.frame (offset + i))
  refused : n.npages < offset + vma.pages → result.1 < 0 ∧ result.2 = pt

/-- Two calls that return 0 leave the same pages in user space. -/
def SameView (one two : Int × PageTable) : Prop := one.1 = 0 → two.1 = 0 → one.2 = two.2

variable {n : PageCount} {remap : RemapPfnRange} {area : Area} {vma : Vma} {pt : PageTable}
  {s k m : Nat}

/-- How the pages from page `s` of user space on are mapped, to those of the area from page
`k` on. -/
structure Mapped (area : Area) (s k m : Nat) (pt : PageTable) (result : Int × PageTable) : Prop where
  shows : result.1 = 0 → ∀ j < m, result.2 (s + j) = some (area.frame (k + j))
  others : ∀ p, p < s ∨ s + m ≤ p → result.2 p = pt p

theorem Area.toPfn_page (area : Area) (k : Nat) :
    area.toPfn (area.base + k * pageSize) = area.frame k := by
  rw [toPfn, Nat.add_sub_cancel_left, Nat.mul_div_cancel k (by decide)]

theorem Mapped.first {rest : Int × PageTable} {mid : PageTable}
    (later : Mapped area (s + 1) (k + 1) m mid rest) (here : mid s = some (area.frame k))
    (same : ∀ p, p < s ∨ s + 1 ≤ p → mid p = pt p) : Mapped area s k (m + 1) pt rest where
  shows done j below := by
    cases j with
    | zero => exact (later.others s (.inl (Nat.lt_succ_self s))).trans here
    | succ j =>
      have there := later.shows done j (Nat.lt_of_succ_lt_succ below)
      rwa [Nat.add_assoc, Nat.add_comm 1, Nat.add_assoc, Nat.add_comm 1] at there
  others p outside := by
    rw [later.others p (by omega)]
    exact same p (by omega)

theorem mapPages_mapped (remap : RemapPfnRange) (area : Area) (vma : Vma) (pt : PageTable) :
    Mapped area s k m pt (mapPages remap area vma (s * pageSize) (area.base + k * pageSize)
      (m * pageSize : Nat) pt) := by
  induction m generalizing s k pt with
  | zero =>
    rw [mapPages, Nat.zero_mul]
    exact ⟨by simp, by simp⟩
  | succ m ih =>
    have more : (0 : Int) < ((m + 1) * pageSize : Nat) := by
      simp only [pageSize]
      omega
    have aligned : pageSize ∣ s * pageSize := Nat.dvd_mul_left ..
    have page : s * pageSize / pageSize = s := Nat.mul_div_cancel s (by decide)
    have outside := remap.outside vma pt (s * pageSize) (area.frame k) pageSize vma.vmPageProt aligned
    have mapped := remap.mapped vma pt (s * pageSize) (area.frame k) pageSize vma.vmPageProt aligned
    have others : ∀ p, p < s ∨ s + 1 ≤ p →
        (remap.call vma pt (s * pageSize) (area.frame k) pageSize vma.vmPageProt).2 p = pt p := by
      intro p apart
      apply outside
      rw [page, ← Nat.succ_mul]
      cases apart with
      | inl before => exact .inl before
      | inr after => exact .inr (Nat.mul_le_mul_right _ after)
    rw [mapPages, if_pos more, area.toPfn_page]
    simp only
    split
    next error =>
      refine ⟨fun done => ?_, fun p apart => others p (by omega)⟩
      simp only at done
      omega
    next fine =>
      have nonpos := remap.nonpos vma pt (s * pageSize) (area.frame k) pageSize vma.vmPageProt
      have zero : (remap.call vma pt (s * pageSize) (area.frame k) pageSize vma.vmPageProt).1 = 0 :=
        Int.le_antisymm nonpos (Int.not_lt.mp fine)
      have left : (((m + 1) * pageSize : Nat) : Int) - pageSize = (m * pageSize : Nat) := by
        rw [Nat.succ_mul]
        omega
      rw [left, ← Nat.succ_mul, Nat.add_assoc, ← Nat.succ_mul]
      apply (ih _).first _ others
      have first := mapped zero 0 (by decide)
      rwa [page] at first

theorem Vma.firstPage_mul (vma : Vma) : vma.firstPage * pageSize = vma.vmStart :=
  Nat.div_mul_cancel vma.startAligned

theorem Vma.pages_mul (vma : Vma) : vma.pages * pageSize = vma.vmEnd - vma.vmStart :=
  Nat.div_mul_cancel (Nat.dvd_sub vma.endAligned vma.startAligned)

theorem Vma.length_eq (vma : Vma) : vma.length = (vma.pages * pageSize : Nat) := by
  have user := vma.user
  have nonempty := vma.nonempty
  rw [Vma.length, vma.pages_mul, CInt.toSigned_of_fits (by omega) (by omega)]
  omega

theorem Vma.tooLong_iff (n : PageCount) (vma : Vma) :
    vma.tooLong n = true ↔ n.npages < vma.pages := by
  have user := vma.user
  have pages := vma.pages_mul
  have same := CInt.toUnsigned_of_fits (w := 64) (x := (vma.pages * pageSize : Nat)) (by omega)
    (by omega)
  rw [Int.ofNat_inj] at same
  rw [Vma.tooLong, vma.length_eq, same, unsigned_size n.bound, decide_eq_true_eq]
  exact Nat.mul_lt_mul_right (by decide)

theorem Mapped.exposes {result : Int × PageTable} (fits : vma.pages ≤ n.npages)
    (mapped : Mapped area vma.firstPage 0 vma.pages pt result) : Exposes n area vma 0 pt result where
  shows := mapped.shows
  refused _ := by omega

theorem exposes_refused : Exposes n area vma 0 pt (-eio, pt) where
  shows done := by contradiction
  refused _ := ⟨show -eio < 0 by decide, rfl⟩

theorem vmallocMmap_mapped (fits : vma.pages ≤ n.npages) :
    Mapped area vma.firstPage 0 vma.pages pt (vmallocMmap n remap area vma pt) := by
  have mapped : Mapped area vma.firstPage 0 vma.pages pt (mapPages remap area vma
      (vma.firstPage * pageSize) (area.base + 0 * pageSize) (vma.pages * pageSize : Nat) pt) :=
    mapPages_mapped remap area vma pt
  rw [vma.firstPage_mul, Nat.zero_mul, Nat.add_zero, ← vma.length_eq] at mapped
  rw [vmallocMmap, if_neg]
  · exact mapped
  · rw [vma.tooLong_iff]
    omega

theorem kmallocMmap_mapped (base pfn : Nat) (fits : vma.pages ≤ n.npages) :
    Mapped (kmallocArea base pfn) vma.firstPage 0 vma.pages pt
      (kmallocMmap n remap (kmallocArea base pfn) vma pt) := by
  have first : (kmallocArea base pfn).toPfn (kmallocArea base pfn).base = pfn := by
    have page := (kmallocArea base pfn).toPfn_page 0
    rwa [Nat.zero_mul, Nat.add_zero] at page
  have mapped := remap.mapped vma pt vma.vmStart pfn (vma.pages * pageSize) vma.vmPageProt
    vma.startAligned
  have outside := remap.outside vma pt vma.vmStart pfn (vma.pages * pageSize) vma.vmPageProt
    vma.startAligned
  have others : ∀ p, p < vma.firstPage ∨ vma.firstPage + vma.pages ≤ p →
      (remap.call vma pt vma.vmStart pfn (vma.pages * pageSize) vma.vmPageProt).2 p = pt p := by
    intro p apart
    apply outside
    rw [← vma.firstPage_mul, ← Nat.add_mul, Nat.mul_div_cancel _ (by decide)]
    cases apart with
    | inl before => exact .inl before
    | inr after => exact .inr (Nat.mul_le_mul_right _ after)
  have whole : vma.length.toNat = vma.pages * pageSize := by rw [vma.length_eq, Int.toNat_natCast]
  rw [kmallocMmap, if_neg, first, whole]
  · simp only
    split
    next error =>
      refine ⟨fun done => ?_, others⟩
      simp only at done
      omega
    next fine =>
      have nonpos := remap.nonpos vma pt vma.vmStart pfn (vma.pages * pageSize) vma.vmPageProt
      have zero : (remap.call vma pt vma.vmStart pfn (vma.pages * pageSize) vma.vmPageProt).1 = 0 :=
        Int.le_antisymm nonpos (Int.not_lt.mp fine)
      refine ⟨fun _ j below => ?_, others⟩
      rw [kmallocArea, Nat.zero_add]
      exact mapped zero j (Nat.mul_lt_mul_of_pos_right below (by decide))
  · rw [vma.tooLong_iff]
    omega

theorem Mapped.sameView {one two : Int × PageTable} (first : Mapped area s k m pt one)
    (second : Mapped area s k m pt two) : SameView one two := by
  intro done done'
  funext p
  by_cases outside : p < s ∨ s + m ≤ p
  · rw [first.others p outside, second.others p outside]
  · rw [not_or, Nat.not_lt, Nat.not_le] at outside
    obtain ⟨j, rfl⟩ := Nat.exists_eq_add_of_le outside.1
    rw [first.shows done j (by omega), second.shows done' j (by omega)]

section

variable (willing : ∀ pt addr pfn size prot, (remap.call vma pt addr pfn size prot).1 = 0)
include willing

theorem mapPages_returns (start ptr : Nat) (length : Int) (pt : PageTable) :
    (mapPages remap area vma start ptr length pt).1 = 0 := by
  fun_induction mapPages remap area vma start ptr length pt with
  | case1 start ptr length pt more ret pt' call error =>
    have zero := willing pt start (area.toPfn ptr) pageSize vma.vmPageProt
    rw [call] at zero
    exact zero
  | case2 start ptr length pt more ret pt' call fine ih => exact ih
  | case3 => rfl

theorem mmap_returns_iff (n : PageCount) (pt : PageTable) :
    ((vmallocMmap n remap area vma pt).1 = 0 ↔ vma.pages ≤ n.npages) ∧
      ((kmallocMmap n remap area vma pt).1 = 0 ↔ vma.pages ≤ n.npages) := by
  have long := vma.tooLong_iff n
  by_cases beyond : n.npages < vma.pages
  · have error : ¬ -eio = 0 := by decide
    rw [vmallocMmap, kmallocMmap, if_pos (long.mpr beyond), if_pos (long.mpr beyond)]
    simp only [error, false_iff, Nat.not_le, and_self]
    exact beyond
  · have zero := willing pt vma.vmStart (area.toPfn area.base) vma.length.toNat vma.vmPageProt
    rw [vmallocMmap, kmallocMmap, if_neg (mt long.mp beyond), if_neg (mt long.mp beyond)]
    refine ⟨iff_of_true (mapPages_returns willing _ _ _ _) (by omega), iff_of_true ?_ (by omega)⟩
    simp [zero]

end

/-- Whatever the offset of the request, a mapping shows the area from its first page on, and a
request longer than the area is refused; over the same frames, the two versions leave the
same pages in user space. -/
theorem mmap_exposes (n : PageCount) (remap : RemapPfnRange) (area : Area) (base pfn : Nat)
    (vma : Vma) (pt : PageTable) :
    Exposes n area vma 0 pt (vmallocMmap n remap area vma pt) ∧
      Exposes n (kmallocArea base pfn) vma 0 pt (kmallocMmap n remap (kmallocArea base pfn) vma pt) ∧
      SameView (vmallocMmap n remap (kmallocArea base pfn) vma pt)
        (kmallocMmap n remap (kmallocArea base pfn) vma pt) := by
  by_cases fits : vma.pages ≤ n.npages
  · exact ⟨(vmallocMmap_mapped fits).exposes fits, (kmallocMmap_mapped base pfn fits).exposes fits,
      (vmallocMmap_mapped fits).sameView (kmallocMmap_mapped base pfn fits)⟩
  · rw [Nat.not_le] at fits
    have long := (vma.tooLong_iff n).mpr fits
    rw [vmallocMmap, vmallocMmap, kmallocMmap, if_pos long, if_pos long, if_pos long]
    exact ⟨exposes_refused, exposes_refused, fun _ _ => rfl⟩

def remapAll : RemapPfnRange where
  call _ pt addr pfn size _ := (0, fun p =>
    if addr / pageSize ≤ p ∧ p * pageSize < addr + size then some (pfn + (p - addr / pageSize))
    else pt p)
  nonpos := by simp
  mapped := by
    intro vma pt addr pfn size prot aligned _ j below
    have page := Nat.div_mul_cancel aligned
    have inside : (addr / pageSize + j) * pageSize < addr + size := by
      rw [Nat.add_mul, page]
      omega
    simp [inside]
  outside := by
    intro vma pt addr pfn size prot aligned p apart
    simp only
    rw [if_neg (by omega)]

def fourPages : Vma where
  vmStart := 0x10000
  vmEnd := 0x14000
  vmPgoff := 2
  vmPageProt := 0

/-- Both versions show pages 0 to 3. -/
theorem mmap_exposes_fourPages :
    (∀ i < 4, (vmallocMmap { npages := 1024 } remapAll ⟨0, (7 * ·)⟩ fourPages fun _ => none).2
      (16 + i) = some (7 * i)) ∧
    ∀ i < 4, (kmallocMmap { npages := 1024 } remapAll (kmallocArea 0 100) fourPages fun _ => none).2
      (16 + i) = some (100 + i) := by
  have willing : ∀ pt addr pfn size prot, (remapAll.call fourPages pt addr pfn size prot).1 = 0 :=
    fun _ _ _ _ _ => rfl
  obtain ⟨scattered, contiguous, -⟩ :=
    mmap_exposes { npages := 1024 } remapAll ⟨0, (7 * ·)⟩ 0 100 fourPages fun _ => none
  constructor
  · intro i below
    have shown := scattered.shows ((mmap_returns_iff willing _ _).1.mpr (by decide)) i below
    rwa [Nat.zero_add] at shown
  · intro i below
    have shown := contiguous.shows ((mmap_returns_iff willing _ _).2.mpr (by decide)) i below
    rwa [Nat.zero_add] at shown

def secondPage : Vma where
  vmStart := 0x10000
  vmEnd := 0x11000
  vmPgoff := 1
  vmPageProt := 0

/-- It is shown page 0. -/
theorem mmap_ignores_offset :
    ¬ ∀ (n : PageCount) (remap : RemapPfnRange) (area : Area) (vma : Vma) (pt : PageTable),
      Exposes n area vma vma.vmPgoff pt (vmallocMmap n remap area vma pt) := by
  intro claim
  have exposed := claim { npages := 1024 } remapAll ⟨0, id⟩ secondPage fun _ => none
  have mapped : Mapped ⟨0, id⟩ secondPage.firstPage 0 secondPage.pages (fun _ => none)
      (vmallocMmap { npages := 1024 } remapAll ⟨0, id⟩ secondPage fun _ => none) :=
    vmallocMmap_mapped (by decide)
  have done : (vmallocMmap { npages := 1024 } remapAll ⟨0, id⟩ secondPage fun _ => none).1 = 0 :=
    (mmap_returns_iff (fun _ _ _ _ _ => rfl) _ _).1.mpr (by decide)
  have wrong := (mapped.shows done 0 (by decide)).symm.trans (exposed.shows done 0 (by decide))
  contradiction

end DsaTest.ToUserspace
