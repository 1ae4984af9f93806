import DsaTest.Descriptor

/-! What `idxd_desc_dma_submit_memcpy_sg` puts into a batch, and where it leaves the two
cursors for the next one. -/
namespace DsaTest

open CInt (toSigned toUnsigned)

def sizeofDsaCompletionRecord : Nat := 32

/-- A batch of `ents` pairs from two chains, with a slot of `compl_size` bytes for each of
their completion records; a cursor is `NULL` behind the end of its chain. -/
structure BatchContents (wq : IdxdWq) (g : Grant) (desc src : List Segment) (ents : Nat)
    (task : BatchTask) : Prop where
  count : task.batchInfo.subHwDescs.length = ents
  moves : ∀ i < ents, ∃ hw d s, task.batchInfo.subHwDescs[i]? = some hw ∧
    desc[i]? = some d ∧ src[i]? = some s ∧
    hw.operation = .memmove ⟨s.address, d.address, d.length⟩
  inside : ∀ hw ∈ task.batchInfo.subHwDescs, g.complsAddr ≤ hw.completionAddr ∧
    (hw.completionAddr + wq.complSize : Int) ≤ g.complsAddr + task.batchInfo.batchComplsSize
  apart : task.batchInfo.subHwDescs.Pairwise fun hw hw' =>
    hw.completionAddr + wq.complSize ≤ hw'.completionAddr
  nextSgDst : task.nextSgDst = desc.drop ents
  nextSgSrc : task.nextSgSrc = src.drop ents
  nullDst : task.nextSgDst = [] ↔ ents = desc.length
  nullSrc : task.nextSgSrc = [] ↔ ents = src.length

def BatchTask.memmoves (task : BatchTask) : List (Option Memmove) :=
  task.batchInfo.subHwDescs.map HwDesc.memmove?

/-- The next batch from the cursors that a batch has left: the two together are one batch
from the cursors before. -/
def Concatenates (wq : IdxdWq) (desc src : List Segment) (ents flags : Nat) (task : BatchTask) :
    Prop :=
  ∀ (g g' : Grant) (more : Nat), ents + more ≤ desc.length → ents + more ≤ src.length →
    ∃ later whole,
      idxdDescDmaSubmitMemcpySg wq (some g) task.nextSgDst task.nextSgSrc more flags = .made later ∧
      idxdDescDmaSubmitMemcpySg wq (some g') desc src (ents + more) flags = .made whole ∧
      task.memmoves ++ later.memmoves = whole.memmoves ∧
      later.nextSgDst = whole.nextSgDst ∧ later.nextSgSrc = whole.nextSgSrc

variable {wq : IdxdWq} {g : Grant} {desc src : List Segment} {ents flags : Nat} {task : BatchTask}

theorem forEach2Sg_getElem {β : Type} {body : Nat → Segment → Segment → β} {i len : Nat}
    {sg1 sg2 end1 end2 : List Segment} {results : List β}
    (walked : forEach2Sg body i len sg1 sg2 = some (results, end1, end2)) {k : Nat}
    (inside : k < len) :
    ∃ a b, sg1[k]? = some a ∧ sg2[k]? = some b ∧ results[k]? = some (body (i + k) a b) := by
  induction len generalizing i sg1 sg2 results k with
  | zero => contradiction
  | succ len ih =>
    cases sg1 with
    | nil => contradiction
    | cons head1 rest1 =>
      cases sg2 with
      | nil => contradiction
      | cons head2 rest2 =>
        simp only [forEach2Sg, Option.map_eq_some_iff, Prod.mk.injEq] at walked
        obtain ⟨⟨later, end1', end2'⟩, inner, rfl, rfl, rfl⟩ := walked
        cases k with
        | zero => exact ⟨head1, head2, rfl, rfl, rfl⟩
        | succ k =>
          have place : i + (k + 1) = i + 1 + k := by omega
          rw [place]
          exact ih inner (Nat.lt_of_succ_lt_succ inside)

theorem subHwDescs_getElem
    (made : idxdDescDmaSubmitMemcpySg wq (some g) desc src ents flags = .made task) {i : Nat}
    (inside : i < ents) : ∃ d s, desc[i]? = some d ∧ src[i]? = some s ∧
      task.batchInfo.subHwDescs[i]? = some (subHwDesc wq g flags i d s) := by
  simp only [idxdDescDmaSubmitMemcpySg] at made
  split at made
  next => contradiction
  next =>
    split at made
    next => contradiction
    next walked =>
      cases made
      obtain ⟨d, s, first, second, built⟩ := forEach2Sg_getElem walked inside
      rw [Nat.zero_add] at built
      exact ⟨d, s, first, second, built⟩

theorem completionAddr_eq {i : Nat} (fits : ents * wq.complSize < 2 ^ 31)
    (mapped : g.complsAddr + ents * wq.complSize ≤ 2 ^ 64)
    (record : sizeofDsaCompletionRecord ≤ wq.complSize) (inside : i < ents) (d s : Segment) :
    (subHwDesc wq g flags i d s).completionAddr = g.complsAddr + i * wq.complSize := by
  have below : i * wq.complSize + wq.complSize ≤ ents * wq.complSize := by
    rw [← Nat.succ_mul]
    exact Nat.mul_le_mul_right _ inside
  have positive : 0 < wq.complSize := Nat.lt_of_lt_of_le (by decide) record
  have product : toSigned 32 (i * wq.complSize) = (i * wq.complSize : Nat) := by
    have same := CInt.toSigned_of_fits (w := 31) (x := (i * wq.complSize : Nat)) (by omega) (by omega)
    push_cast at same ⊢
    exact same
  have address := CInt.toUnsigned_of_fits (w := 64)
    (x := (g.complsAddr + (i * wq.complSize : Nat) : Int)) (by omega) (by omega)
  simp only [subHwDesc, product]
  omega

theorem batchComplsSize_wraps
    (made : idxdDescDmaSubmitMemcpySg wq (some g) desc src ents flags = .made task) :
    task.batchInfo.batchComplsSize = toSigned 32 (ents * wq.complSize) := by
  simp only [idxdDescDmaSubmitMemcpySg] at made
  split at made
  next => cases made
  next =>
    split at made
    next => cases made
    next =>
      cases made
      push_cast
      rfl

theorem batchComplsSize_eq (fits : ents * wq.complSize < 2 ^ 31)
    (made : idxdDescDmaSubmitMemcpySg wq (some g) desc src ents flags = .made task) :
    task.batchInfo.batchComplsSize = (ents * wq.complSize : Nat) := by
  have product := CInt.toSigned_of_fits (w := 31) (x := (ents * wq.complSize : Nat)) (by omega)
    (by omega)
  rw [batchComplsSize_wraps made]
  push_cast at product ⊢
  exact product

theorem batchContents_of_made (enough : ents ≤ desc.length) (enough' : ents ≤ src.length)
    (fits : ents * wq.complSize < 2 ^ 31)
    (mapped : g.complsAddr + ents * wq.complSize ≤ 2 ^ 64)
    (record : sizeofDsaCompletionRecord ≤ wq.complSize)
    (made : idxdDescDmaSubmitMemcpySg wq (some g) desc src ents flags = .made task)
    (count : task.batchInfo.subHwDescs.length = ents) (nextSgDst : task.nextSgDst = desc.drop ents)
    (nextSgSrc : task.nextSgSrc = src.drop ents) : BatchContents wq g desc src ents task := by
  have slot (i : Nat) (inside : i < task.batchInfo.subHwDescs.length) :
      task.batchInfo.subHwDescs[i].completionAddr = g.complsAddr + i * wq.complSize := by
    rw [count] at inside
    obtain ⟨d, s, _, _, built⟩ := subHwDescs_getElem made inside
    obtain ⟨_, here⟩ := List.getElem?_eq_some_iff.mp built
    rw [here]
    exact completionAddr_eq fits mapped record inside d s
  exact
    { count := count
      moves := by
        intro i inside
        obtain ⟨d, s, first, second, built⟩ := subHwDescs_getElem made inside
        exact ⟨_, d, s, built, first, second, rfl⟩
      inside := by
        intro hw member
        obtain ⟨i, inside, same⟩ := List.getElem_of_mem member
        have address := slot i inside
        rw [same] at address
        have room : i * wq.complSize + wq.complSize ≤ ents * wq.complSize := by
          rw [← Nat.succ_mul]
          exact Nat.mul_le_mul_right _ (count ▸ inside)
        rw [batchComplsSize_eq fits made, address]
        constructor
        · exact Nat.le_add_right _ _
        · omega
      apart := by
        rw [List.pairwise_iff_getElem]
        intro i j inside inside' order
        have step : i * wq.complSize + wq.complSize ≤ j * wq.complSize := by
          rw [← Nat.succ_mul]
          exact Nat.mul_le_mul_right _ order
        rw [slot i inside, slot j inside']
        omega
      nextSgDst := nextSgDst
      nextSgSrc := nextSgSrc
      nullDst := by
        rw [nextSgDst, List.drop_eq_nil_iff]
        omega
      nullSrc := by
        rw [nextSgSrc, List.drop_eq_nil_iff]
        omega }

theorem concatenates (enabled : wq.enabled = true) (room : ents ≤ desc.length)
    (room' : ents ≤ src.length)
    (made : idxdDescDmaSubmitMemcpySg wq (some g) desc src ents flags = .made task) :
    Concatenates wq desc src ents flags task := by
  intro g₁ g₂ more enough enough'
  obtain ⟨_, same, srcs, dsts, _, _, moves⟩ := idxdDescDmaSubmitMemcpySg_eq enabled g room room' flags
  cases made.symm.trans same
  have left : more ≤ (desc.drop ents).length := by
    rw [List.length_drop]
    omega
  have left' : more ≤ (src.drop ents).length := by
    rw [List.length_drop]
    omega
  obtain ⟨later, next, srcs₁, dsts₁, _, _, moves₁⟩ :=
    idxdDescDmaSubmitMemcpySg_eq enabled g₁ left left' flags
  obtain ⟨whole, both, srcs₂, dsts₂, _, _, moves₂⟩ :=
    idxdDescDmaSubmitMemcpySg_eq enabled g₂ enough enough' flags
  refine ⟨later, whole, ?_, both, ?_, ?_, ?_⟩
  · rw [dsts, srcs]
    exact next
  · rw [BatchTask.memmoves, BatchTask.memmoves, BatchTask.memmoves, moves, moves₁, moves₂,
      List.take_add, List.take_add, List.zipWith_append]
    rw [List.length_take, List.length_take, Nat.min_eq_left room, Nat.min_eq_left room']
  · rw [dsts₁, dsts₂, List.drop_drop]
  · rw [srcs₁, srcs₂, List.drop_drop]

/-- A batch of `ents` pairs, where `ents * compl_size` is an `int`: its sub-descriptors are
the pairs in order, their records lie one behind the other in the buffer, and the next
batch goes on behind them. -/
theorem batch_contents (enabled : wq.enabled = true) (g : Grant) (enough : ents ≤ desc.length)
    (enough' : ents ≤ src.length) (record : sizeofDsaCompletionRecord ≤ wq.complSize)
    (fits : ents * wq.complSize < 2 ^ 31) (mapped : g.complsAddr + ents * wq.complSize ≤ 2 ^ 64)
    (flags : Nat) : ∃ task, idxdDescDmaSubmitMemcpySg wq (some g) desc src ents flags = .made task ∧
      BatchContents wq g desc src ents task ∧ Concatenates wq desc src ents flags task := by
  obtain ⟨task, made, srcs, dsts, _, count, _⟩ :=
    idxdDescDmaSubmitMemcpySg_eq enabled g enough enough' flags
  have contents := batchContents_of_made enough enough' fits mapped record made count dsts srcs
  exact ⟨task, made, contents, concatenates enabled enough enough' made⟩

def batchWq : IdxdWq where
  enabled := true
  maxXferBytes := 16384
  maxBatchSize := 4
  numDescs := 4
  complSize := 32
  pasid := some 1

def pageChain (base : Nat) : List Segment := (List.range 4).map fun i => ⟨base + i * 8192, 4096⟩

theorem batch_contents_three : ∃ task,
    idxdDescDmaSubmitMemcpySg batchWq (some ⟨0, 0x1000, 0x2000, 0x3000⟩) (pageChain 0x50000)
      (pageChain 0x10000) 3 0 = .made task ∧
    BatchContents batchWq ⟨0, 0x1000, 0x2000, 0x3000⟩ (pageChain 0x50000) (pageChain 0x10000) 3 task ∧
    Concatenates batchWq (pageChain 0x50000) (pageChain 0x10000) 3 0 task :=
  batch_contents rfl _ (by decide) (by decide) (by decide) (by decide) (by decide) 0

/-- `2 ^ 27 + 2` segments on each side: the size of their records, `2 ^ 32 + 64` bytes, is 64
in the `int` `batch_compls_size`. -/
theorem batch_contents_wide :
    ¬ ∀ (wq : IdxdWq) (g : Grant) (desc src : List Segment) (ents flags : Nat) (task : BatchTask),
      wq.enabled = true → sizeofDsaCompletionRecord ≤ wq.complSize → wq.complSize < 2 ^ 31 →
      1 ≤ ents → ents < 2 ^ 31 → ents ≤ desc.length → ents ≤ src.length →
      idxdDescDmaSubmitMemcpySg wq (some g) desc src ents flags = .made task →
      0 < task.batchInfo.batchComplsSize →
      g.complsAddr + task.batchInfo.batchComplsSize ≤ 2 ^ 64 →
      BatchContents wq g desc src ents task := by
  intro claim
  let g : Grant := ⟨0, 0x1000, 0x2000, 0x3000⟩
  let desc : List Segment := List.replicate 0x8000002 ⟨0x50000, 4096⟩
  let src : List Segment := List.replicate 0x8000002 ⟨0x10000, 4096⟩
  have long : 0x8000002 ≤ desc.length := Nat.le_of_eq List.length_replicate.symm
  have long' : 0x8000002 ≤ src.length := Nat.le_of_eq List.length_replicate.symm
  have enabled : batchWq.enabled = true := rfl
  obtain ⟨task, made, _⟩ := idxdDescDmaSubmitMemcpySg_eq enabled g long long' 0
  have size : task.batchInfo.batchComplsSize = 64 := by
    rw [batchComplsSize_wraps made]
    decide
  have contents := claim batchWq g desc src 0x8000002 0 task rfl (by decide) (by decide) (by decide)
    (by decide) long long' made (by rw [size]; decide) (by rw [size]; decide)
  obtain ⟨d, s, _, _, built⟩ := subHwDescs_getElem made (show 2 < 0x8000002 by decide)
  have bounds := (contents.inside _ (List.mem_of_getElem? built)).2
  have address : (subHwDesc batchWq g 0 2 d s).completionAddr = 0x2040 := by
    simp only [subHwDesc]
    decide
  rw [size, address] at bounds
  exact absurd bounds (by decide)

end DsaTest
