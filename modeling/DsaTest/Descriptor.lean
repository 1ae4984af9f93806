import DsaTest.Lib.CInt
import Mathlib.Data.List.Basic

/-! The descriptor builders of `kernel_test.h`. -/
namespace DsaTest

open CInt (toSigned toUnsigned)

/-- `sg_dma_address` and `sg_dma_len` of a mapped entry. -/
structure Segment where
  address : Nat
  length : Nat
  deriving DecidableEq, Repr

structure Memmove where
  srcAddr : Nat
  dstAddr : Nat
  xferSize : Nat
  deriving DecidableEq, Repr

/-- The opcodes in use, each with its members of the unions of `struct dsa_hw_desc`. -/
inductive Operation
  | memmove (m : Memmove)
  | batch (descListAddr descCount : Nat)
  deriving DecidableEq, Repr

structure HwDesc where
  flags : Nat
  operation : Operation
  priv : Nat
  completionAddr : Nat
  pasid : Option Nat
  deriving DecidableEq, Repr

def opFlagBof : Nat := 0x0002
def opFlagCrav : Nat := 0x0004
def opFlagRcr : Nat := 0x0008
def opFlagRci : Nat := 0x0010
def opFlagCc : Nat := 0x0100

def dmaPrepInterrupt : Nat := 0x0001

def opFlagSetup (flags : Nat) : Nat :=
  if flags &&& dmaPrepInterrupt ≠ 0 then opFlagCrav ||| opFlagRcr ||| opFlagRci
  else opFlagCrav ||| opFlagRcr

/-- What the builders read of a queue and its device. -/
structure IdxdWq where
  enabled : Bool
  maxXferBytes : Nat
  maxBatchSize : Nat
  numDescs : Nat
  complSize : Nat
  pasid : Option Nat
  maxBatchSize_pos : 0 < maxBatchSize := by decide
  deriving Repr

/-- What one creation is given: a descriptor of the pool, and for a batch the
addresses at which its two buffers are mapped. -/
structure Grant where
  id : Nat
  complDma : Nat
  complsAddr : Nat
  hwDescsAddr : Nat
  deriving Repr

structure IdxdDesc where
  id : Nat
  hw : HwDesc
  txdFlags : Nat
  deriving DecidableEq, Repr

def idxdPrepDescCommon (wq : IdxdWq) (addrF1 addrF2 len compl flags : Nat) : HwDesc where
  flags := flags
  operation := .memmove ⟨addrF1, addrF2, len⟩
  priv := 0
  completionAddr := compl
  pasid := wq.pasid

def idxdPrepDescBatch (wq : IdxdWq) (subDescsListAddr descCount compl flags : Nat) : HwDesc where
  flags := flags
  operation := .batch subDescsListAddr descCount
  priv := 0
  completionAddr := compl
  pasid := wq.pasid

/-- `grant` is the answer of `idxd_alloc_desc`, with `none` for an error. -/
def idxdDescDmaSubmitMemcpy (wq : IdxdWq) (grant : Option Grant)
    (dmaDest dmaSrc len flags : Nat) : Option IdxdDesc :=
  if wq.enabled = false then none
  else if len > wq.maxXferBytes then none
  else
    grant.map fun g =>
      { id := g.id
        hw := idxdPrepDescCommon wq dmaSrc dmaDest len g.complDma (opFlagSetup flags)
        txdFlags := flags }

theorem idxdDescDmaSubmitMemcpy_eq {wq : IdxdWq} {len : Nat} (enabled : wq.enabled = true)
    (fits : len ≤ wq.maxXferBytes) (g : Grant) (dmaDest dmaSrc flags : Nat) :
    idxdDescDmaSubmitMemcpy wq (some g) dmaDest dmaSrc len flags =
      some ⟨g.id, idxdPrepDescCommon wq dmaSrc dmaDest len g.complDma (opFlagSetup flags), flags⟩ := by
  simp [idxdDescDmaSubmitMemcpy, enabled, Nat.not_lt_of_le fits]

/-- `for_each_2_sg`: `none` where the body would read through a cursor that
`sg_next` has set to `NULL`, else the results and the two cursors left. -/
def forEach2Sg {β : Type} (body : Nat → Segment → Segment → β) :
    Nat → Nat → List Segment → List Segment → Option (List β × List Segment × List Segment)
  | _, 0, sg1, sg2 => some ([], sg1, sg2)
  | i, len + 1, sg1 :: rest1, sg2 :: rest2 =>
    (forEach2Sg body (i + 1) len rest1 rest2).map fun walked => (body i sg1 sg2 :: walked.1, walked.2)
  | _, _ + 1, _, _ => none

theorem forEach2Sg_eq {β : Type} (body : Nat → Segment → Segment → β) (i : Nat) {len : Nat}
    {sg1 sg2 : List Segment} (enough1 : len ≤ sg1.length) (enough2 : len ≤ sg2.length) :
    ∃ results, forEach2Sg body i len sg1 sg2 = some (results, sg1.drop len, sg2.drop len) ∧
      results.length = len := by
  induction len generalizing i sg1 sg2 with
  | zero => exact ⟨[], by simp [forEach2Sg], rfl⟩
  | succ len ih =>
    cases sg1 with
    | nil => simp at enough1
    | cons head1 rest1 =>
      cases sg2 with
      | nil => simp at enough2
      | cons head2 rest2 =>
        simp only [List.length_cons] at enough1 enough2
        obtain ⟨results, walked, size⟩ := ih (i + 1) (show len ≤ rest1.length by omega)
          (show len ≤ rest2.length by omega)
        exact ⟨body i head1 head2 :: results, by simp [forEach2Sg, walked], by simp [size]⟩

theorem forEach2Sg_map {β γ : Type} {body : Nat → Segment → Segment → β} {π : β → γ}
    {g : Segment → Segment → γ} (reads : ∀ i a b, π (body i a b) = g a b) {i len : Nat}
    {sg1 sg2 end1 end2 : List Segment} {results : List β}
    (walked : forEach2Sg body i len sg1 sg2 = some (results, end1, end2)) :
    results.map π = List.zipWith g (sg1.take len) (sg2.take len) := by
  induction len generalizing i sg1 sg2 results with
  | zero =>
    simp only [forEach2Sg, Option.some.injEq, Prod.mk.injEq] at walked
    simp [← walked.1]
  | succ len ih =>
    cases sg1 with
    | nil => simp [forEach2Sg] at walked
    | cons head1 rest1 =>
      cases sg2 with
      | nil => simp [forEach2Sg] at walked
      | cons head2 rest2 =>
        simp only [forEach2Sg, Option.map_eq_some_iff, Prod.mk.injEq] at walked
        obtain ⟨⟨later, end1', end2'⟩, inner, rfl, rfl, rfl⟩ := walked
        simp [reads, ih inner]

structure BatchInfo where
  subHwDescs : List HwDesc
  complsAddr : Nat
  hwDescsAddr : Nat
  batchComplsSize : Int
  batchHwDescsSize : Int
  deriving Repr

structure BatchTask where
  nextSgSrc : List Segment
  nextSgDst : List Segment
  desc : IdxdDesc
  batchInfo : BatchInfo
  deriving Repr

/-- How a builder ends: with `NULL`, with a dereference of `NULL`, or with a result. -/
inductive Built (α : Type)
  | null
  | oops
  | made (a : α)

def sizeofDsaHwDesc : Nat := 64

/-- Sub-descriptor `i` of a batch; its size is the destination's alone. The products with
`compl_size` are computed as `int`. -/
def subHwDesc (wq : IdxdWq) (g : Grant) (flags i : Nat) (sgDesc sgSrc : Segment) : HwDesc where
  flags := opFlagSetup flags
  operation := .memmove ⟨sgSrc.address, sgDesc.address, sgDesc.length⟩
  priv := 0
  completionAddr := toUnsigned 64 (g.complsAddr + toSigned 32 (i * wq.complSize))
  pasid := wq.pasid

def idxdDescDmaSubmitMemcpySg (wq : IdxdWq) (grant : Option Grant) (desc src : List Segment)
    (ents flags : Nat) : Built BatchTask :=
  if wq.enabled = false then .null
  else
    match grant with
    | none => .null
    | some g =>
      match forEach2Sg (subHwDesc wq g flags) 0 ents desc src with
      | none => .oops
      | some (subHwDescs, sgDesc, sgSrc) =>
        .made {
          nextSgSrc := sgSrc
          nextSgDst := sgDesc
          desc := {
            id := g.id
            hw := idxdPrepDescBatch wq g.hwDescsAddr ents g.complDma (opFlagSetup flags)
            txdFlags := flags }
          batchInfo := {
            subHwDescs := subHwDescs
            complsAddr := g.complsAddr
            hwDescsAddr := g.hwDescsAddr
            batchComplsSize := toSigned 32 (ents * wq.complSize)
            batchHwDescsSize := toSigned 32 (ents * sizeofDsaHwDesc) } }

def HwDesc.memmove? (hw : HwDesc) : Option Memmove :=
  match hw.operation with
  | .memmove m => some m
  | .batch _ _ => none

/-- What the batch builder does when nothing fails. -/
theorem idxdDescDmaSubmitMemcpySg_eq {wq : IdxdWq} (enabled : wq.enabled = true) (g : Grant)
    {desc src : List Segment} {ents : Nat} (enough : ents ≤ desc.length)
    (enough' : ents ≤ src.length) (flags : Nat) :
    ∃ task, idxdDescDmaSubmitMemcpySg wq (some g) desc src ents flags = .made task ∧
      task.nextSgSrc = src.drop ents ∧ task.nextSgDst = desc.drop ents ∧
      task.desc.hw.operation = .batch g.hwDescsAddr ents ∧
      task.batchInfo.subHwDescs.length = ents ∧
      task.batchInfo.subHwDescs.map HwDesc.memmove? =
        List.zipWith (fun d s => some ⟨s.address, d.address, d.length⟩)
          (desc.take ents) (src.take ents) := by
  obtain ⟨results, walked, size⟩ := forEach2Sg_eq (subHwDesc wq g flags) 0 enough enough'
  have moves := forEach2Sg_map (π := HwDesc.memmove?)
    (g := fun d s => some ⟨s.address, d.address, d.length⟩) (fun _ _ _ => rfl) walked
  refine ⟨_, by simp [idxdDescDmaSubmitMemcpySg, enabled, walked]; rfl, rfl, rfl, rfl, size, moves⟩

end DsaTest
