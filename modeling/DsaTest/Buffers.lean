import DsaTest.Descriptor
import Mathlib.Data.List.Count

/-! The two buffers of a batch, the sub-completion records and the sub-descriptors,
between their DMA mapping and the release of their memory. -/
namespace DsaTest

open CInt (toUnsigned)

inductive DmaDirection
  | bidirectional
  | toDevice
  | fromDevice
  deriving DecidableEq, Repr

/-- What `dma_map_single` returns and is given, or what `dma_unmap_single` is given. -/
structure DmaMapping where
  device : Nat
  address : Nat
  size : Nat
  direction : DmaDirection
  deriving DecidableEq, Repr

inductive BatchBuffer
  | subCompl
  | subHwDescs
  deriving DecidableEq, Repr

inductive BufferEvent
  | map (buffer : BatchBuffer) (mapping : DmaMapping)
  | unmap (mapping : DmaMapping)
  | free (buffer : BatchBuffer)
  deriving DecidableEq, Repr

namespace BatchInfo

/-- How `idxd_desc_dma_submit_memcpy_sg` maps the buffer, on `&idxd->pdev->dev`. -/
def mapping (info : BatchInfo) (device : Nat) : BatchBuffer → DmaMapping
  | .subCompl => ⟨device, info.complsAddr, toUnsigned 64 info.batchComplsSize, .bidirectional⟩
  | .subHwDescs => ⟨device, info.hwDescsAddr, toUnsigned 64 info.batchHwDescsSize, .toDevice⟩

def mapEvents (info : BatchInfo) (device : Nat) : List BufferEvent :=
  [.map .subCompl (info.mapping device .subCompl), .map .subHwDescs (info.mapping device .subHwDescs)]

/-- How the completion code of the batch modules unmaps the buffer. -/
def unmapping (info : BatchInfo) (device : Nat) : BatchBuffer → DmaMapping
  | .subCompl => ⟨device, info.complsAddr, toUnsigned 64 info.batchComplsSize, .fromDevice⟩
  | .subHwDescs => ⟨device, info.hwDescsAddr, toUnsigned 64 info.batchHwDescsSize, .toDevice⟩

theorem unmapping_ne_mapping (info : BatchInfo) (device device' : Nat) (buffer : BatchBuffer) :
    info.unmapping device buffer ≠ info.mapping device' .subCompl := by
  cases buffer <;> simp [unmapping, mapping]

end BatchInfo

/-- The buffer is mapped once, unmapped once with the arguments it was mapped with, and
freed once after that. -/
def Paired (life : List BufferEvent) (buffer : BatchBuffer) : Prop :=
  ∃ mapping, [.map buffer mapping, .unmap mapping, .free buffer].Sublist life ∧
    (∀ other, life.count (.map buffer other) = if other = mapping then 1 else 0) ∧
    life.count (.unmap mapping) = 1 ∧ life.count (.free buffer) = 1

theorem not_paired {life : List BufferEvent} {buffer : BatchBuffer}
    (different : ∀ m m', .map buffer m ∈ life → .unmap m' ∈ life → m' ≠ m) :
    ¬ Paired life buffer := by
  intro ⟨mapping, order, _⟩
  have mapped : BufferEvent.map buffer mapping ∈ life := order.mem (by simp)
  have unmapped : BufferEvent.unmap mapping ∈ life := order.mem (by simp)
  exact different mapping mapping mapped unmapped rfl

end DsaTest
