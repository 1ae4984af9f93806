import DsaTest.Lib.CInt
import Mathlib.Data.List.Basic

/-! `map_wq` of the user-space copies: the queue that is opened, against the attributes of
the queues and what the locals hold at the start. -/
namespace DsaTest.Userspace

open CInt (toUnsigned)

inductive AccfgWqType
  | none
  | kernel
  | user
  deriving DecidableEq, Repr

/-- `enum accfg_wq_mode`, with the `-errno` that `accfg_wq_get_mode` may return. -/
inductive AccfgWqMode
  | shared
  | dedicated
  | unknown
  | failed (errno : Nat)
  deriving DecidableEq, Repr

/-- What `libaccfg` answers about a queue; `userDevPath` is `none` where the call fails,
which leaves the buffer as it is. -/
structure AccfgWq where
  devname : String
  userDevPath : Option String
  maxTransferSize : Nat
  type : AccfgWqType
  mode : AccfgWqMode

abbrev AccfgDevice := List AccfgWq

structure BufferLength where
  bytes : Nat
  fits : bytes < 2 ^ 31 := by decide

/-- The locals `wq_found` and `path`, and the lines printed. -/
structure Locals where
  wqFound : Int
  path : String
  printed : List String

/-- What `map_wq` does: the path passed to `open`, and the portal, with `none` for
`MAP_FAILED`. -/
structure Mapped where
  opened : Option String
  portal : Option Nat
  deriving DecidableEq

section

variable (blen : BufferLength)

/-- `accfg_wq_get_max_transfer_size(wq) < BLEN`, a comparison of `uint64_t`. -/
def AccfgWq.tooSmall (wq : AccfgWq) : Bool := wq.maxTransferSize < toUnsigned 64 blen.bytes

def AccfgWq.userShared (wq : AccfgWq) : Bool := wq.type = .user && wq.mode = .shared

/-- `accfg_wq_foreach` -/
def scanWqs : List AccfgWq → Locals → Locals
  | [], st => st
  | wq :: rest, st =>
    match wq.userDevPath with
    | none => scanWqs rest st
    | some path =>
      let st := { st with path := path }
      if wq.tooSmall blen then scanWqs rest st
      else
        let st := { st with wqFound := if wq.userShared then 1 else 0 }
        if st.wqFound ≠ 0 then
          { st with printed := st.printed ++ ["wq user device file path: " ++ wq.devname] }
        else scanWqs rest st

/-- `accfg_device_foreach` -/
def scanDevices : List AccfgDevice → Locals → Locals
  | [], st => st
  | device :: rest, st =>
    let st := scanWqs blen device st
    if st.wqFound ≠ 0 then st else scanDevices rest st

/-- `portal` is what opening a path and mapping the file gives. -/
def mapWq (portal : String → Option Nat) (devices : List AccfgDevice) (st : Locals) : Mapped :=
  let st := scanDevices blen devices st
  if st.wqFound = 0 then ⟨none, none⟩ else ⟨some st.path, portal st.path⟩

/-- A queue with a path of its own and room for the buffer: the loop looks at its type
and its mode. -/
def AccfgWq.reached (wq : AccfgWq) : Bool :=
  wq.userDevPath.isSome && blen.bytes ≤ wq.maxTransferSize

def AccfgWq.suitable (wq : AccfgWq) : Bool := wq.reached blen && wq.userShared

def firstPath (devices : List AccfgDevice) : Option String :=
  (devices.flatten.find? (·.suitable blen)).bind (·.userDevPath)

def Selects (portal : String → Option Nat) (devices : List AccfgDevice) (st : Locals) : Prop :=
  mapWq blen portal devices st = ⟨firstPath blen devices, (firstPath blen devices).bind portal⟩

end

def leftover (device : AccfgDevice) (path : String) : String :=
  (device.filterMap (·.userDevPath)).getLastD path

variable {blen : BufferLength} {wq : AccfgWq} {device : AccfgDevice} {devices : List AccfgDevice}
  {st : Locals}

theorem tooSmall_eq (blen : BufferLength) (wq : AccfgWq) :
    wq.tooSmall blen = !decide (blen.bytes ≤ wq.maxTransferSize) := by
  have bound := blen.fits
  have same := CInt.toUnsigned_of_fits (w := 64) (x := blen.bytes) (by omega) (by omega)
  rw [Int.ofNat_inj] at same
  rw [AccfgWq.tooSmall, same, ← decide_not]
  simp only [Nat.not_le]

theorem leftover_cons (wq : AccfgWq) (rest : AccfgDevice) (path : String) :
    leftover (wq :: rest) path = leftover rest (wq.userDevPath.getD path) := by
  cases here : wq.userDevPath with
  | none => simp [leftover, here]
  | some p => rw [leftover, List.filterMap_cons_some here, List.getLastD_cons]; rfl

structure Scanned (blen : BufferLength) (device : AccfgDevice) (st st' : Locals) : Prop where
  found : ∀ wq, device.find? (·.suitable blen) = some wq →
    st'.wqFound ≠ 0 ∧ wq.userDevPath = some st'.path
  rejected : device.find? (·.suitable blen) = none →
    st'.wqFound = (if device.any (·.reached blen) then 0 else st.wqFound) ∧
      st'.path = leftover device st.path

theorem scanWqs_scanned (blen : BufferLength) (device : AccfgDevice) (st : Locals) :
    Scanned blen device st (scanWqs blen device st) := by
  induction device generalizing st with
  | nil => exact ⟨by simp, fun _ => ⟨rfl, rfl⟩⟩
  | cons wq rest ih =>
    rw [scanWqs]
    cases path : wq.userDevPath with
    | none =>
      have unreached : wq.reached blen = false := by simp [AccfgWq.reached, path]
      have unsuitable : wq.suitable blen = false := by simp [AccfgWq.suitable, unreached]
      have tail := ih st
      refine ⟨?_, ?_⟩
      · simpa [unsuitable] using tail.found
      · simpa [unsuitable, unreached, leftover_cons, path] using tail.rejected
    | some p =>
      have reached : wq.reached blen = !wq.tooSmall blen := by
        simp [AccfgWq.reached, path, tooSmall_eq]
      simp only
      cases small : wq.tooSmall blen with
      | true =>
        have unreached : wq.reached blen = false := by simp [reached, small]
        have unsuitable : wq.suitable blen = false := by simp [AccfgWq.suitable, unreached]
        have tail := ih { st with path := p }
        refine ⟨?_, ?_⟩
        · simpa [unsuitable] using tail.found
        · simpa [unsuitable, unreached, leftover_cons, path] using tail.rejected
      | false =>
        have here : wq.reached blen = true := by simp [reached, small]
        cases match_ : wq.userShared with
        | true =>
          have suitable : wq.suitable blen = true := by simp [AccfgWq.suitable, here, match_]
          refine ⟨?_, ?_⟩
          · simp [suitable, path]
          · simp [suitable]
        | false =>
          have unsuitable : wq.suitable blen = false := by simp [AccfgWq.suitable, match_]
          have tail := ih { st with path := p, wqFound := 0 }
          refine ⟨?_, ?_⟩
          · simpa [unsuitable] using tail.found
          · simpa [unsuitable, here, leftover_cons, path] using tail.rejected

structure Found (path : Option String) (st : Locals) : Prop where
  found : ∀ p, path = some p → st.wqFound ≠ 0 ∧ st.path = p
  rejected : path = none → st.wqFound = 0

theorem Found.mapWq_eq {path : Option String} {portal : String → Option Nat}
    (found : Found path (scanDevices blen devices st)) :
    mapWq blen portal devices st = ⟨path, path.bind portal⟩ := by
  rw [mapWq]
  cases path with
  | none => simp [found.rejected rfl]
  | some p =>
    obtain ⟨flag, same⟩ := found.found p rfl
    simp [flag, same]

theorem firstPath_cons (device : AccfgDevice) (rest : List AccfgDevice) :
    firstPath blen (device :: rest) = (firstPath blen [device]).or (firstPath blen rest) := by
  simp only [firstPath, List.flatten_cons, List.flatten_nil, List.append_nil, List.find?_append]
  cases here : device.find? (·.suitable blen) with
  | none => simp
  | some wq =>
    have suitable := List.find?_some here
    simp only [AccfgWq.suitable, AccfgWq.reached, Bool.and_eq_true] at suitable
    obtain ⟨path, has⟩ := Option.isSome_iff_exists.mp suitable.1.1
    simp [has]

theorem firstPath_single (device : AccfgDevice) :
    firstPath blen [device] = (device.find? (·.suitable blen)).bind (·.userDevPath) := by
  simp [firstPath]

theorem Scanned.first {st' : Locals} (scanned : Scanned blen device st st') {p : String}
    (path : firstPath blen [device] = some p) : st'.wqFound ≠ 0 ∧ st'.path = p := by
  rw [firstPath_single] at path
  obtain ⟨wq, here, own⟩ := Option.bind_eq_some_iff.mp path
  obtain ⟨flag, same⟩ := scanned.found wq here
  rw [own, Option.some.injEq] at same
  exact ⟨flag, same.symm⟩

theorem find?_of_firstPath (none_ : firstPath blen [device] = none) :
    device.find? (·.suitable blen) = none := by
  cases here : device.find? (·.suitable blen) with
  | none => rfl
  | some wq =>
    have suitable := List.find?_some here
    simp only [AccfgWq.suitable, AccfgWq.reached, Bool.and_eq_true] at suitable
    rw [firstPath_single, here, Option.bind_some] at none_
    simp [none_] at suitable

theorem scanDevices_cons {rest : List AccfgDevice}
    (clears : firstPath blen [device] = none → (scanWqs blen device st).wqFound = 0)
    (later : ∀ st, st.wqFound = 0 → Found (firstPath blen rest) (scanDevices blen rest st)) :
    Found (firstPath blen (device :: rest)) (scanDevices blen (device :: rest) st) := by
  rw [firstPath_cons, scanDevices]
  cases first : firstPath blen [device] with
  | some p =>
    obtain ⟨flag, path⟩ := (scanWqs_scanned blen device st).first first
    simp only [if_pos flag]
    exact ⟨by simp [flag, path], by simp⟩
  | none =>
    have flag := clears first
    simp only [flag, ne_eq, not_true_eq_false, if_false, Option.none_or]
    exact later _ flag

theorem scanDevices_clear (blen : BufferLength) (devices : List AccfgDevice) (st : Locals)
    (clear : st.wqFound = 0) : Found (firstPath blen devices) (scanDevices blen devices st) := by
  induction devices generalizing st with
  | nil => exact ⟨by simp [firstPath], fun _ => clear⟩
  | cons device rest ih =>
    apply scanDevices_cons _ ih
    intro none_
    have scanned := scanWqs_scanned blen device st
    rw [(scanned.rejected (find?_of_firstPath none_)).1, clear, ite_self]

/-- A first device on which no queue is reached leaves a flag as it is, and the loops end
with whatever path there is. -/
theorem mapWq_stale (portal : String → Option Nat) (stale : st.wqFound ≠ 0)
    (unreached : ∀ wq ∈ devices.headD [], wq.reached blen = false) :
    mapWq blen portal devices st =
      ⟨some (leftover (devices.headD []) st.path), portal (leftover (devices.headD []) st.path)⟩ := by
  cases devices with
  | nil => simp [mapWq, scanDevices, stale, leftover]
  | cons device rest =>
    have unsuitable : device.find? (·.suitable blen) = none := by
      rw [List.find?_eq_none]
      intro wq inside
      simp [AccfgWq.suitable, unreached wq inside]
    obtain ⟨flag, path⟩ := (scanWqs_scanned blen device st).rejected unsuitable
    have none_ : device.any (·.reached blen) = false := by
      rw [List.any_eq_false]
      intro wq inside
      simp [unreached wq inside]
    rw [none_, if_neg Bool.false_ne_true] at flag
    simp [mapWq, scanDevices, flag, stale, path]

theorem mapWq_reached (portal : String → Option Nat)
    (reached : ∃ wq ∈ devices.headD [], wq.reached blen = true) :
    Selects blen portal devices st := by
  cases devices with
  | nil => simp at reached
  | cons device rest =>
    have any : device.any (·.reached blen) = true := List.any_eq_true.mpr reached
    apply Found.mapWq_eq
    apply scanDevices_cons _ (scanDevices_clear blen rest)
    intro none_
    have scanned := scanWqs_scanned blen device st
    rw [(scanned.rejected (find?_of_firstPath none_)).1, if_pos any]

/-- The first suitable queue is opened exactly where `wq_found` happens to be 0, or the
first device has a queue at which it is set, or the path left in the buffer happens to be
the right one. -/
theorem mapWq_selects_iff (blen : BufferLength) (portal : String → Option Nat)
    (devices : List AccfgDevice) (st : Locals) :
    Selects blen portal devices st ↔
      st.wqFound = 0 ∨ (∃ wq ∈ devices.headD [], wq.reached blen = true) ∨
        firstPath blen devices = some (leftover (devices.headD []) st.path) := by
  by_cases clear : st.wqFound = 0
  · exact iff_of_true (scanDevices_clear blen devices st clear).mapWq_eq (.inl clear)
  by_cases reached : ∃ wq ∈ devices.headD [], wq.reached blen = true
  · exact iff_of_true (mapWq_reached portal reached) (.inr (.inl reached))
  · have unreached : ∀ wq ∈ devices.headD [], wq.reached blen = false := by
      intro wq inside
      rw [← Bool.not_eq_true]
      exact fun here => reached ⟨wq, inside, here⟩
    rw [Selects, mapWq_stale portal clear unreached, or_iff_right clear, or_iff_right reached,
      Mapped.mk.injEq]
    constructor
    · intro same
      exact same.1.symm
    · intro same
      rw [same]
      exact ⟨rfl, rfl⟩

/-- No queue is there, and the stack slot of `wq_found` holds 1. -/
theorem mapWq_opens_garbage :
    ¬ ∀ (blen : BufferLength) (portal : String → Option Nat) (devices : List AccfgDevice)
      (st : Locals), Selects blen portal devices st := by
  intro claim
  have selected := claim { bytes := 4096 } (fun _ => none) [] ⟨1, "", []⟩
  have run : mapWq { bytes := 4096 } (fun _ => none) [] ⟨1, "", []⟩ = ⟨some "", none⟩ := rfl
  have nothing : firstPath { bytes := 4096 } [] = none := rfl
  rw [Selects, run, nothing, Mapped.mk.injEq] at selected
  obtain ⟨opened, _⟩ := selected
  contradiction

end DsaTest.Userspace
