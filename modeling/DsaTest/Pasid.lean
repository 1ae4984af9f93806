import DsaTest.Lib.CInt
import Mathlib.Data.List.Basic

/-! `kernel_wq_configuration.c`: the system PASID of a device is given up and taken again. -/
namespace DsaTest.Configuration

open CInt (toSigned)

def iommuPasidInvalid : Nat := 2 ^ 32 - 1

def eperm : Int := 1

def enospc : Int := 28

/-- `IDXD_FLAG_PASID_ENABLED`, `idxd->pasid` and `idxd->sva`, the interrupt enable, and
what the IOMMU keeps: the PASIDs attached to the device and the global ones in use. -/
structure DeviceState where
  pasidEnabled : Bool
  pasid : Nat
  sva : Option Nat
  userIntr : Bool
  attached : List Nat
  globals : List Nat

/-- The answers of the IOMMU: whether the device has a domain, at each of the two calls,
the PASID allocated, and the result of the attachment. -/
structure IommuEnv where
  domainAtDisable : Bool
  domainAtEnable : Bool
  pasid : Nat
  attach : Int
  pasid_lt : pasid < 2 ^ 32 := by decide

section

variable (env : IommuEnv)

/-- The `int` returned is an error or the PASID. -/
def idxdEnableSystemPasid (idxd : DeviceState) : Int × DeviceState :=
  if env.domainAtEnable = false then (-eperm, idxd)
  else if env.pasid = iommuPasidInvalid then (-enospc, idxd)
  else
    let idxd := { idxd with globals := env.pasid :: idxd.globals }
    if env.attach ≠ 0 then
      (env.attach, { idxd with globals := idxd.globals.filter (· ≠ env.pasid) })
    else
      (toSigned 32 env.pasid, { idxd with
        attached := env.pasid :: idxd.attached
        userIntr := true
        pasid := env.pasid })

def idxdDisableSystemPasid (idxd : DeviceState) : DeviceState :=
  if env.domainAtDisable = false then idxd
  else
    { idxd with
      attached := idxd.attached.filter (· ≠ idxd.pasid)
      globals := idxd.globals.filter (· ≠ idxd.pasid)
      userIntr := false
      sva := none
      pasid := iommuPasidInvalid }

/-- The end of `init_dsa`, with whether it goes on as after a success. -/
def initDsa (idxd : DeviceState) : Bool × DeviceState :=
  let (rc, idxd) := idxdEnableSystemPasid env (idxdDisableSystemPasid env idxd)
  if rc ≠ 0 then (false, idxd) else (true, { idxd with pasidEnabled := true })

end

/-- The flag tells whether `idxd->pasid` is valid and attached. -/
def DeviceState.Consistent (idxd : DeviceState) : Prop :=
  idxd.pasidEnabled = true ↔ idxd.pasid ≠ iommuPasidInvalid ∧ idxd.pasid ∈ idxd.attached

instance (idxd : DeviceState) : Decidable idxd.Consistent := inferInstanceAs (Decidable (_ ↔ _))

structure IommuEnv.Attaches (env : IommuEnv) : Prop where
  domain : env.domainAtEnable = true
  valid : env.pasid ≠ iommuPasidInvalid
  attached : env.attach = 0

instance (env : IommuEnv) : Decidable env.Attaches :=
  decidable_of_iff (env.domainAtEnable = true ∧ env.pasid ≠ iommuPasidInvalid ∧ env.attach = 0)
    ⟨fun h => ⟨h.1, h.2.1, h.2.2⟩, fun h => ⟨h.domain, h.valid, h.attached⟩⟩

/-- After `init_dsa` the state is consistent, and a success has been taken for one. -/
structure Kept (env : IommuEnv) (idxd : DeviceState) : Prop where
  consistent : (initDsa env idxd).2.Consistent
  success : env.Attaches → (initDsa env idxd).1 = true

variable {env : IommuEnv} {idxd : DeviceState}

/-- What the descriptor builders put into a descriptor. -/
def DeviceState.descPasid (idxd : DeviceState) : Option Nat :=
  if idxd.pasidEnabled then some idxd.pasid else none

theorem DeviceState.Consistent.attached (consistent : idxd.Consistent) {pasid : Nat}
    (carried : idxd.descPasid = some pasid) : pasid ∈ idxd.attached := by
  rw [descPasid] at carried
  split at carried
  next enabled =>
    rw [Option.some.injEq] at carried
    rw [← carried]
    exact (consistent.mp enabled).2
  next => contradiction

theorem enable_attaches (attaches : env.Attaches) (idxd : DeviceState) :
    idxdEnableSystemPasid env idxd = (toSigned 32 env.pasid, { idxd with
      attached := env.pasid :: idxd.attached
      globals := env.pasid :: idxd.globals
      userIntr := true
      pasid := env.pasid }) := by
  rw [idxdEnableSystemPasid, if_neg (by simp [attaches.domain]), if_neg attaches.valid]
  simp only
  rw [if_neg (by simp [attaches.attached])]

/-- Where nothing is attached, an error is returned and the device is left as it is; what
has been allocated is given back. -/
theorem enable_fails (fails : ¬ env.Attaches) (idxd : DeviceState) :
    ∃ rc globals, rc ≠ 0 ∧ idxdEnableSystemPasid env idxd = (rc, { idxd with globals := globals }) ∧
      (env.pasid ∉ idxd.globals → globals = idxd.globals) := by
  rw [idxdEnableSystemPasid]
  split
  next => exact ⟨-eperm, idxd.globals, by decide, rfl, fun _ => rfl⟩
  next domain =>
    split
    next => exact ⟨-enospc, idxd.globals, by decide, rfl, fun _ => rfl⟩
    next valid =>
      have error : env.attach ≠ 0 := by
        intro attached
        exact fails ⟨by simpa using domain, valid, attached⟩
      refine ⟨env.attach, (env.pasid :: idxd.globals).filter (· ≠ env.pasid), error, by simp [error],
        ?_⟩
      intro unused
      rw [List.filter_cons_of_neg (by simp), List.filter_eq_self]
      intro pasid inside
      simp only [ne_eq, decide_eq_true_eq]
      exact fun same => unused (same ▸ inside)

theorem initDsa_attaches (attaches : env.Attaches) (idxd : DeviceState) :
    Kept env idxd ↔ env.pasid = 0 := by
  have zero : toSigned 32 env.pasid = 0 ↔ env.pasid = 0 := by
    have bound := env.pasid_lt
    rw [CInt.toSigned_eq_zero_iff (by omega) (by omega)]
    omega
  constructor
  · intro kept
    have success := kept.success attaches
    rw [initDsa, enable_attaches attaches] at success
    by_contra other
    simp [zero, other] at success
  · intro none_
    have ended : (initDsa env idxd).1 = true ∧ (initDsa env idxd).2.Consistent := by
      rw [initDsa, enable_attaches attaches]
      simp only [zero.mpr none_, ne_eq, not_true_eq_false, if_false]
      refine ⟨trivial, ?_⟩
      exact iff_of_true rfl ⟨attaches.valid, List.mem_cons_self⟩
    exact ⟨ended.2, fun _ => ended.1⟩

theorem initDsa_fails (fails : ¬ env.Attaches) (consistent : idxd.Consistent) :
    Kept env idxd ↔ env.domainAtDisable = false ∨ idxd.pasidEnabled = false := by
  obtain ⟨rc, globals, error, run, _⟩ := enable_fails fails (idxdDisableSystemPasid env idxd)
  have after : (initDsa env idxd).2 = { idxdDisableSystemPasid env idxd with globals := globals } := by
    rw [initDsa, run]
    simp [error]
  have kept : Kept env idxd ↔ (initDsa env idxd).2.Consistent := by
    constructor
    · exact Kept.consistent
    · intro here
      exact ⟨here, fun attaches => absurd attaches fails⟩
  rw [kept, after, idxdDisableSystemPasid]
  cases domain : env.domainAtDisable with
  | false => simpa [DeviceState.Consistent] using consistent
  | true => simp [DeviceState.Consistent]

/-- The state is consistent again, and a success is taken for one, exactly where the PASID
attached is 0, or where nothing is attached and the flag was clear or the device had no
domain when its PASID was to be given up. There every PASID that a descriptor carries is
attached. -/
theorem pasid_kept_iff (env : IommuEnv) {idxd : DeviceState} (consistent : idxd.Consistent) :
    (Kept env idxd ↔
      (env.Attaches ∧ env.pasid = 0) ∨
        (¬ env.Attaches ∧ (env.domainAtDisable = false ∨ idxd.pasidEnabled = false))) ∧
    (Kept env idxd → ∀ pasid, (initDsa env idxd).2.descPasid = some pasid →
      pasid ∈ (initDsa env idxd).2.attached) := by
  refine ⟨?_, fun kept _ => kept.consistent.attached⟩
  by_cases attaches : env.Attaches
  · rw [initDsa_attaches attaches]
    simp [attaches]
  · rw [initDsa_fails attaches consistent]
    simp [attaches]

def withoutPasid : DeviceState where
  pasidEnabled := false
  pasid := iommuPasidInvalid
  sva := none
  userIntr := false
  attached := []
  globals := []

def withPasid : DeviceState where
  pasidEnabled := true
  pasid := 1
  sva := none
  userIntr := true
  attached := [1]
  globals := [1]

def exhausted : IommuEnv where
  domainAtDisable := true
  domainAtEnable := true
  pasid := iommuPasidInvalid
  attach := 0

theorem pasid_kept_exhausted : withoutPasid.Consistent ∧ Kept exhausted withoutPasid := by
  have consistent : withoutPasid.Consistent := by decide
  exact ⟨consistent, (pasid_kept_iff exhausted consistent).1.mpr (.inr ⟨by decide, .inr rfl⟩)⟩

def granting : IommuEnv where
  domainAtDisable := true
  domainAtEnable := true
  pasid := 1
  attach := 0

/-- The PASID returned is taken for an error, and the flag stays clear. -/
theorem pasid_success_refused :
    ¬ ∀ (env : IommuEnv) (idxd : DeviceState), idxd.Consistent → Kept env idxd := by
  intro claim
  have kept := claim granting withoutPasid (by decide)
  have clear : ¬ (initDsa granting withoutPasid).2.Consistent := by decide
  exact clear kept.consistent

/-- The flag of the old PASID stays, so that descriptors carry the invalid one. -/
example : (initDsa exhausted withPasid).2.descPasid = some iommuPasidInvalid := by decide

end DsaTest.Configuration
