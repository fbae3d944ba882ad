/-
**A program gets no more than its descriptor allows.**

The loader compares the two parts entry by entry.  Here they are compared by what they *mean*: the
services that a list of patterns lets through, the bits of a permission word, the owners that an id
list and a range cover, and the single rights — a system call, a page, an interrupt, a priority —
that a capability gives.

Main definitions:

* `Grant`, `KernelCapability.Grants` — the rights that a kernel capability gives;
* `FileSystemAccess.OwnsContent`, `FileSystemAccess.OwnsSaveData` — the owners that a file system
  part covers.

Main results:

* `parseServices_no_wildcard` — a part that may not use wildcards has none;
* `grants_of_covers` — a capability that covers another gives all its rights;
* `policy_within_authorization` — **what the effective policy grants, the descriptor grants**.
-/

import Nixe.Npdm

set_option autoImplicit false

namespace Nixe.NpdmLoader

open Outcome (bind_eq_ok pure_eq_ok rejectIf_eq_ok)
open KernelCapability (covers)
open List Bool

/-! ### What the parts mean -/

/-- A single right that kernel capabilities can give. -/
inductive Grant where
  | priority (priority : ℕ)
  | core (core : ℕ)
  | systemCall (number : ℕ)
  | page (page : ℕ) (permission : KernelMemoryPermission) (region : KernelMemoryRegion)
  | ioPage (page : ℕ)
  | memoryRegion (slot : Fin 3) (kind : ℕ) (readOnly : Bool)
  | interrupt (number : ℕ)
  | programType (type : ProgramType)
  | kernelVersion (version : KernelVersion)
  | handleTable (size : ℕ)
  | allowDebug
  | forceDebugProd
  | forceDebug

/-- The rights that a capability gives.  A mask has 24 system calls; pages have 4096 bytes. -/
def KernelCapability.Grants : KernelCapability → Grant → Prop
  | .threadInfo low high _ _, .priority priority => high ≤ priority ∧ priority ≤ low
  | .threadInfo _ _ minCore maxCore, .core core => minCore ≤ core ∧ core ≤ maxCore
  | .systemCalls index mask, .systemCall number =>
    number / 24 = index ∧ mask.toBitVec.getLsbD (number % 24) = true
  | .memoryMap mapping, .page page permission region =>
    mapping.permission = permission ∧ mapping.region = region ∧
      mapping.address ≤ page * 0x1000 ∧ page * 0x1000 < mapping.address + mapping.size
  | .ioMemoryMap address, .ioPage page => address = page * 0x1000
  | .memoryRegions regions, .memoryRegion slot kind readOnly =>
    kind ≠ 0 ∧ regions[slot] = (kind, readOnly)
  | .interrupts numbers, .interrupt number => some number ∈ numbers
  | .programType type, .programType type' => type = type'
  | .kernelVersion version, .kernelVersion version' => version'.atMost version
  | .handleTableSize size, .handleTable size' => size' ≤ size
  | .debugFlags allowDebug _ _, .allowDebug => allowDebug = true
  | .debugFlags _ forceDebugProd _, .forceDebugProd => forceDebugProd = true
  | .debugFlags _ _ forceDebug, .forceDebug => forceDebug = true
  | _, _ => False

/-- The rights of a list of capabilities. -/
def KernelCapabilities.Grants (capabilities : KernelCapabilities) (grant : Grant) : Prop :=
  ∃ capability ∈ capabilities, capability.Grants grant

def FileSystemPermissions.Has (permissions : FileSystemPermissions) (bit : ℕ) : Prop :=
  permissions.raw.toBitVec.getLsbD bit = true

def FileSystemAccess.OwnsContent (access : FileSystemAccess) (id : UInt64) : Prop :=
  ownerAuthorized id access.contentOwnerIds access.contentOwnerRange = true

def FileSystemAccess.OwnsSaveData (access : FileSystemAccess) (id : UInt64) : Prop :=
  ownerAuthorized id (access.saveDataOwnerIds.map SaveDataOwnerId.id) access.saveDataOwnerRange =
    true

/-! ### Services -/

variable {component : String} {bytes name : List UInt8} {range : Range}

/-- The names of a part that may not use wildcards have none. -/
theorem parseServicesFrom_no_wildcard {data : List UInt8} {base : ℕ} :
    ∀ (fuel cursor : ℕ) (services : ServiceAccessControl),
      parseServicesFrom data base false component fuel cursor = .ok services →
      ∀ entry ∈ services, wildcard ∉ entry.name := by
  intro fuel
  induction fuel with
  | zero =>
    intro cursor services h
    unfold parseServicesFrom at h
    split at h
    · cases h
    · obtain rfl := pure_eq_ok.1 h
      simp
  | succ fuel ih =>
    intro cursor services h
    unfold parseServicesFrom at h
    split at h
    · obtain ⟨control, -, h⟩ := bind_eq_ok.1 h
      obtain ⟨-, -, h⟩ := bind_eq_ok.1 h
      obtain ⟨stop, -, h⟩ := bind_eq_ok.1 h
      obtain ⟨name, -, h⟩ := bind_eq_ok.1 h
      obtain ⟨-, -, h⟩ := bind_eq_ok.1 h
      obtain ⟨_, hwildcard, h⟩ := bind_eq_ok.1 h
      obtain ⟨entries, hentries, h⟩ := bind_eq_ok.1 h
      obtain rfl := pure_eq_ok.1 h
      have hname : wildcard ∉ name := by
        have hcontains := rejectIf_eq_ok.1 hwildcard
        simpa using hcontains
      intro entry hentry
      rcases mem_cons.1 hentry with rfl | hentry
      · exact hname
      · exact ih stop entries hentries entry hentry
    · obtain rfl := pure_eq_ok.1 h
      simp

theorem parseServices_no_wildcard {services : ServiceAccessControl}
    (h : parseServices bytes range false component = .ok services) :
    ∀ entry ∈ services, wildcard ∉ entry.name := by
  obtain ⟨data, -, h⟩ := bind_eq_ok.1 h
  exact parseServicesFrom_no_wildcard _ _ _ h

/-- A name without a wildcard matches itself only. -/
theorem eq_of_serviceMatches {pattern : List UInt8} (hpattern : wildcard ∉ pattern)
    (h : serviceMatches pattern name = true) : pattern = name := by
  unfold serviceMatches at h
  split at h
  · next hlast => exact absurd (mem_of_getLast? hlast) hpattern
  · simpa using h

theorem allows_of_validateServices {requested allowed : ServiceAccessControl} {offset : ℕ}
    (hnames : ∀ entry ∈ requested, wildcard ∉ entry.name)
    (h : validateServices requested allowed offset = .ok ())
    {mode : ServiceAccessMode} (hallows : requested.allows name mode = true) :
    allowed.allows name mode = true := by
  have hall := rejectIf_eq_ok.1 h
  obtain ⟨entry, hentry, hmatch⟩ := any_eq_true.1 hallows
  obtain ⟨hmode, hname⟩ := and_eq_true_iff.1 hmatch
  have hentry' : allowed.allows entry.name entry.mode = true := by
    simpa using any_eq_false.1 hall entry hentry
  obtain rfl := eq_of_serviceMatches (hnames entry hentry) hname
  obtain rfl : entry.mode = mode := by simpa using hmode
  exact hentry'

/-! ### File system access -/

theorem parseAciFilesystem_range {access : FileSystemAccess}
    (h : parseAciFilesystem bytes range = .ok access) :
    access.contentOwnerRange = none ∧ access.saveDataOwnerRange = none := by
  obtain ⟨data, -, h⟩ := bind_eq_ok.1 h
  obtain ⟨version, -, h⟩ := bind_eq_ok.1 h
  obtain ⟨-, -, h⟩ := bind_eq_ok.1 h
  obtain ⟨-, -, h⟩ := bind_eq_ok.1 h
  obtain ⟨permissions, -, h⟩ := bind_eq_ok.1 h
  obtain ⟨content, -, h⟩ := bind_eq_ok.1 h
  obtain ⟨saveRaw, -, h⟩ := bind_eq_ok.1 h
  obtain ⟨saveDataOwnerIds, -, h⟩ := bind_eq_ok.1 h
  obtain rfl := pure_eq_ok.1 h
  exact ⟨rfl, rfl⟩

theorem has_of_contains {allowed requested : FileSystemPermissions}
    (h : allowed.contains requested = true) {bit : ℕ} (hbit : requested.Has bit) :
    allowed.Has bit := by
  have hand : allowed.raw &&& requested.raw = requested.raw := by
    simpa [FileSystemPermissions.contains] using h
  unfold FileSystemPermissions.Has at hbit ⊢
  rw [← hand, UInt64.toBitVec_and, BitVec.getLsbD_and, and_eq_true] at hbit
  exact hbit.1

/-- Without a range, the owners are those of the list. -/
theorem mem_of_ownerAuthorized {id : UInt64} {explicit : List UInt64}
    (h : ownerAuthorized id explicit none = true) : id ∈ explicit := by
  simpa [ownerAuthorized] using h

structure FileSystemAccess.Within (requested allowed : FileSystemAccess) : Prop where
  permissions : ∀ bit, requested.permissions.Has bit → allowed.permissions.Has bit
  content : ∀ id, requested.OwnsContent id → allowed.OwnsContent id
  saveData : ∀ id, requested.OwnsSaveData id → allowed.OwnsSaveData id

theorem within_of_validateFilesystem {requested allowed : FileSystemAccess} {offset : ℕ}
    (hrange : requested.contentOwnerRange = none ∧ requested.saveDataOwnerRange = none)
    (h : validateFilesystem requested allowed offset = .ok ()) : requested.Within allowed := by
  obtain ⟨_, hpermissions, h⟩ := bind_eq_ok.1 h
  obtain ⟨_, hcontent, hsave⟩ := bind_eq_ok.1 h
  refine ⟨fun bit => has_of_contains ?_, fun id hid => ?_, fun id hid => ?_⟩
  · simpa using rejectIf_eq_ok.1 hpermissions
  · rw [FileSystemAccess.OwnsContent, hrange.1] at hid
    have hall := any_eq_false.1 (rejectIf_eq_ok.1 hcontent) id (mem_of_ownerAuthorized hid)
    rw [FileSystemAccess.OwnsContent]
    simpa using hall
  · rw [FileSystemAccess.OwnsSaveData, hrange.2] at hid
    obtain ⟨owner, howner, rfl⟩ := mem_map.1 (mem_of_ownerAuthorized hid)
    have hall := any_eq_false.1 (rejectIf_eq_ok.1 hsave) owner howner
    rw [FileSystemAccess.OwnsSaveData]
    simpa using hall

/-! ### Kernel capabilities -/

theorem getLsbD_of_and_not {r a : UInt32} (h : r &&& ~~~a = 0) {bit : ℕ}
    (hbit : r.toBitVec.getLsbD bit = true) : a.toBitVec.getLsbD bit = true := by
  have hand := congrArg (fun word : UInt32 => word.toBitVec.getLsbD bit) h
  simp only [UInt32.toBitVec_and, UInt32.toBitVec_not, BitVec.getLsbD_and, BitVec.getLsbD_not,
    hbit, Bool.true_and] at hand
  have hlt := BitVec.lt_of_getLsbD hbit
  simpa [hlt] using hand

theorem KernelVersion.atMost_trans {u v w : KernelVersion} (huv : u.atMost v = true)
    (hvw : v.atMost w = true) : u.atMost w = true := by
  simp only [KernelVersion.atMost, or_eq_true, and_eq_true, decide_eq_true_eq,
    beq_iff_eq] at huv hvw ⊢
  omega

/-- **A capability that covers another gives all its rights.** -/
theorem grants_of_covers {allowed requested : KernelCapability}
    (h : allowed.covers requested = true) {grant : Grant} (hgrant : requested.Grants grant) :
    allowed.Grants grant := by
  cases requested with
  | threadInfo =>
    cases allowed with
    | threadInfo =>
      simp only [covers, and_eq_true, decide_eq_true_eq] at h
      obtain ⟨⟨⟨hlow, hhigh⟩, hmin⟩, hmax⟩ := h
      cases grant with
      | priority => exact ⟨hhigh.trans hgrant.1, hgrant.2.trans hlow⟩
      | core => exact ⟨hmin.trans hgrant.1, hgrant.2.trans hmax⟩
      | _ => exact .elim hgrant
    | _ => cases h
  | systemCalls =>
    cases allowed with
    | systemCalls =>
      simp only [covers, and_eq_true, beq_iff_eq] at h
      cases grant with
      | systemCall => exact ⟨hgrant.1.trans h.1, getLsbD_of_and_not h.2 hgrant.2⟩
      | _ => exact .elim hgrant
    | _ => cases h
  | memoryMap r =>
    cases allowed with
    | memoryMap a =>
      simp only [covers, and_eq_true, beq_iff_eq, decide_eq_true_eq] at h
      obtain ⟨⟨⟨hpermission, hregion⟩, haddress⟩, hstop⟩ := h
      obtain ⟨stop, hsum, hle⟩ := (Option.any_eq_true _ _).1 hstop
      obtain ⟨rfl, -⟩ := checkedAdd_eq_some.1 hsum
      have hle : r.address + r.size ≤ a.address + a.size := by simpa using hle
      cases grant with
      | page =>
        obtain ⟨rfl, rfl, hlo, hhi⟩ := hgrant
        exact ⟨hpermission.symm, hregion.symm, haddress.trans hlo, hhi.trans_le hle⟩
      | _ => exact .elim hgrant
    | _ => cases h
  | ioMemoryMap r =>
    cases allowed with
    | ioMemoryMap a =>
      obtain rfl : r = a := by simpa [covers] using h
      exact hgrant
    | _ => cases h
  | memoryRegions =>
    cases allowed with
    | memoryRegions =>
      cases grant with
      | memoryRegion slot =>
        obtain ⟨hkind, hslot⟩ := hgrant
        have hall := Vector.all_eq_true.1 h slot slot.isLt
        rw [Fin.getElem_fin] at hslot
        simp only [Vector.getElem_zip, hslot, or_eq_true, beq_iff_eq] at hall
        exact ⟨hkind, (hall.resolve_left hkind).symm⟩
      | _ => exact .elim hgrant
    | _ => cases h
  | interrupts =>
    cases allowed with
    | interrupts =>
      cases grant with
      | interrupt number =>
        have hall := all_eq_true.1 h number
          (mem_filterMap.2 ⟨some number, Vector.mem_toList_iff.2 hgrant, rfl⟩)
        exact Vector.contains_iff_mem.1 hall
      | _ => exact .elim hgrant
    | _ => cases h
  | programType r =>
    cases allowed with
    | programType a =>
      obtain rfl : r = a := by simpa [covers] using h
      exact hgrant
    | _ => cases h
  | kernelVersion =>
    cases allowed with
    | kernelVersion =>
      cases grant with
      | kernelVersion => exact KernelVersion.atMost_trans hgrant h
      | _ => exact .elim hgrant
    | _ => cases h
  | handleTableSize r =>
    cases allowed with
    | handleTableSize a =>
      have hle : r ≤ a := by simpa [covers] using h
      cases grant with
      | handleTable => exact le_trans hgrant hle
      | _ => exact .elim hgrant
    | _ => cases h
  | debugFlags rd rp rf =>
    cases allowed with
    | debugFlags =>
      simp only [covers, and_eq_true, or_eq_true, not_eq_true'] at h
      obtain ⟨⟨hd, hp⟩, hf⟩ := h
      cases grant with
      | allowDebug => exact hd.resolve_left (by rw [show rd = true from hgrant]; decide)
      | forceDebugProd => exact hp.resolve_left (by rw [show rp = true from hgrant]; decide)
      | forceDebug => exact hf.resolve_left (by rw [show rf = true from hgrant]; decide)
      | _ => exact .elim hgrant
    | _ => cases h

theorem grants_of_authorizedBy {requested allowed : KernelCapabilities}
    (h : requested.authorizedBy allowed = true) {grant : Grant} (hgrant : requested.Grants grant) :
    allowed.Grants grant := by
  obtain ⟨capability, hcapability, hgrant⟩ := hgrant
  obtain ⟨candidate, hcandidate, hcovers⟩ :=
    any_eq_true.1 (all_eq_true.1 h capability hcapability)
  exact ⟨candidate, hcandidate, grants_of_covers hcovers hgrant⟩

/-! ### The loader -/

/-- `ACI0` has no ranges of owners and no wildcards. -/
theorem parseAci0_parts {aci : Aci0} (h : parseAci0 bytes range = .ok aci) :
    (aci.filesystem.contentOwnerRange = none ∧ aci.filesystem.saveDataOwnerRange = none) ∧
      ∀ entry ∈ aci.services, wildcard ∉ entry.name := by
  obtain ⟨data, -, h⟩ := bind_eq_ok.1 h
  obtain ⟨_, -, h⟩ := bind_eq_ok.1 h
  obtain ⟨_, -, h⟩ := bind_eq_ok.1 h
  obtain ⟨_, -, h⟩ := bind_eq_ok.1 h
  obtain ⟨_, -, h⟩ := bind_eq_ok.1 h
  obtain ⟨fs, -, h⟩ := bind_eq_ok.1 h
  obtain ⟨sac, -, h⟩ := bind_eq_ok.1 h
  obtain ⟨kac, -, h⟩ := bind_eq_ok.1 h
  obtain ⟨_, -, h⟩ := bind_eq_ok.1 h
  obtain ⟨programId, -, h⟩ := bind_eq_ok.1 h
  obtain ⟨filesystem, hfilesystem, h⟩ := bind_eq_ok.1 h
  obtain ⟨services, hservices, h⟩ := bind_eq_ok.1 h
  obtain ⟨kernel, -, h⟩ := bind_eq_ok.1 h
  obtain rfl := pure_eq_ok.1 h
  exact ⟨parseAciFilesystem_range hfilesystem, parseServices_no_wildcard hservices⟩

/-- **The policy stays within the authorization.**  For every byte string that the loader accepts,
what the effective policy grants — a service, a permission bit, an owner, a single right of the
kernel — the descriptor grants. -/
theorem policy_within_authorization (bytes : List UInt8) (npdm : Npdm)
    (h : parseNpdm bytes = .ok npdm) :
    ∃ header acid, parseMeta bytes = .ok header ∧ parseAcid bytes header.acid = .ok acid ∧
      (∀ name mode, npdm.effective.services.allows name mode = true →
        acid.services.allows name mode = true) ∧
      npdm.effective.filesystem.Within acid.filesystem ∧
      ∀ grant, npdm.effective.kernelCapabilities.Grants grant → acid.kernel.Grants grant := by
  obtain ⟨header, hheader, h⟩ := bind_eq_ok.1 h
  obtain ⟨aci, haci, h⟩ := bind_eq_ok.1 h
  obtain ⟨acid, hacid, h⟩ := bind_eq_ok.1 h
  obtain ⟨_, hauthorize, h⟩ := bind_eq_ok.1 h
  obtain ⟨name, -, h⟩ := bind_eq_ok.1 h
  obtain ⟨productCode, -, h⟩ := bind_eq_ok.1 h
  obtain ⟨signatureKeyGeneration, -, h⟩ := bind_eq_ok.1 h
  obtain ⟨defaultCpuCore, -, h⟩ := bind_eq_ok.1 h
  obtain ⟨version, -, h⟩ := bind_eq_ok.1 h
  obtain rfl := pure_eq_ok.1 h
  obtain ⟨hrange, hnames⟩ := parseAci0_parts haci
  obtain ⟨_, -, hauthorize⟩ := bind_eq_ok.1 hauthorize
  obtain ⟨_, hfilesystem, hauthorize⟩ := bind_eq_ok.1 hauthorize
  obtain ⟨_, hservices, hkernel⟩ := bind_eq_ok.1 hauthorize
  refine ⟨header, acid, hheader, hacid, ?_, ?_, ?_⟩
  · exact fun name mode => allows_of_validateServices hnames hservices
  · exact within_of_validateFilesystem hrange hfilesystem
  · exact fun grant => grants_of_authorizedBy (by simpa using rejectIf_eq_ok.1 hkernel)

/-! ### A sample -/

/-- Little-endian bytes. -/
def leBytes : ℕ → ℕ → List UInt8
  | 0, _ => []
  | n + 1, value => UInt8.ofNat value :: leBytes n (value / 256)

def zeros (n : ℕ) : List UInt8 := replicate n 0

def words (values : List ℕ) : List UInt8 := values.flatMap (leBytes 4)

/-- The name `fsp-srv`. -/
def fspSrv : List UInt8 := "fsp-srv".toUTF8.toList

/-- Asks for one service and four system calls. -/
def sampleAci0 : List UInt8 :=
  "ACI0".toUTF8.toList ++ zeros 12 ++ leBytes 8 0x1000 ++ zeros 8 ++
    words [0x40, 0x1c, 0x5c, 8, 0x64, 4] ++ zeros 8 ++
    ([1, 0, 0, 0] ++ leBytes 8 1 ++ zeros 16) ++ 6 :: fspSrv ++ words [0x1ef]

/-- Allows the services that start with `fsp-` and five system calls. -/
def sampleAcid : List UInt8 :=
  zeros 0x200 ++ "ACID".toUTF8.toList ++ leBytes 4 0x176 ++ zeros 4 ++ leBytes 4 0 ++
    leBytes 8 0x1000 ++ leBytes 8 0x1fff ++ words [0x240, 0x2c, 0x26c, 6, 0x272, 4] ++ zeros 8 ++
    ([1, 0, 0, 0] ++ leBytes 8 3 ++ zeros 32) ++ 4 :: "fsp-*".toUTF8.toList ++ words [0x3ef]

def sampleNpdm : List UInt8 :=
  "META".toUTF8.toList ++ zeros 0x6c ++
    words [0x80, sampleAci0.length, 0x80 + sampleAci0.length, sampleAcid.length] ++
    sampleAci0 ++ sampleAcid

/-- The service is allowed, since the descriptor allows it. -/
theorem policy_within_authorization_sample :
    ∃ npdm header acid, parseNpdm sampleNpdm = .ok npdm ∧ parseMeta sampleNpdm = .ok header ∧
      parseAcid sampleNpdm header.acid = .ok acid ∧
      acid.services.allows fspSrv .client = true ∧ acid.kernel.Grants (.systemCall 3) := by
  have hsample : ((parseNpdm sampleNpdm).value.any fun npdm =>
      npdm.effective.services.allows fspSrv .client &&
        npdm.effective.kernelCapabilities == [.systemCalls 0 15]) = true := by decide +kernel
  obtain ⟨npdm, hvalue, hallows⟩ := (Option.any_eq_true _ _).1 hsample
  obtain ⟨hservice, hkernel⟩ := and_eq_true_iff.1 hallows
  have hok := Outcome.value_eq_some.1 hvalue
  obtain ⟨header, acid, hheader, hacid, hservices, -, hgrants⟩ :=
    policy_within_authorization sampleNpdm npdm hok
  refine ⟨npdm, header, acid, hok, hheader, hacid, hservices _ _ hservice, hgrants _ ?_⟩
  rw [beq_iff_eq.1 hkernel]
  exact ⟨_, mem_singleton_self _, by decide, by decide⟩

end Nixe.NpdmLoader
