import DzOS.Drivers.Pci
import DzOS.Lib.Mask
import Mathlib

/-!
# `DzOS.Proofs.Drivers.Pci`: what the PCI scan finds

The places that the scan should find are those of `visible`: the first function of each device of
the bus 0, and the others of a device whose header says that it has more. `Describes` says that the
record of a function has the fields of the configuration space, and the sizes of its windows.

`Scanned` is what a part of the scan does, for a list of places. Two parts compose
(`Scanned.append`), so `pci_scan_exact` follows by induction over the functions and the devices: the
scan reports each visible function once, in order, and leaves the configuration space and the
interrupt flag as they were, although it writes to every base address register.
-/

set_option autoImplicit false

namespace DzOS.Proofs.Drivers

open DzOS.Lib DzOS.Drivers

variable {func slot : UInt8} {a : UInt32}

/-! ### Addresses -/

/-- A byte that is shifted into its place in a word. -/
theorem toNat_shifted_byte (x : UInt8) {k : ℕ} (hk : k ≤ 24) :
    (x.toUInt32 <<< UInt32.ofNat k).toNat = 2 ^ k * x.toNat := by
  have hx : x.toNat < 2 ^ 8 := x.toNat_lt
  have hbound : x.toNat * 2 ^ k < 2 ^ 32 :=
    calc x.toNat * 2 ^ k < 2 ^ 8 * 2 ^ k := Nat.mul_lt_mul_of_pos_right hx (Nat.two_pow_pos k)
      _ ≤ 2 ^ 8 * 2 ^ 24 := Nat.mul_le_mul_left _ (Nat.pow_le_pow_right (by decide) hk)
  have hshift : (UInt32.ofNat k).toNat % 32 = k := by
    rw [UInt32.toNat_ofNat_of_lt' (by simp only [UInt32.size]; omega)]
    omega
  rw [UInt32.toNat_shiftLeft, UInt8.toNat_toUInt32, hshift, Nat.shiftLeft_eq,
    Nat.mod_eq_of_lt hbound, Nat.mul_comm]

section

variable (bus : UInt8) (offset : UInt8) (hslot : slot.toNat < 32) (hfunc : func.toNat < 8)

include hslot hfunc

/-- The parts of an address do not overlap. -/
theorem toNat_configAddress :
    (configAddress bus slot func offset).toNat =
      2 ^ 31 * 1 + (2 ^ 16 * bus.toNat + (2 ^ 11 * slot.toNat + (2 ^ 8 * func.toNat +
        offset.toNat / 4 * 4))) := by
  have hbus : bus.toNat < 2 ^ 8 := bus.toNat_lt
  have hoffset : offset.toNat < 2 ^ 8 := offset.toNat_lt
  have hword : (offset &&& 0xFC).toNat = offset.toNat / 4 * 4 := by
    rw [UInt8.toNat_and, show (0xFC : UInt8).toNat = (2 ^ 6 - 1) <<< 2 from rfl, land_shifted_mask]
    omega
  have h₁ : offset.toNat / 4 * 4 < 2 ^ 8 := by omega
  have h₂ : 2 ^ 8 * func.toNat + offset.toNat / 4 * 4 < 2 ^ 11 := by omega
  have h₃ : 2 ^ 11 * slot.toNat + (2 ^ 8 * func.toNat + offset.toNat / 4 * 4) < 2 ^ 16 := by
    omega
  have h₄ : 2 ^ 16 * bus.toNat + (2 ^ 11 * slot.toNat + (2 ^ 8 * func.toNat +
      offset.toNat / 4 * 4)) < 2 ^ 31 := by
    omega
  rw [Nat.two_pow_add_eq_or_of_lt h₄, Nat.two_pow_add_eq_or_of_lt h₃,
    Nat.two_pow_add_eq_or_of_lt h₂, Nat.two_pow_add_eq_or_of_lt h₁,
    ← toNat_shifted_byte bus (by decide), ← toNat_shifted_byte slot (by decide),
    ← toNat_shifted_byte func (by decide), ← hword, Nat.or_comm (2 ^ 31 * 1), ← Nat.or_assoc,
    ← Nat.or_assoc]
  unfold configAddress
  simp only [UInt32.toNat_or, UInt8.toNat_toUInt32]
  rfl

/-- The hardware finds the register of an address. -/
theorem decodeAddress_configAddress :
    decodeAddress (configAddress bus slot func offset) =
      ⟨bus.toNat, slot.toNat, func.toNat, offset.toNat / 4 * 4⟩ := by
  have hbus : bus.toNat < 2 ^ 8 := bus.toNat_lt
  have hoffset : offset.toNat < 2 ^ 8 := offset.toNat_lt
  unfold decodeAddress
  rw [toNat_configAddress bus offset hslot hfunc]
  simp only [PciRegister.mk.injEq]
  refine ⟨?_, ?_, ?_, ?_⟩ <;> omega

theorem enabled_configAddress : (configAddress bus slot func offset).toNat.testBit 31 = true := by
  have hbus : bus.toNat < 2 ^ 8 := bus.toNat_lt
  have hoffset : offset.toNat < 2 ^ 8 := offset.toNat_lt
  rw [toNat_configAddress bus offset hslot hfunc, Nat.testBit_two_pow_mul_add _ (by omega)]
  rfl

end

/-! ### Reads and writes -/

/-- The bus with another address in its first port. -/
def latch (h : PciHost) (address : UInt32) : PciHost := { h with address := address }

@[simp] theorem latch_config (h : PciHost) (a : UInt32) : (latch h a).config = h.config := rfl

@[simp] theorem latch_onWrite (h : PciHost) (a : UInt32) : (latch h a).onWrite = h.onWrite := rfl

@[simp] theorem latch_latch (h : PciHost) (a b : UInt32) : latch (latch h a) b = latch h b := rfl

theorem latch_self (h : PciHost) : latch h h.address = h := rfl

/-- The register at an offset. -/
def registerAt (bus slot func offset : UInt8) : PciRegister :=
  ⟨bus.toNat, slot.toNat, func.toNat, offset.toNat / 4 * 4⟩

/-- The write of a register. -/
def store (h : PciHost) (r : PciRegister) (value : UInt32) : PciHost :=
  { h with config := Function.update h.config r (h.onWrite r (h.config r) value) }

/-- What the second port is after an address was written to the first one. -/
theorem inl_address (h : PciHost) (bus : UInt8) (offset : UInt8) (hslot : slot.toNat < 32)
    (hfunc : func.toNat < 8) :
    (h.cli.outl 0xCF8 (configAddress bus slot func offset)).inl 0xCFC =
      h.config (registerAt bus slot func offset) := by
  have hen := enabled_configAddress bus offset hslot hfunc
  have hdec := decodeAddress_configAddress bus offset hslot hfunc
  simp only [PciHost.outl, PciHost.inl, PciHost.cli, PciHost.enabled, if_pos, hen, hdec,
    and_self, registerAt]

/-- The flag of the interrupts is as it was. -/
theorem stiIf_address (h : PciHost) (address : UInt32) :
    (h.cli.outl 0xCF8 address).stiIf h.interruptsEnabled = latch h address := by
  obtain ⟨_, config, onWrite, flag⟩ := h
  cases flag <;> rfl

section
variable (h : PciHost) (bus : UInt8) {slot func : UInt8} (offset : UInt8)
  (hslot : slot.toNat < 32) (hfunc : func.toNat < 8)
include hslot hfunc

theorem pciConfigReadDword_eq : pciConfigReadDword h bus slot func offset =
    (h.config (registerAt bus slot func offset),
      latch h (configAddress bus slot func offset)) := by
  unfold pciConfigReadDword
  simp only [inl_address h bus offset hslot hfunc, stiIf_address]

theorem pciConfigReadWord_eq : pciConfigReadWord h bus slot func offset =
    (((h.config (registerAt bus slot func offset) >>> ((offset &&& 2).toUInt32 * 8)) &&&
      0xFFFF).toUInt16, latch h (configAddress bus slot func offset)) := by
  unfold pciConfigReadWord
  simp only [inl_address h bus offset hslot hfunc, stiIf_address]

theorem pciConfigWriteDword_eq (value : UInt32) :
    pciConfigWriteDword h bus slot func offset value =
      latch (store h (registerAt bus slot func offset) value)
        (configAddress bus slot func offset) := by
  have hen := enabled_configAddress bus offset hslot hfunc
  have hdec := decodeAddress_configAddress bus offset hslot hfunc
  unfold pciConfigWriteDword
  obtain ⟨_, config, onWrite, flag⟩ := h
  cases flag <;>
    simp [PciHost.outl, PciHost.cli, PciHost.stiIf, PciHost.enabled, hen, hdec, latch, store,
      registerAt]

end

/-! ### The fields of a function -/

/-- Bytes of the configuration space, as a number. -/
def configField (config : PciRegister → UInt32) (bus device func offset bytes : ℕ) : ℕ :=
  (config ⟨bus, device, func, offset / 4 * 4⟩).toNat / 2 ^ (8 * (offset % 4)) % 2 ^ (8 * bytes)

section
variable (h : PciHost) (bus : UInt8) {slot func : UInt8} (offset : UInt8)
  (hslot : slot.toNat < 32) (hfunc : func.toNat < 8)
include hslot hfunc

/-- A word, at an even offset. -/
theorem readWord_field (heven : offset.toNat % 2 = 0) :
    (pciConfigReadWord h bus slot func offset).1.toNat =
      configField h.config bus.toNat slot.toNat func.toNat offset.toNat 2 := by
  have hoffset : offset.toNat < 2 ^ 8 := offset.toNat_lt
  have hbits : (offset &&& 2).toNat = offset.toNat % 4 := by
    rw [UInt8.toNat_and, show (2 : UInt8).toNat = (2 ^ 1 - 1) <<< 1 from rfl, land_shifted_mask]
    omega
  have hshift : ((offset &&& 2).toUInt32 * 8).toNat % 32 = 8 * (offset.toNat % 4) := by
    rw [UInt32.toNat_mul, UInt8.toNat_toUInt32, hbits, show (8 : UInt32).toNat = 8 from rfl]
    omega
  rw [pciConfigReadWord_eq h bus offset hslot hfunc]
  unfold configField registerAt
  simp only [UInt32.toNat_toUInt16, UInt32.toNat_and, UInt32.toNat_shiftRight, hshift,
    Nat.shiftRight_eq_div_pow, show (0xFFFF : UInt32).toNat = 2 ^ 16 - 1 from rfl,
    Nat.and_two_pow_sub_one_eq_mod]
  omega

/-- A byte, from the word around it. -/
theorem readByte_field :
    (pciConfigReadByte h bus slot func offset).1.toNat =
      configField h.config bus.toNat slot.toNat func.toNat offset.toNat 1 := by
  have hoffset : offset.toNat < 2 ^ 8 := offset.toNat_lt
  have heven : (offset &&& ~~~1).toNat = offset.toNat / 2 * 2 := by
    rw [UInt8.toNat_and, show (~~~1 : UInt8).toNat = (2 ^ 7 - 1) <<< 1 from rfl, land_shifted_mask]
    omega
  have hodd : (offset &&& 1).toNat = offset.toNat % 2 := by
    rw [UInt8.toNat_and, show (1 : UInt8).toNat = 2 ^ 1 - 1 from rfl,
      Nat.and_two_pow_sub_one_eq_mod]
  have hword := readWord_field h bus (offset &&& ~~~1) hslot hfunc (by omega)
  have hregister : (offset &&& ~~~1).toNat / 4 * 4 = offset.toNat / 4 * 4 := by omega
  unfold configField at hword ⊢
  rw [hregister] at hword
  generalize (h.config ⟨_, _, _, _⟩).toNat = x at hword ⊢
  have hplace : (offset &&& ~~~1).toNat % 4 = offset.toNat % 4 / 2 * 2 := by omega
  rw [hplace] at hword
  unfold pciConfigReadByte
  simp only
  generalize (pciConfigReadWord h bus slot func (offset &&& ~~~1)).1 = word at hword ⊢
  have hlow : (word &&& 0xFF).toNat = word.toNat % 2 ^ 8 := by
    rw [UInt16.toNat_and, show (0xFF : UInt16).toNat = 2 ^ 8 - 1 from rfl,
      Nat.and_two_pow_sub_one_eq_mod]
  have hhigh : (word >>> 8).toNat = word.toNat / 2 ^ 8 := by
    rw [UInt16.toNat_shiftRight, show (8 : UInt16).toNat % 16 = 8 from rfl,
      Nat.shiftRight_eq_div_pow]
  have hfour : offset.toNat % 4 < 4 := Nat.mod_lt _ (by decide)
  by_cases hbit : offset &&& 1 = 0
  · have hzero : offset.toNat % 2 = 0 := by
      rw [← hodd, hbit]
      rfl
    rw [if_neg (not_not.mpr hbit), UInt16.toNat_toUInt8, hlow, hword]
    have hcases : offset.toNat % 4 = 0 ∨ offset.toNat % 4 = 2 := by omega
    rcases hcases with hmod | hmod <;> rw [hmod] <;> omega
  · have hone : offset.toNat % 2 ≠ 0 := by
      rw [← hodd]
      intro hz
      exact hbit (UInt8.toNat_inj.mp hz)
    rw [if_pos hbit, UInt16.toNat_toUInt8, hhigh, hword]
    have hcases : offset.toNat % 4 = 1 ∨ offset.toNat % 4 = 3 := by omega
    rcases hcases with hmod | hmod <;> rw [hmod] <;> omega

end

/-! ### The base address registers -/

/-- A register with the read-only bits `readOnly`. -/
def Masked (h : PciHost) (r : PciRegister) (readOnly : UInt32) : Prop :=
  ∀ old new, h.onWrite r old new = (new &&& ~~~readOnly) ||| (old &&& readOnly)

/-- After a write of all ones, the old value puts back what the register had. -/
theorem masked_restored (c readOnly : UInt32) :
    (c &&& ~~~readOnly) |||
      (((0xFFFFFFFF &&& ~~~readOnly) ||| (c &&& readOnly)) &&& readOnly) = c := by
  apply UInt32.eq_of_toBitVec_eq
  apply BitVec.eq_of_getLsbD_eq
  intro i hi
  simp only [UInt32.toBitVec_or, UInt32.toBitVec_and, UInt32.toBitVec_not, BitVec.getLsbD_or,
    BitVec.getLsbD_and, BitVec.getLsbD_not, hi, decide_true, Bool.true_and]
  cases c.toBitVec.getLsbD i <;> cases readOnly.toBitVec.getLsbD i <;> simp

/-- The window behind a base address register has `2 ^ k` bytes: the low bits of the register are
read-only. They are zero, up to those that say what kind the register is. -/
structure Window (h : PciHost) (r : PciRegister) (k : ℕ) : Prop where
  lt : k < 32
  masked : Masked h r (UInt32.ofNat (2 ^ k - 1))
  kind : ((h.config r).toNat % 2 = 0 ∧ 4 ≤ k ∧ (h.config r).toNat % 2 ^ k < 16) ∨
    ((h.config r).toNat % 2 = 1 ∧ 2 ≤ k ∧ (h.config r).toNat % 2 ^ k < 2)

section
variable {c : UInt32} {k : ℕ}

/-- What a register with the read-only bits below `k` has after a write of all ones. -/
theorem ones_masked (hk : k < 32) (c : UInt32) :
    ((0xFFFFFFFF &&& ~~~(UInt32.ofNat (2 ^ k - 1))) ||| (c &&& UInt32.ofNat (2 ^ k - 1))).toNat =
      2 ^ 32 - 2 ^ k + c.toNat % 2 ^ k := by
  have hpow : 2 ^ k < 2 ^ 32 := Nat.pow_lt_pow_right (by decide) hk
  have hpos : 0 < 2 ^ k := Nat.two_pow_pos k
  have hmask : (UInt32.ofNat (2 ^ k - 1)).toNat = 2 ^ k - 1 :=
    UInt32.toNat_ofNat_of_lt' (by simp only [UInt32.size]; omega)
  have hsplit : 2 ^ 32 - 2 ^ k = 2 ^ k * (2 ^ (32 - k) - 1) := by
    rw [Nat.mul_sub_one, ← Nat.pow_add, Nat.add_sub_cancel' hk.le]
  have hhigh : (0xFFFFFFFF &&& ~~~(UInt32.ofNat (2 ^ k - 1))).toNat = 2 ^ 32 - 2 ^ k := by
    rw [show (0xFFFFFFFF : UInt32) = -1 from rfl, UInt32.neg_one_and, UInt32.toNat_not, hmask]
    simp only [UInt32.size]
    omega
  have hlow : (c &&& UInt32.ofNat (2 ^ k - 1)).toNat = c.toNat % 2 ^ k := by
    rw [UInt32.toNat_and, hmask, Nat.and_two_pow_sub_one_eq_mod]
  rw [UInt32.toNat_or, hhigh, hlow, hsplit,
    ← Nat.two_pow_add_eq_or_of_lt (Nat.mod_lt _ hpos)]

/-- The size is read off the mask, when its low bits below `2 ^ j` are those of the kind. -/
theorem not_masked_add_one {x m : UInt32} {j : ℕ} (hm : m.toNat = (2 ^ (32 - j) - 1) <<< j)
    (hj : j ≤ k) (hk : k < 32) {r : ℕ} (hr : r < 2 ^ j) (hx : x.toNat = 2 ^ 32 - 2 ^ k + r) :
    ~~~(x &&& m) + 1 = UInt32.ofNat (2 ^ k) := by
  have hpow : 2 ^ k < 2 ^ 32 := Nat.pow_lt_pow_right (by decide) hk
  have hpos : 0 < 2 ^ k := Nat.two_pow_pos k
  have hsplit : 2 ^ 32 - 2 ^ k = (2 ^ (32 - j) - 2 ^ (k - j)) * 2 ^ j := by
    rw [Nat.sub_mul, ← Nat.pow_add, ← Nat.pow_add, Nat.sub_add_cancel (hj.trans hk.le),
      Nat.sub_add_cancel hj]
  have hdiv : x.toNat / 2 ^ j = 2 ^ (32 - j) - 2 ^ (k - j) := by
    rw [hx, hsplit, Nat.add_comm, Nat.add_mul_div_right _ _ (Nat.two_pow_pos j),
      Nat.div_eq_of_lt hr, Nat.zero_add]
  have hkept : (x &&& m).toNat = 2 ^ 32 - 2 ^ k := by
    rw [UInt32.toNat_and, hm, land_shifted_mask, hdiv, Nat.mod_eq_of_lt, ← hsplit]
    exact Nat.sub_lt (Nat.two_pow_pos _) (Nat.two_pow_pos _)
  apply UInt32.toNat_inj.mp
  rw [UInt32.toNat_add, UInt32.toNat_not, hkept, UInt32.toNat_ofNat_of_lt' hpow,
    show (1 : UInt32).toNat = 1 from rfl]
  simp only [UInt32.size]
  omega

/-- The size that the mask gives is that of the window. -/
theorem sizeOfMask_window {h : PciHost} {r : PciRegister} (hw : Window h r k) :
    sizeOfMask (h.config r) (h.onWrite r (h.config r) 0xFFFFFFFF) = UInt32.ofNat (2 ^ k) := by
  have hpow : 2 ^ k < 2 ^ 32 := Nat.pow_lt_pow_right (by decide) hw.lt
  have hones := ones_masked hw.lt (h.config r)
  rw [hw.masked]
  generalize hx : ((0xFFFFFFFF &&& ~~~(UInt32.ofNat (2 ^ k - 1))) |||
    (h.config r &&& UInt32.ofNat (2 ^ k - 1))) = x at hones ⊢
  have hbit : (h.config r &&& 1).toNat = (h.config r).toNat % 2 := by
    rw [UInt32.toNat_and, show (1 : UInt32).toNat = 2 ^ 1 - 1 from rfl,
      Nat.and_two_pow_sub_one_eq_mod]
  have hparity : (h.config r).toNat % 2 ^ k % 2 = (h.config r).toNat % 2 := by
    refine Nat.mod_mod_of_dvd _ (dvd_pow_self 2 ?_)
    rcases hw.kind with hkind | hkind <;> omega
  have hne : x ≠ 0 := by
    rintro rfl
    rw [show (0 : UInt32).toNat = 0 from rfl] at hones
    omega
  unfold sizeOfMask
  rcases hw.kind with ⟨heven, hk, hlow⟩ | ⟨hodd, hk, hlow⟩
  · have hpow4 : 2 ^ 4 ≤ 2 ^ k := Nat.pow_le_pow_right (by decide) hk
    have hfull : x ≠ 0xFFFFFFFF := by
      rintro rfl
      rw [show (0xFFFFFFFF : UInt32).toNat = 2 ^ 32 - 1 from rfl] at hones
      omega
    have hkind : ¬ h.config r &&& 1 ≠ 0 := by
      rw [not_not]
      exact UInt32.toNat_inj.mp (hbit.trans heven)
    rw [if_neg (not_or.mpr ⟨hne, hfull⟩), if_neg hkind]
    exact not_masked_add_one rfl hk hw.lt hlow hones
  · have hpow2 : 2 ^ 2 ≤ 2 ^ k := Nat.pow_le_pow_right (by decide) hk
    have hfull : x ≠ 0xFFFFFFFF := by
      rintro rfl
      rw [show (0xFFFFFFFF : UInt32).toNat = 2 ^ 32 - 1 from rfl] at hones
      omega
    have hkind : h.config r &&& 1 ≠ 0 := by
      intro hz
      rw [hz] at hbit
      rw [← hbit] at hodd
      cases hodd
    rw [if_neg (not_or.mpr ⟨hne, hfull⟩), if_pos hkind]
    exact not_masked_add_one rfl hk hw.lt (hlow.trans (by decide)) hones

end

/-- Sizing a register leaves it as it was. -/
theorem pciGetBarSize_eq (h : PciHost) (bus : UInt8) (offset : UInt8) (hslot : slot.toNat < 32)
    (hfunc : func.toNat < 8) {readOnly : UInt32}
    (hm : Masked h (registerAt bus slot func offset) readOnly) :
    pciGetBarSize h bus slot func offset (h.config (registerAt bus slot func offset)) =
      (sizeOfMask (h.config (registerAt bus slot func offset))
        (h.onWrite (registerAt bus slot func offset)
          (h.config (registerAt bus slot func offset)) 0xFFFFFFFF),
        latch h (configAddress bus slot func offset)) := by
  unfold pciGetBarSize
  simp only [pciConfigWriteDword_eq _ _ _ hslot hfunc, pciConfigReadDword_eq _ _ _ hslot hfunc]
  generalize registerAt bus slot func offset = r at hm ⊢
  have hback : h.onWrite r (h.onWrite r (h.config r) 0xFFFFFFFF) (h.config r) = h.config r := by
    rw [hm, hm, masked_restored]
  simp only [store, latch, Function.update_self, Function.update_idem, hback,
    Function.update_eq_self]

/-! ### One function -/

/-- The field of a function on the bus 0. A place is a device with one of its functions. -/
def fieldAt (h : PciHost) (place : UInt8 × UInt8) (offset bytes : ℕ) : ℕ :=
  configField h.config 0 place.1.toNat place.2.toNat offset bytes

/-- A base address register. -/
def barRegister (place : UInt8 × UInt8) (i : ℕ) : PciRegister :=
  ⟨0, place.1.toNat, place.2.toNat, 0x10 + 4 * i⟩

/-- The record of a function has its fields. A base address register that can not be written has no
window. -/
structure Describes (h : PciHost) (place : UInt8 × UInt8) (info : PciFunctionInfo) : Prop where
  bus : info.bus = 0
  device : info.device = place.1
  function : info.function = place.2
  vendorId : info.vendorId.toNat = fieldAt h place 0x00 2
  deviceId : info.deviceId.toNat = fieldAt h place 0x02 2
  classCode : info.classCode.toNat = fieldAt h place 0x0B 1
  subclass : info.subclass.toNat = fieldAt h place 0x0A 1
  progIf : info.progIf.toNat = fieldAt h place 0x09 1
  irq : info.irq.toNat = fieldAt h place 0x3C 1
  irqPin : info.irqPin.toNat = fieldAt h place 0x3D 1
  subsystemVendor : info.subsystemVendor.toNat = fieldAt h place 0x2C 2
  subsystemId : info.subsystemId.toNat = fieldAt h place 0x2E 2
  bar : ∀ i < 6, (info.bar[i]?).map UInt32.toNat = some (fieldAt h place (0x10 + 4 * i) 4)
  window : ∀ i < 6, ∀ k, Window h (barRegister place i) k →
    info.barSize[i]? = some (UInt32.ofNat (2 ^ k))
  noWindow : ∀ i < 6, Masked h (barRegister place i) 0xFFFFFFFF →
    h.config (barRegister place i) = 0 → info.barSize[i]? = some 0

/-- A function that is there. -/
def Present (h : PciHost) (place : UInt8 × UInt8) : Prop := fieldAt h place 0x00 2 ≠ 0xFFFF

instance (h : PciHost) : DecidablePred (Present h) := fun _ => inferInstanceAs (Decidable (_ ≠ _))

/-- The base address registers of a function. -/
def BarsMasked (h : PciHost) (place : UInt8 × UInt8) : Prop :=
  ∀ i < 6, ∃ readOnly, Masked h (barRegister place i) readOnly

/-- A place that has an address. -/
def InRange (place : UInt8 × UInt8) : Prop := place.1.toNat < 32 ∧ place.2.toNat < 8

section
variable {h : PciHost} {place : UInt8 × UInt8}

theorem registerAt_bar (place : UInt8 × UInt8) {i : ℕ} (hi : i < 6) :
    registerAt 0 place.1 place.2 (barOffset i) = barRegister place i := by
  have hoffset : (barOffset i).toNat / 4 * 4 = 0x10 + 4 * i := by
    have h6 : ∀ i < 6, (barOffset i).toNat / 4 * 4 = 0x10 + 4 * i := by decide
    exact h6 i hi
  unfold registerAt barRegister
  rw [hoffset]
  rfl

theorem readBars_eq (hplace : InRange place) (is : List ℕ) (hlt : ∀ i ∈ is, i < 6) (a : UInt32) :
    ∃ b, readBars (latch h a) 0 place.1 place.2 is =
      (is.map fun i => h.config (barRegister place i), latch h b) := by
  induction is generalizing a with
  | nil => exact ⟨a, rfl⟩
  | cons i rest ih =>
    obtain ⟨b, hb⟩ := ih (fun j hj => hlt j (List.mem_cons_of_mem _ hj))
      (configAddress 0 place.1 place.2 (barOffset i))
    refine ⟨b, ?_⟩
    unfold readBars
    simp only [pciConfigReadDword_eq _ _ _ hplace.1 hplace.2, latch_config, latch_latch, hb,
      registerAt_bar place (hlt i List.mem_cons_self), List.map_cons]

/-- The size of a base address register. -/
def windowSize (h : PciHost) (r : PciRegister) : UInt32 :=
  sizeOfMask (h.config r) (h.onWrite r (h.config r) 0xFFFFFFFF)

theorem sizeBars_eq (hplace : InRange place) (hm : BarsMasked h place) (is : List ℕ)
    (hlt : ∀ i ∈ is, i < 6) (a : UInt32) :
    ∃ b, sizeBars (latch h a) 0 place.1 place.2 is
        (is.map fun i => h.config (barRegister place i)) =
      (is.map fun i => windowSize h (barRegister place i), latch h b) := by
  induction is generalizing a with
  | nil => exact ⟨a, rfl⟩
  | cons i rest ih =>
    have hi := hlt i List.mem_cons_self
    obtain ⟨readOnly, hro⟩ := hm i hi
    obtain ⟨b, hb⟩ := ih (fun j hj => hlt j (List.mem_cons_of_mem _ hj))
      (configAddress 0 place.1 place.2 (barOffset i))
    have hsize := pciGetBarSize_eq (latch h a) 0 (barOffset i) hplace.1 hplace.2
      (show Masked h (registerAt 0 place.1 place.2 (barOffset i)) readOnly by
        rw [registerAt_bar place hi]
        exact hro)
    rw [registerAt_bar place hi] at hsize
    refine ⟨b, ?_⟩
    simp only [latch_config, latch_latch, latch_onWrite] at hsize
    simp only [List.map_cons, sizeBars, hsize, hb, windowSize]

/-- What a read returns does not depend on the address in the first port. -/
theorem pciConfigReadWord_latch (hplace : InRange place) (a : UInt32) (offset : UInt8) :
    pciConfigReadWord (latch h a) 0 place.1 place.2 offset =
      ((pciConfigReadWord h 0 place.1 place.2 offset).1,
        latch h (configAddress 0 place.1 place.2 offset)) := by
  simp only [pciConfigReadWord_eq _ _ _ hplace.1 hplace.2, latch_config, latch_latch]

theorem pciConfigReadByte_latch (hplace : InRange place) (a : UInt32) (offset : UInt8) :
    pciConfigReadByte (latch h a) 0 place.1 place.2 offset =
      ((pciConfigReadByte h 0 place.1 place.2 offset).1,
        latch h (configAddress 0 place.1 place.2 (offset &&& ~~~1))) := by
  unfold pciConfigReadByte
  simp only [pciConfigReadWord_latch hplace]

/-- The record that the scan makes of a function. -/
def infoOf (h : PciHost) (place : UInt8 × UInt8) : PciFunctionInfo where
  bus := 0
  device := place.1
  function := place.2
  vendorId := (pciConfigReadWord h 0 place.1 place.2 PCI_VENDOR_ID).1
  deviceId := (pciConfigReadWord h 0 place.1 place.2 PCI_DEVICE_ID).1
  classCode := (pciConfigReadByte h 0 place.1 place.2 PCI_CLASS_CODE).1
  subclass := (pciConfigReadByte h 0 place.1 place.2 PCI_SUBCLASS).1
  progIf := (pciConfigReadByte h 0 place.1 place.2 PCI_PROG_IF).1
  irq := (pciConfigReadByte h 0 place.1 place.2 PCI_INTERRUPT_LINE).1
  irqPin := (pciConfigReadByte h 0 place.1 place.2 PCI_INTERRUPT_PIN).1
  subsystemVendor := (pciConfigReadWord h 0 place.1 place.2 PCI_SUBSYSTEM_VENDOR_ID).1
  subsystemId := (pciConfigReadWord h 0 place.1 place.2 PCI_SUBSYSTEM_ID).1
  bar := (List.range 6).map fun i => h.config (barRegister place i)
  barSize := (List.range 6).map fun i => windowSize h (barRegister place i)

theorem describes_infoOf (hplace : InRange place) : Describes h place (infoOf h place) := by
  have hword := fun offset heven => readWord_field h 0 offset hplace.1 hplace.2 heven
  have hbyte := fun offset => readByte_field h 0 offset hplace.1 hplace.2
  have hget : ∀ {i}, i < 6 → ∀ f : ℕ → UInt32, ((List.range 6).map f)[i]? = some (f i) := by
    intro i hi f
    rw [List.getElem?_map, List.getElem?_range hi]
    rfl
  exact {
    bus := rfl
    device := rfl
    function := rfl
    vendorId := hword _ rfl
    deviceId := hword _ rfl
    classCode := hbyte _
    subclass := hbyte _
    progIf := hbyte _
    irq := hbyte _
    irqPin := hbyte _
    subsystemVendor := hword _ rfl
    subsystemId := hword _ rfl
    bar := by
      intro i hi
      have hmod : (0x10 + 4 * i) % 4 = 0 := by omega
      have hoffset : (0x10 + 4 * i) / 4 * 4 = 0x10 + 4 * i := by omega
      have hlt := (h.config (barRegister place i)).toNat_lt
      simp only [infoOf, hget hi, Option.map_some, fieldAt, configField, hmod, hoffset,
        Nat.mul_zero, Nat.pow_zero, Nat.div_one]
      exact congrArg some (Nat.mod_eq_of_lt hlt).symm
    window := by
      intro i hi k hw
      simp only [infoOf, hget hi, windowSize, sizeOfMask_window hw]
    noWindow := by
      intro i hi hm hzero
      have hones : h.onWrite (barRegister place i) 0 0xFFFFFFFF = 0 := by
        rw [hm]
        rfl
      simp only [infoOf, hget hi, windowSize, hzero, hones]
      rfl }

/-- The test of a vendor. -/
theorem vendor_iff (hplace : InRange place) :
    (pciConfigReadWord h 0 place.1 place.2 PCI_VENDOR_ID).1 = 0xFFFF ↔ ¬ Present h place := by
  have hvendor : (pciConfigReadWord h 0 place.1 place.2 PCI_VENDOR_ID).1.toNat =
      fieldAt h place 0x00 2 := readWord_field h 0 PCI_VENDOR_ID hplace.1 hplace.2 rfl
  unfold Present
  rw [not_not, ← hvendor, ← UInt16.toNat_inj]
  rfl

/-- The devices of a list of records are registered. -/
def registerAll (dm : DeviceManager) (infos : List PciFunctionInfo) : DeviceManager :=
  infos.foldl (fun dm info => (deviceRegisterFromPci dm info.toPciDeviceInfo).2) dm

variable (hasMemory : UInt8 → UInt8 → Bool)

/-- A part of the scan has reported the functions at a list of places, up to those without
memory. -/
structure Scanned (h : PciHost) (places : List (UInt8 × UInt8)) (s s' : PciScan) : Prop where
  host : ∃ a, s'.host = latch h a
  infos : ∃ infos,
    List.Forall₂ (Describes h) (places.filter fun place => hasMemory place.1 place.2) infos ∧
      s'.dm = registerAll s.dm infos ∧ s'.reported = s.reported ++ infos ∧
      s'.found = s.found + infos.length

variable {s s' s'' : PciScan} {places places' : List (UInt8 × UInt8)} {hasMemory}

/-- A part of the scan that reports nothing. -/
theorem Scanned.nothing (a : UInt32) :
    Scanned hasMemory h [] s { s with host := latch h a } :=
  ⟨⟨a, rfl⟩, [], List.Forall₂.nil, rfl, (List.append_nil _).symm, rfl⟩

/-- Two parts of the scan. -/
theorem Scanned.append (h₁ : Scanned hasMemory h places s s')
    (h₂ : Scanned hasMemory h places' s' s'') : Scanned hasMemory h (places ++ places') s s'' := by
  obtain ⟨-, infos, hinfos, hdm, hreported, hfound⟩ := h₁
  obtain ⟨hhost, infos', hinfos', hdm', hreported', hfound'⟩ := h₂
  refine ⟨hhost, infos ++ infos', ?_, ?_, ?_, ?_⟩
  · rw [List.filter_append]
    exact List.rel_append hinfos hinfos'
  · rw [hdm', hdm, registerAll, registerAll, registerAll, List.foldl_append]
  · rw [hreported', hreported, List.append_assoc]
  · rw [hfound', hfound, List.length_append, Nat.add_assoc]

/-- The address in the first port at the start does not matter. -/
theorem Scanned.of_host {host : PciHost}
    (hs : Scanned hasMemory h places { s with host := host } s') :
    Scanned hasMemory h places s s' :=
  ⟨hs.host, hs.infos⟩

/-- `pci_scan_function`. -/
theorem Scanned.function (hasMemory : UInt8 → UInt8 → Bool) (hplace : InRange place)
    (hpresent : Present h place) (hm : BarsMasked h place) (hhost : s.host = latch h a) :
    Scanned hasMemory h [place] s (pciScanFunction hasMemory s 0 place.1 place.2) := by
  obtain ⟨b, hbars⟩ := readBars_eq (h := h) hplace (List.range 6)
    (fun i hi => List.mem_range.mp hi)
    (configAddress 0 place.1 place.2 PCI_SUBSYSTEM_ID)
  obtain ⟨c, hsizes⟩ := sizeBars_eq hplace hm (List.range 6) (fun i hi => List.mem_range.mp hi) b
  have hvendor := fun heq => (vendor_iff hplace).mp heq hpresent
  unfold pciScanFunction
  simp only [hhost, pciConfigReadWord_latch hplace, pciConfigReadByte_latch hplace, if_neg hvendor,
    hbars, hsizes]
  cases hmem : hasMemory place.1 place.2 with
  | false =>
    refine ⟨⟨b, rfl⟩, [], ?_, rfl, (List.append_nil _).symm, rfl⟩
    simp [hmem]
  | true =>
    refine ⟨⟨c, rfl⟩, [infoOf h place], ?_, rfl, rfl, rfl⟩
    simp only [List.filter_cons, hmem, if_true, List.filter_nil]
    exact List.Forall₂.cons (describes_infoOf hplace) List.Forall₂.nil

end

/-! ### The devices -/

/-- The header of the first function says that the device has more. -/
def Multifunction (h : PciHost) (device : UInt8) : Prop :=
  (fieldAt h (device, 0) 0x0E 1).testBit 7 = true

instance (h : PciHost) : DecidablePred (Multifunction h) := fun _ =>
  inferInstanceAs (Decidable (_ = _))

/-- A function that software sees: its device is there, and it is the first one or the device has
more. -/
def IsVisible (h : PciHost) (place : UInt8 × UInt8) : Prop :=
  Present h (place.1, 0) ∧ Present h place ∧ (place.2 = 0 ∨ Multifunction h place.1)

instance (h : PciHost) : DecidablePred (IsVisible h) := fun _ =>
  inferInstanceAs (Decidable (_ ∧ _ ∧ _))

/-- The places of a device. -/
def placesOf (device : UInt8) : List (UInt8 × UInt8) :=
  [0, 1, 2, 3, 4, 5, 6, 7].map fun func => (device, func)

/-- The places of the visible functions of a list of devices. -/
def visible (h : PciHost) (devices : List ℕ) : List (UInt8 × UInt8) :=
  devices.flatMap fun device =>
    (placesOf (UInt8.ofNat device)).filter fun place => IsVisible h place

section
variable {h : PciHost} {s : PciScan} {device : UInt8}

/-- The test of the header type. -/
theorem headerType_iff (hdevice : device.toNat < 32) :
    (pciConfigReadByte h 0 device 0 PCI_HEADER_TYPE).1 &&& PCI_HEADER_MULTIFUNCTION ≠ 0 ↔
      Multifunction h device := by
  have hfield := readByte_field h 0 PCI_HEADER_TYPE hdevice (show (0 : UInt8).toNat < 8 by decide)
  generalize (pciConfigReadByte h 0 device 0 PCI_HEADER_TYPE).1 = x at hfield ⊢
  have hbit : (x &&& PCI_HEADER_MULTIFUNCTION).toNat = x.toNat / 2 ^ 7 % 2 * 2 ^ 7 := by
    rw [UInt8.toNat_and, show PCI_HEADER_MULTIFUNCTION.toNat = (2 ^ 1 - 1) <<< 7 from rfl,
      land_shifted_mask, Nat.pow_one]
  unfold Multifunction
  rw [show fieldAt h (device, 0) 0x0E 1 = x.toNat from hfield.symm,
    Nat.testBit_eq_decide_div_mod_eq, decide_eq_true_eq, Ne, ← UInt8.toNat_inj, hbit,
    show (0 : UInt8).toNat = 0 from rfl]
  omega

/-- The functions behind the first. -/
theorem scanFunctions_scanned (hasMemory : UInt8 → UInt8 → Bool) (hdevice : device.toNat < 32)
    (hm : ∀ place, IsVisible h place → BarsMasked h place) (hfirst : Present h (device, 0))
    (hmulti : Multifunction h device) (funcs : List UInt8) (hfuncs : ∀ func ∈ funcs, func.toNat < 8)
    (hhost : s.host = latch h a) :
    Scanned hasMemory h ((funcs.map fun func => (device, func)).filter fun place => Present h place)
      s (scanFunctions hasMemory 0 device funcs s) := by
  induction funcs generalizing s a with
  | nil =>
    have hsame : s = { s with host := latch h a } := by rw [← hhost]
    rw [hsame]
    exact Scanned.nothing a
  | cons func rest ih =>
    have hplace : InRange (device, func) := ⟨hdevice, hfuncs func List.mem_cons_self⟩
    have hrest := fun g hg => hfuncs g (List.mem_cons_of_mem _ hg)
    unfold scanFunctions
    simp only [hhost, pciConfigReadWord_latch hplace, List.map_cons, List.filter_cons]
    by_cases hpresent : Present h (device, func)
    · have hvendor := fun heq => (vendor_iff hplace).mp heq hpresent
      rw [if_pos hvendor, if_pos (decide_eq_true hpresent)]
      have hone := Scanned.function hasMemory hplace hpresent
        (hm _ ⟨hfirst, hpresent, Or.inr hmulti⟩)
        (s := { s with host := latch h (configAddress 0 device func PCI_VENDOR_ID) }) rfl
      obtain ⟨b, hb⟩ := hone.host
      exact (hone.append (ih hrest hb)).of_host
    · have hvendor := (vendor_iff hplace).mpr hpresent
      rw [if_neg (not_not.mpr hvendor), if_neg (by simpa using hpresent)]
      exact (ih hrest rfl).of_host

/-- A device without its first function. -/
theorem placesOf_absent (hfirst : ¬ Present h (device, 0)) :
    ((placesOf device).filter fun place => IsVisible h place) = [] := by
  refine List.filter_eq_nil_iff.mpr fun place hplace hvisible => ?_
  obtain ⟨func, -, rfl⟩ := List.mem_map.mp hplace
  exact hfirst (of_decide_eq_true hvisible).1

/-- A device with its first function. -/
theorem placesOf_present (hfirst : Present h (device, 0)) :
    ((placesOf device).filter fun place => IsVisible h place) =
      (device, 0) :: if Multifunction h device then
        (([1, 2, 3, 4, 5, 6, 7] : List UInt8).map fun func => (device, func)).filter
          fun place => Present h place
      else [] := by
  have hhead : IsVisible h (device, 0) := ⟨hfirst, hfirst, Or.inl rfl⟩
  have hne : ∀ place ∈ ([1, 2, 3, 4, 5, 6, 7] : List UInt8).map fun func => (device, func),
      place.1 = device ∧ place.2 ≠ 0 := by
    intro place hplace
    obtain ⟨func, hfunc, rfl⟩ := List.mem_map.mp hplace
    refine ⟨rfl, ?_⟩
    rintro rfl
    exact absurd hfunc (by decide)
  unfold placesOf
  rw [List.map_cons, List.filter_cons, if_pos (decide_eq_true hhead)]
  congr 1
  by_cases hmulti : Multifunction h device
  · rw [if_pos hmulti]
    refine List.filter_congr fun place hplace => decide_eq_decide.mpr ?_
    rw [IsVisible, (hne place hplace).1]
    exact ⟨fun hv => hv.2.1, fun hp => ⟨hfirst, hp, Or.inr hmulti⟩⟩
  · rw [if_neg hmulti]
    refine List.filter_eq_nil_iff.mpr fun place hplace hvisible => ?_
    obtain ⟨hdevice, hfunc⟩ := hne place hplace
    rcases (of_decide_eq_true hvisible).2.2 with hzero | hmore
    · exact hfunc hzero
    · exact hmulti (hdevice ▸ hmore)

/-- `pci_scan_device`. -/
theorem pciScanDevice_scanned (hasMemory : UInt8 → UInt8 → Bool) (hdevice : device.toNat < 32)
    (hm : ∀ place, IsVisible h place → BarsMasked h place) (hhost : s.host = latch h a) :
    Scanned hasMemory h ((placesOf device).filter fun place => IsVisible h place) s
      (pciScanDevice hasMemory s 0 device) := by
  have hplace : InRange (device, 0) := ⟨hdevice, show (0 : UInt8).toNat < 8 by decide⟩
  unfold pciScanDevice
  simp only [hhost, pciConfigReadWord_latch hplace]
  by_cases hfirst : Present h (device, 0)
  case neg =>
    rw [if_pos ((vendor_iff hplace).mpr hfirst), placesOf_absent hfirst]
    exact Scanned.nothing _
  rw [if_neg fun heq => (vendor_iff hplace).mp heq hfirst, placesOf_present hfirst]
  have hone := Scanned.function hasMemory hplace hfirst
    (hm _ ⟨hfirst, hfirst, Or.inl rfl⟩)
    (s := { s with host := latch h (configAddress 0 device 0 PCI_VENDOR_ID) }) rfl
  obtain ⟨b, hb⟩ := hone.host
  simp only [hb, pciConfigReadByte_latch hplace]
  by_cases hmulti : Multifunction h device
  · rw [if_pos ((headerType_iff hdevice).mpr hmulti), if_pos hmulti]
    have hfuncs : ∀ func ∈ ([1, 2, 3, 4, 5, 6, 7] : List UInt8), func.toNat < 8 := by simp
    have hmore := scanFunctions_scanned hasMemory hdevice hm hfirst hmulti
      [1, 2, 3, 4, 5, 6, 7] hfuncs (s := { (pciScanFunction hasMemory
        { s with host := latch h (configAddress 0 device 0 PCI_VENDOR_ID) } 0 device 0) with
          host := latch h (configAddress 0 device 0 (PCI_HEADER_TYPE &&& ~~~1)) }) rfl
    exact (hone.append hmore.of_host).of_host
  · rw [if_neg fun hmore => hmulti ((headerType_iff hdevice).mp hmore), if_neg hmulti]
    exact (hone.append (Scanned.nothing _)).of_host

/-- The loop over the devices. -/
theorem scanDevices_scanned (hasMemory : UInt8 → UInt8 → Bool)
    (hm : ∀ place, IsVisible h place → BarsMasked h place) (devices : List ℕ)
    (hdevices : ∀ device ∈ devices, device < 32) (hhost : s.host = latch h a) :
    Scanned hasMemory h (visible h devices) s (scanDevices hasMemory devices s) := by
  induction devices generalizing s a with
  | nil =>
    have hsame : s = { s with host := latch h a } := by rw [← hhost]
    rw [hsame]
    exact Scanned.nothing a
  | cons device rest ih =>
    have hlt := hdevices device List.mem_cons_self
    have hdevice : (UInt8.ofNat device).toNat < 32 := by
      rw [UInt8.toNat_ofNat_of_lt' (by simp only [UInt8.size]; omega)]
      exact hlt
    have hone := pciScanDevice_scanned hasMemory hdevice hm hhost
    obtain ⟨b, hb⟩ := hone.host
    exact hone.append (ih (fun d hd => hdevices d (List.mem_cons_of_mem _ hd)) hb)

end

/-! ### The scan -/

/-- The device of a record. -/
def deviceOf (info : PciFunctionInfo) : Device where
  name := none
  class_ := pciClass info.classCode
  bus := .pci
  drv := none
  irq := info.irq
  initialized := false

/-- The devices are registered in order, as long as the array has room. -/
theorem registerAll_eq (dm : DeviceManager) (infos : List PciFunctionInfo) :
    registerAll dm infos = { dm with
      devices := dm.devices ++ (infos.map deviceOf).take (MAX_DEVICES - dm.devices.length) } := by
  induction infos generalizing dm with
  | nil => simp [registerAll]
  | cons info rest ih =>
    have hstep : registerAll dm (info :: rest) =
        registerAll (deviceRegisterFromPci dm info.toPciDeviceInfo).2 rest := rfl
    rw [hstep, ih]
    unfold deviceRegisterFromPci DeviceManager.addDevice
    by_cases hfull : MAX_DEVICES ≤ dm.devices.length
    · rw [if_pos hfull]
      simp [Nat.sub_eq_zero_of_le hfull]
    · rw [if_neg hfull]
      obtain ⟨room, hroom⟩ : ∃ room, MAX_DEVICES - dm.devices.length = room + 1 :=
        ⟨MAX_DEVICES - dm.devices.length - 1, by omega⟩
      have hleft : MAX_DEVICES - (dm.devices.length + 1) = room := by omega
      simp only [List.length_append, List.length_singleton, hleft, hroom, List.map_cons,
        List.take_succ_cons, List.append_assoc, List.singleton_append]
      rfl

/-- What a scan from `host` shows: the functions that are reported, with their number, the devices
that are registered, and the bus as it was. -/
structure ScanShows (hasMemory : UInt8 → UInt8 → Bool) (host : PciHost) (dm : DeviceManager)
    (s : PciScan) : Prop where
  reported : List.Forall₂ (Describes host)
    ((visible host (List.range 32)).filter fun place => hasMemory place.1 place.2) s.reported
  found : s.found = s.reported.length
  devices : s.dm.devices = dm.devices ++
    (s.reported.map deviceOf).take (MAX_DEVICES - dm.devices.length)
  drivers : s.dm.drivers = dm.drivers
  config : s.host.config = host.config
  interrupts : s.host.interruptsEnabled = host.interruptsEnabled

/-- The scan reports each visible function of the bus 0 once, in order, with its fields and the
sizes of its windows, as long as there is memory. It leaves the configuration space and the flag of
the interrupts as they were. -/
theorem pci_scan_exact (hasMemory : UInt8 → UInt8 → Bool) (host : PciHost) (dm : DeviceManager)
    (hm : ∀ place, IsVisible host place → BarsMasked host place) :
    ScanShows hasMemory host dm (hwDetectPciScan hasMemory host dm) := by
  obtain ⟨⟨a, hhost⟩, infos, hinfos, hdm, hreported, hfound⟩ :=
    scanDevices_scanned hasMemory (s := ⟨host, dm, [], 0⟩) hm (List.range 32)
      (fun device hdevice => List.mem_range.mp hdevice) (latch_self host).symm
  rw [List.nil_append] at hreported
  rw [Nat.zero_add] at hfound
  rw [registerAll_eq] at hdm
  have hall : (hwDetectPciScan hasMemory host dm).reported = infos := hreported
  have hdrivers := congrArg DeviceManager.drivers hdm
  have hconfig := congrArg PciHost.config hhost
  have hflag := congrArg PciHost.interruptsEnabled hhost
  exact {
    reported := by
      rw [hall]
      exact hinfos
    found := by
      rw [hall]
      exact hfound
    devices := by
      rw [hall]
      exact congrArg DeviceManager.devices hdm
    drivers := hdrivers
    config := hconfig
    interrupts := hflag }

/-- A bus with a host bridge, and an NVMe controller with two functions as the device 3. The first
base address register of the controller is a window of 16 KiB. -/
def exampleHost : PciHost where
  address := 0
  config r :=
    if r = ⟨0, 0, 0, 0⟩ then 0x29C08086
    else if r = ⟨0, 3, 0, 0⟩ ∨ r = ⟨0, 3, 1, 0⟩ then 0x00101B36
    else if r = ⟨0, 3, 0, 8⟩ then 0x01080202
    else if r = ⟨0, 3, 0, 12⟩ then 0x00800000
    else if r = ⟨0, 3, 0, 16⟩ then 0xFEBF0004
    else if r.device = 0 ∨ r.device = 3 ∧ r.function < 2 then 0
    else 0xFFFFFFFF
  onWrite r old new :=
    let readOnly := if r = ⟨0, 3, 0, 16⟩ then 0x3FFF else 0xFFFFFFFF
    (new &&& ~~~readOnly) ||| (old &&& readOnly)
  interruptsEnabled := true

theorem pci_scan_exact_nvme :
    visible exampleHost (List.range 32) = [(0, 0), (3, 0), (3, 1)] ∧
      ScanShows (fun _ _ => true) exampleHost DeviceManager.boot
        (hwDetectPciScan (fun _ _ => true) exampleHost DeviceManager.boot) :=
  ⟨by decide +kernel,
    pci_scan_exact (fun _ _ => true) exampleHost DeviceManager.boot fun _ _ _ _ =>
      ⟨_, fun _ _ => rfl⟩⟩

end DzOS.Proofs.Drivers
