import DzOS.Lib.Bytes

/-!
# `DzOS.Drivers.Pic`: the search for the IOAPIC, `find_ioapic_from_madt` of `pic.c`

The firmware's MADT is a header, two fields and a chain of entries. Each entry starts with a byte
for its type and a byte for its length. `findIoapicFromMadt` walks the chain up to the first
IOAPIC entry that it takes, and stores the address and the first interrupt of that entry.

Offsets count from `madt`. The result has every offset that the function reads, in the order of
the reads. `fuel` bounds the turns of the loop: `none` stands for a walk that is not over. The
message on the console is left out, apart from the byte of the entry that only it reads.
-/

set_option autoImplicit false

namespace DzOS.Drivers

open DzOS.Lib

/-- The offset of `header.Length`. -/
def MADT_LENGTH : Nat := 4

/-- The offset of `entries`. -/
def MADT_ENTRIES : Nat := 44

/-- `madt->header.Length`. -/
def madtLength (madt : Bytes) : Nat := madt.getLE 4 MADT_LENGTH

/-- `ioapic_phys` and `ioapic_gsi_base`. -/
structure Ioapic where
  ioapicPhys : Nat
  ioapicGsiBase : Nat
  deriving DecidableEq, Repr

/-- What the search stores, or `none` where it stores nothing, and the offsets that it reads. -/
structure MadtScan where
  ioapic : Option Ioapic
  reads : List Nat
  deriving DecidableEq, Repr

/-- The offsets of a field. -/
def field (off len : Nat) : List Nat := List.range' off len

/-- The fields `ioapic_addr` and `gsi_base` of the entry at `p`. -/
def ioapicEntry (madt : Bytes) (p : Nat) : Ioapic where
  ioapicPhys := madt.getLE 4 (p + 4)
  ioapicGsiBase := madt.getLE 4 (p + 8)

/-- The loop over the entries, with the reads before it. -/
def findIoapicLoop (madt : Bytes) («end» : Nat) : Nat → Nat → List Nat → Option MadtScan
  | 0, _, _ => none
  | fuel + 1, p, reads =>
    if p + 2 ≤ «end» then
      let type := madt p
      let len := (madt (p + 1)).toNat
      let reads := reads ++ field p 2
      if len < 2 then some ⟨none, reads⟩
      else if type = 1 ∧ p + len ≤ «end» then
        -- `ioapic_addr`, `gsi_base` and, for the message, `ioapic_id`
        some ⟨some (ioapicEntry madt p), reads ++ field (p + 4) 4 ++ field (p + 8) 4 ++ field (p + 2) 1⟩
      else findIoapicLoop madt «end» fuel (p + len) reads
    else some ⟨none, reads⟩

/-- `find_ioapic_from_madt`. Without a table `madt` is null. -/
def findIoapicFromMadt (madt : Option Bytes) (fuel : Nat) : Option MadtScan :=
  match madt with
  | none => some ⟨none, []⟩
  | some madt => findIoapicLoop madt (madtLength madt) fuel MADT_ENTRIES (field MADT_LENGTH 4)

end DzOS.Drivers
