import DzOS.Proofs.Fs.Descriptors

/-!
# `DzOS.Proofs.Fs.Seek`: the offset after `file_seek`

`wantedOffset` is the exact integer that a seek asks for. `SeekExact` says that the new offset is
that integer when it lies in the file, and the end of the file when it lies past it.

`file_seek` narrows the request to 32 bits before it compares it with the size. A target below 0
becomes some offset in the file, which is allowed. A target past the end is only found out when its
low 32 bits lie past the end too. `seek_exact_iff` is this condition.
-/

set_option autoImplicit false

namespace DzOS.Proofs.Fs.Seek

open DzOS.Fs DzOS.Fs.Syscall

variable {whence : Int}

/-- The size of the file that a seek reads, a field of 32 bits. -/
def cachedSize (s : DescState) (inode : InodePtr) : UInt32 :=
  UInt32.ofNat (s.vars.inodes inode).size

/-- The three positions that an offset counts from. -/
def KnownWhence (whence : Int) : Prop :=
  whence = SEEK_SET ∨ whence = SEEK_CUR ∨ whence = SEEK_END

/-- The offset that a seek asks for, as an exact integer. -/
def wantedOffset (size current : UInt32) (offset : Int64) (whence : Int) : Int :=
  if whence = SEEK_SET then offset.toInt
  else if whence = SEEK_CUR then current.toNat + offset.toInt
  else size.toNat - offset.toInt

/-- The seek goes to the offset it asks for, or to the end of the file, and never past it. -/
def SeekExact (s : DescState) (fd : Int) (i : Fin MAX_OPEN_FILES) (size : UInt32)
    (offset : Int64) (whence : Int) : Prop :=
  let t := wantedOffset size (s.proc.openFiles i).offset offset whence
  ∃ result s', fileSeek s fd offset whence = .ok (result, s') ∧
    (0 ≤ t → t ≤ size.toNat → ((s'.proc.openFiles i).offset.toNat : Int) = t) ∧
    (size.toNat < t → (s'.proc.openFiles i).offset = size) ∧
    (s'.proc.openFiles i).offset ≤ size

/-- A number of 64 bits and its low half. -/
theorem toNat_narrowed (x : Int64) : (x.toUInt64.toUInt32.toNat : Int) = x.toInt % 2 ^ 32 := by
  have hlow : (x.toUInt64.toNat : Int) % 2 ^ 32 = x.toInt % 2 ^ 32 := by
    have hint : x.toInt = Int.bmod x.toUInt64.toNat (2 ^ 64) := by
      show x.toBitVec.toInt = _
      rw [BitVec.toInt_eq_toNat_bmod]
      rfl
    rw [hint, Int.bmod_def]
    split <;> omega
  rw [UInt64.toNat_toUInt32, Int.natCast_mod]
  exact hlow

/-- Each of the three formulas computes the low 32 bits of the exact offset. -/
theorem seekOffset_eq (file : ProcessFile) (size : UInt32) (offset : Int64)
    (h : KnownWhence whence) :
    ∃ o, seekOffset file size offset whence = some o ∧
      (o.toNat : Int) = wantedOffset size file.offset offset whence % 2 ^ 32 := by
  have hnarrow := toNat_narrowed offset
  rcases h with rfl | rfl | rfl
  · exact ⟨_, rfl, hnarrow⟩
  · refine ⟨_, rfl, ?_⟩
    have hlow := UInt64.toNat_toUInt32 offset.toUInt64
    show _ = ((file.offset.toNat : Int) + offset.toInt) % 2 ^ 32
    rw [UInt64.toNat_toUInt32, UInt64.toNat_add, UInt32.toNat_toUInt64]
    omega
  · refine ⟨_, rfl, ?_⟩
    show _ = ((size.toNat : Int) - offset.toInt) % 2 ^ 32
    rw [UInt32.toNat_sub]
    omega

/-- What a seek leaves behind: the low 32 bits of the exact offset, cut off at the size. -/
theorem fileSeek_offset {s : DescState} {fd : Int} {i : Fin MAX_OPEN_FILES} {inode : InodePtr}
    (offset : Int64) (hfd : openFd fd = some i)
    (hkind : (s.proc.openFiles i).kind = .FD_INODE inode) (hwhence : KnownWhence whence) :
    ∃ result s', fileSeek s fd offset whence = .ok (result, s') ∧
      ((s'.proc.openFiles i).offset.toNat : Int) =
        min (wantedOffset (cachedSize s inode) (s.proc.openFiles i).offset offset whence % 2 ^ 32)
          ((cachedSize s inode).toNat : Int) := by
  obtain ⟨o, hoffset, hval⟩ :=
    seekOffset_eq (s.proc.openFiles i) (cachedSize s inode) offset hwhence
  have hcut : ((if o > cachedSize s inode then cachedSize s inode else o).toNat : Int) =
      min (o.toNat : Int) ((cachedSize s inode).toNat : Int) := by
    split
    · rename_i hpast
      have hpast : (cachedSize s inode).toNat < o.toNat := hpast
      omega
    · rename_i hin
      have hin : o.toNat ≤ (cachedSize s inode).toNat := Nat.le_of_not_lt hin
      omega
  rw [← hval, ← hcut]
  unfold cachedSize at hoffset
  simp only [fileSeek, hfd, hkind, hoffset]
  refine ⟨_, _, rfl, ?_⟩
  show ((Function.update s.proc.openFiles i _ i).offset.toNat : Int) = _
  rw [Function.update_self]
  rfl

/-- A seek is exact if and only if its target does not lie past the end of the file, or lies past
it with its low 32 bits too. -/
theorem seek_exact_iff {s : DescState} {fd : Int} {i : Fin MAX_OPEN_FILES} {inode : InodePtr}
    {offset : Int64} {whence : Int} (hfd : openFd fd = some i)
    (hkind : (s.proc.openFiles i).kind = .FD_INODE inode) (hwhence : KnownWhence whence) :
    SeekExact s fd i (cachedSize s inode) offset whence ↔
      wantedOffset (cachedSize s inode) (s.proc.openFiles i).offset offset whence ≤
          (cachedSize s inode).toNat ∨
        ((cachedSize s inode).toNat : Int) ≤
          wantedOffset (cachedSize s inode) (s.proc.openFiles i).offset offset whence % 2 ^ 32 := by
  obtain ⟨result, s', hseek, hoffset⟩ := fileSeek_offset offset hfd hkind hwhence
  unfold SeekExact
  generalize wantedOffset (cachedSize s inode) (s.proc.openFiles i).offset offset whence = t at *
  have hlt := (cachedSize s inode).toNat_lt
  constructor
  · rintro ⟨result, s'', hseek', hexact, hpast, hbound⟩
    rw [hseek] at hseek'
    cases hseek'
    by_cases ht : t ≤ (cachedSize s inode).toNat
    · exact Or.inl ht
    · -- The offset is the end of the file, so the low half was cut off or ends there.
      have hend := congrArg UInt32.toNat (hpast (by omega))
      exact Or.inr (by omega)
  · intro hcond
    refine ⟨result, s', hseek, ?_, ?_, ?_⟩
    · intro h0 hin
      rw [hoffset, Int.emod_eq_of_lt h0 (by omega)]
      omega
    · intro hpast
      apply UInt32.toNat_inj.mp
      omega
    · show (s'.proc.openFiles i).offset.toNat ≤ (cachedSize s inode).toNat
      omega

/-- A process with a file of ten bytes, open at its start. -/
def tenByteFile : DescState where
  vars := (FsVars.boot ⟨fun _ => DzOS.Lib.Bytes.zero, 1, 4⟩).setInode ⟨0, maxInodes_pos⟩
    { type := .FILE, size := 10, referenceCount := 1, dnode := 5, parentDnode := 1 }
  proc := ⟨fun _ => ⟨.FD_INODE ⟨0, maxInodes_pos⟩, 0, true, true⟩, ⟨0, maxInodes_pos⟩⟩
  initialDataSegment := 0
  mem := DzOS.Lib.Bytes.zero
  aligned := zero_aligned

theorem seek_exact_within :
    SeekExact tenByteFile 0 ⟨0, by decide⟩ (cachedSize tenByteFile ⟨0, by decide⟩) 4 SEEK_SET :=
  (seek_exact_iff (by decide) rfl (Or.inl rfl)).mpr (Or.inl (by decide))

/-- A seek to 2^32 goes to the start of the file. -/
theorem seek_wraps :
    (tenByteFile.proc.openFiles ⟨0, by decide⟩).kind = .FD_INODE ⟨0, by decide⟩ ∧
      (tenByteFile.proc.openFiles ⟨0, by decide⟩).offset ≤ cachedSize tenByteFile ⟨0, by decide⟩ ∧
      ¬ SeekExact tenByteFile 0 ⟨0, by decide⟩ (cachedSize tenByteFile ⟨0, by decide⟩) (2 ^ 32)
        SEEK_SET := by
  refine ⟨rfl, by decide, ?_⟩
  rintro ⟨result, s', hseek, -, hpast, -⟩
  have hzero : ((fileSeek tenByteFile 0 (2 ^ 32) SEEK_SET).toOption.map fun r =>
      (r.2.proc.openFiles ⟨0, by decide⟩).offset) = some 0 := by decide
  rw [hseek] at hzero
  have hend : (s'.proc.openFiles ⟨0, by decide⟩).offset = 10 := hpast (by decide)
  rw [show (s'.proc.openFiles ⟨0, by decide⟩).offset = 0 from Option.some.inj hzero] at hend
  exact absurd hend (by decide)

end DzOS.Proofs.Fs.Seek
