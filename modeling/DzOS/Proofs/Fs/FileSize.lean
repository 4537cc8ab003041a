import DzOS.Proofs.Fs.Runs

/-!
# `DzOS.Proofs.Fs.FileSize`: the size of a file after a write

`dzfsWrite` adds the length of the data to the size of the file, whatever the offset is
(`dzfsWrite_size`). So the new size is the end of the written range, or the old size if that
is larger, only for a write at the end of the file and for a write of no data.

`fileSize_law_iff` states this for one write, and for every sequence of writes to a file that
starts out empty: its size is one past the highest byte written after each of the writes, and
within the limit of the file system, if and only if each write appends or has no data.
`overwrite_grows_file` is a file of one byte whose size becomes 2 when the byte is written
again.
-/

set_option autoImplicit false

namespace DzOS.Proofs.Fs

open DzOS.Lib DzOS.Fs

variable {d offset : Nat} {b b' : Bytes} {data : List UInt8} {fs fs' : Dzfs}

/-- Two blocks with the same header, up to the pointers. -/
def SameHeader (b b' : Bytes) : Prop := ∀ i < 268, b' i = b i

theorem SameHeader.trans {b'' : Bytes} (h : SameHeader b b') (h' : SameHeader b' b'') :
    SameHeader b b'' := fun i hi => (h' i hi).trans (h i hi)

theorem SameHeader.fileSize (h : SameHeader b b') : fileSize b' = fileSize b :=
  Bytes.getLE_congr fun i _ hi => h i (by simp only [SIZE_OFFSET] at hi; omega)

/-- A pointer lies behind the header. -/
theorem getOrAllocateBlock_header (fs : Dzfs) (b : Bytes) {off : Nat} (hoff : 268 ≤ off) :
    SameHeader b (getOrAllocateBlock fs b off).2.2 := by
  intro i hi
  unfold getOrAllocateBlock
  split
  · split
    · rfl
    · exact Bytes.setLE_of_apart (Or.inl (by omega))
  · rfl

theorem contentBlock_header (st : WriteState) :
    SameHeader st.dnodeBlock (contentBlock st).2.dnodeBlock := by
  unfold contentBlock
  simp only
  split
  · split
    · exact getOrAllocateBlock_header st.fs st.dnodeBlock (Nat.le_refl 268)
    · exact getOrAllocateBlock_header st.fs st.dnodeBlock (Nat.le_refl 268)
  · exact getOrAllocateBlock_header st.fs st.dnodeBlock (by simp only [directOffset]; omega)

/-- The loop does not touch the header of the dnode in memory. -/
theorem writeLoop_header (fuel : Nat) (st : WriteState) :
    SameHeader st.dnodeBlock (writeLoop fuel st).2.dnodeBlock := by
  induction fuel generalizing st with
  | zero => exact fun _ _ => rfl
  | succ fuel ih =>
    unfold writeLoop
    split
    · exact fun _ _ => rfl
    · simp only
      split
      · exact contentBlock_header st
      · exact (contentBlock_header st).trans (ih (copyToBlock _ _))

/-- A write that succeeds adds the length of the data to the size, and it passed the checks
on the offset. -/
theorem dzfsWrite_size (hw : dzfsWrite fs d data offset = (.OK, fs')) :
    fileSize (fs'.disk d) = (fileSize (fs.disk d) + data.length) % 2 ^ 32 ∧
      offset ≤ fileSize (fs.disk d) ∧ (data.length + offset) % 2 ^ 64 ≤ DZFS_MAX_FILESIZE := by
  unfold dzfsWrite at hw
  simp only at hw
  split at hw
  · cases hw
  · split at hw
    · cases hw
    · rename_i hmax
      split at hw
      · cases hw
      · rename_i hoff
        refine ⟨?_, not_lt.mp hoff, not_lt.mp hmax⟩
        generalize hst : WriteState.mk fs (fs.readBlock d) _ Bytes.zero data offset = st at hw
        have hheader := writeLoop_header data.length st
        rcases hloop : writeLoop data.length st with ⟨r, st'⟩
        rw [hloop] at hw hheader
        have hsize : fileSize st'.dnodeBlock = fileSize (fs.disk d) := by
          rw [hheader.fileSize, ← hst]
        cases r with
        | OK =>
          obtain ⟨-, rfl⟩ := Prod.mk.inj hw
          rw [← hsize]
          unfold finishWrite
          simp only [Dzfs.writeBlock, Function.update_self]
          rw [fileSize, Bytes.getLE_setLE_self]
          exact Nat.mod_eq_of_lt (Nat.mod_lt _ (by decide))
        | ERR_ARGUMENT => cases hw
        | ERR_LIMIT => cases hw
        | ERR_NOT_FOUND => cases hw
        | ERR_FULL => cases hw
        | ERR_NOT_EMPTY => cases hw
        | ERR_TOO_SMALL => cases hw

/-- The write appends to the file, or it has no data. -/
def Appends (size : Nat) (data : List UInt8) (offset : Nat) : Prop :=
  data = [] ∨ (offset = size ∧ data.length + offset < 2 ^ 64)

theorem fileSize_lt (b : Bytes) : fileSize b < 2 ^ 32 :=
  lt_of_lt_of_le (Bytes.getLE_lt b 4 SIZE_OFFSET) (by decide)

/-- The size after one write is the end of the data or the old size, whichever is larger, if
and only if the write appends or has no data. -/
theorem dzfsWrite_size_iff (hw : dzfsWrite fs d data offset = (.OK, fs')) :
    fileSize (fs'.disk d) = max (fileSize (fs.disk d)) (offset + data.length) ↔
      Appends (fileSize (fs.disk d)) data offset := by
  obtain ⟨hsize, hoff, hmax⟩ := dzfsWrite_size hw
  have hlt := fileSize_lt (fs.disk d)
  have hlimit : DZFS_MAX_FILESIZE < 2 ^ 32 := by decide
  rw [hsize, Appends, ← List.length_eq_zero_iff]
  generalize fileSize (fs.disk d) = size at hoff hlt ⊢
  generalize data.length = len at hmax ⊢
  generalize DZFS_MAX_FILESIZE = limit at hmax hlimit
  omega

/-! ### Sequences of writes -/

/-- A sequence of writes to the file `d`, each with its data and its offset, when all of them
succeed. -/
def writeRun (d : Nat) : Dzfs → List (List UInt8 × Nat) → Option Dzfs
  | fs, [] => some fs
  | fs, (data, offset) :: writes =>
    match dzfsWrite fs d data offset with
    | (.OK, fs') => writeRun d fs' writes
    | _ => none

/-- One past the highest byte of a sequence of writes. -/
def highestByte (writes : List (List UInt8 × Nat)) : Nat :=
  writes.foldl (fun high w => if w.1 = [] then high else max high (w.2 + w.1.length)) 0

theorem highestByte_append (writes : List (List UInt8 × Nat)) (w : List UInt8 × Nat) :
    highestByte (writes ++ [w]) =
      if w.1 = [] then highestByte writes else max (highestByte writes) (w.2 + w.1.length) := by
  simp [highestByte]

theorem writeRun_cons (d : Nat) (fs : Dzfs) (w : List UInt8 × Nat)
    (writes : List (List UInt8 × Nat)) :
    writeRun d fs (w :: writes) = match dzfsWrite fs d w.1 w.2 with
      | (.OK, fs') => writeRun d fs' writes
      | _ => none := rfl

theorem writeRun_append (d : Nat) (fs : Dzfs) (front back : List (List UInt8 × Nat)) :
    writeRun d fs (front ++ back) = (writeRun d fs front).bind fun fs₁ => writeRun d fs₁ back := by
  induction front generalizing fs with
  | nil => rfl
  | cons w front ih =>
    rw [List.cons_append, writeRun_cons, writeRun_cons]
    split
    · exact ih _
    · rfl

theorem writeRun_single :
    writeRun d fs [(data, offset)] = some fs' ↔ dzfsWrite fs d data offset = (.OK, fs') := by
  unfold writeRun
  rcases dzfsWrite fs d data offset with ⟨r, fs₁⟩
  cases r <;> simp [writeRun]

/-- The last write of a run. -/
theorem writeRun_snoc {front : List (List UInt8 × Nat)}
    (h : writeRun d fs (front ++ [(data, offset)]) = some fs') :
    ∃ fs₁, writeRun d fs front = some fs₁ ∧ dzfsWrite fs₁ d data offset = (.OK, fs') := by
  rw [writeRun_append, Option.bind_eq_some_iff] at h
  obtain ⟨fs₁, hfront, hlast⟩ := h
  exact ⟨fs₁, hfront, writeRun_single.mp hlast⟩

/-- After each of the writes, the size is one past the highest byte written so far, and it is
within the limit. -/
def SizeLaw (d : Nat) (fs : Dzfs) (writes : List (List UInt8 × Nat)) : Prop :=
  ∀ front fs', front <+: writes → writeRun d fs front = some fs' →
    fileSize (fs'.disk d) = highestByte front ∧ fileSize (fs'.disk d) ≤ DZFS_MAX_FILESIZE

/-- Each of the writes appends or has no data. -/
def AllAppend (d : Nat) (fs : Dzfs) (writes : List (List UInt8 × Nat)) : Prop :=
  ∀ front data offset fs', front ++ [(data, offset)] <+: writes →
    writeRun d fs front = some fs' → Appends (fileSize (fs'.disk d)) data offset

section
variable {d : Nat} {fs : Dzfs} {writes : List (List UInt8 × Nat)}

theorem SizeLaw.allAppend {fsEnd : Dzfs} (hrun : writeRun d fs writes = some fsEnd)
    (h : SizeLaw d fs writes) : AllAppend d fs writes := by
  intro front data offset fs₁ hfront hfs₁
  -- The run goes on behind `front`, so the write there succeeds.
  obtain ⟨fs₂, hfs₂⟩ : ∃ fs₂, writeRun d fs (front ++ [(data, offset)]) = some fs₂ := by
    obtain ⟨back, rfl⟩ := hfront
    rw [writeRun_append, Option.bind_eq_some_iff] at hrun
    exact ⟨hrun.choose, hrun.choose_spec.1⟩
  obtain ⟨fs₁', hfs₁', hw⟩ := writeRun_snoc hfs₂
  obtain rfl : fs₁ = fs₁' := Option.some.inj (hfs₁.symm.trans hfs₁')
  have hbefore := (h front fs₁ ((List.prefix_append _ _).trans hfront) hfs₁).1
  have hafter := (h _ fs₂ hfront hfs₂).1
  rw [← dzfsWrite_size_iff hw, hafter, highestByte_append, ← hbefore]
  split
  · rename_i hempty
    have hoff := (dzfsWrite_size hw).2.1
    have hzero : data.length = 0 := List.length_eq_zero_iff.mpr hempty
    omega
  · rfl

theorem AllAppend.sizeLaw (hempty : fileSize (fs.disk d) = 0) (h : AllAppend d fs writes) :
    SizeLaw d fs writes := by
  intro front fs' hfront hrun
  induction front using List.reverseRecOn generalizing fs' with
  | nil =>
    obtain rfl : fs = fs' := Option.some.inj hrun
    rw [hempty]
    exact ⟨rfl, Nat.zero_le _⟩
  | append_singleton front w ih =>
    obtain ⟨data, offset⟩ := w
    obtain ⟨fs₁, hfs₁, hw⟩ := writeRun_snoc hrun
    obtain ⟨hsize, hlimit⟩ := ih fs₁ ((List.prefix_append _ _).trans hfront) hfs₁
    have hcond := h front data offset fs₁ hfront hfs₁
    have hnew := (dzfsWrite_size_iff hw).mpr hcond
    obtain ⟨-, hoff, hmax⟩ := dzfsWrite_size hw
    rcases hcond with rfl | ⟨rfl, hwrap⟩
    · rw [List.length_nil, Nat.add_zero, Nat.max_eq_left hoff] at hnew
      rw [hnew, highestByte_append, if_pos rfl]
      exact ⟨hsize, hlimit⟩
    · have hend : data.length + fileSize (fs₁.disk d) ≤ DZFS_MAX_FILESIZE := by
        rwa [Nat.mod_eq_of_lt hwrap] at hmax
      rw [hnew, highestByte_append]
      refine ⟨?_, by omega⟩
      split
      · rename_i hnil
        have hzero : data.length = 0 := List.length_eq_zero_iff.mpr hnil
        omega
      · rw [← hsize]

end

/-- The law of file sizes. One write that succeeds leaves the larger of the old size and the
end of its data if and only if it appends or has no data. In a sequence of writes that
succeed, from an empty file on, the size is one past the highest byte after each write, and
within the limit, if and only if each of them appends or has no data. -/
theorem fileSize_law_iff (fs fs' : Dzfs) (d : Nat) :
    (∀ (offset : Nat) (data : List UInt8), dzfsWrite fs d data offset = (.OK, fs') →
      (fileSize (fs'.disk d) = max (fileSize (fs.disk d)) (offset + data.length) ↔
        Appends (fileSize (fs.disk d)) data offset)) ∧
    ∀ writes : List (List UInt8 × Nat), fileSize (fs.disk d) = 0 →
      writeRun d fs writes = some fs' → (SizeLaw d fs writes ↔ AllAppend d fs writes) := by
  constructor
  · intro offset data hw
    exact dzfsWrite_size_iff hw
  · intro writes hempty hrun
    exact ⟨fun h => h.allAppend hrun, fun h => h.sizeLaw hempty⟩

theorem fileSize_law_iff_append :
    fileSize ((dzfsWrite oneFileState.fs 4 [65] 0).2.disk 4) = max 0 (0 + 1) :=
  ((fileSize_law_iff oneFileState.fs _ 4).1 0 [65] (Prod.ext (by decide +kernel) rfl)).mpr
    (Or.inr (by decide +kernel))

/-- Two writes of one byte at the offset 0 leave a file of size 2, in a state that valid calls
lead to. -/
theorem overwrite_grows_file :
    ∃ fs s fs', dzfsNew (fun _ => Bytes.zero) 32768 0 = (.OK, fs) ∧
      Reachable Valid (newState fs) s ∧ entityType (s.fs.disk 4) = DZFS_ENTITY_FILE ∧
      fileSize (s.fs.disk 4) = 1 ∧ dzfsWrite s.fs 4 [66] 0 = (.OK, fs') ∧
      fileSize (fs'.disk 4) ≠ max (fileSize (s.fs.disk 4)) (0 + 1) := by
  refine ⟨formattedDisk, exec oneFileState (.write 4 [65] 0), _,
    Prod.ext (by decide +kernel) rfl, .call _ (.call _ .start ?_) ?_, by decide +kernel,
    by decide +kernel, Prod.ext (by decide +kernel) rfl, by decide +kernel⟩
  · decide +kernel
  · decide +kernel

end DzOS.Proofs.Fs
