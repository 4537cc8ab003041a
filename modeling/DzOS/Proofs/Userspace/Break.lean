import DzOS.Userspace.Proc
import DzOS.Proofs.Mem.Sbrk

/-!
# `DzOS.Proofs.Userspace.Break`: when `sbrk` respects the data segment

`proc_sbrk` should move the break by the amount, and stop at `initial_data_segment` on the way
down. Its test for that is the wrong way round. `nextBreak` is where the break goes:

- a shrink that stays above the data segment goes down to its end;
- a shrink that goes below the data segment is carried out.

`KeepsSegment` is the condition under which the two agree, and `procSbrk_target_iff` says that
there is no other. `sbrk_respects_segment` adds the runs: as long as each call meets the
condition, the break does not fall below the data segment and no page below it is unmapped.
-/

set_option autoImplicit false

namespace DzOS.Proofs.Userspace

open DzOS.Mem DzOS.Userspace DzOS.Proofs.Mem

variable {new root delta old : UInt64} {s' s : MemState} {p : DataSegment} {howMuch : Int64}
  {r : SbrkResult} {unmapped : List (UInt64 × UInt64)}

/-! ### The two `sbrk` functions -/

/-- `vmm_user_sbrk_allocate` returns the sum. -/
theorem vmmUserSbrkAllocate_brk (h : vmmUserSbrkAllocate s root old delta = .ok (new, s')) :
    new = old + delta := by
  rw [vmmUserSbrkAllocate] at h
  split at h
  · cases h
  · cases h
    rfl

/-- The pages that the loop of `vmm_user_sbrk_deallocate` unmaps start above the new break. -/
theorem sbrkDeallocateFrom_above (fuel : Nat) {cur : UInt64}
    (h : sbrkDeallocateFrom root new fuel cur s = .ok (s', unmapped)) :
    ∀ r ∈ unmapped, new < r.1 := by
  induction fuel generalizing cur s s' unmapped with
  | zero =>
    cases h
    intro r hr
    cases hr
  | succ fuel ih =>
    rw [sbrkDeallocateFrom] at h
    split at h
    · rename_i hcur
      split at h
      · cases h
      · cases h
      · dsimp only at h
        split at h
        · cases h
        · split at h
          · cases h
          · rename_i hrest
            cases h
            intro r hr
            cases hr with
            | head => exact hcur
            | tail _ hr => exact ih hrest r hr
    · cases h
      intro r hr
      cases hr

/-- `vmm_user_sbrk_deallocate` returns the difference. -/
theorem vmmUserSbrkDeallocate_brk
    (h : vmmUserSbrkDeallocate s root old delta = .ok (new, s', unmapped)) :
    new = old - delta ∧ ∀ r ∈ unmapped, new < r.1 := by
  rw [vmmUserSbrkDeallocate] at h
  split at h
  · cases h
  · rename_i hloop
    cases h
    exact ⟨rfl, sbrkDeallocateFrom_above _ hloop⟩

/-! ### One call -/

/-- Where `proc_sbrk` moves the break. -/
def nextBreak (p : DataSegment) (howMuch : Int64) : UInt64 :=
  if howMuch < 0 ∧ p.initialDataSegment ≤ p.currentSbrk + howMuch.toUInt64 then
    p.initialDataSegment
  else p.currentSbrk + howMuch.toUInt64

/-- Negation wraps, also at the least value. -/
theorem toUInt64_neg (a : Int64) : (-a).toUInt64 = -a.toUInt64 := rfl

/-- What a call that returns does. -/
theorem procSbrk_spec (h : procSbrk s p howMuch = .ok r) :
    r.before = p.currentSbrk ∧ r.proc = { p with currentSbrk := nextBreak p howMuch } ∧
      ∀ page ∈ r.unmapped, howMuch < 0 ∧ nextBreak p howMuch < page.1 := by
  simp only [procSbrk] at h
  split at h
  · rename_i hpos
    have hneg : ¬ howMuch < 0 := Int64.not_lt.mpr (Int64.le_of_lt hpos)
    split at h
    · cases h
    · rename_i halloc
      cases h
      rw [vmmUserSbrkAllocate_brk halloc, nextBreak, if_neg (fun hc => hneg hc.1)]
      exact ⟨rfl, rfl, fun page hpage => by cases hpage⟩
  · split at h
    · rename_i hneg
      split at h
      · cases h
      · rename_i hdealloc
        cases h
        obtain ⟨hnew, habove⟩ := vmmUserSbrkDeallocate_brk hdealloc
        have hnext : p.currentSbrk - (-(if p.initialDataSegment ≤
            p.currentSbrk + howMuch.toUInt64 then
              (p.initialDataSegment - p.currentSbrk).toInt64 else howMuch)).toUInt64 =
            nextBreak p howMuch := by
          rw [nextBreak, toUInt64_neg]
          by_cases hle : p.initialDataSegment ≤ p.currentSbrk + howMuch.toUInt64
          · rw [if_pos hle, if_pos ⟨hneg, hle⟩, UInt64.toUInt64_toInt64]
            grind
          · rw [if_neg hle, if_neg (fun hc => hle hc.2)]
            grind
        rw [hnew, hnext]
        rw [hnew, hnext] at habove
        exact ⟨rfl, rfl, fun page hpage => ⟨hneg, habove page hpage⟩⟩
    · rename_i hpos hneg
      cases h
      have hzero : howMuch = 0 := by
        apply Int64.toInt.inj
        rw [gt_iff_lt, Int64.lt_iff_toInt_lt] at hpos
        rw [Int64.lt_iff_toInt_lt] at hneg
        omega
      rw [nextBreak, if_neg (fun hc => hneg hc.1), hzero]
      refine ⟨rfl, ?_, fun page hpage => by cases hpage⟩
      show p = { p with currentSbrk := p.currentSbrk + 0 }
      rw [UInt64.add_zero]

/-! ### The data segment -/

/-- The break that the call asks for: the old one and the amount, but not below the data
segment. -/
def wantedBreak (p : DataSegment) (howMuch : Int64) : Int :=
  max (p.currentSbrk.toNat + howMuch.toInt) p.initialDataSegment.toNat

/-- A call that moves the break where it should: it grows the heap below 2⁶⁴, it shrinks the
heap to exactly the end of the data segment, or it asks for more than the whole address space
below the break and the sum that wraps around is not below the data segment. -/
def KeepsSegment (p : DataSegment) (howMuch : Int64) : Prop :=
  if 0 ≤ howMuch.toInt then p.currentSbrk.toNat + howMuch.toInt < 2 ^ 64
  else if 0 ≤ p.currentSbrk.toNat + howMuch.toInt then
    p.currentSbrk.toNat + howMuch.toInt = p.initialDataSegment.toNat
  else p.initialDataSegment.toNat ≤ p.currentSbrk.toNat + howMuch.toInt + 2 ^ 64

/-- An amount as an unsigned number. -/
theorem toNat_toUInt64 (a : Int64) :
    (a.toUInt64.toNat : Int) = if 0 ≤ a.toInt then a.toInt else a.toInt + 2 ^ 64 := by
  have h : a.toInt = (a.toUInt64.toNat : Int).bmod (2 ^ 64) := by
    rw [← Int64.toInt_toBitVec, BitVec.toInt_eq_toNat_bmod, Int64.toNat_toBitVec]
  have hlt := a.toUInt64.toNat_lt
  rw [h, Int.bmod_def]
  split <;> omega

/-- The break goes where it should exactly when the call meets the condition. -/
theorem nextBreak_eq_wantedBreak_iff (hseg : p.initialDataSegment ≤ p.currentSbrk)
    (howMuch : Int64) :
    ((nextBreak p howMuch).toNat : Int) = wantedBreak p howMuch ↔ KeepsSegment p howMuch := by
  rw [UInt64.le_iff_toNat_le] at hseg
  have hcur := p.currentSbrk.toNat_lt
  have hinit := p.initialDataSegment.toNat_lt
  have hlo := howMuch.minValue_le_toInt
  have hhi := howMuch.toInt_lt
  rw [show Int64.minValue.toInt = -2 ^ 63 from rfl] at hlo
  have hamount := toNat_toUInt64 howMuch
  have hsum := UInt64.toNat_add p.currentSbrk howMuch.toUInt64
  have hsign : howMuch < 0 ↔ howMuch.toInt < 0 := by
    rw [Int64.lt_iff_toInt_lt]
    rfl
  simp only [nextBreak, wantedBreak, KeepsSegment, hsign, UInt64.le_iff_toNat_le]
  split at hamount
  · rename_i hpos
    rw [if_neg (by omega), if_pos hpos]
    omega
  · rename_i hneg
    rw [if_neg hneg]
    split
    · split <;> omega
    · split <;> omega

/-- A call that returns moves the break where it should exactly when it meets the condition. -/
theorem procSbrk_target_iff (hseg : p.initialDataSegment ≤ p.currentSbrk)
    (h : procSbrk s p howMuch = .ok r) :
    (r.before = p.currentSbrk ∧ (r.proc.currentSbrk.toNat : Int) = wantedBreak p howMuch) ↔
      KeepsSegment p howMuch := by
  obtain ⟨hbefore, hproc, -⟩ := procSbrk_spec h
  rw [hproc, hbefore, ← nextBreak_eq_wantedBreak_iff hseg]
  exact and_iff_right rfl

/-! ### Runs of calls -/

/-- A run of calls that all return and that `ok` admits, from `p₀` on. The memory may change in
any way between two calls. The list holds the pages that were unmapped, each with its entry. -/
inductive SbrkRun (ok : DataSegment → Int64 → Prop) (p₀ : DataSegment) :
    DataSegment → List (UInt64 × UInt64) → Prop
  | start : SbrkRun ok p₀ p₀ []
  | call {p : DataSegment} {unmapped : List (UInt64 × UInt64)} {s : MemState} {howMuch : Int64}
      {r : SbrkResult} (hrun : SbrkRun ok p₀ p unmapped) (hok : ok p howMuch)
      (hcall : procSbrk s p howMuch = .ok r) : SbrkRun ok p₀ r.proc (unmapped ++ r.unmapped)

/-- The break stays at or above the data segment, and no page that starts below the end of the
data segment was unmapped. -/
structure SegmentKept (p₀ p : DataSegment) (unmapped : List (UInt64 × UInt64)) : Prop where
  initial : p.initialDataSegment = p₀.initialDataSegment
  above : p₀.initialDataSegment ≤ p.currentSbrk
  image : ∀ page ∈ unmapped, p₀.initialDataSegment ≤ page.1

/-- One more call that meets the condition keeps the data segment. -/
theorem SegmentKept.call {p₀ : DataSegment} (h : SegmentKept p₀ p unmapped)
    (hkeeps : KeepsSegment p howMuch) (hcall : procSbrk s p howMuch = .ok r) :
    SegmentKept p₀ r.proc (unmapped ++ r.unmapped) := by
  obtain ⟨-, hproc, hpages⟩ := procSbrk_spec hcall
  have hseg : p.initialDataSegment ≤ p.currentSbrk := h.initial ▸ h.above
  have hnext : p₀.initialDataSegment ≤ nextBreak p howMuch := by
    have hwanted := (nextBreak_eq_wantedBreak_iff hseg howMuch).mpr hkeeps
    have hmax := le_max_right ((p.currentSbrk.toNat : Int) + howMuch.toInt)
      p.initialDataSegment.toNat
    rw [← h.initial, UInt64.le_iff_toNat_le]
    rw [← wantedBreak, ← hwanted] at hmax
    omega
  constructor
  · rw [hproc]
    exact h.initial
  · rw [hproc]
    exact hnext
  · intro page hpage
    rcases List.mem_append.mp hpage with hold | hnew
    · exact h.image page hold
    · exact UInt64.le_trans hnext (UInt64.le_of_lt (hpages page hnew).2)

/-- `sbrk` and the data segment, for a process whose break is not below its data segment.

- A call that returns gives the old break and moves the break to the sum, or to the end of the
  data segment when the sum is below it, if and only if the call meets `KeepsSegment`.
- In every run whose calls meet `KeepsSegment` the break does not fall below the data segment
  and no page of the program image is unmapped. -/
theorem sbrk_respects_segment (p₀ : DataSegment)
    (hseg : p₀.initialDataSegment ≤ p₀.currentSbrk) :
    (∀ (s : MemState) (howMuch : Int64) (r : SbrkResult), procSbrk s p₀ howMuch = .ok r →
      ((r.before = p₀.currentSbrk ∧ (r.proc.currentSbrk.toNat : Int) = wantedBreak p₀ howMuch) ↔
        KeepsSegment p₀ howMuch)) ∧
    (∀ (p : DataSegment) (unmapped : List (UInt64 × UInt64)),
      SbrkRun KeepsSegment p₀ p unmapped → SegmentKept p₀ p unmapped) := by
  constructor
  · intro s howMuch r hcall
    exact procSbrk_target_iff hseg hcall
  · intro p unmapped hrun
    induction hrun with
    | start => exact ⟨rfl, hseg, fun page hpage => by cases hpage⟩
    | call _ hkeeps hcall ih => exact ih.call hkeeps hcall

/-- A program of one page whose heap has half a page. -/
def halfPageHeap : DataSegment where
  pagetable := 0x1000
  initialDataSegment := 0x401000
  currentSbrk := 0x401800

/-- Giving back half of the heap gives back all of it. -/
theorem procSbrk_shrinks_too_far :
    ¬ ∀ (s : MemState) (p : DataSegment) (howMuch : Int64) (r : SbrkResult),
      p.initialDataSegment ≤ p.currentSbrk → procSbrk s p howMuch = .ok r →
      r.before = p.currentSbrk ∧ (r.proc.currentSbrk.toNat : Int) = wantedBreak p howMuch := by
  intro h
  have hcall : procSbrk smallMachine halfPageHeap (-0x400) =
      .ok ⟨0x401800, { halfPageHeap with currentSbrk := 0x401000 }, smallMachine, []⟩ := rfl
  have hbreak := (h smallMachine halfPageHeap (-0x400) _ (by decide) hcall).2
  exact absurd hbreak (by decide)

/-- The result at a run of one call that gives back the whole heap. -/
theorem sbrk_respects_segment_halfPageHeap :
    (halfPageHeap.initialDataSegment ≤ halfPageHeap.currentSbrk ∧
      procSbrk smallMachine halfPageHeap (-0x800) =
        .ok ⟨0x401800, { halfPageHeap with currentSbrk := 0x401000 }, smallMachine, []⟩ ∧
      KeepsSegment halfPageHeap (-0x800)) ∧
    SegmentKept halfPageHeap { halfPageHeap with currentSbrk := 0x401000 } [] := by
  have hseg : halfPageHeap.initialDataSegment ≤ halfPageHeap.currentSbrk := by decide
  have hcall : procSbrk smallMachine halfPageHeap (-0x800) =
      .ok ⟨0x401800, { halfPageHeap with currentSbrk := 0x401000 }, smallMachine, []⟩ := rfl
  have hkeeps := ((sbrk_respects_segment halfPageHeap hseg).1 smallMachine (-0x800) _ hcall).mp
    ⟨rfl, by decide⟩
  exact ⟨⟨hseg, hcall, hkeeps⟩,
    (sbrk_respects_segment halfPageHeap hseg).2 _ _ (.call .start hkeeps hcall)⟩

end DzOS.Proofs.Userspace
