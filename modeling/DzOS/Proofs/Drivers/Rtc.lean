import DzOS.Drivers.Rtc
import DzOS.Lib.Gregorian

/-!
# `DzOS.Proofs.Drivers.Rtc`: the clock against exact arithmetic and the calendar

`exactTime` is the time that the clock stands for: the start and the elapsed microseconds,
computed without a limit on the numbers. `rtcNow_eq` gives what the code computes. Its product
of the elapsed ticks and 1000000 is cut to 64 bits before the division.

`clock_law_iff` states when the clock is right. For readings whose exact time fits in 64 bits,
the clock agrees with the exact time and does not run backwards if and only if the product of
the later reading fits in 64 bits. At 2.5 GHz it stops to do so after about two hours.

The start of the clock is the time of day. `HoldsStably` says that the CMOS keeps the bytes of one
instant while it is read. Then the two loops of `read_rtc_time` end, and the result is a function of
these bytes (`readsTimestamp_of`).

`unixTime_bytes` compares the result with the calendar. The code counts a leap year from its
third year after 1970 on, so from the start of 1972, 1976 and so on, and its table of months has 28
days for each February. From March on the two make up for each other. In January and February of a
leap year the leap day is counted before it is there, and the clock is one day ahead.
`calendar_exact_iff` and `days_apart_iff` follow.
-/

set_option autoImplicit false

namespace DzOS.Proofs.Drivers

open DzOS.Drivers DzOS.Lib.Gregorian

variable {cmos : Cmos} {isBinary : Bool} {n : ℕ} {x y : ℤ} {t : Instant}

/-! ### The running clock -/

/-- The time at the reading `tsc`, in microseconds and in exact arithmetic. -/
def exactTime (data : RtcDeviceData) (tsc : UInt64) : Nat :=
  data.initialRtc.toNat
    + (tsc.toNat - data.initialTsc.toNat) * 1000000 / data.tscFrequency.toNat

/-- The elapsed ticks in microseconds times the frequency: the product that the code computes
in 64 bits. -/
def tickProduct (data : RtcDeviceData) (tsc : UInt64) : Nat :=
  (tsc.toNat - data.initialTsc.toNat) * 1000000

/-- The calibrated frequency is within the limits of `rtc_init`. -/
def Calibrated (data : RtcDeviceData) : Prop :=
  MIN_TSC_FREQUENCY ≤ data.tscFrequency ∧ data.tscFrequency ≤ MAX_TSC_FREQUENCY

instance (data : RtcDeviceData) : Decidable (Calibrated data) :=
  inferInstanceAs (Decidable (_ ∧ _))

/-- The clock at two readings is right: the later time is not before the earlier one, and both
are exact, as long as the exact times fit in 64 bits. -/
def ClockLaw (data : RtcDeviceData) (t₁ t₂ : UInt64) : Prop :=
  exactTime data t₂ < 2 ^ 64 →
    rtcNow (some data) t₁ ≤ rtcNow (some data) t₂ ∧
      (rtcNow (some data) t₁).toNat = exactTime data t₁ ∧
      (rtcNow (some data) t₂).toNat = exactTime data t₂

section
variable {data : RtcDeviceData} {t t₁ t₂ : UInt64}

theorem Calibrated.bounds (h : Calibrated data) :
    500000000 ≤ data.tscFrequency.toNat ∧ data.tscFrequency.toNat ≤ 10000000000 :=
  ⟨UInt64.le_iff_toNat_le.mp h.1, UInt64.le_iff_toNat_le.mp h.2⟩

/-- What the code computes. -/
theorem rtcNow_eq (ht : data.initialTsc ≤ t) :
    (rtcNow (some data) t).toNat
      = (data.initialRtc.toNat + tickProduct data t % 2 ^ 64 / data.tscFrequency.toNat)
        % 2 ^ 64 := by
  have hdiff : (t - data.initialTsc).toNat = t.toNat - data.initialTsc.toNat :=
    UInt64.toNat_sub_of_le _ _ ht
  have hprod : ((t - data.initialTsc) * RTC_PRECISION).toNat = tickProduct data t % 2 ^ 64 := by
    rw [UInt64.toNat_mul, hdiff]
    rfl
  change (data.initialRtc + (t - data.initialTsc) * RTC_PRECISION / data.tscFrequency).toNat = _
  rw [UInt64.toNat_add, UInt64.toNat_div, hprod]

theorem exactTime_mono (h : t₁ ≤ t₂) : exactTime data t₁ ≤ exactTime data t₂ := by
  have hle := UInt64.le_iff_toNat_le.mp h
  unfold exactTime
  gcongr

theorem tickProduct_mono (h : t₁ ≤ t₂) : tickProduct data t₁ ≤ tickProduct data t₂ := by
  have hle := UInt64.le_iff_toNat_le.mp h
  unfold tickProduct
  gcongr

/-- Without a wrap of the product the clock is exact. -/
theorem rtcNow_exact (ht : data.initialTsc ≤ t) (hfit : exactTime data t < 2 ^ 64)
    (hprod : tickProduct data t < 2 ^ 64) :
    (rtcNow (some data) t).toNat = exactTime data t := by
  rw [rtcNow_eq ht, Nat.mod_eq_of_lt hprod]
  exact Nat.mod_eq_of_lt hfit

/-- A product that wraps loses at least one microsecond. -/
theorem rtcNow_ne_exact (hf : Calibrated data) (ht : data.initialTsc ≤ t)
    (hfit : exactTime data t < 2 ^ 64) (hprod : 2 ^ 64 ≤ tickProduct data t) :
    (rtcNow (some data) t).toNat ≠ exactTime data t := by
  obtain ⟨hmin, hmax⟩ := hf.bounds
  have hexact : exactTime data t
      = data.initialRtc.toNat + tickProduct data t / data.tscFrequency.toNat := rfl
  -- The lost multiple of `2 ^ 64` is larger than the frequency.
  have hlost : tickProduct data t % 2 ^ 64 + data.tscFrequency.toNat ≤ tickProduct data t := by
    have hdiv := Nat.mod_add_div (tickProduct data t) (2 ^ 64)
    have hone : 1 ≤ tickProduct data t / 2 ^ 64 := (Nat.one_le_div_iff (by decide)).mpr hprod
    have hmul := Nat.mul_le_mul_left (2 ^ 64) hone
    omega
  have hless : tickProduct data t % 2 ^ 64 / data.tscFrequency.toNat + 1
      ≤ tickProduct data t / data.tscFrequency.toNat := by
    rw [← Nat.add_div_right _ (by omega)]
    exact Nat.div_le_div_right hlost
  rw [rtcNow_eq ht, Nat.mod_eq_of_lt (by omega)]
  omega

end

/-- The clock is right at two readings, in this order, if and only if the elapsed ticks at the
later one, times 1000000, fit in 64 bits (or the exact time does not). -/
theorem clock_law_iff (data : RtcDeviceData) (t₁ t₂ : UInt64) (hf : Calibrated data)
    (ht₁ : data.initialTsc ≤ t₁) (ht : t₁ ≤ t₂) :
    ClockLaw data t₁ t₂ ↔ (exactTime data t₂ < 2 ^ 64 → tickProduct data t₂ < 2 ^ 64) := by
  have ht₂ : data.initialTsc ≤ t₂ := UInt64.le_trans ht₁ ht
  constructor
  · intro h hfit
    by_contra hwrap
    exact rtcNow_ne_exact hf ht₂ hfit (not_lt.mp hwrap) (h hfit).2.2
  · intro h hfit
    have hprod := h hfit
    have h₁ := rtcNow_exact ht₁ (lt_of_le_of_lt (exactTime_mono ht) hfit)
      (lt_of_le_of_lt (tickProduct_mono ht) hprod)
    have h₂ := rtcNow_exact ht₂ hfit hprod
    refine ⟨?_, h₁, h₂⟩
    rw [UInt64.le_iff_toNat_le, h₁, h₂]
    exact exactTime_mono ht

/-- A counter of 1 GHz that starts at 0. -/
def oneGigahertz : RtcDeviceData := ⟨1000000000, 0, 0⟩

theorem clock_law_iff_oneSecond : ClockLaw oneGigahertz 0 1000000000 :=
  (clock_law_iff oneGigahertz 0 1000000000 (by decide) (by decide) (by decide)).mpr
    fun _ => by decide

/-- At 1 GHz the clock falls back to 0 after about five hours. -/
theorem clock_runs_backwards :
    Calibrated oneGigahertz ∧ oneGigahertz.initialTsc ≤ 18446744073709 ∧
      exactTime oneGigahertz 18446744073710 < 2 ^ 64 ∧
      rtcNow (some oneGigahertz) 18446744073710 < rtcNow (some oneGigahertz) 18446744073709 := by
  decide +kernel

/-! ### The time of day -/

/-- The byte of a number below 100, in binary or in BCD. -/
def encoded (isBinary : Bool) (n : ℕ) : UInt8 :=
  if isBinary then UInt8.ofNat n else UInt8.ofNat (n / 10 * 16 + n % 10)

/-- The six bytes of an instant. -/
def bytesOf (isBinary : Bool) (t : Instant) : RtcTime where
  seconds := encoded isBinary t.second
  minutes := encoded isBinary t.minute
  hours := encoded isBinary t.hour
  year := encoded isBinary (t.date.year % 100)
  dayofmonth := encoded isBinary t.date.day
  month := encoded isBinary t.date.month

/-- The CMOS holds an instant in 24-hour mode, at every moment. The bit of an update comes and
goes. -/
structure HoldsStably (cmos : Cmos) (isBinary : Bool) (t : Instant) : Prop where
  registers : ∀ now, readRtcRegisters cmos now = bytesOf isBinary t
  binary : ∀ now, (readRtcRegister cmos now .StatusRegisterB &&& 0x04 ≠ 0) ↔ isBinary = true
  hours24 : ∀ now, readRtcRegister cmos now .StatusRegisterB &&& 0x02 ≠ 0
  updated : ∀ now, ∃ later, now ≤ later ∧ isRtcUpdating cmos later = false

/-- From every moment on, `read_rtc_time` ends and returns the timestamp. -/
def ReadsTimestamp (cmos : Cmos) (time : ℤ) : Prop :=
  ∀ now, ∃ turns, ∀ fuel, turns ≤ fuel →
    ∃ value, readRtcTime cmos fuel now = some value ∧ (value.toNat : ℤ) = time

/-- The leap day of the year is still to come. -/
def BeforeLeapDay (d : Date) : Prop := d.year % 4 = 0 ∧ d.month ≤ 2

instance (d : Date) : Decidable (BeforeLeapDay d) := inferInstanceAs (Decidable (_ ∧ _))

section Loops

variable {cmos : Cmos} {isBinary : Bool} {t : Instant}

/-- The wait for the chip ends, at a moment that does not depend on the fuel. -/
theorem waitUpdating_ends (h : ∀ now, ∃ later, now ≤ later ∧ isRtcUpdating cmos later = false)
    (now : ℕ) : ∃ turns later, ∀ fuel, turns ≤ fuel → waitUpdating cmos fuel now = some later := by
  obtain ⟨idle, hle, hidle⟩ := h now
  -- By induction on the moments that are left of the update.
  induction hleft : idle - now generalizing now with
  | zero =>
    have hnow : now = idle := by omega
    refine ⟨1, now + 1, ?_⟩
    intro fuel hfuel
    obtain ⟨fuel, rfl⟩ := Nat.exists_eq_add_of_le' hfuel
    show (if isRtcUpdating cmos now then _ else _) = _
    rw [hnow, hidle]
    rfl
  | succ left ih =>
    obtain ⟨turns, later, hlater⟩ := ih (now + 1) (by omega) (by omega)
    by_cases hupdating : isRtcUpdating cmos now = true
    · refine ⟨turns + 1, later, ?_⟩
      intro fuel hfuel
      obtain ⟨fuel, rfl⟩ := Nat.exists_eq_add_of_le' (Nat.le_of_add_left_le hfuel)
      show (if isRtcUpdating cmos now then _ else _) = _
      rw [if_pos hupdating]
      exact hlater fuel (by omega)
    · refine ⟨1, now + 1, ?_⟩
      intro fuel hfuel
      obtain ⟨fuel, rfl⟩ := Nat.exists_eq_add_of_le' hfuel
      show (if isRtcUpdating cmos now then _ else _) = _
      rw [if_neg hupdating]

/-- The second reading agrees with the first, so the loop ends after it. -/
theorem rereadRtc_ends (h : HoldsStably cmos isBinary t) (now : ℕ) :
    ∃ turns, ∀ fuel, turns ≤ fuel →
      rereadRtc cmos fuel (bytesOf isBinary t) now = some (bytesOf isBinary t) := by
  obtain ⟨turns, later, hlater⟩ := waitUpdating_ends h.updated now
  refine ⟨turns + 1, ?_⟩
  intro fuel hfuel
  obtain ⟨fuel, rfl⟩ := Nat.exists_eq_add_of_le' (Nat.le_of_add_left_le hfuel)
  unfold rereadRtc
  rw [hlater fuel (by omega)]
  simp [h.registers]

/-- The result for bytes that do not change. -/
theorem readsTimestamp_of (h : HoldsStably cmos isBinary t) :
    ReadsTimestamp cmos ((bytesOf isBinary t).convert isBinary).unixTime.toNat := by
  intro now
  obtain ⟨turns, later, hlater⟩ := waitUpdating_ends h.updated now
  obtain ⟨turns', hreread⟩ := rereadRtc_ends h (later + 7)
  refine ⟨max turns turns', ?_⟩
  intro fuel hfuel
  have hmode : decide (readRtcRegister cmos later .StatusRegisterB &&& 0x04 ≠ 0) = isBinary := by
    rw [Bool.eq_iff_iff, decide_eq_true_iff]
    exact h.binary later
  refine ⟨_, ?_, rfl⟩
  unfold readRtcTime
  rw [hlater fuel (le_of_max_le_left hfuel)]
  simp only [h.registers, hreread fuel (le_of_max_le_right hfuel), hmode]

/-- The clock reads one timestamp. -/
theorem ReadsTimestamp.unique (hx : ReadsTimestamp cmos x) (hy : ReadsTimestamp cmos y) :
    x = y := by
  obtain ⟨turnsX, hx⟩ := hx 0
  obtain ⟨turnsY, hy⟩ := hy 0
  obtain ⟨v, hv, rfl⟩ := hx (max turnsX turnsY) (le_max_left _ _)
  obtain ⟨w, hw, rfl⟩ := hy (max turnsX turnsY) (le_max_right _ _)
  rw [hv] at hw
  rw [Option.some.inj hw]

end Loops

section Arithmetic

variable {isBinary : Bool} {t : Instant}

theorem convertBcdToBinary_encoded (h : n < 100) :
    convertBcdToBinary (encoded false n) = UInt8.ofNat n := by
  have hall : ∀ n < 100, convertBcdToBinary (encoded false n) = UInt8.ofNat n := by decide
  exact hall n h

theorem daysInMonth_le (year month : ℕ) : daysInMonth year month ≤ 31 := by
  unfold daysInMonth
  split_ifs <;> omega

/-- Both encodings lead to the numbers themselves. -/
theorem convert_bytesOf (isBinary : Bool) (t : Instant) :
    (bytesOf isBinary t).convert isBinary = bytesOf true t := by
  have hday : t.date.day < 100 := by
    have hle := daysInMonth_le t.date.year t.date.month
    have hmem := t.date.day_mem.2
    omega
  have hmonth := t.date.month_mem.2
  have hhour := t.hour_lt
  have hminute := t.minute_lt
  have hsecond := t.second_lt
  cases isBinary with
  | true => rfl
  | false =>
    unfold RtcTime.convert bytesOf
    simp only [Bool.not_false, if_true, RtcTime.mk.injEq]
    refine ⟨?_, ?_, ?_, ?_, ?_, ?_⟩ <;> exact convertBcdToBinary_encoded (by omega)

/-- The table of months has the months of a year that is no leap year. -/
theorem toNat_daysCurrentYear {month day : ℕ} (h1 : 1 ≤ month) (h12 : month ≤ 12)
    (hday : day ≤ 31) :
    (daysCurrentYear (UInt8.ofNat month) (UInt8.ofNat day)).toNat
      = daysBeforeMonth 1 month + day := by
  have htable : ∀ m ≤ 12, 1 ≤ m →
      ((daysPerMonth.take ((UInt8.ofNat m).toNat - 1)).foldl (· + ·) 0).toNat
        = daysBeforeMonth 1 m := by decide
  have hbound : ∀ m ≤ 12, 1 ≤ m → daysBeforeMonth 1 m ≤ 366 := by decide
  have hsum := htable month h12 h1
  have hle := hbound month h12 h1
  have hday : (UInt8.ofNat day).toUInt64.toNat = day := by
    rw [UInt8.toNat_toUInt64, UInt8.toNat_ofNat']
    omega
  unfold daysCurrentYear
  rw [UInt64.toNat_add, hsum, hday]
  omega

theorem toNat_leapYears (years : UInt64) (h : years.toNat ≤ 200) :
    (leapYears years).toNat = (years.toNat + 2) / 4 := by
  have hrem : (years % 4 > 1) ↔ 1 < years.toNat % 4 := by
    show (1 : UInt64) < years % 4 ↔ _
    rw [UInt64.lt_iff_toNat_lt, UInt64.toNat_mod]
    rfl
  unfold leapYears
  split
  · rename_i hpast
    rw [hrem] at hpast
    rw [UInt64.toNat_add, UInt64.toNat_div]
    show (years.toNat / 4 + 1) % 2 ^ 64 = _
    omega
  · rename_i hbefore
    rw [hrem] at hbefore
    rw [UInt64.toNat_div]
    show years.toNat / 4 = _
    omega

theorem toNat_byte (h : n < 256) : (UInt8.ofNat n).toUInt64.toNat = n := by
  rw [UInt8.toNat_toUInt64, UInt8.toNat_ofNat']
  omega

/-- What the code computes from the numbers. -/
theorem toNat_unixTime (hmin : 2000 ≤ t.date.year) (hmax : t.date.year ≤ 2099) :
    (bytesOf true t).unixTime.toNat
      = ((t.date.year - 1970) * 365 - 1) * 86400 + (t.date.year - 1968) / 4 * 86400
        + (daysBeforeMonth 1 t.date.month + t.date.day) * 86400
        + (t.hour * 3600 + t.minute * 60 + t.second) := by
  have hhour := t.hour_lt
  have hminute := t.minute_lt
  have hsecond := t.second_lt
  obtain ⟨h1, h12⟩ := t.date.month_mem
  have hday : t.date.day ≤ 31 := le_trans t.date.day_mem.2 (daysInMonth_le _ _)
  have hbefore : daysBeforeMonth 1 t.date.month ≤ 366 := by
    have hall : ∀ m ≤ 12, 1 ≤ m → daysBeforeMonth 1 m ≤ 366 := by decide
    exact hall _ h12 h1
  -- the years since 1970
  have hyears : (2000 + (bytesOf true t).year.toUInt64 - 1970).toNat = t.date.year - 1970 := by
    change (2000 + (UInt8.ofNat (t.date.year % 100)).toUInt64 - 1970).toNat = _
    rw [UInt64.toNat_sub, UInt64.toNat_add, toNat_byte (by omega)]
    simp only [UInt64.toNat_ofNat]
    omega
  show ((_ * 365 - 1) * 86400 + leapYears _ * 86400
    + daysCurrentYear (UInt8.ofNat t.date.month) (UInt8.ofNat t.date.day) * 86400
    + ((UInt8.ofNat t.hour).toUInt64 * 3600 + (UInt8.ofNat t.minute).toUInt64 * 60
      + (UInt8.ofNat t.second).toUInt64) : UInt64).toNat = _
  generalize 2000 + (bytesOf true t).year.toUInt64 - 1970 = years at hyears ⊢
  -- no term of the sum wraps
  have hdays : (years * 365 - 1).toNat = (t.date.year - 1970) * 365 - 1 := by
    rw [UInt64.toNat_sub, UInt64.toNat_mul, hyears]
    simp only [UInt64.toNat_ofNat]
    omega
  have hleap := toNat_leapYears years (by omega)
  have hcurrent := toNat_daysCurrentYear h1 h12 hday
  have hofDay : ((UInt8.ofNat t.hour).toUInt64 * 3600 + (UInt8.ofNat t.minute).toUInt64 * 60
      + (UInt8.ofNat t.second).toUInt64).toNat = t.hour * 3600 + t.minute * 60 + t.second := by
    rw [UInt64.toNat_add, UInt64.toNat_add, UInt64.toNat_mul, UInt64.toNat_mul,
      toNat_byte (by omega), toNat_byte (by omega), toNat_byte (by omega)]
    simp only [UInt64.toNat_ofNat]
    omega
  rw [hyears] at hleap
  rw [UInt64.toNat_add, UInt64.toNat_add, UInt64.toNat_add, UInt64.toNat_mul, UInt64.toNat_mul,
    UInt64.toNat_mul, hdays, hleap, hcurrent, hofDay]
  have hunit : UInt64.toNat 86400 = 86400 := rfl
  have hdaysLe : (t.date.year - 1970) * 365 - 1 ≤ 48000 := by omega
  have hleapLe : (t.date.year - 1970 + 2) / 4 ≤ 40 := by omega
  have hseconds : t.hour * 3600 + t.minute * 60 + t.second ≤ 86400 := by omega
  have hsame : (t.date.year - 1968) / 4 = (t.date.year - 1970 + 2) / 4 := by omega
  rw [hunit, hsame]
  simp (disch := omega) only [Nat.mod_eq_of_lt]

/-- The leap years since 1970 that the calendar has counted, and those that the code has. -/
theorem dayNumber_eq {d : Date} (hmin : 2000 ≤ d.year) (hmax : d.year ≤ 2099) :
    d.dayNumber + (if BeforeLeapDay d then 1 else 0)
      = epoch.dayNumber + ((d.year - 1970) * 365 - 1) + (d.year - 1968) / 4
        + (daysBeforeMonth 1 d.month + d.day) := by
  have hyears := daysBeforeYear_eq d.year
  have hmonths := daysBeforeMonth_eq d.year d.month_mem.1 d.month_mem.2
  have hepoch : epoch.dayNumber = 719528 := by
    have hyears := daysBeforeYear_eq 1970
    unfold Date.dayNumber epoch Date.newYear
    simp only [daysBeforeMonth_one]
    omega
  have hday := d.day_mem.1
  -- no century year of the range but 2000 is in question, and 2000 is a leap year
  have hleap : IsLeap d.year ↔ d.year % 4 = 0 := by
    unfold IsLeap
    omega
  rw [hepoch]
  unfold Date.dayNumber
  simp only [hleap] at hmonths
  by_cases hbefore : BeforeLeapDay d
  · have hearly : d.year % 4 = 0 ∧ d.month ≤ 2 := hbefore
    rw [if_neg (by omega)] at hmonths
    rw [if_pos hbefore]
    omega
  · have hlate : ¬ (d.year % 4 = 0 ∧ d.month ≤ 2) := hbefore
    rw [if_neg hbefore]
    by_cases hafter : d.year % 4 = 0 ∧ 2 < d.month
    · rw [if_pos hafter] at hmonths
      omega
    · rw [if_neg hafter] at hmonths
      omega

/-- The code is one day ahead before the leap day of a year, and else exact. -/
theorem unixTime_bytes (hmin : 2000 ≤ t.date.year) (hmax : t.date.year ≤ 2099) :
    ((bytesOf true t).unixTime.toNat : ℤ)
      = t.unixTime + if BeforeLeapDay t.date then 86400 else 0 := by
  have hnumber := dayNumber_eq hmin hmax
  rw [toNat_unixTime hmin hmax]
  unfold Instant.unixTime
  split_ifs at hnumber ⊢ <;> omega

end Arithmetic

/-- What the clock reads. -/
theorem readsTimestamp_eq (h : HoldsStably cmos isBinary t) (hmin : 2000 ≤ t.date.year)
    (hmax : t.date.year ≤ 2099) :
    ReadsTimestamp cmos (t.unixTime + if BeforeLeapDay t.date then 86400 else 0) := by
  rw [← unixTime_bytes hmin hmax, ← convert_bytesOf isBinary]
  exact readsTimestamp_of h

/-- The clock reads the Unix timestamp of an instant if and only if it does not lie in January or
February of a leap year. -/
theorem calendar_exact_iff {cmos : Cmos} {isBinary : Bool} {t : Instant}
    (h : HoldsStably cmos isBinary t) (hmin : 2000 ≤ t.date.year) (hmax : t.date.year ≤ 2099) :
    ReadsTimestamp cmos t.unixTime ↔ ¬ BeforeLeapDay t.date := by
  have hread := readsTimestamp_eq h hmin hmax
  constructor
  · intro hexact hbefore
    have heq := hexact.unique hread
    rw [if_pos hbefore] at heq
    omega
  · intro hafter
    rw [if_neg hafter, add_zero] at hread
    exact hread

/-- A CMOS that stands still. -/
def stillCmos (isBinary : Bool) (t : Instant) : Cmos := fun _ number =>
  let time := bytesOf isBinary t
  if number = 0x00 then time.seconds
  else if number = 0x02 then time.minutes
  else if number = 0x04 then time.hours
  else if number = 0x07 then time.dayofmonth
  else if number = 0x08 then time.month
  else if number = 0x09 then time.year
  else if number = 0x0B then if isBinary then 0x06 else 0x02
  else 0

theorem stillCmos_holds (isBinary : Bool) (t : Instant) :
    HoldsStably (stillCmos isBinary t) isBinary t where
  registers := fun _ => rfl
  binary := by
    intro now
    have hstatus : readRtcRegister (stillCmos isBinary t) now .StatusRegisterB
        = if isBinary then 0x06 else 0x02 := rfl
    rw [hstatus]
    cases isBinary <;> decide
  hours24 := by
    intro now
    have hstatus : readRtcRegister (stillCmos isBinary t) now .StatusRegisterB
        = if isBinary then 0x06 else 0x02 := rfl
    rw [hstatus]
    cases isBinary <;> decide
  updated := by
    intro now
    refine ⟨now, le_rfl, ?_⟩
    show decide ((0 : UInt8) &&& 0x80 ≠ 0) = false
    decide

/-- The start of the first day of March 2024. -/
def march2024 : Instant := Instant.midnight ⟨2024, 3, 1, by decide, by decide⟩

theorem calendar_exact_march2024 :
    ReadsTimestamp (stillCmos false march2024) march2024.unixTime :=
  (calendar_exact_iff (stillCmos_holds false march2024) (by decide) (by decide)).mpr (by decide)

/-- The start of the year 2024. -/
def newYear2024 : Instant := Instant.midnight (Date.newYear 2024)

/-- At the start of 2024, the clock reads the timestamp of the day after. -/
theorem newYear_reads_next_day :
    HoldsStably (stillCmos false newYear2024) false newYear2024 ∧
      ReadsTimestamp (stillCmos false newYear2024) newYear2024.tomorrow.unixTime ∧
      ¬ ReadsTimestamp (stillCmos false newYear2024) newYear2024.unixTime := by
  have hholds := stillCmos_holds false newYear2024
  have hread := readsTimestamp_eq hholds (by decide) (by decide)
  rw [if_pos (by decide)] at hread
  refine ⟨hholds, ?_, ?_⟩
  · rw [Instant.unixTime_tomorrow]
    exact hread
  · intro hexact
    have heq := hexact.unique hread
    omega

/-- The readings of two consecutive days, at the same time of day, lie 86400 seconds apart if and
only if both days lie before the leap day of their year or neither does. -/
theorem days_apart_iff {cmos' : Cmos} {isBinary' : Bool} (h : HoldsStably cmos isBinary t)
    (h' : HoldsStably cmos' isBinary' t.tomorrow) (hmin : 2000 ≤ t.date.year)
    (hmax : t.date.tomorrow.year ≤ 2099) (hx : ReadsTimestamp cmos x)
    (hy : ReadsTimestamp cmos' y) :
    y = x + 86400 ↔ (BeforeLeapDay t.date ↔ BeforeLeapDay t.date.tomorrow) := by
  have hle : t.date.year ≤ t.date.tomorrow.year := by
    unfold Date.tomorrow Date.newYear
    split_ifs <;> simp
  have hxeq := hx.unique (readsTimestamp_eq h hmin (by omega))
  have hyeq := hy.unique (readsTimestamp_eq h' (by show 2000 ≤ t.date.tomorrow.year; omega) hmax)
  rw [t.unixTime_tomorrow] at hyeq
  change y = _ + if BeforeLeapDay t.date.tomorrow then 86400 else 0 at hyeq
  split_ifs at hxeq hyeq <;> simp_all

end DzOS.Proofs.Drivers
