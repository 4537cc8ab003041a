import Mathlib.Tactic

/-!
# `DzOS.Drivers.Rtc`: the clock of `drv_rtc.c`

The driver keeps the frequency of the time stamp counter and the readings of the real-time
clock and of the counter at its start. `rtcIoctl` answers the commands 0 and 1 from them. The
reading of the counter that the source takes with `rdtsc` is an argument. Command 2, a delay
loop on floating-point numbers, is not modelled.

`readRtcTime` reads the date and the time of day from the CMOS. Its bytes change while it is
read, so `Cmos` has them for each moment, and each read of a register takes one moment. The two
loops wait for the chip, and `fuel` bounds their turns: `none` stands for a wait that is not over.

All arithmetic is that of `uint64_t`.
-/

set_option autoImplicit false

namespace DzOS.Drivers

/-- `RTC_PRECISION`: the clock counts microseconds. -/
def RTC_PRECISION : UInt64 := 1000000

/-- The limits that `rtc_init` accepts for the calibrated frequency. -/
def MIN_TSC_FREQUENCY : UInt64 := 500000000

/-- The upper limit of the frequency. -/
def MAX_TSC_FREQUENCY : UInt64 := 10000000000

/-- `rtc_device_data_t`. -/
structure RtcDeviceData where
  tscFrequency : UInt64
  initialRtc : UInt64
  initialTsc : UInt64

/-- `rtc_ioctl` for the commands that answer with a number: the number it stores at the
argument, or `none` for the result -1. `tsc` is the reading of the counter. -/
def rtcIoctl (data : Option RtcDeviceData) (cmd : UInt32) (tsc : UInt64) : Option UInt64 :=
  match data with
  | none => none
  | some data =>
    if cmd = 0 then
      let tscDiff := tsc - data.initialTsc
      let usElapsed := tscDiff * RTC_PRECISION / data.tscFrequency
      some (data.initialRtc + usElapsed)
    else if cmd = 1 then some data.tscFrequency
    else none

/-- `rtc_now`: 0 without a device. -/
def rtcNow (data : Option RtcDeviceData) (tsc : UInt64) : UInt64 :=
  (rtcIoctl data 0 tsc).getD 0

/-! ### The time of day, `read_rtc_time` -/

/-- `enum rtc_registers`. -/
inductive RtcRegister where
  | Seconds
  | Minutes
  | Hours
  | DayOfMonth
  | Month
  | Year
  | StatusRegisterA
  | StatusRegisterB
  deriving DecidableEq, Repr

/-- The number of a register in the CMOS. -/
def RtcRegister.number : RtcRegister → UInt8
  | .Seconds => 0x00
  | .Minutes => 0x02
  | .Hours => 0x04
  | .DayOfMonth => 0x07
  | .Month => 0x08
  | .Year => 0x09
  | .StatusRegisterA => 0x0A
  | .StatusRegisterB => 0x0B

/-- The bytes of the CMOS at each moment. -/
abbrev Cmos := Nat → UInt8 → UInt8

/-- `read_rtc_register`. -/
def readRtcRegister (cmos : Cmos) (now : Nat) (portNumber : RtcRegister) : UInt8 :=
  cmos now portNumber.number

/-- `is_rtc_updating`. -/
def isRtcUpdating (cmos : Cmos) (now : Nat) : Bool :=
  readRtcRegister cmos now .StatusRegisterA &&& 0x80 ≠ 0

/-- The loop `while (is_rtc_updating())`: the moment after it. -/
def waitUpdating (cmos : Cmos) : Nat → Nat → Option Nat
  | 0, _ => none
  | fuel + 1, now =>
    if isRtcUpdating cmos now then waitUpdating cmos fuel (now + 1) else some (now + 1)

/-- The six bytes that `read_rtc_time` reads. -/
structure RtcTime where
  seconds : UInt8
  minutes : UInt8
  hours : UInt8
  year : UInt8
  dayofmonth : UInt8
  month : UInt8
  deriving DecidableEq, Repr

/-- The six reads, in their order. -/
def readRtcRegisters (cmos : Cmos) (now : Nat) : RtcTime where
  seconds := readRtcRegister cmos now .Seconds
  minutes := readRtcRegister cmos (now + 1) .Minutes
  hours := readRtcRegister cmos (now + 2) .Hours
  year := readRtcRegister cmos (now + 3) .Year
  dayofmonth := readRtcRegister cmos (now + 4) .DayOfMonth
  month := readRtcRegister cmos (now + 5) .Month

/-- The loop that reads until two readings agree. -/
def rereadRtc (cmos : Cmos) : Nat → RtcTime → Nat → Option RtcTime
  | 0, _, _ => none
  | fuel + 1, last, now =>
    match waitUpdating cmos fuel now with
    | none => none
    | some now =>
      let time := readRtcRegisters cmos now
      if last ≠ time then rereadRtc cmos fuel time (now + 6) else some time

/-- `convert_bcd_to_binary`, whose results are stored in bytes. -/
def convertBcdToBinary (value : UInt8) : UInt8 :=
  value / 16 * 10 + (value &&& 0x0f)

/-- The bytes after the conversion. -/
def RtcTime.convert (time : RtcTime) (isBinary : Bool) : RtcTime :=
  if !isBinary then
    { hours := convertBcdToBinary time.hours
      seconds := convertBcdToBinary time.seconds
      minutes := convertBcdToBinary time.minutes
      year := convertBcdToBinary time.year
      month := convertBcdToBinary time.month
      dayofmonth := convertBcdToBinary time.dayofmonth }
  else time

/-- `daysPerMonth`. -/
def daysPerMonth : List UInt64 := [31, 28, 31, 30, 31, 30, 31, 31, 30, 31, 30, 31]

/-- `leapYears`. -/
def leapYears (yearsSinceEpoch : UInt64) : UInt64 :=
  let leapYears := yearsSinceEpoch / 4
  if yearsSinceEpoch % 4 > 1 then leapYears + 1 else leapYears

/-- `daysCurrentYear`. The months after the twelfth are not in the table. -/
def daysCurrentYear (month dayofmonth : UInt8) : UInt64 :=
  (daysPerMonth.take (month.toNat - 1)).foldl (· + ·) 0 + dayofmonth.toUInt64

/-- The end of `read_rtc_time`: the seconds that it computes from the bytes. -/
def RtcTime.unixTime (time : RtcTime) : UInt64 :=
  let yearsSinceEpoch := 2000 + time.year.toUInt64 - 1970
  let daysSinceEpoch := yearsSinceEpoch * 365 - 1
  let unixTimeOfDay := time.hours.toUInt64 * 3600 + time.minutes.toUInt64 * 60
    + time.seconds.toUInt64
  daysSinceEpoch * 86400 + leapYears yearsSinceEpoch * 86400
    + daysCurrentYear time.month time.dayofmonth * 86400 + unixTimeOfDay

/-- `read_rtc_time`. -/
def readRtcTime (cmos : Cmos) (fuel now : Nat) : Option UInt64 :=
  match waitUpdating cmos fuel now with
  | none => none
  | some now =>
    let isBinary := readRtcRegister cmos now .StatusRegisterB &&& 0x04 ≠ 0
    let time := readRtcRegisters cmos (now + 1)
    match rereadRtc cmos fuel time (now + 7) with
    | none => none
    | some time => some (time.convert isBinary).unixTime

end DzOS.Drivers
