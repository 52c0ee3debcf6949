import MarketInfo.Lib.Check

/-! # Time

Go's `time.Time` as far as the program reads it: an instant and the offset its
location has there. Comparisons, truncation and Unix readings look at the
instant only; `Year` and `Second` look at the local clock.
-/

namespace MarketInfo

/-- A Go `time.Time`: nanoseconds of Unix time, and the seconds east of UTC of
its location at that instant. -/
structure Time where
  unixNano : Int
  offset : Int
deriving DecidableEq, Repr

namespace Time

/-! ## Durations, in nanoseconds -/

def second : Int := 1000000000
def millisecond : Int := 1000000
def microsecond : Int := 1000
def minute : Int := 60 * second

/-- Unix seconds of January 1, year 1, the zero `time.Time`. -/
def zeroUnix : Int := -62135596800

/-- `time.Time{}`. -/
def zero : Time := ⟨zeroUnix * second, 0⟩

instance : Inhabited Time := ⟨zero⟩

@[reducible] def IsZero (t : Time) : Prop := t.unixNano = zero.unixNano

/-- `t.Equal(u)`: the same instant, whatever the locations. -/
@[reducible] def Equal (t u : Time) : Prop := t.unixNano = u.unixNano

@[reducible] def Before (t u : Time) : Prop := t.unixNano < u.unixNano

@[reducible] def After (t u : Time) : Prop := u.unixNano < t.unixNano

def utc (t : Time) : Time := { t with offset := 0 }

def add (t : Time) (d : Int) : Time := { t with unixNano := t.unixNano + d }

/-- `t.Truncate(d)`, counted from the zero time. -/
def truncate (t : Time) (d : Int) : Time :=
  { t with unixNano := t.unixNano - (t.unixNano - zero.unixNano) % d }

/-- `t.Unix()`. -/
def unix (t : Time) : Int := t.unixNano / second

/-- `t.UnixMilli()`. -/
def unixMilli (t : Time) : Int := t.unixNano / millisecond

/-- `t.UnixMicro()`. -/
def unixMicro (t : Time) : Int := t.unixNano / microsecond

/-- `t.Nanosecond()`. -/
def nanosecond (t : Time) : Int := t.unixNano % second

/-- `t.Second()`, on the local clock. -/
def secondOf (t : Time) : Int := (t.unix + t.offset) % 60

/-- Unix seconds at which the local year becomes 10000. -/
def year10000 : Int := 253402300800

/-- `1970 <= t.Year() && t.Year() <= 9999`, on the local clock. -/
@[reducible] def YearInRange (t : Time) : Prop :=
  0 ≤ t.unix + t.offset ∧ t.unix + t.offset < year10000

@[simp] theorem utc_unixNano (t : Time) : t.utc.unixNano = t.unixNano := rfl
@[simp] theorem utc_offset (t : Time) : t.utc.offset = 0 := rfl
@[simp] theorem utc_unix (t : Time) : t.utc.unix = t.unix := by simp [unix]
@[simp] theorem utc_utc (t : Time) : t.utc.utc = t.utc := rfl
@[simp] theorem add_unixNano (t : Time) (d : Int) : (t.add d).unixNano = t.unixNano + d := rfl
@[simp] theorem add_offset (t : Time) (d : Int) : (t.add d).offset = t.offset := rfl
@[simp] theorem truncate_offset (t : Time) (d : Int) : (t.truncate d).offset = t.offset := rfl

/-- The zero time lies on a minute boundary of Unix time, so truncation to
minutes and to seconds can be read on Unix time. -/
theorem truncate_minute_unixNano (t : Time) :
    (t.truncate minute).unixNano = t.unixNano - t.unixNano % minute := by
  simp only [truncate, zero, zeroUnix, minute, second]
  omega

end Time

/-- `MinuteID`: the Unix minute in the high half, the instrument in the low. -/
def minuteID (instrumentID : UInt32) (t : Time) : Except String UInt64 := do
  Check.failIf (instrumentID = 0) "instrument_id must be greater than zero"
  let unixMinute := t.utc.unix.tdiv 60
  Check.failIf (unixMinute < 0 ∨ 2 ^ 32 - 1 < unixMinute) "UTC minute is outside minute_id range"
  return (UInt64.ofNat unixMinute.toNat <<< 32) ||| instrumentID.toUInt64

/-- What an accepted minute id says about its arguments. -/
theorem minuteID_eq_ok {instrumentID : UInt32} {t : Time} {id : UInt64} :
    minuteID instrumentID t = .ok id ↔
      instrumentID ≠ 0 ∧ 0 ≤ t.unix.tdiv 60 ∧ t.unix.tdiv 60 ≤ 2 ^ 32 - 1 ∧
        id = (UInt64.ofNat (t.unix.tdiv 60).toNat <<< 32) ||| instrumentID.toUInt64 := by
  simp only [minuteID, Check.seq_eq_ok, Check.failIf_eq_ok, Time.utc_unix, pure, Except.pure,
    Except.ok.injEq, not_or, not_lt, and_assoc]
  constructor
  · rintro ⟨hid, hlo, hhi, rfl⟩
    exact ⟨hid, hlo, hhi, rfl⟩
  · rintro ⟨hid, hlo, hhi, rfl⟩
    exact ⟨hid, hlo, hhi, rfl⟩

end MarketInfo
