/-!
# Dates and times of day

A date of the proleptic Gregorian calendar in the years 1 to 9999, and a date with a time of day
and possibly a distance from universal time. Two times with a distance are equal when they name
the same instant; a time without one equals no time that has one.
-/

namespace LayeredConfig

/-- The number `n` in at least `width` decimal digits. -/
def zeroPadded (width n : Nat) : String :=
  let digits := Nat.toDigits 10 n
  String.ofList (List.replicate (width - digits.length) '0' ++ digits)

/-- A calendar date. -/
structure Date where
  year : Nat
  month : Nat
  day : Nat
deriving DecidableEq, Repr, Inhabited

namespace Date

/-- Whether the year has a leap day. -/
def isLeap (year : Nat) : Bool := year % 4 = 0 && (year % 100 ≠ 0 || year % 400 = 0)

/-- The number of days of a month. -/
def daysInMonth (year month : Nat) : Nat :=
  if month = 2 then if isLeap year then 29 else 28
  else if month = 4 ∨ month = 6 ∨ month = 9 ∨ month = 11 then 30
  else 31

/-- The date, if there is one. -/
def of? (year month day : Nat) : Option Date :=
  if 1 ≤ year ∧ year ≤ 9999 ∧ 1 ≤ month ∧ month ≤ 12 ∧ 1 ≤ day ∧ day ≤ daysInMonth year month then
    some ⟨year, month, day⟩
  else none

/-- The days before the month in its year. -/
def daysBefore (year month : Nat) : Nat :=
  (List.range (month - 1)).foldl (fun days m ↦ days + daysInMonth year (m + 1)) 0

/-- The number of the day, the first day of year 1 being day 1. -/
def ordinal (d : Date) : Nat :=
  let y := d.year - 1
  y * 365 + y / 4 - y / 100 + y / 400 + daysBefore d.year d.month + d.day

/-- The date with the given number; see `ordinal`. -/
def ofOrdinal (n : Nat) : Date :=
  let n := n - 1
  let cycles := n / 146097
  let n := n % 146097
  let centuries := min 3 (n / 36524)
  let n := n - centuries * 36524
  let leaps := n / 1461
  let n := n % 1461
  let years := min 3 (n / 365)
  let n := n - years * 365
  let year := cycles * 400 + centuries * 100 + leaps * 4 + years + 1
  let month := ((List.range 12).filter fun m ↦ daysBefore year (m + 1) ≤ n).length
  ⟨year, month, n - daysBefore year month + 1⟩

/-- The date as `year-month-day`. -/
def isoText (d : Date) : String :=
  zeroPadded 4 d.year ++ "-" ++ zeroPadded 2 d.month ++ "-" ++ zeroPadded 2 d.day

/-- The date as the expression that builds it. -/
def quoted (d : Date) : String :=
  "datetime.date(" ++ toString d.year ++ ", " ++ toString d.month ++ ", " ++ toString d.day ++ ")"

end Date

/-- A date and a time of day, with the distance from universal time in seconds if it is known. -/
structure DateTime where
  date : Date
  hour : Nat
  minute : Nat
  second : Nat
  microsecond : Nat
  offset : Option Int
deriving DecidableEq, Repr, Inhabited

namespace DateTime

/-- The time, if the fields are in range; a distance lies strictly between minus and plus one
day. -/
def of? (date : Date) (hour minute second microsecond : Nat) (offset : Option Int) :
    Option DateTime :=
  if hour < 24 ∧ minute < 60 ∧ second < 60 ∧ microsecond < 1000000 ∧
      (offset.all fun s ↦ s.natAbs < 86400) then
    some ⟨date, hour, minute, second, microsecond, offset⟩
  else none

/-- The microseconds of the instant, a missing distance counting as none. -/
def instant (t : DateTime) : Int :=
  let seconds : Int := t.date.ordinal * 86400 + t.hour * 3600 + t.minute * 60 + t.second
  (seconds - t.offset.getD 0) * 1000000 + t.microsecond

/-- Equality of times: of instants when both distances are known, of clock readings when neither
is. -/
def equal (a b : DateTime) : Bool := a.offset.isSome == b.offset.isSome && a.instant == b.instant

/-- The same instant, as universal time. A time without a distance stays as it is. -/
def toUniversal (t : DateTime) : DateTime :=
  match t.offset with
  | none => t
  | some _ =>
    let seconds := (t.instant / 1000000).toNat
    let clock := seconds % 86400
    { date := .ofOrdinal (seconds / 86400)
      hour := clock / 3600
      minute := clock / 60 % 60
      second := clock % 60
      microsecond := t.microsecond
      offset := some 0 }

private def offsetText (seconds : Int) : String :=
  let s := seconds.natAbs
  let text := (if seconds < 0 then "-" else "+") ++ zeroPadded 2 (s / 3600) ++ ":" ++
    zeroPadded 2 (s / 60 % 60)
  if s % 60 = 0 then text else text ++ ":" ++ zeroPadded 2 (s % 60)

/-- The time in the ISO layout, with the given separator behind the date. -/
def isoText (t : DateTime) (separator : String) : String :=
  let clock := zeroPadded 2 t.hour ++ ":" ++ zeroPadded 2 t.minute ++ ":" ++ zeroPadded 2 t.second
  let fraction := if t.microsecond = 0 then "" else "." ++ zeroPadded 6 t.microsecond
  t.date.isoText ++ separator ++ clock ++ fraction ++ (t.offset.map offsetText).getD ""

private def offsetQuoted (seconds : Int) : String :=
  if seconds = 0 then "datetime.timezone.utc" else
    let days := seconds.fdiv 86400
    let rest := seconds.fmod 86400
    let fields := (if days = 0 then [] else ["days=" ++ toString days]) ++
      (if rest = 0 then [] else ["seconds=" ++ toString rest])
    "datetime.timezone(datetime.timedelta(" ++ ", ".intercalate fields ++ "))"

/-- The time as the expression that builds it; trailing zero seconds and fractions are left
out. -/
def quoted (t : DateTime) : String :=
  let fields := [t.date.year, t.date.month, t.date.day, t.hour, t.minute] ++
    (if t.microsecond ≠ 0 then [t.second, t.microsecond]
      else if t.second ≠ 0 then [t.second] else [])
  let zone := (t.offset.map fun s ↦ ["tzinfo=" ++ offsetQuoted s]).getD []
  "datetime.datetime(" ++ ", ".intercalate (fields.map toString ++ zone) ++ ")"

end DateTime

end LayeredConfig
