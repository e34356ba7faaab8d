import Componentry.Text.Basic
import Componentry.Yaml.Tag

/-!
# Days and times

Days of the calendar, and times of a day with or without a zone. Two times with zones are the same
when they are the same instant; a time without a zone is never the same as one with.
-/

namespace Componentry.Yaml

/-- A day of the calendar. -/
structure Day where
  year : Nat
  month : Nat
  day : Nat
  deriving DecidableEq, Repr

/-- A time of a day; the zone is its offset from universal time in minutes. -/
structure Moment where
  day : Day
  hour : Nat
  minute : Nat
  second : Nat
  micro : Nat
  zone : Option Int
  deriving DecidableEq, Repr

/-- A number with zeros in front. -/
def zeroFilled (width n : Nat) : Text :=
  let digits := Text.ofNat n
  Text.zeros (width - digits.length) ++ digits

/-- The numbers between commas. -/
def listed (ns : List Nat) : Text := Text.join ", " (ns.map Text.ofNat)

/-- The number of digits. -/
def digitsNumber (digits : Text) : Nat :=
  digits.foldl (fun n c => n * 10 + (c.toNat - 48)) 0

namespace Day

/-- Is a year longer by a day? -/
def isLeap (year : Nat) : Bool := year % 4 == 0 && (year % 100 != 0 || year % 400 == 0)

/-- How many days a month has. -/
def daysIn (year month : Nat) : Nat :=
  if month == 2 then if isLeap year then 29 else 28
  else if [4, 6, 9, 11].elem month then 30 else 31

/-- Is there such a day? -/
def exists_ (d : Day) : Bool :=
  1 ≤ d.year && 1 ≤ d.month && d.month ≤ 12 && 1 ≤ d.day && d.day ≤ daysIn d.year d.month

/-- How many days there are before this one. -/
def number (d : Day) : Nat :=
  let years := d.year - 1
  let months := (List.range (d.month - 1)).map fun m => daysIn d.year (m + 1)
  years * 365 + years / 4 - years / 100 + years / 400 + months.foldl (· + ·) 0 + d.day - 1

/-- The day as text. -/
def shown (d : Day) : Text :=
  zeroFilled 4 d.year ++ "-" ++ zeroFilled 2 d.month ++ "-" ++ zeroFilled 2 d.day

/-- The day as it is shown inside a message. -/
def literal (d : Day) : Text :=
  "datetime.date(" ++ listed [d.year, d.month, d.day] ++ ")"

end Day

namespace Moment

/-- The minutes of a day. -/
def dayMinutes : Int := 24 * 60

/-- Is there such a time? A zone is less than a day away. -/
def exists_ (m : Moment) : Bool :=
  m.day.exists_ && m.hour < 24 && m.minute < 60 && m.second < 60 &&
    m.zone.all fun z => -dayMinutes < z && z < dayMinutes

/-- The microseconds since the first day, by the clock of the zone. -/
def clock (m : Moment) : Int :=
  (((m.day.number * 24 + m.hour) * 60 + m.minute) * 60 + m.second) * 1000000 + m.micro

/-- Are two times the same? -/
def same (a b : Moment) : Bool :=
  match a.zone, b.zone with
  | none, none => a.clock == b.clock
  | some za, some zb => a.clock - za * 60000000 == b.clock - zb * 60000000
  | _, _ => false

/-- The zone as text. -/
def shownZone : Option Int → Text
  | none => []
  | some z =>
    (if z < 0 then '-' else '+') ::
      (zeroFilled 2 (z.natAbs / 60) ++ ":" ++ zeroFilled 2 (z.natAbs % 60))

/-- The zone as it is shown inside a message. -/
def literalZone : Option Int → Text
  | none => ""
  | some 0 => ", tzinfo=datetime.timezone.utc"
  | some z =>
    let (days, seconds) :=
      if z < 0 then ("days=-1, ", 86400 - z.natAbs * 60) else ("", z.natAbs * 60)
    ", tzinfo=datetime.timezone(datetime.timedelta(" ++ days ++ "seconds=" ++ toString seconds ++
      "))"

/-- The time as text. -/
def shown (m : Moment) : Text :=
  m.day.shown ++ " " ++ zeroFilled 2 m.hour ++ ":" ++ zeroFilled 2 m.minute ++ ":" ++
    zeroFilled 2 m.second ++ (if m.micro != 0 then "." ++ zeroFilled 6 m.micro else []) ++
    shownZone m.zone

/-- The time as it is shown inside a message: seconds that are zero are left out. -/
def literal (m : Moment) : Text :=
  let parts := [m.day.year, m.day.month, m.day.day, m.hour, m.minute] ++
    (if m.second != 0 || m.micro != 0 then [m.second] else []) ++
    (if m.micro != 0 then [m.micro] else [])
  "datetime.datetime(" ++ listed parts ++ literalZone m.zone ++ ")"

/-- An offset that is written with a sign; the letter for universal time is no offset. -/
def zoneOf (s : Text) : Option Int :=
  match s.dropWhile Tag.isSpaceOrTab with
  | [] => none
  | .char 'Z' :: _ => some 0
  | sign :: rest =>
    let hours := rest.takeWhile CodePoint.isDigit
    let minutes := ((rest.drop hours.length).drop 1).takeWhile CodePoint.isDigit
    let offset : Int := digitsNumber hours * 60 + digitsNumber minutes
    some (if sign == '-' then -offset else offset)

/-- A time of a day whose text looks like one. -/
def ofClock (day : Day) (s : Text) : Moment :=
  let hour := s.takeWhile CodePoint.isDigit
  let rest := s.drop (hour.length + 1)
  let tail := rest.drop 5
  let (fraction, tail) := match tail with
    | .char '.' :: more => (more.takeWhile CodePoint.isDigit, more.dropWhile CodePoint.isDigit)
    | more => ([], more)
  { day, hour := digitsNumber hour, minute := digitsNumber (rest.take 2)
    second := digitsNumber ((rest.drop 3).take 2)
    micro := digitsNumber (fraction.take 6 ++ Text.zeros (6 - fraction.length))
    zone := zoneOf tail }

/-- The day that a text starts with, which looks like one, and the text after it. -/
def dayOf (s : Text) : Day × Text :=
  let month := (s.drop 5).takeWhile CodePoint.isDigit
  let rest := s.drop (6 + month.length)
  let day := rest.takeWhile CodePoint.isDigit
  ({ year := digitsNumber (s.take 4), month := digitsNumber month, day := digitsNumber day },
    rest.drop day.length)

end Moment

end Componentry.Yaml
