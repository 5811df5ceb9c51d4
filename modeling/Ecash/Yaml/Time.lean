import Ecash.Decimal.Read
import Ecash.Yaml.Source

/-!
# Times

A scalar may be a date, or a date and a time of day, perhaps with a fraction of
a second and a time zone. Not every time that can be written exists.
-/
namespace Ecash.Yaml

-- Sums are core's own, whatever else is imported.
attribute [local instance (high)] Zero.ofOfNat0

open Decimal (isDigit)

/-- How far a time zone is from that of Greenwich. -/
structure Zone where
  west : Bool
  hours : Nat
  minutes : Nat
  deriving DecidableEq, Repr

/-- A time of day. -/
structure Clock where
  hour : Nat
  minute : Nat
  second : Nat
  /-- Digits after the point. -/
  fraction : List Char
  zone : Option Zone
  deriving DecidableEq, Repr

structure Time where
  year : Nat
  month : Nat
  day : Nat
  clock : Option Clock
  deriving DecidableEq, Repr

/-! ## Reading -/

namespace Time

/-- At least `least` and at most `most` digits and what follows them. -/
def digits? (least most : Nat) (cs : List Char) : Option (Nat × List Char) :=
  let ds := (cs.take most).takeWhile isDigit
  if least ≤ ds.length then some (Decimal.ofDigits ds, cs.drop ds.length) else none

def after? (c : Char) : List Char → Option (List Char)
  | d :: cs => if d = c then some cs else none
  | [] => none

/-- A time zone, perhaps after blanks, or nothing. -/
def zone? (cs : List Char) : Option (Option Zone) :=
  match cs.dropWhile isSpace with
  | [] => if cs.isEmpty then some none else none
  | ['Z'] => some (some ⟨false, 0, 0⟩)
  | sign :: rest => do
    if sign ≠ '+' ∧ sign ≠ '-' then none
    let (hours, rest) ← digits? 1 2 rest
    let (minutes, rest) ← if rest.isEmpty then pure (0, []) else digits? 2 2 (← after? ':' rest)
    if rest.isEmpty then some (some ⟨sign = '-', hours, minutes⟩) else none

def clock? (cs : List Char) : Option Clock := do
  let (hour, rest) ← digits? 1 2 cs
  let (minute, rest) ← digits? 2 2 (← after? ':' rest)
  let (second, rest) ← digits? 2 2 (← after? ':' rest)
  match rest with
  | '.' :: rest => return ⟨hour, minute, second, rest.takeWhile isDigit, ← zone? (rest.dropWhile isDigit)⟩
  | rest => return ⟨hour, minute, second, [], ← zone? rest⟩

/-- A date, or a date with a time of day. -/
def read? (cs : List Char) : Option Time := do
  let (year, rest) ← digits? 4 4 cs
  let (month, rest) ← digits? 1 2 (← after? '-' rest)
  let (day, rest) ← digits? 1 2 (← after? '-' rest)
  match rest with
  | [] => return ⟨year, month, day, none⟩
  | c :: rest =>
    if c = 'T' ∨ c = 't' then return ⟨year, month, day, some (← clock? rest)⟩
    else if isSpace c then return ⟨year, month, day, some (← clock? (rest.dropWhile isSpace))⟩
    else none

/-! ## Existence -/

def isLeap (year : Nat) : Bool := year % 4 == 0 && (year % 100 != 0 || year % 400 == 0)

def daysIn (year month : Nat) : Nat :=
  if month = 2 then (if isLeap year then 29 else 28) else if month ∈ [4, 6, 9, 11] then 30 else 31

/-- The distance of a zone in seconds. -/
def distance (z : Zone) : Nat := z.hours * 3600 + z.minutes * 60

def clockExists (c : Clock) : Bool :=
  c.hour < 24 && c.minute < 60 && c.second < 60 && c.zone.all (distance · < 86400)

def doesExist (t : Time) : Bool :=
  1 ≤ t.year && 1 ≤ t.month && t.month ≤ 12 && 1 ≤ t.day && t.day ≤ daysIn t.year t.month
    && t.clock.all clockExists

/-! ## Order in time -/

/-- Millionths of a second. -/
def millionths (fraction : List Char) : Nat :=
  let ds := fraction.take 6
  Decimal.ofDigits (ds ++ List.replicate (6 - ds.length) '0')

/-- The number of a day among all days. -/
def dayNumber (t : Time) : Nat :=
  let years := t.year - 1
  years * 365 + years / 4 - years / 100 + years / 400 + ((List.range' 1 (t.month - 1)).map (daysIn t.year)).sum + t.day

/-- Millionths of a second up to a time of day, as one tells them in Greenwich. -/
def instant (t : Time) (c : Clock) : Int :=
  let seconds : Nat := ((t.dayNumber * 24 + c.hour) * 60 + c.minute) * 60 + c.second
  let shift : Int := match c.zone with
    | some z => if z.west then distance z else -distance z
    | none => 0
  (seconds + shift) * 1000000 + millionths c.fraction

/-- The two are one date or, both in zones or both in none, one time. -/
def same (t u : Time) : Bool :=
  match t.clock, u.clock with
  | none, none => t.dayNumber = u.dayNumber
  | some c, some d => c.zone.isSome = d.zone.isSome ∧ t.instant c = u.instant d
  | _, _ => false

/-! ## Showing -/

def shownZone (z : Zone) : String :=
  let n := distance z
  if n = 0 then "datetime.timezone.utc"
  else
    let delta := if z.west then s!"days=-1, seconds={86400 - n}" else s!"seconds={n}"
    "datetime.timezone(datetime.timedelta(" ++ delta ++ "))"

/-- A time inside a message. -/
def shown (t : Time) : String :=
  let date := [t.year, t.month, t.day]
  let list (ns : List Nat) : String := ", ".intercalate (ns.map toString)
  match t.clock with
  | none => "datetime.date(" ++ list date ++ ")"
  | some c =>
    let part := millionths c.fraction
    let seconds := if part ≠ 0 then [c.second, part] else if c.second ≠ 0 then [c.second] else []
    let zone := match c.zone with
      | none => ""
      | some z => ", tzinfo=" ++ shownZone z
    "datetime.datetime(" ++ list (date ++ [c.hour, c.minute] ++ seconds) ++ zone ++ ")"

example : (read? "2024-02-30".toList).map doesExist = some false ∧ read? "2024-1-1 1:00".toList = none := by
  decide +kernel
example : ["2024-03-01 00:30:00.50 +01:00", "2024-02-29T18:30:00.5-5"].map (fun s =>
    (read? s.toList).bind fun t => t.clock.map t.instant) = [some 63844932600500000, some 63844932600500000] := by
  decide +kernel
example : (read? "2024-01-02t03:04:05.6 -1:30".toList).map shown = some
    "datetime.datetime(2024, 1, 2, 3, 4, 5, 600000, tzinfo=datetime.timezone(datetime.timedelta(days=-1, seconds=81000)))" := by
  decide +kernel

end Time

end Ecash.Yaml
