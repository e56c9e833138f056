/-!
Dates, times of day and their combination, and their international form, written and read. A time
may know its distance from universal time; two times compare only if both or neither know it.
-/
namespace RowGate

/-- A day of the calendar. -/
structure Date where
  year : Nat
  month : Nat
  day : Nat
deriving DecidableEq, Repr

/-- A time of day, with the seconds it runs ahead of universal time if they are known. -/
structure TimeOfDay where
  hour : Nat
  minute : Nat
  second : Nat
  microsecond : Nat
  offset : Option Int
deriving DecidableEq, Repr

/-- A day, a time of day, or a time on a day. -/
inductive Moment where
  | date (d : Date)
  | time (t : TimeOfDay)
  | dateTime (d : Date) (t : TimeOfDay)
deriving DecidableEq, Repr

namespace Date

/-- Leap years are the multiples of four, but of the full centuries only every fourth. -/
def isLeap (year : Nat) : Bool := year % 4 = 0 && (year % 100 != 0 || year % 400 = 0)

/-- Days before each month of a common year. -/
def daysBeforeMonth : List Nat := [0, 31, 59, 90, 120, 151, 181, 212, 243, 273, 304, 334]

/-- Days since the start of year one. -/
def dayNumber (d : Date) : Nat :=
  let y := d.year - 1
  365 * y + y / 4 - y / 100 + y / 400 + (daysBeforeMonth[d.month - 1]?).getD 0 +
    (if 2 < d.month && isLeap d.year then 1 else 0) + d.day

end Date

namespace TimeOfDay

/-- Microseconds since midnight on the clock's own wall. -/
def wall (t : TimeOfDay) : Nat :=
  ((t.hour * 60 + t.minute) * 60 + t.second) * 1000000 + t.microsecond

/-- Microseconds since midnight of universal time, counted as on the wall if the distance is not
known. -/
def universal (t : TimeOfDay) : Int := t.wall - t.offset.getD 0 * 1000000

end TimeOfDay

namespace Moment

/-- Where a moment lies among those of its kind, with a mark of its kind and of whether the
distance from universal time is known. -/
def position : Moment → Nat × Bool × Int
  | .date d => (0, false, d.dayNumber)
  | .time t => (1, t.offset.isSome, t.universal)
  | .dateTime d t => (2, t.offset.isSome, d.dayNumber * 86400000000 + t.universal)

/-- The order of two moments of one kind. -/
def compare? (a b : Moment) : Option Ordering :=
  let (ka, za, pa) := a.position
  let (kb, zb, pb) := b.position
  if ka = kb ∧ za = zb then some (compare pa pb) else none

/-- The same moment, of the same kind. -/
def same (a b : Moment) : Bool := a.compare? b == some .eq

end Moment

/-- A number with zeros in front, up to a width. -/
def padded (width n : Nat) : String :=
  let s := toString n
  String.ofList (List.replicate (width - s.length) '0') ++ s

/-- `2020-02-29` -/
def Date.iso (d : Date) : String :=
  padded 4 d.year ++ "-" ++ padded 2 d.month ++ "-" ++ padded 2 d.day

/-- `+01:00`, with seconds only if there are some. -/
def offsetText (seconds : Int) : String :=
  let n := seconds.natAbs
  (if seconds < 0 then "-" else "+") ++ padded 2 (n / 3600) ++ ":" ++ padded 2 (n / 60 % 60) ++
    (if n % 60 = 0 then "" else ":" ++ padded 2 (n % 60))

/-- `01:02:03`, with a fraction and a distance from universal time only if there are any. -/
def TimeOfDay.iso (t : TimeOfDay) : String :=
  padded 2 t.hour ++ ":" ++ padded 2 t.minute ++ ":" ++ padded 2 t.second ++
    (if t.microsecond = 0 then "" else "." ++ padded 6 t.microsecond) ++
    (t.offset.map offsetText).getD ""

/-- The form with the given mark between day and time. -/
def Moment.isoWith (separator : String) : Moment → String
  | .date d => d.iso
  | .time t => t.iso
  | .dateTime d t => d.iso ++ separator ++ t.iso

/-- The form with `T` between day and time. -/
def Moment.iso : Moment → String := isoWith "T"

namespace Iso

/-- A number of decimal digits. -/
def number? (cs : List Char) : Option Nat :=
  if cs.isEmpty || cs.any (!·.isDigit) then none
  else some (cs.foldl (fun n c => 10 * n + (c.toNat - 48)) 0)

/-- A day `2020-02-29` that exists. -/
def date? (cs : List Char) : Option Date := do
  if cs.length != 10 || (cs.drop 4).head? != some '-' || (cs.drop 7).head? != some '-' then none
  let year ← number? (cs.take 4)
  let month ← number? ((cs.drop 5).take 2)
  let day ← number? (cs.drop 8)
  let leap := if month = 2 && Date.isLeap year then 1 else 0
  let last := ([31, 28, 31, 30, 31, 30, 31, 31, 30, 31, 30, 31][month - 1]?).getD 0 + leap
  if year = 0 || month = 0 || 12 < month || day = 0 || last < day then none
  else some ⟨year, month, day⟩

/-- Two-digit fields with colons between them. -/
def clockFields? (cs : List Char) : Option (List Nat) :=
  match cs with
  | a :: b :: [] => (number? [a, b]).map ([·])
  | a :: b :: ':' :: rest => do return (← number? [a, b]) :: (← clockFields? rest)
  | _ => none

/-- A fraction of a second in millionths, further digits cut. -/
def fraction? (cs : List Char) : Option Nat :=
  number? ((cs ++ List.replicate (6 - cs.length) '0').take 6)

/-- A distance from universal time: `Z`, or a sign and clock fields. -/
def offset? (cs : List Char) : Option (Option Int) := do
  let seconds (fs : List Nat) : Int :=
    (fs[0]?.getD 0 * 3600 + fs[1]?.getD 0 * 60 + fs[2]?.getD 0 : Nat)
  match cs with
  | [] => some none
  | ['Z'] => some (some 0)
  | '+' :: rest => (clockFields? rest).map (some ∘ seconds)
  | '-' :: rest => (clockFields? rest).map (fun fs => some (-seconds fs))
  | _ => none

/-- A time of day `01:02:03.5+01:00`, from its hour alone on. -/
def time? (cs : List Char) : Option TimeOfDay := do
  let isMark (c : Char) := c == '+' || c == '-' || c == 'Z'
  let wall := cs.takeWhile (!isMark ·)
  let clock := wall.takeWhile (· != '.')
  let fs ← clockFields? clock
  let micro ← match wall.dropWhile (· != '.') with
    | [] => some 0
    | _ :: ds => fraction? ds
  let offset ← offset? (cs.dropWhile (!isMark ·))
  let hour := fs[0]?.getD 0
  let minute := fs[1]?.getD 0
  let second := fs[2]?.getD 0
  if 23 < hour || 59 < minute || 59 < second then none
  else some ⟨hour, minute, second, micro, offset⟩

/-- A day, or a day and a time with one character between them; a day alone starts at midnight. -/
def dateTime? (cs : List Char) : Option (Date × TimeOfDay) := do
  let d ← date? (cs.take 10)
  match cs.drop 10 with
  | [] => some (d, ⟨0, 0, 0, 0, none⟩)
  | _ :: rest => do return (d, ← time? rest)

end Iso

end RowGate
