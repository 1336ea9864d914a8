import Hanko.Framework.Calendar
import Hanko.Framework.Json.Decode

/-!
# Go's `time.Time`

An instant and the zone offset it is shown in, as far as the broker uses them:
comparison, addition, and RFC 3339 text, as written by `MarshalJSON` and
`Format(time.RFC3339Nano)` and read by `UnmarshalJSON`.
-/

namespace Hanko

open Bytes

instance neZero_nanosPerSecond : NeZero (1000000000 : Nat) := ⟨by decide⟩

/-- A `time.Time`: the instant, as seconds since 1970-01-01T00:00:00Z and
nanoseconds, and the offset of its location from UTC at that instant, in
seconds. -/
structure Time where
  sec : Int
  nsec : Fin 1000000000
  offset : Int
deriving DecidableEq

/-- A `time.Duration`, in nanoseconds. -/
abbrev Duration := Int

namespace Time

def nanosPerSecond : Int := 1000000000

/-- The zero `Time`: 0001-01-01T00:00:00Z. -/
def zero : Time := ⟨-62135596800, 0, 0⟩

/-- The instant in nanoseconds. -/
def nanos (t : Time) : Int := t.sec * nanosPerSecond + t.nsec.val

/-- `t.After(u)`. -/
def after (t u : Time) : Bool := u.nanos < t.nanos

/-- `t.Before(u)`. -/
def before (t u : Time) : Bool := t.nanos < u.nanos

/-- `t.UTC()`. -/
def utc (t : Time) : Time := { t with offset := 0 }

/-- `t.Add(d)`. -/
def add (t : Time) (d : Duration) : Time :=
  { t with
    sec := (t.nanos + d) / nanosPerSecond
    nsec := Fin.ofNat 1000000000 ((t.nanos + d) % nanosPerSecond).toNat }

/-- `t.Sub(u).Milliseconds()`. -/
def sinceMilliseconds (t u : Time) : Int := (t.nanos - u.nanos).tdiv 1000000

/-! ## Writing -/

/-- Two decimal digits. -/
def digits2 (n : Nat) : Bytes := [UInt8.ofNat (48 + n / 10 % 10), UInt8.ofNat (48 + n % 10)]

/-- Four decimal digits. -/
def digits4 (n : Nat) : Bytes := digits2 (n / 100) ++ digits2 (n % 100)

/-- `appendInt(x, width)`: decimal, padded with zeros to `width` digits. -/
def appendInt (x : Int) (width : Nat) : Bytes :=
  let u := x.natAbs
  (if x < 0 then [45] else []) ++
    (if width = 2 ∧ u < 100 then digits2 u
    else if width = 4 ∧ u < 10000 then digits4 u
    else
      let ds := (Nat.toDigits 10 u).map fun c => UInt8.ofNat c.toNat
      List.replicate (width - ds.length) 48 ++ ds)

/-- The seconds of the wall clock since 0001-01-01T00:00:00. -/
def wall (t : Time) : Int := t.sec + t.offset + 62135596800

def date (t : Time) : Calendar.Date := Calendar.Date.ofDays (t.wall / 86400)

/-- The second of the day. -/
def daySecond (t : Time) : Nat := (t.wall % 86400).toNat

/-- The nine digits of the nanoseconds. -/
def digits9 (n : Nat) : Bytes := (List.range 9).map fun i => UInt8.ofNat (48 + n / 10 ^ (8 - i) % 10)

/-- The fraction of a second, without trailing zeros, and nothing if it is
zero. -/
def appendNano (n : Nat) : Bytes := if n = 0 then [] else 46 :: (digits9 n).rdropWhile (· = 48)

/-- The zone offset: `Z` for UTC, otherwise hours and minutes, the seconds cut
off. -/
def appendZone (offset : Int) : Bytes :=
  if offset = 0 then [90]
  else
    let zone := offset.tdiv 60
    (if zone < 0 then 45 else 43) ::
      (appendInt (zone.natAbs / 60) 2 ++ 58 :: appendInt (zone.natAbs % 60) 2)

/-- `t.Format(time.RFC3339Nano)`. -/
def format (t : Time) : Bytes :=
  appendInt t.date.year 4 ++ 45 :: (appendInt t.date.month 2 ++ 45 :: (appendInt t.date.day 2 ++
    84 :: (appendInt (t.daySecond / 3600) 2 ++ 58 :: (appendInt (t.daySecond / 60 % 60) 2 ++
      58 :: (appendInt (t.daySecond % 60) 2 ++ (appendNano t.nsec.val ++ appendZone t.offset))))))

/-- `t.Format("2006-01-02T15:04:05.999Z07:00")`: the fraction is cut off at
milliseconds. -/
def formatMillis (t : Time) : Bytes :=
  format { t with nsec := Fin.ofNat 1000000000 (t.nsec.val / 1000000 * 1000000) }

/-- `json.Marshal` of a `Time`: the string it is written as, or the text of the
error. Not every time has an RFC 3339 text. -/
def marshalJSON (t : Time) : Except Bytes Bytes :=
  if t.date.year < 0 ∨ 9999 < t.date.year then
    .error (lit
      "json: error calling MarshalJSON for type time.Time: Time.MarshalJSON: year outside of range [0,9999]")
  else if 24 ≤ (t.offset.tdiv 60).natAbs / 60 then
    .error (lit
      "json: error calling MarshalJSON for type time.Time: Time.MarshalJSON: timezone hour outside of range [0,23]")
  else .ok t.format

/-! ## Reading -/

def digit (b : UInt8) : Option Nat := if Json.isDigit b then some (b.toNat - 48) else none

/-- `getnum`: two digits, or, unless `fixed`, only one. -/
def getnum (fixed : Bool) : Bytes → Option (Nat × Bytes)
  | [] => none
  | [a] => if fixed then none else (digit a).map fun x => (x, [])
  | a :: b :: s => do
    let x ← digit a
    match digit b with
    | some y => some (10 * x + y, s)
    | none => if fixed then none else some (x, b :: s)

/-- A year of four digits. -/
def getYear (s : Bytes) : Option (Nat × Bytes) := do
  let (x, s) ← getnum true s
  let (y, s) ← getnum true s
  return (100 * x + y, s)

/-- The nanoseconds of a run of digits after the point; those after the ninth
are dropped. -/
def parseNanoseconds (ds : Bytes) : Nat :=
  Json.digitsValue (ds.take 9) * 10 ^ (9 - (ds.take 9).length)

/-- A fraction of a second, if there is one. -/
def getFraction (s : Bytes) : Nat × Bytes :=
  match s with
  | p :: d :: s' =>
    if (p = 46 ∨ p = 44) ∧ Json.isDigit d then
      (parseNanoseconds ((d :: s').takeWhile Json.isDigit), (d :: s').dropWhile Json.isDigit)
    else (0, s)
  | _ => (0, s)

/-- The zone offset, to the end of the text. Offsets of 24 hours or 60 minutes
pass. -/
def getZone : Bytes → Option Int
  | [90] => some 0
  | [sign, h₁, h₂, 58, m₁, m₂] => do
    let (hr, _) ← getnum true [h₁, h₂]
    let (mm, _) ← getnum true [m₁, m₂]
    if hr ≤ 24 ∧ mm ≤ 60 then
      if sign = 43 then some ((hr * 60 + mm) * 60 : Nat)
      else if sign = 45 then some (-((hr * 60 + mm) * 60 : Nat))
      else none
    else none
  | _ => none

/-- The time of a date, a second of the day, nanoseconds and an offset. -/
def ofDate (d : Calendar.Date) (daySecond : Nat) (nsec : Fin 1000000000) (offset : Int) : Time :=
  ⟨d.toDays * 86400 + daySecond - 62135596800 - offset, nsec, offset⟩

/-- `time.Parse(time.RFC3339, s)`. The fast path of `UnmarshalJSON` gives the
same times, for the texts that are strictly RFC 3339. -/
def parse (s : Bytes) : Option Time := do
  let (year, s) ← getYear s
  let s ← Json.expect [45] s
  let (month, s) ← getnum true s
  let s ← Json.expect [45] s
  let (day, s) ← getnum true s
  let s ← Json.expect [84] s
  let (hour, s) ← getnum false s
  let s ← Json.expect [58] s
  let (min, s) ← getnum true s
  let s ← Json.expect [58] s
  let (sec, s) ← getnum true s
  let (nsec, s) := getFraction s
  let offset ← getZone s
  if hour < 24 ∧ min < 60 ∧ sec < 60 then
    if h : (1 ≤ month ∧ month ≤ 12) ∧ 1 ≤ day ∧ day ≤ Calendar.daysIn year month then
      some (ofDate ⟨year, month, day, h.1.1, h.1.2, h.2.1, h.2.2⟩ (3600 * hour + 60 * min + sec)
        (Fin.ofNat 1000000000 nsec) offset)
    else none
  else none

/-- `UnmarshalJSON`: the literal is taken as it stands, escapes and all. -/
def unmarshalJSON : Json.Decoder Time
  | t, .null => some t
  | _, .str l => parse l
  | _, _ => none

end Time

end Hanko
