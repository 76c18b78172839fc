import CardLore.Text.CodePoint

namespace CardLore

-- `n` in at least `width` figures.
def figures (width n : Nat) : String :=
  let digits := Nat.toDigits 10 n
  String.ofList (List.replicate (width - digits.length) '0' ++ digits)

-- The displayed form of a kind with its parts.
def displayParts (kind : String) (parts : List String) : String :=
  s!"datetime.{kind}(" ++ ", ".intercalate parts ++ ")"

def isLeapYear (year : Nat) : Bool :=
  year % 4 == 0 && (year % 100 != 0 || year % 400 == 0)

def daysInMonth (year month : Nat) : Nat :=
  if month = 2 then if isLeapYear year then 29 else 28
  else if month ∈ [4, 6, 9, 11] then 30
  else 31

structure Date where
  year : Nat
  month : Nat
  day : Nat
  year_pos : 0 < year
  month_mem : 0 < month ∧ month ≤ 12
  day_mem : 0 < day ∧ day ≤ daysInMonth year month
deriving DecidableEq, Repr

namespace Date

def ofParts? (year month day : Nat) : Option Date :=
  if h : 0 < year ∧ (0 < month ∧ month ≤ 12) ∧ 0 < day ∧ day ≤ daysInMonth year month then
    some ⟨year, month, day, h.1, h.2.1, h.2.2⟩
  else none

def text (d : Date) : String :=
  s!"{figures 4 d.year}-{figures 2 d.month}-{figures 2 d.day}"

def parts (d : Date) : List String :=
  [d.year, d.month, d.day].map toString

def display (d : Date) : String := displayParts "date" d.parts

end Date

structure Time where
  hour : Fin 24
  minute : Fin 60
  second : Fin 60
  microsecond : Fin 1000000
deriving DecidableEq, Repr

namespace Time

-- The fraction of a whole second.
def noFraction : Fin 1000000 := 0

-- The fraction of a second is left out if there is none.
def text (t : Time) : String :=
  let clock := s!"{figures 2 t.hour}:{figures 2 t.minute}:{figures 2 t.second}"
  if t.microsecond = 0 then clock else s!"{clock}.{figures 6 t.microsecond}"

-- The parts up to the last one that is not zero, but at least hour and minute.
def parts (t : Time) : List String :=
  let small := if t.microsecond ≠ 0 then [t.second.val, t.microsecond.val]
    else if t.second ≠ 0 then [t.second.val]
    else []
  ([t.hour.val, t.minute.val] ++ small).map toString

def display (t : Time) : String := displayParts "time" t.parts

end Time

-- How many minutes the clocks of a place are ahead of universal time; always less than a day.
structure Offset where
  minutes : Int
  lt_day : minutes.natAbs < 24 * 60
deriving DecidableEq, Repr

namespace Offset

def universal : Offset := ⟨0, by decide⟩

def ofParts (behind : Bool) (hours : Fin 24) (minutes : Fin 60) : Offset :=
  let total := 60 * hours.val + minutes.val
  have : total < 24 * 60 := by omega
  if behind then ⟨-total, by omega⟩ else ⟨total, by omega⟩

def text (o : Offset) : String :=
  let sign := if o.minutes < 0 then "-" else "+"
  let size := o.minutes.natAbs
  s!"{sign}{figures 2 (size / 60)}:{figures 2 (size % 60)}"

-- A negative offset is shown as a day back and the seconds that are left of it.
def display (o : Offset) : String :=
  let seconds := 60 * o.minutes
  if o.minutes = 0 then "datetime.timezone.utc"
  else
    let parts := if seconds < 0 then ["days=-1", s!"seconds={seconds + 24 * 60 * 60}"]
      else [s!"seconds={seconds}"]
    displayParts "timezone" [displayParts "timedelta" parts]

end Offset

structure Moment where
  date : Date
  time : Time
  offset : Option Offset := none
deriving DecidableEq, Repr

namespace Moment

def text (m : Moment) : String :=
  let offset := match m.offset with
    | some o => o.text
    | none => ""
  s!"{m.date.text} {m.time.text}{offset}"

def display (m : Moment) : String :=
  let offset := match m.offset with
    | some o => [s!"tzinfo={o.display}"]
    | none => []
  displayParts "datetime" (m.date.parts ++ m.time.parts ++ offset)

end Moment

end CardLore
