import DatasetCatalog.Time.Calendar

/-!
# Timestamps

A timestamp is an instant of universal time: a day, a second of the day and a nanosecond, which
passes a whole second during a leap second. Instants are representable from the start of the year
-262143 to the end of the year 262142; moving one may lead out of that range (`addNanos?`).
-/

namespace DatasetCatalog

structure Timestamp where
  day : Int
  second : Nat
  nano : Nat
deriving DecidableEq, Inhabited

def Timestamp.secondsPerDay : Nat := 86400

def Timestamp.nanosPerSecond : Nat := 1000000000

/-- A length of time that is not negative. -/
structure Duration where
  nanos : Nat
deriving DecidableEq, Inhabited

def Duration.ofSeconds (seconds : Nat) : Duration := ⟨seconds * Timestamp.nanosPerSecond⟩

namespace Timestamp

def le (a b : Timestamp) : Bool :=
  decide (a.day < b.day) ||
    (a.day == b.day && (decide (a.second < b.second) ||
      (a.second == b.second && decide (a.nano ≤ b.nano))))

def firstDay : Int := Time.Date.toDays ⟨-262143, 1, 1⟩

def lastDay : Int := Time.Date.toDays ⟨262142, 12, 31⟩

/-- Whether the instant lies within a leap second. -/
def isLeapSecond (t : Timestamp) : Bool := nanosPerSecond ≤ t.nano

/-- The instant that many nanoseconds after the start of a day, as seconds of a number of days. -/
def ofSeconds? (day : Int) (seconds : Int) (nano : Nat) : Option Timestamp :=
  let day := day + seconds.fdiv secondsPerDay
  if firstDay ≤ day ∧ day ≤ lastDay then
    some ⟨day, (seconds.fmod secondsPerDay).toNat, nano⟩
  else none

/-- The same with a number of nanoseconds that need not be less than a second. -/
def ofNanos? (day : Int) (seconds nanos : Int) : Option Timestamp :=
  ofSeconds? day (seconds + nanos.fdiv nanosPerSecond) (nanos.fmod nanosPerSecond).toNat

/-- The instant `n` nanoseconds later, or earlier for a negative `n`, if it is representable. A move
of less than a second may stay within a leap second. Leaving one forwards starts from its beginning,
backwards from its end. -/
def addNanos? (t : Timestamp) (n : Int) : Option Timestamp :=
  if t.isLeapSecond then
    if 2 * nanosPerSecond ≤ t.nano + n then ofNanos? t.day t.second (t.nano - nanosPerSecond + n)
    else if n ≤ -nanosPerSecond then ofNanos? t.day (t.second + 1) (t.nano - nanosPerSecond + n)
    else some { t with nano := (t.nano + n).toNat }
  else ofNanos? t.day t.second (t.nano + n)

/-- Whether `t` lies at most `tolerance` from `target`. A bound that is not representable leaves its
side open. -/
def isNear (t target : Timestamp) (tolerance : Duration) : Bool :=
  (match target.addNanos? (-tolerance.nanos) with
    | some start => start.le t
    | none => true) &&
  (match target.addNanos? tolerance.nanos with
    | some finish => t.le finish
    | none => true)

end Timestamp

end DatasetCatalog
