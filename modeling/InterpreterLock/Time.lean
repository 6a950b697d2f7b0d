import InterpreterLock.Json

/-!
# Durations, instants and timeouts

Durations and instants are counted in nanoseconds. A clock reading has a bounded number of seconds,
so that an instant plus a duration need not exist. A timeout is a signed number of microseconds:
negative ones wait forever, zero never waits.
-/

set_option autoImplicit false

namespace InterpreterLock

structure Duration where
  nanoseconds : Nat
deriving DecidableEq, Repr, Inhabited

namespace Duration

def ofParts (seconds nanos : Nat) : Duration := ⟨seconds * 1000000000 + nanos⟩

def ofMicros (n : Nat) : Duration := ⟨n * 1000⟩

def ofMillis (n : Nat) : Duration := ⟨n * 1000000⟩

def seconds (d : Duration) : Nat := d.nanoseconds / 1000000000

def subsecond (d : Duration) : Nat := d.nanoseconds % 1000000000

def micros (d : Duration) : Nat := d.nanoseconds / 1000

end Duration

structure Instant where
  nanoseconds : Nat
deriving DecidableEq, Repr, Inhabited

namespace Instant

def lastSecond : Nat := 9223372036854775807

instance : LE Instant := ⟨fun a b => a.nanoseconds ≤ b.nanoseconds⟩

instance (a b : Instant) : Decidable (a ≤ b) :=
  inferInstanceAs (Decidable (a.nanoseconds ≤ b.nanoseconds))

def add? (i : Instant) (d : Duration) : Option Instant :=
  if (i.nanoseconds + d.nanoseconds) / 1000000000 ≤ lastSecond then
    some ⟨i.nanoseconds + d.nanoseconds⟩
  else none

def since (later earlier : Instant) : Duration := ⟨later.nanoseconds - earlier.nanoseconds⟩

end Instant

structure Timeout where
  micros : Int
  lower : -9223372036854775808 ≤ micros
  upper : micros ≤ 9223372036854775807
deriving DecidableEq

namespace Timeout

def maxMicros : Nat := 9223372036854775807

def ofMicros? (n : Int) : Option Timeout :=
  if h : -9223372036854775808 ≤ n ∧ n ≤ 9223372036854775807 then some ⟨n, h.1, h.2⟩ else none

def infinite : Timeout := ⟨-1, by decide, by decide⟩

def nonBlocking : Timeout := ⟨0, by decide, by decide⟩

instance : Inhabited Timeout := ⟨infinite⟩

def ofNat (n : Nat) : Timeout :=
  ⟨min n maxMicros, by simp only [maxMicros]; omega, by simp only [maxMicros]; omega⟩

def ofMillis (m : Int) : Timeout :=
  if m < 0 then infinite else ofNat (m.toNat * 1000)

def ofDuration (d : Duration) : Timeout := ofNat d.micros

def isInfinite (t : Timeout) : Bool := t.micros < 0

def isNonBlocking (t : Timeout) : Bool := t.micros == 0

def duration? (t : Timeout) : Option Duration :=
  if t.isInfinite then none else some (.ofMicros t.micros.toNat)

def deadlineFrom (t : Timeout) (now : Instant) : Option Instant :=
  t.duration?.bind now.add?

def maxWaitMillis : Nat := 0xFFFFFFFE

/-- Rounded up, so that a short wait does not become a poll. -/
def waitMillis (t : Timeout) : Option Nat :=
  if t.isInfinite then none else some (min ((t.micros.toNat + 999) / 1000) maxWaitMillis)

def toJson (t : Timeout) : Json := .integer t.micros

def ofJson? : Json → Option Timeout
  | .integer n => ofMicros? n
  | _ => none

def sorted (ts : List Timeout) : List Timeout := ts.mergeSort (fun a b => a.micros ≤ b.micros)

end Timeout

end InterpreterLock
