import Portugol.Fault

/-!
# The watchdog

Each loop has a *ceiling*: the time it may take, in nanoseconds. The clock is
read once when a loop starts and once before each round; a round that would
start past the ceiling is a fault. A run can also be cancelled from outside: then
no further round of any loop starts, and the clock is not read any more.

Time is a function of how often the clock has been read, so that a run is a
function of what it is given. It may be any function: a clock may stand still or
go back. One that goes on evenly is given by a `Clock`.
-/

namespace Portugol

/-- A clock that goes on evenly: it shows `start` when it is first read, and `step`
    nanoseconds more at each further reading. -/
structure Clock where
  start : Nat := 0
  step : Nat := 0
  deriving DecidableEq, Repr, Inhabited

/-- What the clock shows after so many readings. -/
def Clock.reading (clock : Clock) (reads : Nat) : Nat := clock.start + reads * clock.step

instance : CoeFun Clock fun _ => Nat → Nat := ⟨Clock.reading⟩

/-- What limits the loops of a run. -/
structure Watchdog where
  /-- The time that a loop may take, in nanoseconds. -/
  ceiling : Nat := 30 * second
  /-- What the clock shows after so many readings. -/
  clock : Nat → Nat := fun _ => 0
  /-- The reading of the clock, counted from one, at which the run is cancelled. -/
  cancelAt : Option Nat := none
  deriving Inhabited

/-- How far the watchdog has got. -/
structure Timer where
  /-- How often the clock has been read. -/
  reads : Nat := 0
  cancelled : Bool := false
  deriving DecidableEq, Repr, Inhabited

namespace Watchdog

/-- Reads the clock. -/
def read (w : Watchdog) (t : Timer) : Nat × Timer :=
  (w.clock t.reads,
    { reads := t.reads + 1
      cancelled := t.cancelled || w.cancelAt == some (t.reads + 1) })

/-- Whether a loop that started at the time `started` may have another round. -/
def check (w : Watchdog) (started : Nat) (t : Timer) : Except Fault Unit × Timer :=
  if t.cancelled then (.error { cause := .cancelled }, t)
  else
    let (now, t) := w.read t
    if w.ceiling < now - started then (.error { cause := .loopTimeout w.ceiling }, t)
    else (.ok (), t)

end Watchdog

end Portugol
