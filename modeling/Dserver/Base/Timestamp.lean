import Mathlib.Init

/-!
# `Timestamp`

Times are in microseconds since the epoch and do not overflow. Of a `double` that is an interval the
code uses whether it is positive, and what `addTime` makes of it.
-/

namespace Dserver

abbrev Timestamp := Int

namespace Timestamp

def valid (t : Timestamp) : Bool := 0 < t

def invalid : Timestamp := 0

def kMicroSecondsPerSecond : Int := 1000 * 1000

end Timestamp

/-- A number of seconds; `delta` is `static_cast<int64_t>(seconds * kMicroSecondsPerSecond)`. -/
structure Seconds where
  positive : Bool
  delta : Int
  delta_nonneg : positive = true → 0 ≤ delta

def addTime (timestamp : Timestamp) (seconds : Seconds) : Timestamp := timestamp + seconds.delta

end Dserver
