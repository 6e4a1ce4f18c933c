/-
Giri.Basic — the identifiers the interpreter, the shadow memory and the
detectors share.

Goroutine IDs are `int64` in the source, handed out by a counter that
starts at 1; allocation IDs are `uint64`, handed out the same way. Nothing
in the model depends on either counter wrapping, so both are unbounded
here. Pointer offsets are `int` and are added to without a check, so where
an address is computed (`Detector/Race.lean`) they stay 64-bit.
-/
import Giri.Lib.VectorClock

namespace Giri

/-- A goroutine ID. -/
abbrev Gid : Type := Int

/-- `shadow.AllocID`. -/
abbrev AllocID : Type := Nat

/-- The contents of a `map[int64]uint64` holding a vector clock. -/
abbrev Clock : Type := VectorClock.Clock Gid

end Giri
