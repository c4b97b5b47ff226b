import BasicMachine.Double
import BasicMachine.Fault

/-! The clock of the host: seconds since some start, as the timer and the blinking cursor read it. Nothing here
lets time pass. -/
namespace BasicMachine

structure Clock where
  seconds : Double := ⟨0, 0⟩
  deriving DecidableEq, Repr

namespace Clock

/-- Timer ticks, 18.206 a second, counted modulo 65535. -/
def ticks (c : Clock) : Int := ((c.seconds.mul (Double.ofRatio 18206 1000)).mod 65535).round

/-- The cursor blinks twice a second and is dark in the first half of each period. -/
def isDark (c : Clock) : Bool := (c.seconds.mul (Double.ofInt 4)).floor % 2 == 0

end Clock

/-- The pauses of a twentieth of a second that make up `tenths` tenths of a second. -/
def pauseCount (tenths : Int) : Except Fault Nat :=
  let seconds := Double.ofRatio tenths 10
  if seconds.isHuge then .error .hugeQuotient
  else .ok (seconds.mul (Double.ofInt 20)).trunc.toNat

end BasicMachine
