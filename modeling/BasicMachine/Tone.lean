import BasicMachine.Clock

/-! Tones for the speaker: sine waves of 16-bit samples, loud as they can be. -/
namespace BasicMachine.Tone

def sampleRate : Nat := 44100

def amplitude : Float := 32767.0

/-- The number of samples of a tone of `tenths` tenths of a second. -/
def sampleCount (tenths : Int) : Int := ((Double.ofInt sampleRate).mul (Double.ofRatio tenths 10)).trunc

/-- The samples to play, or why there are none. -/
def length (frequency tenths : Int) : Except Fault Nat :=
  let n := sampleCount tenths
  if (Double.ofRatio tenths 10).isHuge then .error .hugeQuotient
  else if n < 0 then .error (.negativeSamples n)
  else if (Double.ofInt frequency).isHuge then .error .hugeFactor
  else if n = 0 then .error .silence
  else .ok n.toNat

def toFloat (n : Int) : Float :=
  match n with
  | .ofNat n => Float.ofNat n
  | .negSucc n => -(Float.ofNat (n + 1))

def pi : Float := 3.141592653589793

/-- The sine at each of `n` even steps of the duration. -/
def sines (frequency tenths : Int) (n : Nat) : Array Float :=
  let step := toFloat tenths / 10.0 / Float.ofNat n
  let angular := 2.0 * pi * toFloat frequency
  (Array.range n).map fun i => Float.sin (angular * (Float.ofNat i * step))

/-- The samples of the wave, stretched so that the highest reaches the amplitude. -/
def wave (frequency tenths : Int) : Except Fault (Array Int) := do
  let n ← length frequency tenths
  let values := sines frequency tenths n
  let peak := values.foldl (fun m x => if m < x.abs then x.abs else m) 0.0
  let scale := amplitude / peak
  return values.map fun x => (x * scale).toInt64.toInt

end BasicMachine.Tone
