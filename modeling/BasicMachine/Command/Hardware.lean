import BasicMachine.Command.Basic
import BasicMachine.Keyboard

/-! Commands for keys, the serial port, the speaker and the bytes of memory. -/
namespace BasicMachine

namespace SerialPort

def setup (p : SerialPort) (baud : Int) : SerialPort := { p with enabled := true, baud }

/-- Appends a byte to what is sent. -/
def send (p : SerialPort) (v : Int) : Except Fault SerialPort :=
  if v < 0 ∨ 256 ≤ v then .error .byteRange
  else .ok { p with buffer := p.buffer ++ [Memory.byteOf v] }

end SerialPort

namespace Machine

def setupSerial (baud : Int) : Action Unit := modify fun m => { m with serial := m.serial.setup baud }

def sendSerial (v : Int) : Action Unit := do
  let serial ← ask fun m => m.serial.send v
  modify fun m => { m with serial }

def addSound (e : SpeakerEvent) : Action Unit := modify fun m => { m with speaker := m.speaker ++ [e] }

/-- Plays a tone, waits for its duration, and stops. -/
def playTone (frequency tenths : Int) : Action Unit := do
  let n ← ask fun m => m.sampler frequency tenths
  addSound (.play n Tone.sampleRate)
  delay tenths
  addSound .stop

/-- The next random number, brought into the range. Without one, the lower end. -/
def roll (low high : Int) : Action Int := do
  if low > high then throw (.emptyRange low high)
  let m ← get
  match m.dice with
  | [] => return low
  | r :: rest =>
    set { m with dice := rest }
    return low + r % (high - low + 1)

end Machine

namespace Command

open Call

def runGetKey : Routine := do
  let k ← onMachine Machine.pollKey
  putNumeric k

def runWaitKey : Routine := do
  let k ← onMachine Machine.waitKey
  putNumeric k

def runPort (h : Hooks) : Routine := do
  h.complain "COMMAND".toList "PORT command not supported.".toList

/-- Receiving does nothing. -/
def runSerial : Routine := do
  let keyword ← nextWordOf ["ON".toList, "SEND".toList, "REC".toList]
  if keyword = "ON".toList then Machine.setupSerial (← nextNumeric)
  else if keyword = "SEND".toList then Machine.sendSerial (← nextNumeric)

def runSound : Routine := do
  let frequency ← nextNumeric
  let tenths ← nextNumeric
  Machine.playTone frequency tenths

def runPeek : Routine := do
  let name ← nextNumericVar
  let a ← nextNumeric
  Machine.setNumeric name (← Machine.ask fun m => m.memory.readByte a)

def runPeekInt : Routine := do
  let name ← nextNumericVar
  let a ← nextNumeric
  Machine.setNumeric name (← Machine.ask fun m => m.memory.readWord a)

def runPoke : Routine := do
  let v ← nextNumeric
  let a ← nextNumeric
  Machine.onMemory (Memory.writeByte a v)

def runPokeInt : Routine := do
  let v ← nextNumeric
  let a ← nextNumeric
  Machine.onMemory (Memory.writeWord a v)

def runRandom : Routine := do
  let name ← nextNumericVar
  let low ← nextNumeric
  let high ← nextNumeric
  Machine.setNumeric name (← Machine.roll low high)

end Command
end BasicMachine
