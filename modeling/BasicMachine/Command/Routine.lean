import BasicMachine.Command.Assignment
import BasicMachine.Command.Control
import BasicMachine.Command.Data
import BasicMachine.Command.Disk
import BasicMachine.Command.Hardware
import BasicMachine.Command.Screen
import BasicMachine.Command.Strings

/-! What each command does. -/
namespace BasicMachine.Command

def routine (h : Hooks) : Command → Routine
  | assign => runAssign h
  | buildString => runBuildString h
  | alert => runAlert
  | askFile => runAskFile
  | clearScreen => runClearScreen
  | cursorChar => runCursorChar
  | cursorColour => runCursorColour
  | cursor => runCursor
  | cursorPosition => runCursorPosition
  | files => runFiles
  | ink => runInk
  | input => runInput
  | listBox => runListBox
  | move => runMove
  | print => runPrint
  | breakPoint => runBreak h
  | callCode => runCall h
  | doLoop => runDo
  | elseThen => runElse
  | endProgram => runEnd h
  | forLoop => runFor
  | gosub => runGosub
  | goto => runGoto
  | ifThen => runIf
  | includeFile => runInclude h
  | loop => runLoop
  | next => runNext h
  | pause => runPause
  | returnSub => runReturn h
  | delete => runDelete
  | load => runLoad
  | rename => runRename
  | save => runSave
  | size => runSize
  | changeCase => runCase
  | length => runLength
  | number => runNumber
  | string => runString
  | getKey => runGetKey
  | waitKey => runWaitKey
  | port => runPort h
  | serial => runSerial
  | sound => runSound
  | peek => runPeek
  | poke => runPoke
  | peekInt => runPeekInt
  | pokeInt => runPokeInt
  | random => runRandom
  | readData => runReadData

end BasicMachine.Command
