import BasicMachine.Call

/-! The commands of the language and their names. -/
namespace BasicMachine

inductive Command where
  | assign | buildString
  | alert | askFile | clearScreen | cursorChar | cursorColour | cursor | cursorPosition | files | ink
  | input | listBox | move | print
  | breakPoint | callCode | doLoop | elseThen | endProgram | forLoop | gosub | goto | ifThen
  | includeFile | loop | next | pause | returnSub
  | delete | load | rename | save | size
  | changeCase | length | number | string
  | getKey | waitKey
  | port | serial | sound
  | peek | poke | peekInt | pokeInt | random | readData
  deriving DecidableEq, Repr

namespace Command

/-- The commands in the order in which they are registered. -/
def all : List Command := [
  assign, buildString,
  alert, askFile, clearScreen, cursorChar, cursorColour, cursor, cursorPosition, files, ink, input,
  listBox, move, print,
  breakPoint, callCode, doLoop, elseThen, endProgram, forLoop, gosub, goto, ifThen, includeFile, loop,
  next, pause, returnSub,
  delete, load, rename, save, size,
  changeCase, length, number, string,
  getKey, waitKey,
  port, serial, sound,
  peek, poke, peekInt, pokeInt, random, readData]

/-- The two assignments have names that no line can spell. -/
def name : Command → Text
  | assign => "(assign)".toList
  | buildString => "(build_string)".toList
  | alert => "ALERT".toList
  | askFile => "ASKFILE".toList
  | clearScreen => "CLS".toList
  | cursorChar => "CURSCHAR".toList
  | cursorColour => "CURSCOL".toList
  | cursor => "CURSOR".toList
  | cursorPosition => "CURSPOS".toList
  | files => "FILES".toList
  | ink => "INK".toList
  | input => "INPUT".toList
  | listBox => "LISTBOX".toList
  | move => "MOVE".toList
  | print => "PRINT".toList
  | breakPoint => "BREAK".toList
  | callCode => "CALL".toList
  | doLoop => "DO".toList
  | elseThen => "ELSE".toList
  | endProgram => "END".toList
  | forLoop => "FOR".toList
  | gosub => "GOSUB".toList
  | goto => "GOTO".toList
  | ifThen => "IF".toList
  | includeFile => "INCLUDE".toList
  | loop => "LOOP".toList
  | next => "NEXT".toList
  | pause => "PAUSE".toList
  | returnSub => "RETURN".toList
  | delete => "DELETE".toList
  | load => "LOAD".toList
  | rename => "RENAME".toList
  | save => "SAVE".toList
  | size => "SIZE".toList
  | changeCase => "CASE".toList
  | length => "LEN".toList
  | number => "NUMBER".toList
  | string => "STRING".toList
  | getKey => "GETKEY".toList
  | waitKey => "WAITKEY".toList
  | port => "PORT".toList
  | serial => "SERIAL".toList
  | sound => "SOUND".toList
  | peek => "PEEK".toList
  | poke => "POKE".toList
  | peekInt => "PEEKINT".toList
  | pokeInt => "POKEINT".toList
  | random => "RAND".toList
  | readData => "READ".toList

def ofName? (t : Text) : Option Command := all.find? fun c => c.name == t

end Command

/-- What a command can hand the machine over to: the debugger at a breakpoint, and whatever follows the
end of the program. -/
structure Hooks where
  onBreak : Action Unit
  onExit : Action Unit

namespace Hooks

/-- Reports an error and stops at the debugger. -/
def complain (h : Hooks) (kind t : Text) : Action Unit := do
  Machine.reportError kind t
  h.onBreak

end Hooks
end BasicMachine
