import BasicMachine.Variable

/-! Words that stand for a number. Only their upper case counts. -/
namespace BasicMachine

inductive Keyword where
  | progStart | ramStart | variableStart | version | timer | ink
  deriving DecidableEq, Repr

namespace Keyword

def all : List Keyword := [progStart, ramStart, variableStart, version, timer, ink]

def name : Keyword → Text
  | progStart => "PROGSTART".toList
  | ramStart => "RAMSTART".toList
  | variableStart => "VARIABLES".toList
  | version => "VERSION".toList
  | timer => "TIMER".toList
  | ink => "INK".toList

def ofName? (t : Text) : Option Keyword := all.find? fun k => k.name == t

/-- The version of the system that programs see. -/
def systemVersion : Int := 18

def value (m : Machine) : Keyword → Int
  | progStart => programStart
  | ramStart => programStart + m.setting "prog_offset".toList
  | variableStart => numericStart
  | version => systemVersion
  | timer => m.clock.ticks
  | ink => m.setting "text".toList

/-- The value of the keyword with a name. -/
def valueOf (m : Machine) (t : Text) : Except Fault Int :=
  match ofName? t with
  | some k => .ok (k.value m)
  | none => .error (.invalidKeyword t)

end Keyword
end BasicMachine
