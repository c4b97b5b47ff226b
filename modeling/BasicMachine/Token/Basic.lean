import BasicMachine.Text.Basic

/-! The words of a line of BASIC. A token keeps its written form, except that a number keeps its value
and the name of a numeric variable its upper case. -/
namespace BasicMachine

inductive Token where
  | word (t : Text)
  | number (n : Int)
  | quote (t : Text)
  | symbol (t : Text)
  | comment (t : Text)
  | numericVar (name : Text)
  | stringVar (name : Text)
  | stringRef (name : Text)
  | label (t : Text)
  | char (t : Text)
  deriving DecidableEq, Repr

namespace Token

/-- Comments and labels do nothing when they are run. -/
def isSilent : Token → Bool
  | comment _ | label _ => true
  | _ => false

def isComment : Token → Bool
  | comment _ => true
  | _ => false

end Token
end BasicMachine
