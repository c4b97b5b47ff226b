import BasicMachine.Text.Basic

/-! Keys and the codes they give. A key has four 16-bit codes, for itself and with shift, control and
alt; programs see the low byte, and small numbers for the arrows. -/
namespace BasicMachine

structure KeyCodes where
  regular : Nat
  shifted : Nat
  control : Nat
  alternate : Nat
  deriving DecidableEq, Repr

/-- A key of the keyboard: one that is known by its name, or any other by its number. -/
inductive Key where
  | named (name : Text)
  | other (code : Int)
  deriving DecidableEq, Repr

structure KeyPress where
  key : Key
  modifiers : Int := 0
  deriving DecidableEq, Repr

namespace Key

/-- The codes of the known keys. -/
def table : List (Text × KeyCodes) := [
  ("a".toList, ⟨0x1E61, 0x1E41, 0x1E01, 0x1E00⟩),
  ("b".toList, ⟨0x3062, 0x3042, 0x3002, 0x3000⟩),
  ("c".toList, ⟨0x2E63, 0x2E42, 0x2E03, 0x2E00⟩),
  ("d".toList, ⟨0x2064, 0x2044, 0x2004, 0x2000⟩),
  ("e".toList, ⟨0x1265, 0x1245, 0x1205, 0x1200⟩),
  ("f".toList, ⟨0x2166, 0x2146, 0x2106, 0x2100⟩),
  ("g".toList, ⟨0x2267, 0x2247, 0x2207, 0x2200⟩),
  ("h".toList, ⟨0x2368, 0x2348, 0x2308, 0x2300⟩),
  ("i".toList, ⟨0x1769, 0x1749, 0x1709, 0x1700⟩),
  ("j".toList, ⟨0x246A, 0x244A, 0x240A, 0x2400⟩),
  ("k".toList, ⟨0x256B, 0x254B, 0x250B, 0x2500⟩),
  ("l".toList, ⟨0x266C, 0x264C, 0x260C, 0x2600⟩),
  ("m".toList, ⟨0x326D, 0x324D, 0x320D, 0x3200⟩),
  ("n".toList, ⟨0x316E, 0x314E, 0x310E, 0x3100⟩),
  ("o".toList, ⟨0x186F, 0x184F, 0x180F, 0x1800⟩),
  ("p".toList, ⟨0x1970, 0x1950, 0x1910, 0x1900⟩),
  ("q".toList, ⟨0x1071, 0x1051, 0x1011, 0x1000⟩),
  ("r".toList, ⟨0x1372, 0x1352, 0x1312, 0x1300⟩),
  ("s".toList, ⟨0x1F73, 0x1F53, 0x1F13, 0x1F00⟩),
  ("t".toList, ⟨0x1474, 0x1454, 0x1414, 0x1400⟩),
  ("u".toList, ⟨0x1675, 0x1655, 0x1615, 0x1600⟩),
  ("v".toList, ⟨0x2F76, 0x2F56, 0x2F16, 0x2F00⟩),
  ("w".toList, ⟨0x1177, 0x1157, 0x1117, 0x1100⟩),
  ("x".toList, ⟨0x2D78, 0x2D58, 0x2D18, 0x2D00⟩),
  ("y".toList, ⟨0x1579, 0x1559, 0x1519, 0x1500⟩),
  ("z".toList, ⟨0x2C7A, 0x2C5A, 0x2C1A, 0x2C00⟩),
  ("1".toList, ⟨0x0231, 0x0221, 0x0000, 0x7800⟩),
  ("2".toList, ⟨0x0332, 0x0340, 0x0300, 0x7900⟩),
  ("3".toList, ⟨0x0433, 0x0423, 0x0000, 0x7A00⟩),
  ("4".toList, ⟨0x0534, 0x0524, 0x0000, 0x7B00⟩),
  ("5".toList, ⟨0x0635, 0x0625, 0x0000, 0x7C00⟩),
  ("6".toList, ⟨0x0736, 0x075E, 0x071E, 0x7D00⟩),
  ("7".toList, ⟨0x0837, 0x0826, 0x0000, 0x7E00⟩),
  ("8".toList, ⟨0x0938, 0x092A, 0x0000, 0x7F00⟩),
  ("9".toList, ⟨0x0A39, 0x0A28, 0x0000, 0x8000⟩),
  ("0".toList, ⟨0x0B30, 0x0B29, 0x0000, 0x8100⟩),
  ("MINUS".toList, ⟨0x0C2D, 0x0C5F, 0x0C1F, 0x8200⟩),
  ("EQUALS".toList, ⟨0x0D3D, 0x0D2B, 0x0000, 0x8300⟩),
  ("LEFTBRACKET".toList, ⟨0x1A5B, 0x1A7B, 0x1A1B, 0x1A00⟩),
  ("RIGHTBRACKET".toList, ⟨0x1B5D, 0x1B7D, 0x1B1D, 0x1B00⟩),
  ("SEMICOLON".toList, ⟨0x273B, 0x273A, 0x0000, 0x2700⟩),
  ("QUOTE".toList, ⟨0x2827, 0x2822, 0x0000, 0x0000⟩),
  ("BACKQUOTE".toList, ⟨0x2960, 0x297E, 0x0000, 0x0000⟩),
  ("BACKSLASH".toList, ⟨0x2B5C, 0x2B7C, 0x2B1C, 0x2600⟩),
  ("COMMA".toList, ⟨0x332C, 0x333C, 0x0000, 0x0000⟩),
  ("PERIOD".toList, ⟨0x342E, 0x343E, 0x0000, 0x0000⟩),
  ("SLASH".toList, ⟨0x352F, 0x353F, 0x0000, 0x0000⟩),
  ("F1".toList, ⟨0x3B00, 0x5400, 0x5E00, 0x6800⟩),
  ("F2".toList, ⟨0x3C00, 0x5500, 0x5F00, 0x6900⟩),
  ("F3".toList, ⟨0x3D00, 0x5600, 0x6000, 0x6A00⟩),
  ("F4".toList, ⟨0x3E00, 0x5700, 0x6100, 0x6B00⟩),
  ("F5".toList, ⟨0x3F00, 0x5800, 0x6200, 0x6C00⟩),
  ("F6".toList, ⟨0x4000, 0x5900, 0x6300, 0x6D00⟩),
  ("F7".toList, ⟨0x4100, 0x5A00, 0x6400, 0x6E00⟩),
  ("F8".toList, ⟨0x4200, 0x5B00, 0x6500, 0x6F00⟩),
  ("F9".toList, ⟨0x4300, 0x5C00, 0x6600, 0x7000⟩),
  ("F10".toList, ⟨0x4400, 0x5D00, 0x6700, 0x7100⟩),
  ("F11".toList, ⟨0x8500, 0x8700, 0x8900, 0x8B00⟩),
  ("F12".toList, ⟨0x8600, 0x8800, 0x8A00, 0x8C00⟩),
  ("BACKSPACE".toList, ⟨0x0E08, 0x0E08, 0x0E7F, 0x0E00⟩),
  ("TAB".toList, ⟨0x0F09, 0x0F00, 0x9400, 0xA500⟩),
  ("RETURN".toList, ⟨0x1C0D, 0x1C0D, 0x1C0A, 0xA600⟩),
  ("ESCAPE".toList, ⟨0x011B, 0x011B, 0x011B, 0x0100⟩),
  ("SPACE".toList, ⟨0x3920, 0x3920, 0x3920, 0x3920⟩),
  ("DELETE".toList, ⟨0x5300, 0x532E, 0x9300, 0xA300⟩),
  ("UP".toList, ⟨0x48E0, 0x4838, 0x8D00, 0x9800⟩),
  ("DOWN".toList, ⟨0x50E0, 0x5032, 0x9100, 0xA000⟩),
  ("LEFT".toList, ⟨0x4BE0, 0x4B34, 0x7300, 0x9B00⟩),
  ("RIGHT".toList, ⟨0x4DE0, 0x4D36, 0x7400, 0x9D00⟩)]

def codes? : Key → Option KeyCodes
  | .named name => table.lookup name
  | .other _ => none

end Key

namespace KeyPress

def shift : Int := 3

def control : Int := 192

def alternate : Int := 768

/-- A modifier counts only when it is held alone, with both of its keys. -/
def code (modifiers : Int) (k : KeyCodes) : Nat :=
  if modifiers = control then k.control
  else if modifiers = alternate then k.alternate
  else if modifiers = shift then k.shifted
  else k.regular

/-- What a program sees of a code: the arrows up, down, left and right are 1 to 4. -/
def visible (code : Nat) : Nat :=
  if code = 0x48E0 then 1
  else if code = 0x50E0 then 2
  else if code = 0x4BE0 then 3
  else if code = 0x4DE0 then 4
  else code % 256

end KeyPress
end BasicMachine
