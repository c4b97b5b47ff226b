import BasicMachine.Text.Basic

/-! Code page 437: bytes below 128 are ASCII, and the upper half is a fixed table. -/
namespace BasicMachine.CodePage

/-- The code points of the bytes 128 to 255. -/
def upperHalf : List Nat := [
  199, 252, 233, 226, 228, 224, 229, 231, 234, 235, 232, 239, 238, 236, 196, 197,
  201, 230, 198, 244, 246, 242, 251, 249, 255, 214, 220, 162, 163, 165, 8359, 402,
  225, 237, 243, 250, 241, 209, 170, 186, 191, 8976, 172, 189, 188, 161, 171, 187,
  9617, 9618, 9619, 9474, 9508, 9569, 9570, 9558, 9557, 9571, 9553, 9559, 9565, 9564, 9563, 9488,
  9492, 9524, 9516, 9500, 9472, 9532, 9566, 9567, 9562, 9556, 9577, 9574, 9568, 9552, 9580, 9575,
  9576, 9572, 9573, 9561, 9560, 9554, 9555, 9579, 9578, 9496, 9484, 9608, 9604, 9612, 9616, 9600,
  945, 223, 915, 960, 931, 963, 181, 964, 934, 920, 937, 948, 8734, 966, 949, 8745,
  8801, 177, 8805, 8804, 8992, 8993, 247, 8776, 176, 8729, 183, 8730, 8319, 178, 9632, 160]

@[simp] theorem length_upperHalf : upperHalf.length = 128 := by
  simp [upperHalf]

def decodeByte (b : UInt8) : Char :=
  if b.toNat < 128 then Char.ofNat b.toNat else Char.ofNat (upperHalf.getD (b.toNat - 128) 0)

/-- The byte of a character of the page. -/
def encodeChar? (c : Char) : Option UInt8 :=
  if c.toNat < 128 then some c.toNat.toUInt8
  else (upperHalf.idxOf? c.toNat).map fun i => (i + 128).toUInt8

private theorem encodeChar?_decodeByte_ofNat :
    ∀ n < 256, encodeChar? (decodeByte (UInt8.ofNat n)) = some (UInt8.ofNat n) := by
  decide +kernel

/-- No two bytes show the same character. -/
@[simp] theorem encodeChar?_decodeByte (b : UInt8) : encodeChar? (decodeByte b) = some b := by
  have h := encodeChar?_decodeByte_ofNat b.toNat b.toNat_lt
  rwa [UInt8.ofNat_toNat] at h

def decode (bytes : List UInt8) : Text := bytes.map decodeByte

/-- A character outside the page is written as a question mark. -/
def encode (t : Text) : List UInt8 := t.map fun c => (encodeChar? c).getD 63

@[simp] theorem length_encode (t : Text) : (encode t).length = t.length := by simp [encode]

@[simp] theorem length_decode (bytes : List UInt8) : (decode bytes).length = bytes.length := by
  simp [decode]

@[simp] theorem encode_decode (bytes : List UInt8) : encode (decode bytes) = bytes := by
  simp [encode, decode, Function.comp_def]

end BasicMachine.CodePage
