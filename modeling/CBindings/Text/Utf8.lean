/-! Reading bytes as UTF-8. Every ill-formed part is read as one replacement character. -/

namespace CBindings.Text

/-- What a first byte announces: the number of bytes that follow, the bits it carries itself, and
the least and the greatest second byte. -/
structure Lead where
  following : Nat
  bits : Nat
  low : Nat
  high : Nat

def lead? (byte : Nat) : Option Lead :=
  if byte < 0x80 then some ⟨0, byte, 0x80, 0xBF⟩
  else if 0xC2 ≤ byte ∧ byte ≤ 0xDF then some ⟨1, byte - 0xC0, 0x80, 0xBF⟩
  else if byte = 0xE0 then some ⟨2, 0, 0xA0, 0xBF⟩
  else if byte = 0xED then some ⟨2, 13, 0x80, 0x9F⟩
  else if 0xE1 ≤ byte ∧ byte ≤ 0xEF then some ⟨2, byte - 0xE0, 0x80, 0xBF⟩
  else if byte = 0xF0 then some ⟨3, 0, 0x90, 0xBF⟩
  else if 0xF1 ≤ byte ∧ byte ≤ 0xF3 then some ⟨3, byte - 0xF0, 0x80, 0xBF⟩
  else if byte = 0xF4 then some ⟨3, 4, 0x80, 0x8F⟩
  else none

def replacement : Char := '\uFFFD'

/-- Takes `following` more bytes, the first of them between `low` and `high`, onto the bits read so
far. A byte that does not fit ends an ill-formed part and is left to be read again. -/
def decodeTail : Nat → Nat → Nat → Nat → List Nat → Char × List Nat
  | 0, bits, _, _, bytes => (Char.ofNat bits, bytes)
  | _ + 1, _, _, _, [] => (replacement, [])
  | following + 1, bits, low, high, byte :: bytes =>
    if low ≤ byte ∧ byte ≤ high then
      decodeTail following (bits * 64 + (byte - 0x80)) 0x80 0xBF bytes
    else (replacement, byte :: bytes)

theorem decodeTail_length (following bits low high : Nat) (bytes : List Nat) :
    (decodeTail following bits low high bytes).2.length ≤ bytes.length := by
  induction following generalizing bits low high bytes with
  | zero => simp [decodeTail]
  | succ following ih =>
    cases bytes with
    | nil => simp [decodeTail]
    | cons byte bytes =>
      simp only [decodeTail]
      split
      · exact Nat.le_succ_of_le (ih ..)
      · simp

def decode : List Nat → List Char
  | [] => []
  | byte :: bytes =>
    match lead? byte with
    | none => replacement :: decode bytes
    | some lead =>
      let tail := decodeTail lead.following lead.bits lead.low lead.high bytes
      tail.1 :: decode tail.2
termination_by bytes => bytes.length
decreasing_by
  · simp
  · exact Nat.lt_succ_of_le (decodeTail_length ..)

def unifyLineEnds : List Char → List Char
  | [] => []
  | '\r' :: '\n' :: rest => '\n' :: unifyLineEnds rest
  | '\r' :: rest => '\n' :: unifyLineEnds rest
  | c :: rest => c :: unifyLineEnds rest

def decodeText (bytes : ByteArray) : String :=
  String.ofList (unifyLineEnds (decode (bytes.toList.map UInt8.toNat)))

end CBindings.Text
