/-
UTF-8. Encoding writes one to four bytes a character; decoding gives the characters back, or says
where the bytes stop being UTF-8: how many bytes of a sequence could still have been right before
one ruled it out, or that the bytes end inside a sequence.
-/

namespace SubtreeHarvest.Text

/-- How many bytes characters take. -/
def byteLength (cs : List Char) : Nat :=
  cs.foldr (fun c n => c.utf8Size + n) 0

namespace Utf8

/-- Why bytes are not UTF-8, with the index of the sequence at fault. -/
inductive Fault
  /-- The first `length` bytes of the sequence do not go on as any character does. -/
  | invalid (length index : Nat)
  /-- The bytes end before the sequence does. -/
  | incomplete (index : Nat)
  deriving DecidableEq

def Fault.message : Fault → String
  | .invalid length index => s!"invalid utf-8 sequence of {length} bytes from index {index}"
  | .incomplete index => s!"incomplete utf-8 byte sequence from index {index}"

/-- The bytes of a text. -/
def encode (s : String) : List UInt8 :=
  s.toList.flatMap String.utf8EncodeChar

/-! ## Decoding -/

/-- A byte that continues a sequence. -/
def isTail (b : UInt8) : Bool :=
  0x80 ≤ b && b ≤ 0xBF

/-- A byte that may come second after the first byte `a`: neither an overlong form, nor a
surrogate, nor a value past the last character. -/
def isSecond (a b : UInt8) : Bool :=
  isTail b && (a != 0xE0 || 0xA0 ≤ b) && (a != 0xED || b ≤ 0x9F) && (a != 0xF0 || 0x90 ≤ b) &&
    (a != 0xF4 || b ≤ 0x8F)

/-- The low six bits that a continuing byte carries. -/
def payload (b : UInt8) : Nat :=
  b.toNat % 0x40

/-- Decodes bytes of which the first has index `i`. -/
def decodeFrom (i : Nat) : List UInt8 → Except Fault (List Char)
  | [] => .ok []
  | a :: rest =>
    if a < 0x80 then (Char.ofNat a.toNat :: ·) <$> decodeFrom (i + 1) rest
    else if a < 0xC2 || 0xF4 < a then .error (.invalid 1 i)
    else
      match rest with
      | [] => .error (.incomplete i)
      | b :: rest =>
        if !isSecond a b then .error (.invalid 1 i)
        else if a < 0xE0 then
          (Char.ofNat (a.toNat % 0x20 * 0x40 + payload b) :: ·) <$> decodeFrom (i + 2) rest
        else
          match rest with
          | [] => .error (.incomplete i)
          | c :: rest =>
            if !isTail c then .error (.invalid 2 i)
            else if a < 0xF0 then
              (Char.ofNat ((a.toNat % 0x10 * 0x40 + payload b) * 0x40 + payload c) :: ·) <$>
                decodeFrom (i + 3) rest
            else
              match rest with
              | [] => .error (.incomplete i)
              | d :: rest =>
                if !isTail d then .error (.invalid 3 i)
                else
                  (Char.ofNat
                    (((a.toNat % 0x8 * 0x40 + payload b) * 0x40 + payload c) * 0x40 + payload d)
                      :: ·) <$> decodeFrom (i + 4) rest

/-- The characters that bytes stand for. -/
def decode (bytes : List UInt8) : Except Fault (List Char) :=
  decodeFrom 0 bytes

end Utf8

end SubtreeHarvest.Text
