import ShellDocs.Text.Basic

/-!
# UTF-8

Files hold bytes and the library works on text. `encode` writes text as UTF-8; `decode` reads it
back and, on bytes that are not UTF-8, says where the first bad sequence stands and what is wrong
with it. A bad sequence reaches from its first byte over the bytes that could still belong to a
character.
-/

namespace ShellDocs

/-- The content of a file. -/
abbrev Bytes := List UInt8

namespace Utf8

/-- The bytes of one character. -/
def encodeChar (c : Char) : Bytes :=
  let n := c.toNat
  if n < 0x80 then [.ofNat n]
  else if n < 0x800 then [.ofNat (0xC0 + n / 64), .ofNat (0x80 + n % 64)]
  else if n < 0x10000 then
    [.ofNat (0xE0 + n / 4096), .ofNat (0x80 + n / 64 % 64), .ofNat (0x80 + n % 64)]
  else
    [.ofNat (0xF0 + n / 262144), .ofNat (0x80 + n / 4096 % 64), .ofNat (0x80 + n / 64 % 64),
      .ofNat (0x80 + n % 64)]

/-- The bytes of a text. -/
def encode (t : Text) : Bytes := t.flatMap encodeChar

/-- What is wrong with a byte sequence. -/
inductive Defect where
  /-- No character starts with this byte. -/
  | start
  /-- A byte that should continue a character does not. -/
  | continuation
  /-- The bytes end inside a character. -/
  | ending
  deriving DecidableEq, Repr

/-- The first bad sequence of some bytes: the defect, the position and the value of its first
byte, and how many bytes it covers. -/
structure Fault where
  defect : Defect
  position : Nat
  first : UInt8
  count : Nat
  deriving DecidableEq, Repr

/-- A byte that continues a character: 0x80 to 0xBF. -/
def isTail (b : UInt8) : Bool := 0x80 ≤ b && b ≤ 0xBF

/-- The second bytes allowed after the first byte of a character of three or four bytes, which
exclude overlong forms, surrogates and numbers past the last code point. -/
def isSecond (first b : UInt8) : Bool :=
  if first = 0xE0 then 0xA0 ≤ b && b ≤ 0xBF
  else if first = 0xED then 0x80 ≤ b && b ≤ 0x9F
  else if first = 0xF0 then 0x90 ≤ b && b ≤ 0xBF
  else if first = 0xF4 then 0x80 ≤ b && b ≤ 0x8F
  else isTail b

/-- The six payload bits of a continuation byte. -/
def payload (b : UInt8) : Nat := b.toNat % 64

/-- The text of bytes of which the first stands at `position`. -/
def decodeFrom (position : Nat) : Bytes → Except Fault Text
  | [] => .ok []
  | a :: rest =>
      let bad (defect : Defect) (count : Nat) : Except Fault Text :=
        .error ⟨defect, position, a, count⟩
      if a < 0x80 then
        (Char.ofNat a.toNat :: ·) <$> decodeFrom (position + 1) rest
      else if a < 0xC2 then bad .start 1
      else if a < 0xE0 then
        match rest with
        | [] => bad .ending 1
        | b :: rest =>
            if isTail b then
              (Char.ofNat ((a.toNat - 0xC0) * 64 + payload b) :: ·) <$>
                decodeFrom (position + 2) rest
            else bad .continuation 1
      else if a < 0xF0 then
        match rest with
        | [] => bad .ending 1
        | b :: rest =>
            if !isSecond a b then bad .continuation 1
            else
              match rest with
              | [] => bad .ending 2
              | c :: rest =>
                  if isTail c then
                    (Char.ofNat ((a.toNat - 0xE0) * 4096 + payload b * 64 + payload c) :: ·) <$>
                      decodeFrom (position + 3) rest
                  else bad .continuation 2
      else if a < 0xF5 then
        match rest with
        | [] => bad .ending 1
        | b :: rest =>
            if !isSecond a b then bad .continuation 1
            else
              match rest with
              | [] => bad .ending 2
              | c :: rest =>
                  if !isTail c then bad .continuation 2
                  else
                    match rest with
                    | [] => bad .ending 3
                    | d :: rest =>
                        if isTail d then
                          (Char.ofNat ((a.toNat - 0xF0) * 262144 + payload b * 4096 +
                              payload c * 64 + payload d) :: ·) <$>
                            decodeFrom (position + 4) rest
                        else bad .continuation 3
      else bad .start 1

/-- The text that the bytes encode, or the first place where they encode none. -/
def decode (bytes : Bytes) : Except Fault Text := decodeFrom 0 bytes

/-- The defect in words. -/
def Defect.message : Defect → Text
  | .start => "invalid start byte"
  | .continuation => "invalid continuation byte"
  | .ending => "unexpected end of data"

/-- The fault in words: one bad byte is shown with its value, several with their positions. -/
def Fault.message (f : Fault) : Text :=
  let place : Text :=
    if f.count = 1 then
      ("byte 0x" : Text) ++ Text.hex 2 f.first.toNat ++ " in position " ++ Text.ofNat f.position
    else
      ("bytes in position " : Text) ++ Text.ofNat f.position ++ "-" ++
        Text.ofNat (f.position + f.count - 1)
  ("'utf-8' codec can't decode " : Text) ++ place ++ ": " ++ f.defect.message

end Utf8

end ShellDocs
