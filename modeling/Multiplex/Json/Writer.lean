import Multiplex.Bytes

/-!
Compact JSON text. Only quotes, backslashes and control characters are escaped.
-/

namespace Multiplex.Json

def hexLetter (n : Nat) : UInt8 := UInt8.ofNat (if n < 10 then 0x30 + n else 0x61 + (n - 10))

def escapeByte (b : UInt8) : Bytes :=
  if b = 0x22 then [0x5c, 0x22]
  else if b = 0x5c then [0x5c, 0x5c]
  else if b = 0x08 then [0x5c, 0x62]
  else if b = 0x09 then [0x5c, 0x74]
  else if b = 0x0a then [0x5c, 0x6e]
  else if b = 0x0c then [0x5c, 0x66]
  else if b = 0x0d then [0x5c, 0x72]
  else if b < 0x20 then
    [0x5c, 0x75, 0x30, 0x30, hexLetter (b.toNat / 16), hexLetter (b.toNat % 16)]
  else [b]

def writeString (s : String) : Bytes :=
  0x22 :: ((Bytes.ofString s).flatMap escapeByte ++ [0x22])

def writeByte (b : UInt8) : Bytes :=
  (Nat.toDigits 10 b.toNat).map fun c => UInt8.ofNat c.toNat

def commas (items : List Bytes) : Bytes := List.intercalate [0x2c] items

def writeArray (items : List Bytes) : Bytes := 0x5b :: (commas items ++ [0x5d])

def writeMember (key : String) (value : Bytes) : Bytes := writeString key ++ 0x3a :: value

def writeObject (members : List Bytes) : Bytes := 0x7b :: (commas members ++ [0x7d])

def writeBytes (bs : Bytes) : Bytes := writeArray (bs.map writeByte)

end Multiplex.Json
