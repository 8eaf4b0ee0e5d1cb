import Multiplex.Bytes

/-!
The CRC-32C checksum, one bit of the remainder at a time.
-/

namespace Multiplex.Crc32c

/-- The Castagnoli polynomial, lowest coefficient in the highest bit. -/
def poly : UInt32 := 0x82f63b78

def shift (c : UInt32) : UInt32 :=
  if c &&& 1 = 1 then (c >>> 1) ^^^ poly else c >>> 1

def step (c : UInt32) (b : UInt8) : UInt32 :=
  shift (shift (shift (shift (shift (shift (shift (shift (c ^^^ b.toUInt32))))))))

def update (c : UInt32) (bs : Bytes) : UInt32 := bs.foldl step c

def checksum (bs : Bytes) : UInt32 := update 0xffffffff bs ^^^ 0xffffffff

theorem update_append (c : UInt32) (bs bs' : Bytes) :
    update c (bs ++ bs') = update (update c bs) bs' := by
  simp [update]

end Multiplex.Crc32c
