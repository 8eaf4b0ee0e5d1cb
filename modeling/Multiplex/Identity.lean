import Multiplex.Text

/-!
Who an end of a connection says it is, and whom it trusts. Each side announces its name, then tells
the other whether it trusts it.
-/

namespace Multiplex

structure Identity where
  name : String
  trusts : String → Bool

namespace Identity

def magic : Bytes := [0x53, 0x4b, 0x49, 0x44]

def maxName : Nat := 1024

def nameBytes (i : Identity) : Bytes := Bytes.ofString i.name

def hello (i : Identity) : Bytes :=
  magic ++ (Bytes.ofWord 2 i.nameBytes.length ++ i.nameBytes)

def accepted : UInt8 := 1

def rejected : UInt8 := 0

def verdict (i : Identity) (peer : String) : UInt8 := if i.trusts peer then accepted else rejected

end Identity

/-- What is done on a fresh pair of pipes before frames cross it. -/
inductive Channel
  | plain
  | identity (i : Identity)

end Multiplex
