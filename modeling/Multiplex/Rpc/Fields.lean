import Multiplex.Bytes

/-!
Fields: raw values under a fixed set of keys, carried in the headers of requests and responses.
-/

namespace Multiplex.Rpc

/-- A set of keys: all of them in order, and what they are called. -/
class FieldKey (κ : Type) [DecidableEq κ] where
  all : List κ
  name : κ → String

def FieldKey.ofName? (κ : Type) [DecidableEq κ] [FieldKey κ] (s : String) : Option κ :=
  let keys : List κ := FieldKey.all
  keys.find? fun k => FieldKey.name k = s

inductive RequestKey
  | context
  /-- The time left for the request in milliseconds, as a word of eight bytes. -/
  | deadline
  | idempotent
  | traceContext
  | compressionFormat
  deriving DecidableEq, Repr

inductive ResponseKey
  | retryPolicy
  | compressionFormat
  deriving DecidableEq, Repr

instance : FieldKey RequestKey where
  all := [.context, .deadline, .idempotent, .traceContext, .compressionFormat]
  name
    | .context => "Context"
    | .deadline => "Deadline"
    | .idempotent => "Idempotent"
    | .traceContext => "TraceContext"
    | .compressionFormat => "CompressionFormat"

instance : FieldKey ResponseKey where
  all := [.retryPolicy, .compressionFormat]
  name
    | .retryPolicy => "RetryPolicy"
    | .compressionFormat => "CompressionFormat"

structure Fields (κ : Type) where
  get : κ → Option Bytes

namespace Fields

variable {κ : Type}

def empty : Fields κ := ⟨fun _ => none⟩

instance : Inhabited (Fields κ) := ⟨empty⟩

variable [DecidableEq κ]

def update (f : Fields κ) (key : κ) (value : Option Bytes) : Fields κ :=
  ⟨fun k => if k = key then value else f.get k⟩

def set (f : Fields κ) (key : κ) (value : Bytes) : Fields κ := f.update key (some value)

def erase (f : Fields κ) (key : κ) : Fields κ := f.update key none

def contains (f : Fields κ) (key : κ) : Bool := (f.get key).isSome

def setWord (f : Fields κ) (key : κ) (value : UInt64) : Fields κ := f.set key (Bytes.ofUInt64 value)

/-- A value of eight bytes read as a word; none if it is absent or of another size. -/
def getWord? (f : Fields κ) (key : κ) : Option UInt64 :=
  match f.get key with
  | some bs => if bs.length = 8 then some (Bytes.toUInt64 bs) else none
  | none => none

variable [FieldKey κ]

def entries (f : Fields κ) : List (κ × Bytes) :=
  FieldKey.all.filterMap fun k => (f.get k).map (k, ·)

def size (f : Fields κ) : Nat := f.entries.length

end Fields

end Multiplex.Rpc
