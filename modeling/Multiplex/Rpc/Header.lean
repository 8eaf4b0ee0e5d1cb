import Multiplex.Json.Reader
import Multiplex.Json.Writer
import Multiplex.Rpc.Error
import Multiplex.Rpc.Fields
import Multiplex.Rpc.Status

/-!
Headers at the start of every call's stream: a length of four bytes, then JSON text.

A header is read from an object, in which unknown members are skipped and known ones may not be
repeated, or from an array of the members in order, in which trailing optional ones may be missing.
-/

namespace Multiplex.Rpc

structure RequestHeader where
  path : String
  operation : String
  fields : Fields RequestKey := Fields.empty

structure ResponseHeader where
  status : Status
  errorMessage : Option String := none
  fields : Fields ResponseKey := Fields.empty

open Json

def Fields.encode {κ : Type} [DecidableEq κ] [FieldKey κ] (f : Fields κ) : Bytes :=
  writeObject (f.entries.map fun (k, v) => writeMember (FieldKey.name k) (writeBytes v))

/-- Of a repeated key the last value counts. -/
def Fields.reader {κ : Type} [DecidableEq κ] [FieldKey κ] : Reader (Fields κ) :=
  object (fun key f bs => do
    let k ← FieldKey.ofName? κ key
    let (value, rest) ← array byte bs
    return (f.set k value, rest)) Fields.empty

def Status.encode (s : Status) : Bytes := writeString s.name

def Status.reader : Reader Status := Json.name Status.ofName?

def once {α : Type} (seen : Option α) (reader : Reader α) : Reader (Option α) := fun bs =>
  if seen.isSome then none else (reader bs).map fun (a, rest) => (some a, rest)

/-- Elements of an array read by `k` whose opening bracket was read; then its closing bracket. -/
def closed {α : Type} (k : Reader α) : Reader α := fun bs => do
  let (a, rest) ← k bs
  let rest ← punctuation 0x5d rest
  return (a, rest)

/-- The next element of an array that may end here instead. -/
def optionalElement {α : Type} (default : α) (reader : Reader α) : Reader α := fun bs =>
  match next bs with
  | some (0x2c, rest) => reader rest
  | some (0x5d, _) => some (default, bs)
  | _ => none

namespace RequestHeader

def encode (h : RequestHeader) : Bytes :=
  writeObject
    [writeMember "path" (writeString h.path), writeMember "operation" (writeString h.operation),
      writeMember "fields" h.fields.encode]

structure Partial where
  path : Option String := none
  operation : Option String := none
  fields : Option (Fields RequestKey) := none

def Partial.member (key : String) (p : Partial) : Reader Partial := fun bs =>
  if key = "path" then (once p.path string bs).map fun (v, rest) => ({ p with path := v }, rest)
  else if key = "operation" then
    (once p.operation string bs).map fun (v, rest) => ({ p with operation := v }, rest)
  else if key = "fields" then
    (once p.fields Fields.reader bs).map fun (v, rest) => ({ p with fields := v }, rest)
  else (skim bs).map (p, ·)

def Partial.finish (p : Partial) : Option RequestHeader := do
  return { path := ← p.path, operation := ← p.operation, fields := p.fields.getD Fields.empty }

def elements : Reader RequestHeader := closed fun bs => do
  let (path, rest) ← string bs
  let (operation, rest) ← string (← punctuation 0x2c rest)
  let (fields, rest) ← optionalElement Fields.empty Fields.reader rest
  return ({ path, operation, fields }, rest)

def reader : Reader RequestHeader := fun bs =>
  match next bs with
  | some (0x7b, rest) => do
    let (p, rest) ← openedObject Partial.member {} rest
    return (← p.finish, rest)
  | some (0x5b, rest) => elements rest
  | _ => none

end RequestHeader

namespace ResponseHeader

/-- An absent message is left out. -/
def encode (h : ResponseHeader) : Bytes :=
  let message :=
    match h.errorMessage with
    | some m => [writeMember "error_message" (writeString m)]
    | none => []
  writeObject
    (writeMember "status" h.status.encode :: (message ++ [writeMember "fields" h.fields.encode]))

structure Partial where
  status : Option Status := none
  errorMessage : Option (Option String) := none
  fields : Option (Fields ResponseKey) := none

def Partial.member (key : String) (p : Partial) : Reader Partial := fun bs =>
  if key = "status" then
    (once p.status Status.reader bs).map fun (v, rest) => ({ p with status := v }, rest)
  else if key = "error_message" then
    (once p.errorMessage (nullable string) bs).map fun (v, rest) =>
      ({ p with errorMessage := v }, rest)
  else if key = "fields" then
    (once p.fields Fields.reader bs).map fun (v, rest) => ({ p with fields := v }, rest)
  else (skim bs).map (p, ·)

def Partial.finish (p : Partial) : Option ResponseHeader := do
  return { status := ← p.status, errorMessage := p.errorMessage.getD none,
           fields := p.fields.getD Fields.empty }

def elements : Reader ResponseHeader := closed fun bs => do
  let (status, rest) ← Status.reader bs
  let (errorMessage, rest) ← optionalElement none (nullable string) rest
  let (fields, rest) ← optionalElement Fields.empty Fields.reader rest
  return ({ status, errorMessage, fields }, rest)

def reader : Reader ResponseHeader := fun bs =>
  match next bs with
  | some (0x7b, rest) => do
    let (p, rest) ← openedObject Partial.member {} rest
    return (← p.finish, rest)
  | some (0x5b, rest) => elements rest
  | _ => none

end ResponseHeader

def lengthSize : Nat := 4

def frameHeader (text : Bytes) (max : Nat) : Except Error Bytes :=
  if max < text.length || UInt32.size ≤ text.length then .error (.headerTooLarge text.length max)
  else .ok (Bytes.ofWord lengthSize text.length ++ text)

end Multiplex.Rpc
