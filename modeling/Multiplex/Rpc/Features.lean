/-!
Features: context that travels with a request on its own side only, and never on the wire.
-/

namespace Multiplex.Rpc

inductive Feature
  | tenant
  | label
  /-- The time left for the request, in milliseconds. -/
  | deadline
  | remote
  deriving DecidableEq, Repr

def Feature.Value : Feature → Type
  | .tenant | .deadline => Nat
  | .label | .remote => String

def Feature.all : List Feature := [.tenant, .label, .deadline, .remote]

structure Features where
  get : (f : Feature) → Option f.Value

namespace Features

def empty : Features := ⟨fun _ => none⟩

instance : Inhabited Features := ⟨empty⟩

def update (fs : Features) (f : Feature) (value : Option f.Value) : Features :=
  ⟨fun g => if h : g = f then h ▸ value else fs.get g⟩

def set (fs : Features) (f : Feature) (value : f.Value) : Features := fs.update f (some value)

def erase (fs : Features) (f : Feature) : Features := fs.update f none

def contains (fs : Features) (f : Feature) : Bool := (fs.get f).isSome

/-- Overwrites a value that is there, and says whether it was. -/
def replace (fs : Features) (f : Feature) (value : f.Value) : Bool × Features :=
  if fs.contains f then (true, fs.set f value) else (false, fs)

def size (fs : Features) : Nat := Feature.all.countP fs.contains

def text (fs : Features) : String := s!"FeatureCollection \x7b len: {fs.size} \x7d"

end Features

end Multiplex.Rpc
