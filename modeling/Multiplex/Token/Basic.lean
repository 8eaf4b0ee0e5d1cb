/-!
Cancellation tokens. A token fires once and stays fired; it takes along those of its children that
somebody still holds.
-/

namespace Multiplex

structure Token where
  fired : Bool := false
  children : List Nat := []
  handles : Nat := 1
  /-- How often those who wait on it were told to look again. -/
  changes : Nat := 0
  /-- Whose child it is. It is kept for the record: nothing depends on it. -/
  parent : Option Nat := none
  deriving DecidableEq, Repr

namespace Token

def notify (p : Token) : Token := { p with changes := p.changes + 1 }

/-- Fires a token, tells those who wait on it, and lets go of its children. -/
def fire (p : Token) : Token := { p with fired := true, children := [] }.notify

end Token

/-- Every token there ever was, in the order of creation; elsewhere a token is its place here. -/
structure Tokens where
  all : List Token := []
  deriving DecidableEq, Repr

namespace Tokens

def isFired (t : Tokens) (i : Nat) : Bool :=
  match t.all[i]? with
  | some token => token.fired
  | none => false

def isHeld (t : Tokens) (i : Nat) : Bool :=
  match t.all[i]? with
  | some token => 0 < token.handles
  | none => false

/-- How often those who wait on a token were told to look again. -/
def signal (t : Tokens) (i : Nat) : Nat :=
  match t.all[i]? with
  | some token => token.changes
  | none => 0

def modify (t : Tokens) (i : Nat) (f : Token → Token) : Tokens := ⟨t.all.modify i f⟩

def new (t : Tokens) : Nat × Tokens := (t.all.length, ⟨t.all ++ [({} : Token)]⟩)

def child (t : Tokens) (parent : Nat) : Nat × Tokens :=
  let i := t.all.length
  let token : Token := { parent := some parent }
  if t.isFired parent then (i, ⟨t.all ++ [token.fire]⟩)
  else
    let added : Tokens := ⟨t.all ++ [token]⟩
    (i, added.modify parent fun p => { p with children := p.children.filter t.isHeld ++ [i] })

def hold (t : Tokens) (i : Nat) : Tokens := t.modify i fun p => { p with handles := p.handles + 1 }

def release (t : Tokens) (i : Nat) : Tokens :=
  t.modify i fun p => { p with handles := p.handles - 1 }

/-- Fires a token and those below it that are held. Every step down leads to a younger token, so
their number bounds the depth. -/
def cancelWithin : Nat → Tokens → Nat → Tokens
  | 0, t, _ => t
  | depth + 1, t, i =>
    match t.all[i]? with
    | none => t
    | some token =>
      if token.fired then t
      else
        let t := t.modify i Token.fire
        token.children.foldl
          (fun t child => if t.isHeld child then cancelWithin depth t child else t) t

def cancel (t : Tokens) (i : Nat) : Tokens := cancelWithin (t.all.length + 1) t i

end Tokens

end Multiplex
