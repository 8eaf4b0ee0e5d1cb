import Multiplex.Link
import Multiplex.Proofs.Accord
import Multiplex.Proofs.Greeting

/-!
Two ends over a pipe in each direction, and everything that can happen to them, in any order. Any
part of what is in a pipe may be the part that is seen, and it may have any room.
-/

namespace Multiplex

/-- Two ends and their pipes. -/
structure Duplex where
  near : Station
  far : Station
  forth : Pipe := { capacity := 0 }
  back : Pipe := { capacity := 0 }

namespace Duplex

def swap (x : Duplex) : Duplex := ⟨x.far, x.near, x.back, x.forth⟩

def station (x : Duplex) : Side → Station
  | .near => x.near
  | .far => x.far

def connection (x : Duplex) (side : Side) : Connection := (x.station side).connection

def actNear (x : Duplex) (e : Event) : Duplex :=
  let (near, forth, back) := x.near.act x.forth x.back e
  { x with near, forth, back }

def act (x : Duplex) : Side × Event → Duplex
  | (.near, e) => x.actNear e
  | (.far, e) => (x.swap.actNear e).swap

def run (x : Duplex) (events : List (Side × Event)) : Duplex := events.foldl act x

/-- How the two ends are set up. Both check identities or neither does. -/
structure Setup where
  near : Options := {}
  far : Options := {}
  nearCodes : CodeSpace
  farCodes : CodeSpace
  names : Option (Identity × Identity) := none

/-- A client and a server to which nothing has happened. -/
def start (s : Setup) : Duplex where
  near := .fresh .client s.near s.nearCodes (.of s.names)
  far := .fresh .server s.far s.farCodes (.of (s.names.map Prod.swap))

end Duplex

end Multiplex
