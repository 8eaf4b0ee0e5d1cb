import Multiplex.Rpc.Error

/-!
A network in memory: listeners bound to addresses, and connections that wait to be accepted.
-/

namespace Multiplex

open Rpc (NetworkFault)

structure Listener (α : Type) where
  address : String
  /-- Connections that were not accepted yet, oldest first, and what the callers are called. -/
  queue : List (α × String) := []
  live : Bool := true

structure Network (α : Type) where
  /-- Every listener there ever was, in the order of binding; elsewhere one is its place here. -/
  listeners : List (Listener α) := []
  registry : List (String × Nat) := []
  /-- How many have called, with or without success. The number has no bound here; in a word of 64
  bits it would come round, and names with it, after that many calls. -/
  callers : Nat := 0

namespace Network

variable {α : Type}

def isLive (n : Network α) (i : Nat) : Bool := n.listeners[i]?.any (·.live)

def unregister (n : Network α) (address : String) : List (String × Nat) :=
  n.registry.filter (·.1 ≠ address)

def bind (n : Network α) (address : String) : Except NetworkFault (Nat × Network α) :=
  if (n.registry.lookup address).any n.isLive then .error (.alreadyBound address)
  else
    let i := n.listeners.length
    .ok (i, { n with
      listeners := n.listeners ++ [{ address }]
      registry := (address, i) :: n.unregister address })

def callerName (number : Nat) : String := s!"memory-client-{number}"

/-- Calls an address with a connection. Every caller gets a name of its own. -/
def connect (n : Network α) (address : String) (connection : α) :
    Except NetworkFault Unit × Network α :=
  let n := { n with callers := n.callers + 1 }
  match n.registry.lookup address with
  | none => (.error (.nothingListening address), n)
  | some i =>
    if n.isLive i then
      (.ok (), { n with listeners := n.listeners.modify i fun l =>
        { l with queue := l.queue ++ [(connection, callerName n.callers)] } })
    else (.error (.listenerClosed address), n)

/-- Takes the oldest connection off a listener; none if there is nothing to take yet. A listener
that can no longer be called, and has nothing left, fails. -/
def accept (n : Network α) (i : Nat) : Option (Except NetworkFault ((α × String) × Network α)) :=
  match n.listeners[i]? with
  | some l =>
    match l.queue with
    | first :: rest =>
      some (.ok (first, { n with
        listeners := n.listeners.modify i fun l => { l with queue := rest } }))
    | [] => if n.registry.any (·.2 = i) then none else some (.error .unbound)
  | none => none

/-- Drops a listener, with what is called at its address, and gives the connections that nobody
accepted. -/
def unbind (n : Network α) (i : Nat) : List α × Network α :=
  match n.listeners[i]? with
  | some l =>
    if l.live then
      (l.queue.map (·.1), { n with
        registry := n.unregister l.address
        listeners := n.listeners.modify i fun l => { l with queue := [], live := false } })
    else ([], n)
  | none => ([], n)

end Network

end Multiplex
