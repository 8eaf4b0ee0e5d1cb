import Multiplex.Rpc.Service

/-!
Handlers and middlewares that do what a short description says. They note what they see.
-/

namespace Multiplex.Rpc

inductive Action
  | read
  | chunk (max : Nat)
  | complete
  | pause (p : Pause)
  deriving DecidableEq, Repr

inductive Body
  | none
  /-- What the handler has read. -/
  | echo
  | source (s : Source)
  deriving DecidableEq, Repr

inductive Conclusion
  | fault (f : Fault)
  | reply (r : Reply) (body : Body)

def Conclusion.outcome (body : Bytes) : Conclusion → Except Fault Reply
  | .fault f => .error f
  | .reply r .none => .ok r
  | .reply r .echo => .ok { r with payload := some (.ofBytes body) }
  | .reply r (.source s) => .ok { r with payload := some s }

structure Handler where
  name : String
  actions : List Action := []
  conclusion : Conclusion

namespace Handler

variable {α : Type}

/-- Performs the actions, collecting what they read. The first one that fails ends them. -/
def perform : List Action → Bytes → (Except Error Bytes → Process α) → Process α
  | [], body, next => next (.ok body)
  | .read :: rest, body, next =>
    .all fun
      | .ok bs => perform rest (body ++ bs) next
      | .error e => next (.error e)
  | .chunk max :: rest, body, next =>
    .chunk max fun
      | .ok (some bs) => perform rest (body ++ bs) next
      | .ok none => .note .endOfPayload (perform rest body next)
      | .error e => next (.error e)
  | .complete :: rest, body, next => .complete (perform rest body next)
  | .pause .givenUp :: rest, body, next =>
    .pause .givenUp (.note .sawCancellation (perform rest body next))
  | .pause p :: rest, body, next => .pause p (perform rest body next)

def service (h : Handler) : Service := fun r =>
  .note (.entered ⟨h.name, r.text, r.oneway, r.fields, r.features⟩) <|
    .guard .dropped <|
      perform h.actions [] fun
        | .error e => .unguard (.note (.failed e) (.done (.error (.ofError e))))
        | .ok body =>
          let conclude : Process (Except Fault Reply) := .done (h.conclusion.outcome body)
          .unguard (if h.actions.isEmpty then conclude else .note (.body body) conclude)

end Handler

inductive Treatment
  | answer (r : Reply)
  | fault (f : Fault)
  | tenant (number : Nat)
  | pass
  | passThenFault (f : Fault)

def noteOutcome {α : Type} (name : String) (o : Except Fault Reply) (next : Process α) :
    Process α :=
  match o with
  | .ok reply => .note (.after name reply.status) next
  | .error f => .note (.faulted name f) next

def Treatment.middleware (name : String) (t : Treatment) : Middleware := fun next r =>
  .note (.before name r.path) <|
    match t with
    | .answer reply => .done (.ok reply)
    | .fault f => .done (.error f)
    | .tenant number =>
      (next { r with features := r.features.set .tenant number }).bind fun o =>
        noteOutcome name o (.done o)
    | .pass => (next r).bind fun o => noteOutcome name o (.done o)
    | .passThenFault f =>
      (next r).bind fun o =>
        noteOutcome name o <|
          match o with
          | .ok reply => .notes (Event.told reply.drop) (.done (.error f))
          | .error _ => .done (.error f)

end Multiplex.Rpc
