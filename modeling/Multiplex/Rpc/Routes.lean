import Multiplex.Rpc.Address
import Multiplex.Rpc.Service

/-!
Route tables: services by exact path, and services mounted on a path and everything below it.
-/

namespace Multiplex.Rpc

/-- A table of values of type `σ`, each under a normalized path. -/
structure Routes (σ : Type) where
  exact : List (String × σ) := []
  /-- Each also for the paths below. -/
  mounted : List (String × σ) := []

namespace Routes

variable {σ : Type}

/-- Puts a value under a path; one that was there is replaced. -/
def insert (path : String) (value : σ) : List (String × σ) → List (String × σ)
  | [] => [(path, value)]
  | (p, v) :: rest => if p = path then (p, value) :: rest else (p, v) :: insert path value rest

def map (t : Routes σ) (path : String) (value : σ) : Routes σ :=
  { t with exact := insert (normalizePath path) value t.exact }

def mount (t : Routes σ) (path : String) (value : σ) : Routes σ :=
  { t with mounted := insert (normalizePath path) value t.mounted }

def isUnder (path base : String) : Bool :=
  base = "/" ||
    match Address.after? base.toList path.toList with
    | some [] => true
    | some (c :: _) => c = '/'
    | none => false

def longest (entries : List (String × σ)) : Option (String × σ) :=
  entries.foldl (fun best e =>
    match best with
    | some b => if b.1.length ≤ e.1.length then some e else some b
    | none => some e) none

/-- The value for a normalized path: the one for exactly this path, else the one mounted deepest. -/
def resolve (t : Routes σ) (path : String) : Option σ :=
  match t.exact.lookup path with
  | some value => some value
  | none => (longest (t.mounted.filter fun e => isUnder path e.1)).map (·.2)

end Routes

def Routes.service (t : Routes Service) : Service := fun r =>
  match t.resolve (normalizePath r.path) with
  | some s => s r
  | none => .done (.ok (.notFound (normalizePath r.path)))

structure Router where
  middlewares : List Middleware := []
  routes : Routes Service := {}

def Router.service (r : Router) : Service := compose r.middlewares r.routes.service

end Multiplex.Rpc
