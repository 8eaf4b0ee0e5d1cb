/-!
Service addresses: a path, and optionally the server it is on.
-/

namespace Multiplex.Rpc

def trimSlashes (cs : List Char) : List Char :=
  ((cs.dropWhile (· == '/')).reverse.dropWhile (· == '/')).reverse

/-- One slash in front, and none at the end except for the root. -/
def normalizePath (path : String) : String := String.ofList ('/' :: trimSlashes path.toList)

structure Address where
  server : Option String := none
  path : String
  deriving DecidableEq, Repr

namespace Address

def scheme : String := "skein"

def ofPath (path : String) : Address := { path := normalizePath path }

def withServer (a : Address) (server : String) : Address := { a with server := some server }

def after? : List Char → List Char → Option (List Char)
  | [], cs => some cs
  | _ :: _, [] => none
  | f :: front, c :: cs => if f = c then after? front cs else none

/-- A text that starts with a slash is a path; else it is the scheme, a server that is not empty,
and the path from the next slash on. -/
def parse? (s : String) : Option Address :=
  if s.toList.head? = some '/' then some (ofPath s)
  else
    match after? (scheme.toList ++ [':', '/', '/']) s.toList with
    | none => none
    | some rest =>
      let server := rest.takeWhile (· != '/')
      if server.isEmpty then none
      else some
        ((ofPath (String.ofList (rest.dropWhile (· != '/')))).withServer (String.ofList server))

def text (a : Address) : String :=
  match a.server with
  | some server => scheme ++ "://" ++ server ++ a.path
  | none => a.path

end Address

end Multiplex.Rpc
