import Multiplex.Token.Basic

/-!
A scripted use of tokens: names that hold tokens, and waits that do.
-/

namespace Multiplex

namespace TokenSession

/-- Where a wait has got to: it looks at its token, registers with it, looks again, and sleeps. Once
registered it knows how often it had been told to look. -/
inductive Stage
  | looking
  | registering
  | registered (seen : Nat)
  | asleep (seen : Nat)
  deriving DecidableEq, Repr

structure Wait where
  label : Nat
  token : Nat
  stage : Stage := .looking
  deriving DecidableEq, Repr

inductive Progress
  | ends
  | goes (stage : Stage)
  | sleeps
  deriving DecidableEq, Repr

/-- What a wait does next. It registers before it looks the second time, so that it is told of
whatever happens after that look. -/
def Wait.progress (t : Tokens) (w : Wait) : Progress :=
  match w.stage with
  | .looking => if t.isFired w.token then .ends else .goes .registering
  | .registering => .goes (.registered (t.signal w.token))
  | .registered seen => if t.isFired w.token then .ends else .goes (.asleep seen)
  | .asleep seen => if t.signal w.token = seen then .sleeps else .goes .looking

/-- How many steps a wait is from its sleep, at most. One that has not seen the last change goes
round once more. -/
def Stage.ahead (signal : Nat) : Stage → Nat
  | .looking => 3
  | .registering => 2
  | .registered seen => if signal = seen then 1 else 5
  | .asleep seen => if signal = seen then 0 else 4

theorem Wait.ahead_lt {t : Tokens} {w : Wait} {stage : Stage} (h : w.progress t = .goes stage) :
    stage.ahead (t.signal w.token) < w.stage.ahead (t.signal w.token) := by
  unfold progress at h
  split at h
  · rename_i hw
    split at h <;> cases h
    simp [Stage.ahead,hw]
  · rename_i hw
    cases h
    simp [Stage.ahead,hw]
  · rename_i seen hw
    split at h <;> cases h
    simp only [Stage.ahead,hw]
    split <;> omega
  · rename_i seen hw
    split at h
    · cases h
    · rename_i hne
      cases h
      simp [Stage.ahead,hw,hne]

/-- Lets a wait go on until it sleeps. None is left of one that ends. -/
def Wait.rest (t : Tokens) (w : Wait) : Option Wait :=
  match h : w.progress t with
  | .ends => none
  | .goes stage =>
    have := w.ahead_lt h
    Wait.rest t { w with stage }
  | .sleeps => some w
termination_by w.stage.ahead (t.signal w.token)

end TokenSession

structure TokenSession where
  tokens : Tokens := {}
  names : List (String × Nat) := []
  waits : List TokenSession.Wait := []

namespace TokenSession

inductive Command
  | new (name : String)
  | child (name parent : String)
  | copy (name source : String)
  | drop (name : String)
  | wait (name : String)
  | cancel (name : String)

/-- Names a token that is already held for it. Whatever had the name loses it. -/
def bind (s : TokenSession) (name : String) (i : Nat) : TokenSession :=
  let old := s.names.lookup name
  let names := (name, i) :: s.names.filter (·.1 ≠ name)
  match old with
  | some old => { s with names, tokens := s.tokens.release old }
  | none => { s with names }

/-- Lets the wait at a place take one step, and gives it if it ends. Then it lets go of its
token. -/
def wake (s : TokenSession) (n : Nat) : List Wait × TokenSession :=
  match s.waits[n]? with
  | none => ([], s)
  | some w =>
    match w.progress s.tokens with
    | .ends => ([w], { s with waits := s.waits.eraseIdx n, tokens := s.tokens.release w.token })
    | .goes stage => ([], { s with waits := s.waits.set n { w with stage } })
    | .sleeps => ([], s)

/-- Lets every wait go on until it sleeps, and gives those that end. -/
def settle (s : TokenSession) : List Wait × TokenSession :=
  let ended := s.waits.filter fun w => (w.rest s.tokens).isNone
  (ended, { s with
    waits := s.waits.filterMap (·.rest s.tokens)
    tokens := ended.foldl (fun t w => t.release w.token) s.tokens })

def apply (s : TokenSession) (label : Nat) : Command → TokenSession
  | .new name =>
    let (i, tokens) := s.tokens.new
    { s with tokens }.bind name i
  | .child name parent =>
    match s.names.lookup parent with
    | some p =>
      let (i, tokens) := s.tokens.child p
      { s with tokens }.bind name i
    | none => s
  | .copy name source =>
    match s.names.lookup source with
    | some i => { s with tokens := s.tokens.hold i }.bind name i
    | none => s
  | .drop name =>
    match s.names.lookup name with
    | some i => { s with names := s.names.filter (·.1 ≠ name), tokens := s.tokens.release i }
    | none => s
  | .wait name =>
    match s.names.lookup name with
    | some i => { s with waits := s.waits ++ [{ label, token := i }], tokens := s.tokens.hold i }
    | none => s
  | .cancel name =>
    match s.names.lookup name with
    | some i => { s with tokens := s.tokens.cancel i }
    | none => s

def run (s : TokenSession) (label : Nat) (command : Command) : List Nat × TokenSession :=
  let (ended, s) := (s.apply label command).settle
  (ended.map (·.label), s)

end TokenSession

end Multiplex
