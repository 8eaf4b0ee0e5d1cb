/-!
Letting things happen by themselves until nothing can.
-/

namespace Multiplex

variable {σ : Type}

/-- Takes steps until there is none to take, or `fuel` of them were taken. -/
def settle (next : σ → Option σ) : Nat → σ → σ
  | 0, s => s
  | fuel + 1, s =>
    match next s with
    | some s => settle next fuel s
    | none => s

/-- More steps than any script needs. -/
def patience : Nat := 100000000

def quiesce (next : σ → Option σ) (s : σ) : σ := settle next patience s

end Multiplex
