import Multiplex.Bytes

/-!
A strict reader of JSON text. A reader takes a value off the front of a byte string, blanks before
it included, or refuses.

Members that nobody asked for are only skimmed: their syntax is checked, but neither the depth of
their brackets nor whether their strings are well-formed text.
-/

namespace Multiplex.Json

abbrev Reader (α : Type) := Bytes → Option (α × Bytes)

def isBlank (b : UInt8) : Bool := b = 0x20 || b = 0x0a || b = 0x09 || b = 0x0d

def skipBlanks (bs : Bytes) : Bytes := bs.dropWhile isBlank

/-- The next byte that is not blank, and what follows it. -/
def next : Reader UInt8 := fun bs =>
  match skipBlanks bs with
  | [] => none
  | b :: rest => some (b, rest)

def punctuation (b : UInt8) (bs : Bytes) : Option Bytes :=
  match next bs with
  | some (c, rest) => if c = b then some rest else none
  | none => none

def keyword : Bytes → Bytes → Option Bytes
  | [], bs => some bs
  | _ :: _, [] => none
  | w :: ws, b :: bs => if w = b then keyword ws bs else none

def isDigit (b : UInt8) : Bool := 0x30 ≤ b && b ≤ 0x39

def hexDigit? (b : UInt8) : Option Nat :=
  if isDigit b then some (b.toNat - 0x30)
  else if 0x41 ≤ b && b ≤ 0x46 then some (b.toNat - 0x41 + 10)
  else if 0x61 ≤ b && b ≤ 0x66 then some (b.toNat - 0x61 + 10)
  else none

def hexDigits? (a b c d : UInt8) : Option Nat := do
  return ((((← hexDigit? a) * 16 + (← hexDigit? b)) * 16 + (← hexDigit? c)) * 16 + (← hexDigit? d))

def simpleEscape? : UInt8 → Option UInt8
  | 0x22 => some 0x22
  | 0x5c => some 0x5c
  | 0x2f => some 0x2f
  | 0x62 => some 0x08
  | 0x66 => some 0x0c
  | 0x6e => some 0x0a
  | 0x72 => some 0x0d
  | 0x74 => some 0x09
  | _ => none

def isLeading (n : Nat) : Bool := 0xd800 ≤ n && n ≤ 0xdbff

def isTrailing (n : Nat) : Bool := 0xdc00 ≤ n && n ≤ 0xdfff

def codePoint (n : Nat) : Bytes := Bytes.ofString (String.singleton (Char.ofNat n))

def hexDigits : Reader Nat
  | a :: b :: c :: d :: rest => (hexDigits? a b c d).map (·, rest)
  | _ => none

/-- What an escape stands for whose backslash and letter `u` were read. Surrogates have to come in
pairs. -/
def unicodeEscape : Reader Bytes := fun bs => do
  let (n, rest) ← hexDigits bs
  if isTrailing n then none
  else if isLeading n then
    let (m, rest) ← hexDigits (← keyword [0x5c, 0x75] rest)
    if isTrailing m then some (codePoint (0x10000 + (n - 0xd800) * 0x400 + (m - 0xdc00)), rest)
    else none
  else some (codePoint n, rest)

def escape : Reader Bytes
  | [] => none
  | e :: rest => if e = 0x75 then unicodeEscape rest else (simpleEscape? e).map ([·], rest)

/-- The bytes of a string whose opening quote was read, behind those in `done`, newest first. -/
def stringBytes : Nat → Bytes → Bytes → Option (Bytes × Bytes)
  | 0, _, _ => none
  | _ + 1, _, [] => none
  | fuel + 1, done, b :: rest =>
    if b = 0x22 then some (done.reverse, rest)
    else if b = 0x5c then
      match escape rest with
      | some (content, rest) => stringBytes fuel (content.reverse ++ done) rest
      | none => none
    else if b < 0x20 then none
    else stringBytes fuel (b :: done) rest

def openedString : Reader String := fun bs =>
  match stringBytes bs.length [] bs with
  | some (content, rest) => (Bytes.toString? content).map (·, rest)
  | none => none

def string : Reader String := fun bs =>
  match punctuation 0x22 bs with
  | some rest => openedString rest
  | none => none

def byte : Reader UInt8 := fun bs =>
  let digits := (skipBlanks bs).takeWhile isDigit
  let rest := (skipBlanks bs).dropWhile isDigit
  let value := digits.foldl (fun n d => n * 10 + (d.toNat - 0x30)) 0
  match digits with
  | [] => none
  | d :: more =>
    if d = 0x30 && !more.isEmpty || 255 < value then none
    else match rest with
      | 0x2e :: _ | 0x65 :: _ | 0x45 :: _ => none
      | _ => some (UInt8.ofNat value, rest)

/-- Elements of an array up to its closing bracket, behind those in `done`, newest first. -/
def elements {α : Type} (element : Reader α) : Nat → List α → Bytes → Option (List α × Bytes)
  | 0, _, _ => none
  | fuel + 1, done, bs =>
    match element bs with
    | none => none
    | some (a, rest) =>
      match next rest with
      | some (0x2c, rest') => elements element fuel (a :: done) rest'
      | some (0x5d, rest') => some ((a :: done).reverse, rest')
      | _ => none

/-- An array of any length. Every element takes up a byte at least, so the length of the text bounds
their number. -/
def array {α : Type} (element : Reader α) : Reader (List α) := fun bs =>
  match punctuation 0x5b bs with
  | none => none
  | some rest =>
    match punctuation 0x5d rest with
    | some rest' => some ([], rest')
    | none => elements element rest.length [] rest

/-- Members of an object up to its closing brace, each taken into the state by `member`. -/
def members {σ : Type} (member : String → σ → Reader σ) : Nat → σ → Bytes → Option (σ × Bytes)
  | 0, _, _ => none
  | fuel + 1, s, bs =>
    match string bs with
    | none => none
    | some (key, rest) =>
      match punctuation 0x3a rest with
      | none => none
      | some rest =>
        match member key s rest with
        | none => none
        | some (s, rest) =>
          match next rest with
          | some (0x2c, rest') => members member fuel s rest'
          | some (0x7d, rest') => some (s, rest')
          | _ => none

def openedObject {σ : Type} (member : String → σ → Reader σ) (s : σ) : Reader σ := fun bs =>
  match punctuation 0x7d bs with
  | some rest => some (s, rest)
  | none => members member bs.length s bs

def object {σ : Type} (member : String → σ → Reader σ) (s : σ) : Reader σ := fun bs =>
  match punctuation 0x7b bs with
  | some rest => openedObject member s rest
  | none => none

def nullable {α : Type} (value : Reader α) : Reader (Option α) := fun bs =>
  match next bs with
  | some (0x6e, rest) => (keyword [0x75, 0x6c, 0x6c] rest).map (none, ·)
  | _ => (value bs).map fun (a, rest) => (some a, rest)

/-- A name out of a list, as a string or as an object that maps it to `null`. -/
def name {α : Type} (ofName? : String → Option α) : Reader α := fun bs =>
  match next bs with
  | some (0x22, rest) =>
    match openedString rest with
    | some (s, rest) => (ofName? s).map (·, rest)
    | none => none
  | some (0x7b, rest) => do
    let (s, rest) ← string rest
    let a ← ofName? s
    let rest ← punctuation 0x3a rest
    let rest ← keyword [0x6e, 0x75, 0x6c, 0x6c] (skipBlanks rest)
    let rest ← punctuation 0x7d rest
    return (a, rest)
  | _ => none

def whole {α : Type} (reader : Reader α) (bs : Bytes) : Option α :=
  match reader bs with
  | some (a, rest) => if (skipBlanks rest).isEmpty then some a else none
  | none => none

def skimEscape : Bytes → Option Bytes
  | [] => none
  | e :: rest =>
    if e = 0x75 then (hexDigits rest).map (·.2) else (simpleEscape? e).map fun _ => rest

/-- What follows a string whose opening quote was read; only escapes and control characters are
looked at. -/
def skimString : Nat → Bytes → Option Bytes
  | 0, _ => none
  | _ + 1, [] => none
  | fuel + 1, b :: rest =>
    if b = 0x22 then some rest
    else if b = 0x5c then (skimEscape rest).bind (skimString fuel)
    else if b < 0x20 then none
    else skimString fuel rest

def skimExponent (bs : Bytes) : Option Bytes :=
  let digits (rest : Bytes) : Option Bytes :=
    match rest with
    | d :: rest => if isDigit d then some (rest.dropWhile isDigit) else none
    | [] => none
  let signed (rest : Bytes) : Option Bytes :=
    match rest with
    | 0x2b :: rest | 0x2d :: rest => digits rest
    | _ => digits rest
  match bs with
  | 0x65 :: rest | 0x45 :: rest => signed rest
  | _ => some bs

def skimFraction : Bytes → Option Bytes
  | 0x2e :: d :: rest => if isDigit d then skimExponent (rest.dropWhile isDigit) else none
  | [0x2e] => none
  | bs => skimExponent bs

def skimNumber : Bytes → Option Bytes
  | 0x30 :: d :: rest => if isDigit d then none else skimFraction (d :: rest)
  | [0x30] => some []
  | d :: rest => if isDigit d then skimFraction (rest.dropWhile isDigit) else none
  | [] => none

inductive Bracket
  | square
  | curly
  deriving DecidableEq, Repr

inductive Expected
  | value
  | member
  /-- A comma or a closing bracket, or nothing at the outermost level. -/
  | rest
  deriving DecidableEq, Repr

/-- What follows the value that `expected` within the open brackets `around` belongs to. -/
def skimWithin : Nat → Expected → List Bracket → Bytes → Option Bytes
  | 0, _, _, _ => none
  | fuel + 1, .value, around, bs =>
    match next bs with
    | some (0x6e, rest) => (keyword [0x75, 0x6c, 0x6c] rest).bind (skimWithin fuel .rest around)
    | some (0x74, rest) => (keyword [0x72, 0x75, 0x65] rest).bind (skimWithin fuel .rest around)
    | some (0x66, rest) =>
      (keyword [0x61, 0x6c, 0x73, 0x65] rest).bind (skimWithin fuel .rest around)
    | some (0x22, rest) => (skimString rest.length rest).bind (skimWithin fuel .rest around)
    | some (0x2d, rest) => (skimNumber rest).bind (skimWithin fuel .rest around)
    | some (0x5b, rest) =>
      match punctuation 0x5d rest with
      | some rest => skimWithin fuel .rest around rest
      | none => skimWithin fuel .value (.square :: around) rest
    | some (0x7b, rest) =>
      match punctuation 0x7d rest with
      | some rest => skimWithin fuel .rest around rest
      | none => skimWithin fuel .member (.curly :: around) rest
    | some (b, rest) => (skimNumber (b :: rest)).bind (skimWithin fuel .rest around)
    | none => none
  | fuel + 1, .member, around, bs =>
    (punctuation 0x22 bs).bind (fun rest => skimString rest.length rest) |>.bind (punctuation 0x3a)
      |>.bind (skimWithin fuel .value around)
  | _ + 1, .rest, [], bs => some bs
  | fuel + 1, .rest, bracket :: around, bs =>
    match bracket, next bs with
    | .square, some (0x2c, rest) => skimWithin fuel .value (bracket :: around) rest
    | .square, some (0x5d, rest) => skimWithin fuel .rest around rest
    | .curly, some (0x2c, rest) => skimWithin fuel .member (bracket :: around) rest
    | .curly, some (0x7d, rest) => skimWithin fuel .rest around rest
    | _, _ => none

/-- What follows any value. Every step but the last takes a byte at least. -/
def skim (bs : Bytes) : Option Bytes := skimWithin (bs.length + 1) .value [] bs

end Multiplex.Json
