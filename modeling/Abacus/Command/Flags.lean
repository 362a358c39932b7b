import Abacus.Text.Quoted

/-!
The flags of the command line.

A flag is a name after one or two dashes. Its value follows after `=`, or is the next argument; a switch needs
no value and takes one only after `=`. Flags end at the first argument that is none, and after `--`.
-/

namespace Abacus

structure Options where
  prec : Nat := 64
  format : String := "%g"
  given : List Text := []
  echo : Bool := false
  constants : Bool := false
  prompt : String := "> "
  verbose : Bool := false
  help : Bool := false

inductive FlagError where
  | badShape (arg : String)
  | undefined (name : String)
  | needsArgument (name : String)
  | badValue (value name reason : String)
  | badSwitch (value name : String)
  | twoForms (later earlier : String)
deriving DecidableEq

namespace FlagError

def message : FlagError → String
  | .badShape arg => "bad flag syntax: " ++ arg
  | .undefined name => "flag provided but not defined: -" ++ name
  | .needsArgument name => "flag needs an argument: -" ++ name
  | .badValue value name reason =>
    "invalid value " ++ Text.quoteString value ++ " for flag -" ++ name ++ ": " ++ reason
  | .badSwitch value name =>
    "invalid boolean value " ++ Text.quoteString value ++ " for -" ++ name ++ ": parse error"
  | .twoForms later earlier =>
    "Cannot use two forms of the same flag: " ++ later ++ " " ++ earlier

end FlagError

namespace Flags

def digitValue? (c : Char) : Option Nat :=
  if c.isDigit then some (c.toNat - '0'.toNat)
  else if c.isAlpha then some (c.toLower.toNat - 'a'.toNat + 10)
  else none

/-- The base that a number's first characters tell, and its digits. -/
def splitBase : List Char → Nat × List Char
  | '0' :: mark :: digit :: rest =>
    match mark.toLower with
    | 'b' => (2, digit :: rest)
    | 'o' => (8, digit :: rest)
    | 'x' => (16, digit :: rest)
    | _ => (8, mark :: digit :: rest)
  | '0' :: rest => (8, rest)
  | digits => (10, digits)

/-- The value of digits, if they are below `limit` all the way. Underscores do not count. -/
def digitsValue (base limit : Nat) : (value : Nat) → List Char → Except String Nat
  | value, [] => .ok value
  | value, c :: rest =>
    if c = '_' then digitsValue base limit value rest
    else match digitValue? c with
      | none => .error "parse error"
      | some d =>
        if d ≥ base then .error "parse error"
        else if base * value + d ≥ limit then .error "value out of range"
        else digitsValue base limit (base * value + d) rest

/-- Whether each underscore stands between two digits. A base mark counts as one. -/
def underscoresSeparate (afterDigit : Bool) : List Char → Bool
  | [] => true
  | '_' :: next :: rest => afterDigit && next ≠ '_' && underscoresSeparate false (next :: rest)
  | ['_'] => false
  | _ :: rest => underscoresSeparate true rest

/-- A natural number below 2^64. A leading zero tells the base, as in `0x20`, and underscores may separate
digits. -/
def parseNat (text : String) : Except String Nat :=
  let chars := text.toList
  if chars.isEmpty then .error "parse error"
  else
    let (base, digits) := splitBase chars
    match digitsValue base (1 <<< 64) 0 digits with
    | .error e => .error e
    | .ok value =>
      if underscoresSeparate (base ≠ 10) digits then .ok value else .error "parse error"

def parseSwitch? (text : String) : Option Bool :=
  if text ∈ ["1", "t", "T", "TRUE", "true", "True"] then some true
  else if text ∈ ["0", "f", "F", "FALSE", "false", "False"] then some false
  else none

inductive Kind where
  | switch (set : Bool → Options → Options)
  | value (set : String → Options → Except String Options)

def splitGiven (value : String) : List Text :=
  ((Text.ofString value).splitAt ',').map Text.trim

def kind? (name : String) : Option Kind :=
  match name with
  | "prec" | "p" => some (.value fun v o => (parseNat v).map fun prec => { o with prec })
  | "fmt" => some (.value fun v o => .ok { o with format := v })
  | "given" => some (.value fun v o => .ok { o with given := o.given ++ splitGiven v })
  | "prompt" => some (.value fun v o => .ok { o with prompt := v })
  | "echo" => some (.switch fun b o => { o with echo := b })
  | "constants" => some (.switch fun b o => { o with constants := b })
  | "verbose" | "v" => some (.switch fun b o => { o with verbose := b })
  | "help" | "h" => some (.switch fun b o => { o with help := b })
  | _ => none

def twoNames : List (String × String) :=
  [("prec", "p"), ("verbose", "v"), ("help", "h")]

/-- The name and the value after `=`, which cannot be the first character. -/
def splitValue : List Char → List Char × Option (List Char)
  | [] => ([], none)
  | c :: rest =>
    match rest.idxOf? '=' with
    | some i => (c :: rest.take i, some (rest.drop (i + 1)))
    | none => (c :: rest, none)

/-- The text of a flag without its dashes; none for an argument that is no flag. -/
def afterDashes? (arg : String) : Option (List Char) :=
  match arg.toList with
  | '-' :: '-' :: rest => some rest
  | '-' :: c :: rest => some (c :: rest)
  | _ => none

/-- What was read so far: the names that were used, and what they say. -/
structure Progress where
  used : List String := []
  options : Options := {}

def Progress.use (p : Progress) (name : String) (options : Options) : Progress :=
  { used := name :: p.used, options }

def helpKind? (name : String) : Option Kind :=
  if name = "help" ∨ name = "h" then kind? name else none

/-- Reads flags of the given kinds. Returns what was read before the end or before an error, and the
arguments after the flags. -/
def read (kinds : String → Option Kind) (p : Progress) :
    List String → Progress × Except FlagError (List String)
  | [] => (p, .ok [])
  | arg :: rest =>
    if arg = "--" then (p, .ok rest)
    else match afterDashes? arg with
      | none => (p, .ok (arg :: rest))
      | some text =>
        if text.isEmpty || text.head? = some '-' || text.head? = some '=' then
          (p, .error (.badShape arg))
        else
          let (nameChars, valueChars) := splitValue text
          let name := String.ofList nameChars
          match kinds name, valueChars.map String.ofList with
          | none, _ => (p, .error (.undefined name))
          | some (.switch set), none => read kinds (p.use name (set true p.options)) rest
          | some (.switch set), some value =>
            match parseSwitch? value with
            | some b => read kinds (p.use name (set b p.options)) rest
            | none => (p, .error (.badSwitch value name))
          | some (.value set), some value =>
            match set value p.options with
            | .ok options => read kinds (p.use name options) rest
            | .error reason => (p, .error (.badValue value name reason))
          | some (.value set), none =>
            match rest with
            | [] => (p, .error (.needsArgument name))
            | value :: rest =>
              match set value p.options with
              | .ok options => read kinds (p.use name options) rest
              | .error reason => (p, .error (.badValue value name reason))

def doubled? (used : List String) : Option FlagError :=
  (twoNames.find? fun (first, second) => used.contains first && used.contains second).map
    fun (first, second) => .twoForms second first

end Flags

end Abacus
