import DecisionScore.Path

/-! # Command-line arguments

Arguments are read from the left.  A setting takes its value from the same argument or from the
next one; no option may be given twice; after `--` everything is a path.  The first argument that
cannot be read, or that asks for the version or for help, ends the reading. -/

namespace DecisionScore

/-- The forms of a report. -/
inductive Format where
  | text
  | json
deriving DecidableEq, Repr, Inhabited

/-- The form of a given name. -/
def Format.ofName? : String → Option Format
  | "text" => some text
  | "json" => some json
  | _ => none

/-- What the arguments ask for. -/
structure Request where
  paths : List Path := []
  /-- The tag of the language, where one is given. -/
  language : Option String := none
  /-- The form of the report, where one is given. -/
  format : Option Format := none
  /-- Whether the text is on the standard input. -/
  stdin : Bool := false
  /-- The configuration file, where one is given. -/
  config : Option Path := none
  verbose : Bool := false
deriving DecidableEq, Repr, Inhabited

namespace Command

/-- Why reading the arguments ends early. -/
inductive Stop where
  | usage
  | version
  | help
deriving DecidableEq, Repr

/-- Options without a value. -/
inductive Switch where
  | stdin
  | verbose
  | version
  | help
deriving DecidableEq, Repr

/-- Options with a value. -/
inductive Setting where
  | language
  | format
  | config
deriving DecidableEq, Repr

/-- The options. -/
inductive Flag where
  | switch (s : Switch)
  | setting (s : Setting)
deriving DecidableEq, Repr

/-- The option of a long name. -/
def Flag.ofLong? : String → Option Flag
  | "lang" => some (setting .language)
  | "format" => some (setting .format)
  | "config" => some (setting .config)
  | "stdin" => some (switch .stdin)
  | "verbose" => some (switch .verbose)
  | "version" => some (switch .version)
  | "help" => some (switch .help)
  | _ => none

/-- The option of a letter. -/
def Flag.ofShort? : Char → Option Flag
  | 'l' => some (setting .language)
  | 'f' => some (setting .format)
  | 'v' => some (switch .verbose)
  | 'V' => some (switch .version)
  | 'h' => some (switch .help)
  | _ => none

/-- Takes a switch into account. -/
def turnOn (r : Request) : Switch → Except Stop Request
  | .stdin => if r.stdin then .error .usage else .ok { r with stdin := true }
  | .verbose => if r.verbose then .error .usage else .ok { r with verbose := true }
  | .version => .error .version
  | .help => .error .help

/-- Takes the value of a setting into account.  The values of `--lang` and `--format` are texts,
while a path need not be one. -/
def assign (r : Request) (value : RawText) : Setting → Except Stop Request
  | .language =>
    match r.language, value.toText? with
    | none, some tag => .ok { r with language := some tag }
    | _, _ => .error .usage
  | .format =>
    match r.format, value.toText?.bind Format.ofName? with
    | none, some f => .ok { r with format := some f }
    | _, _ => .error .usage
  | .config =>
    if r.config.isSome || value.bytes.isEmpty then .error .usage
    else .ok { r with config := some ⟨value⟩ }

/-- Takes a path into account. -/
def addPath (r : Request) (value : RawText) : Except Stop Request :=
  if value.bytes.isEmpty then .error .usage else .ok { r with paths := r.paths ++ [⟨value⟩] }

/-- The byte that options start with. -/
def dash : UInt8 := 0x2d

/-- The byte before a value in the same argument. -/
def equals : UInt8 := 0x3d

/-- Reads letters in one argument; a setting that still needs its value is handed on. -/
def readShort (r : Request) : List UInt8 → Except Stop (Request × Option Setting)
  | [] => .ok (r, none)
  | b :: bs =>
    match Flag.ofShort? (Char.ofNat b.toNat) with
    | none => .error .usage
    | some (.switch s) =>
      match turnOn r s with
      | .ok r => readShort r bs
      | .error stop => .error stop
    | some (.setting s) =>
      if bs.isEmpty then .ok (r, some s)
      else if bs.head? = some equals then (assign r ⟨bs.drop 1⟩ s).map (·, none)
      else (assign r ⟨bs⟩ s).map (·, none)

/-- Reads a long name, which may have its value with it. -/
def readLong (r : Request) (body : List UInt8) : Except Stop (Request × Option Setting) :=
  let flag := (RawText.toText? ⟨body.takeWhile (· != equals)⟩).bind Flag.ofLong?
  match flag, body.dropWhile (· != equals) with
  | some (.switch s), [] => (turnOn r s).map (·, none)
  | some (.setting s), [] => .ok (r, some s)
  | some (.setting s), _ :: value => (assign r ⟨value⟩ s).map (·, none)
  | _, _ => .error .usage

/-- Whether an argument can be the value of the setting before it. -/
def isValue (arg : RawText) : Bool := arg.bytes.head? != some dash || arg.bytes == [dash]

/-- Reads one argument that is not a value. -/
def readOne (r : Request) (arg : RawText) : Except Stop (Request × Option Setting) :=
  if arg.bytes.take 2 = [dash, dash] then readLong r (arg.bytes.drop 2)
  else if arg.bytes.head? = some dash ∧ arg.bytes ≠ [dash] then readShort r (arg.bytes.drop 1)
  else (addPath r arg).map (·, none)

/-- Reads the arguments; `pending` is a setting that waits for its value. -/
def readFrom (pending : Option Setting) (r : Request) : List RawText → Except Stop Request
  | [] => if pending.isSome then .error .usage else .ok r
  | arg :: rest =>
    match pending with
    | some s =>
      if isValue arg then
        match assign r arg s with
        | .ok r => readFrom none r rest
        | .error stop => .error stop
      else .error .usage
    | none =>
      if arg.bytes = [dash, dash] then rest.foldlM addPath r
      else
        match readOne r arg with
        | .ok (r, pending) => readFrom pending r rest
        | .error stop => .error stop

/-- Reads the arguments of a run. -/
def readArguments (args : List RawText) : Except Stop Request := readFrom none {} args

end Command

end DecisionScore
