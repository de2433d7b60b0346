/-!
# The arguments of the command line

Two arguments are positions: the tree and the selector. The others are flags, which may stand
anywhere and at most once each. Behind `--` every argument is a position. The arguments are read from
left to right, and the first that cannot be read decides; asking for help or for the version ends
the reading. What flags and positions have to do with each other is checked last.
-/

namespace TreeQuery.Command

/-- The flags of the command line. -/
inductive Flag where
  /-- Print the first match only. -/
  | first
  /-- Test the document element instead of searching. -/
  | matches
  /-- Print inner markup. -/
  | inner
  /-- Print the number of matches. -/
  | count
  /-- Take the tree from the argument itself. -/
  | htmlJson
  deriving DecidableEq

/-- All flags. -/
def Flag.all : List Flag := [.first, .matches, .inner, .count, .htmlJson]

/-- The argument that sets a flag. -/
def Flag.argument : Flag → String
  | .first => "--first"
  | .matches => "--matches"
  | .inner => "--inner"
  | .count => "--count"
  | .htmlJson => "--html-json"

/-- What a command line asks for. -/
structure Options where
  tree : String
  selector : String
  flags : List Flag

/-- Whether a flag is set. -/
def Options.has (options : Options) (flag : Flag) : Bool := options.flags.contains flag

/-- Why a command line cannot be read. -/
inductive UsageError where
  /-- No position or flag takes this argument. -/
  | unexpected (argument : String)
  /-- A flag is set twice. -/
  | repeated (flag : Flag)
  /-- The tree or the selector is missing. -/
  | incomplete
  /-- Two flags exclude each other. -/
  | conflict (flag other : Flag)

/-- The words for a command line that cannot be read. -/
def UsageError.message : UsageError → String
  | .unexpected argument => s!"error: unexpected argument '{argument}' found"
  | .repeated flag =>
    let name := flag.argument
    s!"error: the argument '{name}' cannot be used multiple times"
  | .incomplete => "error: the following required arguments were not provided: <TREE> <SELECTOR>"
  | .conflict flag other =>
    let name := flag.argument
    let second := other.argument
    s!"error: the argument '{name}' cannot be used with '{second}'"

/-- What a command line comes to. -/
inductive Invocation where
  /-- A query is to be made. -/
  | query (options : Options)
  /-- The version is to be printed. -/
  | version
  /-- The help text is to be printed. -/
  | help
  /-- The command line cannot be read. -/
  | misuse (error : UsageError)

/-- What has been read of a command line: its positions and its flags. -/
structure Reading where
  positions : List String
  flags : List Flag

namespace Reading

/-- Take an argument as a position. -/
def position (reading : Reading) (argument : String) : Except UsageError Reading :=
  if reading.positions.length < 2 then
    .ok { reading with positions := reading.positions ++ [argument] }
  else .error (.unexpected argument)

/-- Set a flag. -/
def set (reading : Reading) (flag : Flag) : Except UsageError Reading :=
  if reading.flags.contains flag then .error (.repeated flag)
  else .ok { reading with flags := reading.flags ++ [flag] }

/-- Take all arguments as positions. -/
def takePositions (reading : Reading) (arguments : List String) : Except UsageError Reading :=
  arguments.foldlM position reading

/-- Check what has been read as a whole. -/
def finish (reading : Reading) : Invocation :=
  match reading.positions with
  | [tree, selector] =>
    if reading.flags.contains .matches then
      if reading.flags.contains .first then .misuse (.conflict .first .matches)
      else if reading.flags.contains .count then .misuse (.conflict .count .matches)
      else .query ⟨tree, selector, reading.flags⟩
    else .query ⟨tree, selector, reading.flags⟩
  | _ => .misuse .incomplete

/-- Check what has been read as a whole, unless reading it failed. -/
def conclude : Except UsageError Reading → Invocation
  | .ok reading => reading.finish
  | .error error => .misuse error

end Reading

/-- What one argument in front of `--` is. -/
inductive Argument where
  | sets (flag : Flag)
  | position
  | version
  | help
  | separator
  | unknown

/-- Tell what an argument in front of `--` is. A lone dash and the empty text are positions, and a
bundle of short options counts by its first. -/
def Argument.of (argument : String) : Argument :=
  match Flag.all.find? fun flag => flag.argument == argument with
  | some flag => .sets flag
  | none =>
    match argument.toList with
    | ['-', '-'] => .separator
    | '-' :: '-' :: _ =>
      if argument == "--version" then .version else if argument == "--help" then .help else .unknown
    | '-' :: 'V' :: _ => .version
    | '-' :: 'h' :: _ => .help
    | '-' :: _ :: _ => .unknown
    | _ => .position

/-- Read arguments behind what has been read already. -/
def Reading.extend (reading : Reading) : List String → Invocation
  | [] => reading.finish
  | argument :: rest =>
    match Argument.of argument with
    | .sets flag =>
      match reading.set flag with
      | .ok reading => reading.extend rest
      | .error error => .misuse error
    | .position =>
      match reading.position argument with
      | .ok reading => reading.extend rest
      | .error error => .misuse error
    | .version => .version
    | .help => .help
    | .separator => Reading.conclude (reading.takePositions rest)
    | .unknown => .misuse (.unexpected argument)

/-- Read a command line. -/
def Invocation.read (arguments : List String) : Invocation := Reading.extend ⟨[], []⟩ arguments

end TreeQuery.Command
