import StagedCompiler.Project.Report

/-!
# The command line

`Command.parse?` reads the arguments of the program, from left to right and up to the first that ends
the reading: a mistake, or a wish for help or the version.  `Command.run` does what was asked for.
-/

namespace StagedCompiler

/-- The shells that completions can be written for. -/
inductive Shell : Type where
  | bash
  | elvish
  | fish
  | powershell
  | zsh
  deriving DecidableEq, Repr

namespace Shell

/-- The name of a shell. -/
def text : Shell → String
  | .bash => "bash"
  | .elvish => "elvish"
  | .fish => "fish"
  | .powershell => "powershell"
  | .zsh => "zsh"

/-- The shell that a name stands for. -/
def ofText? (s : String) : Option Shell :=
  [Shell.bash, .elvish, .fish, .powershell, .zsh].find? fun shell => shell.text == s

end Shell

/-- What the program is asked to do. -/
inductive Command : Type where
  | check (config : Path)
  | build (config : Path) (outDir : Option Path) (target : Option Target) (snapshots : Option Path)
  | explain (config : Path)
  | completions (shell : Shell)
  | help
  | version
  deriving Repr

namespace Command

/-- The commands by name. -/
inductive Verb : Type where
  | check
  | build
  | explain
  | completions
  deriving DecidableEq, Repr

/-- The command that a name stands for. -/
def Verb.ofText? : String → Option Verb
  | "check" => some .check
  | "build" => some .build
  | "explain" => some .explain
  | "completions" => some .completions
  | _ => none

/-- A value that a command can be given. -/
inductive Key : Type where
  | config
  | outDir
  | target
  | snapshots
  deriving DecidableEq, Repr

/-- The values that a command takes, with their long and short names. -/
def Verb.keys : Verb → List (Key × String × Option Char)
  | .check | .explain => [(.config, "config", some 'c')]
  | .build =>
    [(.config, "config", some 'c'), (.outDir, "out-dir", some 'o'), (.target, "target", some 't'),
      (.snapshots, "snapshots", none)]
  | .completions => []

/-- An argument, taken apart. -/
inductive Argument : Type where
  /-- Two dashes: only plain words follow. -/
  | separator
  /-- A long name, with the value behind its equals sign. -/
  | long (name : String) (value : Option String)
  /-- Short names behind one dash. -/
  | short (names : List Char)
  | word (text : String)

/-- The text in front of the first equals sign and the text behind it. -/
def splitEquals : List Char → List Char × Option (List Char)
  | [] => ([], none)
  | c :: rest =>
    if c == '=' then ([], some rest)
    else let (front, back) := splitEquals rest; (c :: front, back)

/-- Take an argument apart.  A single dash is a plain word. -/
def Argument.ofText (s : String) : Argument :=
  match s.toList with
  | ['-', '-'] => .separator
  | '-' :: '-' :: cs =>
    let (name, value) := splitEquals cs
    .long (String.ofList name) (value.map String.ofList)
  | '-' :: c :: cs => .short (c :: cs)
  | _ => .word s

/-- How reading arguments ends before their end. -/
inductive Early : Type where
  | usage
  | help
  | version
  deriving DecidableEq, Repr

/-- What has been read of a command's arguments. -/
structure Given : Type where
  verbose : Bool := false
  values : List (Key × String) := []
  words : List String := []

/-- Take note of the verbose flag, which can be given once. -/
def Given.addVerbose (g : Given) : Except Early Given :=
  if g.verbose then .error .usage else .ok { g with verbose := true }

/-- Whether a text can be the value of a key. -/
def validValue (key : Key) (value : String) : Bool :=
  match key with
  | .target => (Target.parse? value).isSome
  | .config | .outDir | .snapshots => !value.isEmpty

/-- Take note of a value, which can be given once. -/
def Given.addValue (g : Given) (key : Key) (value : String) : Except Early Given :=
  if (g.values.lookup key).isSome || !validValue key value then .error .usage
  else .ok { g with values := (key, value) :: g.values }

/-- Take note of a plain word: only `completions` takes one, the name of a shell. -/
def Given.addWord (verb : Verb) (g : Given) (word : String) : Except Early Given :=
  if verb == .completions && g.words.isEmpty && (Shell.ofText? word).isSome then
    .ok { g with words := [word] }
  else .error .usage

/-- What short names ask for: flags up to a name that takes a value, which is the rest of the
argument or else, as the result says, the argument behind it. -/
def readShort (verb : Verb) (g : Given) : List Char → Except Early (Given × Option Key)
  | [] => .ok (g, none)
  | c :: rest =>
    if c == 'h' then .error .help
    else if c == 'v' then do readShort verb (← g.addVerbose) rest
    else match verb.keys.find? fun (_, _, short) => short == some c with
      | none => .error .usage
      | some (key, _, _) =>
        match rest with
        | [] => .ok (g, some key)
        | '=' :: value => do pure (← g.addValue key (String.ofList value), none)
        | value => do pure (← g.addValue key (String.ofList value), none)

/-- What a long name asks for; as the result says, a value may have to follow. -/
def readLong (verb : Verb) (g : Given) (name : String) (value : Option String) :
    Except Early (Given × Option Key) :=
  if name == "help" then if value.isSome then .error .usage else .error .help
  else if name == "verbose" then
    if value.isSome then .error .usage else do pure (← g.addVerbose, none)
  else match verb.keys.find? fun (_, long, _) => long == name with
    | none => .error .usage
    | some (key, _, _) =>
      match value with
      | none => .ok (g, some key)
      | some value => do pure (← g.addValue key value, none)

/-- Read the arguments of a command.  `awaited` is the key whose value has to come next, and
`wordsOnly` says that two dashes have been read. -/
def readArguments (verb : Verb) : Bool → Option Key → Given → List String → Except Early Given
  | _, none, g, [] => .ok g
  | _, some _, _, [] => .error .usage
  | true, _, g, s :: rest => do readArguments verb true none (← g.addWord verb s) rest
  | false, some key, g, s :: rest =>
    match Argument.ofText s with
    | .word value => do readArguments verb false none (← g.addValue key value) rest
    | .separator | .long _ _ | .short _ => .error .usage
  | false, none, g, s :: rest =>
    match Argument.ofText s with
    | .separator => readArguments verb true none g rest
    | .word word => do readArguments verb false none (← g.addWord verb word) rest
    | .long name value => do
      let (g, awaited) ← readLong verb g name value
      readArguments verb false awaited g rest
    | .short names => do
      let (g, awaited) ← readShort verb g names
      readArguments verb false awaited g rest

/-- The command that has been read. -/
def ofGiven (verb : Verb) (g : Given) : Except Early Command :=
  let path (key : Key) : Option Path := (g.values.lookup key).map Path.mk
  let config := (path .config).getD Project.defaultConfig
  match verb with
  | .check => .ok (.check config)
  | .explain => .ok (.explain config)
  | .build =>
    .ok (.build config (path .outDir) ((g.values.lookup .target).bind Target.parse?)
      (path .snapshots))
  | .completions =>
    match g.words.head?.bind Shell.ofText? with
    | some shell => .ok (.completions shell)
    | none => .error .usage

/-- What short names in front of a command ask for. -/
def readTopShort (verbose : Bool) : List Char → Except Early Bool
  | [] => .ok verbose
  | 'h' :: _ => .error .help
  | 'V' :: _ => .error .version
  | 'v' :: rest => if verbose then .error .usage else readTopShort true rest
  | _ :: _ => .error .usage

/-- Read arguments up to the name of a command, and then those of the command. -/
def readTop : Bool → List String → Except Early Command
  | _, [] => .error .usage
  | verbose, s :: rest =>
    match Argument.ofText s with
    | .word "help" =>
      match rest with
      | [] => .error .help
      | verb :: more =>
        if more.isEmpty && (verb == "help" || (Verb.ofText? verb).isSome) then .error .help
        else .error .usage
    | .word word =>
      match Verb.ofText? word with
      | some verb => do ofGiven verb (← readArguments verb false none {} rest)
      | none => .error .usage
    | .separator => .error .usage
    | .long "help" none => .error .help
    | .long "version" none => .error .version
    | .long "verbose" none => if verbose then .error .usage else readTop true rest
    | .long _ _ => .error .usage
    | .short names =>
      match readTopShort verbose names with
      | .error e => .error e
      | .ok verbose => readTop verbose rest

/-- The command that the arguments ask for, if they are in order. -/
def parse? (args : List String) : Option Command :=
  match readTop false args with
  | .ok command => some command
  | .error .help => some .help
  | .error .version => some .version
  | .error .usage => none

/-- What the program prints, and the code that it ends with. -/
structure Exit : Type where
  code : Nat
  out : String := ""
  err : String := ""
  deriving DecidableEq, Repr

/-- How to use the program. -/
def usage : List String :=
  ["Compile Trellis units through a plugin-extensible pipeline", "",
    "Usage: trellis [OPTIONS] <COMMAND>", "", "Commands:",
    "  check        Analyze the units of a project",
    "  build        Compile the units of a project",
    "  explain      Explain the pipeline of a project",
    "  completions  Write completions for a shell",
    "  help         Print this message", "", "Options:",
    "  -v, --verbose  Print what is going on",
    "  -h, --help     Print help",
    "  -V, --version  Print version"]

/-- The words that a shell can complete. -/
def completionLines (shell : Shell) : List String :=
  let words := "check build explain completions help"
  match shell with
  | .bash => ["complete -W \"" ++ words ++ "\" trellis"]
  | .zsh => ["#compdef trellis", "compadd " ++ words]
  | .fish => ["complete -c trellis -f -a \"" ++ words ++ "\""]
  | .elvish => ["set edit:completion:arg-completer[trellis] = \x7b|@a| put " ++ words ++ " \x7d"]
  | .powershell =>
    ["Register-ArgumentCompleter -Native -CommandName trellis -ScriptBlock \x7b -split \"" ++
      words ++ "\" \x7d"]

/-- The lines that a failure is reported with. -/
def failureLines : Project.Failure → List String
  | .manifest fault => ["Error: " ++ fault.message] ++ fault.help?.toList.map ("help: " ++ ·)
  | .source fault => ["Error: " ++ fault.message] ++ fault.help?.toList.map ("help: " ++ ·)
  | .config e => ["Error: " ++ e.message] ++ e.help?.toList.map ("help: " ++ ·)
  | .artifact unit => ["Error: " ++ Project.artifactMessage unit]

/-- What an operation on a project comes to. -/
def exitOf : Except Project.Failure Project.Result → Exit
  | .error failure => { code := 1, err := Printed.textOf (failureLines failure) }
  | .ok result =>
    ⟨if result.ok then 0 else 1, Printed.textOf result.printed.out,
      Printed.textOf result.printed.err⟩

section

variable {m : Type → Type} [Monad m] [FileStore m]

/-- Do what was asked for. -/
def run : Command → m Exit
  | .check config => do pure (exitOf (← Project.runCheck config))
  | .build config outDir target snapshots => do
    pure (exitOf (← Project.runBuild config outDir target snapshots))
  | .explain config => do pure (exitOf (← Project.runExplain config))
  | .completions shell => pure { code := 0, out := Printed.textOf (completionLines shell) }
  | .help => pure { code := 0, out := Printed.textOf usage }
  | .version => pure { code := 0, out := "trellis 0.3.0\n" }

/-- Read the arguments and do what they ask for. -/
def runArguments (args : List String) : m Exit :=
  match parse? args with
  | some command => run command
  | none => pure { code := 2, err := Printed.textOf usage }

end

end Command

end StagedCompiler
