import TapeMachine.CommandLine.Flag
import TapeMachine.CommandLine.Folder
import TapeMachine.CommandLine.Similar
import TapeMachine.Emulator.Seed
import TapeMachine.Report

/-! The commands: `run` assembles and executes a program, `asm` assembles it and prints its
listing. -/

namespace TapeMachine.CommandLine

inductive Command where
  | run
  | asm
  deriving DecidableEq

/-- The flags a command knows, and those known without a command. -/
def Command.flags : Option Command → List Flag
  | some .run => [.verbose, .help, .reg, .mem, .maxTicks, .dumpMemory]
  | some .asm => [.verbose, .help]
  | none => [.verbose, .help]

inductive Request where
  | usage
  | perform (command : Command) (file : Text) (options : Options)

/-- An argument that takes the next one as its value, when the command is not known yet: any flag
without an equals sign but the verbose one. -/
def takesNext (arg : Text) : Bool :=
  !arg.contains (byte '=')
    && (((text "--").isPrefixOf arg && arg ≠ text "--verbose")
      || ((text "-").isPrefixOf arg && arg.length = 2 && arg ≠ text "-v"))

/-- The first argument that is no flag and no value of one, and all the others. A flag needs its
value and one more argument after it. -/
def splitCommand? : List Text → Option (Text × List Text)
  | [] => none
  | arg :: rest =>
      if arg = text "--" then none
      else if takesNext arg then
        match rest with
        | value :: next :: more =>
            (splitCommand? (next :: more)).map fun (c, others) => (c, arg :: value :: others)
        | _ => none
      else if arg.isEmpty || (text "-").isPrefixOf arg then
        (splitCommand? rest).map fun (c, others) => (c, arg :: others)
      else some (arg, rest)

/-- Reads the flags of a command, which takes one argument. -/
def readCommand (c : Command) (args : List Text) : Except UsageError Request := do
  let (options, files) ← readFlags (Command.flags (some c)) none {} args
  if options.help then return .usage
  else match files with
    | [file] => return .perform c file options
    | files => throw (.argumentCount files.length)

def readArgs (args : List Text) : Except UsageError Request :=
  match splitCommand? args with
  | some (name, others) =>
      if name = text "run" then readCommand .run others
      else if name = text "asm" then readCommand .asm others
      else if name = text "help" then .ok .usage
      else .error (.unknownCommand name (similarNames [text "run", text "asm"] name))
  | none => do
      let _ ← readFlags (Command.flags none) none {} args
      return .usage

structure Output where
  exit : Nat := 0
  stdout : Text := []
  stderr : Text := []

/-- The limits within which a command works: depth of macro calls, and steps of a run. -/
structure Limits where
  depth : Nat
  fuel : Nat

/-- The libraries that a command uses: an interpreter of expressions, and a writer of tables. -/
structure Libraries where
  interpret : Expression.Interpreter
  write : Table → Text

def printed (t : Text) : Text := t ++ text "\n"

def logged (t : Text) : Text := if t.getLast? = some 10 then t else printed t

def complaint (file message : Text) : Text := logged (file ++ text ": " ++ message)

def UsageError.output (e : UsageError) : Output where
  exit := 1
  stderr := printed (text "Error: " ++ e.message) ++
    match e with
    | .unknownCommand .. => text "Run 'bpfsim --help' for usage.\n"
    | _ => []

def usageText : Text :=
  text "Assembles and executes programs for a register machine.\n\n"
    ++ text "bpfsim run FILE [--reg rN=VALUE] [--mem ADDRESS=VALUE] [--max-ticks N] [--dump-mem]\n"
    ++ text "bpfsim asm FILE\n"

/-- Assembles the text of a file, or says why that fails, with what expressions print. A folder
opens like a file, and fails before its first line. -/
def assemble (libraries : Libraries) (limits : Limits) (e : Emulator) (file : Text)
    (source : Source) : Except Output Program × Text :=
  let refused (message : Text) : Except Output Program :=
    .error { exit := 1, stderr := complaint file message }
  match source with
  | .closed reason => (refused (text "open " ++ file ++ text ": " ++ reason.message), [])
  | .folder =>
      (refused (SourceError.lineMessage 0 [] (text "read " ++ file ++ text ": is a directory")), [])
  | .file source =>
      let a := (e.assembler libraries.interpret).parse limits.depth source
      let program :=
        match a.verdict with
        | .accepted p => .ok p
        | .rejected err => refused err.message
        | .crashed | .expressionCrashed | .tooDeep => .error { exit := 2 }
      (program, a.state.printed)

def report (write : Table → Text) (o : Options) (file : Text) (r : Emulator.Outcome) : Output :=
  let m := r.emulator.machine
  let tables := printed (write m.registerTable)
    ++ if o.dumpMemory then printed (write m.memoryTable) else []
  match r.ending.error? with
  | none => { stdout := tables }
  | some err => { exit := 1, stdout := tables, stderr := complaint file err.message }

def execute (libraries : Libraries) (limits : Limits) (o : Options) (e : Emulator) (p : Program)
    (file : Text) : Output :=
  match e.load p with
  | .error err => { exit := 1, stderr := complaint file err.message }
  | .ok e =>
      match e.seed o.regs o.mems with
      | (e, []) => report libraries.write o file (e.run limits.fuel)
      | (_, errors) => { exit := 1, stderr := complaint file (Emulator.seedMessage errors) }

/-- Carries out a request on what its path leads to. -/
def Request.output (libraries : Libraries) (limits : Limits) (source : Source) : Request → Output
  | usage => { stdout := usageText }
  | perform command file o =>
      let e : Emulator :=
        match command with
        | .run => { maxTicks := o.maxTicks, verbose := o.verbose }
        | .asm => {}
      let (program, lines) := assemble libraries limits e file source
      let output :=
        match program, command with
        | .error output, _ => output
        | .ok p, .run => execute libraries limits o e p file
        | .ok p, .asm => { stdout := printed (libraries.write p.listing) }
      { output with stderr := lines ++ output.stderr }

def Request.file? : Request → Option Text
  | usage => none
  | perform _ file _ => some file

end TapeMachine.CommandLine
