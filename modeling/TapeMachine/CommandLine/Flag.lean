import TapeMachine.Text.Numeral
import TapeMachine.Text.Quoted

/-! Flags of the command line. A flag is written `--name value` or `--name=value`; a switch needs no
value, and several one-letter flags may share a dash. Flags and arguments may be mixed, and `--`
ends the flags. -/

namespace TapeMachine.CommandLine

structure Options where
  verbose : Bool := false
  help : Bool := false
  regs : List Text := []
  mems : List Text := []
  maxTicks : BitVec 64 := 0
  dumpMemory : Bool := false

inductive Flag where
  | verbose
  | help
  | reg
  | mem
  | maxTicks
  | dumpMemory
  deriving DecidableEq

namespace Flag

def name : Flag → Text
  | verbose => text "verbose"
  | help => text "help"
  | reg => text "reg"
  | mem => text "mem"
  | maxTicks => text "max-ticks"
  | dumpMemory => text "dump-mem"

def letter? : Flag → Option UInt8
  | verbose => some (byte 'v')
  | help => some (byte 'h')
  | _ => none

/-- A switch is on when it is given without a value. -/
def isSwitch : Flag → Bool
  | verbose | help | dumpMemory => true
  | reg | mem | maxTicks => false

def shown (f : Flag) : Text :=
  match f.letter? with
  | some c => text "-" ++ [c] ++ text ", --" ++ f.name
  | none => text "--" ++ f.name

end Flag

inductive UsageError where
  | unknownCommand (name : Text) (similar : List Text)
  | unknownFlag (name : Text)
  | unknownLetter (letter : UInt8) (letters : Text)
  | malformedFlag (arg : Text)
  | valueMissing (arg : Text)
  | badSwitch (flag : Flag) (value : Text)
  | badNumber (flag : Flag) (value : Text) (reason : Text.NumeralError)
  | argumentCount (count : Nat)

def invalidValue (f : Flag) (value reason : Text) : Text :=
  text "invalid argument " ++ Text.quoted value ++ text " for " ++ Text.quoted f.shown
    ++ text " flag: " ++ reason

def numeralReason : Text.NumeralError → Text
  | .malformed => text "invalid syntax"
  | .outOfRange => text "value out of range"

def suggestion (names : List Text) : Text :=
  if names.isEmpty then []
  else text "\n\nDid you mean this?\n"
    ++ names.flatMap fun name => text "\t" ++ name ++ text "\n"

def UsageError.message : UsageError → Text
  | unknownCommand name similar =>
      text "unknown command " ++ Text.quoted name ++ text " for " ++ Text.quoted (text "bpfsim")
        ++ suggestion similar
  | unknownFlag name => text "unknown flag: --" ++ name
  | unknownLetter c letters =>
      text "unknown shorthand flag: " ++ Text.quotedCode false c.toNat ++ text " in -" ++ letters
  | malformedFlag arg => text "bad flag syntax: " ++ arg
  | valueMissing arg => text "flag needs an argument: " ++ arg
  | badSwitch f value =>
      invalidValue f value
        (text "strconv.ParseBool: parsing " ++ Text.quoted value ++ text ": invalid syntax")
  | badNumber f value reason =>
      invalidValue f value
        (text "strconv.ParseInt: parsing " ++ Text.quoted value ++ text ": "
          ++ numeralReason reason)
  | argumentCount n => text "accepts 1 arg(s), received " ++ Text.ofNat n

def switchValue? (t : Text) : Option Bool :=
  if (["1", "t", "T", "TRUE", "true", "True"].map text).contains t then some true
  else if (["0", "f", "F", "FALSE", "false", "False"].map text).contains t then some false
  else none

def setFlag (f : Flag) (value : Text) (o : Options) : Except UsageError Options :=
  let switch (set : Bool → Options) : Except UsageError Options :=
    match switchValue? value with
    | some b => .ok (set b)
    | none => .error (.badSwitch f value)
  match f with
  | .verbose => switch fun b => { o with verbose := b }
  | .help => switch fun b => { o with help := b }
  | .dumpMemory => switch fun b => { o with dumpMemory := b }
  | .reg => .ok { o with regs := o.regs ++ [value] }
  | .mem => .ok { o with mems := o.mems ++ [value] }
  | .maxTicks =>
      match Text.readSigned value with
      | .ok n => .ok { o with maxTicks := BitVec.ofInt 64 n }
      | .error reason => .error (.badNumber f value reason)

/-- The value after an equals sign, unless it is empty. -/
def valueAfter? : Text → Option Text
  | 0x3D :: value@(_ :: _) => some value
  | _ => none

/-- Sets one-letter flags that share a dash. After an equals sign comes the value of the last, and
`test.` starts a flag that is for others and is passed over. -/
def setLetters (flags : List Flag) : Text → Options → Except UsageError Options
  | [], o => .ok o
  | c :: rest, o =>
      if (text "test.").isPrefixOf (c :: rest) then .ok o
      else match flags.find? (·.letter? = some c) with
      | none => .error (.unknownLetter c (c :: rest))
      | some f =>
          match valueAfter? rest with
          | some value => setFlag f value o
          | none => do
              let o ← setFlag f (text "true") o
              setLetters flags rest o

/-- A long flag, with the value given in it if there is one. -/
inductive LongFlag where
  | complete (f : Flag) (value : Text)
  | awaiting (f : Flag)

def longFlag (flags : List Flag) (arg : Text) : Except UsageError LongFlag :=
  let body := arg.drop 2
  if body.head?.all (fun b => b = byte '-' || b = byte '=') then .error (.malformedFlag arg)
  else
    let name := Text.before (byte '=') body
    match flags.find? (·.name = name) with
    | none => .error (.unknownFlag name)
    | some f =>
        match Text.cut? (byte '=') body with
        | some (_, value) => .ok (.complete f value)
        | none => if f.isSwitch then .ok (.complete f (text "true")) else .ok (.awaiting f)

/-- Reads arguments into options and the arguments that are no flags. A flag may be waiting for
its value, together with how it was written. -/
def readFlags (flags : List Flag) :
    Option (Flag × Text) → Options → List Text → Except UsageError (Options × List Text)
  | none, o, [] => .ok (o, [])
  | some (_, arg), _, [] => .error (.valueMissing arg)
  | some (f, _), o, value :: rest => do
      let o ← setFlag f value o
      readFlags flags none o rest
  | none, o, arg :: rest =>
      if arg.length < 2 || arg.head? ≠ some (byte '-') then do
        let (o, args) ← readFlags flags none o rest
        return (o, arg :: args)
      else if arg = text "--" then .ok (o, rest)
      else if (text "--").isPrefixOf arg then do
        match ← longFlag flags arg with
        | .complete f value => do
            let o ← setFlag f value o
            readFlags flags none o rest
        | .awaiting f => readFlags flags (some (f, arg)) o rest
      else do
        let o ← setLetters flags arg.tail o
        readFlags flags none o rest

end TapeMachine.CommandLine
