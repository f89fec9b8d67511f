import SourceSurvey.Settings.Overrides
import SourceSurvey.Text.Fields

/-!
# Reading a command line

A command line is read word by word against a `Level`: the flags that may stand there and, besides,
either further commands, each with a level of its own, or paths. A flag is given at most once at a
level. A flag with a value takes it from its own word or from the next one, which must not look like
a flag. After the word `--` no word is a flag or a command.
-/

namespace SourceSurvey
namespace CommandLine

/-- What the value of a flag has to be: any text but the empty one, a natural number of 64 bits or
one of some names. -/
inductive ValueForm where
  | path
  | number
  | choice (names : List String)
  deriving DecidableEq, Repr

/-- Whether a text is a value of the form. -/
def ValueForm.accepts (form : ValueForm) (value : String) : Bool :=
  match form with
  | path => value ≠ ""
  | number => (Settings.parseNatural 64 value).isOk
  | choice names => names.contains value

/-- What a flag does: it is on or off, has a value, or asks for a text instead of a command. -/
inductive FlagKind where
  | switch
  | value (form : ValueForm)
  | help
  | version
  deriving DecidableEq, Repr

/-- A flag with its name, written after two dashes, and its letter, written after one. -/
structure Flag where
  name : String
  letter? : Option Char := none
  kind : FlagKind := .switch
  deriving DecidableEq, Repr

/-- What may stand from some place of a command line on. -/
inductive Level where
  | commands (flags : List Flag) (children : List (String × Level))
  | paths (flags : List Flag) (allowed required : Bool)

/-- The flags of a level. -/
def Level.flags : Level → List Flag
  | commands flags _ => flags
  | paths flags _ _ => flags

/-- What was read at a level: the flags with their values, an empty one for a switch, and the
paths. -/
structure Reading where
  values : List (String × String) := []
  paths : List Path := []
  deriving DecidableEq, Repr

/-- Why a command line names no command to carry out. -/
inductive Refusal where
  | help
  | version
  | misuse (reason : String)
  deriving DecidableEq, Repr

/-! ## Flags -/

/-- Whether a flag was given. -/
def Reading.has (r : Reading) (name : String) : Bool := r.values.any fun v => v.1 == name

/-- Gives a flag with its value, for the first time. -/
def Reading.give (r : Reading) (name value : String) : Except Refusal Reading :=
  if r.has name then .error (.misuse ("--" ++ name ++ " is given twice"))
  else .ok { r with values := r.values ++ [(name, value)] }

/-- After a flag: the reading goes on, or the flag waits for its value. -/
inductive AfterFlag where
  | complete (r : Reading)
  | waiting (name : String) (form : ValueForm) (r : Reading)

/-- Gives a flag the value that it waits for. -/
def Reading.giveValue (r : Reading) (name : String) (form : ValueForm) (value : String) :
    Except Refusal Reading :=
  if form.accepts value then r.give name value
  else .error (.misuse ("invalid value '" ++ value ++ "' for --" ++ name))

/-- Reads a flag with the value in its own word, if there is one. -/
def Flag.read (f : Flag) (r : Reading) (attached? : Option String) : Except Refusal AfterFlag :=
  match f.kind, attached? with
  | .help, none => .error .help
  | .version, none => .error .version
  | .switch, none => (r.give f.name "").map .complete
  | .value form, none => .ok (.waiting f.name form r)
  | .value form, some value => (r.giveValue f.name form value).map .complete
  | _, some _ => .error (.misuse ("--" ++ f.name ++ " takes no value"))

/-- Reads a word after its two dashes; what follows an equals sign is the value. -/
def readLong (flags : List Flag) (r : Reading) (body : List Char) : Except Refusal AfterFlag :=
  let (name, attached?) := match Text.cutAt ['='] body with
    | some (name, value) => (String.ofList name, some (String.ofList value))
    | none => (String.ofList body, none)
  match flags.find? (·.name == name) with
  | some f => f.read r attached?
  | none => .error (.misuse ("unknown flag --" ++ name))

/-- Reads a word after its dash: switches, of which the last letter may be a flag with a value. The
rest of the word is that value, with or without an equals sign before it. -/
def readLetters (flags : List Flag) (r : Reading) : List Char → Except Refusal AfterFlag
  | [] => .ok (.complete r)
  | c :: rest =>
    match flags.find? (·.letter? == some c) with
    | none => .error (.misuse ("unknown flag -" ++ c.toString))
    | some f =>
      match f.kind with
      | .value _ =>
        match rest with
        | [] => f.read r none
        | '=' :: rest => f.read r (some (String.ofList rest))
        | rest => f.read r (some (String.ofList rest))
      | _ =>
        match f.read r none with
        | .ok (.complete r) => readLetters flags r rest
        | other => other

/-! ## Words -/

/-- What a word looks like. -/
inductive Word where
  | escape
  | long (body : List Char)
  | letters (body : List Char)
  | plain

/-- The look of a word; a single dash is plain. -/
def Word.of (s : String) : Word :=
  match s.toList with
  | ['-', '-'] => escape
  | '-' :: '-' :: body => long body
  | '-' :: c :: body => letters (c :: body)
  | _ => plain

/-- The names of the commands on a command line and what was read at their levels, from the left. -/
structure Words where
  names : List String := []
  readings : List Reading
  deriving DecidableEq, Repr

/-- Ends the reading of a level. -/
def Level.finish (l : Level) (r : Reading) : Except Refusal Words :=
  match l with
  | .commands _ _ => .error (.misuse "a command is missing")
  | .paths _ _ required =>
    if required && r.paths.isEmpty then .error (.misuse "a path is missing")
    else .ok { readings := [r] }

/-- The words of a level before those of the level below it. -/
def Words.under (name : String) (r : Reading) (w : Words) : Words :=
  { names := name :: w.names, readings := r :: w.readings }

/-- A question for help on a command names a path of commands. -/
def helpOn (l : Level) : List String → Refusal
  | [] => .help
  | name :: rest =>
    match l with
    | .commands _ children =>
      match children.lookup name with
      | some child => helpOn child rest
      | none => if name = "help" then .help else .misuse ("unknown command " ++ name)
    | .paths _ _ _ => .misuse ("unknown command " ++ name)

/-- Reads words at a level after what was read there already; `literal` tells that `--` came
before. -/
def readWords (l : Level) (r : Reading) (literal : Bool) : List String → Except Refusal Words
  | [] => l.finish r
  | word :: rest =>
    let goOn (after : Except Refusal AfterFlag) : Except Refusal Words :=
      match after with
      | .error e => .error e
      | .ok (.complete r) => readWords l r literal rest
      | .ok (.waiting name form r) =>
        match rest with
        | [] => .error (.misuse ("--" ++ name ++ " needs a value"))
        | value :: rest =>
          match Word.of value with
          | .plain =>
            match r.giveValue name form value with
            | .error e => .error e
            | .ok r => readWords l r literal rest
          | _ => .error (.misuse ("--" ++ name ++ " needs a value"))
    match if literal then .plain else Word.of word with
    | .escape => readWords l r true rest
    | .long body => goOn (readLong l.flags r body)
    | .letters body => goOn (readLetters l.flags r body)
    | .plain =>
      match l with
      | .commands _ children =>
        if literal then .error (.misuse ("unexpected " ++ word))
        else
          match children.lookup word with
          | some child => (readWords child {} false rest).map (Words.under word r)
          | none => .error (if word = "help" then helpOn l rest else .misuse ("unknown command " ++ word))
      | .paths _ allowed _ =>
        if !allowed then .error (.misuse ("unexpected " ++ word))
        else if word = "" then .error (.misuse "a path is empty")
        else readWords l { r with paths := r.paths ++ [⟨word⟩] } literal rest

/-- Reads a whole command line. -/
def Level.read (l : Level) (words : List String) : Except Refusal Words := readWords l {} false words

/-! ## Looking up -/

/-- The value of a flag: of several levels at which it is given the last one counts. -/
def Words.value? (w : Words) (name : String) : Option String :=
  w.readings.reverse.findSome? fun r => r.values.lookup name

/-- Whether a flag was given at some level. -/
def Words.has (w : Words) (name : String) : Bool := (w.value? name).isSome

/-- The paths on the command line. -/
def Words.paths (w : Words) : List Path := w.readings.flatMap Reading.paths

end CommandLine
end SourceSurvey
