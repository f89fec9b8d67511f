import SourceSurvey.Settings.Overrides
import SourceSurvey.Settings.Codec
import SourceSurvey.Toml.Parser
import SourceSurvey.Toml.Printer
import SourceSurvey.Tree.File

/-!
# Settings in files

Settings are kept as a TOML document. What is loaded is merged with the environment and has to obey
the rules; what is saved has to obey them too, is written beside its place first and then moved
there.
-/

namespace SourceSurvey
namespace Settings

/-- The settings as a document. -/
def toToml (s : Settings) : String :=
  Toml.document <| s.sections.map fun (name, j) =>
    (name, match j with | .object fields => fields | _ => [])

/-- The settings of a document; what is absent has its built-in value. -/
def ofToml? (e : Environment) (text : List Char) : Option Settings :=
  (Toml.parse text).bind ((default e).read? Toml.dialect)

/-- The settings merged with the environment, if they obey the rules. -/
def finish (e : Environment) (s : Settings) : Except Failure Settings :=
  match s.merge e with
  | (_, some failure) => .error failure
  | (s, none) => s.validate.map fun _ => s

/-- A configuration failure that names what could not be done. -/
def failed {α : Type} (what : String) (e : IoFailure) : Except Failure α :=
  .error (.configuration (what ++ ": " ++ e.message))

/-- Loads settings from a file. -/
def loadFrom (t : Tree) (e : Environment) (p : Path) : Except Failure Settings :=
  match t.readText p with
  | .error failure => failed "Failed to read config file" failure
  | .ok text =>
    match ofToml? e text with
    | none => .error (.configuration "Failed to parse config file: invalid document")
    | some s => s.finish e

/-- Loads settings from a given path, else from the path in the environment, else from the usual
place, else takes the built-in ones. -/
def load (t : Tree) (e : Environment) (explicit? : Option Path) : Except Failure Settings :=
  match explicit? <|> (e.get? "STRATA_CONFIG_PATH").map Path.mk with
  | some p => loadFrom t e p
  | none =>
    match e.settingsPath?.filter t.exists? with
    | some p => loadFrom t e p
    | none => (default e).finish e

/-- The path beside a file at which its new content is written first. -/
def draftPath (p : Path) : Path := p.withExtension "toml.tmp"

/-- Makes the directory that a file is to stand in. -/
def prepareParent (t : Tree) (p : Path) : Tree × Except IoFailure Unit :=
  t.createParent (fun parent => parent.text = "" || t.exists? parent) p

/-- Saves settings to a file. -/
def save (s : Settings) (t : Tree) (p : Path) : Tree × Except Failure Unit :=
  match s.validate with
  | .error failure => (t, .error failure)
  | .ok () =>
    match prepareParent t p with
    | (t, .error e) => (t, failed "Failed to create config directory" e)
    | (t, .ok ()) =>
      match t.write (draftPath p) s.toToml.toUTF8.toList with
      | .error e => (t, failed "Failed to write config file" e)
      | .ok t =>
        match t.rename (draftPath p) p with
        | .error e => (t, failed "Failed to rename config file" e)
        | .ok t => (t, .ok ())

end Settings
end SourceSurvey
