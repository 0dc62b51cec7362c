import RuleLang.Directory
import RuleLang.Options.Schema
import RuleLang.Path
import RuleLang.Text.Utf8
import RuleLang.Yaml.Resolution

/-!
Options from a YAML file. The file has to be there, to be readable, to be text, to be well-formed
and to hold options, in this order.
-/
namespace RuleLang

inductive ScalarFault where
  | noValue (e : Yaml.ValueFault)
  /-- An integer has too many digits to tell what is wrong with it. -/
  | unwritable

def ScalarFault.message : ScalarFault → String
  | .noValue e => e.message
  | .unwritable => OptionsError.unwritable.message

inductive OptionsFileError where
  | unreadable (e : FileError)
  | notText (e : Text.Utf8Fault)
  | notYaml
  | invalid (fault : OptionsFault)
  | badScalar (e : ScalarFault)
  | badPath

namespace OptionsFileError

/-- Whether the error is one of the configuration; a scalar or a path that cannot be used is not. -/
def isConfiguration : OptionsFileError → Bool
  | .badScalar _ | .badPath => false
  | .unreadable _ | .notText _ | .notYaml | .invalid _ => true

/-- What is said of a file at a path; a scalar or a path that cannot be used is named alone. -/
def message (path : Path) (e : OptionsFileError) : String :=
  let about (s : String) : String := path.toString ++ ": " ++ s
  match e with
  | .unreadable .missing => about "file not found"
  | .unreadable e => about ("cannot read file: " ++ e.message)
  | .notText e => about ("not valid UTF-8: " ++ e.message)
  | .notYaml => about "invalid YAML:"
  | .invalid fault => about fault.message
  | .badScalar e => e.message
  | .badPath => FileError.nullCharacter.message

end OptionsFileError

inductive ContentFault where
  | notText (e : Text.Utf8Fault)
  | notYaml
  | noValue (e : Yaml.ValueFault)

abbrev ContentReader := List UInt8 → Except ContentFault Setting

def Setting.ofContent : ContentReader := fun bytes =>
  match Text.decodeUtf8 bytes with
  | .error e => .error (.notText e)
  | .ok chars =>
    match Yaml.read (Text.unifyNewlines chars) with
    | .error .malformed => .error .notYaml
    | .error (.value e) => .error (.noValue e)
    | .ok given => .ok given

namespace Options

def ofContent (interpret : ContentReader) (bytes : List UInt8) : Except OptionsFileError Options :=
  match interpret bytes with
  | .error (.notText e) => .error (.notText e)
  | .error .notYaml => .error .notYaml
  | .error (.noValue e) => .error (.badScalar (.noValue e))
  | .ok given =>
    match ofSetting given with
    | .error (.refused fault) => .error (.invalid fault)
    | .error .unwritable => .error (.badScalar .unwritable)
    | .ok o => .ok o

/-- The options in the file at a path, whose content is read in a given way. -/
def loadWith (interpret : ContentReader) (read : FileReader) (path : Path) :
    Except OptionsFileError Options :=
  match read path.toString with
  | .error .nullCharacter => .error .badPath
  | .error e => .error (.unreadable e)
  | .ok bytes => ofContent interpret bytes

def load : FileReader → Path → Except OptionsFileError Options := loadWith Setting.ofContent

end Options

end RuleLang
