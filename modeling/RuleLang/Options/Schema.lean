import RuleLang.Options
import RuleLang.Setting

/-!
The settings that are options: nothing, or a mapping with at most the keys `max_depth`, an integral
number from 1 to 100, and `filename`, a text that is not empty. All that is wrong with a setting is
looked for and worded, but only one fault is reported: the first of those that are nearest to the
setting as a whole. A fault that would show an integer with too many digits cannot be worded, and
then none is reported.
-/
namespace RuleLang

inductive OptionsFault where
  | notMapping (given : Setting)
  | unexpectedKeys (keys : List Setting)
  | depthNotInteger (given : Setting)
  | depthTooSmall (given : Setting)
  | depthTooGreat (given : Setting)
  | filenameNotText (given : Setting)
  | filenameEmpty

namespace Options

def depthKey : String := "max_depth"

def filenameKey : String := "filename"

def leastDepth : Int := 1

def greatestDepth : Int := 100

def wrongType (given : Setting) (type : String) : String :=
  given.display ++ " is not of type '" ++ type ++ "'"

end Options

namespace OptionsFault

open Options

/-- The keys on the way from the setting to what is wrong in it. -/
def path : OptionsFault → List String
  | .notMapping _ | .unexpectedKeys _ => []
  | .depthNotInteger _ | .depthTooSmall _ | .depthTooGreat _ => [depthKey]
  | .filenameNotText _ | .filenameEmpty => [filenameKey]

/-- The settings that are shown where the fault is told. -/
def shown : OptionsFault → List Setting
  | .notMapping given => [given]
  | .unexpectedKeys keys => keys
  | .depthNotInteger given | .depthTooSmall given | .depthTooGreat given => [given]
  | .filenameNotText given => [given]
  | .filenameEmpty => [.text ""]

def isWritable (f : OptionsFault) : Bool := f.shown.all Setting.isWritable

def wording : OptionsFault → String
  | .notMapping given => wrongType given "object"
  | .unexpectedKeys keys =>
    let verb := if keys.length = 1 then "was" else "were"
    "Additional properties are not allowed (" ++ ", ".intercalate (keys.map Setting.display) ++
      " " ++ verb ++ " unexpected)"
  | .depthNotInteger given => wrongType given "integer"
  | .depthTooSmall given => given.display ++ " is less than the minimum of " ++ toString leastDepth
  | .depthTooGreat given =>
    given.display ++ " is greater than the maximum of " ++ toString greatestDepth
  | .filenameNotText given => wrongType given "string"
  | .filenameEmpty => Text.quoted "" ++ " should be non-empty"

def message (f : OptionsFault) : String :=
  match f.path with
  | [] => f.wording
  | keys => f.wording ++ " (at " ++ " -> ".intercalate keys ++ ")"

/-- The fault that is reported of several: the first of those with the shortest way to them. -/
def reported? : List OptionsFault → Option OptionsFault
  | [] => none
  | f :: fs =>
    match reported? fs with
    | some g => if g.path.length < f.path.length then some g else some f
    | none => some f

end OptionsFault

inductive OptionsError where
  | refused (fault : OptionsFault)
  /-- A fault shows an integer that cannot be written out. -/
  | unwritable

def OptionsError.message : OptionsError → String
  | .refused fault => fault.message
  | .unwritable => Number.unwritable

namespace Options

def isOptionKey (key : Setting) : Bool :=
  key.sameKey (.text depthKey) || key.sameKey (.text filenameKey)

/-- The keys that are no options, in the order of their texts. -/
def unexpectedKeys (entries : List (Setting × Setting)) : List Setting :=
  ((entries.map Prod.fst).filter (!isOptionKey ·)).mergeSort fun a b => !decide (b.plain < a.plain)

def keyFaults (entries : List (Setting × Setting)) : List OptionsFault :=
  match unexpectedKeys entries with
  | [] => []
  | keys => [.unexpectedKeys keys]

/-- What is wrong with a depth: its type, and apart from that its size. -/
def depthFaults (given : Setting) : List OptionsFault :=
  match given with
  | .number n =>
    (if n.toInt?.isSome then [] else [.depthNotInteger given]) ++
      (if n.isBelow leastDepth then [.depthTooSmall given] else []) ++
      (if n.isAbove greatestDepth then [.depthTooGreat given] else [])
  | _ => [.depthNotInteger given]

def filenameFaults (given : Setting) : List OptionsFault :=
  match given with
  | .text s => if s = "" then [.filenameEmpty] else []
  | _ => [.filenameNotText given]

/-- What is wrong with the value of a key, if there is one. -/
def valueFaults (key : String) (look : Setting → List OptionsFault)
    (entries : List (Setting × Setting)) : List OptionsFault :=
  match Setting.find? key entries with
  | some given => look given
  | none => []

/-- The entries of a mapping; nothing stands for a mapping without any. -/
def entries? : Setting → Option (List (Setting × Setting))
  | .null => some []
  | .mapping entries => some entries
  | _ => none

/-- All that is wrong with a setting, in the order in which it is found. -/
def faults (given : Setting) : List OptionsFault :=
  match entries? given with
  | some entries =>
    valueFaults depthKey depthFaults entries ++ valueFaults filenameKey filenameFaults entries ++
      keyFaults entries
  | none => [.notMapping given]

def ofEntries (entries : List (Setting × Setting)) : Options where
  maxDepth := ((Setting.find? depthKey entries).bind Setting.wholeNumber?).getD
    ({} : Options).maxDepth
  filename := ((Setting.find? filenameKey entries).bind Setting.text?).getD ({} : Options).filename

def ofSetting (given : Setting) : Except OptionsError Options :=
  match OptionsFault.reported? (faults given) with
  | none => .ok (ofEntries ((entries? given).getD []))
  | some fault =>
    if (faults given).all OptionsFault.isWritable then .error (.refused fault)
    else .error .unwritable

def display (o : Options) : String :=
  "ParserOptions(max_depth=" ++ o.maxDepth.number.write .compact ++ ", filename=" ++
    Text.quoted o.filename ++ ")"

end Options

end RuleLang
