import CodeRisk.Config.Read
import CodeRisk.File.Tree
import CodeRisk.SourceUnit.Parse

/-!
# Loading from disk

Sources and settings as they are loaded from disk. Of a source it is asked in this order whether it is
there, whether its extension is known, whether it is text, and whether the text is Java.
-/
namespace CodeRisk

/-- Where units come from: a unit or an error for each path. -/
abbrev Loader := String → Except AnalysisError SourceUnit

namespace Disk

/-- Loads the unit of a Java file. -/
def loadUnit (d : Disk) : Loader := fun path =>
  match d.find path with
  | .error _ => .error (.unreadableSource path "file not found")
  | .ok node =>
    if Path.isJava path then
      match node.text with
      | .error fault => .error (.unreadableSource path fault.message)
      | .ok text => SourceUnit.parse path text
    else .error (.unsupportedLanguage path ((Path.extension? path).getD "none"))

/-- Loads the settings of a file. -/
def loadConfig (d : Disk) (path : String) : Except ConfigFault Config :=
  match (d.find path).bind FileTree.text with
  | .error fault => .error (.unreadable path fault.message)
  | .ok text => Config.parse text

end Disk

end CodeRisk
