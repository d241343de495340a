/-!
# Errors

What can go wrong with one file or with the program as a whole. Errors of single files never end a
batch; the others end the program with a status of their own.
-/
namespace CodeRisk

/-- An error, by its cause. -/
inductive AnalysisError where
  /-- The file or its text cannot be had. -/
  | unreadableSource (path reason : String)
  /-- The file holds neither a class nor an interface. -/
  | noPrimaryType (path : String)
  /-- The text of the file is not in order. -/
  | malformedUnit (path message : String)
  | unsupportedLanguage (path extension : String)
  | config (message : String)
  | serialization (message : String)
  | io (reason : String)
  deriving DecidableEq, Repr

namespace AnalysisError

/-- The text of an error. -/
def message : AnalysisError → String
  | unreadableSource path reason => s!"cannot read source '{path}': {reason}"
  | noPrimaryType path => s!"no class or interface declaration found in '{path}'"
  | malformedUnit path message => s!"malformed source unit '{path}': {message}"
  | unsupportedLanguage path extension =>
    s!"unsupported file extension '{extension}' for '{path}'"
  | config message => s!"configuration error: {message}"
  | serialization message => s!"serialization failed: {message}"
  | io reason => reason

/-- A short label for the kind of error. -/
def kind : AnalysisError → String
  | unreadableSource .. => "unreadable_source"
  | noPrimaryType _ => "no_primary_type"
  | malformedUnit .. => "malformed_unit"
  | unsupportedLanguage .. => "unsupported_language"
  | config _ => "config"
  | serialization _ => "serialization"
  | io _ => "io"

/-- The status with which the program ends. Status 1 is left for batches in which some files
failed. -/
def exitStatus : AnalysisError → Nat
  | config _ => 2
  | unreadableSource .. | io _ => 3
  | noPrimaryType _ | malformedUnit .. | unsupportedLanguage .. => 4
  | serialization _ => 5

end AnalysisError

end CodeRisk
