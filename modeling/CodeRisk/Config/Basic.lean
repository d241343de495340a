/-!
# Configuration

What can be set in a file and overridden on the command line.
-/
namespace CodeRisk

/-- The settings of an analysis. -/
structure Config where
  /-- Prefixes of imports that count as platform besides the usual ones. -/
  extraPlatformPrefixes : List String := []
  /-- The number of workers of a batch; all processors if it is not given. -/
  jobs : Option Nat := none
  /-- How deep directories are searched. -/
  maxDepth : Nat := 10
  deriving DecidableEq, Repr

namespace Config

/-- The settings with those of the command line put in their place. -/
def withOverrides (c : Config) (jobs maxDepth : Option Nat) : Config :=
  { c with jobs := jobs <|> c.jobs, maxDepth := maxDepth.getD c.maxDepth }

/-- Whether a batch could be run with these settings. -/
def isValid (c : Config) : Bool :=
  c.jobs != some 0

end Config

end CodeRisk
