import CodeRisk.Metadata.Basic
import CodeRisk.Scale
import CodeRisk.Text.Infix

/-!
# Dependencies by import

An import is local to the project unless it begins with a platform prefix. One file shows only what
it depends on itself, so its instability is 0 or 1.
-/
namespace CodeRisk

/-- The packages of the runtime, of frameworks, of logging and of generated code. -/
def platformPrefixes : List String := ["java.", "javax.", "org.springframework", "org.slf4j", "lombok"]

/-- Tells project imports from platform imports. -/
structure DependencyInspector where
  /-- Prefixes that count as platform besides the usual ones. -/
  extraPrefixes : List String := []
  deriving DecidableEq, Repr

namespace DependencyInspector

/-- The inspector that knows more prefixes; empty ones are left out. -/
def withExtraPrefixes (d : DependencyInspector) (more : List String) : DependencyInspector :=
  ⟨d.extraPrefixes ++ more.filter fun p => p != ""⟩

/-- Whether an import is local to the project. -/
def isProjectLocal (d : DependencyInspector) (name : String) : Bool :=
  !(platformPrefixes.any fun p => Text.startsWith p name) &&
    !(d.extraPrefixes.any fun p => Text.startsWith p name)

/-- The impact of a list of imports. -/
def inspect {ν : Type} [Scale ν] (d : DependencyInspector) (imports : List String) :
    DependencyImpact ν :=
  let outgoing := StringSet.ofList (imports.filter d.isProjectLocal)
  let incoming := StringSet.empty
  let fanOut := UInt32.ofNat outgoing.size
  let fanIn := UInt32.ofNat incoming.size
  { outgoing
    incoming
    fanOut
    fanIn
    instability :=
      if fanOut + fanIn = 0 then 0.0
      else Scale.ofNat fanOut.toNat / Scale.ofNat (fanOut + fanIn).toNat }

end DependencyInspector

end CodeRisk
