import StagedCompiler.Artifact.Encoding
import StagedCompiler.Artifact.Listing
import StagedCompiler.Manifest.Target
import StagedCompiler.Path

/-!
# Artifacts

What a unit is compiled to: the text of a listing, or a bundle of the module and its descriptors.
-/

namespace StagedCompiler

/-- The result of compiling a unit. -/
inductive Artifact : Type where
  | listing (unit text : String)
  | bundle (unit json : String)
  deriving DecidableEq, Repr

namespace Artifact

/-- The unit that an artifact belongs to. -/
def unit : Artifact → String
  | .listing unit _ | .bundle unit _ => unit

/-- The text of an artifact. -/
def content : Artifact → String
  | .listing _ text => text
  | .bundle _ json => json

/-- The name of the file that an artifact is written to. -/
def fileName : Artifact → String
  | .listing unit _ => unit ++ ".lst"
  | .bundle unit _ => unit ++ ".bundle.json"

/-- The path of the file that an artifact is written to, below a directory. -/
def path (a : Artifact) (base : Path) : Path := base / ⟨a.fileName⟩

/-- The name of the backend for a target. -/
def backendName : Target → String
  | .native => "listing"
  | .bundle => "bundle"

/-- The artifact of a module for a target. -/
def generate (target : Target) (m : Module) (descriptors : Descriptor.Table) :
    Except Listing.Stop Artifact :=
  match target with
  | .native => do
    let listing ← Listing.ofModule m descriptors
    pure (.listing listing.unit listing.render)
  | .bundle => do
    let unit ← m.name.mapError .outOfRange
    pure (.bundle unit (m.bundleJson unit descriptors).pretty)

end Artifact

end StagedCompiler
