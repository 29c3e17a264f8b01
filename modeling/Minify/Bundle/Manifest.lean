import Minify.Bundle

/-!
Manifests: files that list bundles, as JSON. Their paths are seen from the directory of the
manifest.
-/

namespace Minify

namespace Bundle

def fieldNames : List String := ["inputs", "output", "header", "options"]

def toJson (b : Bundle) : Json :=
  .obj (fieldNames.zip [
    .arr (b.inputs.map .str), .str b.output, (b.header.map Json.str).getD .null,
    b.options.toJson])

open Json in
/-- A bundle out of JSON, with `level` containers around it. -/
def ofJson? (level : Nat) (v : Json) : Option Bundle := do
  let d : Bundle := {}
  match ← v.record? fieldNames with
  | [inputs, output, header, options] =>
    return {
      inputs := ← fieldOr? d.inputs (list? str?) inputs
      output := ← fieldOr? d.output str? output
      header := ← fieldOr? d.header nullable? header
      options := ← fieldOr? d.options (Options.ofJson? (level + 1)) options }
  | _ => none

/-- The bundle with its paths seen from a directory. -/
def within (dir : String) (b : Bundle) : Bundle :=
  { b with inputs := b.inputs.map (Path.join dir), output := Path.join dir b.output }

end Bundle

structure Manifest where
  bundles : List Bundle := []
  deriving DecidableEq

namespace Manifest

def defaultName : String := "packr.json"

def fieldNames : List String := ["bundles"]

def toJson (mf : Manifest) : Json :=
  .obj (fieldNames.zip [.arr (mf.bundles.map Bundle.toJson)])

open Json in
def ofJson? (v : Json) : Option Manifest := do
  match ← v.record? fieldNames with
  | [bundles] =>
    return ⟨← fieldOr? [] (list? (Bundle.ofJson? 2)) bundles⟩
  | _ => none

def ofString? (s : String) : Option Manifest := (Json.parse? s).bind ofJson?

/-- The manifest with its paths seen from a directory. -/
def within (dir : String) (mf : Manifest) : Manifest := ⟨mf.bundles.map (Bundle.within dir)⟩

variable {m : Type → Type} [Monad m] [FileStore m]

def load (path : String) : ExceptT BundleError m Manifest := do
  let text ← (FileStore.readText path).adapt (.read path)
  match ofString? text with
  | some mf => return mf.within ((Path.parent? path).getD "")
  | none => throw (.manifest path)

/-- Builds the bundles of a manifest. -/
def build (path : String) : ExceptT BundleError m (List BundleReport) := do
  Bundle.buildAll (← load path).bundles

end Manifest

end Minify
