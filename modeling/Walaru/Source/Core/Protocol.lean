import Std.Data.ExtTreeMap
import Std.Data.ExtTreeSet
import Walaru.Source.Core.Json

/-!
# Capability manifests

The guarantee attached to every recording. `BTreeMap` and `BTreeSet` of the
source are the extensional search trees of the standard library: iteration is in
key order and equality is equality of contents.
-/
namespace Walaru

abbrev BTreeMap (κ : Type) [Ord κ] (β : Type) := Std.ExtTreeMap κ β compare

abbrev BTreeSet (κ : Type) [Ord κ] := Std.ExtTreeSet κ compare

/-- Degree to which a recording can be replayed. -/
inductive Completeness where
  | complete | partial_ | unsupported
  deriving DecidableEq, Repr

structure CapabilityManifest where
  backend : String
  completeness : Completeness
  supported : List String
  /-- Capability to precise reason. -/
  unavailable : BTreeMap String String
  deriving DecidableEq

end Walaru
