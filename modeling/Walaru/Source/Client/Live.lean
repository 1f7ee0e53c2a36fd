import Walaru.Lib.Text

/-!
# The editor client's path rule

`live.js`: the workspace-relative paths whose changes the client ignores. A path
is text with `/` separators.
-/
namespace Walaru.Client
open Lib.Text

def generatedPathSegments : List String := [".git", ".gradle", ".idea", ".kotlin", "node_modules"]

def generatedOutputSegments : List String := ["build", "dist", "out", "target"]

def ignoredWorkspacePath (relative : String) : Bool :=
  let segments := splitChar '/' relative
  if segments.any fun segment => segment ∈ generatedPathSegments then true
  else
    let sourceIndex := segments.findIdx? fun segment => segment = "src"
    segments.zipIdx.any fun (segment, index) =>
      segment ∈ generatedOutputSegments && sourceIndex.all fun source => index < source

example : ignoredWorkspacePath ".gradle/walaru/live/vscode/mirror/src/App.java" = true := by decide
example : ignoredWorkspacePath "module/src/main/java/example/target/App.java" = false := by decide

end Walaru.Client
