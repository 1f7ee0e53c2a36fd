import Walaru.Lib.TextParts

/-!
# From a selection of test ids to the filters of each test task

The worker's `walaru.tests` property as `run_gradle` writes it, the plugin that reads
it back in every project, and the ids the agent gives to tests.
-/
namespace Walaru.Gradle
open Lib.Text

/-- A project's place in the build: the names below the root project. -/
structure ProjectPath where
  names : List String
  valid : ∀ name ∈ names, name ≠ "" ∧ ':' ∉ name.toList
  deriving DecidableEq

/-- `Project.path`. -/
def ProjectPath.text (path : ProjectPath) : String :=
  if path.names = [] then ":"
  else String.ofList (path.names.flatMap fun name => ':' :: name.toList)

def rootProject : ProjectPath := ⟨[], by simp⟩

/-- A test method as the agent records it. -/
structure TestId where
  owner : ProjectPath
  className : String
  methodName : String
  deriving DecidableEq

/-- `AgentBridge.qualify`. -/
def qualify (projectPath publicName : String) : String :=
  if projectPath = ":" then publicName else projectPath ++ "::" ++ publicName

/-- The recorded text of an id. -/
def TestId.text (id : TestId) : String :=
  qualify id.owner.text (id.className ++ "#" ++ id.methodName)

/-- Gradle's filter for the method. -/
def TestId.filter (id : TestId) : String := id.className ++ "." ++ id.methodName

/-- The value of `-Dwalaru.tests` in `run_gradle`; no argument for an empty selection. -/
def testsProperty (selectedTests : List String) : Option String :=
  if selectedTests.isEmpty then none
  else some (joinChar ',' (selectedTests.map (replaceChar '#' '.')))

/-- Kotlin's `Char.isWhitespace`. -/
def isWhitespace (c : Char) : Bool :=
  (9 ≤ c.toNat && c.toNat ≤ 13) || (28 ≤ c.toNat && c.toNat ≤ 32) || c.toNat = 0xA0 ||
    c.toNat = 0x1680 || (0x2000 ≤ c.toNat && c.toNat ≤ 0x200A) || c.toNat = 0x2028 ||
    c.toNat = 0x2029 || c.toNat = 0x202F || c.toNat = 0x205F || c.toNat = 0x3000

/-- `configuration.selectedTests`. -/
def selectedTests (property : Option String) : List String :=
  match property with
  | none => []
  | some value => ((splitChar ',' value).map (trimWhere isWhitespace)).filter fun t => t ≠ ""

/-- `substringBefore` and `substringAfter` with the delimiter `::`. -/
def substringBefore (s : String) : String :=
  ((cutChars [':', ':'] s.toList).map fun sides => String.ofList sides.1).getD s

def substringAfter (s : String) : String :=
  ((cutChars [':', ':'] s.toList).map fun sides => String.ofList sides.2).getD s

def selectorForProject (selector projectPath : String) : Option String :=
  if !startsWith ":" selector || !containsText "::" selector then some selector
  else if substringBefore selector = projectPath then some (substringAfter selector)
  else none

/-- What the plugin sets on a test task. -/
structure TestTask where
  enabled : Bool
  includes : List String
  deriving DecidableEq

def configureTestTask (requested : List String) (projectPath : String) : TestTask :=
  let selected := requested.filterMap fun selector => selectorForProject selector projectPath
  if !requested.isEmpty && selected.isEmpty then ⟨false, []⟩ else ⟨true, selected⟩

/-- The task of a project after a selection went through the property. -/
def testTask (selection : List TestId) (project : ProjectPath) : TestTask :=
  configureTestTask (selectedTests (testsProperty (selection.map TestId.text))) project.text

/-- A build: its projects, the root project among them. -/
structure Build where
  projects : List ProjectPath
  root_mem : rootProject ∈ projects

example : testTask [⟨⟨["app"], by decide⟩, "demo.AppTest", "works"⟩] rootProject = ⟨false, []⟩ := by
  decide +kernel

end Walaru.Gradle
