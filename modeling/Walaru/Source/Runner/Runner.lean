import Mathlib.Data.List.Basic

/-!
# The test runner

`Runner.kt`: the arguments, the two listeners and the exit status. What the JUnit Platform
and TestNG do is the sequence of callbacks that they make; `platform` stands for them, and
nothing when they throw. The lifecycle calls and the reading of a throwable return, so a
throwable is kept as it is. Coroutine snapshots are left out, and the result file is
written.
-/
namespace Walaru.Runner

structure RunnerRequest where
  testRoots : List String
  selectors : List String
  resultFile : Option String
  captureCoroutines : Bool
  deriving DecidableEq, Repr

/-- `RunnerArguments.parse`; `none` is an `IllegalArgumentException`, also that of `Path.of`. -/
def parse (validPath : String → Bool) : List String → Option RunnerRequest
  | [] => some ⟨[], [], none, false⟩
  | argument :: rest => do
    let request ← parse validPath rest
    if let some root := argument.dropPrefix? "--test-root=" then
      if validPath root.toString then
        return { request with testRoots := root.toString :: request.testRoots }
      else none
    else if let some selector := argument.dropPrefix? "--select=" then
      return { request with selectors := selector.toString :: request.selectors }
    else if let some result := argument.dropPrefix? "--result=" then
      if validPath result.toString then
        -- The last one of the arguments counts.
        return { request with resultFile := request.resultFile.or (some result.toString) }
      else none
    else if argument = "--coroutines" then return { request with captureCoroutines := true }
    else none

inductive Status where
  | successful | aborted | failed
  deriving DecidableEq, Repr

/-- `result.status.name.lowercase()`. -/
def Status.name : Status → String
  | .successful => "successful"
  | .aborted => "aborted"
  | .failed => "failed"

/-- A method source has a class and a method name. -/
structure TestIdentifier where
  uniqueId : String
  isTest : Bool
  displayName : String
  legacyReportingName : String
  methodSource : Option (String × String)
  deriving DecidableEq, Repr

section Listeners
variable {Throwable : Type}

/-- The callbacks of a `TestExecutionListener` about one test or container. -/
inductive JUnitCallback (Throwable : Type) where
  | executionStarted (test : TestIdentifier)
  | executionSkipped (test : TestIdentifier) (reason : String)
  | executionFinished (test : TestIdentifier) (status : Status) (throwable : Option Throwable)
  deriving DecidableEq

structure TestResult (Throwable : Type) where
  className : String
  methodName : String
  name : String
  throwable : Option Throwable
  deriving DecidableEq

/-- The callbacks of an `ITestListener` about one test. -/
inductive TestNgCallback (Throwable : Type) where
  | onTestStart (result : TestResult Throwable)
  | onTestSuccess (result : TestResult Throwable)
  | onTestFailure (result : TestResult Throwable)
  | onTestSkipped (result : TestResult Throwable)
  | onTestFailedButWithinSuccessPercentage (result : TestResult Throwable)
  | onTestFailedWithTimeout (result : TestResult Throwable)
  deriving DecidableEq

inductive LifecycleCall (Throwable : Type) where
  | started (uniqueId publicName : String)
  | finished (uniqueId publicName status : String) (failure : Option Throwable)
  deriving DecidableEq

structure ExecutedTest (Throwable : Type) where
  id : String
  uniqueId : String
  displayName : String
  status : String
  failure : Option Throwable
  deriving DecidableEq

/-- What a listener has kept, and the lifecycle calls it has made. -/
structure Recorded (Throwable : Type) where
  tests : List (ExecutedTest Throwable)
  calls : List (LifecycleCall Throwable)
  deriving DecidableEq

def TestIdentifier.publicName (identifier : TestIdentifier) : String :=
  match identifier.methodSource with
  | some (className, methodName) => className ++ "#" ++ methodName
  | none => identifier.legacyReportingName

/-- Callbacks that are not overridden do nothing. -/
def Recorded.junit (s : Recorded Throwable) : JUnitCallback Throwable → Recorded Throwable
  | .executionStarted test =>
    if test.isTest then { s with calls := s.calls ++ [.started test.uniqueId test.publicName] } else s
  | .executionSkipped _ _ => s
  | .executionFinished test status throwable =>
    if test.isTest then
      { tests := s.tests ++
          [⟨test.publicName, test.uniqueId, test.displayName, status.name, throwable⟩]
        calls := s.calls ++ [.finished test.uniqueId test.publicName status.name throwable] }
    else s

def TestResult.publicName (result : TestResult Throwable) : String :=
  result.className ++ "#" ++ result.methodName

def Recorded.finished (s : Recorded Throwable) (result : TestResult Throwable) (status : String)
    (throwable : Option Throwable) : Recorded Throwable :=
  let id := result.publicName
  { tests := s.tests ++ [⟨id, "testng:" ++ id, result.name, status, throwable⟩]
    calls := s.calls ++ [.finished ("testng:" ++ id) id status throwable] }

/-- `onTestFailedWithTimeout` calls `onTestFailure` and
`onTestFailedButWithinSuccessPercentage` does nothing, as they do by default. -/
def Recorded.testng (s : Recorded Throwable) : TestNgCallback Throwable → Recorded Throwable
  | .onTestStart result =>
    { s with calls := s.calls ++ [.started ("testng:" ++ result.publicName) result.publicName] }
  | .onTestSuccess result => s.finished result "successful" none
  | .onTestFailure result => s.finished result "failed" result.throwable
  | .onTestSkipped result => s.finished result "aborted" result.throwable
  | .onTestFailedButWithinSuccessPercentage _ => s
  | .onTestFailedWithTimeout result => s.finished result "failed" result.throwable

structure RunnerResult (Throwable : Type) where
  executed : Nat
  passed : Nat
  failed : Nat
  tests : List (ExecutedTest Throwable)
  deriving DecidableEq

/-- What the JUnit Platform and then TestNG call. -/
structure Callbacks (Throwable : Type) where
  junit : List (JUnitCallback Throwable)
  testng : List (TestNgCallback Throwable)
  deriving DecidableEq

/-- `RunnerEngine.execute`, once both frameworks have run. -/
def execute (callbacks : Callbacks Throwable) : RunnerResult Throwable :=
  let tests := (callbacks.junit.foldl Recorded.junit ⟨[], []⟩).tests ++
    (callbacks.testng.foldl Recorded.testng ⟨[], []⟩).tests
  { executed := tests.length
    passed := tests.countP fun test => test.status = "successful"
    failed := tests.countP fun test => test.status = "failed"
    tests := tests }

/-- The exit status of `RunnerMain.main`. -/
def main (validPath : String → Bool) (platform : RunnerRequest → Option (Callbacks Throwable))
    (arguments : List String) : Nat :=
  match parse validPath arguments with
  | none => 2
  | some request =>
    match platform request with
    | none => 2
    | some callbacks => if 0 < (execute callbacks).failed then 1 else 0

end Listeners
end Walaru.Runner
