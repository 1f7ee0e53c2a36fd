import Walaru.Source.Runner.Runner

/-!
# The exit status of the runner

A failed test makes the exit status 1. A failed container is not recorded, and neither is a
failure within the success percentage of a test, so a run whose failures are all of these
kinds exits with 0.
-/
namespace Walaru.Runner

variable {Throwable : Type}

/-- The test that a callback of the JUnit Platform adds. -/
def JUnitCallback.executed : JUnitCallback Throwable → Option (ExecutedTest Throwable)
  | .executionFinished test status throwable =>
    if test.isTest then
      some ⟨test.publicName, test.uniqueId, test.displayName, status.name, throwable⟩
    else none
  | _ => none

/-- The test that a callback of TestNG adds. -/
def TestNgCallback.executed : TestNgCallback Throwable → Option (ExecutedTest Throwable)
  | .onTestSuccess result =>
    some ⟨result.publicName, "testng:" ++ result.publicName, result.name, "successful", none⟩
  | .onTestFailure result | .onTestFailedWithTimeout result =>
    some ⟨result.publicName, "testng:" ++ result.publicName, result.name, "failed", result.throwable⟩
  | .onTestSkipped result =>
    some ⟨result.publicName, "testng:" ++ result.publicName, result.name, "aborted", result.throwable⟩
  | .onTestStart _ | .onTestFailedButWithinSuccessPercentage _ => none

/-- A callback that reports a failure of a test or a container. -/
def JUnitCallback.Failed : JUnitCallback Throwable → Prop
  | .executionFinished _ status _ => status = .failed
  | _ => False

def TestNgCallback.Failed : TestNgCallback Throwable → Prop
  | .onTestFailure _ | .onTestFailedWithTimeout _ | .onTestFailedButWithinSuccessPercentage _ => True
  | _ => False

def Callbacks.Failed (callbacks : Callbacks Throwable) : Prop :=
  (∃ callback ∈ callbacks.junit, callback.Failed) ∨ ∃ callback ∈ callbacks.testng, callback.Failed

/-- What the frameworks call, when the arguments are read and they return. -/
def ran (validPath : String → Bool) (platform : RunnerRequest → Option (Callbacks Throwable))
    (arguments : List String) : Option (Callbacks Throwable) :=
  (parse validPath arguments).bind platform

end Walaru.Runner
