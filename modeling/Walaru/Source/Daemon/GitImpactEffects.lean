import Walaru.Source.Daemon.GitImpact

/-!
# When a git reference narrows a run

The whole answer of `impacted_tests_since_git` in one condition on its inputs, and the
tests that a narrowed answer holds.
-/
namespace Walaru

/-- A record that may be narrowed: a modified main source with the surface of its blob
and with known tests. -/
structure Narrowable (env : GitImpactEnv) (s : EvidenceStore) (current : RevisionSnapshot)
    (reference : String) (record : List UInt8 × List UInt8) : Prop where
  modified : Lib.Utf8.decodeLossy record.1 = "M"
  main : implementationSource (gitPath record.2) = true
  surface : ∃ surface old, current.surfaceDigests.get? (gitPath record.2) = some surface ∧
    (env.git reference).blob (gitPath record.2) = .ok old ∧ old.success = true ∧
    surfaceAt env (gitPath record.2) old.stdout = surface
  known : ∃ tests, s.selectImpact (gitPath record.2) (moduleForPath (gitPath record.2)) = .exact tests

/-- The inputs on which these records narrow the run. -/
structure NarrowsBy (env : GitImpactEnv) (s : EvidenceStore) (current : RevisionSnapshot)
    (reference : String) (records : List (List UInt8 × List UInt8)) : Prop where
  valid : validReference reference = true
  diff : ∃ output, (env.git reference).diff = .ok output ∧ output.success = true ∧
    chunkPairs (nulFields output.stdout) = some records
  untracked : ∃ output, (env.git reference).untracked = .ok output ∧ output.success = true ∧
    (nulFields output.stdout).any (untrackedInput env) = false
  occupied : records ≠ []
  narrowable : ∀ record ∈ records, Narrowable env s current reference record

def changedPaths (records : List (List UInt8 × List UInt8)) : List String :=
  records.map fun record => gitPath record.2

variable {env : GitImpactEnv} {s : EvidenceStore} {current : RevisionSnapshot} {reference : String}

theorem changedTests_ok {record : List UInt8 × List UInt8} {tests : List String} :
    changedTests env s current reference record = .ok (some tests) ↔
      Narrowable env s current reference record ∧
        s.selectImpact (gitPath record.2) (moduleForPath (gitPath record.2)) = .exact tests := by
  constructor
  · intro answered
    simp only [changedTests] at answered
    split at answered
    · cases answered
    · rename_i edited
      rw [not_or, not_not, Bool.not_eq_false] at edited
      split at answered
      · cases answered
      · rename_i surface found
        split at answered
        · cases answered
        · rename_i old read
          split at answered
          · cases answered
          · rename_i same
            rw [not_or, Bool.not_eq_false, not_not] at same
            split at answered
            · rename_i known exact_
              cases answered
              have shown : Narrowable env s current reference record :=
                ⟨edited.1, edited.2, ⟨surface, old, found, read, same.1, same.2⟩, ⟨_, exact_⟩⟩
              exact ⟨shown, exact_⟩
            · cases answered
  · intro ⟨⟨modified, main, ⟨surface, old, found, read, success, same⟩, _⟩, exact_⟩
    have edited : ¬ (Lib.Utf8.decodeLossy record.1 ≠ "M" ∨
        implementationSource (gitPath record.2) = false) := by
      simp [modified, main]
    have kept : ¬ (old.success = false ∨ surfaceAt env (gitPath record.2) old.stdout ≠ surface) := by
      simp [success, same]
    simp only [changedTests, if_neg edited, found, read, if_neg kept, exact_]

theorem selectChanged_ok {records : List (List UInt8 × List UInt8)}
    {start selected : BTreeSet String}
    (answered : selectChanged env s current reference start records = .ok (some selected)) :
    (∀ record ∈ records, Narrowable env s current reference record) ∧
      ∀ id, id ∈ selected ↔ id ∈ start ∨
        ∃ row ∈ s.dependencies, row.subject ∈ changedPaths records ∧ row.testId = id := by
  induction records generalizing start with
  | nil =>
    cases answered
    simp [changedPaths]
  | cons record rest ih =>
    simp only [selectChanged] at answered
    split at answered
    · cases answered
    · cases answered
    · rename_i tests first
      obtain ⟨narrowable, exact_⟩ := changedTests_ok.mp first
      obtain ⟨others, members⟩ := ih answered
      refine ⟨List.forall_mem_cons.mpr ⟨narrowable, others⟩, ?_⟩
      intro id
      rw [members, mem_extend, (selectImpact_exact exact_).2]
      simp only [changedPaths, List.map_cons, List.mem_cons]
      constructor
      · rintro ((old | ⟨row, member, here, same⟩) | ⟨row, member, later, same⟩)
        · exact .inl old
        · exact .inr ⟨row, member, .inl here, same⟩
        · exact .inr ⟨row, member, .inr later, same⟩
      · rintro (old | ⟨row, member, here | later, same⟩)
        · exact .inl (.inl old)
        · exact .inl (.inr ⟨row, member, here, same⟩)
        · exact .inr ⟨row, member, later, same⟩

theorem selectChanged_of_narrowable {records : List (List UInt8 × List UInt8)}
    (narrowable : ∀ record ∈ records, Narrowable env s current reference record)
    (start : BTreeSet String) :
    ∃ selected, selectChanged env s current reference start records = .ok (some selected) := by
  induction records generalizing start with
  | nil => exact ⟨start, rfl⟩
  | cons record rest ih =>
    obtain ⟨first, others⟩ := List.forall_mem_cons.mp narrowable
    obtain ⟨tests, exact_⟩ := first.known
    have added := changedTests_ok.mpr ⟨first, exact_⟩
    obtain ⟨selected, answered⟩ := ih others (tests.foldl (fun set test => set.insert test) start)
    exact ⟨selected, by rw [selectChanged, added]; exact answered⟩

/-- A narrowed answer: what it rests on and which tests it holds. -/
theorem impactedTestsSinceGit_ok {tests : List String}
    (answered : impactedTestsSinceGit env s current reference = .ok (some tests)) :
    ∃ records, NarrowsBy env s current reference records ∧
      ∀ id, id ∈ tests ↔
        ∃ row ∈ s.dependencies, row.subject ∈ changedPaths records ∧ row.testId = id := by
  simp only [impactedTestsSinceGit] at answered
  split at answered
  · cases answered
  · rename_i valid
    split at answered
    · cases answered
    · rename_i output diff
      split at answered
      · cases answered
      · rename_i success
        split at answered
        · cases answered
        · rename_i others untracked
          split at answered
          · cases answered
          · rename_i listed
            split at answered
            · cases answered
            · rename_i outside
              split at answered
              · cases answered
              · rename_i records chunked
                split at answered
                · cases answered
                · cases answered
                · rename_i selected chosen
                  obtain ⟨narrowable, members⟩ := selectChanged_ok chosen
                  split at answered
                  · cases answered
                  · rename_i occupied
                    cases answered
                    refine ⟨records, ⟨by simpa using valid, ⟨output, diff, by simpa using success,
                      chunked⟩, ⟨others, untracked, by simpa using listed, by simpa using outside⟩,
                      ?_, narrowable⟩, ?_⟩
                    · rintro rfl
                      cases chosen
                      exact occupied rfl
                    · intro id
                      rw [Std.ExtTreeSet.mem_toList, members]
                      simp

theorem impactedTestsSinceGit_of_narrows {records : List (List UInt8 × List UInt8)}
    (narrows : NarrowsBy env s current reference records) :
    ∃ tests, impactedTestsSinceGit env s current reference = .ok (some tests) := by
  obtain ⟨valid, ⟨output, diff, success, chunked⟩, ⟨others, untracked, listed, outside⟩, occupied,
    narrowable⟩ := narrows
  obtain ⟨selected, chosen⟩ := selectChanged_of_narrowable narrowable ∅
  have filled : selected.isEmpty = false := by
    obtain ⟨record, rest, rfl⟩ := List.exists_cons_of_ne_nil occupied
    obtain ⟨tests, exact_⟩ := (narrowable record (by simp)).known
    obtain ⟨some_, members⟩ := selectImpact_exact exact_
    obtain ⟨test, rest', rfl⟩ := List.exists_cons_of_ne_nil some_
    obtain ⟨row, member, subject, same⟩ := (members test).mp (by simp)
    have inside := ((selectChanged_ok chosen).2 test).mpr
      (.inr ⟨row, member, by simp [changedPaths, subject], same⟩)
    rw [Std.ExtTreeSet.isEmpty_eq_false_iff]
    rintro rfl
    simp at inside
  refine ⟨selected.toList, ?_⟩
  simp [impactedTestsSinceGit, valid, diff, success, untracked, listed, outside, chunked, chosen,
    filled]

end Walaru
