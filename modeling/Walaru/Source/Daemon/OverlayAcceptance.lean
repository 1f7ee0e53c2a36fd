import Walaru.Lib.FilePlaces
import Walaru.Source.Daemon.OverlayFiles

/-!
# Which requests are accepted

The checks of a request look at one document after the other and stop at the first that
fails. What passes all of them does not depend on the order: each path and content by
itself, each pair of paths, and the sum of the sizes.
-/
namespace Walaru.Overlay
open Lib.Text Lib.FileTree

/-- What `validate_relative_path` accepts. -/
theorem validateRelativePath_iff {value : String} :
    validateRelativePath value = .ok () ↔
      value ≠ "" ∧ (utf8 value).length ≤ 4096 ∧ '\\' ∉ value.toList ∧
        value.toList.any isControl = false ∧ "" ∉ splitChar '/' value ∧
        (splitChar '/' value).head? ≠ some "." ∧ ".." ∉ splitChar '/' value := by
  unfold validateRelativePath
  split_ifs with first second
  · refine iff_of_false (by simp) fun good => ?_
    rcases first with empty | long | backslash | control | gap
    · exact good.1 empty
    · exact absurd good.2.1 (Nat.not_le.mpr long)
    · exact good.2.2.1 (by simpa [containsChar] using backslash)
    · simp [good.2.2.2.1] at control
    · exact good.2.2.2.2.1 gap
  · exact iff_of_false (by simp) fun good => second.elim good.2.2.2.2.2.1 good.2.2.2.2.2.2
  · simp only [not_or] at first second
    refine iff_of_true rfl ⟨first.1, Nat.not_lt.mp first.2.1, ?_, by simpa using first.2.2.2.1,
      first.2.2.2.2, second.1, second.2⟩
    simpa [containsChar] using first.2.2.1

/-- One text continues another behind a slash when it has further pieces. -/
theorem continues_iff {outer inner : String} :
    continues outer inner = true ↔
      splitChar '/' outer <+: splitChar '/' inner ∧ outer ≠ inner := by
  unfold continues startsWith
  rw [List.isPrefixOf_iff_prefix]
  constructor
  · rintro ⟨rest, whole⟩
    have text : inner = outer ++ String.singleton '/' ++ String.ofList rest := by
      apply String.toList_inj.mp
      simpa using whole.symm
    refine ⟨⟨splitChar '/' (String.ofList rest), ?_⟩, ?_⟩
    · rw [text, splitChar_append_singleton]
    · rintro rfl
      have length := congrArg List.length whole
      simp only [String.toList_append, List.length_append] at length
      have slash : "/".toList.length = 1 := rfl
      omega
  · rintro ⟨⟨rest, pieces⟩, different⟩
    have more : rest ≠ [] := by
      rintro rfl
      rw [List.append_nil] at pieces
      exact different (splitChar_injective pieces)
    have text : inner = outer ++ "/" ++ joinChar '/' rest := by
      apply splitChar_injective (c := '/')
      have joined : splitChar '/' (joinChar '/' rest) = rest := by
        rw [joinChar]
        refine splitChar_intercalate more fun piece member => ?_
        exact splitChar_free (pieces ▸ List.mem_append_right _ member)
      rw [show ("/" : String) = String.singleton '/' from rfl, splitChar_append_singleton, joined,
        pieces]
    exact ⟨(joinChar '/' rest).toList, by rw [text]; simp⟩

/-- The texts of two documents may stand in one request. -/
def TextsApart (first second : String) : Prop :=
  continues first second = false ∧ continues second first = false ∧ first ≠ second

theorem TextsApart.symm {first second : String} (apart : TextsApart first second) :
    TextsApart second first := ⟨apart.2.1, apart.1, Ne.symm apart.2.2⟩

theorem textsApart_iff {first second : String} :
    TextsApart first second ↔ Entries.Apart (splitChar '/' first) (splitChar '/' second) := by
  simp only [TextsApart, ← Bool.not_eq_true, continues_iff, Entries.Apart, not_and, not_not]
  constructor
  · intro ⟨below, above, different⟩
    exact ⟨fun inside => different (below inside), fun inside => different (above inside).symm⟩
  · intro ⟨below, above⟩
    refine ⟨fun inside => absurd inside below, fun inside => absurd inside above, ?_⟩
    rintro rfl
    exact below (List.prefix_refl _)

def contentBytes (document : OverlayDocument) : Nat := (utf8 document.content).length

theorem validateDocuments_iff {documents : List OverlayDocument} {paths : List String} {total : Nat}
    (small : total ≤ maxOverlayBytes) :
    validateDocuments paths total documents = .ok () ↔
      (∀ document ∈ documents, validateRelativePath document.path = .ok () ∧
        contentBytes document ≤ maxOverlayDocumentBytes ∧
        ∀ path ∈ paths, TextsApart path document.path) ∧
      documents.Pairwise (fun a b => TextsApart a.path b.path) ∧
      total + (documents.map contentBytes).sum ≤ maxOverlayBytes := by
  induction documents generalizing paths total with
  | nil => simpa [validateDocuments] using small
  | cons document rest ih =>
    rw [List.forall_mem_cons, List.pairwise_cons, List.map_cons, List.sum_cons]
    have first : validateDocuments paths total (document :: rest) = .ok () ↔
        (validateRelativePath document.path = .ok () ∧
          contentBytes document ≤ maxOverlayDocumentBytes ∧
          ∀ path ∈ paths, TextsApart path document.path) ∧
        total + contentBytes document ≤ maxOverlayBytes ∧
        validateDocuments (document.path :: paths) (total + contentBytes document) rest = .ok () := by
      rw [validateDocuments]
      cases valid : validateRelativePath document.path with
      | error e => simp [bind, Except.bind]
      | ok done =>
        have pairs : (∀ path ∈ paths, TextsApart path document.path) ↔
            (paths.any fun existing =>
              continues existing document.path || continues document.path existing) = false ∧
            document.path ∉ paths := by
          simp only [TextsApart, List.any_eq_false, Bool.or_eq_true, not_or, Bool.not_eq_true]
          constructor
          · intro apart
            exact ⟨fun path inside => ⟨(apart path inside).1, (apart path inside).2.1⟩,
              fun inside => (apart _ inside).2.2 rfl⟩
          · rintro ⟨apart, fresh⟩ path inside
            refine ⟨(apart path inside).1, (apart path inside).2, ?_⟩
            rintro rfl
            exact fresh inside
        rw [pairs]
        simp only [bind, Except.bind, throw, throwThe, MonadExceptOf.throw]
        by_cases conflict : (paths.any fun existing =>
            continues existing document.path || continues document.path existing) = true
        · simp [conflict]
        · by_cases again : document.path ∈ paths
          · simp [conflict, again]
          · by_cases large : maxOverlayDocumentBytes < contentBytes document
            · have tooLarge := Nat.not_le.mpr large
              unfold contentBytes at large tooLarge
              simp [conflict, again, large, tooLarge, contentBytes]
            · by_cases over_ : maxOverlayBytes < total + contentBytes document
              · have tooMuch := Nat.not_le.mpr over_
                unfold contentBytes at large over_ tooMuch
                simp [conflict, again, large, over_, tooMuch, contentBytes]
              · have fits := Nat.not_lt.mp over_
                have short := Nat.not_lt.mp large
                unfold contentBytes at large over_ fits short
                simp [conflict, again, large, over_, fits, short, contentBytes]
    rw [first]
    constructor
    · rintro ⟨own, fits, later⟩
      obtain ⟨each, pairs, sum⟩ := (ih fits).mp later
      refine ⟨⟨own, fun other member => ?_⟩, ⟨fun other member => ?_, pairs⟩, by omega⟩
      · obtain ⟨valid, short, apart⟩ := each other member
        exact ⟨valid, short, fun path inside => apart path (List.mem_cons_of_mem _ inside)⟩
      · exact (each other member).2.2 _ List.mem_cons_self
    · rintro ⟨⟨own, each⟩, ⟨next, pairs⟩, sum⟩
      have fits : total + contentBytes document ≤ maxOverlayBytes := by omega
      refine ⟨own, fits, (ih fits).mpr ⟨fun other member => ?_, pairs, by omega⟩⟩
      obtain ⟨valid, short, apart⟩ := each other member
      refine ⟨valid, short, fun path inside => ?_⟩
      rcases List.mem_cons.mp inside with rfl | inside
      · exact next other member
      · exact apart path inside

theorem validate_iff {overlay : OverlayRequest} :
    validate overlay = .ok () ↔
      validSessionId overlay.sessionId = true ∧ overlay.documents.length ≤ maxOverlayDocuments ∧
      (∀ document ∈ overlay.documents, validateRelativePath document.path = .ok () ∧
        contentBytes document ≤ maxOverlayDocumentBytes) ∧
      overlay.documents.Pairwise (fun a b => TextsApart a.path b.path) ∧
      (overlay.documents.map contentBytes).sum ≤ maxOverlayBytes := by
  unfold validate
  split_ifs with session many
  · simp [session]
  · refine iff_of_false (by simp) fun good => ?_
    exact absurd good.2.1 (Nat.not_le.mpr many)
  · rw [validateDocuments_iff (Nat.zero_le _)]
    simp [Nat.not_lt.mp many, eq_true_of_ne_false session]

/-- A request is accepted in every order of its documents or in none. -/
theorem validate_perm {sessionId : String} {documents other : List OverlayDocument}
    (perm : documents.Perm other) (valid : validate ⟨sessionId, documents⟩ = .ok ()) :
    validate ⟨sessionId, other⟩ = .ok () := by
  rw [validate_iff] at valid ⊢
  obtain ⟨session, count, each, pairs, sum⟩ := valid
  refine ⟨session, perm.length_eq ▸ count, fun document member => ?_, ?_, ?_⟩
  · exact each document (perm.mem_iff.mpr member)
  · exact perm.pairwise pairs fun apart => apart.symm
  · exact (perm.map contentBytes).sum_nat ▸ sum

/-- The pieces of a path text that are no dots. -/
def undotted (text : String) : List String := (splitChar '/' text).filter fun piece => piece ≠ "."

theorem undotted_of_not_mem {text : String} (free : "." ∉ splitChar '/' text) :
    undotted text = splitChar '/' text := by
  apply List.filter_eq_self.mpr
  intro piece member
  have other : piece ≠ "." := by
    rintro rfl
    exact free member
  simpa using other

theorem pathFromSlashes_eq (text : String) :
    pathFromSlashes text = (undotted text).filterMap pieceName := by
  rw [pathFromSlashes, undotted, List.filterMap_filter]
  apply List.filterMap_congr
  intro piece _
  by_cases dot : piece = "."
  · simp [dot, pieceName]
  · simp [dot]

/-- A validated text leads to a path of ordinary names, one for each piece but the dots. -/
theorem pathFromSlashes_names {text : String} (valid : validateRelativePath text = .ok ()) :
    (pathFromSlashes text).map FileName.toStringLossy = undotted text ∧
      ∀ name ∈ pathFromSlashes text, canonicalName name = true := by
  obtain ⟨backslash, occupied, dots⟩ := validateRelativePath_ok valid
  rw [pathFromSlashes_eq]
  refine texts_of_pieces fun piece member => ?_
  obtain ⟨member, dot⟩ := List.mem_filter.mp member
  refine ⟨?_, by simpa using dot, ?_, splitChar_free member, ?_⟩
  · rintro rfl
    exact occupied member
  · rintro rfl
    exact dots member
  · exact fun inside => backslash (splitChar_subset member inside)

theorem pathFromSlashes_ne_nil {text : String} (valid : validateRelativePath text = .ok ()) :
    pathFromSlashes text ≠ [] := by
  obtain ⟨-, -, -, -, -, first, -⟩ := validateRelativePath_iff.mp valid
  intro empty
  have pieces := (pathFromSlashes_names valid).1
  rw [empty, List.map_nil, undotted] at pieces
  obtain ⟨piece, rest, whole⟩ := List.exists_cons_of_ne_nil (splitChar_ne_nil '/' text)
  rw [whole] at pieces first
  have dot : piece ≠ "." := by simpa using first
  simp [dot] at pieces

/-- The paths of two validated texts are apart when their texts without dots are. -/
theorem apart_pathFromSlashes {first second : String} (valid : validateRelativePath first = .ok ())
    (valid' : validateRelativePath second = .ok ()) :
    Entries.Apart (pathFromSlashes first) (pathFromSlashes second) ↔
      Entries.Apart (undotted first) (undotted second) := by
  have inside {a b : String} (validA : validateRelativePath a = .ok ())
      (validB : validateRelativePath b = .ok ()) :
      pathFromSlashes a <+: pathFromSlashes b ↔ undotted a <+: undotted b := by
    constructor
    · intro above
      rw [← (pathFromSlashes_names validA).1, ← (pathFromSlashes_names validB).1]
      exact above.map _
    · intro above
      rw [pathFromSlashes_eq, pathFromSlashes_eq]
      exact above.filterMap _
  unfold Entries.Apart
  rw [inside valid valid', inside valid' valid]

end Walaru.Overlay
