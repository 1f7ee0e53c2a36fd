import Walaru.Source.Client.OverlayManifest

/-!
# Paths that client and daemon accept

The client takes a path that Node's normalisation leaves alone, the daemon one whose
components are names. The two differ over the control characters behind ASCII, over a
slash at the end and over dots, and agree on every other text.
-/
namespace Walaru.Client
open Lib.Text Overlay Lib.FileTree

theorem splitChar_joined {pieces : List String} (some_ : pieces ≠ [])
    (free : ∀ piece ∈ pieces, '/' ∉ piece.toList) : splitChar '/' (joinChar '/' pieces) = pieces :=
  splitChar_intercalate some_ free

theorem slash_behind {pieces : List String} (some_ : pieces ≠ [])
    (free : ∀ piece ∈ pieces, '/' ∉ piece.toList) :
    splitChar '/' (joinChar '/' pieces ++ "/") = pieces ++ [""] := by
  have whole : joinChar '/' pieces ++ "/" = joinChar '/' pieces ++ String.singleton '/' ++ "" := by
    simp
  rw [whole, splitChar_append_singleton, splitChar_joined some_ free]
  rfl

theorem endsWith_slash_iff {value : String} :
    endsWith "/" value = true ↔ ∃ front, front ≠ [] ∧ splitChar '/' value = front ++ [""] := by
  unfold endsWith
  rw [List.isSuffixOf_iff_suffix]
  constructor
  · rintro ⟨front, whole⟩
    have text : value = String.ofList front ++ String.singleton '/' ++ "" := by
      apply String.toList_inj.mp
      simpa using whole.symm
    refine ⟨splitChar '/' (String.ofList front), splitChar_ne_nil _ _, ?_⟩
    rw [text, splitChar_append_singleton]
    rfl
  · rintro ⟨front, some_, pieces⟩
    have free : ∀ piece ∈ front, '/' ∉ piece.toList := fun piece member =>
      splitChar_free (pieces ▸ List.mem_append_left _ member)
    have text : value = joinChar '/' front ++ "/" :=
      splitChar_injective (pieces.trans (slash_behind some_ free).symm)
    exact ⟨(joinChar '/' front).toList, by rw [text]; simp⟩

/-- A text that climbs starts with two dots as a piece of their own. -/
theorem climbs_iff {value : String} :
    value = ".." ∨ startsWith "../" value = true ↔ (splitChar '/' value).head? = some ".." := by
  have dots : splitChar '/' ".." = [".."] := by decide +kernel
  have further : startsWith "../" value = continues ".." value := rfl
  rw [further, continues_iff, dots]
  constructor
  · rintro (rfl | ⟨⟨rest, pieces⟩, -⟩)
    · rw [dots]
      rfl
    · rw [← pieces]
      rfl
  · intro first
    by_cases same : value = ".."
    · exact .inl same
    · refine .inr ⟨?_, Ne.symm same⟩
      cases whole : splitChar '/' value with
      | nil => exact absurd whole (splitChar_ne_nil _ _)
      | cons piece rest =>
        rw [whole] at first
        obtain rfl : piece = ".." := Option.some.inj first
        exact ⟨rest, rfl⟩

/-- Names with slashes between them, perhaps one more at the end. -/
def NamesText (value : String) : Prop :=
  ∃ segments, segments ≠ [] ∧ (∀ segment ∈ segments, Proper segment) ∧
    (splitChar '/' value = segments ∨ splitChar '/' value = segments ++ [""])

section Normalize
variable {value : String}

theorem posixNormalize_names (relative : startsWith "/" value = false) (names : NamesText value) :
    posixNormalize value = value := by
  obtain ⟨segments, some_, proper, pieces⟩ := names
  have free : ∀ segment ∈ segments, '/' ∉ segment.toList := by
    intro segment member
    have inside : segment ∈ splitChar '/' value := by
      rcases pieces with same | same <;> simp [same, member]
    exact splitChar_free inside
  have kept : normalizedSegments true value = segments := by
    rcases pieces with same | same
    · simp [normalizedSegments, same, foldl_proper proper]
    · simp [normalizedSegments, same, foldl_proper proper, normalizeSegment]
  have occupied : joinChar '/' segments ≠ "" := by
    intro empty
    have single := splitChar_joined some_ free
    rw [empty, show splitChar '/' "" = [""] from rfl] at single
    exact (proper "" (by simp [← single])).1 rfl
  have present : value ≠ "" := by
    rintro rfl
    rcases pieces with same | same
    · exact (proper "" (by simp [← same, show splitChar '/' "" = [""] from rfl])).1 rfl
    · have length := congrArg List.length same
      have more := List.length_pos_iff.mpr some_
      rw [show splitChar '/' "" = [""] from rfl, List.length_append] at length
      simp only [List.length_singleton] at length
      omega
  simp only [posixNormalize, present, relative, normalizeString, Bool.not_false, kept, occupied,
    if_false, Bool.false_eq_true]
  rcases pieces with same | same
  · have open_ : endsWith "/" value ≠ true := by
      rw [ne_eq, endsWith_slash_iff]
      rintro ⟨front, -, closed⟩
      exact (proper "" (by rw [← same, closed]; simp)).1 rfl
    rw [if_neg open_, ← same, joinChar_splitChar]
  · rw [if_pos (endsWith_slash_iff.mpr ⟨segments, some_, same⟩)]
    exact splitChar_injective ((slash_behind some_ free).trans same.symm)

/-- A relative text that normalisation leaves alone and that does not climb consists of
names, or is a dot. -/
theorem posixNormalize_fixed_iff (occupied : value ≠ "") (relative : startsWith "/" value = false) :
    posixNormalize value = value ∧ (splitChar '/' value).head? ≠ some ".." ↔
      value = "." ∨ value = "./" ∨ NamesText value := by
  constructor
  · intro ⟨fixed, level⟩
    have kept := kept_segments value
    have free : ∀ segment ∈ normalizedSegments true value, '/' ∉ segment.toList := by
      intro segment member
      exact splitChar_free (kept.occupied segment (List.mem_reverse.mpr member)).1
    simp only [posixNormalize, occupied, relative, normalizeString, Bool.not_false, if_false,
      Bool.false_eq_true] at fixed
    by_cases none_ : normalizedSegments true value = []
    · rw [none_, show joinChar '/' [] = "" from rfl] at fixed
      by_cases trailing : endsWith "/" value = true
      · exact .inr (.inl (by simpa [trailing] using fixed.symm))
      · exact .inl (by simpa [trailing] using fixed.symm)
    · have present : joinChar '/' (normalizedSegments true value) ≠ "" := by
        intro empty
        have single := splitChar_joined none_ free
        rw [empty, show splitChar '/' "" = [""] from rfl] at single
        exact (kept.occupied "" (by simp [← single])).2.1 rfl
      rw [if_neg present] at fixed
      have pieces : splitChar '/' value = normalizedSegments true value ∨
          splitChar '/' value = normalizedSegments true value ++ [""] := by
        by_cases trailing : endsWith "/" value = true
        · rw [if_pos trailing] at fixed
          exact .inr ((congrArg (splitChar '/') fixed).symm.trans (slash_behind none_ free))
        · rw [if_neg trailing] at fixed
          exact .inl ((congrArg (splitChar '/') fixed).symm.trans (splitChar_joined none_ free))
      refine .inr (.inr ⟨_, none_, fun segment member => ?_, pieces⟩)
      obtain ⟨-, named, dot⟩ := kept.occupied segment (List.mem_reverse.mpr member)
      refine ⟨named, dot, ?_⟩
      rintro rfl
      have first := kept.climbs (List.mem_reverse.mpr member)
      rw [List.getLast?_reverse] at first
      rcases pieces with same | same
      · exact level (same ▸ first)
      · refine level ?_
        rw [same, List.head?_append, first]
        rfl
  · rintro (rfl | rfl | names)
    · decide +kernel
    · decide +kernel
    · refine ⟨posixNormalize_names relative names, ?_⟩
      obtain ⟨segments, some_, proper, pieces⟩ := names
      obtain ⟨first, rest, rfl⟩ := List.exists_cons_of_ne_nil some_
      have other := (proper first List.mem_cons_self).2.2
      rcases pieces with same | same <;> simpa [same] using other

end Normalize

/-- The client takes the text for a path. -/
def ClientAccepts (value : String) : Prop := ∃ normalized, normalizeRelativePath value = .ok normalized

/-- The daemon takes the text for a path. -/
def DaemonAccepts (value : String) : Prop := validateRelativePath value = .ok ()

/-- What both ask of the characters: some, not too many, no backslash and no control
character of ASCII. -/
structure PlainText (value : String) : Prop where
  occupied : value ≠ ""
  short : (utf8 value).length ≤ 4096
  separators : '\\' ∉ value.toList
  controls : value.toList.any clientControl = false

/-- A control character behind ASCII. -/
def laterControl (c : Char) : Bool := 128 ≤ c.toNat && c.toNat < 160

/-- The texts that only the client accepts: the dot, and names with a later control
character or with a slash at the end. -/
def OnlyClient (value : String) : Prop :=
  PlainText value ∧ (value = "." ∨ value = "./" ∨
    NamesText value ∧ (value.toList.any laterControl = true ∨ endsWith "/" value = true))

/-- The texts that only the daemon accepts: names with dots among them, though not first. -/
def OnlyDaemon (value : String) : Prop :=
  PlainText value ∧ value.toList.any laterControl = false ∧
    (∀ piece ∈ splitChar '/' value, piece ≠ "" ∧ piece ≠ "..") ∧
    (splitChar '/' value).head? ≠ some "." ∧ "." ∈ splitChar '/' value

theorem normalizeRelativePath_ok {value normalized : String} :
    normalizeRelativePath value = .ok normalized ↔
      normalized = value ∧ PlainText value ∧ startsWith "/" value = false ∧
        posixNormalize value = value ∧ (splitChar '/' value).head? ≠ some ".." := by
  have plain : PlainText value ↔ ¬ (value = "" ∨ 4096 < (utf8 value).length ∨
      containsChar '\\' value ∨ value.toList.any clientControl) := by
    simp only [not_or, Nat.not_lt, containsChar, List.contains_iff_mem, Bool.not_eq_true]
    constructor
    · exact fun plain => ⟨plain.occupied, plain.short, plain.separators, plain.controls⟩
    · rintro ⟨occupied, short, separators, controls⟩
      exact ⟨occupied, short, separators, controls⟩
  unfold normalizeRelativePath
  by_cases first : value = "" ∨ 4096 < (utf8 value).length ∨ containsChar '\\' value ∨
      value.toList.any clientControl
  · rw [if_pos first]
    exact iff_of_false (by simp) fun good => plain.mp good.2.1 first
  · rw [if_neg first]
    dsimp only
    by_cases bad : posixNormalize value ≠ value ∨ posixNormalize value = ".." ∨
        startsWith "../" (posixNormalize value) ∨ startsWith "/" value
    · rw [if_pos bad]
      refine iff_of_false (by simp) ?_
      rintro ⟨-, -, relative, fixed, level⟩
      rw [fixed] at bad
      rcases bad with other | dots | climbs | absolute
      · exact other rfl
      · exact level (climbs_iff.mp (.inl dots))
      · exact level (climbs_iff.mp (.inr climbs))
      · rw [relative] at absolute
        cases absolute
    · rw [if_neg bad]
      simp only [not_or] at bad
      obtain ⟨fixed, dots, climbs, absolute⟩ := bad
      replace fixed := not_not.mp fixed
      rw [fixed] at dots climbs ⊢
      constructor
      · intro same
        cases same
        refine ⟨rfl, plain.mpr first, eq_false_of_ne_true absolute, rfl, fun up => ?_⟩
        exact (climbs_iff.mpr up).elim dots climbs
      · rintro ⟨rfl, -⟩
        rfl

theorem clientAccepts_iff {value : String} :
    ClientAccepts value ↔ PlainText value ∧ (value = "." ∨ value = "./" ∨ NamesText value) := by
  unfold ClientAccepts
  simp only [normalizeRelativePath_ok, exists_eq_left]
  constructor
  · rintro ⟨plain, relative, fixed⟩
    exact ⟨plain, (posixNormalize_fixed_iff plain.occupied relative).mp fixed⟩
  · rintro ⟨plain, form⟩
    have relative : startsWith "/" value = false := by
      rcases form with rfl | rfl | ⟨segments, some_, proper, pieces⟩
      · rfl
      · rfl
      · obtain ⟨first, rest, rfl⟩ := List.exists_cons_of_ne_nil some_
        have occupied := (proper first List.mem_cons_self).1
        have front : (splitChar '/' value).head? = some first := by
          rcases pieces with same | same <;> simp [same]
        by_contra absolute
        rw [Bool.not_eq_false] at absolute
        have text : ∃ rest, value = "" ++ String.singleton '/' ++ String.ofList rest := by
          unfold startsWith at absolute
          rw [List.isPrefixOf_iff_prefix] at absolute
          obtain ⟨rest, whole⟩ := absolute
          refine ⟨rest, String.toList_inj.mp ?_⟩
          simpa using whole.symm
        obtain ⟨rest, rfl⟩ := text
        rw [splitChar_append_singleton, show splitChar '/' "" = [""] from rfl] at front
        exact occupied (Option.some.inj front).symm
    exact ⟨plain, relative, (posixNormalize_fixed_iff plain.occupied relative).mpr form⟩

theorem controls_split (text : List Char) :
    text.any isControl = false ↔ text.any clientControl = false ∧ text.any laterControl = false := by
  simp only [List.any_eq_false]
  constructor
  · intro free
    refine ⟨fun c member => ?_, fun c member => ?_⟩
    · have plain := free c member
      simp only [isControl, clientControl, Bool.or_eq_true, Bool.and_eq_true,
        decide_eq_true_eq] at plain ⊢
      omega
    · have plain := free c member
      simp only [isControl, laterControl, Bool.or_eq_true, Bool.and_eq_true,
        decide_eq_true_eq] at plain ⊢
      omega
  · rintro ⟨first, second⟩ c member
    have one := first c member
    have two := second c member
    simp only [isControl, clientControl, laterControl, Bool.or_eq_true, Bool.and_eq_true,
      decide_eq_true_eq] at one two ⊢
    omega

theorem daemonAccepts_iff {value : String} :
    DaemonAccepts value ↔ PlainText value ∧ value.toList.any laterControl = false ∧
      (∀ piece ∈ splitChar '/' value, piece ≠ "" ∧ piece ≠ "..") ∧
      (splitChar '/' value).head? ≠ some "." := by
  have pieces : (∀ piece ∈ splitChar '/' value, piece ≠ "" ∧ piece ≠ "..") ↔
      "" ∉ splitChar '/' value ∧ ".." ∉ splitChar '/' value := by
    constructor
    · exact fun each => ⟨fun inside => (each _ inside).1 rfl, fun inside => (each _ inside).2 rfl⟩
    · rintro ⟨gap, dots⟩ piece member
      exact ⟨fun same => gap (same ▸ member), fun same => dots (same ▸ member)⟩
  rw [DaemonAccepts, validateRelativePath_iff, controls_split, pieces]
  constructor
  · rintro ⟨occupied, short, separators, ⟨ascii, later⟩, gap, first, dots⟩
    exact ⟨⟨occupied, short, separators, ascii⟩, later, ⟨gap, dots⟩, first⟩
  · rintro ⟨plain, later, ⟨gap, dots⟩, first⟩
    exact ⟨plain.occupied, plain.short, plain.separators, ⟨plain.controls, later⟩, gap, first, dots⟩

/-- Without a slash at the end, names are pieces that are neither empty nor dots. -/
theorem namesText_open {value : String} :
    NamesText value ∧ endsWith "/" value = false ↔ ∀ piece ∈ splitChar '/' value, Proper piece := by
  constructor
  · rintro ⟨⟨segments, some_, proper, same | same⟩, open_⟩
    · exact same ▸ proper
    · rw [← Bool.not_eq_true, endsWith_slash_iff] at open_
      exact absurd ⟨segments, some_, same⟩ open_
  · intro proper
    refine ⟨⟨_, splitChar_ne_nil '/' value, proper, .inl rfl⟩, ?_⟩
    rw [← Bool.not_eq_true, endsWith_slash_iff]
    rintro ⟨front, -, closed⟩
    exact (proper "" (by simp [closed])).1 rfl

theorem onlyClient_iff {value : String} :
    OnlyClient value ↔ ClientAccepts value ∧ ¬ DaemonAccepts value := by
  rw [OnlyClient, clientAccepts_iff, daemonAccepts_iff]
  constructor
  · rintro ⟨plain, rfl | rfl | ⟨names, rest⟩⟩
    · exact ⟨⟨plain, .inl rfl⟩, fun good => good.2.2.2 (by decide +kernel)⟩
    · exact ⟨⟨plain, .inr (.inl rfl)⟩, fun good => good.2.2.2 (by decide +kernel)⟩
    · refine ⟨⟨plain, .inr (.inr names)⟩, fun good => ?_⟩
      rcases rest with later | trailing
      · rw [good.2.1] at later
        cases later
      · obtain ⟨front, -, closed⟩ := endsWith_slash_iff.mp trailing
        exact (good.2.2.1 "" (by simp [closed])).1 rfl
  · rintro ⟨⟨plain, form⟩, refused⟩
    refine ⟨plain, ?_⟩
    rcases form with dot | slash | names
    · exact .inl dot
    · exact .inr (.inl slash)
    · refine .inr (.inr ⟨names, ?_⟩)
      by_contra neither
      rw [not_or, Bool.not_eq_true, Bool.not_eq_true] at neither
      have proper := namesText_open.mp ⟨names, neither.2⟩
      refine refused ⟨plain, neither.1, fun piece member => ?_, fun first => ?_⟩
      · exact ⟨(proper piece member).1, (proper piece member).2.2⟩
      · exact (proper "." (List.mem_of_head? first)).2.1 rfl

theorem onlyDaemon_iff {value : String} :
    OnlyDaemon value ↔ DaemonAccepts value ∧ ¬ ClientAccepts value := by
  rw [OnlyDaemon, clientAccepts_iff, daemonAccepts_iff]
  constructor
  · rintro ⟨plain, later, pieces, first, dot⟩
    refine ⟨⟨plain, later, pieces, first⟩, fun accepted => ?_⟩
    rcases accepted.2 with rfl | rfl | ⟨segments, -, proper, same | same⟩
    · exact first (by decide +kernel)
    · exact first (by decide +kernel)
    · exact (proper "." (same ▸ dot)).2.1 rfl
    · exact (pieces "" (by simp [same])).1 rfl
  · rintro ⟨⟨plain, later, pieces, first⟩, refused⟩
    refine ⟨plain, later, pieces, first, ?_⟩
    by_contra undotted
    refine refused ⟨plain, .inr (.inr (namesText_open.mpr fun piece member => ?_).1)⟩
    refine ⟨(pieces piece member).1, ?_, (pieces piece member).2⟩
    rintro rfl
    exact undotted member

theorem manifestDocuments_ok {paths : List String} {total : Nat} {documents : List EditorDocument}
    {written : List OverlayDocument} (small : total ≤ maxOverlayBytes)
    (success : manifestDocuments paths total documents = .ok written) :
    written.length = documents.length ∧
      (∀ document ∈ written, ClientAccepts document.path ∧
        contentBytes document ≤ maxOverlayDocumentBytes ∧
        ∀ path ∈ paths, TextsApart path document.path) ∧
      written.Pairwise (fun a b => TextsApart a.path b.path) ∧
      total + (written.map contentBytes).sum ≤ maxOverlayBytes := by
  induction documents generalizing paths total written with
  | nil =>
    cases success
    simpa using small
  | cons document rest ih =>
    unfold manifestDocuments at success
    cases named : documentPath document with
    | error message =>
      rw [named] at success
      cases success
    | ok relative =>
      rw [named] at success
      simp only [bind, Except.bind, throw, throwThe, MonadExceptOf.throw, pure, Except.pure] at success
      split_ifs at success with again conflict
      cases versioned : document.version.filter isSafeInteger with
      | none => simp [versioned] at success
      | some version =>
        cases filled : document.content with
        | none => simp [versioned, filled] at success
        | some content =>
          simp only [versioned, filled] at success
          split_ifs at success with large much
          cases further : manifestDocuments (relative :: paths) (total + (utf8 content).length)
            rest with
          | error message => simp [further] at success
          | ok later =>
            simp only [further, Except.ok.injEq] at success
            subst success
            have fits : total + (utf8 content).length ≤ maxOverlayBytes := Nat.not_lt.mp much
            obtain ⟨length, each, pairs, sum⟩ := ih fits further
            have accepted : ClientAccepts relative := by
              unfold documentPath at named
              split at named
              · rename_i value _
                obtain rfl := (normalizeRelativePath_ok.mp named).1
                exact ⟨_, named⟩
              · cases named
            have fresh : ∀ path ∈ paths, TextsApart path relative := by
              intro path member
              have apart := List.any_eq_false.mp (eq_false_of_ne_true conflict) path member
              rw [Bool.or_eq_true, not_or, Bool.not_eq_true, Bool.not_eq_true] at apart
              refine ⟨apart.1, apart.2, ?_⟩
              rintro rfl
              exact again member
            refine ⟨by simp [length], ?_, ?_, ?_⟩
            · rw [List.forall_mem_cons]
              refine ⟨⟨accepted, Nat.not_lt.mp large, fresh⟩, fun other member => ?_⟩
              obtain ⟨own, short, apart⟩ := each other member
              exact ⟨own, short, fun path inside => apart path (List.mem_cons_of_mem _ inside)⟩
            · rw [List.pairwise_cons]
              exact ⟨fun other member => (each other member).2.2 relative List.mem_cons_self, pairs⟩
            · rw [List.map_cons, List.sum_cons, ← Nat.add_assoc]
              exact sum

theorem sessionPattern_valid {sessionId : String} (matched : sessionPattern sessionId = true) :
    validSessionId sessionId = true := by
  simp only [sessionPattern, Bool.and_eq_true, decide_eq_true_eq, List.all_eq_true,
    Bool.or_eq_true] at matched
  obtain ⟨⟨some_, short⟩, letters⟩ := matched
  have ascii : ∀ c ∈ sessionId.toList, c.toNat < 128 := by
    intro c member
    rcases letters c member with ⟨small, -⟩ | same
    · exact small
    · simp only [List.mem_cons, List.not_mem_nil, or_false] at same
      rcases same with rfl | rfl <;> decide
  have length : (utf8 sessionId).length = sessionId.length := by
    rw [utf8, List.length_flatMap, ← String.length_toList]
    have ones : sessionId.toList.map (fun c => (String.utf8EncodeChar c).length) =
        sessionId.toList.map fun _ => 1 := by
      apply List.map_congr_left
      intro c member
      have small := ascii c member
      have size : c.utf8Size = 1 := Char.utf8Size_eq_one_iff.mpr (by
        have bound : c.val.toNat < 128 := small
        exact UInt32.le_iff_toNat_le.mpr (by simpa using Nat.le_of_lt_succ bound))
      rw [String.length_utf8EncodeChar, size]
    rw [ones]
    simp
  have occupied : sessionId ≠ "" := by
    rintro rfl
    simp at some_
  simp only [validSessionId, Bool.and_eq_true, bne_iff_ne, ne_eq, occupied, not_false_eq_true,
    decide_eq_true_eq, length, short, List.all_eq_true, Bool.or_eq_true, true_and]
  intro c member
  rcases letters c member with letter | same
  · exact .inl letter
  · refine .inr ?_
    simp only [List.mem_cons, List.not_mem_nil, or_false] at same ⊢
    exact same.symm

/-- A manifest that the client writes is one that the daemon accepts, unless a path of it
is among those that only the client accepts. -/
theorem overlayManifest_accepted_iff {sessionId : String} {documents : List EditorDocument}
    {manifest : OverlayManifest} (written : overlayManifest sessionId documents = .ok manifest) :
    (∃ request, manifest.intoRequest = .ok request) ↔
      ∀ document ∈ manifest.documents, ¬ OnlyClient document.path := by
  unfold overlayManifest at written
  simp only [bind, Except.bind, throw, throwThe, MonadExceptOf.throw, pure, Except.pure] at written
  split_ifs at written with session many
  cases listed : manifestDocuments [] 0 documents with
  | error message => simp [listed] at written
  | ok normalized =>
    simp only [listed, Except.ok.injEq] at written
    subst written
    obtain ⟨length, each, pairs, sum⟩ := manifestDocuments_ok (Nat.zero_le _) listed
    have accepted : (∃ request, (OverlayManifest.mk 1 sessionId normalized).intoRequest =
        .ok request) ↔ validate ⟨sessionId, normalized⟩ = .ok () := by
      unfold OverlayManifest.intoRequest
      rw [if_neg (by simp)]
      cases validate ⟨sessionId, normalized⟩ with
      | ok done => simp
      | error e => simp
    rw [accepted, validate_iff]
    constructor
    · rintro ⟨-, -, valid, -⟩ document member only
      exact (onlyClient_iff.mp only).2 (valid document member).1
    · intro agreed
      refine ⟨sessionPattern_valid (by simpa using session), ?_, fun document member => ?_, pairs,
        by simpa using sum⟩
      · rw [length]
        exact Nat.not_lt.mp many
      · refine ⟨?_, (each document member).2.1⟩
        by_contra refused
        exact agreed document member (onlyClient_iff.mpr ⟨(each document member).1, refused⟩)

/-- Client and daemon agree on a path exactly when it is not of the kinds that one of them
alone accepts, and on a manifest exactly when no path of it is of the client's kind. -/
theorem overlay_paths_agree_iff (value : String) :
    ((ClientAccepts value ↔ DaemonAccepts value) ↔ ¬ OnlyClient value ∧ ¬ OnlyDaemon value) ∧
    ∀ sessionId documents manifest, overlayManifest sessionId documents = .ok manifest →
      ((∃ request, manifest.intoRequest = .ok request) ↔
        ∀ document ∈ manifest.documents, ¬ OnlyClient document.path) := by
  constructor
  · rw [onlyClient_iff, onlyDaemon_iff]
    by_cases client : ClientAccepts value
    · by_cases daemon : DaemonAccepts value
      · simp [client, daemon]
      · simp [client, daemon]
    · by_cases daemon : DaemonAccepts value
      · simp [client, daemon]
      · simp [client, daemon]
  · exact fun sessionId documents manifest written => overlayManifest_accepted_iff written

theorem overlay_paths_agree_iff_demo :
    ∃ request, (OverlayManifest.mk 1 "vscode" [⟨"src/A.java", 3, "class A {}"⟩]).intoRequest =
      .ok request := by
  refine ((overlay_paths_agree_iff "src/A.java").2 "vscode" [⟨some "src/A.java", some 3, some "class A {}"⟩] _
    (by decide +kernel)).mpr ?_
  intro document member only
  obtain rfl := List.mem_singleton.mp member
  exact (onlyClient_iff.mp only).2 (by unfold DaemonAccepts; decide +kernel)

/-- A slash at the end passes the client and not the daemon, a dot between slashes the
daemon and not the client, and the client's manifest is then refused. -/
theorem overlay_paths_disagree :
    (ClientAccepts "src/" ∧ ¬ DaemonAccepts "src/") ∧
    (DaemonAccepts "src/./A.java" ∧ ¬ ClientAccepts "src/./A.java") ∧
    overlayManifest "vscode" [⟨some "src/", some 3, some ""⟩] =
      .ok ⟨1, "vscode", [⟨"src/", 3, ""⟩]⟩ ∧
    OverlayManifest.intoRequest ⟨1, "vscode", [⟨"src/", 3, ""⟩]⟩ =
      .error (.request (.path "src/")) := by
  refine ⟨⟨⟨"src/", by decide +kernel⟩, ?_⟩, ⟨?_, ?_⟩, by decide +kernel, by decide +kernel⟩
  · unfold DaemonAccepts
    decide +kernel
  · unfold DaemonAccepts
    decide +kernel
  · rintro ⟨normalized, accepted⟩
    have refused : normalizeRelativePath "src/./A.java" =
        .error "Unsafe Walaru overlay path: src/./A.java" := by decide +kernel
    rw [refused] at accepted
    cases accepted

end Walaru.Client
