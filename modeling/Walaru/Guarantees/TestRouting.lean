import Walaru.Source.Gradle.TestSelection

/-!
# Which project receives which selected test

A selection of recorded ids goes through one comma-joined property and is taken
apart again in every project of the build.
-/
namespace Walaru.Gradle
open Lib.Text

/-- Every project's task receives the filters of the selected ids it owns and no
others, and runs no tests exactly when it owns none of them. -/
def Reaches (build : Build) (selection : List TestId) : Prop :=
  ∀ project ∈ build.projects,
    (∀ filter, filter ∈ (testTask selection project).includes ↔
      ∃ id ∈ selection, id.owner = project ∧ id.filter = filter) ∧
    ((testTask selection project).enabled = true ↔ ∃ id ∈ selection, id.owner = project)

/-- An id that the property carries: no separator of the encoding inside its names, no
blank at its end, and if the root project owns it, no other project in the build,
no blank at its start and no resemblance to an id of a module. -/
structure Clean (build : Build) (id : TestId) : Prop where
  comma : ',' ∉ id.owner.text.toList ∧ ',' ∉ id.filter.toList
  hash : '#' ∉ id.owner.text.toList ∧ '#' ∉ id.filter.toList
  finish : ∀ c ∈ id.filter.toList.getLast?, isWhitespace c = false
  unqualified : id.owner = rootProject →
    (∀ project ∈ build.projects, project = rootProject) ∧
    (∀ c ∈ id.filter.toList.head?, isWhitespace c = false) ∧
    (startsWith ":" id.filter && containsText "::" id.filter) = false

/-- The first `::` of a qualified text is the one after the project path. -/
theorem names_cut {names : List String} (valid : ∀ name ∈ names, name ≠ "" ∧ ':' ∉ name.toList)
    (rest : List Char) :
    cutChars [':', ':'] ((names.flatMap fun name => ':' :: name.toList) ++ ':' :: ':' :: rest) =
      some (names.flatMap fun name => ':' :: name.toList, rest) := by
  induction names with
  | nil => simp [cutChars, List.isPrefixOf]
  | cons name names ih =>
    rw [List.forall_mem_cons] at valid
    obtain ⟨⟨occupied, colonFree⟩, valid⟩ := valid
    rw [List.flatMap_cons, List.append_assoc, List.cons_append]
    have deeper := cutChars_pass [':'] colonFree ((names.flatMap fun name =>
      ':' :: name.toList) ++ ':' :: ':' :: rest)
    rw [ih valid] at deeper
    cases chars : name.toList with
    | nil => exact absurd (String.toList_eq_nil_iff.mp chars) occupied
    | cons c tail =>
      have other : (':' == c) = false := by
        have different : ':' ≠ c := by
          intro same
          rw [chars, ← same] at colonFree
          exact colonFree List.mem_cons_self
        simpa using different
      rw [chars] at deeper
      rw [cutChars, if_neg (by simp [List.isPrefixOf, other]), deeper]
      simp

theorem ProjectPath.text_below {path : ProjectPath} (below : path ≠ rootProject) :
    path.text.toList = path.names.flatMap fun name => ':' :: name.toList := by
  have named : path.names ≠ [] := by
    intro empty
    apply below
    cases path
    simpa [rootProject] using empty
  simp [ProjectPath.text, named]

theorem ProjectPath.text_root : rootProject.text = ":" := rfl

theorem ProjectPath.text_ne_root {path : ProjectPath} (below : path ≠ rootProject) :
    path.text ≠ ":" := by
  intro same
  have chars := path.text_below below
  rw [same] at chars
  cases names : path.names with
  | nil => simp [names] at chars
  | cons name rest =>
    have occupied := (path.valid name (by simp [names])).1
    rw [names, List.flatMap_cons, List.cons_append] at chars
    have nothing : [] = name.toList ++ rest.flatMap fun name => ':' :: name.toList :=
      (List.cons.inj chars).2
    exact occupied (String.toList_eq_nil_iff.mp (List.append_eq_nil_iff.mp nothing.symm).1)

/-- Projects are told apart by the text of their paths. -/
theorem ProjectPath.text_injective {a b : ProjectPath} (same : a.text = b.text) : a = b := by
  by_cases rootA : a = rootProject
  · by_contra different
    rw [rootA] at same different
    exact text_ne_root (Ne.symm different) same.symm
  by_cases rootB : b = rootProject
  · rw [rootB] at same
    exact absurd same (text_ne_root rootA)
  have chars := congrArg String.toList same
  rw [text_below rootA, text_below rootB] at chars
  have names : ∀ {as bs : List String}, (∀ name ∈ as, name ≠ "" ∧ ':' ∉ name.toList) →
      (∀ name ∈ bs, name ≠ "" ∧ ':' ∉ name.toList) →
      (as.flatMap fun name => ':' :: name.toList) = (bs.flatMap fun name => ':' :: name.toList) →
      as = bs := by
    intro as
    induction as with
    | nil =>
      intro bs _ _ chars
      cases bs with
      | nil => rfl
      | cons b bs => simp at chars
    | cons x as ih =>
      intro bs validA validB chars
      cases bs with
      | nil => simp at chars
      | cons y bs =>
        rw [List.forall_mem_cons] at validA validB
        simp only [List.flatMap_cons, List.cons_append, List.cons.injEq, true_and] at chars
        have heads := congrArg (List.takeWhile fun c => c ≠ ':') chars
        have stop : ∀ (name : String) (rest : List String), ':' ∉ name.toList →
            (name.toList ++ rest.flatMap fun name => ':' :: name.toList).takeWhile
              (fun c => c ≠ ':') = name.toList := by
          intro name rest free
          have own : (name.toList.takeWhile fun c => c ≠ ':') = name.toList :=
            List.takeWhile_eq_self_iff.mpr fun c here => by
              have other : c ≠ ':' := by
                intro same
                exact free (same ▸ here)
              simpa using other
          rw [List.takeWhile_append, own, if_pos rfl]
          cases rest <;> simp
        rw [stop x as validA.1.2, stop y bs validB.1.2] at heads
        rw [heads, List.append_cancel_left_eq] at chars
        rw [String.toList_inj.mp heads, ih validA.2 validB.2 chars]
  have equal := names a.valid b.valid chars
  cases a
  cases b
  simpa using equal

/-- The filters that one id leaves in the property. -/
def pieces (id : TestId) : List String :=
  ((splitChar ',' (replaceChar '#' '.' id.text)).map (trimWhere isWhitespace)).filter fun t => t ≠ ""

theorem selectedTests_selection {selection : List TestId} (occupied : selection ≠ []) :
    selectedTests (testsProperty (selection.map TestId.text)) = selection.flatMap pieces := by
  have texts : (selection.map TestId.text).map (replaceChar '#' '.') ≠ [] := by simpa using occupied
  have filled : (selection.map TestId.text).isEmpty = false := by simpa using occupied
  simp only [testsProperty, selectedTests, filled, Bool.false_eq_true, if_false]
  rw [splitChar_joinChar ',' texts, List.flatMap_map, List.flatMap_map, List.map_flatMap,
    List.filter_flatMap]
  rfl

theorem mem_includes {selection : List TestId} (occupied : selection ≠ []) {project : ProjectPath}
    {filter : String} :
    filter ∈ (testTask selection project).includes ↔
      ∃ id ∈ selection, ∃ piece ∈ pieces id, selectorForProject piece project.text = some filter := by
  rw [testTask, selectedTests_selection occupied, configureTestTask]
  have shown : ∀ filter, filter ∈ ((selection.flatMap pieces).filterMap fun selector =>
      selectorForProject selector project.text) ↔
      ∃ id ∈ selection, ∃ piece ∈ pieces id, selectorForProject piece project.text = some filter := by
    intro filter
    simp only [List.mem_filterMap, List.mem_flatMap]
    constructor
    · intro ⟨piece, ⟨id, member, here⟩, routed⟩
      exact ⟨id, member, piece, here, routed⟩
    · intro ⟨id, member, piece, here, routed⟩
      exact ⟨piece, ⟨id, member, here⟩, routed⟩
  rw [← shown]
  split
  · rename_i none_
    rw [Bool.and_eq_true, List.isEmpty_iff] at none_
    simp [none_.2]
  · rfl

/-- A task is switched off exactly when something was requested and nothing is its own. -/
theorem enabled_iff {selection : List TestId} (occupied : selection ≠ []) {project : ProjectPath} :
    (testTask selection project).enabled = true ↔
      selection.flatMap pieces = [] ∨ (testTask selection project).includes ≠ [] := by
  rw [testTask, selectedTests_selection occupied, configureTestTask]
  split
  · rename_i off
    rw [Bool.and_eq_true, Bool.not_eq_true', List.isEmpty_eq_false_iff] at off
    simp [off.1]
  · rename_i on
    rw [Bool.and_eq_true, Bool.not_eq_true', List.isEmpty_eq_false_iff, List.isEmpty_iff,
      not_and_or, not_not] at on
    simpa using on

/-- A piece holds no separator of the encoding and neither starts nor ends blank. -/
theorem piece_plain {id : TestId} {piece : String} (member : piece ∈ pieces id) :
    ',' ∉ piece.toList ∧ '#' ∉ piece.toList ∧
      (∀ c ∈ piece.toList.head?, isWhitespace c = false) ∧
      ∀ c ∈ piece.toList.getLast?, isWhitespace c = false := by
  simp only [pieces, List.mem_filter, List.mem_map] at member
  obtain ⟨⟨part, split_, rfl⟩, -⟩ := member
  refine ⟨?_, ?_, fun c first => trimWhere_head first, fun c last => trimWhere_last last⟩
  · intro inside
    exact splitChar_free split_ (trimWhere_subset inside)
  · intro inside
    exact mem_replaceChar (by decide) id.text (splitChar_subset split_ (trimWhere_subset inside))

/-- The encoded text of an id whose own names hold no `#`. -/
theorem replaced_text {id : TestId} (hash : '#' ∉ id.owner.text.toList ∧ '#' ∉ id.filter.toList) :
    replaceChar '#' '.' id.text =
      if id.owner = rootProject then id.filter else id.owner.text ++ "::" ++ id.filter := by
  have names : '#' ∉ id.className.toList ∧ '#' ∉ id.methodName.toList := by
    have filter := hash.2
    simp only [TestId.filter, String.toList_append, List.mem_append, not_or] at filter
    exact ⟨filter.1.1, filter.2⟩
  have local_ : replaceChar '#' '.' (id.className ++ "#" ++ id.methodName) = id.filter := by
    rw [replaceChar_append, replaceChar_append, replaceChar_of_not_mem names.1,
      replaceChar_of_not_mem names.2]
    rfl
  by_cases root : id.owner = rootProject
  · rw [TestId.text, root, ProjectPath.text_root, qualify, if_pos rfl, if_pos rfl, local_]
  · rw [TestId.text, qualify, if_neg (ProjectPath.text_ne_root root), if_neg root,
      replaceChar_append, replaceChar_append, local_, replaceChar_of_not_mem hash.1]
    rfl

/-- A clean id is one piece. -/
theorem Clean.pieces_eq {build : Build} {id : TestId} (clean : Clean build id) :
    pieces id = [if id.owner = rootProject then id.filter else id.owner.text ++ "::" ++ id.filter] := by
  have dotted : id.filter.toList ≠ [] := by simp [TestId.filter]
  have text := replaced_text clean.hash
  generalize encoded : (if id.owner = rootProject then id.filter
    else id.owner.text ++ "::" ++ id.filter) = piece at text
  have comma : ',' ∉ piece.toList := by
    subst encoded
    split
    · exact clean.comma.2
    · simp [clean.comma.1, clean.comma.2]
  have first : ∀ c ∈ piece.toList.head?, isWhitespace c = false := by
    subst encoded
    split
    · rename_i root
      exact (clean.unqualified root).2.1
    · rename_i below
      intro c here
      have chars := ProjectPath.text_below below
      cases names : id.owner.names with
      | nil =>
        rw [names, List.flatMap_nil] at chars
        simp [chars] at here
        exact here ▸ (by decide)
      | cons name rest =>
        rw [names, List.flatMap_cons, List.cons_append] at chars
        simp [chars] at here
        exact here ▸ (by decide)
  have last : ∀ c ∈ piece.toList.getLast?, isWhitespace c = false := by
    subst encoded
    split
    · exact clean.finish
    · intro c here
      rw [String.toList_append, List.getLast?_append_of_ne_nil _ dotted] at here
      exact clean.finish c here
  have occupied : piece ≠ "" := by
    intro empty
    subst encoded
    split at empty
    · exact dotted (by rw [empty]; rfl)
    · have chars := congrArg String.toList empty
      simp at chars
  rw [pieces, text, splitChar_of_not_mem comma]
  simp [trimWhere_eq_self first last, occupied]

/-- A qualified text goes to the project it names, with what follows. -/
theorem selectorForProject_qualified {owner : ProjectPath} (below : owner ≠ rootProject)
    (filter : String) (project : ProjectPath) :
    selectorForProject (owner.text ++ "::" ++ filter) project.text =
      if owner = project then some filter else none := by
  have chars := ProjectPath.text_below below
  have cut : cutChars [':', ':'] (owner.text ++ "::" ++ filter).toList =
      some (owner.text.toList, filter.toList) := by
    rw [String.toList_append, String.toList_append, chars, List.append_assoc]
    exact names_cut owner.valid filter.toList
  have inside : containsText "::" (owner.text ++ "::" ++ filter) = true := by
    have found := cutChars_isSome (by simp : [':', ':'] ≠ [])
      (owner.text ++ "::" ++ filter).toList
    rw [cut] at found
    exact found.symm
  have starts : startsWith ":" (owner.text ++ "::" ++ filter) = true := by
    unfold startsWith
    rw [String.toList_append, String.toList_append, chars]
    cases names : owner.names with
    | nil => rfl
    | cons name rest => rfl
  rw [selectorForProject, starts, inside, substringBefore, substringAfter, cut]
  simp only [Bool.not_true, Bool.or_self, Bool.false_eq_true, if_false, Option.map_some,
    Option.getD_some, String.ofList_toList]
  by_cases same : owner = project
  · simp [same]
  · have texts : owner.text ≠ project.text := fun equal => same (ProjectPath.text_injective equal)
    simp [same, texts]

/-- What a project takes of a clean id. -/
theorem Clean.received_iff {build : Build} {id : TestId} (clean : Clean build id)
    {project : ProjectPath} (member : project ∈ build.projects) {filter : String} :
    (∃ piece ∈ pieces id, selectorForProject piece project.text = some filter) ↔
      id.owner = project ∧ id.filter = filter := by
  rw [clean.pieces_eq]
  simp only [List.mem_singleton, exists_eq_left]
  by_cases root : id.owner = rootProject
  · obtain ⟨alone, -, unlike⟩ := clean.unqualified root
    have unrouted : selectorForProject id.filter project.text = some id.filter := by
      rw [selectorForProject, if_pos]
      rw [Bool.and_eq_false_iff] at unlike
      rcases unlike with start | inside
      · simp [start]
      · simp [inside]
    rw [if_pos root, unrouted, alone project member, root]
    simp
  · rw [if_neg root, selectorForProject_qualified root]
    by_cases same : id.owner = project
    · simp [same]
    · simp [same]

/-- A filter is a whole unqualified piece, or what follows the project's own path. -/
theorem selectorForProject_some {piece filter : String} {project : ProjectPath}
    (taken : selectorForProject piece project.text = some filter) :
    (piece = filter ∧ (startsWith ":" piece && containsText "::" piece) = false) ∨
      (piece.toList = project.text.toList ++ [':', ':'] ++ filter.toList ∧
        project ≠ rootProject) := by
  rw [selectorForProject] at taken
  split at taken
  · rename_i unlike
    refine .inl ⟨Option.some.inj taken, ?_⟩
    rw [Bool.or_eq_true, Bool.not_eq_true', Bool.not_eq_true'] at unlike
    rw [Bool.and_eq_false_iff]
    exact unlike
  · rename_i like
    rw [Bool.or_eq_true, Bool.not_eq_true', Bool.not_eq_true', not_or, Bool.not_eq_false,
      Bool.not_eq_false] at like
    split at taken
    · rename_i own
      have found := cutChars_isSome (by simp : [':', ':'] ≠ []) piece.toList
      have inside : (piece.toList.tails.any fun rest => [':', ':'].isPrefixOf rest) = true := like.2
      rw [inside] at found
      obtain ⟨⟨left, right⟩, cut⟩ := Option.isSome_iff_exists.mp found
      rw [substringBefore, cut] at own
      rw [substringAfter, cut] at taken
      have whole := cutChars_eq_some cut
      simp only [Option.map_some, Option.getD_some] at own taken
      have leftIs : left = project.text.toList := by rw [← own, String.toList_ofList]
      have rightIs : right = filter.toList := by
        rw [← Option.some.inj taken, String.toList_ofList]
      rw [leftIs, rightIs] at whole
      refine .inr ⟨whole, ?_⟩
      intro root
      -- three colons in a row are cut before the second
      subst root
      rw [whole, ProjectPath.text_root] at cut
      simp [cutChars, List.isPrefixOf, leftIs, ProjectPath.text_root] at cut
    · cases taken

/-- An id that reaches its project on its own is clean. -/
theorem clean_of_reaches {build : Build} {id : TestId} (owned : id.owner ∈ build.projects)
    (reaches : Reaches build [id]) : Clean build id := by
  have occupied : [id] ≠ [] := by simp
  have own := ((reaches id.owner owned).1 id.filter).mpr ⟨id, by simp, rfl, rfl⟩
  rw [mem_includes occupied] at own
  obtain ⟨other, only, piece, member, taken⟩ := own
  rw [List.mem_singleton] at only
  subst only
  obtain ⟨comma, hash, first, last⟩ := piece_plain member
  have dotted : other.filter.toList ≠ [] := by simp [TestId.filter]
  rcases selectorForProject_some taken with ⟨same, unlike⟩ | ⟨whole, below⟩
  · -- an unqualified piece goes to every project, so no other project is there
    have alone : ∀ project ∈ build.projects, other.owner = project := by
      intro project here
      have unrouted : selectorForProject piece project.text = some piece := by
        rw [selectorForProject, if_pos]
        rw [Bool.and_eq_false_iff] at unlike
        rcases unlike with start | inside
        · simp [start]
        · simp [inside]
      have received : piece ∈ (testTask _ project).includes :=
        (mem_includes occupied).mpr ⟨other, by simp, piece, member, unrouted⟩
      obtain ⟨again, only, owner, -⟩ := ((reaches project here).1 piece).mp received
      rw [List.mem_singleton] at only
      rw [← only, owner]
    have root := alone rootProject build.root_mem
    subst same
    refine ⟨⟨?_, comma⟩, ⟨?_, hash⟩, last, fun _ => ⟨?_, first, unlike⟩⟩
    · rw [root, ProjectPath.text_root]
      decide
    · rw [root, ProjectPath.text_root]
      decide
    · intro project here
      rw [← alone project here, root]
  · rw [whole] at comma hash last
    simp only [List.mem_append, not_or] at comma hash
    refine ⟨⟨comma.1.1, comma.2⟩, ⟨hash.1.1, hash.2⟩, ?_, fun root => absurd root below⟩
    intro c here
    apply last c
    rw [List.getLast?_append_of_ne_nil _ dotted]
    exact here

/-- Every selection from the recorded ids of a build reaches the right projects
unchanged exactly when every one of the ids is clean. -/
theorem selection_reaches_iff (build : Build) {ids : List TestId}
    (owned : ∀ id ∈ ids, id.owner ∈ build.projects) :
    (∀ selection, selection ≠ [] → (∀ id ∈ selection, id ∈ ids) → Reaches build selection) ↔
      ∀ id ∈ ids, Clean build id := by
  constructor
  · intro every id member
    exact clean_of_reaches (owned id member) (every [id] (by simp) (by simpa using member))
  · intro clean selection occupied recorded project member
    have includes : ∀ filter, filter ∈ (testTask selection project).includes ↔
        ∃ id ∈ selection, id.owner = project ∧ id.filter = filter := by
      intro filter
      rw [mem_includes occupied]
      refine exists_congr fun id => and_congr_right fun selected => ?_
      exact (clean id (recorded id selected)).received_iff member
    refine ⟨includes, ?_⟩
    have requested : selection.flatMap pieces ≠ [] := by
      intro empty
      obtain ⟨id, selected⟩ := List.exists_mem_of_ne_nil selection occupied
      have one := (clean id (recorded id selected)).pieces_eq
      rw [List.flatMap_eq_nil_iff.mp empty id selected] at one
      cases one
    rw [enabled_iff occupied, or_iff_right requested]
    constructor
    · intro some_
      obtain ⟨filter, inside⟩ := List.exists_mem_of_ne_nil _ some_
      obtain ⟨id, selected, owner, -⟩ := (includes filter).mp inside
      exact ⟨id, selected, owner⟩
    · intro ⟨id, selected, owner⟩ empty
      have inside := (includes id.filter).mpr ⟨id, selected, owner, rfl⟩
      rw [empty] at inside
      cases inside

/-- A root project and one module. -/
def twoProjects : Build where
  projects := [rootProject, ⟨["app"], by decide⟩]
  root_mem := by decide

def rootTest : TestId := ⟨rootProject, "demo.RootTest", "works"⟩

def moduleTest : TestId := ⟨⟨["app"], by decide⟩, "demo.AppTest", "works"⟩

/-- The only selected test is the root project's, and the module's task is switched on
with a filter none of its tests match. -/
theorem unqualified_everywhere :
    rootTest.owner ∈ twoProjects.projects ∧ rootTest.text = "demo.RootTest#works" ∧
    testTask [rootTest] moduleTest.owner = ⟨true, ["demo.RootTest.works"]⟩ ∧
    ¬ Reaches twoProjects [rootTest] := by
  have shown : testTask [rootTest] moduleTest.owner = ⟨true, ["demo.RootTest.works"]⟩ := by
    decide +kernel
  refine ⟨by decide, by decide +kernel, shown, ?_⟩
  intro reaches
  have own := (reaches moduleTest.owner (by decide)).2.mp (by rw [shown])
  revert own
  decide +kernel

theorem selection_reaches_iff_demo : Reaches twoProjects [moduleTest] := by
  refine (@selection_reaches_iff twoProjects [moduleTest] (by decide)).mpr ?_ _
    (by simp) (by simp)
  intro id member
  rw [List.mem_singleton] at member
  subst member
  have last : moduleTest.filter.toList.getLast? = some 's' := by decide +kernel
  have finish : ∀ c ∈ moduleTest.filter.toList.getLast?, isWhitespace c = false := by
    rw [last]
    intro c same
    cases same
    decide
  exact ⟨by decide +kernel, by decide +kernel, finish, fun root => absurd root (by decide)⟩

end Walaru.Gradle
