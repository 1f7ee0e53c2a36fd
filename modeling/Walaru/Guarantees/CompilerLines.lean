import Walaru.Lib.TextParts
import Walaru.Source.Daemon.Problems

/-!
# The lines compilers print

The formats of the supported compilers and build tools, and how the parser finds the path in a
line: a marker that is not in the path stands behind it, and the path below the root is what the
line names.
-/
namespace Walaru
open Lib.TextSearch Lib.TrimmedLists

/-- A name of a directory on the way to a source. -/
structure EntryName where
  chars : List Char
  occupied : chars ≠ []
  single : '/' ∉ chars
  named : chars ≠ ['.'] ∧ chars ≠ ['.', '.']

inductive SourceKind where
  | java | kotlin | kotlinScript
  deriving DecidableEq, Repr

def SourceKind.extension : SourceKind → List Char
  | .java => ".java".toList
  | .kotlin => ".kt".toList
  | .kotlinScript => ".kts".toList

/-- A problem a compiler reports in a source below a root. -/
structure PrintedProblem where
  root : List EntryName
  directories : List EntryName
  stem : List Char
  single : '/' ∉ stem
  kind : SourceKind
  line : Nat
  linePositive : 0 < line
  column : Nat
  columnPositive : 0 < column
  warning : Bool
  message : List Char

inductive CompilerFormat where
  | javac | maven | kotlin1 | kotlin2
  deriving DecidableEq, Repr

def digits (n : Nat) : List Char := Nat.toDigits 10 n

def absoluteText (names : List EntryName) : List Char := names.flatMap fun name => '/' :: name.chars

namespace PrintedProblem

def rootText (p : PrintedProblem) : List Char := if p.root = [] then ['/'] else absoluteText p.root

def relativeText (p : PrintedProblem) : List Char :=
  (p.directories.flatMap fun name => name.chars ++ ['/']) ++ (p.stem ++ p.kind.extension)

def path (p : PrintedProblem) : List Char := absoluteText p.root ++ '/' :: p.relativeText

def severity (p : PrintedProblem) : String := if p.warning = true then "warning" else "error"

end PrintedProblem

/-- What a format puts in front of the path. -/
def CompilerFormat.opening (warning : Bool) : CompilerFormat → List Char
  | .javac => []
  | .maven => if warning = true then "[WARNING] ".toList else "[ERROR] ".toList
  | .kotlin1 => if warning = true then "w: ".toList else "e: ".toList
  | .kotlin2 => if warning = true then "w: file://".toList else "e: file://".toList

/-- What a format puts behind the colon after the path. -/
def CompilerFormat.position (p : PrintedProblem) : CompilerFormat → List Char
  | .javac => digits p.line ++ ": ".toList ++ p.severity.toList ++ ": ".toList ++ p.message
  | .maven =>
    "[".toList ++ digits p.line ++ ",".toList ++ digits p.column ++ "] ".toList ++ p.message
  | .kotlin1 =>
    " (".toList ++ digits p.line ++ ", ".toList ++ digits p.column ++ "): ".toList ++ p.message
  | .kotlin2 => digits p.line ++ ":".toList ++ digits p.column ++ " ".toList ++ p.message

namespace PrintedProblem

def printed (f : CompilerFormat) (p : PrintedProblem) : List Char :=
  f.opening p.warning ++ p.path ++ ':' :: f.position p

/-- What a reader of the line should be told. -/
def problem (f : CompilerFormat) (p : PrintedProblem) : WorkerProblem where
  path := String.ofList p.relativeText
  line := p.line
  column := if f = .javac then none else some p.column
  severity := p.severity
  message := String.ofList p.message

end PrintedProblem

namespace PrintedProblem

/-- The names of the path below the root. -/
def names (p : PrintedProblem) : List (List Char) :=
  p.directories.map EntryName.chars ++ [p.stem ++ p.kind.extension]

theorem path_ends (p : PrintedProblem) : ∃ text, p.path = text ++ p.kind.extension :=
  ⟨absoluteText p.root ++ '/' :: ((p.directories.flatMap fun name => name.chars ++ ['/']) ++ p.stem),
    by simp [path, relativeText]⟩

theorem path_starts (p : PrintedProblem) : ∃ text, p.path = '/' :: text := by
  cases names : p.root with
  | nil => exact ⟨_, by rw [path, names]; rfl⟩
  | cons name rest => exact ⟨_, by rw [path, names]; rfl⟩

/-- The path has a blank at neither end when slashes and the letters of extensions are none. -/
theorem trimList_path {blank : Char → Bool} (p : PrintedProblem) (opens : blank '/' = false)
    (java : blank 'a' = false) (kotlin : blank 't' = false) (script : blank 's' = false) :
    trimList blank p.path = p.path := by
  obtain ⟨rest, starts⟩ := p.path_starts
  obtain ⟨text, tail⟩ := p.path_ends
  refine trimList_of_ends ?_ ?_
  · intro c first
    rw [starts] at first
    obtain rfl := Option.some.inj first
    exact opens
  · intro c last
    rw [tail, List.getLast?_append] at last
    cases kind : p.kind with
    | java =>
      rw [kind] at last
      obtain rfl := Option.some.inj last
      exact java
    | kotlin =>
      rw [kind] at last
      obtain rfl := Option.some.inj last
      exact kotlin
    | kotlinScript =>
      rw [kind] at last
      obtain rfl := Option.some.inj last
      exact script

theorem name_plain (p : PrintedProblem) {name : List Char} (member : name ∈ p.names) :
    name ≠ [] ∧ '/' ∉ name ∧ name ≠ ['.'] ∧ name ≠ ['.', '.'] := by
  rw [names, List.mem_append, List.mem_singleton] at member
  rcases member with directory | rfl
  · obtain ⟨entry, -, rfl⟩ := List.mem_map.mp directory
    exact ⟨entry.occupied, entry.single, entry.named⟩
  · have long : 3 ≤ p.kind.extension.length := by cases p.kind <;> decide
    have plain : '/' ∉ p.kind.extension := by cases p.kind <;> decide
    refine ⟨?_, ?_, ?_, ?_⟩
    · intro empty
      have short := congrArg List.length empty
      simp only [List.length_append, List.length_nil] at short
      omega
    · simp only [List.mem_append, not_or]
      exact ⟨p.single, plain⟩
    · intro dot
      have short := congrArg List.length dot
      simp only [List.length_append, List.length_cons, List.length_nil] at short
      omega
    · intro dots
      have short := congrArg List.length dots
      simp only [List.length_append, List.length_cons, List.length_nil] at short
      omega

theorem relativeText_eq (p : PrintedProblem) :
    '/' :: p.relativeText = p.names.flatMap fun name => '/' :: name := by
  rw [relativeText, names]
  induction p.directories with
  | nil => simp
  | cons name rest ih =>
    simp only [List.flatMap_cons, List.append_assoc, List.map_cons, List.cons_append] at ih ⊢
    rw [← ih]
    simp

theorem path_eq (p : PrintedProblem) :
    p.path = (p.root.map EntryName.chars ++ p.names).flatMap fun name => '/' :: name := by
  rw [path, relativeText_eq, List.flatMap_append, absoluteText, List.flatMap_map]

/-- The names of the relative path are its parts between the slashes. -/
theorem split_relativeText (p : PrintedProblem) :
    Lib.Text.splitGo ['/'] 0 [] p.relativeText = p.names := by
  have last : Lib.Text.splitGo ['/'] 0 [] (p.stem ++ p.kind.extension) = [p.stem ++ p.kind.extension] := by
    have plain := (@name_plain p (p.stem ++ p.kind.extension) (by simp [names])).2.1
    have whole := Lib.Text.splitGo_pass plain [] []
    simp only [List.append_nil] at whole
    simp [whole, Lib.Text.splitGo]
  rw [relativeText, names]
  induction p.directories with
  | nil => simpa using last
  | cons name rest ih =>
    have first := Lib.Text.splitGo_pass name.single [] []
    simp only [List.append_nil] at first
    rw [List.flatMap_cons, List.append_assoc, List.append_assoc, List.singleton_append,
      Lib.Text.splitGo_append, ih, first]
    simp [Lib.Text.splitGo]

/-- Two slashes never stand side by side. -/
theorem path_no_slashes (p : PrintedProblem) : ¬['/', '/'] <:+: p.path := by
  have plain : ∀ name ∈ p.root.map EntryName.chars ++ p.names, name ≠ [] ∧ '/' ∉ name := by
    intro name member
    rcases List.mem_append.mp member with above | below
    · obtain ⟨entry, -, rfl⟩ := List.mem_map.mp above
      exact ⟨entry.occupied, entry.single⟩
    · exact ⟨(p.name_plain below).1, (p.name_plain below).2.1⟩
  rw [path_eq]
  generalize p.root.map EntryName.chars ++ p.names = names at plain
  induction names with
  | nil => simp
  | cons name rest ih =>
    rw [List.forall_mem_cons] at plain
    rw [List.flatMap_cons, List.cons_append, List.infix_cons_iff, not_or]
    constructor
    · cases shape : name with
      | nil => exact absurd shape plain.1.1
      | cons c name =>
        intro starts
        have second := (List.cons_prefix_cons.mp (List.cons_prefix_cons.mp starts).2).1
        exact plain.1.2 (by rw [shape, second]; exact List.mem_cons_self)
    · intro inside
      exact ih plain.2 (infix_append_of_free plain.1.2 inside)

end PrintedProblem

def SourceKind.marker (kind : SourceKind) : List Char := kind.extension ++ [':']

theorem sourceMarkers_eq :
    sourceMarkers = [SourceKind.marker .java, SourceKind.marker .kotlin,
      SourceKind.marker .kotlinScript] := by
  decide

theorem marker_mem (kind : SourceKind) : kind.marker ∈ sourceMarkers := by
  cases kind <;> decide

theorem SourceKind.colon_notMem_extension (kind : SourceKind) : ':' ∉ kind.extension := by
  cases kind <;> decide

/-- A text ends with one extension only. -/
theorem SourceKind.extension_suffix_iff (kind other : SourceKind) (text : List Char) :
    other.extension <:+ text ++ kind.extension ↔ other = kind := by
  constructor
  · intro ends
    have outcome : ∀ k o : SourceKind,
        o.extension.getLast? = k.extension.getLast? → o = k := by
      intro k o
      cases k <;> cases o <;> decide
    apply outcome
    obtain ⟨front, whole⟩ := ends
    have last := congrArg List.getLast? whole
    rw [List.getLast?_append, List.getLast?_append] at last
    have solid : ∀ k : SourceKind, ∃ c, k.extension.getLast? = some c := by
      intro k
      cases k
      · exact ⟨'a', rfl⟩
      · exact ⟨'t', rfl⟩
      · exact ⟨'s', rfl⟩
    obtain ⟨c, c_eq⟩ := solid kind
    obtain ⟨d, d_eq⟩ := solid other
    rw [c_eq, d_eq] at last ⊢
    simpa using last
  · rintro rfl
    exact List.suffix_append _ _

theorem opening_no_dot (f : CompilerFormat) (warning : Bool) : '.' ∉ f.opening warning := by
  cases f <;> cases warning <;> decide

/-- In a line whose path holds no marker the first marker is the one behind the path. -/
theorem firstMarker_printed (f : CompilerFormat) (p : PrintedProblem)
    (plain : ∀ marker ∈ sourceMarkers, ¬marker <:+: p.path) :
    firstMarker (p.printed f) = some (p.kind.marker,
      (f.opening p.warning ++ p.path).length - p.kind.extension.length) := by
  obtain ⟨text, whole⟩ : ∃ text, f.opening p.warning ++ p.path = text ++ p.kind.extension := by
    obtain ⟨text, ends⟩ := p.path_ends
    exact ⟨f.opening p.warning ++ text, by rw [ends, List.append_assoc]⟩
  have found : ∀ kind : SourceKind, findText kind.marker (p.printed f) =
      if kind = p.kind then
        some ((f.opening p.warning ++ p.path).length - p.kind.extension.length)
      else (findText kind.marker (f.position p)).map
        (· + ((f.opening p.warning ++ p.path).length + 1)) := by
    intro kind
    have absent : ¬kind.extension ++ [':'] <:+: f.opening p.warning ++ p.path := by
      intro inside
      refine plain kind.marker (marker_mem kind) ?_
      obtain ⟨rest, shape⟩ : ∃ rest, kind.marker = '.' :: rest := by
        cases kind <;> exact ⟨_, rfl⟩
      rw [shape]
      exact infix_append_of_free (opening_no_dot f p.warning) (shape ▸ inside)
    rw [PrintedProblem.printed, SourceKind.marker,
      findText_boundary kind.colon_notMem_extension absent]
    by_cases same : kind = p.kind
    · rw [if_pos same, if_pos, same]
      rw [whole, SourceKind.extension_suffix_iff]
      exact same
    · rw [if_neg same, if_neg]
      rw [whole, SourceKind.extension_suffix_iff]
      exact same
  rw [firstMarker, sourceMarkers_eq]
  simp only [List.filterMap_cons, List.filterMap_nil, found]
  -- Another marker is found behind the path at the earliest.
  have later : ∀ place, (f.opening p.warning ++ p.path).length - p.kind.extension.length <
      place + ((f.opening p.warning ++ p.path).length + 1) := by
    intro place
    omega
  generalize (f.opening p.warning ++ p.path).length = size at later
  generalize findText (SourceKind.marker .java) (f.position p) = java
  generalize findText (SourceKind.marker .kotlin) (f.position p) = kotlin
  generalize findText (SourceKind.marker .kotlinScript) (f.position p) = script
  cases kind : p.kind with
  | java =>
    rw [kind] at later
    cases kotlin <;> cases script <;> simp [Nat.lt_asymm (later _)]
  | kotlin =>
    rw [kind] at later
    cases java <;> cases script <;> simp [later, Nat.lt_asymm (later _)]
  | kotlinScript =>
    rw [kind] at later
    cases java <;> cases kotlin <;> simp [later]
    split_ifs <;> simp [later]

theorem take_printed (f : CompilerFormat) (p : PrintedProblem) :
    (p.printed f).take ((f.opening p.warning ++ p.path).length - p.kind.extension.length +
      p.kind.marker.length - 1) = f.opening p.warning ++ p.path ∧
    (p.printed f).drop ((f.opening p.warning ++ p.path).length - p.kind.extension.length +
      p.kind.marker.length - 1 + 1) = f.position p := by
  have size : p.kind.extension.length ≤ (f.opening p.warning ++ p.path).length := by
    obtain ⟨text, ends⟩ := p.path_ends
    rw [ends, List.length_append, List.length_append]
    omega
  have place : (f.opening p.warning ++ p.path).length - p.kind.extension.length +
      p.kind.marker.length - 1 = (f.opening p.warning ++ p.path).length := by
    simp only [SourceKind.marker, List.length_append, List.length_singleton] at size ⊢
    omega
  rw [place, PrintedProblem.printed]
  exact ⟨List.take_left, by rw [List.drop_append, List.drop_of_length_le (by omega)]; simp⟩

/-- The path is what is left of the line's front without the opening of the format. -/
theorem compilerPath_printed {f : CompilerFormat} (dialect : f ≠ .kotlin2) (p : PrintedProblem) :
    compilerPath (f.opening p.warning ++ p.path) = p.path := by
  obtain ⟨rest, starts⟩ := p.path_starts
  obtain ⟨text, ends⟩ := p.path_ends
  have trimmed : trimmedText (f.opening p.warning ++ p.path) = f.opening p.warning ++ p.path := by
    refine trimList_of_ends ?_ ?_
    · intro c first
      rw [starts] at first
      revert first
      cases f <;> cases p.warning <;> simp [CompilerFormat.opening] <;> rintro rfl <;> decide
    · intro c last
      rw [ends, ← List.append_assoc, List.getLast?_append] at last
      revert last
      cases p.kind <;> simp [SourceKind.extension] <;> rintro rfl <;> decide
  have bare : trimmedText p.path = p.path := p.trimList_path (by decide) (by decide) (by decide) (by decide)
  have scheme : afterLast "file://".toList (f.opening p.warning ++ p.path) = none := by
    refine afterLast_none (by decide) fun inside => p.path_no_slashes ?_
    have free : 'f' ∉ f.opening p.warning := by
      revert dialect
      cases f <;> cases p.warning <;> decide
    have within := infix_append_of_free free inside
    exact List.IsInfix.trans ⟨"file:".toList, [], rfl⟩ within
  have marked : pathMarkers.findSome? (fun marker => stripStart marker (f.opening p.warning ++ p.path)) =
      if f = .javac then none else some p.path := by
    revert dialect
    rw [starts]
    cases f <;> cases p.warning <;>
      simp [pathMarkers, CompilerFormat.opening, stripStart, List.findSome?]
  rw [compilerPath]
  simp only [trimmed, scheme, marked]
  split_ifs with direct
  · subst direct
    rfl
  · exact bare

theorem absoluteText_last (names : List EntryName) : (absoluteText names).getLast? ≠ some '/' := by
  intro last
  rcases List.eq_nil_or_concat names with rfl | ⟨front, name, rfl⟩
  · cases last
  · rw [absoluteText, List.concat_eq_append, List.flatMap_append, List.flatMap_singleton,
      List.getLast?_append, List.getLast?_cons, Option.some_or, Option.some.injEq] at last
    cases ends : name.chars.getLast? with
    | none => exact name.occupied (List.getLast?_eq_none_iff.mp ends)
    | some c =>
      rw [ends, Option.getD_some] at last
      exact name.single (last ▸ List.mem_of_getLast? ends)

theorem absoluteText_eq_nil {names : List EntryName} (empty : absoluteText names = []) : names = [] := by
  cases names with
  | nil => rfl
  | cons name rest => cases empty

/-- The text behind the root is the relative path unless the root's text ends with a backslash,
which is read as one more slash. -/
theorem stripStart_root (p : PrintedProblem) :
    ((p.rootText.getLast? ≠ some '\\') → stripStart
      ((p.rootText.map slash).rdropWhile (· = '/') ++ ['/']) (p.path.map slash) =
        some (p.relativeText.map slash)) ∧
    (p.rootText.getLast? = some '\\' → ∃ text, stripStart
      ((p.rootText.map slash).rdropWhile (· = '/') ++ ['/']) (p.path.map slash) =
        some ('/' :: text)) := by
  have normal : p.path.map slash =
      (absoluteText p.root).map slash ++ '/' :: p.relativeText.map slash := by
    rw [PrintedProblem.path, List.map_append, List.map_cons]
    rfl
  rw [normal]
  rcases List.eq_nil_or_concat (absoluteText p.root) with empty | ⟨front, c, whole⟩
  · have root := absoluteText_eq_nil empty
    have text : p.rootText = ['/'] := by rw [PrintedProblem.rootText, if_pos root]
    rw [empty, text]
    exact ⟨fun _ => stripStart_append ['/'] _, fun last => by cases last⟩
  · have solid := absoluteText_last p.root
    have text : p.rootText = front ++ [c] := by
      rw [PrintedProblem.rootText, if_neg, whole, List.concat_eq_append]
      intro root
      rw [root] at whole
      exact absurd whole.symm (by simp [absoluteText])
    rw [whole, List.concat_eq_append, List.getLast?_concat] at solid
    rw [whole, text, List.concat_eq_append, List.getLast?_concat, List.map_append, List.map_singleton]
    constructor
    · intro plain
      have kept : ¬decide (slash c = '/') = true := by
        rw [decide_eq_true_eq, slash, if_neg (fun same => plain (congrArg some same))]
        exact fun same => solid (congrArg some same)
      rw [List.rdropWhile_concat_neg (fun d : Char => decide (d = '/')) _ _ kept]
      have joined : front.map slash ++ [slash c] ++ '/' :: p.relativeText.map slash =
          front.map slash ++ [slash c] ++ ['/'] ++ p.relativeText.map slash := by
        simp
      rw [joined]
      exact stripStart_append _ _
    · intro backslash
      obtain rfl := Option.some.inj backslash
      have dropped : decide (slash '\\' = '/') = true := by decide
      rw [List.rdropWhile_concat_pos (fun d : Char => decide (d = '/')) _ _ dropped]
      have slashes : ∀ d ∈ (front.map slash).rtakeWhile (· = '/'), d = '/' := by
        intro d member
        simpa using List.mem_rtakeWhile_imp member
      obtain ⟨text, shape⟩ : ∃ text, (front.map slash).rtakeWhile (· = '/') ++ [slash '\\'] ++
          '/' :: p.relativeText.map slash = '/' :: '/' :: text := by
        cases trailing : (front.map slash).rtakeWhile (· = '/') with
        | nil => exact ⟨_, rfl⟩
        | cons d more =>
          rw [trailing, List.forall_mem_cons] at slashes
          obtain ⟨rfl, more_⟩ := slashes
          cases more with
          | nil => exact ⟨_, rfl⟩
          | cons e more =>
            obtain rfl := more_ e List.mem_cons_self
            exact ⟨_, rfl⟩
      refine ⟨text, ?_⟩
      have joined : front.map slash ++ [slash '\\'] ++ '/' :: p.relativeText.map slash =
          (front.map slash).rdropWhile (· = '/') ++ ['/'] ++ '/' :: text := by
        conv_lhs => rw [← @List.rdropWhile_append_rtakeWhile _ (· = '/') (front.map slash)]
        rw [List.append_assoc, List.append_assoc, ← List.append_assoc _ [slash '\\'], shape]
        simp
      rw [joined]
      exact stripStart_append _ _

/-- The path below the root is a relative path of names. -/
theorem PrintedProblem.relativeText_below (p : PrintedProblem) :
    ¬(p.relativeText = [] ∨ p.relativeText.head? = some '/' ∨ leavesRoot p.relativeText = true) := by
  have parts := p.split_relativeText
  have plain := fun name => @name_plain p name
  rintro (empty | starts | leaves)
  · rw [empty] at parts
    exact (plain [] (by rw [← parts]; exact List.mem_cons_self)).1 rfl
  · cases text : p.relativeText with
    | nil =>
      rw [text] at starts
      cases starts
    | cons c rest =>
      rw [text] at starts parts
      obtain rfl := Option.some.inj starts
      refine (plain [] ?_).1 rfl
      rw [← parts]
      simp [Lib.Text.splitGo]
  · rw [leavesRoot, parts] at leaves
    simp only [Bool.or_eq_true, decide_eq_true_eq, List.contains_iff_mem] at leaves
    rcases leaves with dot | dots
    · exact (plain _ (List.mem_of_mem_head? dot)).2.2.1 rfl
    · exact (plain _ dots).2.2.2 rfl

theorem slash_map_eq_iff (text : List Char) : text.map slash = text ↔ '\\' ∉ text := by
  induction text with
  | nil => simp
  | cons c text ih =>
    rw [List.map_cons, List.cons.injEq, ih, List.mem_cons, not_or]
    refine and_congr_left fun _ => ?_
    rw [slash]
    split
    · rename_i backslash
      simp [backslash]
    · rename_i other
      simp [Ne.symm other]

/-- The path below the root is read when the root's text does not end with a backslash and the
path below it holds none. -/
theorem relativeProblemPath_printed (p : PrintedProblem) :
    relativeProblemPath p.path p.rootText = some p.relativeText ↔
      p.rootText.getLast? ≠ some '\\' ∧ '\\' ∉ p.relativeText := by
  have quotes : trimList quote p.path = p.path := p.trimList_path (by decide) (by decide) (by decide) (by decide)
  obtain ⟨plain, trailing⟩ := stripStart_root p
  rw [relativeProblemPath]
  simp only [quotes]
  by_cases ends : p.rootText.getLast? = some '\\'
  · obtain ⟨text, behind⟩ := trailing ends
    rw [behind]
    simp [ends]
  · rw [plain ends, Option.getD_some, ← slash_map_eq_iff]
    refine ⟨fun read => ⟨ends, ?_⟩, fun kept => ?_⟩
    · split at read
      · cases read
      · exact Option.some.inj read
    · rw [kept.2, if_neg p.relativeText_below]

end Walaru
