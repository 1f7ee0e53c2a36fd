import Walaru.Guarantees.StorePaging
import Walaru.Source.Core.Reverse

/-!
# The event before

What the backward search of a recording returns, for every list of events and every
request: the last event before the start that the request asks for. The plan of the
Linux process backend names the same event. A watch that is made of a write's own target
stops at the writes to that target.
-/
namespace Walaru
open Lib.Text

/-- A step to a boundary or a source target, and a watch only for steps to writes. -/
structure WellFormed (request : ReverseRequest) : Prop where
  one : request.step.isSome ≠ request.untilTarget.isSome
  watched : ∀ watch ∈ request.watch, request.step = some .write ∧ validWatchpoint watch = true

/-- The event is one that the request asks for. -/
def Satisfies (event : Event) (request : ReverseRequest) : Prop :=
  match request.step with
  | some step =>
    event.kind = step.boundary ∧ ∀ watch ∈ request.watch, matchesWatchpoint event.values watch = true
  | none =>
    ∃ target ∈ request.untilTarget, ∃ location ∈ event.location,
      normalizePath location.path = normalizePath target.path ∧ location.line = target.line

/-- The place of the first event of that id. -/
def StartsAt (events : List Event) (id : String) (start : Nat) : Prop :=
  (∃ event, events[start]? = some event ∧ event.id = id) ∧
    ∀ event ∈ events.take start, event.id ≠ id

/-- The event stands before the start, and none between the two is asked for. -/
def LatestBefore (events : List Event) (start : Nat) (request : ReverseRequest) (event : Event) :
    Prop :=
  ∃ earlier later, events.take start = earlier ++ event :: later ∧ Satisfies event request ∧
    ∀ other ∈ later, ¬ Satisfies other request

theorem matchesRequest_iff {event : Event} {request : ReverseRequest} :
    matchesRequest event request = true ↔ Satisfies event request := by
  unfold matchesRequest Satisfies
  cases request.step with
  | some step => cases request.watch <;> simp
  | none => cases request.untilTarget <;> cases event.location <;> simp

theorem requestForm_ok {request : ReverseRequest} :
    requestForm request = .ok () ↔ WellFormed request := by
  unfold requestForm
  simp only [bind, Except.bind, throw, throwThe, MonadExceptOf.throw, pure, Except.pure]
  constructor
  · intro passed
    split_ifs at passed with both watch
    refine ⟨both, fun text asked => ?_⟩
    rw [Option.mem_def] at asked
    rw [asked] at watch
    simpa using watch
  · intro good
    rw [if_neg good.one, if_neg]
    rintro ⟨asked, refused⟩
    obtain ⟨text, same⟩ := Option.isSome_iff_exists.mp asked
    have valid := good.watched text same
    exact refused ⟨valid.1, by simp [same, valid.2]⟩

section Search
variable {recording : Recording} {request : ReverseRequest}

theorem findIdx?_startsAt {events : List Event} {id : String} {start : Nat} :
    (events.findIdx? fun event => event.id = id) = some start ↔ StartsAt events id start := by
  rw [List.findIdx?_eq_some_iff_getElem]
  constructor
  · rintro ⟨inside, here, before⟩
    refine ⟨⟨events[start], by simp [inside], by simpa using here⟩, fun event member => ?_⟩
    obtain ⟨place, bound, rfl⟩ := List.mem_take_iff_getElem.mp member
    simpa using before place (by omega)
  · rintro ⟨⟨event, found, here⟩, before⟩
    obtain ⟨inside, rfl⟩ := List.getElem?_eq_some_iff.mp found
    refine ⟨inside, by simpa using here, fun place bound => ?_⟩
    simpa using before events[place] (List.mem_take_iff_getElem.mpr ⟨place, by omega, rfl⟩)

theorem find?_latest {start : Nat} {events : List Event} {event : Event} :
    ((events.take start).reverse.find? fun event => matchesRequest event request) = some event ↔
      LatestBefore events start request event := by
  rw [List.find?_eq_some_iff_append]
  simp only [Bool.not_eq_true', ← Bool.not_eq_true, matchesRequest_iff]
  constructor
  · rintro ⟨here, later, earlier, whole, none_⟩
    refine ⟨earlier.reverse, later.reverse, ?_, here, fun other member => ?_⟩
    · have turned := congrArg List.reverse whole
      simpa using turned
    · exact none_ other (List.mem_reverse.mp member)
  · rintro ⟨earlier, later, whole, here, none_⟩
    refine ⟨here, later.reverse, earlier.reverse, by simp [whole], fun other member => ?_⟩
    exact none_ other (List.mem_reverse.mp member)

/-- There is a latest event as soon as there is any. -/
theorem exists_latest {events : List Event} {start : Nat} :
    (∃ event, LatestBefore events start request event) ↔
      ∃ event ∈ events.take start, Satisfies event request := by
  simp only [← find?_latest, ← Option.isSome_iff_exists, List.find?_isSome, List.mem_reverse,
    matchesRequest_iff]

theorem previousEvent_ok {event : Event} :
    previousEvent recording request = .ok event ↔
      ∃ start, StartsAt recording.events request.fromEventId start ∧
        LatestBefore recording.events start request event := by
  unfold previousEvent
  cases found : recording.events.findIdx? fun event => event.id = request.fromEventId with
  | none =>
    refine iff_of_false (by simp [throw, throwThe, MonadExceptOf.throw]) ?_
    rintro ⟨start, starts, -⟩
    rw [findIdx?_startsAt.mpr starts] at found
    cases found
  | some start =>
    have starts := findIdx?_startsAt.mp found
    have only : (∃ start, StartsAt recording.events request.fromEventId start ∧
        LatestBefore recording.events start request event) ↔
        LatestBefore recording.events start request event := by
      constructor
      · rintro ⟨other, starts', latest⟩
        have same := (findIdx?_startsAt.mpr starts').symm.trans found
        cases same
        exact latest
      · exact fun latest => ⟨start, starts, latest⟩
    rw [only, ← find?_latest]
    dsimp only
    cases (recording.events.take start).reverse.find? fun event => matchesRequest event request with
    | none => simp [throw, throwThe, MonadExceptOf.throw]
    | some found => simp [pure, Except.pure]

theorem reverse_ok (valid : validateRecording recording = .ok ()) {outcome : ReverseOutcome} :
    reverse recording request = .ok outcome ↔
      WellFormed request ∧ previousEvent recording request = .ok outcome.event ∧
        outcome = ⟨"jvm", outcome.event, false⟩ := by
  unfold reverse
  rw [valid, ← requestForm_ok]
  cases requestForm request with
  | error e => simp [bind, Except.bind]
  | ok done =>
    cases previousEvent recording request with
    | error e => simp [bind, Except.bind]
    | ok event =>
      simp only [bind, Except.bind, pure, Except.pure, Except.ok.injEq, true_and]
      constructor
      · rintro rfl
        exact ⟨rfl, rfl⟩
      · rintro ⟨rfl, same⟩
        exact same.symm

theorem planReverse_ok {backend : LinuxProcessReplayBackend} {plan : LinuxReplayPlan}
    (planned : backend.planReverse recording request = .ok plan) :
    WellFormed request ∧ previousEvent recording request = .ok plan.event := by
  unfold LinuxProcessReplayBackend.planReverse at planned
  rw [← requestForm_ok]
  cases detected : backend.rrExecutable with
  | none => simp [detected, throw, throwThe, MonadExceptOf.throw] at planned
  | some executable =>
    simp only [detected] at planned
    cases formed : requestForm request with
    | error e => simp [formed, bind, Except.bind] at planned
    | ok done =>
      cases found : previousEvent recording request with
      | error e => simp [formed, found, bind, Except.bind] at planned
      | ok event =>
        simp only [formed, found, bind, Except.bind, throw, throwThe, MonadExceptOf.throw, pure,
          Except.pure] at planned
        split at planned
        · cases planned
        · split_ifs at planned
          split at planned
          · cases planned
          · cases planned
            exact ⟨rfl, rfl⟩

end Search

/-- A name that a watch can spell: without the separator and without blanks at its ends. -/
structure WatchName (name : String) : Prop where
  free : '#' ∉ name.toList
  front : ∀ c ∈ name.toList.head?, whiteSpace c = false
  back : ∀ c ∈ name.toList.getLast?, whiteSpace c = false

theorem WatchName.trim {name : String} (good : WatchName name) : Walaru.trim name = name :=
  trimWhere_eq_self good.front good.back

/-- The values of an access to this field. Class names with dots and with slashes are the
same names. -/
def OfField (values : Json) (owner field : String) : Prop :=
  values.getStr "targetKind" = some "field" ∧
    (∃ actual, values.getStr "targetOwner" = some actual ∧
      replaceChar '.' '/' actual = replaceChar '.' '/' owner) ∧
    values.getStr "field" = some field

/-- The values of an access to an array at this index. -/
def OfSlot (values : Json) (index : Int) : Prop :=
  values.getStr "targetKind" = some "array" ∧ (values.get "index").bind asI64 = some index

theorem parseI64_separator {text : String} (inside : '#' ∈ text.toList) : parseI64 text = none := by
  have refused : ∀ digits : List Char, '#' ∈ digits → ¬ (digits ≠ [] ∧ digits.all Char.isDigit) := by
    intro digits member good
    exact absurd (List.all_eq_true.mp good.2 '#' member) (by decide)
  unfold parseI64
  split
  · rename_i digits chars
    have member : '#' ∈ digits := by simpa [chars] using inside
    simp only [if_neg (refused digits member), Option.bind_none]
  · rename_i digits chars
    have member : '#' ∈ digits := by simpa [chars] using inside
    simp only [if_neg (refused digits member), Option.bind_none]
  · simp only [if_neg (refused text.toList inside), Option.bind_none]

theorem mem_of_stripPrefix {front text rest : String} {c : Char}
    (stripped : stripPrefix front text = some rest) (outside : c ∉ front.toList)
    (inside : c ∈ text.toList) : c ∈ rest.toList := by
  unfold stripPrefix startsWith at stripped
  split at stripped
  · rename_i above
    obtain ⟨behind, whole⟩ := List.isPrefixOf_iff_prefix.mp above
    cases stripped
    rw [← whole, List.mem_append] at inside
    rw [String.toList_ofList, ← whole, List.drop_left]
    exact inside.resolve_left outside
  · cases stripped

theorem mem_of_stripSuffix {back text rest : String} {c : Char}
    (stripped : stripSuffix back text = some rest) (outside : c ∉ back.toList)
    (inside : c ∈ text.toList) : c ∈ rest.toList := by
  unfold stripSuffix endsWith at stripped
  split at stripped
  · rename_i below
    obtain ⟨before, whole⟩ := List.isSuffixOf_iff_suffix.mp below
    cases stripped
    rw [← whole, List.mem_append] at inside
    rw [String.toList_ofList, ← whole, List.length_append, Nat.add_sub_cancel, List.take_left]
    exact inside.resolve_right outside
  · cases stripped

/-- A text with the separator is no array watch. -/
theorem watchedIndex_separator {watch : String} (inside : '#' ∈ watch.toList) :
    watchedIndex watch = none := by
  unfold watchedIndex
  cases front : stripPrefix "array[" watch with
  | none => rfl
  | some rest =>
    rw [Option.bind_some]
    cases back : stripSuffix "]" rest with
    | none => rfl
    | some index =>
      have first := mem_of_stripPrefix front (by decide) inside
      exact parseI64_separator (mem_of_stripSuffix back (by decide) first)

theorem matchesWatchpoint_field {owner field : String} (ownerName : WatchName owner)
    (fieldName : WatchName field) (values : Json) :
    matchesWatchpoint values (owner ++ "#" ++ field) = true ↔ OfField values owner field := by
  have split : splitOnce '#' (owner ++ "#" ++ field) = some (owner, field) :=
    splitOnce_append ownerName.free field
  unfold matchesWatchpoint OfField
  rw [watchedIndex_separator (by simp), split]
  dsimp only
  rw [ownerName.trim, fieldName.trim]
  cases values.getStr "targetOwner" <;> simp [and_assoc]

/-- The text of a machine integer is read back. -/
theorem parseI64_toString_int {index : Int} (low : -2 ^ 63 ≤ index) (high : index < 2 ^ 63) :
    parseI64 (toString index) = some index := by
  cases index with
  | ofNat n =>
    have small : n < 2 ^ 63 := by
      have bound : (n : Int) < 2 ^ 63 := high
      omega
    exact parseI64_toString small
  | negSucc n =>
    have small : n + 1 ≤ 2 ^ 63 := by omega
    have chars : (toString (Int.negSucc n)).toList = '-' :: Nat.toDigits 10 (n + 1) := by
      have text : toString (Int.negSucc n) = "-" ++ toString (n + 1) := rfl
      rw [text]
      simp [toString, Nat.repr]
    have all : (Nat.toDigits 10 (n + 1)).all Char.isDigit = true := List.all_eq_true.mpr
      fun c member => Nat.isDigit_of_mem_toDigits (by decide) (by decide) member
    unfold parseI64
    rw [chars]
    change ((if Nat.toDigits 10 (n + 1) ≠ [] ∧ (Nat.toDigits 10 (n + 1)).all Char.isDigit = true then
      some (Nat.ofDigitChars 10 (Nat.toDigits 10 (n + 1)) 0) else none).bind fun n =>
        if n ≤ 2 ^ 63 then some (-(n : Int)) else none) = _
    rw [if_pos ⟨Nat.toDigits_ne_nil, all⟩, Nat.ofDigitChars_ten_toDigits, Option.bind_some,
      if_pos small]
    simp [Int.negSucc_eq]

theorem watchedIndex_slot {index : Int} (low : -2 ^ 63 ≤ index) (high : index < 2 ^ 63) :
    watchedIndex ("array[" ++ toString index ++ "]") = some index := by
  have front : stripPrefix "array[" ("array[" ++ toString index ++ "]") =
      some (toString index ++ "]") := by
    unfold stripPrefix startsWith
    have chars : ("array[" ++ toString index ++ "]").toList =
        "array[".toList ++ (toString index ++ "]").toList := by simp
    rw [chars, if_pos (List.isPrefixOf_iff_prefix.mpr (List.prefix_append _ _)), List.drop_left,
      String.ofList_toList]
  have back : stripSuffix "]" (toString index ++ "]") = some (toString index) := by
    unfold stripSuffix endsWith
    rw [String.toList_append, if_pos (List.isSuffixOf_iff_suffix.mpr (List.suffix_append _ _)),
      List.length_append, Nat.add_sub_cancel, List.take_left, String.ofList_toList]
  rw [watchedIndex, front, Option.bind_some, back, Option.bind_some, parseI64_toString_int low high]

theorem asI64_bounds {value : Json} {index : Int} (read : asI64 value = some index) :
    -2 ^ 63 ≤ index ∧ index < 2 ^ 63 := by
  unfold asI64 at read
  split at read
  · split at read
    · cases read
      omega
    · cases read
  · split at read
    · rename_i bounds
      cases read
      exact bounds
    · cases read
  · cases read

theorem matchesWatchpoint_slot {index : Int} (low : -2 ^ 63 ≤ index) (high : index < 2 ^ 63)
    (values : Json) :
    matchesWatchpoint values ("array[" ++ toString index ++ "]") = true ↔ OfSlot values index := by
  unfold matchesWatchpoint OfSlot
  rw [watchedIndex_slot low high]
  simp

/-- A request for the write before an event that a watch stops at. -/
def writesTo (fromEventId watch : String) : ReverseRequest :=
  ⟨fromEventId, some .write, none, some watch⟩

theorem satisfies_writesTo {fromEventId watch : String} {event : Event} :
    Satisfies event (writesTo fromEventId watch) ↔
      event.kind = .write ∧ matchesWatchpoint event.values watch = true := by
  simp [Satisfies, writesTo, StepKind.boundary]

/-- What reverse execution does on a recording: an event comes back exactly for the
well-formed requests with a known start and an earlier event that they ask for, and it is
the latest such; a plan names the same one; a watch made of a write's target stops at the
writes to that target. -/
structure ReverseExact (recording : Recording) : Prop where
  returns : ∀ request, (∃ outcome, reverse recording request = .ok outcome) ↔
    WellFormed request ∧ ∃ start, StartsAt recording.events request.fromEventId start ∧
      ∃ event ∈ recording.events.take start, Satisfies event request
  latest : ∀ request outcome, reverse recording request = .ok outcome →
    ∃ start, StartsAt recording.events request.fromEventId start ∧
      LatestBefore recording.events start request outcome.event
  planned : ∀ (backend : LinuxProcessReplayBackend) request plan,
    backend.planReverse recording request = .ok plan →
      ∃ outcome, reverse recording request = .ok outcome ∧ outcome.event = plan.event
  fields : ∀ written ∈ recording.events, written.kind = .write → ∀ owner field,
    written.values.getStr "targetKind" = some "field" →
    written.values.getStr "targetOwner" = some owner →
    written.values.getStr "field" = some field → WatchName owner → WatchName field →
    ∀ fromEventId event, Satisfies event (writesTo fromEventId (owner ++ "#" ++ field)) ↔
      event.kind = .write ∧ OfField event.values owner field
  slots : ∀ written ∈ recording.events, written.kind = .write → ∀ index,
    OfSlot written.values index → ∀ fromEventId event,
      Satisfies event (writesTo fromEventId ("array[" ++ toString index ++ "]")) ↔
        event.kind = .write ∧ OfSlot event.values index

theorem reverse_exact (recording : Recording) (valid : validateRecording recording = .ok ()) :
    ReverseExact recording where
  returns request := by
    constructor
    · rintro ⟨outcome, done⟩
      obtain ⟨formed, found, -⟩ := (reverse_ok valid).mp done
      obtain ⟨start, starts, latest⟩ := previousEvent_ok.mp found
      exact ⟨formed, start, starts, exists_latest.mp ⟨_, latest⟩⟩
    · rintro ⟨formed, start, starts, some_⟩
      obtain ⟨event, latest⟩ := exists_latest.mpr some_
      have found := previousEvent_ok.mpr ⟨start, starts, latest⟩
      exact ⟨⟨"jvm", event, false⟩, (reverse_ok valid).mpr ⟨formed, found, rfl⟩⟩
  latest request outcome done := previousEvent_ok.mp ((reverse_ok valid).mp done).2.1
  planned backend request plan done := by
    obtain ⟨formed, found⟩ := planReverse_ok done
    exact ⟨⟨"jvm", plan.event, false⟩, (reverse_ok valid).mpr ⟨formed, found, rfl⟩, rfl⟩
  fields _ _ _ owner field _ _ _ ownerName fieldName fromEventId event := by
    rw [satisfies_writesTo, matchesWatchpoint_field ownerName fieldName]
  slots _ _ _ index slot fromEventId event := by
    obtain ⟨value, -, read⟩ := Option.bind_eq_some_iff.mp slot.2
    obtain ⟨low, high⟩ := asI64_bounds read
    rw [satisfies_writesTo, matchesWatchpoint_slot low high]

/-- Two writes to fields of one class and a line after them. -/
def twoWrites : Recording :=
  let event (id : String) (sequence : Nat) (kind : EventKind) (field : String) : Event :=
    ⟨id, sequence, 1, "main", false, false, [], kind, none,
      .object [("field", .string field), ("targetKind", .string "field"),
        ("targetOwner", .string "demo/Counter")], .object [], "hash", 0⟩
  ⟨"rec", "rev", "demo.Test#works", "jvm", ⟨"jvm", .complete, ["pureJvm", "singleThread"], ∅⟩, [],
    none, [event "a" 0 .write "first", event "b" 1 .write "second", event "c" 2 .line "none"], []⟩

/-- The watch passes over the second write. -/
theorem reverse_exact_demo :
    ∃ outcome, reverse twoWrites (writesTo "c" "demo.Counter#first") = .ok outcome ∧
      ∃ start, StartsAt twoWrites.events "c" start ∧
        LatestBefore twoWrites.events start (writesTo "c" "demo.Counter#first") outcome.event := by
  have exact_ := reverse_exact twoWrites (by decide +kernel)
  have found : (reverse twoWrites (writesTo "c" "demo.Counter#first")).toOption.isSome = true := by
    decide +kernel
  cases done : reverse twoWrites (writesTo "c" "demo.Counter#first") with
  | error e =>
    rw [done] at found
    cases found
  | ok outcome => exact ⟨outcome, rfl, exact_.latest _ outcome done⟩

end Walaru
