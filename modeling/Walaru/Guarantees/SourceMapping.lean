import Mathlib.Data.List.TakeWhile
import Walaru.Guarantees.SourceMapTotality
import Walaru.Lib.Smap

/-!
# Kotlin source maps and their format

What is read of a well-formed source map are its files and its line infos. Its positions are
those of the format except in two ways: an omitted file id is read as 1 and not as the one
before, and of a range only the first output line of its last repetition is covered.
-/
namespace Walaru.SourceMaps
open Lib.JavaText Lib.Smap

/-- The state of the loop inside the Kotlin stratum. -/
def scanned (inFiles inLines : Bool) (files : Files) (mappings : List Entry) : Scan where
  kotlinStratum := true
  fileSection := inFiles
  lineSection := inLines
  pending := none
  stopped := false
  files := files
  mappings := mappings

/-- A line that opens with no asterisk is no directive. -/
theorem step_entry {fallback : Text} {inFiles inLines : Bool} {files : Files}
    {mappings : List Entry} {u : UInt16} (rest : Text) (other : u ≠ 42) :
    (scanned inFiles inLines files mappings).step fallback (u :: rest) =
      if inFiles then (scanned inFiles inLines files mappings).fileLine fallback (u :: rest)
      else if inLines && (u :: rest).contains 58 then
        scanned inFiles inLines files
          (mappings ++ (parseLine (u :: rest) files fallback).toList)
      else scanned inFiles inLines files mappings := by
  have star : (42 == u) = false := by
    rw [beq_eq_false_iff_ne]
    exact other.symm
  have directive : ∀ text : String, ∀ more, ascii text = 42 :: more →
      (ascii text).isPrefixOf (u :: rest) = false ∧ u :: rest ≠ ascii text := by
    intro text more shown
    rw [shown]
    refine ⟨by rw [List.isPrefixOf, star, Bool.false_and], fun same => ?_⟩
    rw [(List.cons.inj same).1] at star
    exact absurd star (by decide)
  unfold Scan.step scanned
  dsimp only
  rw [if_neg Bool.false_ne_true, (directive "*S " _ rfl).1, if_neg Bool.false_ne_true,
    if_neg (by decide), if_neg (directive "*F" _ rfl).2, if_neg (directive "*L" _ rfl).2,
    (directive "*" _ rfl).1, if_neg Bool.false_ne_true]

/-- Another directive closes both sections. -/
theorem step_directive {fallback : Text} {inFiles inLines : Bool} {files : Files}
    {mappings : List Entry} {line : Text} (star : (ascii "*").isPrefixOf line = true)
    (stratum : (ascii "*S ").isPrefixOf line = false) (noFiles : line ≠ ascii "*F")
    (noLines : line ≠ ascii "*L") :
    (scanned inFiles inLines files mappings).step fallback line =
      scanned false false files mappings := by
  unfold Scan.step scanned
  dsimp only
  rw [if_neg Bool.false_ne_true, stratum, if_neg Bool.false_ne_true, if_neg (by decide),
    if_neg noFiles, if_neg noLines, if_pos star]

theorem step_outside {fallback : Text} {files : Files} {mappings : List Entry} {line : Text}
    (stratum : (ascii "*S ").isPrefixOf line = false) (noFiles : line ≠ ascii "*F")
    (noLines : line ≠ ascii "*L") :
    (scanned false false files mappings).step fallback line = scanned false false files mappings := by
  by_cases star : (ascii "*").isPrefixOf line = true
  · exact step_directive star stratum noFiles noLines
  · unfold Scan.step scanned
    dsimp only
    rw [if_neg Bool.false_ne_true, stratum, if_neg Bool.false_ne_true, if_neg (by decide),
      if_neg noFiles, if_neg noLines, if_neg star, if_neg Bool.false_ne_true, Bool.false_and,
      if_neg Bool.false_ne_true]

/-- Other sections leave the files and the mappings as they are. -/
theorem fold_passive {fallback : Text} {lines : List Text} (passive : Passive lines)
    (inFiles inLines : Bool) (files : Files) (mappings : List Entry) :
    ∃ inFiles' inLines', lines.foldl (Scan.step fallback) (scanned inFiles inLines files mappings) =
      scanned inFiles' inLines' files mappings := by
  have outside : ∀ lines : List Text, (∀ line ∈ lines, (ascii "*S ").isPrefixOf line = false ∧
      line ≠ ascii "*F" ∧ line ≠ ascii "*L") →
      lines.foldl (Scan.step fallback) (scanned false false files mappings) =
        scanned false false files mappings := by
    intro lines others
    induction lines with
    | nil => rfl
    | cons line lines ih =>
      obtain ⟨⟨stratum, noFiles, noLines⟩, rest⟩ := List.forall_mem_cons.mp others
      rw [List.foldl_cons, step_outside stratum noFiles noLines, ih rest]
  rcases passive.opens with empty | ⟨line, rest, whole, star⟩
  · exact ⟨inFiles, inLines, by rw [empty, List.foldl_nil]⟩
  · have others := passive.others
    rw [whole] at others ⊢
    obtain ⟨⟨stratum, noFiles, noLines⟩, tail⟩ := List.forall_mem_cons.mp others
    exact ⟨false, false, by
      rw [List.foldl_cons, step_directive star stratum noFiles noLines, outside rest tail]⟩

/-- A decimal number opens with a digit. -/
theorem decimal_opens (n : Nat) : ∃ u rest, decimal n = u :: rest ∧ 48 ≤ u.toNat ∧ u.toNat ≤ 57 := by
  obtain ⟨u, rest, whole⟩ : ∃ u rest, decimal n = u :: rest := by
    refine List.exists_cons_of_ne_nil ?_
    rw [decimal, ne_eq, List.map_eq_nil_iff]
    exact Nat.toDigits_ne_nil
  exact ⟨u, rest, whole, decimal_unit (whole ▸ List.mem_cons_self)⟩

theorem decimal_free {n : Nat} {u : UInt16} (outside : u.toNat < 48 ∨ 57 < u.toNat) :
    u ∉ decimal n := by
  intro inside
  have range := decimal_unit inside
  omega

theorem splitSpace_file {id : Nat} {u : UInt16} {rest : Text} (occupied : space u = false) :
    splitSpace (decimal id ++ 32 :: u :: rest) = (decimal id, some (u :: rest)) := by
  have digits : ∀ v ∈ decimal id, space v = false := by
    intro v inside
    have range := decimal_unit inside
    simp only [space, Bool.or_eq_false_iff, Bool.and_eq_false_iff, decide_eq_false_iff_not]
    omega
  refine splitSpace_append digits fun v first => ?_
  cases first
  exact occupied

/-- A file of the file section is put under its id. -/
theorem fold_file {fallback : Text} {files : Files} {mappings : List Entry} {file : FileInfo}
    (small : file.id < 2 ^ 31) (named : ∃ u rest, file.name = u :: rest ∧ space u = false)
    (trimmed : ∀ line ∈ file.text, Lib.JavaText.trim line = line) :
    file.text.foldl (Scan.step fallback) (scanned true false files mappings) =
      scanned true false (putFile file.id (file.path.getD file.name) files) mappings := by
  obtain ⟨u, rest, name, occupied⟩ := named
  obtain ⟨d, digits, number, low, high⟩ := decimal_opens file.id
  have read : parseInt (decimal file.id) = some (file.id : Int) := by
    rw [parseInt_decimal, if_pos small]
  have parts := @splitSpace_file file.id u rest occupied
  have shown : decimal file.id ++ 32 :: file.name = d :: (digits ++ 32 :: u :: rest) := by
    rw [number, name, List.cons_append]
  rw [← name, shown] at parts
  cases named : file.path with
  | none =>
    have lines : file.text = [d :: (digits ++ 32 :: u :: rest)] := by
      rw [← shown, FileInfo.text, named]
      dsimp only
      rw [show Lib.Utf16.encode " " = [32] from rfl, List.append_assoc, List.singleton_append]
    rw [lines]
    have digit : d ≠ 42 := by
      rintro rfl
      exact absurd low (by decide)
    have plus : (43 == d) = false := by
      rw [beq_eq_false_iff_ne]
      rintro rfl
      exact absurd low (by decide)
    have noPlus : (ascii "+ ").isPrefixOf (d :: (digits ++ 32 :: u :: rest)) = false := by
      rw [show ascii "+ " = [43, 32] from rfl, List.isPrefixOf, plus, Bool.false_and]
    rw [List.foldl_cons, List.foldl_nil, step_entry _ digit, if_pos rfl]
    unfold Scan.fileLine
    rw [noPlus, if_neg Bool.false_ne_true, if_neg (List.cons_ne_nil _ _), parts]
    dsimp only
    rw [read, name]
    rfl
  | some path =>
    have lines : file.text = [43 :: 32 :: d :: (digits ++ 32 :: u :: rest), path] := by
      rw [← shown, FileInfo.text, named]
      dsimp only
      rw [show Lib.Utf16.encode "+ " = [43, 32] from rfl, show Lib.Utf16.encode " " = [32] from rfl,
        List.append_assoc, List.append_assoc, List.singleton_append]
      rfl
    rw [lines] at trimmed ⊢
    obtain ⟨whole, -⟩ := List.forall_mem_cons.mp trimmed
    have digit : blank d = false := by
      unfold blank
      rw [decide_eq_false_iff_not]
      omega
    have kept : Lib.JavaText.trim (d :: (digits ++ 32 :: u :: rest)) = d :: (digits ++ 32 :: u :: rest) :=
      @trim_append [43, 32] _ _ whole digit
    have opened : (scanned true false files mappings).step fallback
        (43 :: 32 :: d :: (digits ++ 32 :: u :: rest)) =
        { scanned true false files mappings with pending := some (file.id, some file.name) } := by
      rw [step_entry _ (by decide), if_pos rfl]
      have plus : (ascii "+ ").isPrefixOf (43 :: 32 :: d :: (digits ++ 32 :: u :: rest)) = true := by
        rw [show ascii "+ " = [43, 32] from rfl]
        rfl
      have fields : splitSpace (Lib.JavaText.trim (List.drop 2 (43 :: 32 :: d :: (digits ++ 32 :: u :: rest)))) =
          (decimal file.id, some file.name) := by
        change splitSpace (Lib.JavaText.trim (d :: (digits ++ 32 :: u :: rest))) = _
        rw [kept, parts]
      unfold Scan.fileLine
      rw [if_pos plus]
      dsimp only
      rw [fields]
      dsimp only
      rw [read]
    rw [List.foldl_cons, opened, List.foldl_cons, List.foldl_nil]
    rfl

theorem putFile_fresh {id : Int} {files : Files} (fresh : ∀ file ∈ files, file.1 ≠ id)
    (path : Text) : putFile id path files = files ++ [(id, path)] := by
  induction files with
  | nil => rfl
  | cons file files ih =>
    obtain ⟨first, rest⟩ := List.forall_mem_cons.mp fresh
    rw [putFile, if_neg first, ih rest, List.cons_append]

/-- The files under their ids. -/
def filed (files : List FileInfo) : Files :=
  files.map fun file => ((file.id : Int), file.path.getD file.name)

theorem getFile_filed (fallback : Text) (files : List FileInfo) (id : Nat) :
    getFile id fallback (filed files) = pathOf fallback files id := by
  unfold getFile pathOf filed
  rw [List.find?_map, Option.map_map]
  congr 2
  refine congrArg (List.find? · files) (funext fun file => ?_)
  exact decide_eq_decide.mpr Int.ofNat_inj

theorem firstFile_filed (fallback : Text) (files : List FileInfo) :
    getFile 1 (firstFile fallback (filed files)) (filed files) = primary fallback files := by
  have first : firstFile fallback (filed files) =
      (files.head?.map fun file => file.path.getD file.name).getD fallback := by
    unfold firstFile filed
    rw [List.head?_map, Option.map_map]
    rfl
  rw [primary, ← first]
  exact getFile_filed _ files 1

/-- The file section of files with different ids. -/
theorem fold_files {fallback : Text} {mappings : List Entry} {files : List FileInfo}
    (ids : (files.map FileInfo.id).Nodup) (small : ∀ file ∈ files, file.id < 2 ^ 31)
    (named : ∀ file ∈ files, ∃ u rest, file.name = u :: rest ∧ space u = false)
    (trimmed : ∀ line ∈ files.flatMap FileInfo.text, Lib.JavaText.trim line = line) :
    (files.flatMap FileInfo.text).foldl (Scan.step fallback) (scanned true false [] mappings) =
      scanned true false (filed files) mappings := by
  suffices general : ∀ done, (∀ file ∈ done, ∀ other ∈ files, file.id ≠ other.id) →
      (files.flatMap FileInfo.text).foldl (Scan.step fallback) (scanned true false (filed done) mappings) =
        scanned true false (filed (done ++ files)) mappings by
    exact general [] nofun
  induction files with
  | nil =>
    intro done _
    rw [List.append_nil]
    rfl
  | cons file files ih =>
    intro done apart
    obtain ⟨different, ids⟩ := List.nodup_cons.mp ids
    obtain ⟨fits, small⟩ := List.forall_mem_cons.mp small
    obtain ⟨name, named⟩ := List.forall_mem_cons.mp named
    rw [List.flatMap_cons, List.forall_mem_append] at trimmed
    have fresh : ∀ entry ∈ filed done, entry.1 ≠ (file.id : Int) := by
      intro entry member
      obtain ⟨earlier, inside, rfl⟩ := List.mem_map.mp member
      have other := apart earlier inside file List.mem_cons_self
      dsimp only
      omega
    have apart' : ∀ earlier ∈ done ++ [file], ∀ other ∈ files, earlier.id ≠ other.id := by
      intro earlier member other inside
      rcases List.mem_append.mp member with old | new
      · exact apart earlier old other (List.mem_cons_of_mem _ inside)
      · rw [List.mem_singleton.mp new]
        exact fun same => different (same ▸ List.mem_map_of_mem inside)
    have stepped := ih ids small named trimmed.2 (done ++ [file]) apart'
    rw [List.flatMap_cons, List.foldl_append, fold_file fits name trimmed.1, putFile_fresh fresh]
    rw [List.append_assoc, List.singleton_append] at stepped
    rw [← stepped]
    unfold filed
    rw [List.map_append]
    rfl

/-- The numbers that are written in a line info are of the type `int`; a file id that is left
out is read as 1. -/
structure Fits (info : LineInfo) : Prop where
  inputStart : info.inputStart < 2 ^ 31
  file : info.fileId.getD 1 < 2 ^ 31
  count : info.repeatCount.getD 1 < 2 ^ 31
  outputStart : info.outputStart < 2 ^ 31
  increment : info.increment.getD 1 < 2 ^ 31

instance (info : LineInfo) : Decidable (Fits info) :=
  decidable_of_iff (info.inputStart < 2 ^ 31 ∧ info.fileId.getD 1 < 2 ^ 31 ∧
    info.repeatCount.getD 1 < 2 ^ 31 ∧ info.outputStart < 2 ^ 31 ∧ info.increment.getD 1 < 2 ^ 31)
    ⟨fun ⟨a, b, c, d, e⟩ => ⟨a, b, c, d, e⟩, fun ⟨a, b, c, d, e⟩ => ⟨a, b, c, d, e⟩⟩

/-- What is read of a line info. -/
def entryOf (fallback : Text) (files : List FileInfo) (info : LineInfo) : Option Entry :=
  if Fits info then
    some ⟨info.inputStart, info.outputStart, info.repeatCount.getD 1, info.increment.getD 1,
      pathOf fallback files (info.fileId.getD 1)⟩
  else none

theorem optional_free {mark : String} {n : Option Nat} {u : UInt16} (digit : u.toNat < 48 ∨ 57 < u.toNat)
    (free : u ∉ Lib.Utf16.encode mark) : u ∉ optionalNumber mark n := by
  cases n with
  | none => exact List.not_mem_nil
  | some n =>
    intro inside
    rcases List.mem_append.mp inside with marked | number
    · exact free marked
    · exact decimal_free digit number

theorem splitAtUnit_optional (n : Nat) (more : Option Nat) :
    splitAtUnit 44 (decimal n ++ optionalNumber "," more) = (decimal n, more.map decimal) := by
  have free : (44 : UInt16) ∉ decimal n := decimal_free (by decide)
  cases more with
  | none =>
    rw [optionalNumber, List.append_nil]
    exact splitAtUnit_free free
  | some more => exact splitAtUnit_append free _

theorem optionalInt_decimal (n : Option Nat) :
    optionalInt (n.map decimal) = if n.getD 1 < 2 ^ 31 then some ((n.getD 1 : Nat) : Int) else none := by
  cases n with
  | none => rfl
  | some n => exact parseInt_decimal n

theorem takeFileId_text (inputStart : Nat) (fileId count : Option Nat) :
    takeFileId (decimal inputStart ++ optionalNumber "#" fileId ++ optionalNumber "," count) =
      if fileId.getD 1 < 2 ^ 31 then
        some (((fileId.getD 1 : Nat) : Int), decimal inputStart ++ optionalNumber "," count)
      else none := by
  have outside : ∀ {u : UInt16} {text : Text}, u ∉ text → ∀ v ∈ text, decide (v ≠ u) = true :=
    fun free v inside => decide_eq_true fun same => free (same ▸ inside)
  have start : ∀ v ∈ decimal inputStart, decide (v ≠ 35) = true := outside (decimal_free (by decide))
  have rest : ∀ v ∈ optionalNumber "," count, decide (v ≠ 35) = true :=
    outside (optional_free (by decide) (by decide))
  unfold takeFileId
  cases fileId with
  | none =>
    have absent : (decimal inputStart ++ optionalNumber "#" none ++ optionalNumber "," count).dropWhile
        (fun u => decide (u ≠ 35)) = [] := by
      rw [List.dropWhile_eq_nil_iff]
      intro v inside
      rw [optionalNumber, List.append_nil] at inside
      exact (List.mem_append.mp inside).elim (start v) (rest v)
    rw [absent, optionalNumber, List.append_nil]
    rfl
  | some id =>
    have number : ∀ v ∈ decimal id, decide (v ≠ 44) = true := outside (decimal_free (by decide))
    have whole : decimal inputStart ++ optionalNumber "#" (some id) ++ optionalNumber "," count =
        decimal inputStart ++ 35 :: (decimal id ++ optionalNumber "," count) := by
      rw [optionalNumber, show Lib.Utf16.encode "#" = [35] from rfl, List.append_assoc, List.append_assoc,
        List.singleton_append]
    have behind : (decimal id ++ optionalNumber "," count).takeWhile (fun u => decide (u ≠ 44)) = decimal id ∧
        (decimal id ++ optionalNumber "," count).dropWhile (fun u => decide (u ≠ 44)) = optionalNumber "," count := by
      rw [List.takeWhile_append_of_pos number, List.dropWhile_append_of_pos number]
      cases count with
      | none => exact ⟨List.append_nil _, rfl⟩
      | some count => exact ⟨List.append_nil _, rfl⟩
    rw [whole, List.dropWhile_append_of_pos start, List.takeWhile_append_of_pos start,
      List.dropWhile_cons_of_neg (by decide), List.takeWhile_cons_of_neg (by decide), List.append_nil]
    dsimp only
    rw [behind.1, behind.2, parseInt_decimal]
    by_cases fits : id < 2 ^ 31
    · rw [if_pos fits]
      rw [if_pos (show (some id).getD 1 < 2 ^ 31 from fits)]
      rfl
    · rw [if_neg fits]
      rw [if_neg (show ¬(some id).getD 1 < 2 ^ 31 from fits)]
      rfl

theorem parseLine_text (fallback : Text) (files : List FileInfo) (info : LineInfo) :
    parseLine info.text (filed files) fallback = entryOf fallback files info := by
  have free : (58 : UInt16) ∉ decimal info.inputStart ++ optionalNumber "#" info.fileId ++
      optionalNumber "," info.repeatCount := by
    intro inside
    rcases List.mem_append.mp inside with first | last
    · rcases List.mem_append.mp first with number | id
      · exact decimal_free (by decide) number
      · exact optional_free (by decide) (by decide) id
    · exact optional_free (by decide) (by decide) last
  have sides : splitAtUnit 58 info.text =
      (decimal info.inputStart ++ optionalNumber "#" info.fileId ++ optionalNumber "," info.repeatCount,
        some (decimal info.outputStart ++ optionalNumber "," info.increment)) := by
    rw [LineInfo.text, show Lib.Utf16.encode ":" = [58] from rfl, List.append_assoc, List.append_assoc,
      List.singleton_append]
    exact splitAtUnit_append free _
  unfold parseLine
  dsimp only
  rw [sides]
  dsimp only
  rw [takeFileId_text]
  by_cases file : info.fileId.getD 1 < 2 ^ 31
  · rw [if_pos file]
    dsimp only [Option.bind_eq_bind, Option.bind_some]
    rw [splitAtUnit_optional, Option.getD_some, splitAtUnit_optional]
    dsimp only
    rw [parseInt_decimal, parseInt_decimal, optionalInt_decimal, optionalInt_decimal, getFile_filed]
    unfold entryOf
    by_cases fits : Fits info
    · rw [if_pos fits, if_pos fits.inputStart, if_pos fits.outputStart, if_pos fits.count,
        if_pos fits.increment]
      rfl
    · rw [if_neg fits]
      split_ifs with a b c d
      · exact absurd ⟨a, file, c, b, d⟩ fits
      all_goals rfl
  · have unread : ¬Fits info := fun fits => file fits.file
    rw [if_neg file, entryOf, if_neg unread]
    rfl

theorem fold_lines {fallback : Text} {files : List FileInfo} (lines : List LineInfo) :
    (lines.map LineInfo.text).foldl (Scan.step fallback) (scanned false true (filed files) []) =
      scanned false true (filed files) (lines.filterMap (entryOf fallback files)) := by
  suffices general : ∀ mappings,
      (lines.map LineInfo.text).foldl (Scan.step fallback) (scanned false true (filed files) mappings) =
        scanned false true (filed files) (mappings ++ lines.filterMap (entryOf fallback files)) by
    exact general []
  induction lines with
  | nil =>
    intro mappings
    rw [List.filterMap_nil, List.append_nil]
    rfl
  | cons info lines ih =>
    intro mappings
    obtain ⟨d, digits, number, low, -⟩ := decimal_opens info.inputStart
    obtain ⟨rest, whole⟩ : ∃ rest, info.text = d :: rest := by
      unfold LineInfo.text
      rw [number]
      exact ⟨_, rfl⟩
    have digit : d ≠ 42 := by
      rintro rfl
      exact absurd low (by decide)
    have colon : info.text.contains 58 = true := by
      rw [List.contains_iff_mem, LineInfo.text, show Lib.Utf16.encode ":" = [58] from rfl]
      simp
    have stepped : (scanned false true (filed files) mappings).step fallback info.text =
        scanned false true (filed files) (mappings ++ (entryOf fallback files info).toList) := by
      rw [whole, step_entry _ digit, ← whole, if_neg Bool.false_ne_true, Bool.true_and, if_pos colon,
        parseLine_text]
    rw [List.map_cons, List.foldl_cons, stepped, ih, List.append_assoc]
    congr 2
    cases entry : entryOf fallback files info with
    | none => rw [List.filterMap_cons_none entry]; rfl
    | some e => rw [List.filterMap_cons_some entry]; rfl

/-- Nothing is waited for. Without mappings the loop still runs. -/
structure Idle (files : Files) (mappings : List Entry) (s : Scan) : Prop where
  ready : s.pending = none
  sameFiles : s.files = files
  sameMappings : s.mappings = mappings
  running : mappings = [] → s.stopped = false

/-- Outside the Kotlin stratum, or behind the end of the loop. -/
structure Skipping (files : Files) (mappings : List Entry) (s : Scan) : Prop
    extends Idle files mappings s where
  elsewhere : s.stopped = true ∨ s.kotlinStratum = false

theorem Idle.other_stratum {fallback : Text} {files : Files} {mappings : List Entry} {s : Scan}
    (idle : Idle files mappings s) {name : Text} (other : name ≠ ascii "Kotlin") :
    Skipping files mappings (s.step fallback (ascii "*S " ++ name)) := by
  have opens : (ascii "*S ").isPrefixOf (ascii "*S " ++ name) = true :=
    List.isPrefixOf_iff_prefix.mpr (List.prefix_append _ _)
  have unlike : ascii "*S " ++ name ≠ ascii "*S Kotlin" := fun same =>
    other (List.append_cancel_left (same.trans (rfl : _ = ascii "*S " ++ ascii "Kotlin")))
  unfold Scan.step
  by_cases stopped : s.stopped = true
  · rw [if_pos stopped]
    exact ⟨idle, Or.inl stopped⟩
  · rw [if_neg stopped, idle.ready]
    dsimp only
    rw [if_pos opens]
    by_cases finished : (s.kotlinStratum && !s.mappings.isEmpty) = true
    · rw [if_pos finished]
      refine ⟨⟨rfl, idle.sameFiles, idle.sameMappings, fun none_ => ?_⟩, Or.inl rfl⟩
      rw [idle.sameMappings, none_, List.isEmpty_nil, Bool.not_true, Bool.and_false] at finished
      cases finished
    · rw [if_neg finished]
      exact ⟨⟨rfl, idle.sameFiles, idle.sameMappings, idle.running⟩, Or.inr (decide_eq_false unlike)⟩

theorem Skipping.line {fallback : Text} {files : Files} {mappings : List Entry} {s : Scan}
    (skipping : Skipping files mappings s) {line : Text}
    (stratum : (ascii "*S ").isPrefixOf line = false) :
    Skipping files mappings (s.step fallback line) := by
  have same : s.step fallback line = s := by
    unfold Scan.step
    by_cases stopped : s.stopped = true
    · rw [if_pos stopped]
    · have outside := skipping.elsewhere.resolve_left stopped
      rw [if_neg stopped, skipping.ready]
      dsimp only
      rw [stratum, if_neg Bool.false_ne_true, outside, Bool.not_false, if_pos rfl]
  rw [same]
  exact skipping

/-- The strata of other languages leave the files and the mappings as they are. -/
theorem fold_strata {fallback : Text} {files : Files} {mappings : List Entry} {s : Scan}
    (idle : Idle files mappings s) {strata : List Stratum}
    (others : ∀ other ∈ strata, other.id ≠ Lib.Utf16.encode "Kotlin" ∧
      ∀ line ∈ other.body, (Lib.Utf16.encode "*S ").isPrefixOf line = false) :
    Idle files mappings ((strata.flatMap Stratum.text).foldl (Scan.step fallback) s) := by
  have body : ∀ lines : List Text, (∀ line ∈ lines, (ascii "*S ").isPrefixOf line = false) →
      ∀ s, Skipping files mappings s → Skipping files mappings (lines.foldl (Scan.step fallback) s) := by
    intro lines free
    induction lines with
    | nil => exact fun _ skipping => skipping
    | cons line lines ih =>
      obtain ⟨first, rest⟩ := List.forall_mem_cons.mp free
      exact fun s skipping => ih rest _ (skipping.line first)
  induction strata generalizing s with
  | nil => exact idle
  | cons stratum strata ih =>
    obtain ⟨⟨name, free⟩, rest⟩ := List.forall_mem_cons.mp others
    rw [List.flatMap_cons, List.foldl_append]
    exact ih (body _ free _ (idle.other_stratum name)).toIdle rest

/-- The state in front of the first line. -/
def start (kotlin : Bool) : Scan := { scanned false false [] [] with kotlinStratum := kotlin }

theorem start_idle (kotlin : Bool) : Idle [] [] (start kotlin) := ⟨rfl, rfl, rfl, fun _ => rfl⟩

theorem scanned_idle (inFiles inLines : Bool) (files : Files) (mappings : List Entry) :
    Idle files mappings (scanned inFiles inLines files mappings) := ⟨rfl, rfl, rfl, fun _ => rfl⟩

/-- Without a stratum no line opens a section. -/
theorem start_step (fallback : Text) (kotlin : Bool) (line : Text) :
    (∃ other, (start kotlin).step fallback line = start other) ∨
      kotlin = true ∧ ∃ inFiles inLines,
        (start kotlin).step fallback line = scanned inFiles inLines [] [] := by
  by_cases stratum : (ascii "*S ").isPrefixOf line = true
  · refine Or.inl ⟨decide (line = ascii "*S Kotlin"), ?_⟩
    unfold Scan.step start scanned
    dsimp only
    rw [if_neg Bool.false_ne_true, if_pos stratum, List.isEmpty_nil, Bool.not_true, Bool.and_false,
      if_neg Bool.false_ne_true]
  · rw [Bool.not_eq_true] at stratum
    cases kotlin with
    | false =>
      refine Or.inl ⟨false, ?_⟩
      unfold Scan.step start scanned
      dsimp only
      rw [if_neg Bool.false_ne_true, stratum, if_neg Bool.false_ne_true, Bool.not_false, if_pos rfl]
    | true =>
      refine Or.inr ⟨rfl, ?_⟩
      by_cases inFiles : line = ascii "*F"
      · rw [inFiles]
        exact ⟨true, false, rfl⟩
      · by_cases inLines : line = ascii "*L"
        · rw [inLines]
          exact ⟨false, true, rfl⟩
        · exact ⟨false, false, step_outside stratum inFiles inLines⟩

/-- The three lines in front of the strata. -/
theorem fold_header (fallback generated name : Text) :
    Idle [] [] ([ascii "SMAP", generated, name].foldl (Scan.step fallback)
      (start (decide (some name = some (ascii "Kotlin"))))) := by
  have first : ∀ kotlin, (start kotlin).step fallback (ascii "SMAP") = start kotlin := by
    intro kotlin
    cases kotlin <;> rfl
  have idle : ∀ kotlin line, Idle [] [] ((start kotlin).step fallback line) := by
    intro kotlin line
    rcases start_step fallback kotlin line with ⟨other, same⟩ | ⟨-, inFiles, inLines, same⟩
    · rw [same]
      exact start_idle other
    · rw [same]
      exact scanned_idle inFiles inLines [] []
  rw [List.foldl_cons, first, List.foldl_cons, List.foldl_cons, List.foldl_nil]
  rcases start_step fallback (decide (some name = some (ascii "Kotlin"))) generated with
    ⟨other, same⟩ | ⟨kotlin, inFiles, inLines, same⟩
  · rw [same]
    exact idle other name
  · rw [same, Option.some.inj (of_decide_eq_true kotlin)]
    -- The default stratum is neither a file nor a line info.
    have kept : (scanned inFiles inLines [] []).step fallback (ascii "Kotlin") =
        scanned inFiles inLines [] [] := by
      cases inFiles <;> cases inLines <;> rfl
    rw [kept]
    exact scanned_idle inFiles inLines [] []

/-- The line that names the Kotlin stratum. -/
theorem Idle.kotlin_stratum {fallback : Text} {s : Scan} (idle : Idle [] [] s) :
    s.step fallback (ascii "*S " ++ ascii "Kotlin") = scanned false false [] [] := by
  obtain ⟨kotlin, inFiles, inLines, pending, stopped, files, mappings⟩ := s
  obtain ⟨rfl, rfl, rfl, running⟩ := idle
  obtain rfl : stopped = false := running rfl
  unfold Scan.step
  dsimp only
  rw [if_neg Bool.false_ne_true, if_pos (by decide), List.isEmpty_nil, Bool.not_true, Bool.and_false,
    if_neg Bool.false_ne_true, decide_eq_true (by decide)]
  rfl

/-- The files that the line infos are read with. -/
def known (map : SourceMap) : List FileInfo := if map.linesFirst then [] else map.files

/-- The sections of the Kotlin stratum. -/
theorem fold_sections {fallback : Text} {map : SourceMap} (formed : map.WellFormed "Kotlin")
    (trimmed : ∀ line ∈ map.fileSection, Lib.JavaText.trim line = line) :
    ∃ inFiles inLines, map.sections.foldl (Scan.step fallback) (scanned false false [] []) =
      scanned inFiles inLines (filed map.files)
        (map.lines.filterMap (entryOf fallback (known map))) := by
  have inFileSection : ∀ inFiles inLines mappings,
      map.fileSection.foldl (Scan.step fallback) (scanned inFiles inLines [] mappings) =
        scanned true false (filed map.files) mappings := by
    intro inFiles inLines mappings
    have opened : (scanned inFiles inLines [] mappings).step fallback (ascii "*F") =
        scanned true false [] mappings := rfl
    rw [SourceMap.fileSection, List.foldl_cons]
    change List.foldl _ ((scanned inFiles inLines [] mappings).step fallback (ascii "*F")) _ = _
    rw [opened]
    exact fold_files formed.ids formed.small formed.names fun line inside =>
      trimmed line (List.mem_cons_of_mem _ inside)
  have inLineSection : ∀ inFiles inLines files,
      map.lineSection.foldl (Scan.step fallback) (scanned inFiles inLines (filed files) []) =
        scanned false true (filed files) (map.lines.filterMap (entryOf fallback files)) := by
    intro inFiles inLines files
    have opened : (scanned inFiles inLines (filed files) []).step fallback (ascii "*L") =
        scanned false true (filed files) [] := rfl
    rw [SourceMap.lineSection, List.foldl_cons]
    change List.foldl _ ((scanned inFiles inLines (filed files) []).step fallback (ascii "*L")) _ = _
    rw [opened]
    exact fold_lines map.lines
  obtain ⟨opening, between, closing⟩ := formed.passive
  obtain ⟨a, b, opened⟩ := @fold_passive fallback _ opening false false [] []
  unfold SourceMap.sections known
  rw [List.foldl_append, List.foldl_append, opened]
  cases map.linesFirst with
  | true =>
    obtain ⟨c, d, passed⟩ := @fold_passive fallback _ between false true []
      (map.lines.filterMap (entryOf fallback []))
    rw [if_pos rfl, if_pos rfl, List.foldl_append, List.foldl_append]
    have lines := inLineSection a b []
    change map.lineSection.foldl _ (scanned a b [] []) = scanned false true [] _ at lines
    rw [lines, passed, inFileSection]
    exact fold_passive closing true false _ _
  | false =>
    obtain ⟨c, d, passed⟩ := @fold_passive fallback _ between true false (filed map.files) []
    rw [if_neg Bool.false_ne_true, if_neg Bool.false_ne_true, List.foldl_append, List.foldl_append,
      inFileSection, passed, inLineSection]
    exact fold_passive closing false true _ _

/-- The end of the source map. -/
theorem Idle.end {fallback : Text} {files : Files} {mappings : List Entry} {s : Scan}
    (idle : Idle files mappings s) : Idle files mappings (s.step fallback (ascii "*E")) := by
  unfold Scan.step
  by_cases stopped : s.stopped = true
  · rw [if_pos stopped]
    exact idle
  · rw [if_neg stopped, idle.ready]
    dsimp only
    rw [if_neg (by decide)]
    by_cases outside : (!s.kotlinStratum) = true
    · rw [if_pos outside]
      exact idle
    · rw [if_neg outside, if_neg (by decide), if_neg (by decide), if_pos (by decide)]
      exact ⟨rfl, idle.sameFiles, idle.sameMappings, idle.running⟩

theorem Idle.finish {files : Files} {mappings : List Entry} {s : Scan} (idle : Idle files mappings s) :
    s.finish.files = files ∧ s.finish.mappings = mappings := by
  unfold Scan.finish
  rw [idle.ready]
  exact ⟨idle.sameFiles, idle.sameMappings⟩

/-- What is read of a well-formed source map. -/
theorem parse_text {map : SourceMap} (formed : map.WellFormed "Kotlin") {text : Text}
    (opens : (ascii "SMAP").isPrefixOf text = true)
    (lines : (splitLines text).map Lib.JavaText.trim = map.text "Kotlin") (source : Option Text) :
    parse (some text) source =
      ⟨primary (source.getD (ascii "Unknown.java")) map.files,
        map.lines.filterMap (entryOf (source.getD (ascii "Unknown.java")) (known map))⟩ := by
  have trimmed : ∀ line ∈ map.text "Kotlin", Lib.JavaText.trim line = line := by
    intro line inside
    rw [← lines] at inside
    obtain ⟨whole, -, rfl⟩ := List.mem_map.mp inside
    exact trim_trim whole
  have section_ : ∀ line ∈ map.fileSection, line ∈ map.text "Kotlin" := by
    intro line inside
    unfold SourceMap.text SourceMap.sections
    cases map.linesFirst <;> simp [inside]
  have third : (map.text "Kotlin")[2]? = some map.defaultStratum := rfl
  obtain ⟨fallback, given⟩ : ∃ fallback, source.getD (ascii "Unknown.java") = fallback := ⟨_, rfl⟩
  obtain ⟨inFiles, inLines, sections⟩ := @fold_sections fallback map formed fun line inside =>
    trimmed line (section_ line inside)
  have scan : Idle (filed map.files) (map.lines.filterMap (entryOf fallback (known map)))
      ((map.text "Kotlin").foldl (Scan.step fallback)
        (start (decide (some map.defaultStratum = some (ascii "Kotlin"))))) := by
    have header : Idle [] [] ([Lib.Utf16.encode "SMAP", map.generated, map.defaultStratum].foldl
        (Scan.step fallback) (start (decide (some map.defaultStratum = some (ascii "Kotlin"))))) :=
      fold_header fallback map.generated map.defaultStratum
    have before := @fold_strata fallback _ _ _ header map.before fun other inside =>
      formed.others other (List.mem_append_left _ inside)
    unfold SourceMap.text
    rw [List.foldl_append, List.foldl_append, List.foldl_append, List.foldl_append]
    refine (fold_strata ?_ fun other inside =>
      formed.others other (List.mem_append_right _ inside)).end
    rw [List.foldl_cons]
    change Idle _ _ (List.foldl _ (Scan.step _ _ (ascii "*S " ++ ascii "Kotlin")) map.sections)
    rw [before.kotlin_stratum, sections]
    exact scanned_idle inFiles inLines _ _
  obtain ⟨files, mappings⟩ := scan.finish
  have whole : parse (some text) source =
      ⟨getFile 1 (firstFile fallback (((map.text "Kotlin").foldl (Scan.step fallback)
          (start (decide (some map.defaultStratum = some (ascii "Kotlin"))))).finish.files))
        ((map.text "Kotlin").foldl (Scan.step fallback)
          (start (decide (some map.defaultStratum = some (ascii "Kotlin"))))).finish.files,
        ((map.text "Kotlin").foldl (Scan.step fallback)
          (start (decide (some map.defaultStratum = some (ascii "Kotlin"))))).finish.mappings⟩ := by
    unfold parse
    dsimp only
    rw [if_pos opens, lines, third, given]
    rfl
  rw [whole, files, mappings, firstFile_filed, given]

/-- The output line of the last repetition, as the code computes it, is not behind the line. -/
def Reached (info : LineInfo) (line : Int) : Prop :=
  Fits info ∧
    line ≤ wrap (info.outputStart + ((info.repeatCount.getD 1 : Nat) - 1) * (info.increment.getD 1 : Nat))

instance (info : LineInfo) (line : Int) : Decidable (Reached info line) :=
  inferInstanceAs (Decidable (_ ∧ _))

/-- The line gets the file and the input line of the format. -/
def Follows (fallback : Text) (map : SourceMap) (line : Int) : Prop :=
  match (resolve 0 map.lines).find? fun entry => decide (entry.2.Covers line) with
  | none => True
  | some (info, range) =>
    if Reached info line then
      pathOf fallback (known map) (info.fileId.getD 1) = pathOf fallback map.files range.file ∧
        range.inputLine line < 2 ^ 31
    else primary fallback map.files = pathOf fallback map.files range.file ∧ range.inputLine line = line

instance (fallback : Text) (map : SourceMap) (line : Int) : Decidable (Follows fallback map line) := by
  unfold Follows
  split <;> infer_instance

theorem resolve_infos (current : Nat) (lines : List LineInfo) :
    (resolve current lines).map Prod.fst = lines := by
  induction lines generalizing current with
  | nil => rfl
  | cons info rest ih => rw [resolve, List.map_cons, ih]

theorem resolve_range {current : Nat} {lines : List LineInfo} {info : LineInfo} {range : Range}
    (member : (info, range) ∈ resolve current lines) : ∃ before, range = info.range before := by
  induction lines generalizing current with
  | nil => cases member
  | cons first rest ih =>
    rcases List.mem_cons.mp member with own | other
    · cases own
      exact ⟨current, rfl⟩
    · exact ih other

theorem wrap_le {n : Int} (nonneg : 0 ≤ n) : wrap n ≤ n := by
  by_cases fits : n < 2 ^ 31
  · exact (wrap_of_isInt ⟨by omega, fits⟩).le
  · have high := (wrap_isInt n).2
    omega

theorem entryOf_covers {fallback : Text} {files : List FileInfo} {info : LineInfo} {line : Int} :
    (entryOf fallback files info).any (·.covers line) = true ↔
      info.outputStart ≤ line ∧ Reached info line := by
  unfold entryOf
  by_cases fits : Fits info
  · have count := fits.count
    have repeats : IsInt ((info.repeatCount.getD 1 : Nat) - 1) := ⟨by omega, by omega⟩
    rw [if_pos fits]
    unfold Reached Entry.covers Entry.last
    dsimp only [Option.any_some]
    rw [wrap_of_isInt repeats, Bool.and_eq_true, decide_eq_true_eq, decide_eq_true_eq]
    unfold wrap
    rw [Int.add_bmod_bmod]
    constructor
    · rintro ⟨low, high⟩
      exact ⟨low, fits, high⟩
    · rintro ⟨low, -, high⟩
      exact ⟨low, high⟩
  · rw [if_neg fits]
    exact iff_of_false Bool.false_ne_true fun reached => fits reached.2.1

/-- What is covered by an entry is covered by the range of its line info. -/
theorem Reached.covers {info : LineInfo} {line : Int} (reached : Reached info line)
    (low : info.outputStart ≤ line) (counts : info.repeatCount ≠ some 0 ∧ info.increment ≠ some 0)
    (current : Nat) : (info.range current).Covers line := by
  have positive : ∀ n : Option Nat, n ≠ some 0 → 0 < n.getD 1 := by
    intro n nonzero
    cases n with
    | none => exact Nat.one_pos
    | some n => exact Nat.pos_of_ne_zero fun zero => nonzero (congrArg some zero)
  have repeats := positive _ counts.1
  have increments := positive _ counts.2
  have product : 0 ≤ ((info.repeatCount.getD 1 : Nat) - 1 : Int) * (info.increment.getD 1 : Nat) :=
    Int.mul_nonneg (by omega) (by omega)
  have last := (reached.2).trans (wrap_le (by omega))
  refine ⟨low, ?_⟩
  rw [Int.sub_mul, Int.one_mul] at last
  change line < info.outputStart + (info.repeatCount.getD 1 : Nat) * (info.increment.getD 1 : Nat)
  omega

/-- The line of an entry, when it covers the output line. -/
theorem entry_line {info : LineInfo} {line : Int} (int : IsInt line)
    (low : info.outputStart ≤ line) (current : Nat) :
    wrap (info.inputStart + wrap ((wrap (line - info.outputStart)).tdiv (info.increment.getD 1 : Nat))) =
      wrap ((info.range current).inputLine line) := by
  have high := int.2
  have difference : wrap (line - info.outputStart) = line - info.outputStart :=
    wrap_of_isInt ⟨by omega, by omega⟩
  rw [difference, Int.tdiv_eq_ediv_of_nonneg (by omega)]
  unfold wrap
  rw [Int.add_bmod_bmod]
  rfl

/-- A number of a line info that is not left out as zero is positive. -/
theorem increment_pos {info : LineInfo} (counts : info.repeatCount ≠ some 0 ∧ info.increment ≠ some 0) :
    0 < info.increment.getD 1 := by
  cases shape : info.increment with
  | none => exact Nat.one_pos
  | some n => exact Nat.pos_of_ne_zero fun zero => counts.2 (shape.trans (congrArg some zero))

/-- The entry that a position is taken from. -/
theorem find_entry {map : SourceMap} (formed : map.WellFormed "Kotlin") (fallback : Text) (line : Int) :
    (map.lines.filterMap (entryOf fallback (known map))).find? (·.covers line) =
      match (resolve 0 map.lines).find? fun entry => decide (entry.2.Covers line) with
      | none => none
      | some (info, _) => if Reached info line then entryOf fallback (known map) info else none := by
  have uncovered : ∀ entry ∈ resolve 0 map.lines, ¬entry.2.Covers line →
      ((entryOf fallback (known map) entry.1).any (·.covers line)) = false := by
    rintro ⟨info, range⟩ member free
    obtain ⟨before, rfl⟩ := resolve_range member
    rw [Bool.eq_false_iff]
    intro covered
    obtain ⟨low, reached⟩ := entryOf_covers.mp covered
    have inside : info ∈ map.lines := by
      rw [← resolve_infos 0 map.lines]
      exact List.mem_map_of_mem member
    exact free (reached.covers low (formed.counts info inside) before)
  have entries : map.lines.filterMap (entryOf fallback (known map)) =
      (resolve 0 map.lines).filterMap fun entry => entryOf fallback (known map) entry.1 := by
    conv_lhs => rw [← resolve_infos 0 map.lines]
    exact List.filterMap_map
  rw [entries, List.find?_filterMap]
  cases found : (resolve 0 map.lines).find? fun entry => decide (entry.2.Covers line) with
  | none =>
    have missing : (resolve 0 map.lines).find? (fun entry =>
        (entryOf fallback (known map) entry.1).any (·.covers line)) = none := by
      rw [List.find?_eq_none] at found ⊢
      intro entry member covered
      rw [uncovered entry member (by simpa using found entry member)] at covered
      cases covered
    rw [missing]
    rfl
  | some entry =>
    obtain ⟨info, range⟩ := entry
    obtain ⟨covers, before, after, whole, free⟩ := List.find?_eq_some_iff_append.mp found
    have covers := of_decide_eq_true covers
    have own : (info, range) ∈ resolve 0 map.lines :=
      whole ▸ List.mem_append_right _ List.mem_cons_self
    obtain ⟨current, ranged⟩ := resolve_range own
    have low : info.outputStart ≤ line := by
      rw [ranged] at covers
      exact covers.1
    have apart : ∀ entry ∈ before, (entryOf fallback (known map) entry.1).any (·.covers line) = false :=
      fun entry inside => uncovered entry (whole ▸ List.mem_append_left _ inside)
        (by simpa using free entry inside)
    by_cases reached : Reached info line
    · have first : (resolve 0 map.lines).find? (fun entry =>
          (entryOf fallback (known map) entry.1).any (·.covers line)) = some (info, range) := by
        refine List.find?_eq_some_iff_append.mpr
          ⟨entryOf_covers.mpr ⟨low, reached⟩, before, after, whole, fun entry inside => ?_⟩
        rw [apart entry inside]
        rfl
      rw [first]
      dsimp only
      rw [if_pos reached]
      rfl
    · have missing : (resolve 0 map.lines).find? (fun entry =>
          (entryOf fallback (known map) entry.1).any (·.covers line)) = none := by
        rw [List.find?_eq_none, whole]
        intro entry member covered
        have disjoint := formed.disjoint
        rw [Lib.Smap.Disjoint, whole, List.map_append, List.map_cons] at disjoint
        have others := (List.pairwise_cons.mp (List.pairwise_append.mp disjoint).2.1).1
        rcases List.mem_append.mp member with early | rest
        · rw [apart entry early] at covered
          cases covered
        · rcases List.mem_cons.mp rest with same | late
          · rw [same] at covered
            exact reached (entryOf_covers.mp covered).2
          · have free := others entry.2 (List.mem_map_of_mem late) line
            rw [uncovered entry (whole ▸ List.mem_append_right _ rest) fun other =>
              free ⟨covers, other⟩] at covered
            cases covered
      rw [missing]
      dsimp only
      rw [if_neg reached]
      rfl

/-- A position is the one of the format exactly when the line follows it. -/
theorem position_eq_iff {map : SourceMap} (formed : map.WellFormed "Kotlin") {text : Text}
    (opens : (ascii "SMAP").isPrefixOf text = true)
    (lines : (splitLines text).map Lib.JavaText.trim = map.text "Kotlin") (source : Option Text) {line : Int}
    (int : IsInt line) :
    ((parse (some text) source).position line).map (fun position => (position.path, position.line)) =
        some (mapped (source.getD (ascii "Unknown.java")) map.files map.lines line) ↔
      Follows (source.getD (ascii "Unknown.java")) map line := by
  rw [parse_text formed opens lines]
  unfold KotlinSourceMap.position Follows mapped
  dsimp only
  rw [find_entry formed]
  cases found : (resolve 0 map.lines).find? fun entry => decide (entry.2.Covers line) with
  | none => exact ⟨fun _ => trivial, fun _ => rfl⟩
  | some entry =>
    obtain ⟨info, range⟩ := entry
    have member := List.mem_of_find?_eq_some found
    have covers : range.Covers line := by simpa using List.find?_some found
    obtain ⟨current, rfl⟩ := resolve_range member
    have inside : info ∈ map.lines := by
      rw [← resolve_infos 0 map.lines]
      exact List.mem_map_of_mem member
    dsimp only
    by_cases reached : Reached info line
    · have increment := increment_pos (formed.counts info inside)
      have nonzero : ((info.increment.getD 1 : Nat) : Int) ≠ 0 := by omega
      rw [if_pos reached, if_pos reached, entryOf, if_pos reached.1]
      dsimp only
      rw [if_neg nonzero, entry_line int covers.1 current, Option.map_some, Option.some_inj,
        Prod.ext_iff]
      dsimp only
      refine and_congr_right fun _ => ?_
      have low : 0 ≤ (info.range current).inputLine line := by
        have quotient : 0 ≤ (line - (info.range current).outputStart) / (info.range current).increment :=
          Int.ediv_nonneg (by have := covers.1; omega) (by omega)
        unfold Range.inputLine
        omega
      constructor
      · intro same
        rw [← same]
        exact (wrap_isInt _).2
      · exact fun high => wrap_of_isInt ⟨by omega, high⟩
    · rw [if_neg reached, if_neg reached]
      dsimp only
      rw [Option.map_some, Option.some_inj, Prod.ext_iff]
      exact and_congr_right fun _ => eq_comm

/-- A file, and another one that is inlined into it; the last line info leaves out the id of
the one before. -/
def inlined : SourceMap where
  generated := ascii "Caller.kt"
  defaultStratum := ascii "Kotlin"
  before := []
  opening := []
  files := [⟨1, ascii "Caller.kt", none⟩, ⟨2, ascii "Inline.kt", some (ascii "pkg/Inline.kt")⟩]
  between := []
  lines := [⟨20, some 2, some 2, 20, none⟩, ⟨5, some 1, none, 10, some 3⟩, ⟨9, none, none, 30, none⟩]
  closing := []
  linesFirst := false
  after := []

def inlinedText : Text :=
  ascii ("SMAP\nCaller.kt\nKotlin\n*S Kotlin\n*F\n1 Caller.kt\n+ 2 Inline.kt\npkg/Inline.kt\n" ++
    "*L\n20#2,2:20\n5#1:10,3\n9:30\n*E\n")

theorem inlined_formed : inlined.WellFormed "Kotlin" where
  others := nofun
  passive := ⟨⟨Or.inl rfl, nofun⟩, ⟨Or.inl rfl, nofun⟩, ⟨Or.inl rfl, nofun⟩⟩
  ids := by decide
  small := by decide
  names := by
    intro file member
    simp only [inlined, List.mem_cons, List.not_mem_nil, or_false] at member
    rcases member with rfl | rfl
    · exact ⟨67, _, rfl, by decide⟩
    · exact ⟨73, _, rfl, by decide⟩
  counts := by decide
  declared := by decide
  disjoint := by
    have ranges : (resolve 0 inlined.lines).map Prod.snd =
        [⟨20, 2, 2, 20, 1⟩, ⟨5, 1, 1, 10, 3⟩, ⟨9, 1, 1, 30, 1⟩] := by decide
    rw [Lib.Smap.Disjoint, ranges]
    refine List.pairwise_cons.mpr ⟨?_, List.pairwise_pair.mpr ?_⟩
    · intro range member line
      simp only [List.mem_cons, List.not_mem_nil, or_false] at member
      rcases member with rfl | rfl <;>
        simp only [Range.Covers] <;> omega
    · intro line
      simp only [Range.Covers]
      omega

theorem inlined_lines : (splitLines inlinedText).map Lib.JavaText.trim = inlined.text "Kotlin" := by
  decide +kernel

/-- The second line of a repeated range, the first of an increment and a line under an id
that is left out have the positions of the format. -/
theorem inlined_positions :
    ((parse (some inlinedText) none).position 21).map (fun position => (position.path, position.line)) =
        some (ascii "pkg/Inline.kt", 21) ∧
      ((parse (some inlinedText) none).position 10).map
          (fun position => (position.path, position.line)) = some (ascii "Caller.kt", 5) ∧
      ((parse (some inlinedText) none).position 30).map
          (fun position => (position.path, position.line)) = some (ascii "Caller.kt", 9) := by
  have opens : (ascii "SMAP").isPrefixOf inlinedText = true := by decide +kernel
  refine ⟨?_, ?_, ?_⟩
  · exact (position_eq_iff inlined_formed opens inlined_lines none (by decide)).mpr (by decide +kernel)
  · exact (position_eq_iff inlined_formed opens inlined_lines none (by decide)).mpr (by decide +kernel)
  · exact (position_eq_iff inlined_formed opens inlined_lines none (by decide)).mpr (by decide +kernel)

/-- One line info whose input line spans three output lines. -/
def tripled : SourceMap where
  generated := ascii "Caller.kt"
  defaultStratum := ascii "Kotlin"
  before := []
  opening := []
  files := [⟨1, ascii "Caller.kt", none⟩]
  between := []
  lines := [⟨5, some 1, none, 10, some 3⟩]
  closing := []
  linesFirst := false
  after := []

def tripledText : Text :=
  ascii "SMAP\nCaller.kt\nKotlin\n*S Kotlin\n*F\n1 Caller.kt\n*L\n5#1:10,3\n*E\n"

theorem tripled_formed : tripled.WellFormed "Kotlin" where
  others := nofun
  passive := ⟨⟨Or.inl rfl, nofun⟩, ⟨Or.inl rfl, nofun⟩, ⟨Or.inl rfl, nofun⟩⟩
  ids := by decide
  small := by decide
  names := by
    intro file member
    rw [List.mem_singleton.mp member]
    exact ⟨67, _, rfl, by decide⟩
  counts := by decide
  declared := by decide
  disjoint := List.pairwise_singleton _ _

theorem tripled_lines : (splitLines tripledText).map Lib.JavaText.trim = tripled.text "Kotlin" := by
  decide +kernel

/-- The last of the three output lines has its own line and not the input line. -/
theorem tripled_last_differs :
    ¬ ∀ (map : SourceMap) (text : Text), map.WellFormed "Kotlin" →
      (ascii "SMAP").isPrefixOf text = true → (splitLines text).map Lib.JavaText.trim = map.text "Kotlin" →
      ∀ (source : Option Text) (line : Int), IsInt line →
        ((parse (some text) source).position line).map (fun position => (position.path, position.line)) =
          some (mapped (source.getD (ascii "Unknown.java")) map.files map.lines line) := by
  intro claim
  have same := claim tripled tripledText tripled_formed (by decide +kernel) tripled_lines none 12
    (by decide)
  revert same
  decide +kernel

end Walaru.SourceMaps
