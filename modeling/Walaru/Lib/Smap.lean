import Mathlib.Algebra.Order.Ring.Nat
import Mathlib.Data.Int.Order.Basic
import Walaru.Lib.JavaText
import Walaru.Lib.Utf16

/-!
# Source maps of other languages

The debug extension of a class file: strata, each with the files of a source language and
the output lines that input lines map to. A line info leaves out a repeat count or an output
increment of one, and a file id that is the last one before it.
-/
namespace Walaru.Lib.Smap
open JavaText

structure FileInfo where
  id : Nat
  name : List UInt16
  path : Option (List UInt16)
  deriving DecidableEq, Repr

structure LineInfo where
  inputStart : Nat
  fileId : Option Nat
  repeatCount : Option Nat
  outputStart : Nat
  increment : Option Nat
  deriving DecidableEq, Repr

/-- A line info with what it leaves out. -/
structure Range where
  inputStart : Nat
  file : Nat
  count : Nat
  outputStart : Nat
  increment : Nat
  deriving DecidableEq, Repr

def LineInfo.range (current : Nat) (info : LineInfo) : Range :=
  ⟨info.inputStart, info.fileId.getD current, info.repeatCount.getD 1, info.outputStart,
    info.increment.getD 1⟩

/-- Every line info with its range; the file id before the first is 0. -/
def resolve (current : Nat) : List LineInfo → List (LineInfo × Range)
  | [] => []
  | info :: rest => (info, info.range current) :: resolve (info.fileId.getD current) rest

/-- The input line of the range's repetition `n` maps to this output line. -/
def Range.MapsTo (r : Range) (n : Nat) (line : Int) : Prop :=
  n < r.count ∧ r.outputStart + n * r.increment ≤ line ∧
    line ≤ r.outputStart + (n + 1) * r.increment - 1

/-- The output lines of all repetitions. -/
def Range.Covers (r : Range) (line : Int) : Prop :=
  r.outputStart ≤ line ∧ line < r.outputStart + r.count * r.increment

instance (r : Range) (line : Int) : Decidable (r.Covers line) := inferInstanceAs (Decidable (_ ∧ _))

/-- The input line of a covered output line. -/
def Range.inputLine (r : Range) (line : Int) : Int :=
  r.inputStart + (line - r.outputStart) / r.increment

/-- A covered line belongs to one repetition, whose input line is the range's. -/
theorem Range.covers_iff (r : Range) (line : Int) :
    r.Covers line ↔ ∃ n, r.MapsTo n line ∧ r.inputLine line = r.inputStart + n := by
  constructor
  · rintro ⟨low, high⟩
    have positive : 0 < (r.increment : Int) := by
      rcases Nat.eq_zero_or_pos r.increment with zero | positive
      · rw [zero] at high
        omega
      · omega
    have below := Int.mul_ediv_self_le (x := line - r.outputStart) (k := r.increment) (by omega)
    have above := Int.lt_mul_ediv_self_add (x := line - r.outputStart) positive
    have quotient : 0 ≤ (line - r.outputStart) / r.increment :=
      Int.ediv_nonneg (by omega) (by omega)
    obtain ⟨n, same⟩ := Int.eq_ofNat_of_zero_le quotient
    rw [same] at below above
    refine ⟨n, ⟨?_, ?_, ?_⟩, by rw [Range.inputLine, same]⟩
    · by_contra beyond
      have many : (r.count : Int) ≤ n := by omega
      have product := Int.mul_le_mul_of_nonneg_right many (by omega : (0 : Int) ≤ r.increment)
      rw [Int.mul_comm (n : Int)] at product
      omega
    · rw [Int.mul_comm]
      omega
    · rw [Int.add_mul, Int.one_mul, Int.mul_comm (n : Int)]
      omega
  · rintro ⟨n, ⟨few, low, high⟩, -⟩
    have first : (0 : Int) ≤ n * r.increment := Int.mul_nonneg (by omega) (by omega)
    have product := Int.mul_le_mul_of_nonneg_right (by omega : (n : Int) + 1 ≤ r.count)
      (by omega : (0 : Int) ≤ r.increment)
    exact ⟨by omega, by omega⟩

def pathOf (fallback : List UInt16) (files : List FileInfo) (id : Nat) : List UInt16 :=
  ((files.find? fun file => file.id = id).map fun file => file.path.getD file.name).getD fallback

/-- The file with id 1, or the first one. -/
def primary (fallback : List UInt16) (files : List FileInfo) : List UInt16 :=
  pathOf ((files.head?.map fun file => file.path.getD file.name).getD fallback) files 1

/-- The file and the input line of an output line; a line that no range covers stays as it is. -/
def mapped (fallback : List UInt16) (files : List FileInfo) (lines : List LineInfo) (line : Int) :
    List UInt16 × Int :=
  match (resolve 0 lines).find? fun entry => decide (entry.2.Covers line) with
  | none => (primary fallback files, line)
  | some entry => (pathOf fallback files entry.2.file, entry.2.inputLine line)

def FileInfo.text (file : FileInfo) : List (List UInt16) :=
  match file.path with
  | none => [decimal file.id ++ Utf16.encode " " ++ file.name]
  | some path => [Utf16.encode "+ " ++ decimal file.id ++ Utf16.encode " " ++ file.name, path]

def optionalNumber (mark : String) : Option Nat → List UInt16
  | none => []
  | some n => Utf16.encode mark ++ decimal n

def LineInfo.text (info : LineInfo) : List UInt16 :=
  decimal info.inputStart ++ optionalNumber "#" info.fileId ++ optionalNumber "," info.repeatCount ++
    Utf16.encode ":" ++ decimal info.outputStart ++ optionalNumber "," info.increment

/-- A stratum of another language. -/
structure Stratum where
  id : List UInt16
  body : List (List UInt16)

def Stratum.text (stratum : Stratum) : List (List UInt16) :=
  (Utf16.encode "*S " ++ stratum.id) :: stratum.body

/-- Lines of sections that say nothing about files and lines, such as a vendor's. -/
structure Passive (lines : List (List UInt16)) : Prop where
  opens : lines = [] ∨ ∃ line rest, lines = line :: rest ∧ (Utf16.encode "*").isPrefixOf line = true
  others : ∀ line ∈ lines, (Utf16.encode "*S ").isPrefixOf line = false ∧
    line ≠ Utf16.encode "*F" ∧ line ≠ Utf16.encode "*L"

/-- A source map with one stratum of interest; its line section may stand in front of its
file section, and other sections anywhere around them. -/
structure SourceMap where
  generated : List UInt16
  defaultStratum : List UInt16
  before : List Stratum
  opening : List (List UInt16)
  files : List FileInfo
  between : List (List UInt16)
  lines : List LineInfo
  closing : List (List UInt16)
  linesFirst : Bool
  after : List Stratum

def SourceMap.fileSection (map : SourceMap) : List (List UInt16) :=
  Utf16.encode "*F" :: map.files.flatMap FileInfo.text

def SourceMap.lineSection (map : SourceMap) : List (List UInt16) :=
  Utf16.encode "*L" :: map.lines.map LineInfo.text

/-- The sections of the stratum. -/
def SourceMap.sections (map : SourceMap) : List (List UInt16) :=
  map.opening ++
    (if map.linesFirst then map.lineSection ++ (map.between ++ map.fileSection)
      else map.fileSection ++ (map.between ++ map.lineSection)) ++ map.closing

/-- The lines of the text, for a stratum of this name. -/
def SourceMap.text (stratum : String) (map : SourceMap) : List (List UInt16) :=
  [Utf16.encode "SMAP", map.generated, map.defaultStratum] ++ map.before.flatMap Stratum.text ++
    (Utf16.encode "*S " ++ Utf16.encode stratum) :: map.sections ++
    map.after.flatMap Stratum.text ++ [Utf16.encode "*E"]

/-- No output line is covered twice. -/
def Disjoint (lines : List LineInfo) : Prop :=
  ((resolve 0 lines).map Prod.snd).Pairwise fun a b => ∀ line, ¬(a.Covers line ∧ b.Covers line)

structure SourceMap.WellFormed (stratum : String) (map : SourceMap) : Prop where
  /-- The other strata have other names, and each ends where the next begins. -/
  others : ∀ other ∈ map.before ++ map.after, other.id ≠ Utf16.encode stratum ∧
    ∀ line ∈ other.body, (Utf16.encode "*S ").isPrefixOf line = false
  passive : Passive map.opening ∧ Passive map.between ∧ Passive map.closing
  ids : (map.files.map FileInfo.id).Nodup
  small : ∀ file ∈ map.files, file.id < 2 ^ 31
  names : ∀ file ∈ map.files, ∃ u rest, file.name = u :: rest ∧ space u = false
  /-- A range has an output line. -/
  counts : ∀ info ∈ map.lines, info.repeatCount ≠ some 0 ∧ info.increment ≠ some 0
  declared : ∀ entry ∈ resolve 0 map.lines, ∃ file ∈ map.files, file.id = entry.2.file
  disjoint : Disjoint map.lines

end Walaru.Lib.Smap
