import Mathlib.Algebra.Order.Group.Nat
import Mathlib.Tactic.Common

namespace Winex.Inf

open List

/-!
# The texts of an INF file

The field texts of an INF file hold `%name%` references to its `[Strings]` section.
They are expanded twice: without a buffer, to report the size, and into the buffer.
-/

/-- A string of `WCHAR`s, without its terminator. -/
abbrev WString :=
  List UInt16

/-- `struct line`; a missing key is -1 in the source. -/
structure Line where
  firstField : Int
  nbFields : Nat
  keyField : Option Int
  deriving DecidableEq

/-- `struct inf_file`: the lines of each section, the field array with whatever lies around
it, and the index of the `[Strings]` section.  `tolowerW` and the directories of
`DIRID_get_string` come from elsewhere. -/
structure InfFile where
  sections : List (List Line)
  fields : Int → WString
  stringsSection : Option Nat
  tolowerW : UInt16 → UInt16
  directory : WString → Option WString

/-- `MAX_STRING_LEN`. -/
def maxStringLen : Nat :=
  4097

section Substitution

variable (file : InfFile)

/-- The first line of the `[Strings]` section whose key is the name, up to case. -/
def stringsLine (name : WString) : Option Line := do
  let lines ← file.sections[(← file.stringsSection)]?
  lines.find? fun line => line.keyField.any fun key =>
    (file.fields key).map file.tolowerW == name.map file.tolowerW

/-- `get_string_subst`. -/
def getStringSubst (name : WString) : Option WString :=
  if name = [] then some [0x25]
  else match stringsLine file name with
    | some line =>
      if line.nbFields = 0 then file.directory name else some (file.fields line.firstField)
    | none => file.directory name

/-- What a complete reference becomes, given from its first `%` on; it stays as it is if
nothing is found for it. -/
def replacement (reference : WString) : WString :=
  (getStringSubst file (reference.drop 1)).getD (reference ++ [0x25])

/-- The loop of `PARSER_string_substW`: the text behind `p`, whether `p` is inside a
reference, the characters from `start` up to `p`, and the characters left in the buffer.  No
caller lets `size` be 0. -/
def substLoop : WString → Bool → WString → Nat → WString
  | [], _, pending, size => pending.take (size - 1)
  | char :: rest, inside, pending, size =>
    if char ≠ 0x25 then substLoop rest inside (pending ++ [char]) size
    else if inside then
      let copied := (replacement file pending).take (size - 1)
      copied ++ substLoop rest false [] (size - copied.length)
    else
      let copied := pending.take (size - 1)
      copied ++ substLoop rest true [0x25] (size - copied.length)

/-- `PARSER_string_substW`: the characters it copies, whose number it returns.  A buffer
also gets a terminator behind them. -/
def parserStringSubstW (text : WString) (buffer : Bool) (size : Nat) : WString :=
  substLoop file text false [] (if buffer then size else maxStringLen + 1)

/-- The text with all references replaced, however long it gets. -/
def expandFrom : WString → Bool → WString → WString
  | [], _, pending => pending
  | char :: rest, inside, pending =>
    if char ≠ 0x25 then expandFrom rest inside (pending ++ [char])
    else if inside then replacement file pending ++ expandFrom rest false []
    else pending ++ expandFrom rest true [0x25]

def expand (text : WString) : WString :=
  expandFrom file text false []

theorem substLoop_eq (text : WString) (inside : Bool) (pending : WString) (size : Nat) :
    substLoop file text inside pending size =
      (expandFrom file text inside pending).take (size - 1) := by
  -- copying a part leaves the room that `take` has for the characters behind it
  have behind (size : Nat) (part after : WString) :
      part.take (size - 1) ++ after.take (size - (part.take (size - 1)).length - 1) =
        (part ++ after).take (size - 1) := by
    rw [take_append, length_take]
    congr 2
    omega
  induction text generalizing inside pending size with
  | nil => rfl
  | cons _ _ ih =>
    unfold substLoop expandFrom
    split
    · exact ih ..
    split <;> simp only [ih, behind]

/-- Each pass copies as much of the expanded text as its limit lets it. -/
theorem length_parserStringSubstW (text : WString) (buffer : Bool) (size : Nat) :
    (parserStringSubstW file text buffer size).length =
      min ((if buffer then size else maxStringLen + 1) - 1) (expand file text).length := by
  rw [parserStringSubstW, substLoop_eq, length_take, expand]

end Substitution

/-! ## The calls -/

/-- The values of `SetLastError`. -/
inductive LastError where
  | success
  | lineNotFound
  | invalidParameter
  | insufficientBuffer
  deriving DecidableEq

/-- What a call returns, the last error, the required count if it is reported, and the
characters written from the start of the buffer on. -/
structure Answer where
  result : Bool
  lastError : Option LastError
  required : Option Nat
  written : WString

/-- An `int` made from a `DWORD`. -/
def toInt (word : Nat) : Int :=
  if word < 0x80000000 then word else word - 0x100000000

/-- The common end of the calls: report the required count, and fill a buffer that is large
enough. -/
def deliver (lastError : Option LastError) (total : Nat) (written : WString) (buffer : Bool)
    (size : Nat) : Answer :=
  if !buffer then ⟨true, lastError, some total, []⟩
  else if total > size then ⟨false, some .insufficientBuffer, some total, []⟩
  else ⟨true, lastError, some total, written⟩

section Calls

variable (file : InfFile) (sectionIndex lineIndex : Nat)

/-- `get_line`. -/
def getLine : Option Line := do
  (← file.sections[sectionIndex]?)[lineIndex]?

/-- `get_field`, whose index parameter is an `int`. -/
def getField (fieldIndex : Nat) : Option WString := do
  let line ← getLine file sectionIndex lineIndex
  if fieldIndex = 0 then
    return file.fields (← line.keyField)
  else if line.nbFields ≤ toInt (fieldIndex - 1) then
    none
  else
    return file.fields (line.firstField + toInt (fieldIndex - 1))

/-- The fields of a line. -/
def lineTexts (line : Line) : List WString :=
  (List.range line.nbFields).map fun (i : Nat) => file.fields (line.firstField + i)

/-- A sum of lengths, with a terminator for each text. -/
def counted (length : WString → Nat) (start : Nat) : List WString → Nat
  | [] => start
  | text :: texts => length text + 1 + counted length start texts

/-- The sum of the measuring passes, in a `DWORD`. -/
def measured (start : Nat) (texts : List WString) : Nat :=
  counted (fun text => (parserStringSubstW file text false 0).length) start texts % 0x100000000

/-- The writing loop of `SetupGetLineTextW`: the terminator of each field but the last is
replaced by a comma. -/
def writeLine (size : Nat) : List WString → WString
  | [] => []
  | [text] => parserStringSubstW file text true size ++ [0]
  | text :: texts => parserStringSubstW file text true size ++ 0x2c :: writeLine size texts

/-- `SetupGetLineTextW`. -/
def setupGetLineTextW (buffer : Bool) (size : Nat) : Answer :=
  match getLine file sectionIndex lineIndex with
  | none => ⟨false, some .lineNotFound, none, []⟩
  | some line =>
    deliver none (measured file 0 (lineTexts file line))
      (writeLine file size (lineTexts file line)) buffer size

/-- `SetupGetStringFieldW`. -/
def setupGetStringFieldW (index : Nat) (buffer : Bool) (size : Nat) : Answer :=
  match getField file sectionIndex lineIndex index with
  | none => ⟨false, some .success, none, []⟩
  | some text =>
    deliver (some .success) ((parserStringSubstW file text false 0).length + 1)
      (parserStringSubstW file text true size ++ [0]) buffer size

/-- The fields a loop of `SetupGetMultiSzFieldW` passes, up to the first that expands to
nothing. -/
def untilEmpty (buffer : Bool) (size : Nat) (texts : List WString) : List WString :=
  texts.takeWhile fun text => parserStringSubstW file text buffer size ≠ []

/-- `SetupGetMultiSzFieldW`. -/
def setupGetMultiSzFieldW (index : Nat) (buffer : Bool) (size : Nat) : Answer :=
  match getLine file sectionIndex lineIndex with
  | none => ⟨false, some .lineNotFound, none, []⟩
  | some line =>
    if index = 0 ∨ index > line.nbFields then ⟨false, some .invalidParameter, none, []⟩
    else
      let texts := (lineTexts file line).drop (index - 1)
      deliver none (measured file 1 (untilEmpty file false 0 texts))
        ((untilEmpty file true size texts).flatMap
          (fun text => parserStringSubstW file text true size ++ [0]) ++ [0]) buffer size

end Calls

/-! ## When the two passes agree -/

/-- At most `size` characters are written, and with room for the required count the call
succeeds and fills just that many. -/
def Answer.Fits (answer : Answer) (buffer : Bool) (size : Nat) : Prop :=
  answer.written.length ≤ size ∧ ∀ required, answer.required = some required →
    required ≤ size → answer.result = true ∧ (buffer → answer.written.length = required)

/-- A call keeps to every buffer and fills what it requires. -/
def Keeps (call : Bool → Nat → Answer) : Prop :=
  ∀ size < 0x100000000, ∀ buffer, (call buffer size).Fits buffer size

/-- The texts, with their terminators and a start count, have a size that can be
measured. -/
def Measurable (file : InfFile) (start : Nat) (texts : List WString) : Prop :=
  (∀ text ∈ texts, (expand file text).length ≤ maxStringLen) ∧
    counted (fun text => (expand file text).length) start texts < 0x100000000

/-- The fields of a list of strings. -/
def nonempty (file : InfFile) (texts : List WString) : List WString :=
  texts.takeWhile fun text => expand file text ≠ []

theorem deliver_fits_iff (lastError : Option LastError) (total : Nat) (written : Nat → WString) :
    Keeps (fun buffer size => deliver lastError total (written size) buffer size) ↔
      ∀ size < 0x100000000, total ≤ size → (written size).length = total := by
  refine forall₂_congr fun size _ => ⟨fun fits enough => ?_, fun same buffer => ?_⟩
  · have answer := fits true
    simp only [deliver, Bool.not_true, Bool.false_eq_true, if_false, if_neg enough.not_gt] at answer
    exact (answer.2 _ rfl enough).2 rfl
  · simp only [deliver]
    split
    · exact ⟨Nat.zero_le _, fun _ _ _ => ⟨rfl, fun isBuffer => by simp_all⟩⟩
    split
    · refine ⟨Nat.zero_le _, fun required isTotal enough => ?_⟩
      cases isTotal
      omega
    have filled := same (by omega)
    refine ⟨filled.trans_le (by omega), fun required isTotal _ => ⟨rfl, fun _ => ?_⟩⟩
    cases isTotal
    exact filled

section Passes

variable (file : InfFile) (start : Nat) {size size' : Nat}

/-- The characters of a writing pass. -/
def filled (size : Nat) (texts : List WString) : Nat :=
  counted (fun text => (parserStringSubstW file text true size).length) start texts

theorem filled_cons (size : Nat) (text : WString) (texts : List WString) :
    filled file start size (text :: texts) =
      min (size - 1) (expand file text).length + 1 + filled file start size texts := by
  rw [filled, counted, length_parserStringSubstW, if_pos rfl, filled]

theorem filled_mono (texts : List WString) (le : size ≤ size') :
    filled file start size texts ≤ filled file start size' texts := by
  induction texts with
  | nil => exact le_rfl
  | cons =>
    rw [filled_cons, filled_cons]
    omega

variable {texts : List WString}

/-- Two passes count the same only if the smaller one cuts nothing off. -/
theorem uncut (less : size - 1 < size' - 1)
    (same : filled file start size texts = filled file start size' texts) :
    ∀ text ∈ texts, (expand file text).length ≤ size - 1 := by
  induction texts with
  | nil => nofun
  | cons _ texts ih =>
    rw [filled_cons, filled_cons] at same
    have := filled_mono file start texts (show size ≤ size' by omega)
    rw [forall_mem_cons]
    exact ⟨by omega, ih (by omega)⟩

variable {file start}

theorem filled_uncut (size : Nat) (all : ∀ text ∈ texts, (expand file text).length ≤ size - 1) :
    filled file start size texts = counted (fun text => (expand file text).length) start texts := by
  induction texts with
  | nil => rfl
  | cons _ _ ih =>
    rw [forall_mem_cons] at all
    rw [filled_cons, ih all.2, counted]
    omega

variable (length : WString → Nat)

theorem length_le_counted (start : Nat) {text : WString}
    (isText : text ∈ texts) : length text + 1 ≤ counted length start texts := by
  induction texts with
  | nil => cases isText
  | cons _ _ ih =>
    rw [counted]
    obtain rfl | later := mem_cons.mp isText
    · omega
    · have := ih later
      omega

theorem le_counted (start : Nat) (texts : List WString) :
    start ≤ counted length start texts := by
  induction texts with
  | nil => exact le_rfl
  | cons _ _ ih => exact ih.trans (Nat.le_add_left ..)

/-- If the writing pass into the largest buffer fills what the measuring pass has counted,
then the texts can be measured. -/
theorem measurable_of_largest
    (same : filled file start 0xffffffff texts = measured file start texts) :
    Measurable file start texts := by
  have counted : measured file start texts =
      filled file start (maxStringLen + 1) texts % 0x100000000 := rfl
  have more := filled_mono file start texts (show maxStringLen + 1 ≤ 0xffffffff by decide)
  have equal : filled file start (maxStringLen + 1) texts =
      filled file start 0xffffffff texts := by omega
  have short := uncut file start (by decide) equal
  refine ⟨short, ?_⟩
  rw [← filled_uncut (maxStringLen + 1) short, equal, same, counted]
  exact Nat.mod_lt _ (by decide)

theorem Measurable.measured_eq (measurable : Measurable file start texts) :
    measured file start texts = counted (fun text => (expand file text).length) start texts := by
  have counted : filled file start (maxStringLen + 1) texts = _ := filled_uncut _ measurable.1
  rw [← counted]
  exact Nat.mod_eq_of_lt (counted.trans_lt measurable.2)

theorem Measurable.filled_eq (measurable : Measurable file start texts)
    (enough : measured file start texts ≤ size) :
    filled file start size texts = measured file start texts := by
  rw [measurable.measured_eq] at enough ⊢
  refine filled_uncut size fun text isText => ?_
  have := length_le_counted (fun text => (expand file text).length) start isText
  omega

theorem length_writeLine (size : Nat) (texts : List WString) :
    (writeLine file size texts).length = filled file 0 size texts := by
  fun_induction writeLine file size texts with
  | case1 => rfl
  | case2 => simp [filled, counted]
  | case3 _ _ _ ih =>
    rw [length_append, length_cons, ih]
    simp only [filled, counted]
    omega

theorem untilEmpty_eq (buffer : Bool) (size : Nat)
    (room : 1 < (if buffer then size else maxStringLen + 1)) :
    untilEmpty file buffer size texts = nonempty file texts := by
  unfold untilEmpty nonempty
  congr 1
  funext text
  have := length_parserStringSubstW file text buffer size
  simp only [ne_eq, ← length_eq_zero_iff, this, decide_not]
  congr 2
  exact propext (by omega)

theorem untilEmpty_one (small : size ≤ 1) : untilEmpty file true size texts = [] := by
  cases texts with
  | nil => rfl
  | cons text =>
    have := length_parserStringSubstW file text true size
    rw [if_pos rfl, Nat.sub_eq_zero_of_le small, Nat.zero_min, length_eq_zero_iff] at this
    exact takeWhile_cons_of_neg (by simp [this])

theorem length_multiSz (size : Nat) (texts : List WString) :
    (texts.flatMap (fun text => parserStringSubstW file text true size ++ [0]) ++
      [(0 : UInt16)]).length = filled file 1 size texts := by
  induction texts with
  | nil => rfl
  | cons _ _ ih =>
    rw [flatMap_cons, append_assoc, length_append, ih, length_append]
    rfl

end Passes

section Main

variable (file : InfFile) (sectionIndex lineIndex : Nat)

theorem lineText_fits_iff :
    Keeps (setupGetLineTextW file sectionIndex lineIndex) ↔
      ∀ line, getLine file sectionIndex lineIndex = some line →
        Measurable file 0 (lineTexts file line) := by
  unfold setupGetLineTextW
  cases getLine file sectionIndex lineIndex with
  | none => simp [Keeps, Answer.Fits]
  | some =>
    simp only [deliver_fits_iff, Option.some.injEq, forall_eq', length_writeLine]
    refine ⟨fun same => measurable_of_largest (same _ (by decide) ?_), fun measurable size _ =>
      measurable.filled_eq⟩
    exact Nat.le_of_lt_succ (Nat.mod_lt _ (by decide))

variable (index : Nat)

theorem stringField_fits_iff :
    Keeps (setupGetStringFieldW file sectionIndex lineIndex index) ↔
      ∀ text, getField file sectionIndex lineIndex index = some text →
        (expand file text).length ≤ maxStringLen := by
  unfold setupGetStringFieldW
  cases getField file sectionIndex lineIndex index with
  | none => simp [Keeps, Answer.Fits]
  | some =>
    simp only [deliver_fits_iff, Option.some.injEq, forall_eq', length_append,
      length_singleton, length_parserStringSubstW, if_true, Bool.false_eq_true, if_false]
    refine ⟨fun same => ?_, fun short size _ enough => by omega⟩
    have := same 0xffffffff (by decide) (by unfold maxStringLen; omega)
    unfold maxStringLen at this ⊢
    omega

theorem multiSz_fits_iff :
    Keeps (setupGetMultiSzFieldW file sectionIndex lineIndex index) ↔
      ∀ line, getLine file sectionIndex lineIndex = some line → 0 < index →
        index ≤ line.nbFields →
        Measurable file 1 (nonempty file ((lineTexts file line).drop (index - 1))) := by
  unfold setupGetMultiSzFieldW
  cases getLine file sectionIndex lineIndex with
  | none => simp [Keeps, Answer.Fits]
  | some line =>
    simp only [Option.some.injEq, forall_eq']
    split
    · simp [Keeps, Answer.Fits]
      omega
    simp only [deliver_fits_iff, length_multiSz, untilEmpty_eq false 0 (by decide)]
    refine ⟨fun same _ _ => ?_, fun measurable size _ enough => ?_⟩
    · have largest := same 0xffffffff (by decide) (Nat.le_of_lt_succ (Nat.mod_lt _ (by decide)))
      rw [untilEmpty_eq true _ (by decide)] at largest
      exact measurable_of_largest largest
    · have isMeasurable := measurable (by omega) (by omega)
      by_cases room : 1 < size
      · rw [untilEmpty_eq true size room]
        exact isMeasurable.filled_eq enough
      -- there is room for the final terminator only, which is all that is counted
      · rw [untilEmpty_one (by omega)]
        rw [isMeasurable.measured_eq] at enough ⊢
        exact (enough.trans (Nat.le_of_not_lt room)).antisymm (le_counted ..) |>.symm

/-- The calls keep to the buffer and fill the count they require, for every size, just if
the texts that they return can be measured. -/
theorem calls_fit_iff :
    Keeps (setupGetLineTextW file sectionIndex lineIndex) ∧
      Keeps (setupGetStringFieldW file sectionIndex lineIndex index) ∧
      Keeps (setupGetMultiSzFieldW file sectionIndex lineIndex index) ↔
      (∀ line, getLine file sectionIndex lineIndex = some line →
        Measurable file 0 (lineTexts file line)) ∧
      (∀ text, getField file sectionIndex lineIndex index = some text →
        (expand file text).length ≤ maxStringLen) ∧
      ∀ line, getLine file sectionIndex lineIndex = some line → 0 < index →
        index ≤ line.nbFields →
        Measurable file 1
          (nonempty file ((lineTexts file line).drop (index - 1))) :=
  and_congr (lineText_fits_iff ..) (and_congr (stringField_fits_iff ..) (multiSz_fits_iff ..))

end Main

/-- A `[Strings]` section with a long text, and a line that refers to it nine times. -/
def longFile : InfFile where
  sections := [[⟨1, 1, some 0⟩], [⟨2, 1, some 2⟩]]
  fields i :=
    if i = 0 then [0x61]
    else if i = 1 then List.replicate 511 0x78
    else (List.replicate 9 [0x25, 0x61, 0x25]).flatten
  stringsSection := some 0
  tolowerW := id
  directory _ := none

theorem longFile_unfit : ¬(setupGetStringFieldW longFile 1 0 1 true 5000).Fits true 5000 := by
  intro fits
  have length := (fits.2 4098 (by decide +kernel) (by decide)).2 rfl
  revert length
  decide +kernel

end Winex.Inf
