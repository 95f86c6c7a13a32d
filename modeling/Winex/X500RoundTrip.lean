import Winex.X500Name
import Mathlib.Data.List.Infix
import Mathlib.Data.List.TakeWhile

namespace Winex.X500

open List Nat

/-!
# Reading printed names

`CertStrToNameW` reads the value of the first attribute up to the separator and goes on
with the separator itself, so a printed name comes back only if it has one attribute.
-/

variable {c : UInt16} {chars rest : WString} (attr : Attribute) {value : RdnValue}

theorem copyValue_cons_of_ne (other : c ≠ 0x22) (rest : WString) :
    copyValue (c :: rest) = c :: copyValue rest := by
  cases rest with
  | nil => rfl
  | cons => rw [copyValue, if_neg other]

theorem copyValue_doubleQuotes (chars : WString) : copyValue (doubleQuotes chars) = chars := by
  induction chars with
  | nil => rfl
  | cons c _ ih =>
    by_cases quote : c = 0x22
    · rw [doubleQuotes, if_pos quote, copyValue, if_pos rfl, ih, quote]
    · rw [doubleQuotes, if_neg quote, copyValue_cons_of_ne quote, ih]

theorem copyValue_of_not_mem (noQuotes : 0x22 ∉ chars) : copyValue chars = chars := by
  induction chars with
  | nil => rfl
  | cons _ _ ih =>
    rw [mem_cons, not_or] at noQuotes
    rw [copyValue_cons_of_ne (Ne.symm noQuotes.1), ih noQuotes.2]

theorem doubleQuotes_of_not_mem (noQuotes : 0x22 ∉ chars) : doubleQuotes chars = chars := by
  induction chars with
  | nil => rfl
  | cons _ _ ih =>
    rw [mem_cons, not_or] at noQuotes
    rw [doubleQuotes, if_neg (Ne.symm noQuotes.1), ih noQuotes.2]

theorem scanQuoted_cons_of_ne (other : c ≠ 0x22) (rest : WString) :
    scanQuoted (c :: rest) = (scanQuoted rest).map fun (token, rest) => (c :: token, rest) := by
  cases rest with
  | nil =>
    have ends : scanQuoted [c] = none := by rw [scanQuoted, if_neg other]
    rw [ends]
    rfl
  | cons => rw [scanQuoted, if_neg other]

/-- The search finds the closing quote. -/
theorem scanQuoted_closed (chars : WString) (closed : rest.head? ≠ some 0x22) :
    scanQuoted (doubleQuotes chars ++ 0x22 :: rest) =
      some (doubleQuotes chars ++ [0x22], rest) := by
  induction chars with
  | nil =>
    cases rest with
    | nil => rfl
    | cons next =>
      have other : next ≠ 0x22 := fun same => closed (congrArg some same)
      rw [doubleQuotes, nil_append, scanQuoted, if_neg other]
      rfl
  | cons c _ ih =>
    by_cases quote : c = 0x22
    · rw [doubleQuotes, if_pos quote, cons_append, cons_append, scanQuoted, ih]
      rfl
    · rw [doubleQuotes, if_neg quote, cons_append, scanQuoted_cons_of_ne quote, ih]
      rfl

theorem scanQuoted_open (chars : WString) : scanQuoted (doubleQuotes chars) = none := by
  induction chars with
  | nil => rfl
  | cons c _ ih =>
    by_cases quote : c = 0x22
    · rw [doubleQuotes, if_pos quote, scanQuoted, ih]
      rfl
    · rw [doubleQuotes, if_neg quote, scanQuoted_cons_of_ne quote, ih]
      rfl

theorem cString_append {first : WString} (noNull : 0 ∉ first) (second : WString) :
    cString (first ++ second) = first ++ cString second := by
  refine takeWhile_append_of_pos fun c mem => decide_eq_true ?_
  rintro rfl
  exact noNull mem

/-- A text ends at a null character. -/
theorem cString_doubleQuotes_append (null : 0 ∈ chars) (rest : WString) :
    cString (doubleQuotes chars ++ rest) = doubleQuotes (cString chars) := by
  induction chars with
  | nil => cases null
  | cons c chars ih =>
    by_cases zero : c = 0
    · subst zero
      rfl
    have later : 0 ∈ chars := (mem_cons.mp null).resolve_left (Ne.symm zero)
    have continues : cString (c :: chars) = c :: cString chars :=
      takeWhile_cons_of_pos (decide_eq_true zero)
    rw [continues]
    by_cases quote : c = 0x22
    · subst quote
      rw [doubleQuotes, doubleQuotes, ← ih later]
      rfl
    · rw [doubleQuotes, if_neg quote, doubleQuotes, if_neg quote, ← ih later, cons_append]
      exact takeWhile_cons_of_pos (decide_eq_true zero)

theorem zero_mem_doubleQuotes : 0 ∈ doubleQuotes chars ↔ 0 ∈ chars := by
  induction chars with
  | nil => exact Iff.rfl
  | cons c _ ih =>
    by_cases quote : c = 0x22
    · subst quote
      rw [doubleQuotes, if_pos rfl, mem_cons, mem_cons, ih]
      simp
    · rw [doubleQuotes, if_neg quote, mem_cons, mem_cons, ih]

theorem lowByte_eq_iff : lowByte c = c ↔ c < 0x100 := by
  have low : (lowByte c).toNat = c.toNat % 256 := by
    rw [lowByte, UInt16.toNat_and]
    exact and_two_pow_sub_one_eq_mod c.toNat 8
  rw [← UInt16.toNat_inj, low, UInt16.lt_iff_toNat_lt]
  have size : (0x100 : UInt16).toNat = 256 := rfl
  omega

theorem map_lowByte_eq_iff : chars.map lowByte = chars ↔ ∀ c ∈ chars, c < 0x100 := by
  induction chars with
  | nil => simp
  | cons _ _ ih => rw [map_cons, cons.injEq, lowByte_eq_iff, ih, forall_mem_cons]

variable {charTypes : CharTypes}

variable {result str behind : WString}

theorem encodeWithType_length {type : StringType}
    (encoded : encodeWithType charTypes chars type = some result) :
    result.length ≤ chars.length := by
  cases type with
  | bmp =>
    cases encoded
    exact le_refl _
  | utf8 =>
    obtain ⟨-, same⟩ := Option.ite_none_right_eq_some.mp encoded
    cases same
    exact charTypes.utf8_length chars
  | _ =>
    obtain ⟨-, same⟩ := Option.ite_none_right_eq_some.mp encoded
    cases same
    exact le_of_eq (length_map _)

variable (notEmpty : chars ≠ [])
include notEmpty

theorem lowBytes_eq_iff (allowed : UInt16 → Bool) :
    (if chars ≠ [] ∧ chars.all allowed then some (chars.map lowByte) else none) = some chars ↔
      ∀ c ∈ chars, allowed c = true ∧ c < 0x100 := by
  rw [Option.ite_none_right_eq_some, Option.some.injEq, map_lowByte_eq_iff, all_eq_true,
    and_iff_right notEmpty, forall₂_and]

theorem encodeWithType_ia5_iff :
    encodeWithType charTypes chars .ia5 = some chars ↔ ∀ c ∈ chars, c ≤ 0x7f := by
  refine (lowBytes_eq_iff notEmpty (· ≤ 0x7f)).trans ⟨fun both c mem => ?_, fun low c mem => ?_⟩
  · exact of_decide_eq_true (both c mem).1
  · exact ⟨decide_eq_true (low c mem), UInt16.lt_of_le_of_lt (low c mem) (by decide)⟩

theorem encodeValue_default_iff :
    encodeValue charTypes chars [.printable, .bmp] = some chars ↔
      ((∀ c ∈ chars, charTypes.isprintableW c = true) → ∀ c ∈ chars, c < 0x100) := by
  by_cases all : ∀ c ∈ chars, charTypes.isprintableW c = true
  · have encoded : encodeValue charTypes chars [.printable, .bmp] = some (chars.map lowByte) := by
      simp only [encodeValue, findSome?_cons, encodeWithType]
      rw [if_pos ⟨notEmpty, all_eq_true.mpr all⟩]
    rw [encoded, Option.some.injEq, map_lowByte_eq_iff]
    exact ⟨fun low _ => low, fun low => low all⟩
  · have encoded : encodeValue charTypes chars [.printable, .bmp] = some chars := by
      simp only [encodeValue, findSome?_cons, encodeWithType]
      rw [if_neg fun both => all (all_eq_true.mp both.2)]
    exact iff_of_true encoded fun printable => absurd printable all

theorem encodeValue_domain_iff :
    encodeValue charTypes chars [.ia5, .utf8] = some chars ↔
      (∀ c ∈ chars, c ≤ 0x7f) ∨ charTypes.utf8 chars = chars := by
  by_cases ascii : ∀ c ∈ chars, c ≤ 0x7f
  · have encoded : encodeWithType charTypes chars .ia5 = some chars :=
      (encodeWithType_ia5_iff notEmpty).mpr ascii
    refine iff_of_true ?_ (.inl ascii)
    rw [encodeValue, findSome?_cons, encoded]
  have refused : encodeWithType charTypes chars .ia5 = none :=
    if_neg fun both => ascii fun c mem => of_decide_eq_true (all_eq_true.mp both.2 c mem)
  rw [encodeValue, findSome?_cons, refused, findSome?_cons, encodeWithType, if_pos notEmpty]
  simp [ascii]

theorem encodeValue_eq_iff (attr : Attribute) :
    encodeValue charTypes chars attr.types = some chars ↔ Keeps charTypes chars attr := by
  have single : ∀ type,
      encodeValue charTypes chars [type] = encodeWithType charTypes chars type := by
    intro type
    rw [encodeValue, findSome?_cons, findSome?_nil]
    cases encodeWithType charTypes chars type with
    | none | some _ => rfl
  cases attr with
  | emailAddr =>
    rw [Attribute.types, single]
    exact encodeWithType_ia5_iff notEmpty
  | countryName | telephoneNumber | x21Address =>
    rw [Attribute.types, single]
    exact lowBytes_eq_iff notEmpty _
  | domainComponent => exact encodeValue_domain_iff notEmpty
  | _ => exact encodeValue_default_iff notEmpty

omit notEmpty

theorem Attribute.name_chars :
    ∀ c ∈ attr.name, c ≠ 0x3d ∧ isspaceW c = false ∧ isspace c = false ∧ c ≠ 0 := by
  have all : attr.name.all (fun c => c ≠ 0x3d && !isspaceW c && !isspace c && c ≠ 0) = true := by
    cases attr <;> rfl
  intro c mem
  have ofChar := all_eq_true.mp all c mem
  simpa [and_assoc] using ofChar

theorem Attribute.name_ne_nil : attr.name ≠ [] := by
  cases attr <;> exact cons_ne_nil _ _

/-- The key in front of an equals sign. -/
theorem getNextKeyW_name (rest : WString) :
    getNextKeyW (attr.name ++ 0x3d :: rest) = .ok (some (attr.name, 0x3d :: rest)) := by
  have word := attr.name_chars
  have noSpaces : (attr.name ++ 0x3d :: rest).dropWhile isspaceW = attr.name ++ 0x3d :: rest := by
    cases isName : attr.name with
    | nil => exact absurd isName attr.name_ne_nil
    | cons c =>
      rw [isName] at word
      refine dropWhile_cons_of_neg ?_
      rw [(word c mem_cons_self).2.1]
      exact Bool.false_ne_true
  have inKey : ∀ c ∈ attr.name, decide (c ≠ 0x3d ∧ isspaceW c = false) = true :=
    fun c mem => decide_eq_true ⟨(word c mem).1, (word c mem).2.1⟩
  simp only [getNextKeyW, noSpaces]
  rw [dropWhile_append_of_pos inKey, takeWhile_append_of_pos inKey]
  simp

/-- The characters of the next value and what is behind it. -/
def readValue (charTypes : CharTypes) (attr : Attribute) (str : WString) :
    Option (WString × WString) :=
  match getNextValueW str with
  | .error _ => none
  | .ok (token, rest) => (valueToRdn charTypes attr token).map fun chars => (chars, rest)

/-- Behind a value the text ends or has a comma. -/
def EndsValue (rest : WString) : Prop :=
  ∀ c ∈ rest.head?, c = 0x2c

theorem EndsValue.cString (ends : EndsValue rest) : EndsValue (cString rest) := by
  cases rest with
  | nil => exact ends
  | cons c =>
    have comma : c = 0x2c := ends c rfl
    subst comma
    intro _ isHead
    exact (Option.some.inj isHead).symm

theorem EndsValue.while_append (ends : EndsValue rest) (str : WString) {p : UInt16 → Bool}
    (comma : p 0x2c = false) :
    (str ++ rest).takeWhile p = str.takeWhile p ∧
      (str ++ rest).dropWhile p = str.dropWhile p ++ rest := by
  induction str with
  | nil =>
    cases rest with
    | nil => exact ⟨rfl, rfl⟩
    | cons c =>
      have isComma : c = 0x2c := ends c rfl
      simp [isComma, comma]
  | cons c _ ih => cases passed : p c <;> simp [passed, ih]

theorem readValue_quoted (quotes : value.needsQuotes = true) (noNull : 0 ∉ value.chars)
    (attr : Attribute) (ends : EndsValue rest) :
    readValue charTypes attr (cString (quoteRdnValueToStrW value ++ rest)) =
      (encodeValue charTypes value.chars attr.types).map fun chars => (chars, cString rest) := by
  have text : cString (quoteRdnValueToStrW value ++ rest) =
      0x22 :: (doubleQuotes value.chars ++ 0x22 :: cString rest) := by
    have noNullText : 0 ∉ 0x22 :: (doubleQuotes value.chars ++ [0x22]) := by
      simp [zero_mem_doubleQuotes, noNull]
    rw [quoteRdnValueToStrW, if_pos quotes, cString_append noNullText]
    simp
  have closed : (cString rest).head? ≠ some 0x22 := by
    intro isQuote
    exact absurd (ends.cString 0x22 isQuote) (by decide)
  have noSpace : isspaceW 0x22 = false := by decide +kernel
  have token : getNextValueW (0x22 :: (doubleQuotes value.chars ++ 0x22 :: cString rest)) =
      .ok (0x22 :: (doubleQuotes value.chars ++ [0x22]), cString rest) := by
    rw [getNextValueW, dropWhile_cons_of_neg (ne_true_of_eq_false noSpace)]
    simp [scanQuoted_closed value.chars closed]
  have inner : valueToRdn charTypes attr (0x22 :: (doubleQuotes value.chars ++ [0x22])) =
      encodeValue charTypes value.chars attr.types := by
    rw [valueToRdn, head?_cons, if_pos rfl, tail_cons, dropLast_concat, copyValue_doubleQuotes]
  rw [text, readValue, token]
  simp only [inner]

theorem readValue_cut (quotes : value.needsQuotes = true) (null : 0 ∈ value.chars)
    (attr : Attribute) (rest : WString) :
    readValue charTypes attr (cString (quoteRdnValueToStrW value ++ rest)) = none := by
  have text :
      cString (quoteRdnValueToStrW value ++ rest) = 0x22 :: doubleQuotes (cString value.chars) := by
    rw [quoteRdnValueToStrW, if_pos quotes, cons_append, append_assoc,
      ← cString_doubleQuotes_append null]
    rfl
  have noSpace : isspaceW 0x22 = false := by decide +kernel
  have open_ :
      getNextValueW (0x22 :: doubleQuotes (cString value.chars)) = .error .invalidX500String := by
    rw [getNextValueW, dropWhile_cons_of_neg (ne_true_of_eq_false noSpace)]
    simp [scanQuoted_open]
  rw [text, readValue, open_]

theorem not_quotable (plain : value.needsQuotes = false) :
    ∀ c ∈ value.chars, isQuotableChar c = false := by
  intro c mem
  exact Bool.of_not_eq_true (any_eq_false.mp (Bool.or_eq_false_iff.mp plain).2 c mem)

/-- A value without quotes is read behind white space up to a separator. -/
theorem readValue_plain (noQuotes : 0x22 ∉ str) (ends : EndsValue rest) :
    let value := str.dropWhile isspaceW
    readValue charTypes attr (str ++ rest) =
      if value ++ rest = [] then none
      else
        (encodeValue charTypes (value.takeWhile fun c => !isSeparator c) attr.types).map
          fun chars => (chars, (value.dropWhile fun c => !isSeparator c) ++ rest) := by
  intro value
  have skipped : (str ++ rest).dropWhile isspaceW = value ++ rest :=
    (ends.while_append str (by decide +kernel)).2
  have comma : (!isSeparator 0x2c) = false := by decide
  have noQuotesValue : 0x22 ∉ value := fun mem => noQuotes ((dropWhile_sublist _).mem mem)
  have noQuotesToken : 0x22 ∉ value.takeWhile fun c => !isSeparator c :=
    fun mem => noQuotesValue ((takeWhile_sublist _).mem mem)
  have inner : valueToRdn charTypes attr (value.takeWhile fun c => !isSeparator c) =
      encodeValue charTypes (value.takeWhile fun c => !isSeparator c) attr.types := by
    have notQuoted : (value.takeWhile fun c => !isSeparator c).head? ≠ some 0x22 :=
      fun isHead => noQuotesToken (mem_of_head? isHead)
    rw [valueToRdn, if_neg notQuoted, copyValue_of_not_mem noQuotesToken]
  rw [readValue, getNextValueW, skipped]
  cases isText : value ++ rest with
  | nil => rw [if_pos rfl]
  | cons c =>
    have other : c ≠ 0x22 := by
      rintro rfl
      rcases append_eq_cons_iff.mp isText with ⟨-, isRest⟩ | ⟨_, isValue, -⟩
      · exact absurd (ends 0x22 (by rw [isRest]; rfl)) (by decide)
      · exact noQuotesValue (isValue ▸ mem_cons_self)
    simp only [if_neg other]
    rw [← isText, (ends.while_append value comma).1, (ends.while_append value comma).2]
    rw [if_neg (isText ▸ cons_ne_nil _ _)]
    simp only [inner]

/-- A string without its leading white space is the string exactly if it has none. -/
theorem dropWhile_eq_self_iff_head :
    str.dropWhile isspaceW = str ↔ ∀ c ∈ str.head?, isspaceW c = false := by
  rw [dropWhile_eq_self_iff]
  cases str <;> simp

theorem cString_eq_self_iff : cString chars = chars ↔ 0 ∉ chars := by
  refine takeWhile_eq_self_iff.trans ⟨fun all mem => ?_, fun noNull c mem => ?_⟩
  · exact of_decide_eq_true (all 0 mem) rfl
  · refine decide_eq_true ?_
    rintro rfl
    exact noNull mem

theorem cString_append_ends (chars : WString) (ends : EndsValue rest) :
    ∃ behind, cString (chars ++ rest) = cString chars ++ behind ∧ EndsValue behind ∧
      (0 ∉ chars → behind = cString rest) := by
  by_cases null : 0 ∈ chars
  · refine ⟨[], ?_, by simp [EndsValue], fun noNull => absurd null noNull⟩
    rw [cString, takeWhile_append, append_nil]
    refine if_neg fun all => ?_
    exact cString_eq_self_iff.mp ((takeWhile_sublist _).eq_of_length all) null
  · refine ⟨cString rest, ?_, ends.cString, fun _ => rfl⟩
    rw [cString_append null, cString_eq_self_iff.mpr null]

/-- A value that is printed without quotes comes back if it has no null characters, no
white space in front and no carriage returns, and if its types keep it. -/
theorem readValue_plain_iff (plain : value.needsQuotes = false) (notEmpty : value.chars ≠ [])
    (attr : Attribute) (ends : EndsValue rest) :
    readValue charTypes attr (cString (quoteRdnValueToStrW value ++ rest)) =
        some (value.chars, behind) ↔
      Readable value ∧ Keeps charTypes value.chars attr ∧ behind = cString rest := by
  have noQuotes : 0x22 ∉ value.chars := fun mem =>
    Bool.false_ne_true ((not_quotable plain _ mem).symm.trans (by decide))
  have printed : quoteRdnValueToStrW value = value.chars := by
    rw [quoteRdnValueToStrW, plain, if_neg Bool.false_ne_true, doubleQuotes_of_not_mem noQuotes]
  have noQuotesText : 0x22 ∉ cString value.chars :=
    fun mem => noQuotes ((takeWhile_sublist _).mem mem)
  obtain ⟨_, isText, endsAfter, afterText⟩ := cString_append_ends value.chars ends
  rw [printed, isText, readValue_plain attr noQuotesText endsAfter]
  constructor
  · intro read
    obtain ⟨-, read⟩ := Option.ite_none_left_eq_some.mp read
    obtain ⟨chars, encoded, same⟩ := Option.map_eq_some_iff.mp read
    obtain ⟨rfl, rfl⟩ := Prod.mk.inj same
    -- nothing of the value is lost on the way to the encoder, which makes nothing longer
    have token := takeWhile_sublist (l := (cString value.chars).dropWhile isspaceW)
      (fun c => !isSeparator c)
    have skipped := dropWhile_sublist (l := cString value.chars) isspaceW
    have text : (cString value.chars).Sublist value.chars := takeWhile_sublist _
    obtain ⟨_, _, _, _, isResult, _⟩ := findSome?_eq_some_iff.mp encoded
    have length := encodeWithType_length isResult
    have isString : cString value.chars = value.chars :=
      text.eq_of_length_le (length.trans (token.trans skipped).length_le)
    rw [isString] at token skipped encoded length ⊢
    have isValue : value.chars.dropWhile isspaceW = value.chars :=
      skipped.eq_of_length_le (length.trans token.length_le)
    rw [isValue] at token encoded length ⊢
    have isToken := token.eq_of_length_le length
    rw [isToken] at encoded
    have noNull := cString_eq_self_iff.mp isString
    have noSeparator := takeWhile_eq_self_iff.mp isToken
    refine ⟨⟨noNull, .inr ⟨dropWhile_eq_self_iff_head.mp isValue, fun mem => ?_⟩⟩,
      (encodeValue_eq_iff notEmpty attr).mp encoded, ?_⟩
    · exact absurd (noSeparator 0x0d mem) (by decide)
    · rw [dropWhile_eq_nil_iff.mpr noSeparator, afterText noNull]
      rfl
  · rintro ⟨⟨noNull, readable⟩, keeps, rfl⟩
    obtain ⟨noSpace, noReturn⟩ := readable.resolve_left (ne_true_of_eq_false plain)
    have noSeparator : ∀ c ∈ value.chars, (!isSeparator c) = true := by
      intro c mem
      have notQuotable := not_quotable plain c mem
      by_cases separator : isSeparator c = true
      · have isOne : c ∈ [(0x2c : UInt16), 0x3b, 0x0d, 0x0a] := of_decide_eq_true separator
        simp only [mem_cons, not_mem_nil, or_false] at isOne
        rcases isOne with rfl | rfl | rfl | rfl
        case inr.inr.inl => exact absurd mem noReturn
        all_goals exact absurd notQuotable (by decide)
      · rw [Bool.of_not_eq_true separator]
        rfl
    rw [cString_eq_self_iff.mpr noNull, dropWhile_eq_self_iff_head.mpr noSpace,
      takeWhile_eq_self_iff.mpr noSeparator, dropWhile_eq_nil_iff.mpr noSeparator,
      (encodeValue_eq_iff notEmpty attr).mpr keeps, afterText noNull]
    rw [if_neg fun empty => notEmpty (append_eq_nil_iff.mp empty).1]
    rfl

theorem readValue_iff (notEmpty : value.chars ≠ []) (attr : Attribute) (ends : EndsValue rest) :
    readValue charTypes attr (cString (quoteRdnValueToStrW value ++ rest)) =
        some (value.chars, behind) ↔
      Readable value ∧ Keeps charTypes value.chars attr ∧ behind = cString rest := by
  by_cases quotes : value.needsQuotes = true
  · by_cases null : 0 ∈ value.chars
    · rw [readValue_cut quotes null]
      exact iff_of_false nofun fun both => both.1.1 null
    rw [readValue_quoted quotes null attr ends, Option.map_eq_some_iff]
    have readable : Readable value := ⟨null, .inl quotes⟩
    simp [readable, ← encodeValue_eq_iff notEmpty attr, eq_comm]
  · exact readValue_plain_iff (Bool.of_not_eq_true quotes) notEmpty attr ends

variable {oidInfo : OidInfo}

theorem certStrToNameW_attribute_iff (text : WString) (rounds : Nat)
    (result : List (Attribute × WString)) :
    certStrToNameW charTypes oidInfo (rounds + 1) (attr.name ++ 0x3d :: text) = some (.ok result) ↔
      attr.name.length < keyLen ∧
        ∃ chars rest others, readValue charTypes attr text = some (chars, rest) ∧
          certStrToNameW charTypes oidInfo rounds rest = some (.ok others) ∧
          result = (attr, chars) :: others := by
  have equals : (0x3d :: text).dropWhile isspace = 0x3d :: text := dropWhile_cons_of_neg (by decide)
  rw [certStrToNameW, getNextKeyW_name]
  · simp only [oidInfo.consistent, equals]
    by_cases short : attr.name.length < keyLen
    · rw [if_neg (not_le.mpr short), readValue]
      cases getNextValueW text with
      | error => simp
      | ok next =>
        obtain ⟨token, rest⟩ := next
        cases isValue : valueToRdn charTypes attr token with
        | none => simp [isValue]
        | some =>
          simp only [isValue]
          cases isRest : certStrToNameW charTypes oidInfo rounds rest with
          | none => simp [isRest]
          | some outcome =>
            cases outcome with
            | error => simp [Except.map, isRest]
            | ok => simp [Except.map, isRest, short, eq_comm]
    · rw [if_pos (not_lt.mp short)]
      exact iff_of_false nofun fun both => short both.1
  · simp

/-- The separator of two attributes is taken for a key. -/
theorem certStrToNameW_separator (text : WString) (rounds : Nat) :
    certStrToNameW charTypes oidInfo (rounds + 1) (0x2c :: 0x20 :: (attr.name ++ text)) =
      some (.error .invalidX500String) := by
  have key : getNextKeyW (0x2c :: 0x20 :: (attr.name ++ text)) =
      .ok (some ([0x2c], 0x20 :: (attr.name ++ text))) := by rfl
  obtain ⟨c, name, isName⟩ := exists_cons_of_ne_nil attr.name_ne_nil
  obtain ⟨notEquals, -, noSpace, -⟩ := attr.name_chars c (isName ▸ mem_cons_self)
  have behind : (0x20 :: (attr.name ++ text)).dropWhile isspace = c :: (name ++ text) := by
    rw [dropWhile_cons_of_pos (by decide), isName, cons_append]
    exact dropWhile_cons_of_neg (ne_true_of_eq_false noSpace)
  rw [certStrToNameW, key]
  · simp only [behind]
    rw [if_neg (by decide)]
    split
    case h_1 _ _ _ isEquals => exact absurd (cons.inj isEquals).1 notEquals
    case h_2 => rfl
  · exact nofun

/-- The text of a name starts with its first attribute. -/
theorem certNameToStrW_cons (value : RdnValue) (name : Name) :
    ∃ rest, certNameToStrW ((attr, value) :: name) =
        attr.name ++ 0x3d :: (quoteRdnValueToStrW value ++ rest) ∧
      EndsValue rest ∧
      (rest = if name = [] then [] else 0x2c :: 0x20 :: certNameToStrW name) := by
  cases name with
  | nil => exact ⟨[], by simp [certNameToStrW, attributeToStr], by simp [EndsValue], rfl⟩
  | cons second name =>
    refine ⟨0x2c :: 0x20 :: certNameToStrW (second :: name), ?_, ?_, rfl⟩
    · simp [certNameToStrW, attributeToStr]
    · intro _ isHead
      exact (Option.some.inj isHead).symm

/-- Reading goes on with the separator and fails if the name has another attribute. -/
theorem certStrToNameW_behind {name : Name} (more : name ≠ []) (rounds : Nat)
    (others : List (Attribute × WString)) :
    certStrToNameW charTypes oidInfo rounds
        (cString (0x2c :: 0x20 :: certNameToStrW name)) ≠ some (.ok others) := by
  obtain ⟨⟨attr, value⟩, name, rfl⟩ := exists_cons_of_ne_nil more
  obtain ⟨rest, isText, -⟩ := certNameToStrW_cons attr value name
  have noNull : 0 ∉ 0x2c :: 0x20 :: attr.name := by
    refine not_mem_cons_of_ne_of_not_mem (by decide) ?_
    refine not_mem_cons_of_ne_of_not_mem (by decide) fun mem => ?_
    exact (attr.name_chars 0 mem).2.2.2 rfl
  have split := cString_append noNull (0x3d :: (quoteRdnValueToStrW value ++ rest))
  rw [isText]
  intro read
  cases rounds with
  | zero => cases read
  | succ =>
    rw [← cons_append, ← cons_append, split, cons_append, cons_append,
      certStrToNameW_separator] at read
    cases read

/-- A name whose RDNs have one attribute with a value each comes back from its text exactly
if it has at most one RDN, the name of its type fits into the buffer for keys, and its value
is readable and kept. -/
theorem certNameToStrW_roundTrips_iff (charTypes : CharTypes) (oidInfo : OidInfo) (name : Name)
    (notEmpty : ∀ pair ∈ name, pair.2.chars ≠ []) :
    RoundTrips charTypes oidInfo name ↔ Returns charTypes name := by
  cases name with
  | nil => exact iff_of_true ⟨1, rfl⟩ trivial
  | cons first name =>
    obtain ⟨attr, value⟩ := first
    have someChars : value.chars ≠ [] := notEmpty _ mem_cons_self
    obtain ⟨rest, isText, ends, isRest⟩ := certNameToStrW_cons attr value name
    have noNull : 0 ∉ attr.name ++ [0x3d] := by
      intro mem
      rcases mem_append.mp mem with mem | mem
      · exact (attr.name_chars 0 mem).2.2.2 rfl
      · exact absurd (mem_singleton.mp mem) (by decide)
    have text : cString (certNameToStrW ((attr, value) :: name)) =
        attr.name ++ 0x3d :: cString (quoteRdnValueToStrW value ++ rest) := by
      have split := cString_append noNull (quoteRdnValueToStrW value ++ rest)
      rw [append_assoc, append_assoc, singleton_append, singleton_append] at split
      rw [isText, split]
    constructor
    · rintro ⟨rounds, read⟩
      cases rounds with
      | zero => cases read
      | succ =>
        rw [text, certStrToNameW_attribute_iff] at read
        obtain ⟨short, chars, _, _, isValue, readOthers, same⟩ := read
        obtain ⟨isFirst, _⟩ := cons.inj same
        rw [← (Prod.mk.inj isFirst).2, readValue_iff someChars attr ends] at isValue
        obtain ⟨readable, keeps, rfl⟩ := isValue
        cases name with
        | nil => exact ⟨short, readable, keeps⟩
        | cons =>
          rw [isRest] at readOthers
          exact absurd readOthers (certStrToNameW_behind (cons_ne_nil _ _) _ _)
    · intro returns
      cases name with
      | nil =>
        obtain ⟨short, readable, keeps⟩ := returns
        refine ⟨2, ?_⟩
        rw [text, certStrToNameW_attribute_iff]
        refine ⟨short, value.chars, cString rest, [], ?_, ?_, rfl⟩
        · exact (readValue_iff someChars attr ends).mpr ⟨readable, keeps, rfl⟩
        · rw [isRest]
          rfl
      | cons => exact returns.elim

/-- Character types without letters from 0x80 on, and a lossless UTF-8 conversion. -/
def CharTypes.ascii : CharTypes where
  alnum _ := false
  digit _ := false
  utf8 := id
  utf8_length _ := le_refl _

/-- The search for a name in the first entries of the attribute types. -/
def OidInfo.firstEntries : OidInfo where
  find key :=
    [.commonName, .localityName, .organizationName, .organizationalUnitName, .emailAddr,
      .countryName, .stateOrProvinceName, .streetAddress, .title, .givenName, .initials,
      .surName, .domainComponent, .description, .postalCode, .postOfficeBox, .telephoneNumber,
      .x21Address, .dnQualifier].find? fun attr : Attribute => attr.name = key
  consistent attr := by cases attr <;> rfl

/-- The name `CN="a, b"` comes back. -/
theorem certNameToStrW_roundTrips_commonName :
    RoundTrips .ascii .firstEntries [(.commonName, .printable [0x61, 0x2c, 0x20, 0x62])] :=
  (certNameToStrW_roundTrips_iff .ascii .firstEntries _ (by simp [RdnValue.chars])).mpr
    ⟨by decide, ⟨by decide, .inl (by decide)⟩, fun _ => by simp [RdnValue.chars]⟩

/-- The name `CN=a, O=b` does not come back: the parser takes the comma for a key. -/
theorem certNameToStrW_twoAttributes_refused :
    (∀ rounds, certStrToNameW .ascii .firstEntries (rounds + 2)
          (cString (certNameToStrW
            [(.commonName, .printable [0x61]), (.organizationName, .printable [0x62])])) =
        some (.error .invalidX500String)) ∧
      ¬ RoundTrips .ascii .firstEntries
        [(.commonName, .printable [0x61]), (.organizationName, .printable [0x62])] := by
  have refused : ∀ rounds, certStrToNameW .ascii .firstEntries (rounds + 2)
        (cString (certNameToStrW
          [(.commonName, .printable [0x61]), (.organizationName, .printable [0x62])])) =
      some (.error .invalidX500String) :=
    fun _ => rfl
  refine ⟨refused, ?_⟩
  rintro ⟨rounds, read⟩
  match rounds with
  | 0 => cases read
  | 1 => cases read
  | rounds + 2 => cases (refused rounds).symm.trans read

end Winex.X500
