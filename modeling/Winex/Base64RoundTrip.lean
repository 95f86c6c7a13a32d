import Winex.Base64

namespace Winex.Base64

open List

/-!
# The round trip of base64 texts

What `CryptBinaryToStringA` leaves in a buffer of the size it asks for, and what
`CryptStringToBinaryA` makes of it.
-/

/-- A byte string is written into a buffer of the reported size, the reported count is the
length of the text, and the text is read back. -/
def RoundTrips (bytes : List UInt8) (dwFlags : UInt32) : Prop :=
  ∃ size, cryptBinaryToStringA bytes dwFlags none 0 = some ⟨.ok (), size, none⟩ ∧
    ∀ buffer : List UInt8, buffer.length = size →
      ∃ text, cryptBinaryToStringA bytes dwFlags (some buffer) size =
          some ⟨.ok (), strlen text, some text⟩ ∧
        cryptStringToBinaryA text (strlen text) (formatOf dwFlags) = .ok bytes

variable {bytes tail front text sep header : List UInt8} {last : UInt8}

theorem writeAt_append (front : List UInt8) (fits : bytes.length ≤ tail.length) :
    writeAt (front ++ tail) front.length bytes =
      some (front ++ (bytes ++ tail.drop bytes.length)) := by
  rw [writeAt, if_pos (by rw [length_append]; omega), take_left, append_assoc,
    ← drop_drop, drop_left]

theorem writeLine_append {buffer : List UInt8} {position : Nat} (parts : buffer = front ++ tail)
    (behind : position = front.length) (line sep : List UInt8)
    (fits : line.length + sep.length < tail.length) :
    writeLine buffer position line sep =
      some ((front ++ line ++ sep) ++ 0 :: tail.drop (line.length + sep.length + 1)) := by
  subst parts behind
  have first : strcpy (front ++ tail) front.length line =
      some ((front ++ line) ++ 0 :: tail.drop (line.length + 1)) := by
    rw [strcpy, writeAt_append front (by rw [length_append, length_singleton]; omega)]
    simp
  have second : strcpy ((front ++ line) ++ 0 :: tail.drop (line.length + 1))
      (front ++ line).length sep =
        some ((front ++ line ++ sep) ++ 0 :: tail.drop (line.length + sep.length + 1)) := by
    rw [strcpy, writeAt_append (front ++ line) (by simp; omega)]
    simp [Nat.add_assoc, Nat.add_comm, Nat.add_left_comm]
  rw [writeLine, first, ← length_append]
  exact second

theorem strlen_append (noNull : ∀ char ∈ text, char ≠ 0) (rest : List UInt8) :
    strlen (text ++ 0 :: rest) = text.length := by
  rw [strlen, takeWhile_append_of_pos fun char mem => bne_iff_ne.mpr (noNull char mem)]
  simp

/-- The characters of the text are not null. -/
theorem groups_notNull (sepNotNull : ∀ char ∈ sep, char ≠ 0) (i : Nat) (d : List UInt8) :
    ∀ char ∈ groups sep i d, char ≠ 0 := by
  induction i, d using groups.induct with
  | case1 _ d0 d1 d2 _ ih =>
    intro char mem
    simp only [groups, mem_append] at mem
    obtain inGroup | between | after := mem
    · exact (fullGroup_printing d0 d1 d2 char inGroup).1
    · unfold leading at between
      split at between
      · exact sepNotNull char between
      · cases between
    · exact ih char after
  | case2 =>
    intro _ mem
    simp only [groups, paddedGroup, mem_cons, not_mem_nil, or_false] at mem
    obtain rfl | rfl | rfl | rfl := mem
    · exact (printing_b64Char (and_lt _ _)).1
    · exact (printing_b64Char (or_lt (and_lt _ _) (and_lt _ _))).1
    · exact (printing_b64Char (and_lt _ _)).1
    · decide
  | case3 =>
    intro _ mem
    simp only [groups, paddedGroup, mem_cons, not_mem_nil, or_false] at mem
    obtain rfl | rfl | rfl | rfl := mem
    · exact (printing_b64Char (and_lt _ _)).1
    · exact (printing_b64Char (and_lt _ _)).1
    · decide
    · decide
  | case4 => exact fun _ mem => absurd mem not_mem_nil

theorem IsSeparator.notNull (isSeparator : IsSeparator sep) : ∀ char ∈ sep, char ≠ 0 := by
  obtain rfl | rfl | rfl := isSeparator <;> decide +kernel

/-- The room that is asked for and not used. -/
def spare (sep bytes : List UInt8) : Nat :=
  if Overestimated bytes.length then sep.length else 0

/-- The lines of the text, and the text with a header before them. -/
abbrev body (sep bytes : List UInt8) : List UInt8 :=
  groups sep 0 bytes ++ sep

abbrev headed (header sep bytes : List UInt8) : List UInt8 :=
  header ++ sep ++ body sep bytes

section Writing

variable {bytes sep : List UInt8} (notEmpty : bytes ≠ []) (small : bytes.length < 0x10000000)
include notEmpty small

/-- The text is written behind a part of the buffer. -/
theorem encodeBase64A_append (front : List UInt8) {tail : List UInt8} {outLen : Nat}
    (fits : (body sep bytes).length + spare sep bytes < tail.length)
    (large : (body sep bytes).length + spare sep bytes < outLen) :
    encodeBase64A bytes sep (front ++ tail) front.length outLen =
      some ⟨true, (body sep bytes).length + 1 + spare sep bytes,
        (front ++ body sep bytes) ++ 0 :: tail.drop ((body sep bytes).length + 1)⟩ := by
  unfold body at *
  rw [encodeBase64A, needed_eq sep notEmpty small]
  dsimp only
  rw [show (if Overestimated bytes.length then sep.length else 0) = spare sep bytes from rfl,
    if_neg (by omega), base64Text_eq, writeAt_append front (by
      rw [length_append, length_singleton]
      omega)]
  simp [Nat.add_assoc]

variable {buffer : List UInt8} {charsNeeded : Nat}

theorem writeText_plain (size : buffer.length = charsNeeded)
    (isNeeded : charsNeeded = (body sep bytes).length + 1 + spare sep bytes) :
    ∃ rest, writeText bytes sep buffer charsNeeded none =
      some (body sep bytes ++ 0 :: rest, charsNeeded) := by
  have encoded : encodeBase64A bytes sep buffer 0 charsNeeded = _ :=
    encodeBase64A_append notEmpty small [] (by omega) (by omega)
  rw [writeText, encoded]
  exact ⟨_, rfl⟩

theorem writeText_framed (header trailer : List UInt8) (size : buffer.length = charsNeeded)
    (isNeeded : charsNeeded = (body sep bytes).length + 1 + spare sep bytes +
      (header.length + sep.length) + (trailer.length + sep.length)) :
    ∃ rest, rest.length = spare sep bytes + trailer.length + sep.length ∧
      writeText bytes sep buffer charsNeeded (some (header, trailer)) =
        writeTrailer (headed header sep bytes ++ 0 :: rest) trailer sep
          ((headed header sep bytes).length + spare sep bytes) charsNeeded := by
  have written : writeLine buffer 0 header sep = _ :=
    writeLine_append (nil_append buffer).symm rfl header sep (by omega)
  have encoded : encodeBase64A bytes sep
      ((header ++ sep) ++ 0 :: buffer.drop (header.length + sep.length + 1))
      (header ++ sep).length charsNeeded = _ :=
    encodeBase64A_append notEmpty small (header ++ sep)
      (by rw [length_cons, length_drop]; omega) (by omega)
  refine ⟨(0 :: buffer.drop (header.length + sep.length + 1)).drop
    ((body sep bytes).length + 1), ?_, ?_⟩
  · rw [length_drop, length_cons, length_drop]
    omega
  · have lengths : (headed header sep bytes).length + spare sep bytes =
        header.length + sep.length + ((body sep bytes).length + 1 + spare sep bytes) - 1 := by
      rw [length_append, length_append]
      omega
    rw [length_append] at encoded
    rw [writeText, written, lengths]
    simp only [nil_append, Option.bind_eq_bind, Option.bind_some, encoded]

end Writing

/-- The trailer is put behind the text if there is room for at most one character more. -/
theorem writeTrailer_fits (notNull : ∀ char ∈ front, char ≠ 0) (notEmpty : front ≠ [])
    (trailer sep rest : List UInt8) {extra : Nat} (little : extra ≤ 1)
    (room : rest.length = extra + trailer.length + sep.length) :
    ∃ rest', writeTrailer (front ++ 0 :: rest) trailer sep (front.length + extra)
        ((front ++ trailer ++ sep).length + 1 + extra) =
      some ((front ++ trailer ++ sep) ++ 0 :: rest', (front ++ trailer ++ sep).length + 1) := by
  have placed {position : Nat} (behind : position = front.length) :=
    writeLine_append (rfl : front ++ 0 :: rest = front ++ 0 :: rest) behind trailer sep
      (by rw [length_cons]; omega)
  have positive := length_pos_iff.mpr notEmpty
  obtain rfl | rfl : extra = 0 ∨ extra = 1 := by omega
  · have last : (front ++ 0 :: rest).getD (front.length + 0 - 1) 0 ≠ 0 := by
      rw [getD_eq_getElem?_getD, getElem?_append_left (by omega), getElem?_eq_getElem (by omega)]
      exact notNull _ (getElem_mem _)
    rw [writeTrailer, if_neg last, placed (Nat.add_zero _)]
    exact ⟨_, rfl⟩
  · have last : (front ++ 0 :: rest).getD (front.length + 1 - 1) 0 = 0 := by simp
    rw [writeTrailer, if_pos last, placed (Nat.add_sub_cancel ..)]
    exact ⟨_, rfl⟩

/-- With room for two characters more, the terminator of the text stays. -/
theorem writeTrailer_interrupted (front trailer sep rest : List UInt8) (charsNeeded : Nat)
    (room : rest.length = 2 + trailer.length + sep.length) :
    ∃ rest' charsNeeded', charsNeeded - 1 ≤ charsNeeded' ∧
      writeTrailer (front ++ 0 :: rest) trailer sep (front.length + 2) charsNeeded =
        some (front ++ 0 :: rest', charsNeeded') := by
  match rest with
  | [] =>
    rw [length_nil] at room
    omega
  | first :: others =>
    rw [length_cons] at room
    rw [writeTrailer]
    split
    · rw [writeLine_append (append_cons front 0 (first :: others))
        (show front.length + 2 - 1 = (front ++ [0]).length by simp) trailer sep
        (by rw [length_cons]; omega)]
      simp only [append_assoc, cons_append, Option.map_some]
      exact ⟨_, _, le_rfl, rfl⟩
    · rw [writeLine_append (show front ++ 0 :: first :: others = (front ++ [0, first]) ++ others
          by simp)
        (show front.length + 2 = (front ++ [0, first]).length by simp) trailer sep
        (by omega)]
      simp only [append_assoc, cons_append, Option.map_some]
      exact ⟨_, _, Nat.sub_le .., rfl⟩

theorem trimmed_eq {rest : List UInt8} (parts : text = (front ++ [last]) ++ (sep ++ rest))
    (isSeparator : IsSeparator sep) (printing : Printing last) :
    let length := (front ++ [last]).length + sep.length
    let trimmed := if text.getD (length - 1) 0 = 0x0a then length - 1 else length
    (if text.getD (trimmed - 1) 0 = 0x0d then trimmed - 1 else trimmed) =
      (front ++ [last]).length := by
  subst parts
  obtain ⟨-, notNewline, notReturn⟩ := printing
  obtain rfl | rfl | rfl := isSeparator
  all_goals simp [*]

theorem skipped_eq {more : List UInt8} (parts : text = header ++ sep ++ more)
    (isSeparator : IsSeparator sep) (begins : ∃ char rest, more = char :: rest ∧ Printing char) :
    let ptr := if text.getD header.length 0 = 0x0d then header.length + 1 else header.length
    (if text.getD ptr 0 = 0x0a then ptr + 1 else ptr) = (header ++ sep).length := by
  subst parts
  obtain ⟨_, _, rfl, -, notNewline, notReturn⟩ := begins
  obtain rfl | rfl | rfl := isSeparator
  all_goals simp [*]

theorem base64WithHeaderAndTrailerToBinaryA_text {trailer : List UInt8}
    (isTrailer : trailer = front ++ [last]) (printing : Printing last)
    (isSeparator : IsSeparator sep) (notEmpty : bytes ≠ []) (rest : List UInt8)
    (small : (headed header sep bytes ++ trailer).length < 0x80000000) :
    base64WithHeaderAndTrailerToBinaryA
        ((headed header sep bytes ++ trailer ++ sep) ++ 0 :: rest)
        (headed header sep bytes ++ trailer ++ sep).length header trailer =
      .ok bytes := by
  unfold headed body at *
  have begins := groups_cons sep 0 notEmpty
  have positive : 0 < (groups sep 0 bytes).length := by
    obtain ⟨char, others, more, -⟩ := begins
    rw [more]
    exact Nat.succ_pos _
  generalize isBody : groups sep 0 bytes ++ sep = body at *
  have bodyLength : body.length = (groups sep 0 bytes).length + sep.length := by
    rw [← isBody, length_append]
  generalize isText : (header ++ sep ++ body ++ trailer ++ sep) ++ 0 :: rest = text
  -- the text, split where the decoder looks at it
  have atEnd : text = ((header ++ sep ++ body ++ front) ++ [last]) ++ (sep ++ 0 :: rest) := by
    simp [← isText, isTrailer]
  have atTrailer : text = (header ++ sep ++ body) ++ (trailer ++ (sep ++ 0 :: rest)) := by
    simp [← isText]
  have atBody : text = (header ++ sep) ++
      (groups sep 0 bytes ++ (sep ++ (trailer ++ (sep ++ 0 :: rest)))) := by
    simp [← isText, ← isBody]
  have ended : ((header ++ sep ++ body ++ front) ++ [last]).length =
      (header ++ sep ++ body).length + trailer.length := by
    simp only [isTrailer, length_append]
    omega
  have trimmed := trimmed_eq atEnd isSeparator printing
  rw [ended] at trimmed
  have skipped := skipped_eq atBody isSeparator (by
    obtain ⟨char, _, more, printing⟩ := begins
    exact ⟨char, _, by rw [more]; rfl, printing⟩)
  have found : strstr text header = some 0 := by
    rw [strstr.eq_def, if_pos]
    rw [atBody, append_assoc, isPrefixOf_iff_prefix]
    exact prefix_append ..
  have isThere : trailer.isPrefixOf (text.drop (header ++ sep ++ body).length) = true := by
    rw [atTrailer, drop_left, isPrefixOf_iff_prefix]
    exact prefix_append ..
  have total : (header ++ sep ++ body ++ trailer ++ sep).length =
      (header ++ sep ++ body).length + trailer.length + sep.length := by simp only [length_append]
  have remaining : dwordSub ((header ++ sep ++ body).length + trailer.length)
      ((header ++ sep).length + trailer.length) = (groups sep 0 bytes).length + sep.length := by
    simp only [length_append, bodyLength, dwordSub] at small ⊢
    omega
  have decoded := base64Blocks_groups isSeparator 0 notEmpty
    (trailer ++ (sep ++ 0 :: rest)) (by simp only [length_append] at small; omega)
  rw [base64WithHeaderAndTrailerToBinaryA, if_pos (by simp only [length_append]; omega), found]
  dsimp only
  rw [total, trimmed, Nat.add_sub_cancel, if_pos isThere, Nat.zero_add, skipped, remaining,
    base64ToBinaryA]
  rw [show text.drop (header ++ sep).length = _ from atBody ▸ drop_left, decoded]

/-- The text is short enough for an `int`. -/
theorem length_groups_lt (isSeparator : IsSeparator sep) (small : bytes.length < 0x10000000) :
    (body sep bytes).length < 0x40000000 := by
  have written := length_groups sep 0 bytes
  rw [Nat.mul_zero, show leading sep 0 bytes = [] from if_neg fun all => all.1 rfl,
    nil_append] at written
  rw [length_append, written]
  obtain rfl | rfl | rfl := isSeparator <;> simp <;> omega

/-- What the round trip needs of a header and a trailer. -/
structure IsFrame (header trailer : List UInt8) : Prop where
  headerNotNull : ∀ char ∈ header, char ≠ 0
  trailerNotNull : ∀ char ∈ trailer, char ≠ 0
  headerNotEmpty : header ≠ []
  ends : ∃ front last, trailer = front ++ [last] ∧ Printing last
  short : header.length + trailer.length < 100

theorem IsFrame.of_last {trailer : List UInt8} (notNull : ∀ char ∈ header ++ trailer, char ≠ 0)
    (notEmpty : header ≠ []) (ends : trailer = trailer.dropLast ++ [0x2d])
    (short : header.length + trailer.length < 100) : IsFrame header trailer :=
  have ⟨headerNotNull, trailerNotNull⟩ := forall_mem_append.mp notNull
  ⟨headerNotNull, trailerNotNull, notEmpty, ⟨_, _, ends, by decide, by decide, by decide⟩, short⟩

theorem format_cases {format : UInt32} (base64 : format ∈ ([0, 1, 3, 9] : List UInt32)) :
    (format = 1 ∧ headerAndTrailer format = none ∧
      ∀ text count, count ≠ 0 →
        cryptStringToBinaryA text count format = base64ToBinaryA text count) ∨
    (format ≠ 1 ∧ ∃ header trailer, headerAndTrailer format = some (header, trailer) ∧
      IsFrame header trailer ∧
      ∀ text count, count ≠ 0 →
        cryptStringToBinaryA text count format =
          base64WithHeaderAndTrailerToBinaryA text count header trailer) := by
  simp only [mem_cons, not_mem_nil, or_false] at base64
  obtain rfl | rfl | rfl | rfl := base64
  on_goal 2 =>
    exact .inl ⟨rfl, rfl, fun text count notZero => by
      rw [cryptStringToBinaryA, if_neg notZero]
      rfl⟩
  all_goals
    refine .inr ⟨by decide, _, _, rfl, .of_last ?_ ?_ ?_ ?_, fun text count notZero => ?_⟩
    on_goal 5 =>
      rw [cryptStringToBinaryA, if_neg notZero]
      rfl
    all_goals decide +kernel

/-- The size that `CryptBinaryToStringA` asks for. -/
def sizeNeeded (bytes : List UInt8) (dwFlags : UInt32) : Nat :=
  charsNeeded ((body (separator dwFlags) bytes).length + 1 + spare (separator dwFlags) bytes)
    (separator dwFlags) (headerAndTrailer (formatOf dwFlags))

section Calls

variable {bytes : List UInt8} {dwFlags : UInt32}
variable (base64 : formatOf dwFlags ∈ ([0, 1, 3, 9] : List UInt32))
include base64

/-- The formats are those of `BinaryToBase64A`. -/
theorem cryptBinaryToStringA_base64 (pszString : Option (List UInt8)) (pcchString : Nat) :
    cryptBinaryToStringA bytes dwFlags pszString pcchString =
      binaryToBase64A bytes dwFlags pszString pcchString := by
  simp only [mem_cons, not_mem_nil, or_false] at base64
  rw [cryptBinaryToStringA, if_neg, if_pos]
  · tauto
  · rintro isBinary
    rw [isBinary] at base64
    exact absurd base64 (by decide)

variable (notEmpty : bytes ≠ []) (small : bytes.length < 0x10000000)
include notEmpty small

theorem cryptBinaryToStringA_size :
    cryptBinaryToStringA bytes dwFlags none 0 = some ⟨.ok (), sizeNeeded bytes dwFlags, none⟩ := by
  have positive : ¬sizeNeeded bytes dwFlags ≤ 0 := by
    unfold sizeNeeded
    cases headerAndTrailer (formatOf dwFlags) <;> simp only [charsNeeded] <;> omega
  rw [cryptBinaryToStringA_base64 base64, binaryToBase64A, needed_eq _ notEmpty small]
  exact if_neg positive

variable {sep text : List UInt8} (isSep : separator dwFlags = sep)
include isSep

theorem cryptBinaryToStringA_text (buffer : List UInt8) :
    cryptBinaryToStringA bytes dwFlags (some buffer) (sizeNeeded bytes dwFlags) =
      (writeText bytes sep buffer (sizeNeeded bytes dwFlags)
        (headerAndTrailer (formatOf dwFlags))).map
          fun (buffer, charsNeeded) => ⟨.ok (), charsNeeded - 1, some buffer⟩ := by
  subst isSep
  rw [cryptBinaryToStringA_base64 base64, binaryToBase64A, needed_eq _ notEmpty small]
  exact if_pos le_rfl

theorem roundTrips_of_text (notNull : ∀ char ∈ text, char ≠ 0)
    (written : ∀ buffer : List UInt8, buffer.length = sizeNeeded bytes dwFlags →
      ∃ rest, writeText bytes sep buffer (sizeNeeded bytes dwFlags)
        (headerAndTrailer (formatOf dwFlags)) = some (text ++ 0 :: rest, text.length + 1))
    (decoded : ∀ rest, cryptStringToBinaryA (text ++ 0 :: rest) text.length
      (formatOf dwFlags) = .ok bytes) : RoundTrips bytes dwFlags := by
  refine ⟨_, cryptBinaryToStringA_size base64 notEmpty small, fun buffer length => ?_⟩
  obtain ⟨rest, written⟩ := written buffer length
  have count := strlen_append notNull rest
  refine ⟨text ++ 0 :: rest, ?_, ?_⟩
  · rw [cryptBinaryToStringA_text base64 notEmpty small isSep, written, count]
    rfl
  · rw [count]
    exact decoded rest

theorem not_roundTrips_of_text (notNull : ∀ char ∈ text, char ≠ 0)
    (written : ∀ buffer : List UInt8, buffer.length = sizeNeeded bytes dwFlags →
      ∃ rest charsNeeded', text.length + 1 < charsNeeded' ∧
        writeText bytes sep buffer (sizeNeeded bytes dwFlags)
          (headerAndTrailer (formatOf dwFlags)) = some (text ++ 0 :: rest, charsNeeded')) :
    ¬RoundTrips bytes dwFlags := by
  rintro ⟨_, sizing, fills⟩
  rw [cryptBinaryToStringA_size base64 notEmpty small] at sizing
  cases sizing
  obtain ⟨_, filled, -⟩ := fills (.replicate (sizeNeeded bytes dwFlags) 0) (by simp)
  obtain ⟨_, _, _, written⟩ :=
    written (.replicate (sizeNeeded bytes dwFlags) 0) (by simp)
  rw [cryptBinaryToStringA_text base64 notEmpty small isSep, written] at filled
  injection filled with filled
  injection filled with _ count isText
  cases isText
  rw [strlen_append notNull] at count
  omega

theorem roundTrips_plain (isPlain : headerAndTrailer (formatOf dwFlags) = none)
    (decoder : ∀ text count, count ≠ 0 →
      cryptStringToBinaryA text count (formatOf dwFlags) = base64ToBinaryA text count) :
    RoundTrips bytes dwFlags ↔ spare sep bytes = 0 := by
  have isSeparator := isSep ▸ isSeparator_separator dwFlags
  have lengths := length_groups_lt isSeparator small
  have size : sizeNeeded bytes dwFlags = (body sep bytes).length + 1 + spare sep bytes := by
    rw [sizeNeeded, isPlain, charsNeeded, isSep]
  have notNull : ∀ char ∈ body sep bytes, char ≠ 0 :=
    forall_mem_append.mpr ⟨groups_notNull isSeparator.notNull 0 bytes, isSeparator.notNull⟩
  constructor
  · contrapose
    intro _
    refine not_roundTrips_of_text base64 notEmpty small isSep notNull fun buffer length => ?_
    obtain ⟨rest, written⟩ := writeText_plain notEmpty small length size
    rw [isPlain]
    exact ⟨rest, _, by omega, written⟩
  · intro noSpare
    refine roundTrips_of_text base64 notEmpty small isSep notNull (fun _ length => ?_)
      fun rest => ?_
    · obtain ⟨rest, written⟩ := writeText_plain notEmpty small length size
      rw [isPlain, written, size, noSpare]
      exact ⟨rest, rfl⟩
    · obtain ⟨_, _, more, -⟩ := groups_cons sep 0 notEmpty
      rw [decoder _ _ (by simp [more]), base64ToBinaryA, append_assoc, length_append]
      rw [length_append] at lengths
      rw [base64Blocks_groups isSeparator 0 notEmpty (0 :: rest) (by omega)]

/-- With a header, the text is read back if there is room to spare for at most one
character. -/
theorem roundTrips_framed {header trailer : List UInt8}
    (isFramed : headerAndTrailer (formatOf dwFlags) = some (header, trailer))
    (isFrame : IsFrame header trailer)
    (decoder : ∀ text count, count ≠ 0 →
      cryptStringToBinaryA text count (formatOf dwFlags) =
        base64WithHeaderAndTrailerToBinaryA text count header trailer) :
    RoundTrips bytes dwFlags ↔ spare sep bytes ≤ 1 := by
  have isSeparator := isSep ▸ isSeparator_separator dwFlags
  have lengths := length_groups_lt isSeparator small
  obtain ⟨headerNotNull, trailerNotNull, headerNotEmpty, ⟨_, _, ends, printing⟩, _⟩ := isFrame
  have size : sizeNeeded bytes dwFlags = (body sep bytes).length + 1 + spare sep bytes +
      (header.length + sep.length) + (trailer.length + sep.length) := by
    rw [sizeNeeded, isFramed, charsNeeded, isSep]
  have written {buffer : List UInt8} (length : buffer.length = sizeNeeded bytes dwFlags) :=
    writeText_framed notEmpty small header trailer length size
  rw [← isFramed] at written
  have atMost : spare sep bytes ≤ 2 := by
    unfold spare
    obtain isSep | isSep | isSep := isSeparator <;> rw [isSep] <;> split <;> simp
  have frontNotNull : ∀ char ∈ headed header sep bytes, char ≠ 0 := by
    simp only [forall_mem_append]
    exact ⟨⟨headerNotNull, isSeparator.notNull⟩, groups_notNull isSeparator.notNull 0 bytes,
      isSeparator.notNull⟩
  have frontLength : (headed header sep bytes).length =
      header.length + sep.length + (body sep bytes).length := by rw [length_append, length_append]
  constructor
  · contrapose
    intro _
    refine not_roundTrips_of_text base64 notEmpty small isSep frontNotNull fun buffer length => ?_
    obtain ⟨rest, room, written⟩ := written length
    obtain ⟨rest', charsNeeded', _, placed⟩ :=
      writeTrailer_interrupted (headed header sep bytes) trailer sep rest
        (sizeNeeded bytes dwFlags) (by omega)
    refine ⟨rest', charsNeeded', by omega, ?_⟩
    rw [written, show spare sep bytes = 2 by omega]
    exact placed
  · intro little
    refine roundTrips_of_text base64 notEmpty small isSep
      (forall_mem_append.mpr ⟨forall_mem_append.mpr ⟨frontNotNull, trailerNotNull⟩,
        isSeparator.notNull⟩) (fun buffer length => ?_) fun rest => ?_
    · obtain ⟨rest, room, written⟩ := written length
      obtain ⟨rest', placed⟩ := writeTrailer_fits frontNotNull
        (by simp [headerNotEmpty]) trailer sep rest little room
      refine ⟨rest', ?_⟩
      rw [written, show sizeNeeded bytes dwFlags =
          (headed header sep bytes ++ trailer ++ sep).length + 1 + spare sep bytes by
        rw [length_append, length_append]
        omega]
      exact placed
    · have positive := length_pos_iff.mpr headerNotEmpty
      rw [decoder _ _ (by rw [length_append, length_append, frontLength]; omega)]
      have two : sep.length ≤ 2 := isSeparator.length_le
      exact base64WithHeaderAndTrailerToBinaryA_text ends printing isSeparator notEmpty rest
        (by rw [length_append, frontLength]; omega)

end Calls

/-- Without an overflow, a byte string makes the round trip unless room is asked for a
separator that is not written; a single character is corrected if there is a header. -/
theorem roundTrips_iff {bytes : List UInt8} (notEmpty : bytes ≠ []) {dwFlags : UInt32}
    (base64 : formatOf dwFlags ∈ ([0, 1, 3, 9] : List UInt32)) :
    RoundTrips bytes dwFlags ↔
      bytes.length < 0x10000000 ∧
        (¬Overestimated bytes.length ∨ separator dwFlags = [] ∨
          (separator dwFlags = [0x0a] ∧ formatOf dwFlags ≠ 1)) := by
  by_cases small : bytes.length < 0x10000000
  · have isSeparator := isSeparator_separator dwFlags
    have spareEq : spare (separator dwFlags) bytes =
        if Overestimated bytes.length then (separator dwFlags).length else 0 := rfl
    obtain ⟨isPlain, frame, decoder⟩ | ⟨notPlain, _, _, frame, isFrame, decoder⟩ :=
      format_cases base64
    · rw [roundTrips_plain base64 notEmpty small rfl frame decoder, spareEq]
      by_cases more : Overestimated bytes.length
      · simp [small, more, isPlain]
      · simp [small, more]
    · rw [roundTrips_framed base64 notEmpty small rfl frame isFrame decoder, spareEq]
      by_cases more : Overestimated bytes.length
      · obtain isSep | isSep | isSep := isSeparator <;> simp [small, more, isSep, notPlain]
      · simp [small, more]
  · refine iff_of_false ?_ fun both => small both.1
    rintro ⟨_, sizing, -⟩
    rw [cryptBinaryToStringA_base64 base64, binaryToBase64A, needed, if_pos (by omega)] at sizing
    cases sizing

/-- A certificate of 48 bytes, in one line that `\n` ends, is read back. -/
theorem roundTrips_certificate :
    Overestimated (List.replicate 48 (7 : UInt8)).length ∧
      RoundTrips (.replicate 48 7) 0x80000000 :=
  ⟨by decide, (roundTrips_iff (by decide) (by decide)).mpr
    ⟨by decide, .inr (.inr ⟨by decide, by decide⟩)⟩⟩

/-- For 48 bytes and the lines `\r\n` two characters too many are reported. -/
theorem roundTrips_fails :
    (cryptBinaryToStringA (.replicate 48 7) 1 none 0).map StringResult.pcchString = some 69 ∧
    (cryptBinaryToStringA (.replicate 48 7) 1 (some (.replicate 69 0x20)) 69).map
        (fun result => (result.pcchString, result.pszString.map strlen)) =
      some (68, some 66) ∧
    ¬RoundTrips (.replicate 48 7) 1 := by
  refine ⟨by decide +kernel, by decide +kernel, fun roundTrips => ?_⟩
  have noSpare := (roundTrips_plain (by decide) (by decide) (by decide) rfl rfl
    fun text count notZero => by rw [cryptStringToBinaryA, if_neg notZero]; rfl).mp roundTrips
  exact absurd noSpare (by decide)

end Winex.Base64
