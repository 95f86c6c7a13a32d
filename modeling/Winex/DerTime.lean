import Winex.DecimalText
import Winex.DerLength
import Winex.TimeFields

namespace Winex.Asn

open DecimalText List NtTime

/-!
# Encoded times

`CRYPT_AsnEncodeChoiceOfTime` writes two digits of a year in the range of `UTCTime`, and
four of any other.  The decoder takes the first two-digit years to belong to this
century.
-/

/-- A `SYSTEMTIME`, without the day of the week, which nothing here reads. -/
structure SystemTime where
  wYear : Nat
  wMonth : Nat
  wDay : Nat
  wHour : Nat
  wMinute : Nat
  wSecond : Nat
  wMilliseconds : Nat
  deriving DecidableEq

/-- `FileTimeToSystemTime` and `SystemTimeToFileTime`.  A file time counts units of 100
nanoseconds. -/
structure TimeConversion where
  toSystemTime : Nat → Option SystemTime
  toFileTime : SystemTime → Option Nat

/-- The bytes of a text. -/
def textBytes (text : List Char) : List UInt8 :=
  text.map fun char => UInt8.ofNat char.toNat

/-- What `snprintf` writes of the fields behind the year. -/
def timeText (sysTime : SystemTime) : List Char :=
  padded 2 sysTime.wMonth ++ padded 2 sysTime.wDay ++ padded 2 sysTime.wHour ++
    padded 2 sysTime.wMinute ++ padded 2 sysTime.wSecond ++ ['Z']

variable (conversion : TimeConversion)

/-- `CRYPT_AsnEncodeUtcTime` into a buffer of the 15 bytes it asks for. -/
def encodeUtcTime (fileTime : Nat) : Option (List UInt8) :=
  match conversion.toSystemTime fileTime with
  | none => none
  | some sysTime =>
    -- the year has two digits
    if sysTime.wYear < 1950 ∨ 2050 < sysTime.wYear then none
    else
      let year := if 2000 ≤ sysTime.wYear then sysTime.wYear - 2000 else sysTime.wYear - 1900
      some (0x17 :: 13 :: (textBytes (padded 2 year ++ timeText sysTime)).take 13)

/-- `CRYPT_AsnEncodeGeneralizedTime` into a buffer of the 17 bytes it asks for. -/
def encodeGeneralizedTime (fileTime : Nat) : Option (List UInt8) :=
  match conversion.toSystemTime fileTime with
  | none => none
  | some sysTime =>
    some (0x18 :: 15 :: (textBytes (padded 4 sysTime.wYear ++ timeText sysTime)).take 15)

/-- `CRYPT_AsnEncodeChoiceOfTime`. -/
def encodeChoiceOfTime (fileTime : Nat) : Option (List UInt8) :=
  match conversion.toSystemTime fileTime with
  | none => none
  | some sysTime =>
    if 1950 ≤ sysTime.wYear ∧ sysTime.wYear ≤ 2050 then encodeUtcTime conversion fileTime
    else encodeGeneralizedTime conversion fileTime

/-- The pointer, the length and the result that `CRYPT_TIME_GET_DIGITS` changes. -/
structure TimeCursor where
  position : Nat
  len : Nat
  ret : Bool

/-- `isdigit` -/
def isDigitByte (byte : UInt8) : Bool :=
  0x30 ≤ byte.toNat && byte.toNat ≤ 0x39

/-- `CRYPT_TIME_GET_DIGITS`, with the word read so far. -/
def timeGetDigits (input : Input) : Nat → TimeCursor → Nat → Nat × TimeCursor
  | 0, cursor, word => (word, cursor)
  | count + 1, cursor, word =>
    if cursor.len = 0 then (word, cursor)
    else if isDigitByte (input cursor.position) then
      timeGetDigits input count ⟨cursor.position + 1, cursor.len - 1, cursor.ret⟩
        ((word * 10 + ((input cursor.position).toNat - 0x30)) % 0x10000)
    else timeGetDigits input count ⟨cursor.position, cursor.len - 1, false⟩ word

/-- The hours and minutes of a time zone added to or taken from a time. -/
def shiftTime (plus : Bool) (hours minutes : Nat) (sysTime : SystemTime) : SystemTime :=
  if plus then
    { sysTime with
      wHour := (sysTime.wHour + hours) % 0x10000
      wMinute := (sysTime.wMinute + minutes) % 0x10000 }
  else
    let sysTime :=
      if sysTime.wHour < hours then
        { sysTime with
          wDay := (sysTime.wDay + 0xffff) % 0x10000
          wHour := 24 - (hours - sysTime.wHour) }
      else { sysTime with wHour := sysTime.wHour - hours }
    if sysTime.wMinute < minutes then
      { sysTime with
        wHour := (sysTime.wHour + 0xffff) % 0x10000
        wMinute := 60 - (minutes - sysTime.wMinute) }
    else { sysTime with wMinute := sysTime.wMinute - minutes }

variable (input : Input)

/-- `CRYPT_AsnDecodeTimeZone` -/
def decodeTimeZone (position len : Nat) (sysTime : SystemTime) : Except Failure SystemTime :=
  if 3 ≤ len ∧ (input position = 0x2b ∨ input position = 0x2d) then
    let (hours, cursor) := timeGetDigits input 2 ⟨position + 1, len - 1, true⟩ 0
    if cursor.ret ∧ 24 ≤ hours then .error .corrupt
    else
      let (minutes, cursor) :=
        if 2 ≤ cursor.len then timeGetDigits input 2 cursor 0 else (0, cursor)
      if ¬cursor.ret ∨ 60 ≤ minutes then .error .corrupt
      else .ok (shiftTime (input position = 0x2b) hours minutes sysTime)
  else .ok sysTime

/-- The seconds of a `UTCTime`, of which one or both digits may be missing. -/
def utcSeconds (cursor : TimeCursor) : Nat × TimeCursor :=
  if 2 ≤ cursor.len ∧ isDigitByte (input cursor.position) ∧
      isDigitByte (input (cursor.position + 1)) then
    timeGetDigits input 2 cursor 0
  else if isDigitByte (input cursor.position) then timeGetDigits input 1 cursor 0
  else (0, cursor)

/-- `CRYPT_AsnDecodeUtcTimeInternal`, up to the conversion to a file time. -/
def decodeUtcTimeInternal (cbEncoded : Nat) : Except Failure SystemTime :=
  if input 0 ≠ 0x17 then .error .badTag
  else if cbEncoded ≤ 1 then .error .eod
  -- long-form date strings really can't be valid
  else if 0x7f < (input 1).toNat then .error .corrupt
  else if (input 1).toNat < 10 then .error .corrupt
  else
    let (year, cursor) := timeGetDigits input 2 ⟨2, (input 1).toNat, true⟩ 0
    let year := if 50 ≤ year then year + 1900 else year + 2000
    let (month, cursor) := timeGetDigits input 2 cursor 0
    let (day, cursor) := timeGetDigits input 2 cursor 0
    let (hour, cursor) := timeGetDigits input 2 cursor 0
    let (minute, cursor) := timeGetDigits input 2 cursor 0
    if ¬cursor.ret then .error .corrupt
    else if cursor.len = 0 then .ok ⟨year, month, day, hour, minute, 0, 0⟩
    else
      let (second, cursor) := utcSeconds input cursor
      decodeTimeZone input cursor.position cursor.len ⟨year, month, day, hour, minute, second, 0⟩

/-- The fraction of a second of a generalized time. -/
def milliseconds (cursor : TimeCursor) : Nat × TimeCursor :=
  if cursor.ret ∧ 0 < cursor.len ∧
      (input cursor.position = 0x2e ∨ input cursor.position = 0x2c) then
    timeGetDigits input (min (cursor.len - 1) 3) ⟨cursor.position + 1, cursor.len - 1, cursor.ret⟩ 0
  else (0, cursor)

/-- `CRYPT_AsnDecodeGeneralizedTime`, up to the conversion to a file time. -/
def decodeGeneralizedTime (cbEncoded : Nat) : Except Failure SystemTime :=
  if input 0 ≠ 0x18 then .error .badTag
  else if cbEncoded ≤ 1 then .error .eod
  -- long-form date strings really can't be valid
  else if 0x7f < (input 1).toNat then .error .corrupt
  else if (input 1).toNat < 10 then .error .corrupt
  else
    let (year, cursor) := timeGetDigits input 4 ⟨2, (input 1).toNat, true⟩ 0
    let (month, cursor) := timeGetDigits input 2 cursor 0
    let (day, cursor) := timeGetDigits input 2 cursor 0
    let (hour, cursor) := timeGetDigits input 2 cursor 0
    if ¬cursor.ret then .error .corrupt
    else if cursor.len = 0 then .ok ⟨year, month, day, hour, 0, 0, 0⟩
    else
      let (minute, cursor) := timeGetDigits input 2 cursor 0
      let (second, cursor) :=
        if cursor.ret ∧ 0 < cursor.len then timeGetDigits input 2 cursor 0 else (0, cursor)
      let (wMilliseconds, cursor) := milliseconds input cursor
      if ¬cursor.ret then .error .corrupt
      else
        decodeTimeZone input cursor.position cursor.len
          ⟨year, month, day, hour, minute, second, wMilliseconds⟩

/-- `CRYPT_AsnDecodeChoiceOfTimeInternal`, up to the conversion to a file time. -/
def decodeChoiceOfTimeInternal (cbEncoded : Nat) : Except Failure SystemTime :=
  if input 0 = 0x17 then decodeUtcTimeInternal input cbEncoded
  else if input 0 = 0x18 then decodeGeneralizedTime input cbEncoded
  else .error .badTag

/-- `CRYPT_AsnDecodeChoiceOfTime` into a file time. -/
def decodeChoiceOfTime (cbEncoded : Nat) : Option Nat :=
  match decodeChoiceOfTimeInternal input cbEncoded with
  | .error _ => none
  | .ok sysTime => conversion.toFileTime sysTime

/-- The fields as ntdll has them. -/
def SystemTime.fields (sysTime : SystemTime) : TimeFields :=
  ⟨sysTime.wYear, sysTime.wMonth, sysTime.wDay, sysTime.wHour, sysTime.wMinute, sysTime.wSecond,
    sysTime.wMilliseconds, 0⟩

/-- A date of the Gregorian calendar. -/
def SystemTime.Valid (sysTime : SystemTime) : Prop :=
  (1601 ≤ sysTime.wYear ∧ sysTime.wYear ≤ 9999) ∧ sysTime.fields.InRange

/-- The fields have as many digits as are written. -/
structure SystemTime.InRange (sysTime : SystemTime) : Prop where
  month : sysTime.wMonth < 100
  day : sysTime.wDay < 100
  hour : sysTime.wHour < 24
  minute : sysTime.wMinute < 60
  second : sysTime.wSecond < 60

/-- A file time truncated to whole seconds. -/
def wholeSeconds (fileTime : Nat) : Nat :=
  fileTime - fileTime % 10000000

/-- The two conversions are inverse to each other on valid dates, up to milliseconds; a time
truncated to whole seconds is the one without its milliseconds. -/
structure TimeConversion.Inverse (conversion : TimeConversion) : Prop where
  inRange : ∀ fileTime sysTime, conversion.toSystemTime fileTime = some sysTime →
    sysTime.fields.InRange
  toFileTime : ∀ fileTime sysTime, conversion.toSystemTime fileTime = some sysTime →
    sysTime.Valid → conversion.toFileTime sysTime = some (fileTime - fileTime % 10000)
  toSystemTime : ∀ sysTime fileTime, sysTime.Valid →
    conversion.toFileTime sysTime = some fileTime → conversion.toSystemTime fileTime = some sysTime
  wholeSeconds : ∀ fileTime sysTime, conversion.toSystemTime fileTime = some sysTime →
    conversion.toSystemTime (wholeSeconds fileTime) = some { sysTime with wMilliseconds := 0 }

/-- The encoding is read back as the time truncated to whole seconds. -/
def TimeRoundTrips (fileTime : Nat) : Prop :=
  ∃ bytes, encodeChoiceOfTime conversion fileTime = some bytes ∧
    ∀ input : Input, input.Holds bytes →
      decodeChoiceOfTime conversion input bytes.length = some (wholeSeconds fileTime)

theorem digit_byte {char : Char} (isDigit : char.isDigit = true) :
    (UInt8.ofNat char.toNat).toNat = char.toNat ∧ 0x30 ≤ char.toNat ∧ char.toNat ≤ 0x39 := by
  have range : 0x30 ≤ char.toNat ∧ char.toNat ≤ 0x39 := by
    simp only [Char.isDigit, Bool.and_eq_true, decide_eq_true_eq] at isDigit
    exact isDigit
  rw [UInt8.toNat_ofNat']
  omega

variable {input} {position : Nat} {sysTime : SystemTime}

variable {len number cbEncoded : Nat}

/-- Digits in the input are read as the number they denote, in 16 bits. -/
theorem timeGetDigits_text {text : List Char} (allDigits : ∀ char ∈ text, char.isDigit = true)
    (holds : (input.drop position).Holds (textBytes text)) (long : text.length ≤ len) (ret : Bool)
    (word : Nat) :
    timeGetDigits input text.length ⟨position, len, ret⟩ (word % 0x10000) =
      (Nat.ofDigitChars 10 text word % 0x10000,
        ⟨position + text.length, len - text.length, ret⟩) := by
  induction text generalizing position len word with
  | nil => rfl
  | cons char text ih =>
    obtain ⟨isDigit, restDigits⟩ := forall_mem_cons.mp allDigits
    obtain ⟨here, rest⟩ := Input.holds_cons.mp holds
    obtain ⟨byte, low, high⟩ := digit_byte isDigit
    have isByte : isDigitByte (input position) = true := by
      simp [isDigitByte, here, byte, low, high]
    rw [length_cons] at long
    have notEmpty : ¬len = 0 := by omega
    have step : (word % 0x10000 * 10 + ((input position).toNat - 0x30)) % 0x10000 =
        (10 * word + (char.toNat - '0'.toNat)) % 0x10000 := by
      have zero : '0'.toNat = 0x30 := rfl
      rw [here, byte]
      omega
    have fewer : text.length ≤ len - 1 := by omega
    rw [length_cons, timeGetDigits]
    rw [if_neg notEmpty, if_pos isByte, step, ih restDigits rest fewer, Nat.ofDigitChars_cons]
    congr 2 <;> omega

theorem timeGetDigits_padded {width : Nat} (small : number < 10 ^ (width + 1))
    (word : number < 0x10000)
    (holds : (input.drop position).Holds (textBytes (padded (width + 1) number)))
    (long : width + 1 ≤ len) :
    timeGetDigits input (width + 1) ⟨position, len, true⟩ 0 =
      (number, ⟨position + (width + 1), len - (width + 1), true⟩) := by
  have length := padded_length small
  have read := timeGetDigits_text (fun _ => isDigit_of_mem_padded) holds
    (length.trans_le long) true 0
  rw [length, ofDigitChars_padded, Nat.mod_eq_of_lt word] at read
  exact read

theorem isDigitByte_padded (small : number < 100)
    (holds : (input.drop position).Holds (textBytes (padded 2 number))) :
    isDigitByte (input position) ∧ isDigitByte (input (position + 1)) := by
  have two : (padded 2 number).length = 2 := padded_length small
  have digits : ∀ char ∈ padded 2 number, char.isDigit = true := fun _ => isDigit_of_mem_padded
  obtain ⟨first, second, text⟩ := length_eq_two.mp two
  rw [text] at holds digits
  have byte {char : Char} (member : char ∈ [first, second]) :
      isDigitByte (UInt8.ofNat char.toNat) := by
    obtain ⟨value, low, high⟩ := digit_byte (digits char member)
    simp [isDigitByte, value, low, high]
  obtain ⟨here, rest⟩ := Input.holds_cons.mp holds
  rw [here, (Input.holds_cons.mp rest).1]
  exact ⟨byte (by simp), byte (by simp)⟩

/-- The text of the fields in a memory, field by field. -/
theorem holds_timeText (inRange : sysTime.InRange)
    (holds : (input.drop position).Holds (textBytes (timeText sysTime))) :
    (input.drop position).Holds (textBytes (padded 2 sysTime.wMonth)) ∧
      (input.drop (position + 2)).Holds (textBytes (padded 2 sysTime.wDay)) ∧
      (input.drop (position + 4)).Holds (textBytes (padded 2 sysTime.wHour)) ∧
      (input.drop (position + 6)).Holds (textBytes (padded 2 sysTime.wMinute)) ∧
      (input.drop (position + 8)).Holds (textBytes (padded 2 sysTime.wSecond)) ∧
      input (position + 10) = 0x5a := by
  obtain ⟨month, day, hour, minute, second⟩ := inRange
  have length {number : Nat} (small : number < 100) : (textBytes (padded 2 number)).length = 2 := by
    rw [textBytes, length_map]
    exact padded_length small
  have texts : textBytes (timeText sysTime) =
      textBytes (padded 2 sysTime.wMonth) ++ (textBytes (padded 2 sysTime.wDay) ++
        (textBytes (padded 2 sysTime.wHour) ++ (textBytes (padded 2 sysTime.wMinute) ++
          (textBytes (padded 2 sysTime.wSecond) ++ [0x5a])))) := by simp [textBytes, timeText]
  rw [texts] at holds
  simp only [Input.holds_append, Input.drop_drop, length month, length day,
    length (hour.trans (by decide)), length (minute.trans (by decide)),
    length (second.trans (by decide)), Input.holds_singleton, Nat.add_assoc,
    Nat.reduceAdd] at holds
  exact holds

theorem decodeTimeZone_utc (input : Input) (position : Nat) (sysTime : SystemTime) :
    decodeTimeZone input position 1 sysTime = .ok sysTime :=
  if_neg fun zone => absurd zone.1 (by decide)

theorem timeGetDigits_field {position : Nat} (small : number < 100)
    (holds : (input.drop position).Holds (textBytes (padded 2 number))) :
    timeGetDigits input 2 ⟨position, len + 2, true⟩ 0 = (number, ⟨position + 2, len, true⟩) :=
  timeGetDigits_padded small (small.trans (by decide)) holds (Nat.le_add_left ..)

/-- A `UTCTime` as it is written is read with the year in the decoder's century. -/
theorem decodeUtcTimeInternal_text (inRange : sysTime.InRange) {year : Nat} (twoDigits : year < 100)
    (whole : 1 < cbEncoded) (tag : input 0 = 0x17) (length : input 1 = 13)
    (yearText : (input.drop 2).Holds (textBytes (padded 2 year)))
    (rest : (input.drop 4).Holds (textBytes (timeText sysTime))) :
    decodeUtcTimeInternal input cbEncoded =
      .ok { sysTime with
        wYear := if 50 ≤ year then year + 1900 else year + 2000
        wMilliseconds := 0 } := by
  obtain ⟨month, day, hour, minute, second, -⟩ := holds_timeText inRange rest
  obtain ⟨monthSmall, daySmall, hourSmall, minuteSmall, secondSmall⟩ := inRange
  have thirteen : (input 1).toNat = 13 := by rw [length]; rfl
  have seconds : utcSeconds input ⟨12, 3, true⟩ = (sysTime.wSecond, ⟨14, 1, true⟩) := by
    have digits := isDigitByte_padded (secondSmall.trans (by decide)) second
    rw [utcSeconds, if_pos ⟨by decide, digits⟩]
    exact timeGetDigits_field (secondSmall.trans (by decide)) second
  rw [decodeUtcTimeInternal, if_neg (not_not.mpr tag), if_neg (by omega), thirteen]
  simp only [timeGetDigits_field twoDigits yearText, timeGetDigits_field monthSmall month,
    timeGetDigits_field daySmall day, timeGetDigits_field (hourSmall.trans (by decide)) hour,
    timeGetDigits_field (minuteSmall.trans (by decide)) minute, Nat.reduceAdd, seconds,
    decodeTimeZone_utc]
  rfl

theorem decodeGeneralizedTime_text (inRange : sysTime.InRange) (fourDigits : sysTime.wYear < 10000)
    (whole : 1 < cbEncoded) (tag : input 0 = 0x18) (length : input 1 = 15)
    (yearText : (input.drop 2).Holds (textBytes (padded 4 sysTime.wYear)))
    (rest : (input.drop 6).Holds (textBytes (timeText sysTime))) :
    decodeGeneralizedTime input cbEncoded = .ok { sysTime with wMilliseconds := 0 } := by
  obtain ⟨month, day, hour, minute, second, zone⟩ := holds_timeText inRange rest
  obtain ⟨monthSmall, daySmall, hourSmall, minuteSmall, secondSmall⟩ := inRange
  have year : timeGetDigits input 4 ⟨2, 15, true⟩ 0 = (sysTime.wYear, ⟨6, 11, true⟩) :=
    timeGetDigits_padded fourDigits (fourDigits.trans (by decide)) yearText (by decide)
  have fifteen : (input 1).toNat = 15 := by rw [length]; rfl
  have fraction : milliseconds input ⟨16, 1, true⟩ = (0, ⟨16, 1, true⟩) := by
    refine if_neg fun point => ?_
    rw [zone] at point
    exact absurd point.2.2 (by decide)
  rw [decodeGeneralizedTime, if_neg (not_not.mpr tag), if_neg (by omega), fifteen]
  simp only [year, timeGetDigits_field monthSmall month, timeGetDigits_field daySmall day,
    timeGetDigits_field (hourSmall.trans (by decide)) hour,
    timeGetDigits_field (minuteSmall.trans (by decide)) minute,
    timeGetDigits_field (secondSmall.trans (by decide)) second, Nat.reduceAdd, Nat.ofNat_pos,
    and_self, if_true, fraction, decodeTimeZone_utc]
  rfl

theorem Input.Holds.header {tag length : UInt8} {bytes : List UInt8}
    (holds : input.Holds (tag :: length :: bytes)) :
    input 0 = tag ∧ input 1 = length ∧ (input.drop 2).Holds bytes :=
  have ⟨first, rest⟩ := (show input.Holds ([tag] ++ length :: bytes) from holds).append
  have ⟨second, others⟩ := Input.holds_cons.mp rest
  ⟨Input.holds_singleton.mp first, second, others⟩

theorem length_timeText (inRange : sysTime.InRange) : (timeText sysTime).length = 11 := by
  obtain ⟨month, day, hour, minute, second⟩ := inRange
  have length {number : Nat} (small : number < 100) : (padded 2 number).length = 2 :=
    padded_length small
  simp [timeText, length month, length day, length (hour.trans (by decide)),
    length (minute.trans (by decide)), length (second.trans (by decide))]

variable {conversion}

/-- What the decoder makes of an encoded time: all fields but the milliseconds, and of a
two-digit year the one in the decoder's century. -/
theorem decodeChoiceOfTimeInternal_encoded {fileTime : Nat}
    (converted : conversion.toSystemTime fileTime = some sysTime) (inRange : sysTime.InRange)
    (fourDigits : sysTime.wYear < 10000) :
    ∃ bytes, encodeChoiceOfTime conversion fileTime = some bytes ∧
      ∀ input : Input, input.Holds bytes →
        decodeChoiceOfTimeInternal input bytes.length =
          .ok { sysTime with
            wYear := if sysTime.wYear = 2050 then 1950 else sysTime.wYear
            wMilliseconds := 0 } := by
  have restLength : (textBytes (timeText sysTime)).length = 11 := by
    rw [textBytes, length_map, length_timeText inRange]
  have texts (first second : List Char) :
      textBytes (first ++ second) = textBytes first ++ textBytes second := map_append
  rw [encodeChoiceOfTime, converted]
  dsimp only
  by_cases utc : 1950 ≤ sysTime.wYear ∧ sysTime.wYear ≤ 2050
  · rw [if_pos utc, encodeUtcTime, converted]
    dsimp only
    rw [if_neg (by omega)]
    generalize yearEq :
      (if 2000 ≤ sysTime.wYear then sysTime.wYear - 2000 else sysTime.wYear - 1900) = year
    have twoDigits : year < 100 := by
      rw [← yearEq]
      split <;> omega
    have century : (if 50 ≤ year then year + 1900 else year + 2000) =
        if sysTime.wYear = 2050 then 1950 else sysTime.wYear := by
      rw [← yearEq]
      split <;> split <;> split <;> omega
    have yearLength : (textBytes (padded 2 year)).length = 2 := by
      rw [textBytes, length_map]
      exact padded_length twoDigits
    refine ⟨_, rfl, fun input holds => ?_⟩
    rw [texts, take_of_length_le (by rw [length_append, yearLength, restLength])] at holds ⊢
    obtain ⟨tag, length, text⟩ := holds.header
    obtain ⟨yearText, rest⟩ := text.append
    rw [yearLength, Input.drop_drop] at rest
    rw [decodeChoiceOfTimeInternal, if_pos tag, ← century]
    exact decodeUtcTimeInternal_text inRange twoDigits (by simp) tag length yearText rest
  · rw [if_neg utc, encodeGeneralizedTime, converted, if_neg (by omega : ¬sysTime.wYear = 2050)]
    have yearLength : (textBytes (padded 4 sysTime.wYear)).length = 4 := by
      rw [textBytes, length_map]
      exact padded_length fourDigits
    refine ⟨_, rfl, fun input holds => ?_⟩
    rw [texts, take_of_length_le (by rw [length_append, yearLength, restLength])] at holds ⊢
    obtain ⟨tag, length, text⟩ := holds.header
    obtain ⟨yearText, rest⟩ := text.append
    rw [yearLength, Input.drop_drop] at rest
    rw [decodeChoiceOfTimeInternal, if_neg (by rw [tag]; decide), if_pos tag]
    exact decodeGeneralizedTime_text inRange fourDigits (by simp) tag length yearText rest

theorem gregorianDays_le (year month : Int) : gregorianDays year month ≤ 31 := by
  unfold gregorianDays
  split_ifs <;> decide

theorem inRange_of_fields (inRange : sysTime.fields.InRange) : sysTime.InRange := by
  obtain ⟨month, day, hour, minute, second, -⟩ := inRange
  have := gregorianDays_le sysTime.wYear sysTime.wMonth
  simp only [SystemTime.fields] at *
  constructor <;> omega

/-- A time is read back, truncated to whole seconds, unless its year is 2050. -/
theorem timeRoundTrips_iff (inverse : conversion.Inverse)
    {fileTime : Nat} {sysTime : SystemTime}
    (converted : conversion.toSystemTime fileTime = some sysTime)
    (years : 1601 ≤ sysTime.wYear ∧ sysTime.wYear ≤ 9999) :
    TimeRoundTrips conversion fileTime ↔ sysTime.wYear ≠ 2050 := by
  obtain ⟨bytes, encoded, decoded⟩ := decodeChoiceOfTimeInternal_encoded converted
    (inRange_of_fields (inverse.inRange fileTime sysTime converted)) (by omega)
  have truncated := inverse.wholeSeconds fileTime sysTime converted
  have inRange := inverse.inRange _ _ truncated
  constructor
  · rintro ⟨_, othersEncoded, roundTrip⟩ last
    rw [encoded] at othersEncoded
    cases othersEncoded
    have back := roundTrip (.ofList bytes) (Input.holds_ofList bytes)
    rw [decodeChoiceOfTime, decoded _ (Input.holds_ofList bytes), if_pos last] at back
    -- 1950 is no leap year either, so the date is valid
    have valid : SystemTime.Valid { sysTime with wYear := 1950, wMilliseconds := 0 } := by
      refine ⟨by norm_num, inRange.1, ?_, inRange.3, inRange.4, inRange.5, inRange.6⟩
      simpa [SystemTime.fields, last, gregorianDays] using inRange.2
    have again := inverse.toSystemTime _ _ valid back
    rw [truncated] at again
    have sameYear := congrArg SystemTime.wYear (Option.some.inj again)
    dsimp only at sameYear
    omega
  · intro notLast
    refine ⟨bytes, encoded, fun input holds => ?_⟩
    rw [decodeChoiceOfTime, decoded input holds, if_neg notLast]
    refine (inverse.toFileTime _ _ truncated ⟨years, inRange⟩).trans (congrArg some ?_)
    unfold wholeSeconds
    omega

/-- What `FileTimeToSystemTime` makes of the fields. -/
def ofFields (fields : TimeFields) : SystemTime :=
  ⟨fields.year.toNat, fields.month.toNat, fields.day.toNat, fields.hour.toNat, fields.minute.toNat,
    fields.second.toNat, fields.milliseconds.toNat⟩

/-- The conversions of the Gregorian calendar, up to the last time that is not negative. -/
def gregorian : TimeConversion where
  toSystemTime fileTime :=
    if fileTime < 0x8000000000000000 then (rtlTimeToTimeFields fileTime).map ofFields else none
  toFileTime sysTime := (rtlTimeFieldsToTime sysTime.fields).map Int.toNat

theorem fields_ofFields {fields : TimeFields} (inRange : fields.InRange) (year : 0 ≤ fields.year) :
    (ofFields fields).fields = { fields with weekday := 0 } := by
  obtain ⟨month, day, hour, minute, second, milliseconds⟩ := inRange
  simp only [ofFields, SystemTime.fields]
  congr 1 <;> omega

/-- The fields of all times of the day of a time. -/
theorem gregorian_day {fileTime : Nat} {sysTime : SystemTime}
    (converted : gregorian.toSystemTime fileTime = some sysTime) :
    ∃ year curMonth days : Int, sysTime = ofFields (fieldsAt fileTime year curMonth days) ∧
      sysTime.fields = { fieldsAt fileTime year curMonth days with weekday := 0 } ∧
      (fieldsAt fileTime year curMonth days).InRange ∧
      rtlTimeFieldsToTime (fieldsAt fileTime year curMonth days) =
        some ↑(fileTime - fileTime % 10000) ∧
      gregorian.toSystemTime (wholeSeconds fileTime) =
        some (ofFields (fieldsAt ↑(wholeSeconds fileTime) year curMonth days)) := by
  simp only [gregorian, Option.ite_none_right_eq_some] at converted
  obtain ⟨below, isFields⟩ := converted
  obtain ⟨year, curMonth, days, later, ofDay⟩ :=
    fieldsAt_day (Int.natCast_nonneg fileTime) (by omega)
  obtain ⟨same, inRange, back⟩ := ofDay fileTime (by omega) (by omega) rfl
  have truncated := (ofDay (wholeSeconds fileTime) (by omega) (by unfold wholeSeconds; omega)
    (by unfold wholeSeconds; omega)).1
  rw [same] at isFields
  cases isFields
  refine ⟨year, curMonth, days, rfl, fields_ofFields inRange (by simp only [fieldsAt]; omega),
    inRange, back.trans (by congr 1; omega), ?_⟩
  simp only [gregorian]
  rw [truncated, if_pos (by unfold wholeSeconds; omega)]
  rfl

theorem gregorian_inverse : gregorian.Inverse where
  inRange fileTime sysTime converted := by
    obtain ⟨year, curMonth, days, -, isFields, inRange, -⟩ := gregorian_day converted
    rw [isFields]
    exact ⟨inRange.1, inRange.2, inRange.3, inRange.4, inRange.5, inRange.6⟩
  toFileTime fileTime sysTime converted _ := by
    obtain ⟨year, curMonth, days, -, isFields, -, back, -⟩ := gregorian_day converted
    simp only [gregorian, isFields]
    exact (congrArg (Option.map Int.toNat) back).trans rfl
  toSystemTime sysTime fileTime valid converted := by
    obtain ⟨t, isTime, nonneg, below, back⟩ := timeFields_of_date valid.2
      (by simpa [SystemTime.fields] using valid.1)
    simp only [gregorian, isTime] at converted ⊢
    cases converted
    rw [if_pos (by omega), Int.toNat_of_nonneg nonneg, back]
    rfl
  wholeSeconds fileTime sysTime converted := by
    obtain ⟨year, curMonth, days, rfl, -, -, -, truncated⟩ := gregorian_day converted
    rw [truncated]
    simp only [fieldsAt, ofFields, wholeSeconds]
    congr 2 <;> omega

/-- A time of the year 2000 is read back. -/
theorem timeRoundTrips_millennium :
    gregorian.toSystemTime 125911584012345678 = some ⟨2000, 1, 1, 0, 0, 1, 234⟩ ∧
      TimeRoundTrips gregorian 125911584012345678 :=
  have converted : gregorian.toSystemTime 125911584012345678 = some ⟨2000, 1, 1, 0, 0, 1, 234⟩ := by
    decide +kernel
  ⟨converted, (timeRoundTrips_iff gregorian_inverse converted (by decide)).mpr (by decide)⟩

/-- The first second of the year 2050 is read as that of the year 1950. -/
theorem timeRoundTrips_fails :
    gregorian.Inverse ∧
    gregorian.toSystemTime 141690816000000000 = some ⟨2050, 1, 1, 0, 0, 0, 0⟩ ∧
    (encodeChoiceOfTime gregorian 141690816000000000).map (fun bytes =>
      decodeChoiceOfTimeInternal (.ofList bytes) bytes.length) =
        some (.ok ⟨1950, 1, 1, 0, 0, 0, 0⟩) := by
  exact ⟨gregorian_inverse, by decide +kernel, by decide +kernel⟩

end Winex.Asn
