import Mathlib.Data.List.Basic
import Mathlib.Tactic.Common

namespace Winex.X500

/-!
# X.500 names as text

`CertNameToStrW` prints the attributes of a name, with quotes where the characters of a
value ask for it, and `CertStrToNameW` reads such a text.  Both work on decoded names
here: a value is its characters.
-/

/-- A string of `WCHAR`s. -/
abbrev WString :=
  List UInt16

/-- The attribute types that `oidInfoConstructors` has for the group of RDN attributes. -/
inductive Attribute where
  | commonName
  | localityName
  | organizationName
  | organizationalUnitName
  | emailAddr
  | countryName
  | stateOrProvinceName
  | streetAddress
  | title
  | givenName
  | initials
  | surName
  | domainComponent
  | description
  | postalCode
  | postOfficeBox
  | telephoneNumber
  | x21Address
  | dnQualifier
  deriving DecidableEq

/-- The string types that values are encoded with. -/
inductive StringType where
  | numeric
  | printable
  | ia5
  | bmp
  | utf8
  deriving DecidableEq

namespace Attribute

/-- `pwszName` of the first entry for an object identifier. -/
def name : Attribute → WString
  | commonName => [0x43, 0x4e]
  | localityName => [0x4c]
  | organizationName => [0x4f]
  | organizationalUnitName => [0x4f, 0x55]
  | emailAddr => [0x45]
  | countryName => [0x43]
  | stateOrProvinceName => [0x53]
  | streetAddress => [0x53, 0x54, 0x52, 0x45, 0x45, 0x54]
  | title => [0x54]
  | givenName => [0x47]
  | initials => [0x49]
  | surName => [0x53, 0x4e]
  | domainComponent => [0x44, 0x43]
  | description => [0x44, 0x65, 0x73, 0x63, 0x72, 0x69, 0x70, 0x74, 0x69, 0x6f, 0x6e]
  | postalCode => [0x50, 0x6f, 0x73, 0x74, 0x61, 0x6c, 0x43, 0x6f, 0x64, 0x65]
  | postOfficeBox => [0x50, 0x4f, 0x42, 0x6f, 0x78]
  | telephoneNumber => [0x50, 0x68, 0x6f, 0x6e, 0x65]
  | x21Address => [0x58, 0x32, 0x31, 0x41, 0x64, 0x64, 0x72, 0x65, 0x73, 0x73]
  | dnQualifier => [0x64, 0x6e, 0x51, 0x75, 0x61, 0x6c, 0x69, 0x66, 0x69, 0x65, 0x72]

/-- The types in `ExtraInfo`, or `defaultTypes`. -/
def types : Attribute → List StringType
  | emailAddr => [.ia5]
  | countryName => [.printable]
  | domainComponent => [.ia5, .utf8]
  | telephoneNumber => [.printable]
  | x21Address => [.numeric]
  | _ => [.printable, .bmp]

end Attribute

/-- `CryptFindOIDInfo` for names, which finds the attribute type with a name. -/
structure OidInfo where
  find : WString → Option Attribute
  consistent : ∀ attr, find attr.name = some attr

/-- The functions on characters that are not modelled: which ones from 0x80 on are letters,
digits, and digits only, and what a string becomes through UTF-8, which can drop characters.
-/
structure CharTypes where
  alnum : UInt16 → Bool
  digit : UInt16 → Bool
  utf8 : WString → WString
  utf8_length : ∀ str, (utf8 str).length ≤ str.length

/-- `isspace` -/
def isspace (c : UInt16) : Bool :=
  c = 0x20 ∨ (0x09 ≤ c ∧ c ≤ 0x0d)

/-- `isspaceW` -/
def isspaceW (c : UInt16) : Bool :=
  isspace c ∨ c = 0x85 ∨ c = 0xa0 ∨ c = 0x1680 ∨ c = 0x180e ∨ (0x2000 ≤ c ∧ c ≤ 0x200a) ∨
    c = 0x2028 ∨ c = 0x2029 ∨ c = 0x202f ∨ c = 0x205f ∨ c = 0x3000

/-- `isdigitW` -/
def CharTypes.isdigitW (charTypes : CharTypes) (c : UInt16) : Bool :=
  if c < 0x80 then 0x30 ≤ c ∧ c ≤ 0x39 else charTypes.digit c

/-- `isalnumW` -/
def CharTypes.isalnumW (charTypes : CharTypes) (c : UInt16) : Bool :=
  if c < 0x80 then
    (0x30 ≤ c ∧ c ≤ 0x39) ∨ (0x41 ≤ c ∧ c ≤ 0x5a) ∨ (0x61 ≤ c ∧ c ≤ 0x7a)
  else charTypes.alnum c

/-- `isprintableW` -/
def CharTypes.isprintableW (charTypes : CharTypes) (c : UInt16) : Bool :=
  charTypes.isalnumW c ∨ isspaceW c ∨
    -- apostrophe, parentheses, plus, comma, minus, full stop, slash
    (0x27 ≤ c ∧ c ≤ 0x29) ∨ (0x2b ≤ c ∧ c ≤ 0x2f) ∨
    -- colon, equals sign, question mark
    c = 0x3a ∨ c = 0x3d ∨ c = 0x3f

/-- The low byte of a character, as a character. -/
def lowByte (c : UInt16) : UInt16 :=
  c &&& 0xff

/-- `is_quotable_char`, which gets the low byte. -/
def isQuotableChar (c : UInt16) : Bool :=
  lowByte c ∈ [0x2b, 0x2c, 0x22, 0x3d, 0x3c, 0x3e, 0x3b, 0x23, 0x0a]

/-- The value of an attribute: a printable string of bytes, or a BMP string. -/
inductive RdnValue where
  | printable (bytes : List UInt8)
  | bmp (chars : WString)
  deriving DecidableEq

namespace RdnValue

/-- The characters of a value. -/
def chars : RdnValue → WString
  | printable bytes => bytes.map UInt8.toUInt16
  | bmp chars => chars

/-- `pbData` at an index. -/
def byte (value : RdnValue) (i : Nat) : UInt16 :=
  match value with
  | printable bytes => (bytes.getD i 0).toUInt16
  | bmp chars =>
    let c := chars.getD (i / 2) 0
    if i % 2 = 0 then lowByte c else c >>> 8

/-- `needsQuotes` of `quote_rdn_value_to_str_w`, which looks at the first byte and at the
byte with the number of the last character. -/
def needsQuotes (value : RdnValue) : Bool :=
  isspace (value.byte 0) || isspace (value.byte (value.chars.length - 1)) ||
    value.chars.any isQuotableChar

end RdnValue

/-- The loop of `quote_rdn_value_to_str_w`, which doubles quotes. -/
def doubleQuotes : WString → WString
  | [] => []
  | c :: rest => if c = 0x22 then 0x22 :: 0x22 :: doubleQuotes rest else c :: doubleQuotes rest

/-- `quote_rdn_value_to_str_w` into a buffer that is large enough. -/
def quoteRdnValueToStrW (value : RdnValue) : WString :=
  if value.needsQuotes then 0x22 :: (doubleQuotes value.chars ++ [0x22])
  else doubleQuotes value.chars

/-- A name whose RDNs have one attribute each. -/
abbrev Name :=
  List (Attribute × RdnValue)

/-- An attribute with its prefix. -/
def attributeToStr (attr : Attribute) (value : RdnValue) : WString :=
  attr.name ++ 0x3d :: quoteRdnValueToStrW value

/-- `CertNameToStrW` with `CERT_X500_NAME_STR`, into a buffer that is large enough. -/
def certNameToStrW : Name → WString
  | [] => []
  | [(attr, value)] => attributeToStr attr value
  | (attr, value) :: rest => attributeToStr attr value ++ 0x2c :: 0x20 :: certNameToStrW rest

/-- How reading a text fails: with an error, or by writing behind the buffer for keys. -/
inductive Failure where
  | invalidX500String
  | encoding
  | outsideBuffer
  deriving DecidableEq

/-- The characters of an array up to its terminator. -/
def cString (text : WString) : WString :=
  text.takeWhile fun c => c ≠ 0

/-- `CRYPT_GetNextKeyW`: the key and what is behind it, or nothing behind white space. -/
def getNextKeyW (str : WString) : Except Failure (Option (WString × WString)) :=
  let start := str.dropWhile isspaceW
  if start = [] then .ok none
  else
    let inKey := fun c => c ≠ 0x3d ∧ isspaceW c = false
    let rest := start.dropWhile inKey
    if rest = [] then .error .invalidX500String
    else .ok (some (start.takeWhile inKey, rest))

/-- The search for the end of a quoted value, behind the opening quote. -/
def scanQuoted : WString → Option (WString × WString)
  | [] => none
  | [c] => if c = 0x22 then some ([c], []) else none
  | c :: next :: rest =>
    if c = 0x22 then
      if next = 0x22 then
        (scanQuoted rest).map fun (token, rest) => (c :: next :: token, rest)
      else some ([c], next :: rest)
    else (scanQuoted (next :: rest)).map fun (token, rest) => (c :: token, rest)

/-- The separators in `allSeps`. -/
def isSeparator (c : UInt16) : Bool :=
  c ∈ [0x2c, 0x3b, 0x0d, 0x0a]

/-- `CRYPT_GetNextValueW` with all separators: the token and what is behind it. -/
def getNextValueW (str : WString) : Except Failure (WString × WString) :=
  match str.dropWhile isspaceW with
  | [] => .error .invalidX500String
  | c :: rest =>
    if c = 0x22 then
      match scanQuoted rest with
      | none => .error .invalidX500String
      | some (token, rest) => .ok (c :: token, rest)
    else
      .ok ((c :: rest).takeWhile (fun c => !isSeparator c),
        (c :: rest).dropWhile fun c => !isSeparator c)

/-- The copying loop of `CRYPT_EncodeValueWithType`, which skips what follows a quote. -/
def copyValue : WString → WString
  | [] => []
  | [c] => [c]
  | c :: next :: rest =>
    if c = 0x22 then c :: copyValue rest else c :: copyValue (next :: rest)

variable (charTypes : CharTypes)

/-- What decoding gives for a value that is encoded with a type.  For an empty value only
the encoder for BMP strings does not read from a null pointer. -/
def encodeWithType (chars : WString) : StringType → Option WString
  | .bmp => some chars
  | .numeric =>
    if chars ≠ [] ∧ chars.all charTypes.isdigitW then some (chars.map lowByte) else none
  | .printable =>
    if chars ≠ [] ∧ chars.all charTypes.isprintableW then some (chars.map lowByte) else none
  | .ia5 => if chars ≠ [] ∧ chars.all (· ≤ 0x7f) then some (chars.map lowByte) else none
  | .utf8 => if chars ≠ [] then some (charTypes.utf8 chars) else none

/-- `CRYPT_EncodeValue` -/
def encodeValue (chars : WString) (types : List StringType) : Option WString :=
  types.findSome? (encodeWithType charTypes chars)

/-- `CRYPT_ValueToRDN`: the characters of the value in the name. -/
def valueToRdn (attr : Attribute) (token : WString) : Option WString :=
  -- remove surrounding quotes
  let value := if token.head? = some 0x22 then token.tail.dropLast else token
  encodeValue charTypes (copyValue value) attr.types

/-- The size of the buffer for keys. -/
def keyLen : Nat := 10

variable (oidInfo : OidInfo)

/-- `CertStrToNameW` for so many rounds of its loop. -/
def certStrToNameW : Nat → WString → Option (Except Failure (List (Attribute × WString)))
  | 0, _ => none
  | _ + 1, [] => some (.ok [])
  | rounds + 1, str =>
    match getNextKeyW str with
    | .error failure => some (.error failure)
    -- only white space is left, and `str` stays where it is
    | .ok none => certStrToNameW rounds str
    | .ok (some (key, rest)) =>
      -- the terminator of a key that fills the buffer is written behind it
      if keyLen ≤ key.length then some (.error .outsideBuffer)
      else
        match oidInfo.find key, rest.dropWhile isspace with
        | some attr, 0x3d :: rest =>
          match getNextValueW rest with
          | .error failure => some (.error failure)
          | .ok (token, rest) =>
            match valueToRdn charTypes attr token with
            | none => some (.error .encoding)
            | some chars =>
              (certStrToNameW rounds rest).map fun result =>
                result.map fun name => (attr, chars) :: name
        | _, _ => some (.error .invalidX500String)

/-- Reading the printed text gives the attribute types and the characters of the name. -/
def RoundTrips (name : Name) : Prop :=
  ∃ rounds, certStrToNameW charTypes oidInfo rounds (cString (certNameToStrW name)) =
    some (.ok (name.map fun (attr, value) => (attr, value.chars)))

/-- The types of an attribute keep the characters of a value. -/
def Keeps (chars : WString) : Attribute → Prop
  | .emailAddr => ∀ c ∈ chars, c ≤ 0x7f
  | .countryName => ∀ c ∈ chars, charTypes.isprintableW c = true ∧ c < 0x100
  | .telephoneNumber => ∀ c ∈ chars, charTypes.isprintableW c = true ∧ c < 0x100
  | .domainComponent => (∀ c ∈ chars, c ≤ 0x7f) ∨ charTypes.utf8 chars = chars
  | .x21Address => ∀ c ∈ chars, charTypes.isdigitW c = true ∧ c < 0x100
  | _ => (∀ c ∈ chars, charTypes.isprintableW c = true) → ∀ c ∈ chars, c < 0x100

/-- A value that is read as it was printed: without null characters, and in quotes or
without white space in front and carriage returns inside. -/
def Readable (value : RdnValue) : Prop :=
  0 ∉ value.chars ∧
    (value.needsQuotes = true ∨
      ((∀ c ∈ value.chars.head?, isspaceW c = false) ∧ 0x0d ∉ value.chars))

/-- A name that comes back from its text: it has at most one attribute, whose type has a
short name and whose value is readable and kept. -/
def Returns : Name → Prop
  | [] => True
  | [(attr, value)] => attr.name.length < keyLen ∧ Readable value ∧ Keeps charTypes value.chars attr
  | _ => False

end Winex.X500
