import Mathlib.Logic.Function.Basic
import Winex.Looping

namespace Winex.Shlwapi

open Function (update update_of_ne update_self)
open Looping

/-!
# The accesses of `PathCanonicalizeW`

The routine copies a path to a buffer of `MAX_PATH` characters, skips `.` components and
goes back over the last component for `..`.  A path is read up to its terminator, and
the buffer from its start to its end.
-/

/-- A string of `WCHAR`s, without its terminator. -/
abbrev WString :=
  List UInt16

/-- The pointers `lpszSrc` and `lpszDst` as indices, and the buffer. -/
structure Canon where
  src : Nat
  dst : Nat
  buf : Nat → UInt16

/-- A character of the path or its terminator. -/
def charAt (path : WString) (i : Nat) : Option UInt16 :=
  (path ++ [0])[i]?

/-- The character in front of one; the start of the path counts like a backslash. -/
def charBefore (path : WString) (i : Nat) : Option UInt16 :=
  if i = 0 then some 0x5c else charAt path (i - 1)

/-- `PathIsUNCServerShareW` -/
def pathIsUNCServerShare : WString → Bool
  | 0x5c :: 0x5c :: rest => (rest.takeWhile (· ≠ 0)).count 0x5c = 1
  | _ => false

/-- The loop that moves `lpszDst` back to a backslash or the start of the buffer. -/
def back (buf : Nat → UInt16) : Nat → Nat
  | 0 => 0
  | dst + 1 => if buf (dst + 1) = 0x5c then dst + 1 else back buf dst

namespace Canon

/-- `*lpszDst++ = char` -/
def put (char : UInt16) (canon : Canon) : Option Canon :=
  if canon.dst < 260 then
    some { canon with dst := canon.dst + 1, buf := update canon.buf canon.dst char }
  else none

/-- `*lpszDst++ = *lpszSrc++` -/
def copy (path : WString) (canon : Canon) : Option Canon := do
  let char ← charAt path canon.src
  put char { canon with src := canon.src + 1 }

/-- Where `lpszDst` stands before the last loop of a `..`. -/
def leave (canon : Canon) : Option Nat :=
  let ⟨_, dst, buf⟩ := canon
  if 1 < dst ∧ buf (dst - 1) = 0x5c ∧ (buf (dst - 2) ≠ 0x5c ∨ 2 < dst) then
    if buf (dst - 2) = 0x3a then
      -- lpszDst[-3] lies in front of the buffer
      if dst < 3 then none
      else if 3 < dst ∨ buf (dst - 3) = 0x3a then
        let root := back buf (dst - 2)
        some (if buf root = 0x5c then root + 1 else 0)
      else some dst
    else if pathIsUNCServerShare ((List.range dst).map buf) then some dst
    else some (dst - 2)
  else some dst

/-- A `..` behind a backslash. -/
def backUp (canon : Canon) : Option Canon := do
  let ended ← put 0 canon
  let left ← leave { ended with dst := canon.dst }
  let dst := back ended.buf left
  if dst = 0 then put 0x5c ⟨canon.src + 3, 0, ended.buf⟩
  else some ⟨canon.src + 2, dst, ended.buf⟩

/-- A round of the main loop, at a character that is not the terminator. -/
def advance (path : WString) (canon : Canon) (char : UInt16) : Option Canon :=
  let ⟨src, dst, buf⟩ := canon
  if char ≠ 0x2e then copy path canon
  else do
    let next ← charAt path (src + 1)
    let before ← charBefore path src
    if next = 0x5c ∧ (before = 0x5c ∨ before = 0x3a) then some ⟨src + 2, dst, buf⟩
    else if next = 0x2e ∧ (dst = 0 ∨ buf (dst - 1) = 0x5c) then
      if dst = 0 then some ⟨src + 2, dst, buf⟩ else backUp canon
    else copy path canon

/-- The main loop ends at the terminator, or with no result at a wrong access. -/
def round (path : WString) (canon : Canon) : Canon ⊕ Option Canon :=
  match charAt path canon.src with
  | none => .inr none
  | some char =>
    if char = 0 then .inr (some canon)
    else match advance path canon char with
      | none => .inr none
      | some next => .inl next

/-- The root of a path that is not empty; the buffer begins with a terminator. -/
def root (path : WString) : Option Canon := do
  let start := ⟨0, 0, fun _ => 0⟩
  if path.head? = some 0x5c then copy path start
  else if (← charAt path 1) = 0x3a then do
    let drive ← copy path (← copy path start)
    if (← charAt path drive.src) = 0x5c then copy path drive else some drive
  else some start

/-- A backslash behind a naked drive, and the terminator. -/
def finish (canon : Canon) : Option Canon := do
  let canon ← if canon.dst = 2 ∧ canon.buf 1 = 0x3a then put 0x5c canon else some canon
  put 0 canon

end Canon

/-- `PathCanonicalizeW` for two pointers that are not `NULL`, with at most so many rounds of
its main loop: the buffer, unless there is a wrong access. -/
def pathCanonicalize (path : WString) (rounds : Nat) : Option (Option Canon) :=
  if path = [] then some (do Canon.put 0 (← Canon.put 0x5c ⟨0, 0, fun _ => 0⟩))
  else match Canon.root path with
    | none => some none
    | some start => (run (Canon.round path) rounds start).map (·.bind Canon.finish)

/-- The routine ends and makes no wrong access. -/
def Safe (path : WString) : Prop :=
  ∃ canon, ∀ rounds, path.length < rounds → pathCanonicalize path rounds = some (some canon)

/-- What holds behind two dots. -/
def BehindDots (path : List UInt16) (Holds : Nat → Prop) : Prop :=
  ∀ i : Nat, path[i]? = some 0x2e → path[i + 1]? = some 0x2e → Holds (i + 2)

/-- The path does not end in two dots. -/
def NoDotsAtEnd (path : List UInt16) : Prop :=
  BehindDots path (· ≠ path.length)

/-- Two dots are at the end or in front of a backslash. -/
def WholeDots (path : List UInt16) : Prop :=
  BehindDots path fun i => i < path.length → path[i]? = some 0x5c

/-- No dots stand together. -/
def NoDots (path : List UInt16) : Prop :=
  BehindDots path fun _ => False

/-- An index at the start of the path, or behind a `.\` or `..` that can be skipped there. -/
def AtStart (path : List UInt16) (i : Nat) : Prop :=
  i = 0 ∨ ∃ dot, i = dot + 2 ∧ path[dot]? = some 0x2e ∧
    (path[dot + 1]? = some 0x5c ∨ path[dot + 1]? = some 0x2e)

/-- If dots stand together, no component at the start begins with a colon, and the path does not
end in two dots unless it begins with a drive and a backslash. -/
structure Plain (path : List UInt16) : Prop where
  colon : NoDots path ∨ ∀ i, AtStart path i → path[i]? ≠ some 0x3a
  ending : NoDotsAtEnd path ∨
    (∃ drive rest, path = drive :: 0x3a :: 0x5c :: rest ∧ drive ≠ 0x5c) ∧ WholeDots path

section Accesses

variable {path : WString} {canon : Canon} {buf : Nat → UInt16} {i dst : Nat} {char : UInt16}

/-- The drive and the root of the path are in the buffer, and nothing else comes there. -/
structure Anchored (path : List UInt16) (canon : Canon) : Prop where
  behind : 2 ≤ canon.dst
  colon : canon.buf 1 = 0x3a
  isRoot : canon.buf 2 = 0x5c
  next : canon.dst = 2 → canon.src < path.length → path[canon.src]? = some 0x5c

/-- The invariant of the main loop. -/
structure Fits (path : List UInt16) (canon : Canon) : Prop where
  src : canon.src ≤ path.length
  dst : canon.dst ≤ canon.src
  first : 0 < canon.dst → NoDots path ∨ canon.buf 0 ≠ 0x3a
  start : canon.dst = 0 → AtStart path canon.src
  ending : NoDotsAtEnd path ∨ Anchored path canon ∧ WholeDots path

variable (small : path.length < 259) (fits : Fits path canon)
include small fits

end Accesses

end Winex.Shlwapi
