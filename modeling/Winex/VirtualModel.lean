import Winex.LinkedCells
import Winex.WordMask

namespace Winex.Virtual

open Cells

/-!
# The views of the address space

`dlls/ntdll/virtual.c` keeps one `FILE_VIEW` for every piece of the address space that
it manages, in the doubly linked list `VIRTUAL_FirstView`.  This module translates the
functions that search the list and change it.

Addresses and sizes are 32-bit words; the difference of two pointers is a signed number.
Allocating a `FILE_VIEW` succeeds; its pointer is a parameter.  Loops follow the `next`
pointers, and since there are only `2 ^ 32` of them a longer list is a cycle.
-/

/-- A 32-bit address, size or set of flags. -/
abbrev Word := BitVec 32

/-- A `BYTE`. -/
abbrev Byte := BitVec 8

/-- A `FILE_VIEW *`. -/
abbrev ViewPtr := Fin (2 ^ 32)

/-- What stops the process: a failed `assert`, or an access outside of `view->prot`. -/
inductive Fault where
  | assertion
  | protOverrun
  deriving DecidableEq

/-! ## Pages -/

/-- `page_mask` -/
def pageMask : Word := 0xfff

/-- `page_shift` -/
def pageShift : Nat := 12

/-- `granularity_mask` -/
def granularityMask : Word := 0xffff

/-- `ROUND_ADDR` -/
def roundAddr (addr mask : Word) : Word :=
  addr &&& ~~~mask

/-- `ROUND_SIZE` -/
def roundSize (addr size : Word) : Word :=
  (size + (addr &&& pageMask) + pageMask) &&& ~~~pageMask

/-! ## Views -/

/-- `VFLAG_SYSTEM` -/
def vflagSystem : Word := 0x01

/-- `VFLAG_VALLOC` -/
def vflagValloc : Word := 0x02

/--
A `FILE_VIEW` without its links.  The array `prot` has one byte for each page,
and a view begins at a page boundary.
-/
structure FileView where
  base : Word
  size : Word
  flags : Word
  mapping : Word
  protect : Byte
  prot : List Byte
  baseAligned : base.toNat % 4096 = 0
  sizePages : size.toNat = 4096 * prot.length
  deriving DecidableEq

/-- The list `VIRTUAL_FirstView`. -/
abbrev ViewChain := Chain ViewPtr FileView

variable (chain : ViewChain)

/-- The views in the order of the list. -/
def viewsOf : List (ViewPtr × FileView) :=
  chain.entries (2 ^ 32)

theorem aligned_of_and_pageMask {word : Word} (noOffset : word &&& pageMask = 0) :
    word.toNat % 4096 = 0 := by
  have remainder := Words.toNat_and_lowMask word (k := 12) (by decide)
  exact remainder.symm.trans (congrArg BitVec.toNat noOffset)

/-- `VIRTUAL_AllocView` -/
def allocView (base size flags : Word) (vprot : Byte) (mapping : Word) : Except Fault FileView :=
  if asserted : base &&& pageMask = 0 ∧ size &&& pageMask = 0 then
    .ok
      { base := base
        size := (size >>> pageShift) <<< pageShift
        flags := flags
        mapping := mapping
        protect := vprot
        prot := List.replicate (size >>> pageShift).toNat vprot
        baseAligned := aligned_of_and_pageMask asserted.1
        sizePages := by
          rw [Words.toNat_shiftRight_shiftLeft, List.length_replicate,
            BitVec.toNat_ushiftRight, Nat.shiftRight_eq_div_pow]
          rfl }
  else
    .error .assertion

/-- The loop of `VIRTUAL_FindView`. -/
def findViewFrom (addr : Word) : List (ViewPtr × FileView) → Option (ViewPtr × FileView)
  | [] => none
  | (ptr, view) :: next =>
    if view.base > addr then
      none
    else if view.base + view.size > addr then
      some (ptr, view)
    else
      findViewFrom addr next

/-- `VIRTUAL_FindView` -/
def findView (addr : Word) : Option (ViewPtr × FileView) :=
  findViewFrom addr (viewsOf chain)

/--
The loops `while (prev->next && …) prev = prev->next`.  The result is the last
value of `prev` and the views behind it.
-/
def advance (below : FileView → Bool) :
    ViewPtr × FileView → List (ViewPtr × FileView) →
      (ViewPtr × FileView) × List (ViewPtr × FileView)
  | prev, [] => (prev, [])
  | prev, next :: rest =>
    if below next.2 then
      advance below next rest
    else
      (prev, next :: rest)

/-- `VIRTUAL_CreateView` -/
def createView (ptr : ViewPtr) (base size flags : Word) (vprot : Byte) (mapping : Word) :
    Except Fault ViewChain := do
  let view ← allocView base size flags vprot mapping
  match viewsOf chain with
  | [] => return chain.linkFirst ptr view
  | first :: next =>
    if first.2.base > base then
      return chain.linkFirst ptr view
    else
      let (prev, _) := advance (fun next => next.base ≤ base) first next
      return chain.linkAfter prev.1 ptr view

/-- `VIRTUAL_DeleteBadView` -/
def deleteBadView (ptr : ViewPtr) : ViewChain :=
  chain.unlink ptr

/--
`VIRTUAL_TryCreateView`.  When the space is in use the new view is freed again
and the list stays as it is.
-/
def tryCreateView (ptr : ViewPtr) (base size flags : Word) (vprot : Byte) (mapping : Word) :
    Except Fault (Option (ViewPtr × FileView) × ViewChain) := do
  let stop := base + size
  let view ← allocView base size flags vprot mapping
  match viewsOf chain with
  | [] => return (some (ptr, view), chain.linkFirst ptr view)
  | first :: next =>
    if first.2.base > base then
      if first.2.base < stop then
        return (none, chain)
      else
        return (some (ptr, view), chain.linkFirst ptr view)
    else
      let (prev, next) := advance (fun next => next.base ≤ base) first next
      if prev.2.base + prev.2.size > base then
        return (none, chain)
      else if next.head?.any (fun next => next.2.base < stop) then
        return (none, chain)
      else
        return (some (ptr, view), chain.linkAfter prev.1 ptr view)

/-- `(start + granularity_mask) & ~granularity_mask` -/
def roundUpStart (start : Word) : Word :=
  (start + granularityMask) &&& ~~~granularityMask

/-- The loop `for (;;)` of `VIRTUAL_GenerateView`. -/
def findRoom (size : Word) :
    ViewPtr × FileView → List (ViewPtr × FileView) → Word → (ViewPtr × FileView) × Word
  | prev, [], start => (prev, roundUpStart start)
  | prev, next :: rest, start =>
    if next.2.base ≥ roundUpStart start + size then
      (prev, roundUpStart start)
    else
      findRoom size next rest (next.2.base + next.2.size)

theorem roundUpStart_aligned (start : Word) : (roundUpStart start).toNat % 4096 = 0 := by
  have rounded := Words.toNat_and_not_lowMask (start + granularityMask) 16
  have same : roundUpStart start = (start + granularityMask) &&& ~~~Words.lowMask 32 16 := rfl
  rw [same]
  omega

theorem findRoom_aligned (size : Word) (prev : ViewPtr × FileView)
    (next : List (ViewPtr × FileView)) (start : Word) :
    (findRoom size prev next start).2.toNat % 4096 = 0 := by
  fun_induction findRoom size prev next start with
  | case1 prev start | case2 prev next rest start fits => exact roundUpStart_aligned start
  | case3 _ _ _ _ _ ih => exact ih

/-- Below this address everything is reserved for DOS memory. -/
def dosMemoryEnd : Word := 0x110000

/-- `VIRTUAL_GenerateView` -/
def generateView (useMemoryManager : Bool) (chain : ViewChain) (ptr : ViewPtr) (size flags : Word)
    (vprot : Byte) (mapping : Word) :
    Except Fault (Option (ViewPtr × FileView) × ViewChain) := do
  if useMemoryManager then
    let view ← allocView 0 size flags vprot mapping
    let lowest : FileView :=
      { view with
        base := dosMemoryEnd
        baseAligned := by decide }
    match viewsOf chain with
    | [] => return (some (ptr, lowest), chain.linkFirst ptr lowest)
    | first :: next =>
      if first.2.base ≥ dosMemoryEnd + size then
        return (some (ptr, lowest), chain.linkFirst ptr lowest)
      else
        let (prev, next) := advance (fun next => next.base < dosMemoryEnd) first next
        let stop := prev.2.base + prev.2.size
        let start := if dosMemoryEnd < stop then stop else dosMemoryEnd
        let room := findRoom size prev next start
        let placed : FileView :=
          { view with
            base := room.2
            baseAligned := findRoom_aligned size prev next start }
        return (some (ptr, placed), chain.linkAfter room.1.1 ptr placed)
  else
    return (none, chain)

end Winex.Virtual
