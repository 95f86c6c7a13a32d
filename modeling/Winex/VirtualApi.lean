import Winex.VirtualModel

namespace Winex.Virtual

open Cells

/-!
# `VirtualAlloc`, `VirtualFree`, `VirtualProtect` and `VirtualQuery`

The entry points over the view list.  What the operating system and the allocator answer
is the record `Host`; their effect on the memory is not part of the state.  `view->prot`
is accessed at the index the source computes, a signed number; an access outside of the
array stops the model with `Fault.protOverrun`.
-/

/-! ## Protections -/

/-- `VPROT_READ` -/
def vprotRead : Byte := 0x01

/-- `VPROT_WRITE` -/
def vprotWrite : Byte := 0x02

/-- `VPROT_EXEC` -/
def vprotExec : Byte := 0x04

/-- `VPROT_WRITECOPY` -/
def vprotWriteCopy : Byte := 0x08

/-- `VPROT_GUARD` -/
def vprotGuard : Byte := 0x10

/-- `VPROT_NOCACHE` -/
def vprotNoCache : Byte := 0x20

/-- `VPROT_COMMITTED` -/
def vprotCommitted : Byte := 0x40

/-- `VPROT_IMAGE` -/
def vprotImage : Byte := 0x80

/-- `VIRTUAL_Win32Flags` -/
def win32Flags : List Word :=
  [0x01, 0x02, 0x04, 0x04, 0x10, 0x20, 0x40, 0x40, 0x08, 0x08, 0x08, 0x08, 0x80, 0x80, 0x80, 0x80]

/-- `VIRTUAL_GetProt` -/
def getProt (protect : Word) : Byte :=
  let low := protect &&& 0xff
  let vprot :=
    if low = 0x02 then vprotRead
    else if low = 0x04 then vprotRead ||| vprotWrite
    else if low = 0x08 then vprotRead ||| vprotWriteCopy
    else if low = 0x10 then vprotExec
    else if low = 0x20 then vprotExec ||| vprotRead
    else if low = 0x40 then vprotExec ||| vprotRead ||| vprotWrite
    else if low = 0x80 then vprotExec ||| vprotRead ||| vprotWriteCopy
    else 0
  let vprot := if protect &&& 0x100 ≠ 0 then vprot ||| vprotGuard else vprot
  if protect &&& 0x200 ≠ 0 then vprot ||| vprotNoCache else vprot

/-- `VIRTUAL_GetUnixProt`, with `PROT_READ` 1, `PROT_WRITE` 2, `PROT_EXEC` 4. -/
def getUnixProt (vprot : Byte) : Word :=
  if vprot &&& vprotCommitted ≠ 0 ∧ vprot &&& vprotGuard = 0 then
    (if vprot &&& vprotRead ≠ 0 then 1 else 0) |||
      (if vprot &&& vprotWrite ≠ 0 then 2 else 0) |||
      (if vprot &&& vprotWriteCopy ≠ 0 then 2 else 0) |||
      (if vprot &&& vprotExec ≠ 0 then 4 else 0)
  else
    0

/-- The protection that `VIRTUAL_GetWin32Prot` stores. -/
def getWin32Prot (vprot : Byte) : Word :=
  let protect := win32Flags.getD (vprot &&& 0x0f).toNat 0
  let protect := if vprot &&& vprotNoCache ≠ 0 then protect ||| 0x200 else protect
  if vprot &&& vprotGuard ≠ 0 then 0x01 else protect

/-- `MEM_COMMIT` -/
def memCommit : Word := 0x1000

/-- `MEM_RESERVE` -/
def memReserve : Word := 0x2000

/-- `MEM_DECOMMIT` -/
def memDecommit : Word := 0x4000

/-- `MEM_RELEASE` -/
def memRelease : Word := 0x8000

/-- `MEM_FREE` -/
def memFree : Word := 0x10000

/-- `MEM_PRIVATE` -/
def memPrivate : Word := 0x20000

/-- `MEM_MAPPED` -/
def memMapped : Word := 0x40000

/-- `MEM_TOP_DOWN` -/
def memTopDown : Word := 0x100000

/-- `MEM_WRITE_WATCH` -/
def memWriteWatch : Word := 0x200000

/-- `MEM_IMAGE` -/
def memImage : Word := 0x1000000

/-- `MEM_SYSTEM` -/
def memSystem : Word := 0x80000000

/-- The state that `VIRTUAL_GetWin32Prot` stores. -/
def getWin32State (vprot : Byte) : Word :=
  if vprot &&& vprotCommitted ≠ 0 then memCommit else memReserve

/-! ## The host -/

/-- The errors the entry points report. -/
inductive WinError where
  | outOfMemory
  | invalidParameter
  | invalidAddress
  deriving DecidableEq

/-- An area of the reserved list of `libs/port/mmap.c`. -/
structure ReservedArea where
  addr : Word
  size : Word
  deriving DecidableEq

/-- The answers of `wine_mmap_is_reserved`. -/
inductive Reservation where
  | notReserved
  | partly
  | fully
  deriving DecidableEq

/--
What the entry points ask for: the pointer of a new `FILE_VIEW`, the answers
of `mprotect` and `wine_anon_mmap`, the stacks of threads that have ended.
-/
structure Host where
  malloc : ViewChain → ViewPtr
  useMemoryManager : Bool
  deadStacks : List Word
  reservedList : List ReservedArea
  mprotect : Word → Word → Word → Bool
  anonMmap : Word → Word → Word → Bool → Option Word
  errnoIsNoMem : Bool
  windows95 : Bool

/-- `wine_mmap_is_reserved` -/
def mmapIsReserved (addr size : Word) : List ReservedArea → Reservation
  | [] => .notReserved
  | cur :: next =>
    let stop := addr + size
    let curEnd := cur.addr + cur.size
    if cur.addr ≤ addr then
      if curEnd ≥ stop then
        .fully
      else if addr < curEnd ∧ stop > curEnd then
        .partly
      else
        mmapIsReserved addr size next
    else if stop > cur.addr then
      .partly
    else
      .notReserved

/--
`VIRTUAL_DeleteView`.  Unless it is a system view the memory is unmapped or
mapped to nothing before; neither changes the list.
-/
def deleteView (chain : ViewChain) (ptr : ViewPtr) : ViewChain :=
  deleteBadView chain ptr

/-- `VIRTUAL_FreeMemory` -/
def freeMemory (chain : ViewChain) (addr : Word) : ViewChain :=
  match findView chain addr with
  | some (ptr, _) => deleteView chain ptr
  | none => chain

variable (host : Host) (chain : ViewChain)

/-- `SYSDEPS_CleanThreads`: free the stacks of threads that have ended. -/
def cleanThreads : ViewChain :=
  if host.useMemoryManager then
    host.deadStacks.foldl freeMemory chain
  else
    chain

/-- `VIRTUAL_GetMemory`; the result is the view, if the memory was obtained. -/
def getMemory (base size flags : Word) (vprot : Byte) (mapping : Word) :
    Except Fault (Option FileView × ViewChain) := do
  let prot := getUnixProt vprot
  let chain := cleanThreads host chain
  let (found, chain) ←
    if base ≠ 0 then
      tryCreateView chain (host.malloc chain) base size flags vprot mapping
    else
      generateView host.useMemoryManager chain (host.malloc chain) size flags vprot mapping
  match found with
  | none => return (none, chain)
  | some (ptr, view) =>
    match mmapIsReserved view.base view.size host.reservedList with
    | .fully =>
      match host.anonMmap view.base view.size prot true with
      | some _ => return (some view, chain)
      | none => return (none, deleteBadView chain ptr)
    | _ => return (none, deleteBadView chain ptr)

/-- `anon_mmap_aligned` -/
def anonMmapAligned (base size prot : Word) : Except WinError Word :=
  let viewSize := size + (if base ≠ 0 then 0 else granularityMask + 1)
  match host.anonMmap base viewSize prot false with
  | none =>
    if host.errnoIsNoMem then
      .error .outOfMemory
    else if host.windows95 then
      .error .invalidAddress
    else
      .error .invalidParameter
  | some ptr =>
    if base = 0 then
      if ptr &&& granularityMask ≠ 0 then
        .ok (ptr + (granularityMask + 1 - (ptr &&& granularityMask)))
      else
        .ok ptr
    else if ptr ≠ base then
      .error .invalidAddress
    else
      .ok ptr

/-! ## The protection bytes -/

/-- `(base - view->base) >> page_shift`, the index of a page in `view->prot`. -/
def protIndex (view : FileView) (base : Word) : Int :=
  (base - view.base).toInt >>> pageShift

/-- Read one protection byte. -/
def readProt (view : FileView) (index : Int) : Except Fault Byte :=
  if 0 ≤ index then
    match view.prot[index.toNat]? with
    | some vprot => .ok vprot
    | none => .error .protOverrun
  else
    .error .protOverrun

/-- The `memset` of `VIRTUAL_SetProt`. -/
def fillProt (view : FileView) (index : Int) (count : Nat) (vprot : Byte) : Except Fault FileView :=
  if count = 0 then
    .ok view
  else if inside : 0 ≤ index ∧ index.toNat + count ≤ view.prot.length then
    .ok
      { view with
        prot :=
          view.prot.take index.toNat ++ List.replicate count vprot ++
            view.prot.drop (index.toNat + count)
        sizePages := by
          rw [view.sizePages]
          simp
          omega }
  else
    .error .protOverrun

/-- `VIRTUAL_SetProt`; false when `mprotect` refuses. -/
def setProt (ptr : ViewPtr) (view : FileView) (base size : Word) (vprot : Byte) :
    Except Fault (Bool × ViewChain) := do
  if host.mprotect base size (getUnixProt vprot) then
    let view ← fillProt view (protIndex view base) (size >>> pageShift).toNat vprot
    return (true, chain.setValue ptr view)
  else
    return (false, chain)

/-! ## The entry points -/

/--
How a call ends: with a value, rejected by a check of its arguments, or
refused by the host (`VIRTUAL_SetProt` sets no error).
-/
inductive Outcome (α : Type) where
  | done (value : α)
  | rejected (error : WinError)
  | refused (error : Option WinError)
  deriving DecidableEq

/-- The base of `VirtualAlloc`, rounded to 64k when memory is reserved. -/
def allocBase (addr type : Word) : Word :=
  if addr = 0 then
    0
  else if type &&& (memReserve ||| memSystem) = memReserve then
    roundAddr addr granularityMask
  else
    roundAddr addr pageMask

/-- The size of `VirtualAlloc`, rounded up to pages. -/
def allocSize (addr size type : Word) : Word :=
  if addr = 0 then
    (size + pageMask) &&& ~~~pageMask
  else
    ((addr + size + pageMask) &&& ~~~pageMask) - allocBase addr type

/-- The part of `VirtualAlloc` that reserves memory. -/
def reservePages (base size type : Word) (vprot : Byte) :
    Except Fault (Outcome Word × ViewChain) := do
  if type &&& memSystem ≠ 0 then
    let chain ←
      createView chain (host.malloc chain) base size (vflagValloc ||| vflagSystem) vprot 0
    return (.done base, chain)
  else
    let (view, chain) ← getMemory host chain base size vflagValloc vprot 0
    match view with
    | some view => return (.done view.base, chain)
    | none =>
      match anonMmapAligned host base size (getUnixProt vprot) with
      | .error error => return (.refused (some error), chain)
      | .ok ptr =>
        let chain ← createView chain (host.malloc chain) ptr size vflagValloc vprot 0
        return (.done ptr, chain)

/-- The part of `VirtualAlloc` that commits pages of a view. -/
def commitPages (base size : Word) (vprot : Byte) : Except Fault (Outcome Word × ViewChain) := do
  match findView chain base with
  | none => return (.rejected .invalidAddress, chain)
  | some (ptr, view) =>
    if base + size > view.base + view.size then
      return (.rejected .invalidAddress, chain)
    else
      let (set, chain) ← setProt host chain ptr view base size vprot
      if set then
        return (.done base, chain)
      else
        return (.refused none, chain)

/-- `VirtualAlloc` -/
def virtualAlloc (addr size type protect : Word) : Except Fault (Outcome Word × ViewChain) :=
  let type := type &&& ~~~memWriteWatch
  if size > 0x7fc00000 then
    .ok (.rejected .outOfMemory, chain)
  else
    let base := allocBase addr type
    let size := allocSize addr size type
    if addr ≠ 0 ∧ (base ≤ granularityMask ∨ base + size < base) then
      .ok (.rejected .invalidParameter, chain)
    else
      let type := type &&& ~~~memTopDown
      let known := memCommit ||| memReserve ||| memSystem
      if type &&& known = 0 ∨ type &&& ~~~known ≠ 0 then
        .ok (.rejected .invalidParameter, chain)
      else
        let vprot :=
          if type &&& (memCommit ||| memSystem) ≠ 0 then
            getProt protect ||| vprotCommitted
          else
            0
        if type &&& memReserve ≠ 0 ∨ base = 0 then
          reservePages host chain base size type vprot
        else
          commitPages host chain base size vprot

/-- The part of `VirtualFree` behind the check of the type. -/
def freePages (ptr : ViewPtr) (view : FileView) (base size type : Word) :
    Except Fault (Outcome Unit × ViewChain) := do
  if type = memRelease then
    if size ≠ 0 ∨ base ≠ view.base then
      return (.rejected .invalidParameter, chain)
    else
      return (.done (), deleteView chain ptr)
  else if size = 0 ∧ base ≠ view.base then
    return (.done (), chain)
  else
    let size := if size = 0 then view.size else size
    let (set, chain) ← setProt host chain ptr view base size 0
    if set then
      return (.done (), chain)
    else
      return (.refused none, chain)

/-- `VirtualFree` -/
def virtualFree (addr size type : Word) : Except Fault (Outcome Unit × ViewChain) :=
  let size := roundSize addr size
  let base := roundAddr addr pageMask
  match findView chain base with
  | none => .ok (.rejected .invalidParameter, chain)
  | some (ptr, view) =>
    if base + size > view.base + view.size ∨
        view.flags &&& vflagValloc = 0 then
      .ok (.rejected .invalidParameter, chain)
    else
      let marked : FileView :=
        if type &&& memSystem ≠ 0 then
          { view with flags := view.flags ||| vflagSystem }
        else
          view
      let chain := if type &&& memSystem ≠ 0 then chain.setValue ptr marked else chain
      let type := type &&& ~~~memSystem
      if type ≠ memDecommit ∧ type ≠ memRelease then
        .ok (.rejected .invalidParameter, chain)
      else
        freePages host chain ptr marked base size type

/-- The loop of `VirtualProtect`: all pages are committed. -/
def checkCommitted (view : FileView) : Int → Nat → Except Fault Bool
  | _, 0 => .ok true
  | index, count + 1 => do
      let vprot ← readProt view index
      if vprot &&& vprotCommitted = 0 then
        return false
      else
        checkCommitted view (index + 1) count

/-- `VirtualProtect`; the value `*old_prot` is written unless it is rejected. -/
def virtualProtect (addr size newProt : Word) :
    Except Fault ((Outcome Unit × Option Word) × ViewChain) := do
  let size := roundSize addr size
  let base := roundAddr addr pageMask
  match findView chain base with
  | none => return ((.rejected .invalidParameter, none), chain)
  | some (ptr, view) =>
    if base + size > view.base + view.size then
      return ((.rejected .invalidParameter, none), chain)
    else
      let index := protIndex view base
      let vprot ← readProt view index
      let prot := getWin32Prot vprot
      let committed ← checkCommitted view index (size >>> pageShift).toNat
      if committed then
        let vprot := getProt newProt ||| vprotCommitted
        let (set, chain) ← setProt host chain ptr view base size vprot
        if set then
          return ((.done (), some prot), chain)
        else
          return ((.refused none, some prot), chain)
      else
        return ((.rejected .invalidParameter, none), chain)

/-- `MEMORY_BASIC_INFORMATION` -/
structure MemoryBasicInformation where
  baseAddress : Word
  allocationBase : Word
  allocationProtect : Word
  regionSize : Word
  state : Word
  protect : Word
  type : Word
  deriving DecidableEq

/--
The search of `VirtualQuery`: the view that contains the page, if there is
one, with the values of `alloc_base` and `size`.
-/
def queryViewFrom (base : Word) : List (ViewPtr × FileView) → Word → Option FileView × Word × Word
  | [], allocBase => (none, allocBase, 0xffff0000 - allocBase)
  | (_, view) :: next, allocBase =>
    if view.base > base then
      (none, allocBase, view.base - allocBase)
    else if view.base + view.size > base then
      (some view, view.base, view.size)
    else
      queryViewFrom base next (view.base + view.size)

/-- The loop over the pages with the same protection. -/
def sameProt (vprot : Byte) : List Byte → Word → Word
  | [], size => size
  | page :: pages, size =>
    if page ≠ vprot then
      size
    else
      sameProt vprot pages (size + (pageMask + 1))

/-- `VirtualQuery`; nothing is returned for addresses in kernel space. -/
def virtualQuery (addr : Word) : Except Fault (Option MemoryBasicInformation) := do
  if addr ≥ 0xc0000000 then
    return none
  else
    let base := roundAddr addr pageMask
    match queryViewFrom base (viewsOf chain) 0 with
    | (none, allocBase, size) =>
      return some
        { baseAddress := base
          allocationBase := allocBase
          allocationProtect := 0
          regionSize := size - (base - allocBase)
          state := memFree
          protect := 0
          type := 0 }
    | (some view, allocBase, _) =>
      let vprot ← readProt view (protIndex view base)
      let offset := base - allocBase
      let size := sameProt vprot (view.prot.drop (offset >>> pageShift).toNat) offset
      return some
        { baseAddress := base
          allocationBase := allocBase
          allocationProtect := getWin32Prot view.protect
          regionSize := size - (base - allocBase)
          state := getWin32State vprot
          protect := getWin32Prot vprot
          type :=
            if view.protect &&& vprotImage ≠ 0 then memImage
            else if view.mapping ≠ 0 then memMapped
            else memPrivate }

end Winex.Virtual
