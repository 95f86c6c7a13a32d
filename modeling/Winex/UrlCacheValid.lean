import Winex.UrlCacheBlocks

namespace Winex.UrlCache

/-!
# The check of an index file

`cache_container_is_valid` looks at an index before its blocks are used.
-/

/-- `ALLOCATION_TABLE_SIZE` -/
def allocationTableSize : Nat := 0x4000 - 0x250

/-- `FILE_SIZE`, in 32 bits. -/
def fileSizeOf (blocks : BitVec 32) : BitVec 32 :=
  blocks * 128 + 0x4000

/-- The fields of `urlcache_header` that are checked, and the memory from the allocation table
on. -/
structure IndexFile where
  signature : List UInt8
  size : BitVec 32
  capacityInBlocks : BitVec 32
  blocksInUse : BitVec 32
  allocationTable : Nat → BitVec 8

variable (file : IndexFile)

/-- The signature is that of this cache, with another version. -/
def IndexFile.foreignVersion : Bool :=
  let text (string : String) := string.toList.map fun char => UInt8.ofNat char.toNat
  file.signature.take 18 = text "WINE URLCache Ver " ∧
    (file.signature.drop 18).take 9 ≠ text "0.2012001"

/-- The loop over the bits of a byte. -/
def countBits (bits : Nat) : Nat :=
  if bits = 0 then 0 else bits % 2 + countBits (bits / 2)

/-- `allocation_size` after some bytes of the table. -/
def allocationSize (table : Nat → BitVec 8) : Nat → BitVec 32
  | 0 => 0
  | i + 1 => allocationSize table i + BitVec.ofNat 32 (countBits (table i).toNat)

variable (fileSize : BitVec 32)

/-- The checks of the sizes and of the signature. -/
def IndexFile.sizesFit : Bool :=
  fileSizeOf 0x80 ≤ fileSize ∧ fileSize = file.size ∧ ¬file.foreignVersion ∧
    fileSizeOf file.capacityInBlocks = fileSize

/-- `cache_container_is_valid`.  It fails if it would read outside of the allocation table. -/
def isValid : Option Bool :=
  if ¬file.sizesFit fileSize then some false
  else if allocationTableSize < file.capacityInBlocks.toNat / 8 then none
  else if allocationSize file.allocationTable (file.capacityInBlocks.toNat / 8) ≠
      file.blocksInUse then some false
  else some ((List.range allocationTableSize).all fun i =>
    decide (file.capacityInBlocks.toNat / 8 ≤ i → file.allocationTable i = 0))

/-- An allocation changes the table and the file only inside of them. -/
def Contained : Prop :=
  ∀ (header header' : Header) (blocksNeeded block : Nat),
    header.capacityInBlocks = file.capacityInBlocks.toNat →
    entryAlloc header blocksNeeded = some (header', block) →
    (∀ i, header'.allocationTable i ≠ header.allocationTable i → i < allocationTableSize) ∧
    ∀ word, header'.words word ≠ header.words word → 0x4000 + 4 * word + 4 ≤ fileSize.toNat

/-- The check reads inside the table only, and what it accepts has all its blocks in the table
and in the file. -/
def ChecksIndex : Prop :=
  ∃ valid, isValid file fileSize = some valid ∧ (valid = true →
    (∀ block < file.capacityInBlocks.toNat,
      block < maxBlockNo ∧ 0x4000 + 128 * block + 128 ≤ fileSize.toNat) ∧ Contained file fileSize)

/-- The index has more blocks than bits, and this is not noticed. -/
def Unnoticed : Prop :=
  file.sizesFit fileSize ∧ maxBlockNo < file.capacityInBlocks.toNat ∧
    (maxBlockNo + 8 ≤ file.capacityInBlocks.toNat ∨
      allocationSize file.allocationTable allocationTableSize = file.blocksInUse)

variable {header header' : Header} {blocksNeeded block : Nat}

theorem findBlock_inside (header : Header) (blocksNeeded first : Nat)
    (found : findBlock header blocksNeeded first = some block) :
    block < header.capacityInBlocks ∧ block + blocksNeeded ≤ header.capacityInBlocks := by
  fun_induction findBlock header blocksNeeded first with
  | case1 first inside size same =>
    cases found
    obtain ⟨-, free, -⟩ := blockSize_spec header blocksNeeded block (Nat.zero_le _)
      fun _ less => absurd less (Nat.not_lt_zero _)
    by_contra outside
    have := (free (size - 1) (by omega)).1
    omega
  | case2 _ _ _ _ ih => exact ih found
  | case3 => cases found

theorem overBlocks_eq {table : Nat → BitVec 8} {i : Nat} (count : Nat)
    (apart : ∀ offset < count, i ≠ (block + offset) / 8) :
    overBlocks blockAlloc block count table i = table i := by
  induction count with
  | zero => rfl
  | succ count ih =>
    rw [overBlocks, blockAlloc, Function.update_of_ne (apart count (Nat.lt_succ_self _)),
      ih fun offset less => apart offset (by omega)]

/-- An allocation changes bytes and words of its blocks. -/
theorem entryAlloc_inside (allocated : entryAlloc header blocksNeeded = some (header', block)) :
    (∀ i, header'.allocationTable i ≠ header.allocationTable i → 8 * i < header.capacityInBlocks) ∧
    ∀ word, header'.words word ≠ header.words word → word < 32 * header.capacityInBlocks := by
  unfold entryAlloc at allocated
  split at allocated
  · cases allocated
  rename_i found
  cases allocated
  have inside := findBlock_inside header blocksNeeded 0 found
  constructor
  · intro i changed
    by_contra outside
    exact changed (overBlocks_eq blocksNeeded fun offset less => by omega)
  · intro word changed
    by_contra outside
    refine changed ?_
    simp only
    rw [Function.update_of_ne (by omega), if_neg (by omega)]

/-- The check is enough exactly for an index that has no more blocks than bits, or is refused
for another reason. -/
theorem checksIndex_iff (file : IndexFile) (fileSize : BitVec 32) :
    ChecksIndex file fileSize ↔ ¬Unnoticed file fileSize := by
  have bytes : allocationTableSize = 15792 := rfl
  have bits : maxBlockNo = 126336 := rfl
  unfold ChecksIndex isValid Unnoticed
  by_cases fit : file.sizesFit fileSize
  · rw [if_neg (not_not.2 fit)]
    by_cases small : file.capacityInBlocks.toNat ≤ maxBlockNo
    · have size : fileSize.toNat = file.capacityInBlocks.toNat * 128 + 0x4000 := by
        have sizes := fit
        simp only [IndexFile.sizesFit, decide_eq_true_eq] at sizes
        rw [← sizes.2.2.2, fileSizeOf, BitVec.toNat_add, BitVec.toNat_mul]
        change (file.capacityInBlocks.toNat * 128 % 0x100000000 + 0x4000) % 0x100000000 = _
        omega
      rw [if_neg (by omega)]
      refine iff_of_true ?_ (by omega)
      split
      · exact ⟨false, rfl, nofun⟩
      refine ⟨_, rfl, fun _ => ⟨fun block _ => by omega, ?_⟩⟩
      intro header header' blocksNeeded block same allocated
      obtain ⟨table, words⟩ := entryAlloc_inside allocated
      refine ⟨fun i changed => ?_, fun word changed => ?_⟩
      · have := table i changed
        omega
      · have := words word changed
        omega
    · by_cases outside : allocationTableSize < file.capacityInBlocks.toNat / 8
      · rw [if_pos outside]
        refine iff_of_false nofun fun noticed => noticed ⟨fit, by omega, .inl (by omega)⟩
      have last : file.capacityInBlocks.toNat / 8 = allocationTableSize := by omega
      rw [if_neg outside, last]
      split
      next other =>
        refine iff_of_true ⟨false, rfl, nofun⟩ ?_
        rintro ⟨-, -, large | inUse⟩
        · omega
        · exact other inUse
      next same =>
        refine iff_of_false ?_ fun noticed => noticed ⟨fit, by omega, .inr (not_not.1 same)⟩
        rintro ⟨valid, isValid, checked⟩
        have accepted : valid = true := by
          rw [← Option.some.inj isValid, List.all_eq_true]
          exact fun i mem => decide_eq_true fun le => absurd (List.mem_range.1 mem) (by omega)
        have := ((checked accepted).1 maxBlockNo (by omega)).1
        omega
  · rw [if_pos fit]
    exact iff_of_true ⟨false, rfl, nofun⟩ fun unnoticed => fit unnoticed.1

/-- 126344 blocks have one byte more than the table. -/
theorem isValid_outside : isValid ⟨[], 16188416, 126344, 0, fun _ => 0⟩ 16188416 = none := by
  decide

end Winex.UrlCache
