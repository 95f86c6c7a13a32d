import Winex.DerLength

namespace Winex.Asn

/-!
# Sets

`CRYPT_DEREncodeSet` and `CRYPT_DEREncodeItemsAsSet` write the elements of a set in the
order of `BLOBComp`.
-/

abbrev Blob := List UInt8

/-- A function that encodes: `*pcbEncoded` afterwards, and the bytes written to the given
space.  In the sizing call `pbEncoded` is `NULL`. -/
abbrev Encoder (Item : Type) := Item → Option Nat → Nat × Except Failure Blob

/-- `memcmp` -/
def memcmp : Nat → Blob → Blob → Int
  | 0, _, _ => 0
  | count + 1, a :: as, b :: bs => if a = b then memcmp count as bs else a.toNat - b.toNat
  | _, _, _ => 0

/-- `BLOBComp`, with the difference of the sizes as an `int`. -/
def blobComp (a b : Blob) : Int :=
  let ret := memcmp (min a.length b.length) a b
  if ret = 0 then ((a.length : Int) - b.length).bmod 0x100000000 else ret

/-- `CRYPT_DEREncodeSet`, which is also the second part of the other function. -/
def derEncodeSet (qsort : List Blob → List Blob) : Encoder (List Blob) := fun blobs space =>
  let size := blobs.flatten.length % 0x100000000
  let lenBytes := encodeLenSize size
  let bytesNeeded := (size + (1 + lenBytes)) % 0x100000000
  match space with
  | none => (bytesNeeded, .ok [])
  | some space =>
    if space < bytesNeeded then (bytesNeeded, .error .moreData)
    else (bytesNeeded, .ok (0x31 :: encodeLen (subWord bytesNeeded (lenBytes + 1)) ++
      (qsort blobs).flatten))

/-- An item is encoded by a sizing call and one that writes.  Some functions propagate their
errors through the size. -/
def encodeItem {Item : Type} (encode : Encoder Item) (item : Item) : Except (Nat × Failure) Blob :=
  match encode item none with
  | (size, .error failure) => .error (size, failure)
  | (size, .ok _) =>
    match encode item (some size) with
    | (size, .error failure) => .error (size, failure)
    | (_, .ok bytes) => .ok bytes

def encodeItems {Item : Type} (encode : Encoder Item) :
    List Item → Except (Nat × Failure) (List Blob)
  | [] => .ok []
  | item :: items =>
    match encodeItem encode item with
    | .error failure => .error failure
    | .ok bytes => (encodeItems encode items).map (bytes :: ·)

/-- `CRYPT_DEREncodeItemsAsSet` -/
def derEncodeItemsAsSet {Item : Type} (qsort : List Blob → List Blob) (encode : Encoder Item) :
    Encoder (List Item) := fun items space =>
  match encodeItems encode items with
  | .error (size, failure) => (size, .error failure)
  | .ok blobs => derEncodeSet qsort blobs space

/-- Each blob shares a memory of 32 bits with its copy in the encoding, whose size is a
`DWORD`. -/
structure InMemory (blobs : List Blob) : Prop where
  blob : ∀ blob ∈ blobs, blob.length < 0x80000000
  encoding : blobs.flatten.length < 0xfffffffa

/-- `qsort` sorts by the comparison it is called with. -/
def Sorts (qsort : List Blob → List Blob) : Prop :=
  ∀ blobs, InMemory blobs → (qsort blobs).Perm blobs ∧ (qsort blobs).Pairwise (blobComp · · ≤ 0)

/-- The order of X.690, in which the shorter one is padded with zeros. -/
def PaddedLE : Blob → Blob → Prop
  | [], _ => True
  | a :: as, [] => a = 0 ∧ PaddedLE as []
  | a :: as, b :: bs => a < b ∨ a = b ∧ PaddedLE as bs

/-- A set with the given elements. -/
def setOf (blobs : List Blob) : Blob :=
  0x31 :: encodeLen blobs.flatten.length ++ blobs.flatten

/-- The answers of a function whose encoding is the given one. -/
def answer (bytes : Blob) : Option Nat → Nat × Except Failure Blob
  | none => (bytes.length, .ok [])
  | some space =>
    (bytes.length, if space < bytes.length then .error .moreData else .ok bytes)

variable {a b : Blob} {blobs others : List Blob}
variable {qsort : List Blob → List Blob}

theorem blobComp_of_empty (small : a.length < 0x80000000) (small' : b.length < 0x80000000)
    (empty : min a.length b.length = 0) : blobComp a b = a.length - b.length := by
  rw [blobComp, empty]
  exact Int.bmod_eq_of_le_mul_two (by omega) (by omega)

theorem blobComp_cons (first second : UInt8) :
    blobComp (first :: a) (second :: b) =
      if first = second then blobComp a b else first.toNat - second.toNat := by
  simp only [blobComp, List.length_cons, Nat.succ_min_succ, memcmp]
  split
  · simp
  next other =>
    rw [← UInt8.toNat_inj] at other
    omega

theorem blobComp_nonpos_iff (small : a.length < 0x80000000) (small' : b.length < 0x80000000) :
    blobComp a b ≤ 0 ↔ a ≤ b := by
  induction a generalizing b with
  | nil =>
    rw [blobComp_of_empty small small' (Nat.zero_min _)]
    exact iff_of_true (by simp) (List.nil_le b)
  | cons first rest ih =>
    cases b with
    | nil =>
      rw [blobComp_of_empty small small' rfl]
      exact iff_of_false (by simp) (by simp)
    | cons second others =>
      rw [List.length_cons] at small small'
      rw [blobComp_cons, List.cons_le_cons_iff, ← ih (by omega) (by omega), UInt8.lt_iff_toNat_lt]
      split
      next same => simp [same]
      next other =>
        rw [or_iff_left fun both => other both.1]
        rw [← UInt8.toNat_inj] at other
        omega

theorem paddedLE_of_le (le : a ≤ b) : PaddedLE a b := by
  induction a generalizing b with
  | nil => trivial
  | cons _ _ ih =>
    cases b with
    | nil => simp at le
    | cons =>
      rw [List.cons_le_cons_iff] at le
      exact le.imp_right (.imp_right ih)

theorem InMemory.perm (inMemory : InMemory blobs) (perm : others.Perm blobs) : InMemory others :=
  ⟨fun blob mem => inMemory.blob blob (perm.subset mem),
    perm.flatten.length_eq.trans_lt inMemory.encoding⟩

theorem Sorts.le (sorts : Sorts qsort) (inMemory : InMemory blobs) :
    (qsort blobs).Pairwise (· ≤ ·) := by
  obtain ⟨perm, sorted⟩ := sorts blobs inMemory
  refine sorted.imp_of_mem fun mem mem' => (blobComp_nonpos_iff ?_ ?_).1
  · exact inMemory.blob _ (perm.subset mem)
  · exact inMemory.blob _ (perm.subset mem')

variable {Item : Type} {encode : Encoder Item}

theorem encodeItems_cons {item : Item} {items : List Item} :
    encodeItems encode (item :: items) = .ok blobs ↔ ∃ bytes rest,
      encodeItem encode item = .ok bytes ∧ encodeItems encode items = .ok rest ∧
        bytes :: rest = blobs := by
  rw [encodeItems]
  cases encodeItem encode item with
  | error => simp
  | ok => cases encodeItems encode items <;> simp [Except.map]

theorem encodeItems_perm {items others : List Item} (perm : items.Perm others)
    {blobs : List Blob} (encoded : encodeItems encode items = .ok blobs) :
    ∃ blobs', encodeItems encode others = .ok blobs' ∧ blobs'.Perm blobs := by
  induction perm generalizing blobs with
  | nil => exact ⟨blobs, encoded, .rfl⟩
  | cons item perm ih =>
    obtain ⟨bytes, rest, isBytes, isRest, rfl⟩ := encodeItems_cons.1 encoded
    obtain ⟨rest', isRest', perm⟩ := ih isRest
    exact ⟨_, encodeItems_cons.2 ⟨bytes, rest', isBytes, isRest', rfl⟩, perm.cons bytes⟩
  | swap first second rest =>
    obtain ⟨bytes, _, isBytes, isTail, rfl⟩ := encodeItems_cons.1 encoded
    obtain ⟨bytes', rest, isBytes', isRest, rfl⟩ := encodeItems_cons.1 isTail
    exact ⟨_, encodeItems_cons.2 ⟨bytes', _, isBytes',
      encodeItems_cons.2 ⟨bytes, rest, isBytes, isRest, rfl⟩, rfl⟩, .swap ..⟩
  | trans _ _ ih ih' =>
    obtain ⟨_, encoded', perm⟩ := ih encoded
    obtain ⟨blobs', encoded'', perm'⟩ := ih' encoded'
    exact ⟨blobs', encoded'', perm'.trans perm⟩

theorem derEncodeSet_eq (inMemory : InMemory blobs) (perm : (qsort blobs).Perm blobs) :
    derEncodeSet qsort blobs = answer (setOf (qsort blobs)) := by
  have fits := inMemory.encoding
  have short := encodeLenSize_le_five (by omega : blobs.flatten.length < 0x100000000)
  have size : (setOf (qsort blobs)).length =
      blobs.flatten.length + (1 + encodeLenSize blobs.flatten.length) := by
    rw [setOf, List.length_append, List.length_cons, encodeLen_length, perm.flatten.length_eq]
    omega
  have rest : subWord (setOf (qsort blobs)).length (encodeLenSize blobs.flatten.length + 1) =
      (qsort blobs).flatten.length := by
    rw [subWord_eq, perm.flatten.length_eq]
    omega
  have word : (setOf (qsort blobs)).length < 0x100000000 := by omega
  funext space
  simp only [derEncodeSet, Nat.mod_eq_of_lt (by omega : blobs.flatten.length < 0x100000000),
    ← size, Nat.mod_eq_of_lt word, rest]
  cases space with
  | none => rfl
  | some => exact (apply_ite (Prod.mk _) _ _ _).symm

/-- The encoding has the elements in the order of X.690, and the order in which they are
given does not matter. -/
theorem derEncodeSet_canonical (sorts : Sorts qsort) (inMemory : InMemory blobs) :
    ∃ sorted : List Blob, sorted.Perm blobs ∧ sorted.Pairwise PaddedLE ∧
      (∀ others, others.Perm blobs → derEncodeSet qsort others = answer (setOf sorted)) ∧
      ∀ (Item : Type) (encode : Encoder Item) (items others : List Item),
        encodeItems encode items = .ok blobs → items.Perm others →
        derEncodeItemsAsSet qsort encode others = answer (setOf sorted) := by
  obtain ⟨perm, -⟩ := sorts blobs inMemory
  have sorted := sorts.le inMemory
  have encoded (others : List Blob) (same : others.Perm blobs) :
      derEncodeSet qsort others = answer (setOf (qsort blobs)) := by
    obtain ⟨perm', -⟩ := sorts others (inMemory.perm same)
    have equal : qsort others = qsort blobs := (perm'.trans (same.trans perm.symm)).eq_of_pairwise
      (fun _ _ _ _ => List.le_antisymm) (sorts.le (inMemory.perm same)) sorted
    rw [← equal]
    exact derEncodeSet_eq (inMemory.perm same) perm'
  refine ⟨qsort blobs, perm, sorted.imp paddedLE_of_le, encoded, ?_⟩
  intro Item encode items others isBlobs same
  obtain ⟨blobs', isBlobs', same'⟩ := encodeItems_perm same isBlobs
  funext space
  rw [derEncodeItemsAsSet, isBlobs']
  exact congrFun (encoded blobs' same') space

/-- The library's merge sort can stand for `qsort`. -/
theorem sorts_mergeSort : Sorts (·.mergeSort (· ≤ ·)) := by
  intro blobs inMemory
  have perm := List.mergeSort_perm blobs (· ≤ ·)
  refine ⟨perm, (List.pairwise_mergeSort ?_ ?_ blobs).imp_of_mem ?_⟩
  · exact fun _ _ _ first second =>
      decide_eq_true (List.le_trans (of_decide_eq_true first) (of_decide_eq_true second))
  · exact fun first second => by simpa using List.le_total first second
  · intro first second mem mem' le
    exact (blobComp_nonpos_iff (inMemory.blob _ (perm.subset mem))
      (inMemory.blob _ (perm.subset mem'))).2 (of_decide_eq_true le)

theorem derEncodeSet_canonical_two :
    ∃ sorted : List Blob, sorted.Perm [[2, 1, 7], [2, 1, 5]] ∧ sorted.Pairwise PaddedLE ∧
      ∀ others, others.Perm [[2, 1, 7], [2, 1, 5]] →
        derEncodeSet (·.mergeSort (· ≤ ·)) others = answer (setOf sorted) :=
  (derEncodeSet_canonical sorts_mergeSort ⟨by decide, by decide⟩).imp
    fun _ all => ⟨all.1, all.2.1, all.2.2.1⟩

end Winex.Asn
