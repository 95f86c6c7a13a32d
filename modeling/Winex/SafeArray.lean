import Mathlib.Data.Int.ModEq
import Mathlib.Tactic.Ring

namespace Winex.SafeArray

/-!
# The data of a safe array

The place of an element of a safe array is computed from its indices, the last one
running fastest.  Which indices are accepted, where their element lies and how much is
allocated are three computations in 32-bit arithmetic.
-/

/-- `VARTYPE_SIZE`; the types behind `VT_UI1` are not supported. -/
def vartypeSize (vt : Nat) : Nat :=
  [0, 0, 2, 4, 4, 8, 8, 8, 4, 4, 4, 4, 16, 4, 16, 0, 0, 1].getD vt 0

/-- `SAFEARRAYBOUND`. -/
structure Bound where
  cElements : Nat
  lLbound : Int
  ulong : cElements < 0x100000000
  long : -0x80000000 ≤ lLbound ∧ lLbound < 0x80000000

/-- `SAFEARRAY`, with the bytes of the data block from `pvData` on. -/
structure Descriptor where
  cbElements : Nat
  rgsabound : List Bound
  room : Nat

/-- A value as a `LONG`. -/
def toLong (value : Int) : Int :=
  (value + 0x80000000) % 0x100000000 - 0x80000000

/-- `SafeArrayGetUBound`. -/
def Bound.upper (bound : Bound) : Int :=
  toLong (bound.lLbound + bound.cElements - 1)

/-- The loop of `validCoordinate`. -/
def validIndices : List Int → List Bound → Prop
  | [], [] => True
  | coor :: coors, bound :: bounds =>
    (bound.lLbound ≤ bound.upper ∧ bound.lLbound ≤ coor ∧ coor ≤ bound.upper) ∧
      validIndices coors bounds
  | _, _ => False

/-- `endOfDim`: the product of the dimensions that run faster. -/
def endOfDim : List Bound → Int
  | [] => 1
  | bound :: bounds => toLong (endOfDim bounds * bound.cElements)

/-- The loop of `calcDisplacement`, with the value of `res`. -/
def calcDisplacement : List Int → List Bound → Int → Int
  | coor :: coors, bound :: bounds, res =>
    calcDisplacement coors bounds
      ((res + toLong (toLong (coor - bound.lLbound) * endOfDim bounds)) % 0x100000000)
  | _, _, res => res

/-- `getArraySize`. -/
def getArraySize (bounds : List Bound) : Nat :=
  bounds.foldl (fun size bound => size * bound.cElements % 0x100000000) 1

namespace Descriptor

variable (psa : Descriptor)

/-- `validCoordinate`. -/
def validCoordinate (coor : List Int) : Prop :=
  psa.rgsabound ≠ [] ∧ validIndices coor psa.rgsabound

/-- Where the element lies behind `pvData`. -/
def elementOffset (coor : List Int) : Int :=
  calcDisplacement coor psa.rgsabound 0 * psa.cbElements % 0x100000000

/-- The elements of accepted indices lie in the data block and apart from each other. -/
def ElementsSafe : Prop :=
  ∀ coor, psa.validCoordinate coor →
    psa.elementOffset coor + psa.cbElements ≤ psa.room ∧
    ∀ other, psa.validCoordinate other → other ≠ coor →
      psa.elementOffset coor + psa.cbElements ≤ psa.elementOffset other ∨
        psa.elementOffset other + psa.cbElements ≤ psa.elementOffset coor

end Descriptor

/-- The bounds in the descriptor: inverted, and `cDims` is a `USHORT`. -/
def inverted (rgsabound : List Bound) : List Bound :=
  (rgsabound.take (rgsabound.length % 0x10000)).reverse

/-- `SafeArrayCreate`, given whether there is memory for the descriptor and the data. -/
def safeArrayCreate (descriptor data : Bool) (vt : Nat) (rgsabound : List Bound) :
    Option Descriptor :=
  if vartypeSize vt = 0 ∨ !descriptor ∨ !data then none
  else some ⟨vartypeSize vt, inverted rgsabound,
    vartypeSize vt * getArraySize (inverted rgsabound) % 0x100000000⟩

/-- `SafeArrayCreateVector`: the data lie behind the 24 bytes of the descriptor in one
block. -/
def safeArrayCreateVector (block : Bool) (vt : Nat) (bound : Bound) : Option Descriptor :=
  if vartypeSize vt = 0 ∨ !block then none
  else some ⟨vartypeSize vt, [bound],
    (24 + vartypeSize vt * bound.cElements) % 0x100000000 - 24⟩

/-! ## Places in row-major order -/

/-- The number of index vectors. -/
def volume : List Bound → Nat
  | [] => 1
  | bound :: bounds => bound.cElements * volume bounds

/-- The place of an index vector, without overflow. -/
def place : List Int → List Bound → Int
  | coor :: coors, bound :: bounds =>
    (coor - bound.lLbound) * volume bounds + place coors bounds
  | _, _ => 0

/-- The index vector at a place. -/
def indicesAt : List Bound → Nat → List Int
  | [], _ => []
  | bound :: bounds, value =>
    (bound.lLbound + (value / volume bounds : Nat)) :: indicesAt bounds (value % volume bounds)

variable {bounds : List Bound} {coors others : List Int}

theorem toLong_modEq (value : Int) : toLong value ≡ value [ZMOD 0x100000000] := by
  unfold toLong Int.ModEq
  omega

theorem endOfDim_modEq (bounds : List Bound) :
    endOfDim bounds ≡ volume bounds [ZMOD 0x100000000] := by
  induction bounds with
  | nil => rfl
  | cons _ _ ih =>
    rw [volume, Nat.mul_comm, Nat.cast_mul]
    exact (toLong_modEq _).trans (ih.mul_right _)

theorem getArraySize_eq (bounds : List Bound) :
    getArraySize bounds = volume bounds % 0x100000000 := by
  have loop (size : Nat) (small : size < 0x100000000) :
      bounds.foldl (fun size bound => size * bound.cElements % 0x100000000) size =
        size * volume bounds % 0x100000000 := by
    induction bounds generalizing size with
    | nil => simpa [volume] using (Nat.mod_eq_of_lt small).symm
    | cons _ _ ih =>
      rw [List.foldl_cons, ih _ (Nat.mod_lt _ (by decide)), Nat.mod_mul_mod, volume, Nat.mul_assoc]
  exact (loop 1 (by decide)).trans (by rw [Nat.one_mul])

theorem calcDisplacement_eq (coors : List Int) (bounds : List Bound) {res : Int}
    (small : 0 ≤ res ∧ res < 0x100000000) :
    calcDisplacement coors bounds res = (res + place coors bounds) % 0x100000000 := by
  induction bounds generalizing coors res with
  | nil => cases coors <;> simp [calcDisplacement, place, Int.emod_eq_of_lt small.1 small.2]
  | cons bound bounds ih =>
    cases coors with
    | nil => simp [calcDisplacement, place, Int.emod_eq_of_lt small.1 small.2]
    | cons coor =>
      rw [calcDisplacement, place, ih _ ⟨Int.emod_nonneg _ (by decide), Int.emod_lt_of_pos _
        (by decide)⟩, Int.emod_add_emod, ← add_assoc]
      have term := (toLong_modEq _).trans
        ((toLong_modEq (coor - bound.lLbound)).mul (endOfDim_modEq bounds))
      exact (term.add_left res).add_right _

variable {bound : Bound} {value : Nat}

/-- A dimension accepts the indices that its count says, unless it has none. -/
theorem upper_eq (accepts : bound.lLbound ≤ bound.upper) (positive : 0 < bound.cElements) :
    bound.upper = bound.lLbound + bound.cElements - 1 := by
  have := bound.ulong
  have := bound.long
  unfold Bound.upper toLong at accepts ⊢
  omega

theorem volume_cons_pos :
    0 < volume (bound :: bounds) ↔ 0 < bound.cElements ∧ 0 < volume bounds := by
  simp [volume, Nat.pos_iff_ne_zero]

theorem accepts_of_valid (valid : validIndices coors bounds) :
    ∀ bound ∈ bounds, bound.lLbound ≤ bound.upper := by
  fun_induction validIndices coors bounds with
  | case1 => exact List.forall_mem_nil _
  | case2 _ _ _ _ ih => exact List.forall_mem_cons.mpr ⟨valid.1.1, ih valid.2⟩
  | case3 => exact valid.elim

theorem place_lt (positive : 0 < volume bounds) (valid : validIndices coors bounds) :
    0 ≤ place coors bounds ∧ place coors bounds < volume bounds := by
  fun_induction validIndices coors bounds with
  | case1 => exact ⟨le_rfl, Int.one_pos⟩
  | case2 coor _ bound bounds ih =>
    obtain ⟨elements, rest⟩ := volume_cons_pos.mp positive
    obtain ⟨nonneg, _⟩ := ih rest valid.2
    obtain ⟨⟨accepts, _, upper⟩, -⟩ := valid
    rw [upper_eq accepts elements] at upper
    have digit := Int.mul_le_mul_of_nonneg_right
      (show coor - bound.lLbound + 1 ≤ bound.cElements by omega)
      (Int.natCast_nonneg (volume bounds))
    rw [add_mul, one_mul] at digit
    rw [volume, Nat.cast_mul, place]
    exact ⟨Int.add_nonneg (Int.mul_nonneg (by omega) (Int.natCast_nonneg _)) nonneg, by omega⟩
  | case3 => exact valid.elim

theorem place_injective (positive : 0 < volume bounds) (valid : validIndices coors bounds)
    (valid' : validIndices others bounds) (same : place coors bounds = place others bounds) :
    coors = others := by
  fun_induction validIndices coors bounds generalizing others with
  | case1 =>
    cases others with
    | nil => rfl
    | cons => exact valid'.elim
  | case2 coor _ bound bounds ih =>
    cases others with
    | nil => exact valid'.elim
    | cons other =>
      obtain ⟨-, rest⟩ := volume_cons_pos.mp positive
      -- quotient and remainder by the volume of the other dimensions
      have unique (digit : Int) {place : Int} (range : 0 ≤ place ∧ place < volume bounds) :=
        (Int.ediv_emod_unique (Int.natCast_pos.mpr rest)).mpr
          ⟨show place + volume bounds * digit = digit * volume bounds + place by ring, range⟩
      have first := unique (coor - bound.lLbound) (place_lt rest valid.2)
      have second := unique (other - bound.lLbound) (place_lt rest valid'.2)
      rw [place, place] at same
      rw [same] at first
      rw [ih rest valid.2 valid'.2 (first.2.symm.trans second.2)]
      congr 1
      omega
  | case3 => exact valid.elim

theorem valid_lower (accepts : ∀ bound ∈ bounds, bound.lLbound ≤ bound.upper) :
    validIndices (bounds.map Bound.lLbound) bounds := by
  induction bounds with
  | nil => trivial
  | cons _ _ ih =>
    rw [List.forall_mem_cons] at accepts
    exact ⟨⟨accepts.1, le_rfl, accepts.1⟩, ih accepts.2⟩

theorem indicesAt_spec (accepts : ∀ bound ∈ bounds, bound.lLbound ≤ bound.upper)
    (below : value < volume bounds) :
    validIndices (indicesAt bounds value) bounds ∧
      place (indicesAt bounds value) bounds = value := by
  induction bounds generalizing value with
  | nil => exact ⟨trivial, by simp [volume] at below; simp [place, indicesAt, below]⟩
  | cons _ _ ih =>
    obtain ⟨elements, rest⟩ := volume_cons_pos.mp (Nat.zero_lt_of_lt below)
    rw [List.forall_mem_cons] at accepts
    obtain ⟨valid, isPlace⟩ := ih accepts.2 (Nat.mod_lt value rest)
    have isUpper := upper_eq accepts.1 elements
    rw [volume, Nat.mul_comm] at below
    have digit := Nat.div_lt_of_lt_mul below
    refine ⟨⟨⟨accepts.1, Int.le_add_of_nonneg_right (Int.natCast_nonneg _), by omega⟩, valid⟩, ?_⟩
    rw [indicesAt, place, isPlace, add_sub_cancel_left, ← Nat.cast_mul, ← Nat.cast_add,
      Nat.div_add_mod']

/-! ## When the elements are safe -/

theorem elementOffset_eq (psa : Descriptor) {coor : List Int}
    (isPlace : place coor psa.rgsabound = value) :
    psa.elementOffset coor = (value * psa.cbElements % 0x100000000 : Nat) := by
  rw [Descriptor.elementOffset, calcDisplacement_eq _ _ (by decide), isPlace, zero_add]
  exact (Int.mod_modEq _ _).mul_right _

theorem elementsSafe_iff {psa : Descriptor} (divides : psa.cbElements ∣ 0x100000000)
    (small : psa.room < 0x100000000) (notEmpty : psa.rgsabound ≠ [])
    (accepts : ∀ bound ∈ psa.rgsabound, bound.lLbound ≤ bound.upper)
    (positive : 0 < volume psa.rgsabound) :
    psa.ElementsSafe ↔ volume psa.rgsabound * psa.cbElements ≤ psa.room := by
  have bytes := Nat.pos_of_dvd_of_pos divides (by decide)
  obtain ⟨count, isCount⟩ := divides
  constructor
  · intro safe
    have at_ {value : Nat} (below : value < volume psa.rgsabound) := indicesAt_spec accepts below
    have turns : count ≠ 0 := by
      rintro rfl
      cases isCount
    by_cases large : count < volume psa.rgsabound
    -- the elements at the places 0 and `count` are the same
    · have zero := at_ positive
      have wrapped := at_ large
      have apart := (safe _ ⟨notEmpty, zero.1⟩).2 _ ⟨notEmpty, wrapped.1⟩ fun same => by
        have := zero.2.symm.trans ((congrArg (place · _) same).symm.trans wrapped.2)
        omega
      rw [elementOffset_eq psa zero.2, elementOffset_eq psa wrapped.2, Nat.mul_comm count] at apart
      omega
    -- the last element is in the block
    · obtain ⟨last, isLast⟩ := Nat.exists_eq_add_of_lt positive
      have final := at_ (show last < volume psa.rgsabound by omega)
      have inside := (safe _ ⟨notEmpty, final.1⟩).1
      have below : (last + 1) * psa.cbElements ≤ 0x100000000 := by
        rw [isCount, Nat.mul_comm]
        exact Nat.mul_le_mul_left _ (by omega)
      rw [elementOffset_eq psa final.2] at inside
      rw [isLast, Nat.zero_add]
      rw [Nat.add_mul] at below ⊢
      omega
  · intro fits coor valid
    have within {coor : List Int} (valid : psa.validCoordinate coor) :
        ∃ value : Nat, place coor psa.rgsabound = value ∧
          value * psa.cbElements + psa.cbElements ≤ psa.room ∧
          psa.elementOffset coor = (value * psa.cbElements : Nat) := by
      obtain ⟨nonneg, less⟩ := place_lt positive valid.2
      obtain ⟨value, isPlace⟩ := Int.eq_ofNat_of_zero_le nonneg
      have ends := (Nat.mul_le_mul_right psa.cbElements
        (show value + 1 ≤ volume psa.rgsabound by omega)).trans fits
      rw [Nat.add_mul, Nat.one_mul] at ends
      refine ⟨value, isPlace, ends, ?_⟩
      rw [elementOffset_eq psa isPlace, Nat.mod_eq_of_lt (by omega)]
    obtain ⟨value, isPlace, _, offset⟩ := within valid
    refine ⟨by omega, fun other valid' differs => ?_⟩
    obtain ⟨value', isPlace', -, offset'⟩ := within valid'
    have apart : value ≠ value' := fun same =>
      differs (place_injective positive valid'.2 valid.2 (by rw [isPlace, isPlace', same]))
    rcases Nat.lt_or_gt_of_ne apart with less | less
    all_goals
      have := Nat.mul_le_mul_right psa.cbElements less
      rw [Nat.succ_mul] at this
      omega

/-- Some dimension accepts no index, or the elements and a header have a size that fits into
32 bits. -/
def Fits (header vt : Nat) (bounds : List Bound) : Prop :=
  (∃ bound ∈ bounds, bound.upper < bound.lLbound) ∨
    0 < volume bounds ∧ header + volume bounds * vartypeSize vt < 0x100000000

theorem vartypeSize_cases (vt : Nat) : vartypeSize vt = 0 ∨ vartypeSize vt ∈ [1, 2, 4, 8, 16] := by
  by_cases isType : vt < 18
  · have all : ∀ vt < 18, vartypeSize vt = 0 ∨ vartypeSize vt ∈ [1, 2, 4, 8, 16] := by decide
    exact all vt isType
  · refine .inl ?_
    rw [vartypeSize, List.getD_eq_getElem?_getD, List.getElem?_eq_none (by simpa using isType)]
    rfl

/-- The data block is what 32-bit arithmetic leaves of a header and the elements. -/
theorem safe_iff_fits {vt : Nat} (supported : vartypeSize vt ≠ 0) {header : Nat}
    (small : header ≤ 24) (bounds : List Bound) :
    (Descriptor.mk (vartypeSize vt) bounds
      ((header + volume bounds * vartypeSize vt) % 0x100000000 - header)).ElementsSafe ↔
      Fits header vt bounds := by
  have size := (vartypeSize_cases vt).resolve_left supported
  have sizes : ∀ size ∈ [1, 2, 4, 8, 16], 0 < size ∧ size ≤ 16 ∧ size ∣ 0x100000000 := by decide
  obtain ⟨bytes, _, divides⟩ := sizes _ size
  by_cases refuses : ∃ bound ∈ bounds, bound.upper < bound.lLbound
  · refine iff_of_true (fun coor valid => ?_) (.inl refuses)
    obtain ⟨bound, isBound, less⟩ := refuses
    exact absurd (accepts_of_valid valid.2 bound isBound) less.not_ge
  have accepts : ∀ bound ∈ bounds, bound.lLbound ≤ bound.upper := by
    simpa only [not_exists, not_and, not_lt] using refuses
  rw [Fits, or_iff_right refuses]
  by_cases empty : bounds = []
  · subst empty
    exact iff_of_true (fun _ valid => absurd rfl valid.1) ⟨Nat.one_pos, by
      rw [show volume [] = 1 from rfl]
      omega⟩
  by_cases positive : 0 < volume bounds
  · rw [elementsSafe_iff divides (by dsimp only; omega) empty accepts positive]
    dsimp only
    omega
  -- no block, but the lower bounds are accepted
  · refine iff_of_false (fun safe => ?_) fun fits => positive fits.1
    have inside := (safe _ ⟨empty, valid_lower accepts⟩).1
    simp only [Descriptor.elementOffset, Nat.eq_zero_of_not_pos positive] at inside
    omega

/-- Created arrays and vectors have safe elements just if their dimensions fit. -/
theorem created_safe_iff (vt : Nat) :
    (∀ descriptor data rgsabound psa, safeArrayCreate descriptor data vt rgsabound = some psa →
      (psa.ElementsSafe ↔ Fits 0 vt (inverted rgsabound))) ∧
    ∀ block bound psa, safeArrayCreateVector block vt bound = some psa →
      (psa.ElementsSafe ↔ Fits 24 vt [bound]) := by
  constructor
  · intro _ _ rgsabound _ created
    unfold safeArrayCreate at created
    split at created
    · cases created
    rename_i allowed
    cases created
    rw [getArraySize_eq, Nat.mul_mod_mod, Nat.mul_comm]
    have := safe_iff_fits (fun zero => allowed (.inl zero)) (Nat.zero_le _) (inverted rgsabound)
    rwa [Nat.zero_add, Nat.sub_zero] at this
  · intro _ bound _ created
    unfold safeArrayCreateVector at created
    split at created
    · cases created
    next allowed =>
      cases created
      have := safe_iff_fits (fun zero => allowed (.inl zero)) (Nat.le_refl 24) [bound]
      rwa [volume, show volume [] = 1 from rfl, Nat.mul_one, Nat.mul_comm] at this

/-- An array of four times 16 elements of two bytes, and a vector of 16. -/
theorem created_safe_small :
    (∃ psa, safeArrayCreate true true 2
        [⟨4, -2, by decide, by decide⟩, ⟨16, 1, by decide, by decide⟩] = some psa ∧
      psa.ElementsSafe) ∧
    ∃ psa, safeArrayCreateVector true 2 ⟨16, 0, by decide, by decide⟩ = some psa ∧
      psa.ElementsSafe :=
  ⟨⟨_, rfl, ((created_safe_iff 2).1 true true _ _ rfl).mpr (.inr (by decide))⟩,
    ⟨_, rfl, ((created_safe_iff 2).2 true _ _ rfl).mpr (.inr (by decide))⟩⟩

/-- An array of 2^32 bytes has no memory, and an element that is accepted. -/
theorem created_wraps :
    ∃ psa, safeArrayCreate true true 17 (List.replicate 2 ⟨0x10000, 0, by decide, by decide⟩) =
      some psa ∧ psa.room = 0 ∧ ¬psa.ElementsSafe := by
  refine ⟨_, rfl, rfl, fun safe => ?_⟩
  have := (safe [0, 0] ⟨List.cons_ne_nil _ _, by decide, by decide, trivial⟩).1
  revert this
  decide

end Winex.SafeArray
