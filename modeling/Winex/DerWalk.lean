import Winex.DerLength
import Winex.Looping

namespace Winex.Asn

open Looping Nat

/-!
# Walking over encoded values

`CRYPT_FindEncodedLen` skips one value, and the loop of `CRYPT_AsnDecodeSequenceOfAny`
the elements of a sequence.  Both subtract what they skip in 32-bit arithmetic, and rely
on `CRYPT_GetLengthIndefinite` for it to be smaller.
-/

/-- The `DWORD` number of bytes of a value with a definite length. -/
def encodedLength (input : Input) (len : Nat) : Nat :=
  (1 + getLenBytes (input 1) + len) % 0x100000000

/-! ## One value -/

/-- The variables of `CRYPT_FindEncodedLen`; the pointer is an offset into the
input. -/
structure Find where
  offset : Nat
  cbEncoded : Nat
  indefiniteNestingLevels : Nat
  decoded : Nat
deriving DecidableEq

/-- The variables behind the tag and the length octets or the value skipped. -/
def Find.skip (state : Find) (count levels : Nat) : Find where
  offset := state.offset + count
  cbEncoded := subWord state.cbEncoded count
  indefiniteNestingLevels := levels
  decoded := (state.decoded + count) % 0x100000000

/-- The result behind the loop. -/
def Find.finish (state : Find) : Except Failure Nat :=
  if state.indefiniteNestingLevels ≠ 0 then .error .eod else .ok state.decoded

/-- The nesting level behind a value: end-of-contents octets close one level. -/
def levelsAfter (here : Input) (levels : Nat) : Nat :=
  if here 0 = 0 ∧ here 1 = 0 ∧ levels ≠ 0 then levels - 1 else levels

/-- One round of the loop of `CRYPT_FindEncodedLen`. -/
def findStep (input : Input) (state : Find) : Find ⊕ Except Failure Nat :=
  if state.cbEncoded = 0 then .inr state.finish
  else
    let here := input.drop state.offset
    match getLengthIndefinite here state.cbEncoded with
    | .error failure => .inr (.error failure)
    | .ok dataLen =>
      if dataLen = indefiniteLength then
        .inl (state.skip (1 + getLenBytes (here 1)) (state.indefiniteNestingLevels + 1))
      else
        let levels := levelsAfter here state.indefiniteNestingLevels
        let state := state.skip (encodedLength here dataLen) levels
        if levels = 0 then .inr state.finish else .inl state

/-- The variables at the beginning. -/
def Find.start (cbEncoded : Nat) : Find :=
  ⟨0, cbEncoded, 0, 0⟩

/-- `CRYPT_FindEncodedLen`, for so many rounds. -/
def findEncodedLen (input : Input) (cbEncoded fuel : Nat) : Option (Except Failure Nat) :=
  run (findStep input) fuel (Find.start cbEncoded)

/-- The header read in this round fits, if one is read. -/
def Find.Fits (input : Input) (state : Find) : Prop :=
  state.cbEncoded ≠ 0 → HeaderFits (input.drop state.offset) state.cbEncoded

/-- What was skipped and what is left are the input, without wrapping. -/
def Find.Within (cbEncoded : Nat) (state : Find) : Prop :=
  state.offset + state.cbEncoded = cbEncoded ∧ state.decoded = state.offset

variable {input : Input} {cbEncoded : Nat} {contents : Input} {dataLen : Nat}

variable {state : Find}

variable (word : cbEncoded < 0x100000000)
include word

theorem findStep_cases (within : state.Within cbEncoded) (fits : state.Fits input) :
    (∀ next, findStep input state = .inl next →
      next.Within cbEncoded ∧ next.cbEncoded < state.cbEncoded) ∧
    ∀ len, findStep input state = .inr (.ok len) → len ≤ cbEncoded := by
  obtain ⟨_, _⟩ := id within
  -- skipping some of the bytes that are left stays inside
  have skipped : ∀ count levels, 1 ≤ count → count ≤ state.cbEncoded →
      (state.skip count levels).Within cbEncoded ∧
        (state.skip count levels).cbEncoded < state.cbEncoded := by
    intro _ _ _ less
    simp only [Find.Within, Find.skip, subWord_eq less]
    omega
  have finished : ∀ other : Find, other.decoded ≤ cbEncoded →
      ∀ len, (.inr other.finish : Find ⊕ Except Failure Nat) = .inr (.ok len) →
        len ≤ cbEncoded := by
    intro _ less _ same
    unfold Find.finish at same
    split at same
    · cases same
    · cases same
      exact less
  unfold findStep
  simp only
  split
  · exact ⟨nofun, finished state (by omega)⟩
  rename_i left
  split
  · exact ⟨nofun, nofun⟩
  rename_i dataLen accepted
  have header := header_le accepted
  split
  · refine ⟨?_, nofun⟩
    rintro next ⟨⟩
    exact skipped _ _ (by omega) header
  rename_i definite
  have fits' := fits left dataLen accepted definite
  have length : encodedLength (input.drop state.offset) dataLen =
      1 + getLenBytes (input.drop state.offset 1) + dataLen :=
    mod_eq_of_lt (by omega)
  rw [length]
  generalize levelsAfter _ _ = levels
  obtain ⟨within', less⟩ := skipped
    (1 + getLenBytes (input.drop state.offset 1) + dataLen) levels (by omega) fits'
  split
  · exact ⟨nofun, finished _ (by unfold Find.Within at within'; omega)⟩
  refine ⟨?_, nofun⟩
  rintro _ ⟨⟩
  exact ⟨within', less⟩

/-- The number of bytes left is a `DWORD`. -/
theorem findStep_word (meets : Meets (findStep input) (Find.start cbEncoded) state) :
    state.cbEncoded < 0x100000000 := by
  refine meets.invariant (fun state => state.cbEncoded < 0x100000000) word ?_
  intro _ _ _ _ went
  unfold findStep at went
  simp only at went
  split at went
  · cases went
  split at went
  · cases went
  split at went
  · cases went
    exact mod_lt _ (by decide)
  split at went
  · cases went
  cases went
  exact mod_lt _ (by decide)

/-- If all headers that are read fit, the loop ends, and the length found lies in the
input. -/
theorem findEncodedLen_le
    (fits : ∀ state, Meets (findStep input) (Find.start cbEncoded) state → state.Fits input) :
    ∃ result, (∀ fuel, cbEncoded < fuel → findEncodedLen input cbEncoded fuel = some result) ∧
      ∀ len, result = .ok len → len ≤ cbEncoded := by
  obtain ⟨state, result, ⟨meets, within⟩, stops, runs⟩ := ends (findStep input)
    (fun state => Meets _ (Find.start cbEncoded) state ∧ state.Within cbEncoded)
    ⟨.start, zero_add _, rfl⟩ Find.cbEncoded <| by
      rintro state state' ⟨meets, within⟩ went
      obtain ⟨within', less⟩ := (findStep_cases word within (fits state meets)).1 state' went
      exact ⟨⟨meets.next went, within'⟩, less⟩
  refine ⟨result, runs, ?_⟩
  rintro len rfl
  exact (findStep_cases word within (fits state meets)).2 len stops

omit word

/-! ## The elements of a sequence -/

/-- The variables of the loop of `CRYPT_AsnDecodeSequenceOfAny`: the offset of `ptr` in the
contents, `remainingLen`, and the elements so far. -/
structure Elements where
  offset : Nat
  remainingLen : Nat
  values : List (Nat × Nat)
deriving DecidableEq

/-- One round of the loop, over the contents of the sequence. -/
def elementStep (contents : Input) (state : Elements) :
    Elements ⊕ Except Failure (List (Nat × Nat)) :=
  if state.remainingLen = 0 then .inr (.ok state.values)
  else
    let here := contents.drop state.offset
    match getLen here state.remainingLen with
    | .error failure => .inr (.error failure)
    | .ok nextLen =>
      let length := encodedLength here nextLen
      .inl
        { offset := state.offset + length
          remainingLen := subWord state.remainingLen length
          values := state.values ++ [(state.offset, length)] }

/-- The variables at the beginning. -/
def Elements.start (dataLen : Nat) : Elements :=
  ⟨0, dataLen, []⟩

/-- `bytesNeeded` behind the loop: the structure, one blob for every element and,
unless `CRYPT_DECODE_NOCOPY_FLAG` is set, the elements themselves. -/
def sequenceOfAnySize (noCopy : Bool) (values : List (Nat × Nat)) : Nat :=
  values.foldl (fun size value => (size + 8 + if noCopy then 0 else value.2) % 0x100000000) 8

/-- `CRYPT_AsnDecodeSequenceOfAny` for so many rounds of its first loop: the size it needs,
and the offsets and lengths of the elements, which the second loop finds in the same way. -/
def decodeSequenceOfAny (input : Input) (cbEncoded : Nat) (noCopy : Bool) (fuel : Nat) :
    Option (Except Failure (Nat × List (Nat × Nat))) :=
  if input 0 ≠ 0x30 then some (.error .badTag)
  else
    match getLen input cbEncoded with
    | .error failure => some (.error failure)
    | .ok dataLen =>
      (run (elementStep (input.drop (1 + getLenBytes (input 1)))) fuel
        (Elements.start dataLen)).map fun result =>
          result.map fun values => (sequenceOfAnySize noCopy values, values)

theorem getLen_ok_iff {len : Nat} :
    getLen input cbEncoded = .ok len ↔
      getLengthIndefinite input cbEncoded = .ok len ∧ len ≠ indefiniteLength := by
  unfold getLen
  rcases getLengthIndefinite input cbEncoded with _ | len'
  · simp
  by_cases definite : len' = indefiniteLength
  · simp [definite, eq_comm]
  · simp only [if_neg definite, Except.ok.injEq]
    exact ⟨fun same => ⟨same, same ▸ definite⟩, And.left⟩

/-- The header of an element fits in what remains of the contents, if one is read. -/
def Elements.Fits (contents : Input) (state : Elements) : Prop :=
  state.remainingLen ≠ 0 → HeaderFits (contents.drop state.offset) state.remainingLen

/-- The number of bytes of the elements. -/
def totalLength (values : List (Nat × Nat)) : Nat :=
  values.foldl (fun sum value => sum + value.2) 0

/-- The elements skipped and what remains are the contents, without wrapping. -/
def Elements.Within (dataLen : Nat) (state : Elements) : Prop :=
  state.offset + state.remainingLen = dataLen ∧ state.offset = totalLength state.values

theorem elementStep_within {state next : Elements} (word : dataLen < 0x100000000)
    (within : state.Within dataLen) (fits : state.Fits contents)
    (went : elementStep contents state = .inl next) :
    next.Within dataLen ∧ next.remainingLen < state.remainingLen := by
  obtain ⟨_, sum⟩ := within
  unfold elementStep at went
  simp only at went
  split at went
  · cases went
  rename_i left
  split at went
  · cases went
  rename_i nextLen accepted
  obtain ⟨accepted', definite⟩ := getLen_ok_iff.mp accepted
  have fits' := fits left nextLen accepted' definite
  have length : encodedLength (contents.drop state.offset) nextLen =
      1 + getLenBytes (contents.drop state.offset 1) + nextLen :=
    mod_eq_of_lt (by omega)
  cases went
  rw [length]
  unfold totalLength at sum
  simp [Elements.Within, totalLength, subWord_eq fits']
  omega

/-- The number of bytes left is a `DWORD`. -/
theorem elementStep_word {state : Elements} (word : dataLen < 0x100000000)
    (meets : Meets (elementStep contents) (Elements.start dataLen) state) :
    state.remainingLen < 0x100000000 := by
  refine meets.invariant (fun state => state.remainingLen < 0x100000000) word ?_
  intro _ _ _ _ went
  unfold elementStep at went
  simp only at went
  split at went
  · cases went
  split at went
  · cases went
  cases went
  exact mod_lt _ (by decide)

/-- The loop over the elements of a sequence: all headers fit, the number of bytes left
never wraps, and exactly the contents are skipped. -/
structure ElementsContained (contents : Input) (dataLen : Nat) : Prop where
  fits : ∀ state, Meets (elementStep contents) (Elements.start dataLen) state → state.Fits contents
  within :
    ∀ state, Meets (elementStep contents) (Elements.start dataLen) state → state.Within dataLen
  ends : ∃ result, (∀ fuel, dataLen < fuel →
    run (elementStep contents) fuel (Elements.start dataLen) = some result) ∧
    ∀ values, result = .ok values → totalLength values = dataLen

/-- The loop is contained exactly if none of the headers it reads overruns. -/
theorem elementsContained_iff (word : dataLen < 0x100000000) :
    ElementsContained contents dataLen ↔
      ∀ state, Meets (elementStep contents) (Elements.start dataLen) state →
        state.remainingLen ≠ 0 →
        ¬Overruns (contents.drop state.offset) state.remainingLen := by
  constructor
  · intro contained state meets left
    exact (headerFits_iff (elementStep_word word meets)).mp (contained.fits state meets left)
  · intro noOverrun
    have fits : ∀ state, Meets (elementStep contents) (Elements.start dataLen) state →
        state.Fits contents := by
      intro state meets left
      exact (headerFits_iff (elementStep_word word meets)).mpr (noOverrun state meets left)
    have within : ∀ state, Meets (elementStep contents) (Elements.start dataLen) state →
        state.Within dataLen := by
      intro state meets
      refine meets.invariant (Elements.Within dataLen) ⟨zero_add _, rfl⟩ ?_
      intro state _ meets within went
      exact (elementStep_within word within (fits state meets) went).1
    refine ⟨fits, within, ?_⟩
    obtain ⟨state, result, meets, stops, runs⟩ :=
      Looping.ends _ _ .start Elements.remainingLen fun state state' meets went =>
        ⟨.next meets went, (elementStep_within word (within state meets) (fits state meets) went).2⟩
    refine ⟨result, runs, ?_⟩
    rintro _ rfl
    obtain ⟨_, _⟩ := within state meets
    unfold elementStep at stops
    simp only at stops
    split at stops
    next empty =>
      cases stops
      omega
    · split at stops <;> cases stops

theorem sequenceOfAnySize_eq (noCopy : Bool) (values : List (Nat × Nat)) :
    sequenceOfAnySize noCopy values =
      (8 + 8 * values.length + if noCopy then 0 else totalLength values) % 0x100000000 := by
  unfold sequenceOfAnySize totalLength
  induction values using List.reverseRecOn with
  | nil => simp
  | append_singleton _ _ ih =>
    simp only [List.foldl_append, List.foldl_cons, List.foldl_nil, ih, List.length_append,
      List.length_singleton]
    split <;> omega

/-- If the loop is contained, the elements found fill the contents, and the size is that of
the structure, the blobs and, if they are copied, the contents. -/
theorem ElementsContained.decodeSequenceOfAny (tagged : input 0 = 0x30)
    (accepted : getLen input cbEncoded = .ok dataLen) (noCopy : Bool)
    (contained : ElementsContained (input.drop (1 + getLenBytes (input 1))) dataLen) :
    ∃ result, (∀ fuel, dataLen < fuel →
      decodeSequenceOfAny input cbEncoded noCopy fuel = some result) ∧
      ∀ size values, result = .ok (size, values) → totalLength values = dataLen ∧
        size = (8 + 8 * values.length + if noCopy then 0 else dataLen) % 0x100000000 := by
  obtain ⟨result, runs, filled⟩ := contained.ends
  refine ⟨result.map fun values => (sequenceOfAnySize noCopy values, values), ?_, ?_⟩
  · intro fuel enough
    simp [Asn.decodeSequenceOfAny, tagged, accepted, runs fuel enough]
  · cases result with
    | error => nofun
    | ok values =>
      rintro _ _ ⟨⟩
      rw [sequenceOfAnySize_eq, filled values rfl]
      exact ⟨rfl, rfl⟩

/-- The bounds on lengths hold on an input exactly if no header that is read overruns:
the one in front, those `CRYPT_FindEncodedLen` reads, and those of the elements of a
sequence. -/
theorem lengths_contained_iff (input : Input) {cbEncoded : Nat} (word : cbEncoded < 0x100000000) :
    (HeaderFits input cbEncoded ↔ ¬Overruns input cbEncoded) ∧
    (((∀ state, Meets (findStep input) (Find.start cbEncoded) state → state.Fits input) ∧
      ∃ result, (∀ fuel, cbEncoded < fuel → findEncodedLen input cbEncoded fuel = some result) ∧
        ∀ len, result = .ok len → len ≤ cbEncoded) ↔
      ∀ state, Meets (findStep input) (Find.start cbEncoded) state → state.cbEncoded ≠ 0 →
        ¬Overruns (input.drop state.offset) state.cbEncoded) ∧
    ∀ dataLen, getLen input cbEncoded = .ok dataLen →
      (ElementsContained (input.drop (1 + getLenBytes (input 1))) dataLen ↔
        ∀ state, Meets (elementStep (input.drop (1 + getLenBytes (input 1))))
            (Elements.start dataLen) state →
          state.remainingLen ≠ 0 →
          ¬Overruns (input.drop (1 + getLenBytes (input 1) + state.offset))
            state.remainingLen) := by
  refine ⟨headerFits_iff word, ⟨?_, ?_⟩, ?_⟩
  · rintro ⟨fits, -⟩ state meets left
    exact (headerFits_iff (findStep_word word meets)).mp (fits state meets left)
  · intro noOverrun
    have fits : ∀ state, Meets (findStep input) (Find.start cbEncoded) state →
        state.Fits input := by
      intro state meets left
      exact (headerFits_iff (findStep_word word meets)).mpr (noOverrun state meets left)
    exact ⟨fits, findEncodedLen_le word fits⟩
  intro _ accepted
  have small := getLengthIndefinite_lt (getLen_ok_iff.mp accepted).1
  rw [elementsContained_iff small]
  simp

/-- A sequence of one integer. -/
theorem lengths_contained_integer :
    HeaderFits (Input.ofList [0x30, 3, 2, 1, 5]) 5 ∧
      ElementsContained (Input.drop (Input.ofList [0x30, 3, 2, 1, 5]) 2) 3 := by
  have contained := lengths_contained_iff (Input.ofList [0x30, 3, 2, 1, 5])
    (by decide : 5 < 0x100000000)
  refine ⟨contained.1.mpr (by unfold Overruns; decide), ?_⟩
  refine (contained.2.2 3 rfl).mpr ?_
  intro state meets left
  have met : state = Elements.start 3 ∨ state = ⟨3, 0, [(0, 3)]⟩ := by
    refine meets.invariant (fun state => state = Elements.start 3 ∨ state = ⟨3, 0, [(0, 3)]⟩)
      (.inl rfl) ?_
    rintro _ _ - (rfl | rfl) went
    · cases went
      exact .inr rfl
    · cases went
  rcases met with rfl | rfl
  · unfold Overruns
    decide
  · exact absurd rfl left

/-- Two bytes that announce one more: three bytes are found.  In a sequence of three bytes
an element of four makes the number of bytes left wrap. -/
theorem lengths_overrun :
    ¬HeaderFits (Input.ofList [4, 1]) 2 ∧
      findEncodedLen (Input.ofList [4, 1]) 2 3 = some (.ok 3) ∧
      getLen (Input.ofList [0x30, 3, 4, 2, 0xaa]) 5 = .ok 3 ∧
      elementStep (Input.drop (Input.ofList [0x30, 3, 4, 2, 0xaa]) 2) (Elements.start 3) =
        .inl ⟨4, 0xffffffff, [(0, 4)]⟩ := by
  rw [headerFits_iff (by decide)]
  unfold Overruns
  decide

end Winex.Asn
