import Mathlib.Data.List.Infix
import Winex.PathCanonicalize

namespace Winex.Shlwapi

open List

/-!
# Masks for names

`PathMatchSpecW` tries the masks of a list one after the other, each together with the rest
of the list behind it.  Characters are compared by what `toupperW` makes of them, and
`CharNextW` is one character further.
-/

/-- `lstrcmpW`, which `CompareStringW` makes a comparison character by character. -/
def lstrcmpW (first second : WString) : Int :=
  if first = second then 0 else if first < second then -1 else 1

variable (toupperW : UInt16 → UInt16)

/-- `PathMatchSingleMaskW`.  The last of the suffixes that are tried for a `*` is empty. -/
def pathMatchSingleMask : WString → WString → Bool
  | [], mask =>
    let rest := mask.dropWhile (· == 0x2a)
    rest = [] ∨ rest.head? = some 0x3b
  | _ :: _, [] => false
  | first :: name, char :: mask =>
    if char = 0x3b then false
    else if char = 0x2a then
      (first :: name).tails.any fun suffix => pathMatchSingleMask suffix mask
    else if toupperW char ≠ toupperW first ∧ char ≠ 0x3f then false
    else pathMatchSingleMask name mask

/-- The loop of `PathMatchSpecW`. -/
def matchMasks (name mask : WString) : Bool :=
  if mask = [] then false
  else if pathMatchSingleMask toupperW name mask then true
  else
    match _next : mask.dropWhile (· != 0x3b) with
    | [] => false
    | _ :: rest => matchMasks name (rest.dropWhile (· == 0x20))
termination_by mask.length
decreasing_by
  have shorter := (dropWhile_suffix (· != 0x3b) (l := mask)).length_le
  have spaces := (dropWhile_suffix (· == 0x20) (l := rest)).length_le
  rw [_next, length_cons] at shorter
  omega

/-- `PathMatchSpecW` -/
def pathMatchSpec (name mask : WString) : Bool :=
  if lstrcmpW mask [0x2a, 0x2e, 0x2a] = 0 then true else matchMasks toupperW name mask

/-- A mask stands for a whole name. -/
def Matches : WString → WString → Prop
  | [], name => name = []
  | char :: mask, name =>
    if char = 0x2a then ∃ rest, rest <:+ name ∧ Matches mask rest
    else
      ∃ first rest, name = first :: rest ∧ (char = 0x3f ∨ toupperW char = toupperW first) ∧
        Matches mask rest

/-- The masks of a list. -/
def masks (mask : WString) : List WString :=
  match mask.splitOn 0x3b with
  | [] => []
  | first :: others => first :: others.map (dropWhile (· == 0x20))

/-- All masks but an empty one at the end of the list. -/
def tried (mask : WString) : List WString :=
  if (masks mask).getLast? = some [] then (masks mask).dropLast else masks mask

variable (name mask : WString)

theorem pathMatchSingleMask_iff :
    pathMatchSingleMask toupperW name mask = true ↔
      Matches toupperW (mask.takeWhile (· != 0x3b)) name := by
  induction mask generalizing name with
  | nil => cases name <;> simp [pathMatchSingleMask, Matches]
  | cons char mask ih =>
    by_cases ends : char = 0x3b
    · cases name <;> simp [pathMatchSingleMask, Matches, ends]
    rw [takeWhile_cons_of_pos (by simpa), Matches]
    by_cases star : char = 0x2a
    · rw [if_pos star]
      cases name with
      | nil =>
        have := ih []
        simp_all [pathMatchSingleMask]
      | cons first name =>
        simp only [pathMatchSingleMask, if_neg ends, if_pos star, any_eq_true, mem_tails, ih]
    · rw [if_neg star]
      cases name with
      | nil => simp [pathMatchSingleMask, star, ends]
      | cons first name => simp [pathMatchSingleMask, star, ends, ih, or_comm]

/-- The masks behind a separator are those of the text behind the spaces that follow. -/
theorem map_splitOn (rest : WString) :
    (rest.splitOn 0x3b).map (dropWhile (· == 0x20)) = masks (rest.dropWhile (· == 0x20)) := by
  induction rest with
  | nil => rfl
  | cons char rest ih =>
    obtain ⟨first, others, parts⟩ := exists_cons_of_ne_nil (splitOn_ne_nil 0x3b rest)
    by_cases space : char = 0x20
    · simpa [splitOn_cons_eq_if_modifyHead, parts, space] using ih
    · by_cases ends : char = 0x3b
      · simp [masks, splitOn_cons_eq_if_modifyHead, parts, ends]
      · simp [masks, splitOn_cons_eq_if_modifyHead, parts, ends, space]

/-- A list is its first mask and the list behind it. -/
theorem tried_eq {mask : WString} (notEmpty : mask ≠ []) :
    tried mask = mask.takeWhile (· != 0x3b) ::
      match mask.dropWhile (· != 0x3b) with
      | [] => []
      | _ :: rest => tried (rest.dropWhile (· == 0x20)) := by
  have parts := takeWhile_append_dropWhile (p := (· != 0x3b)) (l := mask)
  have first : 0x3b ∉ mask.takeWhile (· != 0x3b) := fun inFirst => by
    simpa using all_eq_true.mp all_takeWhile _ inFirst
  cases next : mask.dropWhile (· != 0x3b) with
  | nil =>
    rw [next, append_nil] at parts
    rw [parts] at first ⊢
    simp [tried, masks, splitOn_eq_singleton first, notEmpty]
  | cons sep rest =>
    have isSep := head?_dropWhile_not (· != 0x3b) mask
    rw [next] at parts isSep
    obtain rfl : sep = 0x3b := by simpa using isSep
    have behind : masks mask =
        mask.takeWhile (· != 0x3b) :: masks (rest.dropWhile (· == 0x20)) := by
      conv_lhs => rw [masks, ← parts, splitOn_append_cons_self_of_not_mem first]
      exact congrArg _ (map_splitOn rest)
    have more : masks (rest.dropWhile (· == 0x20)) ≠ [] := by simp [← map_splitOn]
    dsimp only
    unfold tried
    rw [behind, getLast?_cons_of_ne_nil more, dropLast_cons_of_ne_nil more]
    split <;> rfl

theorem matchMasks_iff :
    matchMasks toupperW name mask = true ↔
      ∃ part ∈ tried mask, Matches toupperW part name := by
  fun_induction matchMasks toupperW name mask with
  | case1 => simp [tried, masks]
  | case2 mask notEmpty found =>
    rw [pathMatchSingleMask_iff] at found
    simp [tried_eq notEmpty, found]
  | case3 mask notEmpty notFound last =>
    rw [pathMatchSingleMask_iff] at notFound
    simp [tried_eq notEmpty, notFound, last]
  | case4 mask notEmpty notFound sep rest next ih =>
    rw [pathMatchSingleMask_iff] at notFound
    simp [tried_eq notEmpty, notFound, next, ih]

/-- A name is accepted exactly if the list is `*.*` or one of its masks, other than an empty
last one, stands for the name. -/
theorem pathMatchSpec_iff :
    pathMatchSpec toupperW name mask = true ↔
      mask = [0x2a, 0x2e, 0x2a] ∨ ∃ part ∈ tried mask, Matches toupperW part name := by
  have equal : lstrcmpW mask [0x2a, 0x2e, 0x2a] = 0 ↔ mask = [0x2a, 0x2e, 0x2a] := by
    unfold lstrcmpW
    split_ifs <;> simp_all
  rw [pathMatchSpec, ← equal, ← matchMasks_iff]
  split_ifs <;> simp_all

/-- The only mask of an empty list stands for the empty name, and is not tried. -/
theorem pathMatchSpec_empty :
    pathMatchSpec id [] [] = false ∧ masks [] = [[]] ∧ Matches id [] [] :=
  ⟨by decide +kernel, rfl, rfl⟩

end Winex.Shlwapi
