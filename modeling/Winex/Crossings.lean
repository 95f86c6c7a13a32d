import Mathlib.Algebra.Order.Ring.Int
import Mathlib.Algebra.Ring.Parity
import Mathlib.Algebra.BigOperators.Group.List.Basic
import Winex.SpanList

namespace Winex.Banding

open List

/-!
# Crossings of a line

A line crosses some boundaries, listed from left to right.  Two by two they give the
spans of the even-odd rule.  For the winding rule only those count at which the sum of
the directions enters or leaves zero.
-/

/-- Take crossings two by two. -/
def pairSpans (crossings : List α) : List (Span α) :=
  match crossings with
  | left :: right :: rest => ⟨left, right⟩ :: pairSpans rest
  | _ => []

@[simp] theorem pairSpans_nil : pairSpans ([] : List α) = [] :=
  rfl

@[simp] theorem pairSpans_cons_cons (left right : α) (rest : List α) :
    pairSpans (left :: right :: rest) = ⟨left, right⟩ :: pairSpans rest :=
  rfl

variable {crossings : List α}

theorem left_mem_of_mem_pairSpans {span : Span α} (member : span ∈ pairSpans crossings) :
    span.left ∈ crossings := by
  fun_induction pairSpans crossings with
  | case1 _ _ _ ih =>
    rcases mem_cons.mp member with isHead | inRest
    · simp [isHead]
    · simp [ih inRest]
  | case2 => simp at member

theorem covers_pairSpans [LinearOrder α] (sorted : crossings.Pairwise (· ≤ ·))
    (even : Even crossings.length) (point : α) :
    Covers (pairSpans crossings) point ↔
      Odd (crossings.countP fun crossing => crossing ≤ point) := by
  fun_induction pairSpans crossings with
  | case1 left right rest ih =>
    obtain ⟨leftFirst, rightSorted⟩ := pairwise_cons.mp sorted
    obtain ⟨rightFirst, restSorted⟩ := pairwise_cons.mp rightSorted
    have restEven : Even rest.length := by simpa [Nat.even_add_one] using even
    rw [covers_cons]
    by_cases past : right ≤ point
    · -- Both crossings lie before the point.
      have leftPast := le_trans (leftFirst right (by simp)) past
      have outside : ¬ (⟨left, right⟩ : Span α).Contains point :=
        fun inside => absurd past (not_le.mpr inside.2)
      rw [ih restSorted restEven]
      simp [outside, past, leftPast, Nat.odd_add_one]
    -- All later crossings lie behind the point.
    have restBehind : ∀ crossing ∈ rest, ¬ crossing ≤ point :=
      fun crossing member before => past (le_trans (rightFirst crossing member) before)
    have noneBefore : rest.countP (fun crossing => crossing ≤ point) = 0 := by
      rw [countP_eq_zero]
      intro crossing member
      simpa using restBehind crossing member
    have uncovered : ¬ Covers (pairSpans rest) point := by
      rintro ⟨span, member, contains⟩
      exact restBehind span.left (left_mem_of_mem_pairSpans member) contains.1
    by_cases reached : left ≤ point
    · simp [Span.Contains, reached, past, noneBefore, not_le.mp past]
    · simp [Span.Contains, reached, past, noneBefore, uncovered]
  | case2 crossings short =>
    rcases crossings with _ | ⟨only, _ | ⟨second, rest⟩⟩
    · simp
    · simp at even
    · exact (short only second rest rfl).elim

theorem pairSpans_append (even : Even crossings.length) (others : List α) :
    pairSpans (crossings ++ others) = pairSpans crossings ++ pairSpans others := by
  fun_induction pairSpans crossings with
  | case1 _ _ rest ih =>
    have restEven : Even rest.length := by simpa [Nat.even_add_one] using even
    simp [ih restEven]
  | case2 crossings short =>
    rcases crossings with _ | ⟨only, _ | ⟨second, rest⟩⟩
    · rfl
    · simp at even
    · exact (short only second rest rfl).elim

section Proper

variable [LinearOrder α]

variable {crossings : List α}

theorem le_of_mem_pairSpans (sorted : crossings.Pairwise (· ≤ ·)) {span : Span α}
    (member : span ∈ pairSpans crossings) : span.left ≤ span.right := by
  fun_induction pairSpans crossings with
  | case1 _ right _ ih =>
    obtain ⟨first, restSorted⟩ := pairwise_cons.mp sorted
    rcases mem_cons.mp member with isHead | inRest
    · rw [isHead]
      exact first right (by simp)
    · exact ih (pairwise_cons.mp restSorted).2 inRest
  | case2 => simp at member

theorem pairwise_pairSpans (sorted : crossings.Pairwise (· ≤ ·)) :
    (pairSpans crossings).Pairwise fun earlier later =>
      earlier.right ≤ later.left := by
  fun_induction pairSpans crossings with
  | case1 _ _ _ ih =>
    obtain ⟨rightFirst, restSorted⟩ := pairwise_cons.mp (pairwise_cons.mp sorted).2
    refine pairwise_cons.mpr ⟨?_, ih restSorted⟩
    exact fun later member => rightFirst _ (left_mem_of_mem_pairSpans member)
  | case2 => exact List.Pairwise.nil

/-- The spans that hold a point. -/
def properSpans (spans : List (Span α)) : List (Span α) :=
  spans.filter fun span => span.left ≠ span.right

theorem covers_properSpans (spans : List (Span α)) (point : α) :
    Covers (properSpans spans) point ↔ Covers spans point := by
  constructor
  · rintro ⟨span, member, contains⟩
    exact ⟨span, mem_of_mem_filter member, contains⟩
  · rintro ⟨span, member, contains⟩
    refine ⟨span, mem_filter.mpr ⟨member, ?_⟩, contains⟩
    simpa using ne_of_lt (lt_of_le_of_lt contains.1 contains.2)

theorem separated_properSpans (sorted : crossings.Pairwise (· ≤ ·))
    (apart : ∀ earlier ∈ properSpans (pairSpans crossings),
      ∀ later ∈ properSpans (pairSpans crossings), earlier.right ≠ later.left) :
    Separated (properSpans (pairSpans crossings)) := by
  refine ⟨fun span member => ?_, ?_⟩
  · obtain ⟨isSpan, proper⟩ := mem_filter.mp member
    exact lt_of_le_of_ne (le_of_mem_pairSpans sorted isSpan) (by simpa using proper)
  · have following :=
      (pairwise_pairSpans sorted).sublist
        (filter_sublist (p := fun span : Span α => span.left ≠ span.right))
    refine following.imp_of_mem fun earlierMember laterMember ordered => ?_
    exact lt_of_le_of_ne ordered (apart _ earlierMember _ laterMember)

theorem separated_of_steady {crossings : List Int} (sorted : crossings.Pairwise (· ≤ ·))
    (steady : ∀ crossing ∈ crossings, Covers (pairSpans crossings) (crossing - 1) →
      ¬ Covers (pairSpans crossings) crossing) : Separated (properSpans (pairSpans crossings)) := by
  refine separated_properSpans sorted ?_
  intro earlier earlierMember later laterMember _
  obtain ⟨isEarlier, earlierProper⟩ := mem_filter.mp earlierMember
  obtain ⟨isLater, laterProper⟩ := mem_filter.mp laterMember
  have earlierOrdered := le_of_mem_pairSpans sorted isEarlier
  have laterOrdered := le_of_mem_pairSpans sorted isLater
  simp only [decide_eq_true_eq] at earlierProper laterProper
  refine steady later.left (left_mem_of_mem_pairSpans isLater)
    ⟨earlier, isEarlier, ?_⟩ ⟨later, isLater, ?_⟩
  all_goals
    unfold Span.Contains
    omega

end Proper

section Winding

variable (direction : β → Int)

/-- The crossings at which the running sum enters or leaves zero. -/
def turningPoints (sum : Int) (crossings : List β) : List β :=
  match crossings with
  | [] => []
  | crossing :: rest =>
    let next := sum + direction crossing
    if sum = 0 ↔ next = 0 then turningPoints next rest
    else crossing :: turningPoints next rest

variable (sum : Int)

theorem turningPoints_sublist (crossings : List β) :
    (turningPoints direction sum crossings).Sublist crossings := by
  induction crossings generalizing sum with
  | nil => exact List.Sublist.refl _
  | cons crossing _ ih =>
    unfold turningPoints
    dsimp only
    split
    · exact (ih _).cons crossing
    · exact (ih _).cons_cons crossing

/-- The number of turning points tells whether the sum left zero. -/
theorem odd_length_turningPoints (crossings : List β) :
    Odd (turningPoints direction sum crossings).length ↔
      ¬ (sum = 0 ↔ sum + (crossings.map direction).sum = 0) := by
  induction crossings generalizing sum with
  | nil => simp [turningPoints]
  | cons crossing _ ih =>
    have restOdd := ih (sum + direction crossing)
    unfold turningPoints
    dsimp only
    rw [map_cons, sum_cons, ← add_assoc]
    split
    next stays => rw [restOdd, stays]
    next turns =>
      rw [length_cons, Nat.odd_add_one]
      tauto

variable {crossings : List β} {position : β → α}

theorem countP_turningPoints [LinearOrder α]
    (sorted : crossings.Pairwise fun earlier later => position earlier ≤ position later) (point : α)
    (sum : Int) :
    (turningPoints direction sum crossings).countP (fun crossing => position crossing ≤ point) =
      (turningPoints direction sum
        (crossings.filter fun crossing => position crossing ≤ point)).length := by
  induction crossings generalizing sum with
  | nil => rfl
  | cons crossing rest ih =>
    obtain ⟨first, restSorted⟩ := pairwise_cons.mp sorted
    by_cases before : position crossing ≤ point
    · have restCount := ih restSorted (sum + direction crossing)
      rw [filter_cons_of_pos (by simpa using before)]
      unfold turningPoints
      dsimp only
      split
      · exact restCount
      · simp [before, restCount]
    · have behind : ∀ later ∈ crossing :: rest, ¬ position later ≤ point := by
        intro later member reached
        rcases mem_cons.mp member with isHead | inRest
        · exact before (isHead ▸ reached)
        · exact before (le_trans (first later inRest) reached)
      have noneKept :
          (crossing :: rest).filter (fun crossing => position crossing ≤ point) = [] := by
        rw [filter_eq_nil_iff]
        intro later member
        simpa using behind later member
      rw [noneKept, turningPoints, length_nil, countP_eq_zero]
      intro later member
      simpa using behind later ((turningPoints_sublist _ _ _).subset member)

theorem turningPoints_append (first second : List β) :
    turningPoints direction sum (first ++ second) =
      turningPoints direction sum first ++
        turningPoints direction (sum + (first.map direction).sum) second := by
  induction first generalizing sum with
  | nil => simp [turningPoints]
  | cons _ _ ih =>
    rw [cons_append, turningPoints, turningPoints, ih, map_cons, sum_cons, add_assoc]
    split <;> simp

theorem bounds_of_turningPoints_ne_nil
    (unit : ∀ crossing ∈ crossings, direction crossing = 1 ∨ direction crossing = -1)
    (away : sum ≠ 0) (turns : turningPoints direction sum crossings ≠ []) :
    sum - crossings.countP (fun crossing => direction crossing = -1) ≤ 0 ∧
      0 ≤ sum + crossings.countP (fun crossing => direction crossing = 1) := by
  induction crossings generalizing sum with
  | nil => simp [turningPoints] at turns
  | cons crossing _ ih =>
    obtain ⟨step, restUnit⟩ := forall_mem_cons.mp unit
    have restBounds := ih (sum + direction crossing) restUnit
    unfold turningPoints at turns
    by_cases reached : sum + direction crossing = 0
    · rcases step with forwards | backwards
      · simp [forwards] at reached ⊢
        omega
      · simp [backwards] at reached ⊢
        omega
    · rw [if_pos (by simp [away, reached])] at turns
      have := restBounds reached turns
      rcases step with forwards | backwards
      · simp [forwards] at this ⊢
        omega
      · simp [backwards] at this ⊢
        omega

theorem filter_le_append_filter [LinearOrder α]
    (sorted : crossings.Pairwise fun earlier later => position earlier ≤ position later) (point : α)
    :
    (crossings.filter fun crossing => position crossing ≤ point) ++
        (crossings.filter fun crossing => ¬ position crossing ≤ point) =
      crossings := by
  induction crossings with
  | nil => rfl
  | cons crossing rest ih =>
    obtain ⟨first, restSorted⟩ := pairwise_cons.mp sorted
    have restSplit := ih restSorted
    by_cases before : position crossing ≤ point
    · simpa [before] using restSplit
    have behind : ∀ later ∈ rest, ¬ position later ≤ point :=
      fun later member reached => before (le_trans (first later member) reached)
    have noneBefore : rest.filter (fun crossing => position crossing ≤ point) = [] := by
      rw [filter_eq_nil_iff]
      intro later member
      simpa using behind later member
    have allBehind : (crossing :: rest).filter (fun crossing => ¬ position crossing ≤ point) =
        crossing :: rest := by
      simpa using And.intro before behind
    rw [allBehind, filter_cons_of_neg (by simpa using before), noneBefore, nil_append]

end Winding

end Winex.Banding
