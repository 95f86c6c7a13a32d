import Mathlib.Data.List.Pairwise
import Winex.PageRanges

namespace Winex.Virtual

open Cells List

/-!
# `VirtualQuery` and walks over the address space

`VirtualQuery` reports the region that starts at the page of an address: the pages of
the same protection in a view, or the gap up to the next view.  A walk asks for the
region behind the one it has seen, until it reaches kernel space.

The end of a view that reaches the end of the address space wraps to zero, and its pages
are taken for free.  The index of a page two gigabytes above the base of its view is
negative, and the byte before the array is read.
-/

/-! ## What a query should report -/

/-- The pages of the view from `start` to `stop` have the protection of the first, and the
page behind them has not, or is not in the view. -/
def FileView.LongestRun (view : FileView) (start stop : Nat) : Prop :=
  ∃ first count, start = view.base.toNat + 4096 * first ∧ stop = start + 4096 * count ∧
    first < view.prot.length ∧
    (∀ page < count, view.prot[first + page]? = view.prot[first]?) ∧
    view.prot[first + count]? ≠ view.prot[first]?

/-- The region a query reports. -/
structure ReportsRegion (views : List (ViewPtr × FileView)) (addr : Word)
    (info : MemoryBasicInformation) : Prop where
  start : info.baseAddress.toNat = 4096 * (addr.toNat / 4096)
  nonempty : 0 < info.regionSize.toNat
  inside : (∃ entry ∈ views, entry.2.base.toNat ≤ info.baseAddress.toNat ∧
    info.baseAddress.toNat + info.regionSize.toNat ≤ entry.2.stop ∧
    entry.2.LongestRun info.baseAddress.toNat (info.baseAddress.toNat + info.regionSize.toNat)) ∨
    ∀ entry ∈ views, ∀ address, info.baseAddress.toNat ≤ address →
    address < info.baseAddress.toNat + info.regionSize.toNat → ¬ entry.2.Covers address

/-- The query returns such a region. -/
def QueryCorrect (chain : ViewChain) (views : List (ViewPtr × FileView)) (addr : Word) : Prop :=
  ∃ info, virtualQuery chain addr = .ok (some info) ∧ ReportsRegion views addr info

/-! ## The loop over the pages -/

theorem sameProt_spec (vprot : Byte) (pages : List Byte) (size : Word) :
    ∃ count, sameProt vprot pages size = size + BitVec.ofNat 32 (4096 * count) ∧
      count ≤ pages.length ∧ (∀ page < count, pages[page]? = some vprot) ∧
      pages[count]? ≠ some vprot := by
  fun_induction sameProt vprot pages size with
  | case1 => exact ⟨0, by simp, by simp, by simp, by simp⟩
  | case2 _ _ _ different =>
    exact ⟨0, by simp, by simp, by simp, by simpa using different⟩
  | case3 _ _ _ same ih =>
    obtain ⟨count, sum, few, run, stop⟩ := ih
    refine ⟨count + 1, ?_, by simpa using few, ?_, by simpa using stop⟩
    · have onePage : pageMask + 1 = BitVec.ofNat 32 4096 := by decide
      rw [sum, onePage, BitVec.add_assoc, ← BitVec.ofNat_add, Nat.mul_succ, Nat.add_comm]
    · intro index _
      cases index with
      | zero => simpa using same
      | succ index => simpa using run index (by omega)

/-! ## The search -/

/-- Where the gap at a page without a view ends. -/
def gapEnd (views : List (ViewPtr × FileView)) (base : Word) : Word :=
  match views with
  | [] => 0xffff0000
  | (_, view) :: next =>
    if view.base > base then view.base else gapEnd next base

variable {views : List (ViewPtr × FileView)}

variable (sorted : views.Pairwise fun first second => first.2.base ≤ second.2.base)

include sorted in
theorem queryViewFrom_cases
    (inSpace : ∀ entry ∈ views, entry.2.stop ≤ 2 ^ 32) (base allocBase : Word) :
    (∃ entry ∈ views, entry.2.Covers base.toNat ∧ entry.2.stop < 2 ^ 32 ∧
        queryViewFrom base views allocBase = (some entry.2, entry.2.base, entry.2.size)) ∨
      ((∀ entry ∈ views, entry.2.Covers base.toNat → entry.2.stop = 2 ^ 32) ∧
        ∃ lower,
          queryViewFrom base views allocBase = (none, lower, gapEnd views base - lower)) := by
  fun_induction queryViewFrom base views allocBase with
  | case1 allocBase => exact .inr ⟨by simp, allocBase, rfl⟩
  | case2 _ view _ allocBase beyond =>
    refine .inr ⟨?_, allocBase, by rw [gapEnd, if_pos beyond]⟩
    intro entry member covers
    have notBelow : view.base.toNat ≤ entry.2.base.toNat := by
      rcases mem_cons.mp member with rfl | member
      · exact le_rfl
      · exact BitVec.le_def.mp ((pairwise_cons.mp sorted).1 entry member)
    have above := BitVec.lt_def.mp beyond
    have covered := covers.1
    omega
  | case3 ptr view _ _ notBeyond inside =>
    have range := (FileView.end_gt_iff (inSpace _ (mem_cons_self ..)) base).mp inside
    rw [gt_iff_lt, BitVec.lt_def, not_lt] at notBeyond
    exact .inl ⟨(ptr, view), by simp, ⟨notBeyond, range.1⟩, range.2, rfl⟩
  | case4 _ _ _ _ notBeyond outside ih =>
    have viewSpace := inSpace _ (mem_cons_self ..)
    rcases ih (pairwise_cons.mp sorted).2
      (fun entry member => inSpace entry (mem_cons_of_mem _ member)) with
      ⟨entry, member, facts⟩ | ⟨top, lower, searched⟩
    · exact .inl ⟨entry, mem_cons_of_mem _ member, facts⟩
    refine .inr ⟨?_, lower, by rw [gapEnd, if_neg notBeyond, searched]⟩
    intro entry member covers
    rcases mem_cons.mp member with rfl | member
    · rw [FileView.end_gt_iff viewSpace] at outside
      exact viewSpace.antisymm (not_lt.mp fun below => outside ⟨covers.2, below⟩)
    · exact top entry member covers

variable {base : Word}

theorem gapEnd_spec (views : List (ViewPtr × FileView)) (low : base.toNat < 0xc0000000) :
    base.toNat < (gapEnd views base).toNat ∧ (gapEnd views base).toNat % 4096 = 0 := by
  fun_induction gapEnd views base with
  | case1 =>
    have top : (0xffff0000 : Word).toNat = 0xffff0000 := by decide
    omega
  | case2 _ view _ beyond => exact ⟨BitVec.lt_def.mp beyond, view.baseAligned⟩
  | case3 _ _ _ _ ih => exact ih

include sorted in
theorem gapEnd_le
    {entry : ViewPtr × FileView} (member : entry ∈ views) (beyond : entry.2.base > base) :
    (gapEnd views base).toNat ≤ entry.2.base.toNat := by
  fun_induction gapEnd views base with
  | case1 => cases member
  | case2 =>
    rcases mem_cons.mp member with rfl | member
    · exact le_rfl
    · exact BitVec.le_def.mp ((pairwise_cons.mp sorted).1 entry member)
  | case3 _ _ _ notBeyond ih =>
    rcases mem_cons.mp member with rfl | member
    · exact absurd beyond notBeyond
    · exact ih (pairwise_cons.mp sorted).2 member

theorem WellPlaced.eq_of_covers (placed : WellPlaced views) {first second : ViewPtr × FileView}
    (firstMember : first ∈ views) (secondMember : second ∈ views) {address : Nat}
    (firstCovers : first.2.Covers address) (secondCovers : second.2.Covers address) :
    first = second := by
  by_contra different
  have symmetric : Std.Symm fun first second : ViewPtr × FileView =>
        ∀ address, ¬ (first.2.Covers address ∧ second.2.Covers address) :=
    ⟨fun _ _ apart address both => apart address both.symm⟩
  exact placed.disjoint.forall firstMember secondMember different
    address ⟨firstCovers, secondCovers⟩

/-! ## One query -/

section Query

variable {chain : ViewChain} {views : List (ViewPtr × FileView)} (linked : Linked chain views)
  (placed : WellPlaced views) {addr : Word} (user : ¬ addr ≥ 0xc0000000)

include user in
theorem toNat_page_lt : (roundAddr addr pageMask).toNat < 0xc0000000 := by
  have kernel : (0xc0000000 : Word).toNat = 0xc0000000 := by decide
  rw [ge_iff_le, BitVec.le_def, kernel] at user
  rw [toNat_roundAddr_pageMask]
  omega

variable {page : Word} (isPage : roundAddr addr pageMask = page)

include linked user isPage in
theorem virtualQuery_gap {lower : Word}
    (searched : queryViewFrom page views 0 =
      (none, lower, gapEnd views page - lower)) :
    ∃ info, virtualQuery chain addr = .ok (some info) ∧
      info.baseAddress = page ∧
      info.baseAddress.toNat + info.regionSize.toNat =
        (gapEnd views page).toNat := by
  obtain ⟨inGap, -⟩ := gapEnd_spec views (toNat_page_lt user)
  rw [isPage] at inGap
  rw [virtualQuery, if_neg user, viewsOf_eq linked]
  dsimp only
  rw [isPage, searched]
  refine ⟨_, rfl, rfl, ?_⟩
  generalize gapEnd views page = stop at inGap ⊢
  bv_omega

variable {entry : ViewPtr × FileView}

include linked user isPage in
theorem virtualQuery_view (covers : entry.2.Covers page.toNat)
    (near : ¬ entry.2.Far page)
    (searched : queryViewFrom page views 0 =
      (some entry.2, entry.2.base, entry.2.size)) :
    ∃ info, virtualQuery chain addr = .ok (some info) ∧
      info.baseAddress = page ∧
      0 < info.regionSize.toNat ∧
      info.baseAddress.toNat + info.regionSize.toNat ≤ entry.2.stop ∧
      entry.2.LongestRun info.baseAddress.toNat
        (info.baseAddress.toNat + info.regionSize.toNat) := by
  have pages := entry.2.sizePages
  have viewAligned := entry.2.baseAligned
  have stop : entry.2.stop = entry.2.base.toNat + entry.2.size.toNat := rfl
  have baseAligned := isPage ▸ roundAddr_pageMask_aligned addr
  have index := protIndex_of_near covers.1 (not_le.mp near)
  obtain ⟨_, _⟩ := covers
  have inside : (page.toNat - entry.2.base.toNat) / 4096 <
      entry.2.prot.length := by omega
  have offset : ((page - entry.2.base) >>> pageShift).toNat =
      (page.toNat - entry.2.base.toNat) / 4096 := by
    rw [toNat_pages]
    have difference : (page - entry.2.base).toNat =
        page.toNat - entry.2.base.toNat := by bv_omega
    rw [difference]
  rw [virtualQuery, if_neg user, viewsOf_eq linked]
  dsimp only
  rw [isPage, searched]
  dsimp only
  rw [index, readProt_of_lt inside]
  simp only [bind, Except.bind, get_eq_getElem]
  refine ⟨_, rfl, rfl, ?_⟩
  dsimp only
  rw [offset]
  generalize isFirst :
    (page.toNat - entry.2.base.toNat) / 4096 = first
    at inside ⊢
  obtain ⟨count, sum, few, run, stops⟩ :=
    sameProt_spec entry.2.prot[first] (entry.2.prot.drop first)
      (page - entry.2.base)
  rw [length_drop] at few
  simp only [getElem?_drop] at run stops
  have regionSize : (sameProt entry.2.prot[first] (entry.2.prot.drop first)
        (page - entry.2.base) -
      (page - entry.2.base)).toNat = 4096 * count := by
    rw [sum, BitVec.add_comm, BitVec.add_sub_cancel, BitVec.toNat_ofNat]
    omega
  rw [regionSize]
  have here : entry.2.prot[first]? = some entry.2.prot[first] := getElem?_eq_getElem inside
  have positive : 0 < count := by
    rcases Nat.eq_zero_or_pos count with rfl | positive
    · exact absurd here stops
    · exact positive
  refine ⟨by omega, by omega, first, count, by omega, rfl, inside, ?_, ?_⟩
  · rw [here]
    exact run
  · rw [here]
    exact stops

include linked user isPage in
theorem virtualQuery_far (above : entry.2.base.toNat ≤ page.toNat)
    (far : entry.2.Far page)
    (searched : queryViewFrom page views 0 =
      (some entry.2, entry.2.base, entry.2.size)) :
    virtualQuery chain addr = .error .protOverrun := by
  rw [virtualQuery, if_neg user, viewsOf_eq linked]
  dsimp only
  rw [isPage, searched]
  dsimp only
  rw [readProt_of_neg (protIndex_of_far above far)]
  rfl

/-- The pages that are reported as they should be: the view ends below `2 ^ 32` and the page
lies less than two gigabytes above its base, or the view reaches the end of the address
space and its run of equal protections happens to end where the reported gap does. -/
def Reportable (views : List (ViewPtr × FileView)) (addr : Word) : Prop :=
  ∀ entry ∈ views, entry.2.Covers (roundAddr addr pageMask).toNat →
    (entry.2.stop < 2 ^ 32 ∧ ¬ entry.2.Far (roundAddr addr pageMask)) ∨
      (entry.2.stop = 2 ^ 32 ∧
        entry.2.LongestRun (roundAddr addr pageMask).toNat
          (gapEnd views (roundAddr addr pageMask)).toNat)

include linked placed user in
/-- A query reports what it should, exactly for the reportable pages. -/
theorem queryCorrect_iff : QueryCorrect chain views addr ↔ Reportable views addr := by
  have page := toNat_roundAddr_pageMask addr
  rcases queryViewFrom_cases placed.sorted placed.inSpace (roundAddr addr pageMask) 0 with
    ⟨entry, member, covers, below, searched⟩ | ⟨top, lower, searched⟩
  · by_cases far : entry.2.Far (roundAddr addr pageMask)
    · constructor
      · rintro ⟨info, ran, -⟩
        rw [virtualQuery_far linked user rfl covers.1 far searched] at ran
        cases ran
      · intro reportable
        rcases reportable entry member covers with ⟨-, near⟩ | ⟨top, -⟩
        · exact absurd far near
        · omega
    · constructor
      · intro _ _ otherMember otherCovers
        rw [placed.eq_of_covers otherMember member otherCovers covers]
        exact .inl ⟨below, far⟩
      · intro _
        obtain ⟨info, ran, isBase, nonempty, inView, run⟩ :=
          virtualQuery_view linked user rfl covers far searched
        refine ⟨info, ran, by rw [isBase, page], nonempty, .inl ⟨entry, member, ?_, inView, run⟩⟩
        rw [isBase]
        exact covers.1
  · obtain ⟨inGap, -⟩ := gapEnd_spec views (toNat_page_lt user)
    obtain ⟨info, ran, isBase, isEnd⟩ := virtualQuery_gap linked user rfl searched
    constructor
    · rintro ⟨_, ran', region⟩
      rw [ran] at ran'
      cases ran'
      intro entry member covers
      refine .inr ⟨top entry member covers, ?_⟩
      rcases region.inside with ⟨other, otherMember, above, _, run⟩ | gap
      · have otherCovers : other.2.Covers (roundAddr addr pageMask).toNat := by
          rw [← isBase]
          have nonempty := region.nonempty
          exact ⟨above, by omega⟩
        rw [placed.eq_of_covers member otherMember covers otherCovers]
        rwa [isEnd, isBase] at run
      · rw [isEnd, isBase] at gap
        exact absurd covers (gap entry member _ le_rfl inGap)
    · intro reportable
      refine ⟨info, ran, by rw [isBase, page], ?_, ?_⟩
      · rw [isBase] at isEnd
        omega
      · rw [isEnd, isBase]
        by_cases covered : ∃ entry ∈ views, entry.2.Covers (roundAddr addr pageMask).toNat
        · obtain ⟨entry, member, covers⟩ := covered
          have reaches := top entry member covers
          rcases reportable entry member covers with ⟨_, -⟩ | ⟨-, run⟩
          · omega
          · refine .inl ⟨entry, member, covers.1, ?_, run⟩
            omega
        · refine .inr fun entry member address above before covers => ?_
          by_cases beyond : entry.2.base > roundAddr addr pageMask
          · have behind := gapEnd_le placed.sorted member beyond
            have covered := covers.1
            omega
          · rw [gt_iff_lt, BitVec.lt_def, not_lt] at beyond
            exact covered ⟨entry, member, beyond, lt_of_le_of_lt above covers.2⟩

/-! ## Walks -/

/-- Ask for the region at an address, then for the one behind it, until the query returns
nothing.  There is no result if a query stops the process or the steps do not suffice. -/
def queryWalk (chain : ViewChain) : Nat → Word → Option (List MemoryBasicInformation)
  | 0, _ => none
  | steps + 1, addr =>
    match virtualQuery chain addr with
    | .error _ => none
    | .ok none => some []
    | .ok (some info) =>
      (queryWalk chain steps (info.baseAddress + info.regionSize)).map (info :: ·)

/-- The address lies in the reported region. -/
def MemoryBasicInformation.contains (info : MemoryBasicInformation) (address : Nat) : Bool :=
  info.baseAddress.toNat ≤ address ∧ address < info.baseAddress.toNat + info.regionSize.toNat

/-- The walk from zero ends, and every page of user space is visited once. -/
def WalkCovers (chain : ViewChain) : Prop :=
  ∃ steps regions, queryWalk chain steps 0 = some regions ∧
    ∀ address, address % 4096 = 0 → address < 0xc0000000 →
      regions.countP (fun info => info.contains address) = 1

variable (reportable : ∀ addr : Word, ¬ addr ≥ 0xc0000000 → Reportable views addr)

include linked placed user reportable in
/-- One step of the walk goes to a later page. -/
theorem virtualQuery_step (aligned : addr.toNat % 4096 = 0) :
    ∃ info, virtualQuery chain addr = .ok (some info) ∧
      info.baseAddress = addr ∧ 0 < info.regionSize.toNat ∧
      info.baseAddress.toNat + info.regionSize.toNat < 2 ^ 32 ∧
      (info.baseAddress.toNat + info.regionSize.toNat) % 4096 = 0 := by
  have isPage : roundAddr addr pageMask = addr := by
    apply BitVec.eq_of_toNat_eq
    rw [toNat_roundAddr_pageMask]
    omega
  rcases queryViewFrom_cases placed.sorted placed.inSpace (roundAddr addr pageMask) 0 with
    ⟨entry, member, covers, below, searched⟩ | ⟨top, lower, searched⟩
  · have near : ¬ entry.2.Far (roundAddr addr pageMask) := by
      rcases reportable addr user entry member covers with
        ⟨-, near⟩ | ⟨top, -⟩
      · exact near
      · omega
    obtain ⟨info, ran, isBase, nonempty, _, _, _, -, stop, -⟩ :=
      virtualQuery_view linked user rfl covers near searched
    rw [isPage] at isBase
    refine ⟨info, ran, isBase, nonempty, by omega, ?_⟩
    rw [isBase]
    omega
  · obtain ⟨_, _⟩ := gapEnd_spec views (toNat_page_lt user)
    obtain ⟨info, ran, isBase, isEnd⟩ := virtualQuery_gap linked user rfl searched
    refine ⟨info, ran, isBase.trans isPage, ?_, by omega, by omega⟩
    rw [isBase] at isEnd
    omega

include linked placed reportable in
/-- From any page on, the walk ends and visits exactly the pages from there on. -/
theorem queryWalk_from (aligned : addr.toNat % 4096 = 0) :
    ∃ steps regions, queryWalk chain steps addr = some regions ∧
      ∀ address, address % 4096 = 0 → address < 0xc0000000 →
        regions.countP (fun info => info.contains address) =
          if addr.toNat ≤ address then 1 else 0 := by
  induction left : 0xc0000000 - addr.toNat using Nat.strong_induction_on generalizing addr with
  | _ _ ih =>
    have kernel : (0xc0000000 : Word).toNat = 0xc0000000 := by decide
    by_cases user : addr ≥ 0xc0000000
    · refine ⟨1, [], ?_, ?_⟩
      · rw [queryWalk, virtualQuery, if_pos user]
        rfl
      · intro _ _ _
        rw [ge_iff_le, BitVec.le_def, kernel] at user
        rw [if_neg (by omega)]
        rfl
    obtain ⟨info, ran, isBase, _, inSpace, stopAligned⟩ :=
      virtualQuery_step linked placed user reportable aligned
    rw [ge_iff_le, BitVec.le_def, kernel] at user
    have isNext : (info.baseAddress + info.regionSize).toNat =
        info.baseAddress.toNat + info.regionSize.toNat := by
      rw [BitVec.toNat_add, Nat.mod_eq_of_lt inSpace]
    have later : addr.toNat < (info.baseAddress + info.regionSize).toNat := by
      rw [isNext, isBase]
      omega
    obtain ⟨steps, regions, walked, visits⟩ := ih _ (by omega) (isNext ▸ stopAligned) rfl
    refine ⟨steps + 1, info :: regions, ?_, ?_⟩
    · simp [queryWalk, ran, walked]
    · intro address pageAligned low
      rw [countP_cons, visits address pageAligned low, isNext]
      simp only [MemoryBasicInformation.contains, decide_eq_true_eq, isBase]
      by_cases reached : addr.toNat ≤ address
      · by_cases inRegion : address < addr.toNat + info.regionSize.toNat
        · rw [if_neg (by omega), if_pos ⟨reached, inRegion⟩, if_pos reached]
        · rw [if_pos (by omega), if_neg (fun both => inRegion both.2), if_pos reached]
      · rw [if_neg (by omega), if_neg (fun both => reached both.1), if_neg reached]

end Query

/--
All queries report what they should and the walk from zero visits every page
of user space once, exactly when all pages are reportable.
-/
theorem virtualQuery_walk_iff {chain : ViewChain} {views : List (ViewPtr × FileView)}
    (linked : Linked chain views) (placed : WellPlaced views) :
    ((∀ addr : Word, ¬ addr ≥ 0xc0000000 → QueryCorrect chain views addr) ∧ WalkCovers chain) ↔
      ∀ addr : Word, ¬ addr ≥ 0xc0000000 → Reportable views addr := by
  constructor
  · rintro ⟨correct, -⟩ addr user
    exact (queryCorrect_iff linked placed user).mp (correct addr user)
  · intro reportable
    refine ⟨fun addr user => (queryCorrect_iff linked placed user).mpr (reportable addr user), ?_⟩
    obtain ⟨steps, regions, walked, visits⟩ :=
      queryWalk_from linked placed reportable (show (0 : Word).toNat % 4096 = 0 from rfl)
    refine ⟨steps, regions, walked, ?_⟩
    intro address aligned low
    rw [visits address aligned low]
    exact if_pos (Nat.zero_le _)

/-- The walk over an address space with one page in use. -/
theorem virtualQuery_walk_page :
    (∀ addr : Word, ¬ addr ≥ 0xc0000000 →
        QueryCorrect (singleView committedPage) [(1, committedPage)] addr) ∧
      WalkCovers (singleView committedPage) := by
  refine (virtualQuery_walk_iff (linked_singleView committedPage) wellPlaced_singleton).mpr ?_
  intro _ _ _ member covers
  obtain rfl := mem_singleton.mp member
  have stop : committedPage.stop = 0x111000 := by decide
  refine .inl ⟨by rw [stop]; decide, fun far => ?_⟩
  have inView := covers.2
  rw [FileView.Far] at far
  simp only at inView far
  omega

/-- A file mapping of more than two gigabytes. -/
def largeMapping : FileView where
  base := 0x120000
  size := 0x90000000
  flags := 0
  mapping := 0x54
  protect := 0x43
  prot := List.replicate 0x90000 0x43
  baseAligned := by decide
  sizePages := by
    rw [length_replicate]
    rfl

/--
The query for a page two gigabytes above the base of the mapping computes a
negative index and reads before the array.
-/
theorem virtualQuery_reads_before_view :
    Linked (singleView largeMapping) [(1, largeMapping)] ∧
      WellPlaced [((1 : ViewPtr), largeMapping)] ∧
      ¬ QueryCorrect (singleView largeMapping) [(1, largeMapping)] 0x80120000 := by
  refine ⟨linked_singleView _, wellPlaced_singleton, ?_⟩
  rintro ⟨_, ran, -⟩
  have stopped : (virtualQuery (singleView largeMapping) 0x80120000).toOption.isNone = true := by
    decide +kernel
  rw [ran] at stopped
  cases stopped

end Winex.Virtual
