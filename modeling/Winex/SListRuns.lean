import Winex.SListInvariant

namespace Winex.SList

open Interleaving Linear List
open Function (update update_of_ne update_self)

/-!
# Runs of an interlocked list

As long as no thread pushes an entry whose successor a pop has loaded before, every run
is linearizable as a stack, and `Depth` is right modulo 65536 whenever nobody works on
the list.

If an entry was popped and pushed again in between, with another successor, the exchange
of the pop succeeds nevertheless: it links in an entry that the clients have, and loses
the others.
-/

variable {Thread Entry : Type} [Fintype Thread] [DecidableEq Thread] [DecidableEq Entry]
variable {config : Config Thread (Shared Thread Entry) (Stage Entry)}
variable {items : List Entry} {status : Thread → Status (Op Entry) (Res Entry)} {thread : Thread}

/-! ## The steps that pass a point or return -/

omit [Fintype Thread] [DecidableEq Thread] [DecidableEq Entry] in
theorem queryDepth_addDepth (shared : Shared Thread Entry) (value : BitVec 32) :
    (shared.addDepth value).queryDepth = shared.queryDepth + value.setWidth 16 :=
  BitVec.setWidth_add shared.depth value (by decide)

theorem setWidth_neg (count : BitVec 16) : (-count.setWidth 32).setWidth 16 = -count := by
  apply BitVec.eq_of_toNat_eq
  simp only [BitVec.toNat_setWidth, BitVec.toNat_neg]
  omega

variable (simulates : Simulates config items status)

variable {oldHead : Option Entry} {value : BitVec 32} {item : Entry} {res : Res Entry}
  {next : Entry → Option Entry}

include simulates in
theorem simulates_pushExchange (noHazard : NoHazard config) {entry : Entry} {compare : Option Entry}
    (here : config.locals thread = .pushExchange entry oldHead compare)
    (unchanged : config.shared.head = oldHead) :
    Simulates
      (config.moved thread { config.shared with head := some entry } (.pushCount oldHead))
      (entry :: items)
      (update status thread (.done (.pushed oldHead))) := by
  have matched := simulates.matched thread
  rw [here] at matched
  obtain ⟨pending, stored, _⟩ := matched
  have first : items.head? = oldHead := simulates.chained.head_eq.symm.trans unchanged
  have linearized := simulates.linearized.point pending
  change Linearized _ _ (entry :: items) (update _ _ (.done (Res.pushed items.head?))) at linearized
  rw [first] at linearized
  refine simulates.moved linearized ⟨rfl, ?_⟩
    (simulates.owned.publish (by rw [pending]; rfl) rfl) rfl ?_
    fun other _ item popping inStack => ⟨?_, rfl⟩
  · rw [stored, ← unchanged]
    exact simulates.chained
  · rw [pending]
    rintro _ _ rfl rfl
    rw [length_cons, Nat.add_right_comm, BitVec.ofNat_add, BitVec.ofNat_add _ 1,
      ← BitVec.add_assoc]
    exact congrArg (· + 1#16) simulates.depth
  · rcases mem_cons.mp inStack with rfl | before
    · exact absurd popping (noHazard thread other item (by rw [here]; rfl))
    · exact before

include simulates in
theorem simulates_pushCount (here : config.locals thread = .pushCount oldHead)
    (one : value.setWidth 16 = 1#16) :
    Simulates
      (config.moved thread ((config.shared.addDepth value).ret thread (.pushed oldHead)) .outside)
      items (update status thread .idle) := by
  have done : status thread = .done (.pushed oldHead) := by
    have matched := simulates.matched thread
    rwa [here] at matched
  refine simulates.moved (simulates.linearized.ret done) simulates.chained
    (simulates.owned.same (by rw [done]; rfl)) rfl ?_
  rw [done]
  intro ins outs counted same
  change ins + 1 = tally uncountedIn status at counted
  change outs = tally uncountedOut status at same
  have depth := simulates.depth
  rw [← counted, ← same, BitVec.ofNat_add] at depth
  change (config.shared.addDepth value).queryDepth + _ = _
  rw [queryDepth_addDepth]
  bv_omega

include simulates in
theorem simulates_popExchange {successor : Option Entry}
    (here : config.locals thread = .popExchange item successor)
    (unchanged : config.shared.head = some item) :
    Simulates
      (config.moved thread { config.shared with head := successor } (.popCount item))
      items.tail
      (update status thread (.done (.popped (some item)))) := by
  have matched := simulates.matched thread
  rw [here] at matched
  obtain ⟨pending, loaded⟩ := matched
  obtain ⟨rest, rfl⟩ : ∃ rest, items = item :: rest := by
    have first := simulates.chained.head_eq
    rw [unchanged] at first
    exact head?_eq_some_iff.mp first.symm
  have linearized := simulates.linearized.point pending
  refine simulates.moved linearized ?_
    (Owned.takeOut [item] simulates.owned rfl) rfl ?_
    fun _ _ _ _ inStack => ⟨mem_cons_of_mem item inStack, rfl⟩
  · have tail := simulates.chained.2
    rw [loaded (by simp)] at tail
    exact tail
  · rw [pending]
    rintro _ _ rfl rfl
    have depth := simulates.depth
    rw [length_cons, Nat.add_right_comm] at depth
    exact depth

include simulates in
/-- An operation subtracts the entries it took out, and returns them. -/
theorem simulates_giveBack (done : status thread = .done res)
    (notPush : uncountedIn (.done res) = 0)
    (counted : uncountedOut (.done res) = (held (.done res)).length)
    (subtracted : value.setWidth 16 = -BitVec.ofNat 16 (held (.done res)).length) :
    Simulates
      (config.moved thread
        (((config.shared.addDepth value).giveBack (held (.done res))).ret thread res)
        .outside)
      items (update status thread .idle) := by
  have owned : Owned _ items (update status thread .idle) := simulates.owned.giveBack thread rfl
  rw [done] at owned
  refine simulates.moved (simulates.linearized.ret done) simulates.chained
    owned rfl ?_
  rw [done, notPush, counted]
  intro ins outs same fewer
  change ins = tally uncountedIn status at same
  change outs + _ = tally uncountedOut status at fewer
  have depth := simulates.depth
  change (config.shared.addDepth value).queryDepth + _ = _
  rw [queryDepth_addDepth]
  bv_omega

include simulates in
/-- A pop or a flush meets the empty list. -/
theorem simulates_empty (empty : config.shared.head = none) {op : Op Entry}
    (pending : status thread = .pending op) (result : (@stack Entry).apply [] op = ([], res))
    (nothing : held (.pending op) = []) :
    Simulates (config.moved thread (config.shared.ret thread res) .outside)
      items (update status thread .idle) := by
  obtain rfl : items = [] := by
    have first := simulates.chained.head_eq
    rw [empty] at first
    exact head?_eq_none_iff.mp first.symm
  have linearized := (simulates.linearized.point pending).ret (Function.update_self thread _ _)
  rw [Function.update_idem, result] at linearized
  refine simulates.moved linearized simulates.chained
    (simulates.owned.same (by rw [pending, nothing]; rfl)) rfl ?_
  rw [pending]
  rintro _ _ rfl rfl
  exact simulates.depth

include simulates in
theorem simulates_flushExchange {head : Entry} (here : config.locals thread = .flushExchange head)
    (unchanged : config.shared.head = some head) :
    Simulates
      (config.moved thread { config.shared with head := none } (.flushWalk (some head) [] 0))
      [] (update status thread (.done (.flushed items))) := by
  have pending : status thread = .pending .flush := by
    have matched := simulates.matched thread
    rwa [here] at matched
  have chained := simulates.chained
  rw [unchanged] at chained
  have owned := simulates.owned
  rw [← append_nil items] at owned
  refine simulates.moved (simulates.linearized.point pending) rfl
    (owned.takeOut items rfl) ⟨rfl, items, chained, rfl⟩ ?_
    fun _ _ _ _ inStack => by simp at inStack
  rw [pending]
  rintro _ _ rfl rfl
  have depth := simulates.depth
  rw [Nat.add_comm] at depth
  rw [length_nil, Nat.zero_add]
  exact depth

omit [DecidableEq Entry] in
theorem matches_flushWalk {result : Status (Op Entry) (Res Entry)} {seen : List Entry}
    {depth : BitVec 16} (matched : Matches next items result (.flushWalk (some item) seen depth)) :
    Matches next items result (.flushWalk (next item) (seen ++ [item]) (depth + 1)) := by
  obtain ⟨counted, rest, chained, done⟩ := matched
  cases rest with
  | nil => exact absurd chained (by simp [Chained])
  | cons _ rest =>
    obtain ⟨same, chained⟩ := chained
    cases same
    refine ⟨?_, rest, chained, by rw [done]; simp⟩
    rw [counted, length_append, BitVec.ofNat_add]
    rfl

/-! ## All steps -/

include simulates in
/-- Every step that meets no hazard keeps the simulation. -/
theorem simulates_advance (noHazard : NoHazard config) {choice : Op Entry}
    {shared : Shared Thread Entry} {stage : Stage Entry}
    (moved : advance thread choice config.shared (config.locals thread) = some (shared, stage)) :
    ∃ items' status', Simulates (config.moved thread shared stage) items' status' := by
  have matched := simulates.matched thread
  generalize here : config.locals thread = stage at moved matched
  cases stage with
  | outside => exact ⟨_, _, simulates_call simulates here moved⟩
  | pushLoad =>
    cases moved
    exact ⟨_, _, simulates.load matched⟩
  | pushStore entry oldHead =>
    cases moved
    have pending : status thread = .pending (.push entry) := matched
    have mine : entry ∈ held (status thread) := by
      rw [pending]
      exact mem_singleton.mpr rfl
    have elsewhere : ∀ other, other ≠ entry →
        update config.shared.next entry oldHead other = config.shared.next other :=
      fun other different => update_of_ne different _ _
    have inStack :
        ∀ item ∈ items, update config.shared.next entry oldHead item = config.shared.next item := by
      refine fun item member => elsewhere item fun equal => ?_
      exact simulates.owned.not_mem mine (equal ▸ member)
    refine ⟨_, _, simulates.silent rfl rfl rfl
      (simulates.chained.congr inStack)
      ⟨pending, update_self _ _ _⟩ ?_ inStack⟩
    refine fun other different item member => elsewhere item fun equal => ?_
    exact simulates.owned.alone other thread different item member (equal ▸ mine)
  | pushCompare =>
    cases moved
    exact ⟨_, _, simulates.load ⟨matched.1, matched.2, matched.2⟩⟩
  | pushExchange =>
    obtain ⟨pending, _, rfl⟩ := matched
    simp only [advance] at moved
    split at moved
    next unchanged =>
      cases moved
      exact ⟨_, _, simulates_pushExchange simulates noHazard here unchanged⟩
    · cases moved
      exact ⟨_, _, simulates.load pending⟩
  | pushCount =>
    cases moved
    exact ⟨_, _, simulates_pushCount simulates here (by decide)⟩
  | popLoad =>
    simp only [advance] at moved
    split at moved
    next empty =>
      cases moved
      exact ⟨_, _, simulates_empty simulates empty matched rfl rfl⟩
    · cases moved
      exact ⟨_, _, simulates.load matched⟩
  | popNext =>
    cases moved
    exact ⟨_, _, simulates.load ⟨matched, fun _ => rfl⟩⟩
  | popExchange =>
    simp only [advance] at moved
    split at moved
    next unchanged =>
      cases moved
      exact ⟨_, _, simulates_popExchange simulates here unchanged⟩
    · cases moved
      exact ⟨_, _, simulates.load matched.1⟩
  | popCount =>
    cases moved
    have minusOne : (-1 : BitVec 32).setWidth 16 = -BitVec.ofNat 16 1 := by decide
    exact ⟨_, _, simulates_giveBack simulates matched rfl rfl minusOne⟩
  | flushLoad =>
    simp only [advance] at moved
    split at moved
    next empty =>
      cases moved
      exact ⟨_, _, simulates_empty simulates empty matched rfl rfl⟩
    · cases moved
      exact ⟨_, _, simulates.load matched⟩
  | flushExchange =>
    simp only [advance] at moved
    split at moved
    next unchanged =>
      cases moved
      exact ⟨_, _, simulates_flushExchange simulates here unchanged⟩
    · cases moved
      exact ⟨_, _, simulates.load matched⟩
  | flushWalk item =>
    cases item with
    | some =>
      cases moved
      exact ⟨_, _, simulates.load (matches_flushWalk matched)⟩
    | none =>
      cases moved
      obtain ⟨rfl, rest, chained, done⟩ := matched
      obtain rfl : rest = [] := by
        cases rest with
        | nil => rfl
        | cons => exact absurd chained.1 (by simp)
      rw [append_nil] at done
      exact ⟨_, _, simulates_giveBack simulates done rfl rfl (setWidth_neg _)⟩

/-! ## Entries are neither lost nor returned twice -/

/-- Whether an event hands the entry over to be pushed. -/
def givenBy (entry : Entry) : Event Thread (Op Entry) (Res Entry) → Nat
  | .call _ op => (held (.pending op)).count entry
  | .ret _ _ => 0

/-- How often an event returns the entry. -/
def returnedBy (entry : Entry) : Event Thread (Op Entry) (Res Entry) → Nat
  | .call _ _ => 0
  | .ret _ res => (held (.done res)).count entry

/-- How often the entry was pushed. -/
def given (entry : Entry) : List (Event Thread (Op Entry) (Res Entry)) → Nat
  | [] => 0
  | event :: history => givenBy entry event + given entry history

/-- How often the entry was returned. -/
def returned (entry : Entry) : List (Event Thread (Op Entry) (Res Entry)) → Nat
  | [] => 0
  | event :: history => returnedBy entry event + returned entry history

/-- An operation moves entries between the stack and the hands of its thread. -/
theorem count_apply (entry : Entry) (items : List Entry) (op : Op Entry) :
    (stack.apply items op).1.count entry + (held (.done (stack.apply items op).2)).count entry =
      items.count entry + (held (.pending op)).count entry := by
  cases op with
  | push pushed =>
    change (pushed :: items).count entry + 0 = _ + [pushed].count entry
    simp only [count_cons, count_nil]
    omega
  | pop =>
    cases items with
    | nil => rfl
    | cons first rest =>
      change rest.count entry + [first].count entry = (first :: rest).count entry + 0
      simp only [count_cons, count_nil]
      omega
  | flush =>
    change 0 + items.count entry = items.count entry + 0
    omega

theorem given_eq {history : List (Event Thread (Op Entry) (Res Entry))}
    (linearized : Linearized stack history items status) (entry : Entry) :
    given entry history =
      returned entry history + items.count entry +
        tally (fun result => (held result).count entry) status := by
  induction linearized with
  | start =>
    have nothing :
        tally (fun result => (held result).count entry) (fun _ : Thread => Status.idle) = 0 :=
      tally_eq_zero_iff.mpr fun _ => rfl
    rw [nothing]
    rfl
  | @call history items status thread before idle op ih =>
    have sum := tally_update (fun result => (held result).count entry) status thread (.pending op)
    rw [idle] at sum
    change _ + 0 = _ at sum
    change (held (.pending op)).count entry + given entry history =
      0 + returned entry history + _ + _
    omega
  | @point history items status thread op before pending ih =>
    have sum := tally_update (fun result => (held result).count entry) status
      thread (.done (stack.apply items op).2)
    have balance := count_apply entry items op
    rw [pending] at sum
    omega
  | @ret history items status thread res before done ih =>
    have sum := tally_update (fun result => (held result).count entry) status thread .idle
    rw [done] at sum
    change _ + _ = _ + 0 at sum
    change 0 + given entry history = (held (.done res)).count entry + returned entry history + _ + _
    omega

/-! ## The runs -/

theorem simulates_initial (next : Entry → Option Entry) :
    Simulates (initial next : Config Thread (Shared Thread Entry) _) [] (fun _ => .idle) := by
  refine ⟨.start, rfl, ⟨nodup_nil, ?_, ?_, ?_, ?_⟩, fun _ => rfl, ?_⟩
  · exact fun _ => nodup_nil
  · exact fun _ _ _ _ member => absurd member (by simp [held])
  · exact fun _ member => absurd member (by simp)
  · exact fun _ _ member => absurd member (by simp [held])
  · have ins : tally uncountedIn (fun _ : Thread => (.idle : Status (Op Entry) (Res Entry))) = 0 :=
      tally_eq_zero_iff.mpr fun _ => rfl
    have outs : tally uncountedOut
        (fun _ : Thread => (.idle : Status (Op Entry) (Res Entry))) = 0 :=
      tally_eq_zero_iff.mpr fun _ => rfl
    rw [ins, outs]
    rfl

theorem simulates_of_reached (reached : Reached advance NoHazard (initial next) config) :
    ∃ items status, Simulates config items status := by
  refine reached.invariant (P := fun config => ∃ items status, Simulates config items status) ?_ ?_
  · exact ⟨_, _, simulates_initial next⟩
  · rintro _ _ _ _ _ ⟨_, _, simulates⟩ noHazard moved
    exact simulates_advance simulates noHazard moved

/-- A run without hazards is linearizable as a stack, which the list links.  When nobody
works on it, each entry pushed was returned or is in the list, and `Depth` is the number of
entries modulo 65536. -/
theorem slist_linearizable {next : Entry → Option Entry}
    (reached : Reached advance NoHazard (initial next) config) :
    ∃ items status, Linearized stack config.shared.history items status ∧
      Chained config.shared.next config.shared.head items ∧
      items.Nodup ∧
      ((∀ thread, config.locals thread = .outside) →
        (∀ entry, given entry config.shared.history =
          returned entry config.shared.history + items.count entry) ∧
        config.shared.queryDepth = BitVec.ofNat 16 items.length) := by
  obtain ⟨items, status, simulates⟩ := simulates_of_reached reached
  refine ⟨items, status, simulates.linearized, simulates.chained,
    simulates.owned.nodup, fun outside => ?_⟩
  have idle : ∀ thread, status thread = .idle := by
    intro thread
    have matched := simulates.matched thread
    rwa [outside thread] at matched
  refine ⟨fun entry => ?_, ?_⟩
  · have account := given_eq simulates.linearized entry
    rwa [tally_eq_zero_iff.mpr fun thread => by rw [idle thread]; rfl] at account
  · have depth := simulates.depth
    rw [tally_eq_zero_iff.mpr fun thread => by rw [idle thread]; rfl,
      tally_eq_zero_iff.mpr fun thread => by rw [idle thread]; rfl] at depth
    simpa using depth

/-! ## The hazard -/

instance [Fintype Entry] :
    DecidablePred (NoHazard : Config Thread (Shared Thread Entry) (Stage Entry) → Prop) :=
  fun config =>
    inferInstanceAs
      (Decidable (∀ thread other entry,
        (config.locals thread).pushing = some entry → (config.locals other).popping ≠ some entry))

/-- Two entries are pushed, and one of them is popped. -/
theorem slist_linearizable_pop :
    ∃ config : Config (Fin 2) (Shared (Fin 2) (Fin 2)) (Stage (Fin 2)),
      Reached advance NoHazard (initial fun _ => none) config ∧
        Linearizable stack config.shared.history ∧
        config.shared.queryDepth = 1 := by
  obtain ⟨config, reached, one⟩ := Reached.exists_of_run
    (@Reached.start (Fin 2) (Op (Fin 2)) _ _ _ advance NoHazard (initial fun _ => none))
    (flatten [times 6 0 (.push 1), times 6 0 (.push 0), times 5 0 .pop])
    (fun config => config.shared.queryDepth = 1) (by decide +kernel)
  obtain ⟨items, status, linearized, -⟩ := slist_linearizable reached
  exact ⟨config, reached, ⟨items, status, linearized⟩, one⟩

/-- A pop has loaded the first entry and its successor.  Another thread pops both and pushes
the first one again.  The exchange of the pop succeeds and links in the successor, which the
next pop returns once more. -/
theorem slist_returns_twice :
    ∃ config : Config (Fin 2) (Shared (Fin 2) (Fin 2)) (Stage (Fin 2)),
      Reached advance (fun _ => True) (initial fun _ => none) config ∧
        given 1 config.shared.history = 1 ∧
        returned 1 config.shared.history = 2 ∧
        ¬ Linearizable stack config.shared.history := by
  obtain ⟨config, reached, once, twice⟩ := Reached.exists_of_run
    (@Reached.start (Fin 2) (Op (Fin 2)) _ _ _ advance (fun _ => True) (initial fun _ => none))
    (flatten
      [times 6 1 (.push 1), times 6 1 (.push 0), times 3 0 .pop,
        times 5 1 .pop, times 5 1 .pop, times 6 1 (.push 0), times 2 0 .pop,
        times 5 1 .pop])
    (fun config => given 1 config.shared.history = 1 ∧ returned 1 config.shared.history = 2)
    (by decide +kernel)
  refine ⟨config, reached, once, twice, ?_⟩
  rintro ⟨_, _, linearized⟩
  have account := given_eq linearized 1
  omega

end Winex.SList
