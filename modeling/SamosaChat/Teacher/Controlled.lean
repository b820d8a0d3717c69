import SamosaChat.Teacher.Cancelled

set_option autoImplicit false

-- The tokens of a turn: the end of its thinking is injected, and a cycle ends it.
namespace SamosaChat.Teacher

def repeats : Nat := 16

def maxPeriod : Nat := 32

def repeatedTail (tokens : List Nat) (period : Nat) : Bool :=
  let start := tokens.length - period * repeats
  (tokens.drop (start + period)).isPrefixOf (tokens.drop start)

def repeatedTailPeriod (tokens : List Nat) : Nat :=
  ((List.range' 1 maxPeriod).find? fun period => period * repeats ≤ tokens.length && repeatedTail tokens period).getD 0

structure ThinkingBudgetTransition where
  tokens : List Nat
  position : Nat

def thinkingBudgetNext (transition : ThinkingBudgetTransition) (thinkingOpen : Bool) (budget generated : Nat) :
    Option (Nat × ThinkingBudgetTransition) :=
  let continuing := transition.position > 0 ∧ transition.position < transition.tokens.length
  let starting := transition.tokens.length > 0 ∧ transition.position = 0 ∧ thinkingOpen ∧ budget > 0 ∧ generated ≥ budget
  if ¬continuing ∧ ¬starting then none
  else some (transition.tokens.getD transition.position 0, { transition with position := transition.position + 1 })

structure GenOptions where
  thinkingTransition : ThinkingBudgetTransition
  thinkingOpen : Bool
  thinkingForced : Bool
  thinkingBudget : Nat
  thinkCloseToken : Nat

-- `sampled` is what choose_token would make of the logits.
def chooseControlledToken (o : GenOptions) (generated sampled : Nat) : Nat × GenOptions :=
  match thinkingBudgetNext o.thinkingTransition o.thinkingOpen o.thinkingBudget generated with
  | some (token, transition) =>
    (token, { o with
      thinkingTransition := transition
      thinkingForced := true
      thinkingOpen := o.thinkingOpen && token ≠ o.thinkCloseToken })
  | none => (sampled, { o with thinkingOpen := o.thinkingOpen && sampled ≠ o.thinkCloseToken })

structure Draw where
  flag : Bool
  sampled : Nat
  sink : Int

-- The rounds of a turn that has a sink, behind the tokens that it has generated.
def controlled : GenOptions → List Nat → List Draw → List Round
  | _, _, [] => []
  | o, out, draw :: draws =>
    let chosen := chooseControlledToken o out.length draw.sampled
    ⟨draw.flag, chosen.1, draw.sink, repeatedTailPeriod (out ++ [chosen.1]) ≠ 0⟩ ::
      controlled chosen.2 (out ++ [chosen.1]) draws

section Cycles

variable {word tokens : List Nat}

theorem copies_length (n : Nat) (word : List Nat) : (List.replicate n word).flatten.length = word.length * n := by
  rw [List.length_flatten, List.map_replicate, List.sum_replicate_nat, Nat.mul_comm]

theorem copies_shift (n : Nat) : ∀ rest : List Nat, rest.length = word.length * n →
    (rest <+: word ++ rest ↔ rest = (List.replicate n word).flatten) := by
  induction n with
  | zero =>
    intro rest size
    obtain rfl := List.length_eq_zero_iff.mp size
    exact ⟨fun _ => rfl, fun _ => List.nil_prefix⟩
  | succ n ih =>
    intro rest size
    rw [Nat.mul_succ] at size
    rw [List.replicate_succ, List.flatten_cons]
    constructor
    · intro shift
      obtain ⟨rest, rfl⟩ := List.prefix_of_prefix_length_le (List.prefix_append word rest) shift (by omega)
      rw [List.length_append] at size
      rw [← (ih rest (by omega)).mp ((List.prefix_append_right_inj word).mp shift)]
    · rintro rfl
      exact (List.prefix_append_right_inj word).mpr ((ih _ (copies_length n word)).mpr rfl)

def Copies (word tokens : List Nat) : Prop :=
  ∃ before, tokens = before ++ (List.replicate repeats word).flatten

theorem repeated_tail_iff {period : Nat} (enough : period * repeats ≤ tokens.length) :
    repeatedTail tokens period = true ↔ ∃ word, word.length = period ∧ Copies word tokens := by
  have size : ((tokens.drop (tokens.length - period * repeats)).take period).length = period := by
    rw [List.length_take, List.length_drop, repeats] at *
    omega
  have tail : (tokens.drop (tokens.length - period * repeats + period)).length =
      ((tokens.drop (tokens.length - period * repeats)).take period).length * 15 := by
    rw [size, List.length_drop, repeats] at *
    omega
  have parts : (tokens.drop (tokens.length - period * repeats)).take period ++
      tokens.drop (tokens.length - period * repeats + period) = tokens.drop (tokens.length - period * repeats) := by
    rw [← List.drop_drop, List.take_append_drop]
  have shift := copies_shift 15 _ tail
  rw [parts] at shift
  rw [repeatedTail, List.isPrefixOf_iff_prefix, shift]
  constructor
  · intro copies
    refine ⟨_, size, tokens.take (tokens.length - period * repeats), ?_⟩
    change tokens = _ ++ (_ ++ (List.replicate 15 _).flatten)
    rw [← copies, parts, List.take_append_drop]
  · rintro ⟨word, rfl, before, copies⟩
    have start : tokens.length - word.length * repeats = before.length := by
      rw [copies, List.length_append, copies_length, Nat.add_sub_cancel]
    have cut : tokens.drop before.length = word ++ (List.replicate 15 word).flatten := by
      rw [copies, List.drop_left]
      rfl
    rw [start, ← List.drop_drop, cut, List.drop_left, List.take_left]

-- The guard answers where the tokens end in sixteen copies of a word.
theorem tail_period_iff : repeatedTailPeriod tokens ≠ 0 ↔ ∃ word, word ≠ [] ∧ word.length ≤ maxPeriod ∧ Copies word tokens := by
  unfold repeatedTailPeriod
  cases found : (List.range' 1 maxPeriod).find? fun period => period * repeats ≤ tokens.length && repeatedTail tokens period with
  | none =>
    refine ⟨fun some_ => absurd rfl some_, ?_⟩
    rintro ⟨word, some_, short, copies⟩
    have enough : word.length * repeats ≤ tokens.length := by
      obtain ⟨before, rfl⟩ := copies
      rw [List.length_append, copies_length]
      exact Nat.le_add_left _ _
    have range := List.mem_range'_1.mpr ⟨List.length_pos_of_ne_nil some_, (by omega : word.length < 1 + maxPeriod)⟩
    have other := List.find?_eq_none.mp found word.length range
    rw [Bool.and_eq_true, decide_eq_true_eq] at other
    exact absurd ⟨enough, (repeated_tail_iff enough).mpr ⟨word, rfl, copies⟩⟩ other
  | some period =>
    have range := List.mem_range'_1.mp (List.mem_of_find?_eq_some found)
    have holds := List.find?_some found
    rw [Bool.and_eq_true, decide_eq_true_eq] at holds
    obtain ⟨word, rfl, copies⟩ := (repeated_tail_iff holds.1).mp holds.2
    exact ⟨fun _ => ⟨word, List.ne_nil_of_length_pos range.1, by omega, copies⟩, fun _ => Nat.ne_of_gt range.1⟩

end Cycles

section Tokens

variable {o : GenOptions} {generated sampled : Nat}

theorem controlled_length (draws : List Draw) : ∀ (o : GenOptions) (out : List Nat), (controlled o out draws).length = draws.length := by
  induction draws with
  | nil => exact fun _ _ => rfl
  | cons draw draws ih => exact fun o out => congrArg Nat.succ (ih _ _)

theorem controlled_round (draws : List Draw) : ∀ (o : GenOptions) (out : List Nat) (k : Nat) (round : Round),
    (controlled o out draws)[k]? = some round → (∃ draw ∈ draws, round.sink = draw.sink) ∧
      round.repeated = decide (repeatedTailPeriod (out ++ ((controlled o out draws).take (k + 1)).map Round.token) ≠ 0) := by
  induction draws with
  | nil =>
    intro o out k round there
    cases there
  | cons draw draws ih =>
    intro o out k round there
    cases k with
    | zero =>
      cases there
      exact ⟨⟨draw, List.mem_cons_self, rfl⟩, rfl⟩
    | succ k =>
      obtain ⟨⟨other, member, sink⟩, repeated⟩ := ih _ _ k round there
      refine ⟨⟨other, List.mem_cons_of_mem _ member, sink⟩, ?_⟩
      rw [repeated, List.append_assoc]
      rfl

def Injects (o : GenOptions) (generated : Nat) : Prop :=
  o.thinkingTransition.position < o.thinkingTransition.tokens.length ∧ (o.thinkingTransition.position > 0 ∨
    o.thinkingOpen = true ∧ o.thinkingBudget > 0 ∧ generated ≥ o.thinkingBudget)

theorem chosen_injects (injects : Injects o generated) : ∃ token o', chooseControlledToken o generated sampled = (token, o') ∧
    o.thinkingTransition.tokens.drop o.thinkingTransition.position =
      token :: o'.thinkingTransition.tokens.drop o'.thinkingTransition.position ∧
    o'.thinkingTransition.tokens = o.thinkingTransition.tokens ∧
    o'.thinkingTransition.position = o.thinkingTransition.position + 1 := by
  unfold chooseControlledToken thinkingBudgetNext
  dsimp only
  rw [if_neg]
  · refine ⟨_, _, rfl, ?_, rfl, rfl⟩
    rw [List.drop_eq_getElem_cons injects.1, List.getElem_eq_getD 0]
  · rintro ⟨resting, idle⟩
    by_cases started : o.thinkingTransition.position > 0
    · exact resting ⟨started, injects.1⟩
    · exact idle ⟨Nat.lt_of_le_of_lt (Nat.zero_le _) injects.1, by omega, injects.2.resolve_left started⟩

theorem chosen_samples (samples : ¬Injects o generated) : chooseControlledToken o generated sampled =
    (sampled, { o with thinkingOpen := o.thinkingOpen && sampled ≠ o.thinkCloseToken }) := by
  unfold chooseControlledToken thinkingBudgetNext
  dsimp only
  rw [if_pos]
  constructor
  · exact fun started => samples ⟨started.2, .inl started.1⟩
  · exact fun starts => samples ⟨starts.2.1 ▸ starts.1, .inr starts.2.2⟩

theorem tokens_sampled (draws : List Draw) : ∀ (o : GenOptions) (out : List Nat), (∀ generated, ¬Injects o generated) →
    (controlled o out draws).map Round.token = draws.map Draw.sampled := by
  induction draws with
  | nil => exact fun _ _ _ => rfl
  | cons draw draws ih =>
    intro o out samples
    rw [controlled, chosen_samples (samples _), List.map_cons, ih, List.map_cons]
    intro generated injects
    refine samples generated ⟨injects.1, injects.2.imp_right fun starts => ⟨?_, starts.2⟩⟩
    exact ((Bool.and_eq_true _ _).mp starts.1).1

theorem tokens_injected (draws : List Draw) : ∀ (o : GenOptions) (out : List Nat), Injects o out.length →
    (controlled o out draws).map Round.token = (o.thinkingTransition.tokens.drop o.thinkingTransition.position ++
      (draws.map Draw.sampled).drop (o.thinkingTransition.tokens.length - o.thinkingTransition.position)).take draws.length := by
  induction draws with
  | nil => exact fun _ _ _ => rfl
  | cons draw draws ih =>
    intro o out injects
    obtain ⟨token, o', chosen, next, same, moved⟩ := @chosen_injects o out.length draw.sampled injects
    have behind : o.thinkingTransition.tokens.length - o.thinkingTransition.position =
        o'.thinkingTransition.tokens.length - o'.thinkingTransition.position + 1 := by
      have := injects.1
      rw [same, moved]
      omega
    rw [controlled, chosen, next, behind]
    refine congrArg (token :: ·) ?_
    by_cases more : o'.thinkingTransition.position < o'.thinkingTransition.tokens.length
    · exact ih o' _ ⟨more, .inl (by omega)⟩
    · have past := Nat.le_of_not_lt more
      rw [tokens_sampled draws o' _ fun _ injects => more injects.1, List.drop_eq_nil_of_le past, Nat.sub_eq_zero_of_le past]
      exact (List.take_of_length_le (List.length_map _).le).symm

-- The sampled tokens, with the transition behind as many of them as the budget has left.
def planned (o : GenOptions) (left : Nat) (sampled : List Nat) : List Nat :=
  if o.thinkingOpen ∧ o.thinkingBudget > 0 ∧ o.thinkCloseToken ∉ sampled.take left then
    sampled.take left ++ (o.thinkingTransition.tokens ++ sampled.drop (left + o.thinkingTransition.tokens.length))
  else sampled

theorem planned_cons (o : GenOptions) (left sampled : Nat) (later : List Nat) : planned o (left + 1) (sampled :: later) =
    sampled :: planned { o with thinkingOpen := o.thinkingOpen && sampled ≠ o.thinkCloseToken } left later := by
  unfold planned
  rw [Nat.add_right_comm]
  simp only [List.take_succ_cons, List.drop_succ_cons, List.mem_cons, not_or, Bool.and_eq_true, decide_eq_true_eq, List.cons_append]
  by_cases close : o.thinkCloseToken = sampled
  · rw [if_neg fun plan => plan.2.2.1 close, if_neg fun plan => plan.1.2 close.symm]
  · simp only [close, Ne.symm close, not_false_eq_true, true_and, and_true, ne_eq]
    split_ifs <;> rfl

theorem tokens_planned (draws : List Draw) : ∀ (o : GenOptions) (out : List Nat) (left : Nat),
    o.thinkingTransition.position = 0 → o.thinkingBudget = out.length + left →
      (controlled o out draws).map Round.token = (planned o left (draws.map Draw.sampled)).take draws.length := by
  induction draws with
  | nil => exact fun _ _ _ _ _ => rfl
  | cons draw draws ih =>
    intro o out left fresh budget
    by_cases never : ∀ generated, ¬Injects o generated
    · have plain : planned o left ((draw :: draws).map Draw.sampled) = (draw :: draws).map Draw.sampled := by
        unfold planned
        split_ifs with plan
        · have none_ : o.thinkingTransition.tokens = [] := by
            by_contra some_
            exact never o.thinkingBudget ⟨fresh ▸ List.length_pos_of_ne_nil some_, .inr ⟨plan.1, plan.2.1, Nat.le_refl _⟩⟩
          rw [none_, List.nil_append]
          exact List.take_append_drop left _
        · rfl
      rw [tokens_sampled _ o out never, plain, List.take_of_length_le (by rw [List.length_map])]
    · obtain ⟨generated, injects⟩ := not_forall_not.mp never
      obtain ⟨open_, positive, _⟩ := injects.2.resolve_left (by omega)
      cases left with
      | zero =>
        rw [tokens_injected _ o out ⟨injects.1, .inr ⟨open_, positive, by omega⟩⟩, planned,
          if_pos ⟨open_, positive, List.not_mem_nil⟩, fresh, Nat.zero_add]
        rfl
      | succ left =>
        have samples : ¬Injects o out.length := fun now => by
          have := now.2.resolve_left (by omega)
          omega
        rw [controlled, chosen_samples samples, List.map_cons, List.map_cons, planned_cons]
        refine congrArg (draw.sampled :: ·) ?_
        exact ih _ _ left fresh (by rw [List.length_append, List.length_singleton, budget]; omega)

end Tokens

section Turns

variable {α : Type} [Zero α] {geometry : Geometry} {grants : Nat → Bool} {compute : Nat → View α → Written α}
  {session last : Session α} {all : List Nat} {cancelled : Bool}

-- `n` rounds were begun, and none but the last one has found a cycle. One that is not cancelled has stepped all but its last token.
structure Begun (geometry : Geometry) (grants : Nat → Bool) (compute : Nat → View α → Written α) (rounds : List Round)
    (session last : Session α) (transcript all : List Nat) (cancelled : Bool) (n : Nat) : Prop where
  most : n ≤ rounds.length
  shape : all = transcript ++ (rounds.take n).map Round.token
  goes : ∀ k round, k + 1 < n → rounds[k]? = some round → round.repeated = false
  whole : cancelled = false → rounds ≠ [] → ∃ k round, n = k + 1 ∧ rounds[k]? = some round ∧
    stepAll geometry grants compute ((rounds.take k).map Round.token) session = some last ∧
    (n < rounds.length → round.sink ≠ 0 ∨ round.repeated = true)

theorem decode_begun (rounds : List Round) : ∀ (session : Session α) (transcript : List Nat),
    decode geometry grants compute rounds session transcript = some (last, all, cancelled) →
      ∃ n, Begun geometry grants compute rounds session last transcript all cancelled n := by
  induction rounds with
  | nil =>
    intro session transcript ran
    cases ran
    exact ⟨0, Nat.le_refl 0, (List.append_nil _).symm, by omega, fun _ some_ => absurd rfl some_⟩
  | cons round rounds ih =>
    intro session transcript ran
    rw [decode] at ran
    split_ifs at ran with flag sink ends
    · cases ran
      exact ⟨0, Nat.zero_le _, (List.append_nil _).symm, by omega, fun same => by cases same⟩
    · cases ran
      exact ⟨1, by simp, by simp, by omega, fun _ _ => ⟨0, round, rfl, rfl, rfl, fun _ => .inl sink⟩⟩
    · cases ran
      refine ⟨1, by simp, by simp, by omega, fun _ _ => ⟨0, round, rfl, rfl, rfl, fun more => ?_⟩⟩
      exact .inr (ends.resolve_right fun none_ => absurd more (by simp [none_]))
    · obtain ⟨next, step, rest⟩ := Option.bind_eq_some_iff.mp ran
      obtain ⟨n, begun⟩ := ih next _ rest
      refine ⟨n + 1, Nat.succ_le_succ begun.most, by rw [begun.shape]; simp, fun k other less there => ?_, fun kept _ => ?_⟩
      · cases k with
        | zero =>
          cases there
          exact (Bool.not_eq_true _).mp fun found => ends (.inl found)
        | succ k => exact begun.goes k other (by omega) there
      · obtain ⟨k, other, rfl, there, steps, why⟩ := begun.whole kept fun none_ => ends (.inr none_)
        refine ⟨k + 1, other, rfl, there, ?_, fun more => why (Nat.lt_of_succ_lt_succ more)⟩
        rw [List.take_succ_cons, List.map_cons, stepAll, List.map_cons, List.foldlM_cons, step]
        exact steps

variable {o : GenOptions} {draws : List Draw} {prompt transcript : List Nat}

-- A turn gives the sampled tokens, and where its thinking is not closed in time the whole transition behind the budget.
theorem turn_planned (fresh : o.thinkingTransition.position = 0)
    (ran : decode geometry grants compute (controlled o [] draws) session prompt = some (last, transcript, cancelled)) :
    ∃ answer, transcript = prompt ++ answer ∧ answer <+: planned o o.thinkingBudget (draws.map Draw.sampled) := by
  obtain ⟨n, begun⟩ := decode_begun _ session prompt ran
  refine ⟨_, begun.shape, ?_⟩
  rw [List.map_take, tokens_planned draws o [] o.thinkingBudget fresh (Nat.zero_add _).symm]
  exact (List.take_prefix _ _).trans (List.take_prefix _ _)

-- Its thinking has one token, and the transition behind it closes it.
def oneThought : GenOptions := ⟨⟨[90, 99], 0⟩, true, false, 1, 99⟩

theorem one_thought_closed : ∃ last answer, decode counting (fun _ => true) countStep
    (controlled oneThought [] [⟨false, 1, 0⟩, ⟨false, 2, 0⟩, ⟨false, 3, 0⟩, ⟨false, 4, 0⟩]) noTokens [5] =
      some (last, [5, 1, 90, 99, 4], false) ∧ [5, 1, 90, 99, 4] = [5] ++ answer ∧ answer <+: planned oneThought 1 [1, 2, 3, 4] := by
  obtain ⟨answer, closed⟩ := @turn_planned _ _ counting (fun _ => true) countStep noTokens _ _ oneThought
    [⟨false, 1, 0⟩, ⟨false, 2, 0⟩, ⟨false, 3, 0⟩, ⟨false, 4, 0⟩] [5] [5, 1, 90, 99, 4] rfl rfl
  exact ⟨_, answer, rfl, closed⟩

-- No turn goes on behind sixteen copies of a word, and one that stops early for no other reason has made them.
structure Guarded (answer : List Nat) (limit : Nat) (free : Prop) : Prop where
  once : ∀ word before after, word ≠ [] → word.length ≤ maxPeriod →
    answer = before ++ (List.replicate repeats word).flatten ++ after → after = []
  stops : free → answer.length < limit → ∃ word, word ≠ [] ∧ word.length ≤ maxPeriod ∧ Copies word answer

theorem turn_guarded
    (ran : decode geometry grants compute (controlled o [] draws) session prompt = some (last, transcript, cancelled)) :
    ∃ answer, transcript = prompt ++ answer ∧
      Guarded answer draws.length (cancelled = false ∧ ∀ draw ∈ draws, draw.sink = 0) := by
  obtain ⟨n, begun⟩ := decode_begun _ session prompt ran
  have most := begun.most
  refine ⟨_, begun.shape, fun word before after some_ short shape => ?_, fun free short => ?_⟩
  · by_contra more
    obtain ⟨k, count⟩ : ∃ k, (before ++ (List.replicate repeats word).flatten).length = k + 1 := by
      refine ⟨_, (Nat.succ_pred_eq_of_pos ?_).symm⟩
      rw [List.length_append, copies_length]
      exact Nat.add_pos_right _ (Nat.mul_pos (List.length_pos_of_ne_nil some_) (by decide))
    have lengths := congrArg List.length shape
    rw [List.length_map, List.length_take_of_le most, List.length_append, count] at lengths
    have positive := List.length_pos_of_ne_nil more
    have there := List.getElem?_eq_getElem (show k < (controlled o [] draws).length by omega)
    have front : ((controlled o [] draws).take (k + 1)).map Round.token = before ++ (List.replicate repeats word).flatten := by
      have cut := congrArg (List.take (k + 1)) shape
      rw [← count, List.take_left, count, ← List.map_take, List.take_take, Nat.min_eq_left (by omega)] at cut
      exact cut
    have repeated := (controlled_round draws o [] k _ there).2
    rw [begun.goes k _ (by omega) there, front] at repeated
    exact of_decide_eq_false repeated.symm (tail_period_iff.mpr ⟨word, some_, short, before, rfl⟩)
  · have size := controlled_length draws o []
    rw [List.length_map, List.length_take_of_le most] at short
    obtain ⟨k, round, rfl, there, _, why⟩ := begun.whole free.1 (List.ne_nil_of_length_pos (by omega))
    obtain ⟨⟨draw, member, sink⟩, repeated⟩ := controlled_round draws o [] k round there
    have found := (why (by omega)).resolve_left fun stopped => stopped (sink.trans (free.2 draw member))
    exact tail_period_iff.mp (of_decide_eq_true (repeated.symm.trans found))

theorem one_token_guarded : ∃ last answer, decode counting (fun _ => true) countStep
    (controlled oneThought [] (List.replicate 20 ⟨false, 7, 0⟩)) { noTokens with state := { noTokens.state with maxT := 40 } } [5] =
      some (last, [5, 7, 90, 99] ++ List.replicate 16 7, false) ∧ [5, 7, 90, 99] ++ List.replicate 16 7 = [5] ++ answer ∧
      Guarded answer 20 (false = false ∧ ∀ draw ∈ List.replicate 20 (⟨false, 7, 0⟩ : Draw), draw.sink = 0) := by
  obtain ⟨answer, guarded⟩ := @turn_guarded _ _ counting (fun _ => true) countStep
    { noTokens with state := { noTokens.state with maxT := 40 } } _ _ oneThought (List.replicate 20 ⟨false, 7, 0⟩) [5]
    ([5, 7, 90, 99] ++ List.replicate 16 7) rfl
  exact ⟨_, answer, rfl, guarded⟩

end Turns

end SamosaChat.Teacher
