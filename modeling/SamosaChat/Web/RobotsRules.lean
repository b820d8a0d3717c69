import SamosaChat.Lib.Exclusion
import SamosaChat.Web.Robots

set_option autoImplicit false

namespace SamosaChat.Web

open Utf8 Text Exclusion

def shown (line : Bytes) : Bytes :=
  skipBlanks (trimEnd (fun c => c == 0x0d || c == 0x20) line)

-- The text is spelled so that it is taken for the record: the colon stands behind the word, an agent that begins with
-- the token is the token, and nothing stands behind the pattern of a rule.
def TakenFor (token : String) (text : Bytes) : Option Record → Prop
  | some (.agent name) =>
    startsWith "user-agent:" text = true ∧
      (value text ≠ [] ∧ startsWith token (value text) = true ↔ sameToken token name = true) ∧
      (value text = [0x2a] ↔ sameToken "*" name = true)
  | some (.rule rule) =>
    startsWith (if rule.allow then "allow:" else "disallow:") text = true ∧ value text = rule.pattern
  | _ => True

instance {token : String} {text : Bytes} : (read : Option Record) → Decidable (TakenFor token text read)
  | some (.agent _) => inferInstanceAs (Decidable (_ ∧ _ ∧ _))
  | some (.rule _) => inferInstanceAs (Decidable (_ ∧ _))
  | some .other | none => .isTrue trivial

def Meant (token : String) (line : Bytes) : Prop :=
  0x0d ∉ shown line ∧ TakenFor token (shown line) (record (shown line))

instance {token : String} {line : Bytes} : Decidable (Meant token line) :=
  inferInstanceAs (Decidable (_ ∧ _))

def Unbroken (read : List Record) : Prop :=
  ∀ earlier name others next later, read = earlier ++ .agent name :: (others ++ .agent next :: later) →
    (∀ r ∈ others, r = .other) → others = []

def recordStep (specific : Bool) (names : Bytes → Bool) (path : Bytes) (pass : RobotsPass) : Record → RobotsPass
  | .agent name =>
    { pass with
      inGroup := (if !pass.lastWasAgent && pass.groupStarted then false else pass.inGroup) || names name
      haveSpecific := pass.haveSpecific || (names name && specific)
      groupStarted := true
      lastWasAgent := true }
  | .rule rule =>
    { pass with
      lastWasAgent := false
      bestAllow :=
        if pass.inGroup = true ∧ rule.allow = true then longest path rule.pattern pass.bestAllow else pass.bestAllow
      bestDisallow :=
        if pass.inGroup = true ∧ rule.allow = false then longest path rule.pattern pass.bestDisallow
        else pass.bestDisallow }
  | .other => { pass with lastWasAgent := false }

def passStart : RobotsPass :=
  { inGroup := false, groupStarted := false, lastWasAgent := false, haveSpecific := false, bestAllow := -1
    bestDisallow := -1 }

-- The length of the longest rule that binds the path, -1 without one.
def IsLongest (best : Int) (heard : Rule → Prop) (path : Bytes) : Prop :=
  (best = -1 ∨ ∃ rule, heard rule ∧ rule.Binds path ∧ best = rule.pattern.length) ∧
    ∀ rule, heard rule → rule.Binds path → (rule.pattern.length : Int) ≤ best

section Longest

variable {heard more : Rule → Prop} {path : Bytes} {best : Int}

theorem longest_same (same : ∀ rule, more rule ↔ heard rule) (longest_ : IsLongest best heard path) : IsLongest best more path := by
  obtain ⟨reached, bound⟩ := longest_
  refine ⟨reached.imp_right ?_, fun rule inside => bound rule ((same rule).mp inside)⟩
  rintro ⟨rule, inside, found⟩
  exact ⟨rule, (same rule).mpr inside, found⟩

theorem longest_step (rule : Rule) (longest_ : IsLongest best heard path) :
    IsLongest (longest path rule.pattern best) (fun r => heard r ∨ r = rule) path := by
  obtain ⟨reached, bound⟩ := longest_
  unfold longest
  split
  · rename_i better
    obtain ⟨some_, start, longer⟩ := better
    have binds : rule.Binds path := ⟨some_, List.isPrefixOf_iff_prefix.mp start⟩
    refine ⟨.inr ⟨rule, .inr rfl, binds, rfl⟩, ?_⟩
    rintro r (inside | rfl) here
    · exact Int.le_trans (bound r inside here) (Int.le_of_lt longer)
    · exact Int.le_refl _
  · rename_i worse
    refine ⟨reached.imp_right fun ⟨r, inside, found⟩ => ⟨r, .inl inside, found⟩, ?_⟩
    rintro r (inside | rfl) here
    · exact bound r inside here
    · exact Int.not_lt.mp fun longer => worse ⟨here.1, List.isPrefixOf_iff_prefix.mpr here.2, longer⟩

theorem allowed_by_length {rules : List Rule} {yes no : Int}
    (yes_ : IsLongest yes (fun rule => rule ∈ rules ∧ rule.allow = true) path)
    (no_ : IsLongest no (fun rule => rule ∈ rules ∧ rule.allow = false) path) :
    (no < 0 || yes ≥ no) = true ↔ Allowed rules path := by
  obtain ⟨yesReached, yesBound⟩ := yes_
  obtain ⟨noReached, noBound⟩ := no_
  rw [Bool.or_eq_true, decide_eq_true_eq, decide_eq_true_eq]
  constructor
  · rintro verdict rule inside kind binds
    have long := noBound rule ⟨inside, kind⟩ binds
    rcases yesReached with none_ | ⟨other, ⟨among, allows⟩, here, length⟩
    · omega
    · exact ⟨other, among, allows, here, by omega⟩
  · intro allowed
    rcases noReached with none_ | ⟨rule, ⟨inside, kind⟩, binds, length⟩
    · exact .inl (by omega)
    · obtain ⟨other, among, allows, here, longer⟩ := allowed rule inside kind binds
      have reach := yesBound other ⟨among, allows⟩ here
      exact .inr (by omega)

end Longest

structure Follows (names : Bytes → Bool) (path : Bytes) (read : List Record) (pass : RobotsPass) : Prop where
  started : pass.groupStarted = !(groupsOf read).isEmpty
  group : pass.inGroup = (groupsOf read).head?.any fun group => group.agents.any names
  agent : pass.lastWasAgent = true ↔ ∃ earlier name, read = earlier ++ [.agent name]
  allows : IsLongest pass.bestAllow (fun rule => Heard names (groupsOf read) rule ∧ rule.allow = true) path
  disallows : IsLongest pass.bestDisallow (fun rule => Heard names (groupsOf read) rule ∧ rule.allow = false) path

section Follows

variable {specific : Bool} {names : Bytes → Bool} {path : Bytes} {read : List Record} {pass : RobotsPass}

theorem group_begins {name : Bytes} (unbroken : Unbroken (read ++ [.agent name])) (follows : Follows names path read pass) :
    ((!pass.lastWasAgent && pass.groupStarted) = true ↔ ∃ last before, groupsOf read = last :: before ∧ last.rules ≠ []) := by
  rw [follows.started]
  cases groups : groupsOf read with
  | nil => simp
  | cons last before =>
    simp only [List.isEmpty_cons, Bool.not_false, Bool.and_true, Bool.not_eq_true', List.cons.injEq, ne_eq]
    constructor
    · intro quiet
      refine ⟨last, before, ⟨rfl, rfl⟩, fun fresh => ?_⟩
      obtain ⟨first, named, others, rfl, plain⟩ := agents_last groups fresh
      have none_ := unbroken first named others name [] (by simp) plain
      have spoken := follows.agent.mpr ⟨first, named, by rw [none_]⟩
      rw [spoken] at quiet
      cases quiet
    · rintro ⟨_, _, ⟨rfl, rfl⟩, used⟩
      refine Bool.eq_false_iff.mpr fun spoken => used ?_
      obtain ⟨first, named, rfl⟩ := follows.agent.mp spoken
      rw [groups_snoc] at groups
      exact agent_fresh groups

theorem heard_longest {groups : List Group} {best : Int} (rule : Rule) (kind : Bool)
    (longest_ : IsLongest best (fun r => Heard names groups r ∧ r.allow = kind) path) : IsLongest
      (if groups.head?.any (fun group => group.agents.any names) = true ∧ rule.allow = kind
        then longest path rule.pattern best else best)
      (fun r => Heard names (extend groups (.rule rule)) r ∧ r.allow = kind) path := by
  have same : ∀ r, Heard names (extend groups (.rule rule)) r ↔
      Heard names groups r ∨ groups.head?.any (fun group => group.agents.any names) = true ∧ r = rule := fun _ => heard_rule rule
  split
  · rename_i heard
    refine longest_same (fun r => ?_) (longest_step rule longest_)
    rw [same]
    constructor
    · rintro ⟨earlier | ⟨-, rfl⟩, kind⟩
      · exact .inl ⟨earlier, kind⟩
      · exact .inr rfl
    · rintro (⟨earlier, kind⟩ | rfl)
      · exact ⟨.inl earlier, kind⟩
      · exact ⟨.inr ⟨heard.1, rfl⟩, heard.2⟩
  · rename_i missed
    refine longest_same (fun r => ?_) longest_
    rw [same]
    refine and_congr_left fun kind => or_iff_left ?_
    rintro ⟨heard, rfl⟩
    exact missed ⟨heard, kind⟩

theorem follows_step {more : Record} (unbroken : Unbroken (read ++ [more])) (follows : Follows names path read pass) :
    Follows names path (read ++ [more]) (recordStep specific names path pass more) := by
  cases more with
  | agent name =>
    have same : ∀ rule, Heard names (extend (groupsOf read) (.agent name)) rule ↔ Heard names (groupsOf read) rule :=
      fun _ => heard_agent name
    have begins := group_begins unbroken follows
    refine ⟨?_, ?_, ?_, ?_, ?_⟩
    · rw [groups_snoc]
      cases groups : groupsOf read with
      | nil => rfl
      | cons last before =>
        rw [extend.eq_def]
        dsimp only
        split <;> rfl
    · rw [groups_snoc, recordStep]
      dsimp only
      rw [follows.group]
      cases groups : groupsOf read with
      | nil => simp [extend]
      | cons last before =>
        by_cases fresh : last.rules = []
        · have goes : (!pass.lastWasAgent && pass.groupStarted) = false := by
            rw [← Bool.not_eq_true, begins, groups]
            rintro ⟨_, _, same, used⟩
            cases same
            exact used fresh
          rw [goes, extend, if_pos fresh]
          simp [Bool.or_comm]
        · rw [begins.mpr ⟨last, before, groups, fresh⟩, extend, if_neg fresh]
          simp
    · exact ⟨fun _ => ⟨read, name, rfl⟩, fun _ => rfl⟩
    · rw [groups_snoc]
      exact longest_same (fun rule => and_congr_left' (same rule)) follows.allows
    · rw [groups_snoc]
      exact longest_same (fun rule => and_congr_left' (same rule)) follows.disallows
  | rule rule =>
    refine ⟨?_, ?_, ?_, ?_, ?_⟩
    · rw [groups_snoc]
      refine follows.started.trans ?_
      cases groupsOf read <;> rfl
    · rw [groups_snoc]
      refine follows.group.trans ?_
      cases groupsOf read <;> rfl
    · constructor
      · intro spoken
        cases spoken
      · rintro ⟨_, _, shape⟩
        cases (List.append_inj' shape rfl).2
    · rw [groups_snoc, recordStep, follows.group]
      exact heard_longest rule true follows.allows
    · rw [groups_snoc, recordStep, follows.group]
      exact heard_longest rule false follows.disallows
  | other =>
    refine ⟨?_, ?_, ?_, ?_, ?_⟩
    · rw [groups_snoc]
      exact follows.started
    · rw [groups_snoc]
      exact follows.group
    · constructor
      · intro spoken
        cases spoken
      · rintro ⟨_, _, shape⟩
        cases (List.append_inj' shape rfl).2
    · rw [groups_snoc]
      exact follows.allows
    · rw [groups_snoc]
      exact follows.disallows

theorem unbroken_before {more : Record} (unbroken : Unbroken (read ++ [more])) : Unbroken read := by
  intro earlier name others next later shape
  refine unbroken earlier name others next (later ++ [more]) ?_
  rw [shape]
  simp

theorem follows_run (unbroken : Unbroken read) : Follows names path read (read.foldl (recordStep specific names path) passStart) := by
  induction read using List.reverseRecOn with
  | nil =>
    have silent : ∀ allow, IsLongest (-1) (fun rule => Heard names [] rule ∧ rule.allow = allow) path :=
      fun allow => ⟨.inl rfl, fun rule inside => by simp [Heard] at inside⟩
    exact ⟨rfl, rfl, by simp [passStart], silent true, silent false⟩
  | append_singleton read more ih =>
    rw [List.foldl_append]
    exact follows_step unbroken (ih (unbroken_before unbroken))

theorem specific_run (names : Bytes → Bool) (path : Bytes) (read : List Record) :
    (read.foldl (recordStep true names path) passStart).haveSpecific =
      (groupsOf read).any fun group => group.agents.any names := by
  induction read using List.reverseRecOn with
  | nil => rfl
  | append_singleton read more ih =>
    rw [List.foldl_append, groups_snoc]
    cases more with
    | agent name =>
      rw [named_agent, ← ih]
      simp [recordStep]
    | rule rule =>
      rw [named_rule, ← ih]
      rfl
    | other => exact ih

end Follows

section Lines

variable {token : String} {line : Bytes}

def wordOf (allow : Bool) : String :=
  if allow then "allow" else "disallow"

theorem plain_letter (c : UInt8) : (isLower (toLower c) || toLower c == 0x2d) = true → c ≠ 0x3a ∧ c ≠ 0x23 ∧ isBlank c = false := by
  revert c
  exact every_byte (by decide +kernel)

theorem agent_ends : (utf8 "user-agent:").map toLower = utf8 "user-agent" ++ [0x3a] := by
  decide

theorem agent_letters (c : UInt8) (inside : toLower c ∈ utf8 "user-agent") : c ≠ 0x3a ∧ c ≠ 0x23 ∧ isBlank c = false := by
  have plain : ∀ d ∈ utf8 "user-agent", (isLower d || d == 0x2d) = true := by decide
  exact plain_letter c (plain _ inside)

theorem rule_ends (allow : Bool) :
    (utf8 (if allow then "allow:" else "disallow:")).map toLower = utf8 (wordOf allow) ++ [0x3a] := by
  cases allow <;> decide

theorem rule_letters (allow : Bool) (c : UInt8) (inside : toLower c ∈ utf8 (wordOf allow)) :
    c ≠ 0x3a ∧ c ≠ 0x23 ∧ isBlank c = false := by
  have plain : ∀ d ∈ utf8 (wordOf allow), (isLower d || d == 0x2d) = true := by cases allow <;> decide
  exact plain_letter c (plain _ inside)

theorem lower_letters {word : String} {name : Bytes}
    (letters : ∀ c : UInt8, toLower c ∈ utf8 word → c ≠ 0x3a ∧ c ≠ 0x23 ∧ isBlank c = false)
    (lower : name.map toLower = utf8 word) : ∀ c ∈ name, c ≠ 0x3a ∧ c ≠ 0x23 ∧ isBlank c = false :=
  fun c inside => letters c (lower ▸ List.mem_map_of_mem inside)

theorem agent_spelled (starts : startsWith "user-agent:" line = true) : ∃ name, record line = some (.agent name) := by
  obtain ⟨name, behind, rfl, lower⟩ := word_split agent_ends starts
  have letters := lower_letters agent_letters lower
  have said := content_keyed behind letters
  refine ⟨value (content (name ++ 0x3a :: behind)), ?_⟩
  rw [record, said]
  rw [if_neg (by simp), if_pos]
  rw [keyed, key_keyed letters, lower]
  simp

theorem rule_spelled (allow : Bool) (starts : startsWith (if allow then "allow:" else "disallow:") line = true) :
    ∃ pattern, record line = some (.rule ⟨allow, pattern⟩) := by
  obtain ⟨name, behind, rfl, lower⟩ := word_split (rule_ends allow) starts
  have letters := lower_letters (rule_letters allow) lower
  have said := content_keyed behind letters
  refine ⟨value (content (name ++ 0x3a :: behind)), ?_⟩
  have colon : ∀ after : Bytes, (name ++ 0x3a :: after).contains 0x3a = true := fun after => by simp
  have keyed_ : ∀ word after, keyed word (name ++ 0x3a :: after) = (utf8 (wordOf allow) == utf8 word) := by
    intro word after
    rw [keyed, key_keyed letters, lower, colon, Bool.true_and]
  rw [record, said]
  rw [if_neg (by simp), keyed_, keyed_, keyed_]
  cases allow <;> rfl

theorem line_read {specific : Bool} {want : String} {path : Bytes} {pass : RobotsPass}
    (which : specific = true ∧ want = token ∨ specific = false ∧ want = "*") (meant : Meant token line) :
    robotsLine specific want path pass line =
      (record (shown line)).elim pass (recordStep specific (sameToken want) path pass) := by
  obtain ⟨-, meant⟩ := meant
  have quiet : shown line = [] ∨ (shown line).head? = some 0x23 ↔ record (shown line) = none :=
    content_nil_iff.symm.trans record_none_iff.symm
  rw [robotsLine, ← shown]
  dsimp only
  rw [if_congr quiet rfl rfl]
  cases read : record (shown line) with
  | none => rw [if_pos rfl, Option.elim_none]
  | some more =>
    rw [if_neg (by simp), Option.elim_some]
    rw [read] at meant
    cases more with
    | agent name =>
      obtain ⟨starts, named, everyone⟩ := meant
      have told : skipBlanks ((shown line).drop 11) = value (shown line) :=
        (value_spelled agent_ends agent_letters starts).symm
      have found : (if specific then value (shown line) ≠ [] && startsWith want (value (shown line))
          else value (shown line) == [0x2a]) = sameToken want name := by
        rcases which with ⟨rfl, rfl⟩ | ⟨rfl, rfl⟩
        · rw [if_pos rfl, Bool.eq_iff_iff, Bool.and_eq_true, decide_eq_true_eq, named]
        · rw [if_neg Bool.false_ne_true, Bool.eq_iff_iff, beq_iff_eq, everyone]
      rw [if_pos starts, told, found]
      rfl
    | rule rule =>
      obtain ⟨starts, told⟩ := meant
      have noAgent : ¬ startsWith "user-agent:" (shown line) = true := by
        intro starts
        obtain ⟨_, other⟩ := agent_spelled starts
        rw [read] at other
        cases other
      obtain ⟨allow, pattern⟩ := rule
      have other : startsWith (if allow then "disallow:" else "allow:") (shown line) = false := by
        refine Bool.eq_false_iff.mpr fun starts => ?_
        obtain ⟨_, other⟩ := rule_spelled (!allow) (by cases allow <;> exact starts)
        rw [read] at other
        cases allow <;> cases other
      have value_ := value_spelled (rule_ends allow) (rule_letters allow) starts
      rw [told] at value_
      rw [if_neg noAgent]
      cases allow with
      | false =>
        have here : startsWith "disallow:" (shown line) = true := starts
        have there : startsWith "allow:" (shown line) = false := other
        have pattern_ : pattern = skipBlanks ((shown line).drop 9) := value_
        cases group : pass.inGroup <;> simp [recordStep, here, there, group, pattern_]
      | true =>
        have here : startsWith "allow:" (shown line) = true := starts
        have there : startsWith "disallow:" (shown line) = false := other
        have pattern_ : pattern = skipBlanks ((shown line).drop 6) := value_
        cases group : pass.inGroup <;> simp [recordStep, here, there, group, pattern_]
    | other =>
      have noAgent : startsWith "user-agent:" (shown line) = false := by
        refine Bool.eq_false_iff.mpr fun starts => ?_
        obtain ⟨_, other⟩ := agent_spelled starts
        rw [read] at other
        cases other
      have noRule : ∀ allow : Bool, startsWith (if allow then "allow:" else "disallow:") (shown line) = false := by
        refine fun allow => Bool.eq_false_iff.mpr fun starts => ?_
        obtain ⟨_, other⟩ := rule_spelled allow starts
        rw [read] at other
        cases other
      have no : startsWith "disallow:" (shown line) = false := noRule false
      have yes : startsWith "allow:" (shown line) = false := noRule true
      simp [noAgent, no, yes, recordStep]

theorem record_content {other : Bytes} (same : content other = content line) : record other = record line := by
  rw [record, record, same]

theorem line_records (whole : 0x0d ∉ shown line) : (pieces 0x0d line).filterMap record = (record (shown line)).toList := by
  obtain ⟨body, tail, rfl, shown_, ends⟩ : ∃ body tail, line = body ++ tail ∧
      shown line = skipBlanks body ∧ ∀ c ∈ tail, (c == 0x0d || c == 0x20) = true :=
    ⟨line.rdropWhile fun c => c == 0x0d || c == 0x20, line.rtakeWhile fun c => c == 0x0d || c == 0x20,
      List.rdropWhile_append_rtakeWhile.symm, rfl, fun c inside => List.mem_rtakeWhile_imp (p := fun c => c == 0x0d || c == 0x20) inside⟩
  have spaces : ∀ piece ∈ pieces 0x0d tail, ∀ c ∈ piece, isBlank c = true := by
    intro piece among c inside
    obtain ⟨mine, other⟩ := pieces_inside piece among c inside
    have kinds := ends c mine
    rw [Bool.or_eq_true, beq_iff_eq, beq_iff_eq] at kinds
    rcases kinds with here | rfl
    · exact absurd here other
    · rfl
  have silent : ∀ piece ∈ pieces 0x0d tail, record piece = none := by
    intro piece among
    rw [record_none_iff, ← List.nil_append piece, content_blanks (spaces piece among)]
    rfl
  have body_ : record (skipBlanks body) = record body := by
    refine record_content ?_
    rw [content, content, skipBlanks, skipBlanks, List.dropWhile_idempotent]
  rw [shown_] at whole ⊢
  rw [body_]
  by_cases none_ : body = []
  · subst none_
    rw [List.nil_append, List.filterMap_eq_nil_iff.mpr silent]
    rfl
  · have clean : 0x0d ∉ body := by
      rw [← List.takeWhile_append_dropWhile (p := isBlank) (l := body), List.mem_append]
      rintro (blank | inside)
      · exact absurd (List.mem_takeWhile_imp blank) (by decide)
      · exact whole inside
    have first : record (body ++ (pieces 0x0d tail).headD []) = record body := by
      refine record_content (content_blanks ?_)
      cases shape : pieces 0x0d tail with
      | nil => simp
      | cons piece later => exact spaces piece (shape ▸ List.mem_cons_self)
    have later : (pieces 0x0d tail).tail.filterMap record = [] :=
      List.filterMap_eq_nil_iff.mpr fun piece among => silent piece (List.mem_of_mem_tail among)
    rw [pieces_front clean none_, List.filterMap_cons, first, later]
    cases record body <;> rfl

theorem records_lines {text : Bytes} (whole : ∀ line ∈ lines text, 0x0d ∉ shown line) :
    records text = (lines text).filterMap (record ∘ shown) := by
  rw [records, ruled, List.filterMap_flatMap, List.filterMap_eq_flatMap_toList]
  exact List.flatMap_congr fun line inside => line_records (whole line inside)

theorem pass_records {specific : Bool} {want : String} {text : Bytes} (path : Bytes)
    (which : specific = true ∧ want = token ∨ specific = false ∧ want = "*") (meant : ∀ line ∈ lines text, Meant token line) :
    robotsPass text specific want path = (records text).foldl (recordStep specific (sameToken want) path) passStart := by
  rw [robotsPass, records_lines fun line inside => (meant line inside).1, List.foldl_filterMap]
  refine List.foldl_ext _ _ _ fun pass line inside => ?_
  rw [line_read which (meant line inside), Function.comp_apply]
  cases record (shown line) <;> rfl

end Lines

theorem allowed_heard {token : String} {names : Bytes → Bool} {path : Bytes} {read : List Record} {pass : RobotsPass}
    (follows : Follows names path read pass)
    (binding : ∀ rule, rule ∈ rulesFor token (groupsOf read) ↔ Heard names (groupsOf read) rule) :
    (pass.bestDisallow < 0 || pass.bestAllow ≥ pass.bestDisallow) = true ↔ Allowed (rulesFor token (groupsOf read)) path :=
  allowed_by_length (longest_same (fun rule => and_congr_left' (binding rule)) follows.allows)
    (longest_same (fun rule => and_congr_left' (binding rule)) follows.disallows)

theorem unbroken_without {read : List Record} (none_ : ∀ r ∈ read, r ≠ .other) : Unbroken read := by
  rintro earlier name others next later rfl plain
  refine List.eq_nil_iff_forall_not_mem.mpr fun r inside => none_ r ?_ (plain r inside)
  simp [inside]

def ourRobots : Bytes :=
  utf8 "# shared group\r\nUser-agent: other\r\nUser-agent: SamosaChat\r\nDisallow: /a\r\nAllow: /a/b\r\n"

def commentedRobots : Bytes :=
  utf8 "User-agent: samosachat\nDisallow: /private # internal\n"

end SamosaChat.Web
