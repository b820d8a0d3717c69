import Mathlib.Data.List.DropRight
import SamosaChat.Lib.Scanf
import SamosaChat.Lib.Utf8Scan

set_option autoImplicit false

-- The robots exclusion protocol, for rules without wildcards: the records of a file, its groups, and what they allow.
namespace SamosaChat.Exclusion

open Utf8 Text

structure Rule where
  allow : Bool
  pattern : Bytes
deriving DecidableEq

inductive Record where
  | agent (name : Bytes)
  | rule (rule : Rule)
  | other
deriving DecidableEq

structure Group where
  agents : List Bytes
  rules : List Rule
deriving DecidableEq

def isBlank (c : UInt8) : Bool :=
  c == 0x20 || c == 0x09

-- A line ends at a line feed or at a carriage return; between the two of a pair stands an empty line.
def ruled (text : Bytes) : List Bytes :=
  (lines text).flatMap (pieces 0x0d)

def content (line : Bytes) : Bytes :=
  ((skipBlanks line).takeWhile (· ≠ 0x23)).rdropWhile isBlank

def key (said : Bytes) : Bytes :=
  (said.takeWhile (· ≠ 0x3a)).rdropWhile isBlank

def value (said : Bytes) : Bytes :=
  skipBlanks ((said.dropWhile (· ≠ 0x3a)).drop 1)

def keyed (word : String) (said : Bytes) : Bool :=
  said.contains 0x3a && (key said).map toLower == utf8 word

def record (line : Bytes) : Option Record :=
  let said := content line
  if said = [] then none
  else if keyed "user-agent" said then some (.agent (value said))
  else if keyed "disallow" said then some (.rule ⟨false, value said⟩)
  else if keyed "allow" said then some (.rule ⟨true, value said⟩)
  else some .other

def records (text : Bytes) : List Record :=
  (ruled text).filterMap record

-- One record more; the latest group stands first. An agent behind a rule begins a group, and what is neither an
-- agent nor a rule changes nothing.
def extend (groups : List Group) : Record → List Group
  | .agent name =>
    match groups with
    | [] => [⟨[name], []⟩]
    | last :: before =>
      if last.rules = [] then { last with agents := name :: last.agents } :: before
      else ⟨[name], []⟩ :: last :: before
  | .rule rule =>
    match groups with
    | [] => []
    | last :: before => { last with rules := rule :: last.rules } :: before
  | .other => groups

def groupsOf (read : List Record) : List Group :=
  read.foldl extend []

def sameToken (token : String) (name : Bytes) : Bool :=
  name.map toLower == (utf8 token).map toLower

def Group.names (token : String) (group : Group) : Bool :=
  group.agents.any (sameToken token)

def rulesFor (token : String) (groups : List Group) : List Rule :=
  let own := groups.filter (Group.names token)
  (if own = [] then groups.filter (Group.names "*") else own).flatMap Group.rules

def Rule.Binds (rule : Rule) (path : Bytes) : Prop :=
  rule.pattern ≠ [] ∧ rule.pattern <+: path

instance {rule : Rule} {path : Bytes} : Decidable (rule.Binds path) :=
  inferInstanceAs (Decidable (_ ∧ _))

def Allowed (rules : List Rule) (path : Bytes) : Prop :=
  ∀ no ∈ rules, no.allow = false → no.Binds path →
    ∃ yes ∈ rules, yes.allow = true ∧ yes.Binds path ∧ no.pattern.length ≤ yes.pattern.length

instance {rules : List Rule} {path : Bytes} : Decidable (Allowed rules path) :=
  inferInstanceAs (Decidable (∀ no ∈ rules, _))

def verdict (text : Bytes) (token : String) (path : Bytes) : Prop :=
  Allowed (rulesFor token (groupsOf (records text))) path

instance {text : Bytes} {token : String} {path : Bytes} : Decidable (verdict text token path) :=
  inferInstanceAs (Decidable (Allowed _ _))

section Text

variable {line tail name behind : Bytes} {mark : UInt8}

theorem pieces_inside {text : Bytes} : ∀ piece ∈ pieces mark text, ∀ c ∈ piece, c ∈ text ∧ c ≠ mark := by
  induction text with
  | nil => simp [pieces]
  | cons d rest ih =>
    intro piece among c inside
    rw [pieces] at among
    by_cases cut : d = mark
    · rw [if_pos cut] at among
      rcases List.mem_cons.mp among with rfl | later
      · cases inside
      · exact (ih piece later c inside).imp_left (List.mem_cons_of_mem d)
    · rw [if_neg cut] at among
      cases more : pieces mark rest with
      | nil =>
        rw [more, List.mem_singleton] at among
        subst among
        rw [List.mem_singleton] at inside
        exact ⟨inside ▸ List.mem_cons_self, inside ▸ cut⟩
      | cons first others =>
        rw [more] at among
        rcases List.mem_cons.mp among with rfl | later
        · rcases List.mem_cons.mp inside with rfl | inside
          · exact ⟨List.mem_cons_self, cut⟩
          · exact (ih first (more ▸ List.mem_cons_self) c inside).imp_left (List.mem_cons_of_mem d)
        · exact (ih piece (more ▸ List.mem_cons_of_mem first later) c inside).imp_left (List.mem_cons_of_mem d)

theorem pieces_front (clean : mark ∉ line) (some_ : line ≠ []) :
    pieces mark (line ++ tail) = (line ++ (pieces mark tail).headD []) :: (pieces mark tail).tail := by
  induction line with
  | nil => exact absurd rfl some_
  | cons c rest ih =>
    obtain ⟨other, clean⟩ := List.ne_and_not_mem_of_not_mem_cons clean
    rw [List.cons_append, pieces, if_neg (Ne.symm other)]
    by_cases last : rest = []
    · subst last
      cases more : pieces mark tail <;> simp [more]
    · rw [ih clean last]
      rfl

theorem content_blanks (blank : ∀ c ∈ tail, isBlank c = true) : content (line ++ tail) = content line := by
  have trimmed : ∀ text : Bytes, (text ++ tail).rdropWhile isBlank = text.rdropWhile isBlank := by
    intro text
    rw [List.rdropWhile, List.reverse_append, List.dropWhile_append_of_pos
      (fun c inside => blank c (List.mem_reverse.mp inside))]
    rfl
  unfold content skipBlanks
  by_cases all : ∀ c ∈ line, (c == 0x20 || c == 0x09) = true
  · have dropped : tail.dropWhile (fun c => c == 0x20 || c == 0x09) = [] := List.dropWhile_eq_nil_iff.mpr blank
    rw [List.dropWhile_append_of_pos all, List.dropWhile_eq_nil_iff.mpr all, dropped]
  · have kept : (line.dropWhile fun c => c == 0x20 || c == 0x09) ≠ [] := fun none_ => all (List.dropWhile_eq_nil_iff.mp none_)
    rw [List.dropWhile_append, if_neg (by simpa using kept), List.takeWhile_append]
    split
    · rename_i whole
      have clean : ∀ c ∈ tail, decide (c ≠ 0x23) = true := by
        intro c inside
        have here := blank c inside
        rw [isBlank, Bool.or_eq_true, beq_iff_eq, beq_iff_eq] at here
        rcases here with rfl | rfl <;> decide
      rw [List.takeWhile_eq_self_iff.mpr clean, trimmed]
      rw [(List.takeWhile_prefix _).eq_of_length whole]
    · rfl

theorem word_split {spelled : String} {word line : Bytes} (ends : (utf8 spelled).map toLower = word ++ [0x3a])
    (starts : startsWith spelled line = true) : ∃ name behind, line = name ++ 0x3a :: behind ∧ name.map toLower = word := by
  have colon : ∀ c : UInt8, toLower c = 0x3a → c = 0x3a := every_byte (by decide +kernel)
  rw [startsWith, ends, List.isPrefixOf_iff_prefix] at starts
  obtain ⟨later, shape⟩ := starts
  rw [List.append_assoc] at shape
  obtain ⟨name, rest, rfl, lower, more⟩ := List.map_eq_append_iff.mp shape.symm
  obtain ⟨c, behind, rfl, here, -⟩ := List.map_eq_cons_iff.mp more
  exact ⟨name, behind, by rw [colon c here], lower⟩

theorem content_nil_iff : content (skipBlanks line) = [] ↔ skipBlanks line = [] ∨ (skipBlanks line).head? = some 0x23 := by
  have still : skipBlanks (skipBlanks line) = skipBlanks line := List.dropWhile_idempotent _ _
  rw [content, still]
  cases shape : skipBlanks line with
  | nil => exact ⟨fun _ => .inl rfl, fun _ => rfl⟩
  | cons c rest =>
    have first : isBlank c = false := by
      have kept : line.dropWhile isBlank = c :: rest := shape
      have stays := List.head_dropWhile_not isBlank (l := line) (by rw [kept]; simp)
      simpa only [kept, List.head_cons] using stays
    by_cases comment : c = 0x23
    · subst comment
      rw [List.takeWhile_cons_of_neg (by decide)]
      exact ⟨fun _ => .inr rfl, fun _ => rfl⟩
    · rw [List.takeWhile_cons_of_pos (by simpa using comment), List.rdropWhile_eq_nil_iff]
      constructor
      · intro all
        rw [all c List.mem_cons_self] at first
        cases first
      · rintro (none_ | mark)
        · cases none_
        · exact absurd (Option.some.inj mark) comment

theorem record_none_iff : record line = none ↔ content line = [] := by
  rw [record]
  split
  · simpa using ‹content line = []›
  · rename_i some_
    refine ⟨fun none_ => ?_, fun none_ => absurd none_ some_⟩
    split at none_
    · cases none_
    · split at none_
      · cases none_
      · split at none_ <;> cases none_

variable {word : Bytes}

theorem key_keyed (letters : ∀ c ∈ name, c ≠ 0x3a ∧ c ≠ 0x23 ∧ isBlank c = false) : key (name ++ 0x3a :: behind) = name := by
  have pass : ∀ c ∈ name, decide (c ≠ 0x3a) = true := fun c inside => by simpa using (letters c inside).1
  rw [key, List.takeWhile_append_of_pos pass, List.takeWhile_cons_of_neg (by decide), List.append_nil, List.rdropWhile_eq_self_iff]
  intro some_
  rw [(letters _ (List.getLast_mem some_)).2.2]
  exact Bool.false_ne_true

theorem value_keyed (letters : ∀ c ∈ name, c ≠ 0x3a ∧ c ≠ 0x23 ∧ isBlank c = false) :
    value (name ++ 0x3a :: behind) = skipBlanks behind := by
  have pass : ∀ c ∈ name, decide (c ≠ 0x3a) = true := fun c inside => by simpa using (letters c inside).1
  rw [value, List.dropWhile_append_of_pos pass, List.dropWhile_cons_of_neg (by decide)]
  rfl

theorem value_spelled {spelled : String} (ends : (utf8 spelled).map toLower = word ++ [0x3a])
    (letters : ∀ c : UInt8, toLower c ∈ word → c ≠ 0x3a ∧ c ≠ 0x23 ∧ isBlank c = false)
    (starts : startsWith spelled line = true) : value line = skipBlanks (line.drop (utf8 spelled).length) := by
  obtain ⟨name, behind, rfl, lower⟩ := word_split ends starts
  have count : (utf8 spelled).length = (name ++ [0x3a]).length := by
    rw [← List.length_map toLower, ends, ← lower]
    simp
  have cut : name ++ 0x3a :: behind = (name ++ [0x3a]) ++ behind := by simp
  rw [value_keyed fun c inside => letters c (lower ▸ List.mem_map_of_mem inside), count, cut, List.drop_left]

theorem content_keyed (behind : Bytes) (letters : ∀ c ∈ name, c ≠ 0x3a ∧ c ≠ 0x23 ∧ isBlank c = false) :
    content (name ++ 0x3a :: behind) = name ++ 0x3a :: (behind.takeWhile (· ≠ 0x23)).rdropWhile isBlank := by
  have pass : ∀ c ∈ name, decide (c ≠ 0x23) = true := fun c inside => by simpa using (letters c inside).2.1
  have still : skipBlanks (name ++ 0x3a :: behind) = name ++ 0x3a :: behind := by
    cases name with
    | nil => exact List.dropWhile_cons_of_neg (by decide)
    | cons c rest =>
      refine List.dropWhile_cons_of_neg ?_
      have mark := (letters c List.mem_cons_self).2.2
      rw [isBlank] at mark
      rw [mark]
      exact Bool.false_ne_true
  have trimmed : ∀ kept : Bytes, (name ++ 0x3a :: kept).rdropWhile isBlank = name ++ 0x3a :: kept.rdropWhile isBlank := by
    intro kept
    have stop : ¬ isBlank 0x3a = true := by decide
    rw [List.rdropWhile, List.reverse_append, List.reverse_cons, List.append_assoc, List.dropWhile_append, List.rdropWhile]
    split
    · rename_i none_
      rw [List.isEmpty_iff] at none_
      rw [List.singleton_append, List.dropWhile_cons_of_neg stop, none_]
      simp
    · simp
  rw [content, still, List.takeWhile_append_of_pos pass, List.takeWhile_cons_of_pos (by decide), trimmed]

end Text

section Groups

variable {names : Bytes → Bool} {groups before : List Group} {last : Group} {read : List Record} {rule : Rule}

def Heard (names : Bytes → Bool) (groups : List Group) (rule : Rule) : Prop :=
  ∃ group ∈ groups, group.agents.any names = true ∧ rule ∈ group.rules

theorem heard_agent (name : Bytes) : Heard names (extend groups (.agent name)) rule ↔ Heard names groups rule := by
  cases groups with
  | nil => simp [Heard, extend]
  | cons last before =>
    by_cases fresh : last.rules = []
    · simp [Heard, extend, fresh]
    · simp [Heard, extend, fresh]

theorem heard_rule (more : Rule) : Heard names (extend groups (.rule more)) rule ↔
    Heard names groups rule ∨ groups.head?.any (fun group => group.agents.any names) = true ∧ rule = more := by
  cases groups with
  | nil => simp [Heard, extend]
  | cons last before =>
    simp only [Heard, extend, List.head?_cons, Option.any_some, List.mem_cons, exists_eq_or_imp]
    constructor
    · rintro (⟨named, rfl | inside⟩ | later)
      · exact .inr ⟨named, rfl⟩
      · exact .inl (.inl ⟨named, inside⟩)
      · exact .inl (.inr later)
    · rintro ((⟨named, inside⟩ | later) | ⟨named, rfl⟩)
      · exact .inl ⟨named, .inr inside⟩
      · exact .inr later
      · exact .inl ⟨named, .inl rfl⟩

theorem named_agent (name : Bytes) : (extend groups (.agent name)).any (fun group => group.agents.any names) =
    (groups.any (fun group => group.agents.any names) || names name) := by
  cases groups with
  | nil => simp [extend]
  | cons last before =>
    rw [extend]
    split <;> simp only [List.any_cons, List.any_nil, Bool.or_false] <;> ac_rfl

theorem named_rule (rule : Rule) : (extend groups (.rule rule)).any (fun group => group.agents.any names) =
    groups.any (fun group => group.agents.any names) := by
  cases groups <;> rfl

theorem groups_snoc (more : Record) : groupsOf (read ++ [more]) = extend (groupsOf read) more := by
  rw [groupsOf, List.foldl_append]
  rfl

theorem agent_fresh {name : Bytes} (shape : extend groups (.agent name) = last :: before) : last.rules = [] := by
  cases groups with
  | nil =>
    cases shape
    rfl
  | cons first rest =>
    rw [extend] at shape
    by_cases fresh : first.rules = []
    · rw [if_pos fresh] at shape
      cases shape
      exact fresh
    · rw [if_neg fresh] at shape
      cases shape
      rfl

theorem agents_last (shape : groupsOf read = last :: before) (fresh : last.rules = []) :
    ∃ earlier name others, read = earlier ++ .agent name :: others ∧ ∀ r ∈ others, r = .other := by
  induction read using List.reverseRecOn generalizing last before with
  | nil => cases shape
  | append_singleton read more ih =>
    rw [groups_snoc] at shape
    cases more with
    | agent name => exact ⟨read, name, [], rfl, by simp⟩
    | rule more =>
      cases groups : groupsOf read with
      | nil =>
        rw [groups] at shape
        cases shape
      | cons first rest =>
        rw [groups] at shape
        cases shape
        cases fresh
    | other =>
      obtain ⟨earlier, name, others, rfl, plain⟩ := ih shape fresh
      refine ⟨earlier, name, others ++ [.other], by simp, ?_⟩
      intro r inside
      rcases List.mem_append.mp inside with inside | inside
      · exact plain r inside
      · exact List.mem_singleton.mp inside

theorem rules_for_mem {token : String} : rule ∈ rulesFor token groups ↔
    if groups.any (Group.names token) = true then Heard (sameToken token) groups rule else Heard (sameToken "*") groups rule := by
  have own : groups.filter (Group.names token) = [] ↔ ¬ groups.any (Group.names token) = true := by
    simp [List.filter_eq_nil_iff]
  rw [rulesFor]
  by_cases named : groups.any (Group.names token) = true
  · rw [if_neg (fun none_ => own.mp none_ named), if_pos named]
    simp [Heard, Group.names, List.mem_flatMap, and_assoc]
  · rw [if_pos (own.mpr named), if_neg named]
    simp [Heard, Group.names, List.mem_flatMap, and_assoc]

end Groups

end SamosaChat.Exclusion
