import SamosaChat.Json.Printed

set_option autoImplicit false

namespace SamosaChat.Maple

open Utf8 Text Decimal Binary64 JsonMeaning
open FloatText (format format_integer natural_integer)
open Json hiding Value Chars Kids Fields

abbrev Members := List (Bytes × Jval)

def maxTokens : Bytes :=
  utf8 "max_tokens"

def maxCompletionTokens : Bytes :=
  utf8 "max_completion_tokens"

-- max->num > n
def greater (num : Double) (n : Nat) : Bool :=
  match num with
  | .nan => false
  | .inf negative => !negative
  | .finite negative magnitude => !negative && n * one < magnitude.units

-- max->num == (int)max->num. Outside of int the cast gives some int, which the number is not.
def isInt (num : Double) : Bool :=
  match num with
  | .finite negative magnitude =>
    magnitude.units % one = 0 && magnitude.units / one ≤ (if negative then 2 ^ 31 else 2 ^ 31 - 1)
  | _ => false

def clamps : Option Jval → Bool
  | some (.num num) => greater num 4096 && isInt num
  | _ => false

def boundedMembers : Members → Bytes → Bool → Bytes × Bool
  | [], out, wrote => (out, wrote)
  | (key, kid) :: fields, out, wrote =>
    if key = maxTokens ∨ key = maxCompletionTokens then boundedMembers fields out wrote
    else
      let out := if wrote then out ++ [0x2c] else out
      let out := (textJsonString out key).getD out ++ [0x3a]
      boundedMembers fields ((textJsonValue out kid).getD out) true

-- The body with its limit lowered. None is returned for a body that is sent on as it is.
def mapleBoundedBody (body : Bytes) : Option Bytes :=
  if body = [] then none
  else
    match parsed body with
    | some (.obj fields) =>
      let max := (jsonGet (.obj fields) maxTokens).or (jsonGet (.obj fields) maxCompletionTokens)
      if clamps max then
        let (out, wrote) := boundedMembers fields (utf8 "\x7b") false
        let out := if wrote then out ++ [0x2c] else out
        some (out ++ utf8 "\"max_tokens\":4096\x7d")
      else none
    | _ => none

section Limits

def IsLimit (key : Bytes) : Prop :=
  key = maxTokens ∨ key = maxCompletionTokens

instance (key : Bytes) : Decidable (IsLimit key) :=
  inferInstanceAs (Decidable (_ ∨ _))

def Whole (low high : Nat) (value : Jval) : Prop :=
  ∃ num n, value = .num num ∧ natural num = some n ∧ low ≤ n ∧ n ≤ high

structure Bounded (members : Members) : Prop where
  taken : ∀ member ∈ members, IsLimit member.1 → Whole 1 4096 member.2
  once : ∀ key, IsLimit key → (members.filter fun member => member.1 = key).length ≤ 1

def others (members : Members) : Members :=
  remaining IsLimit members

def SentOn (body : Bytes) (value sent : Jval) : Prop :=
  match mapleBoundedBody body with
  | none => sent = value
  | some text => Means text sent

structure Kept (members sent : Members) : Prop where
  bounded : Bounded sent
  rest : others sent = others members
  same : Bounded members → sent = members

def firstNamed (key : Bytes) (members : Members) : Option Jval :=
  (members.find? fun member => cstr member.1 = key).map Prod.snd

def Oversized (members : Members) : Prop :=
  ∃ limit, (firstNamed maxTokens members).or (firstNamed maxCompletionTokens members) = some limit ∧ Whole 4097 (2 ^ 31 - 1) limit

end Limits

section Clamping

theorem limit_texts : (∀ key, IsLimit key → (0 : UInt8) ∉ key ∧ ∀ c ∈ key, c < 0x80) ∧ escaped maxTokens = maxTokens := by
  have texts : ((0 : UInt8) ∉ maxTokens ∧ ∀ c ∈ maxTokens, c < 0x80) ∧
      ((0 : UInt8) ∉ maxCompletionTokens ∧ ∀ c ∈ maxCompletionTokens, c < 0x80) ∧ escaped maxTokens = maxTokens := by
    decide +kernel
  exact ⟨fun key limit => limit.elim (fun same => same ▸ texts.1) fun same => same ▸ texts.2.1, texts.2.2⟩

theorem clamps_iff (num : Double) :
    (greater num 4096 && isInt num) = true ↔ ∃ n, natural num = some n ∧ 4097 ≤ n ∧ n ≤ 2 ^ 31 - 1 := by
  cases num with
  | nan => simp [greater, natural]
  | inf negative => simp [isInt, natural]
  | finite negative magnitude =>
    rw [greater, isInt, natural]
    cases negative with
    | true =>
      refine iff_of_false Bool.false_ne_true ?_
      rintro ⟨n, same, low, _⟩
      by_cases whole : magnitude.units % one = 0 ∧ (true = false ∨ magnitude.units = 0)
      · have none_ := whole.2.resolve_left (Ne.symm Bool.false_ne_true)
        rw [if_pos whole, none_, Nat.zero_div] at same
        cases same
        omega
      · rw [if_neg whole] at same
        cases same
    | false =>
      have size (whole : magnitude.units % one = 0) : 4096 * one < magnitude.units ↔ 4097 ≤ magnitude.units / one := by
        obtain ⟨k, shape⟩ := Nat.dvd_of_mod_eq_zero whole
        rw [shape, Nat.mul_div_cancel_left k FloatText.one_pos, Nat.mul_comm one k, Nat.mul_lt_mul_right FloatText.one_pos]
        exact Nat.lt_iff_add_one_le
      simp only [Bool.not_false, Bool.true_and, Bool.and_eq_true, decide_eq_true_eq, Bool.false_eq_true, if_false, true_or,
        and_true]
      constructor
      · rintro ⟨large, whole, small⟩
        exact ⟨magnitude.units / one, if_pos whole, (size whole).mp large, small⟩
      · rintro ⟨n, same, low, high⟩
        split_ifs at same with whole
        cases same
        exact ⟨(size whole).mpr low, whole, high⟩

theorem find_first (key : Bytes) (members : Members) :
    Json.find key (mappedFields cstr members) = (firstNamed key members).map (mapped cstr) := by
  induction members with
  | nil => rfl
  | cons member members ih =>
    obtain ⟨name, kid⟩ := member
    rw [mappedFields, Json.find, firstNamed, List.find?_cons]
    by_cases same : cstr name = key
    · rw [if_pos same, decide_eq_true same]
      rfl
    · rw [if_neg same, decide_eq_false same, ih]
      rfl

theorem clamps_oversized (members : Members) : clamps ((jsonGet (.obj (mappedFields cstr members)) maxTokens).or
      (jsonGet (.obj (mappedFields cstr members)) maxCompletionTokens)) = true ↔ Oversized members := by
  rw [jsonGet, jsonGet, find_first, find_first, ← Option.map_or, Oversized]
  cases (firstNamed maxTokens members).or (firstNamed maxCompletionTokens members) with
  | none => simp [clamps]
  | some limit =>
    rw [Option.map_some]
    constructor
    · intro clamp
      cases limit with
      | num num =>
        obtain ⟨n, whole, low, high⟩ := (clamps_iff num).mp clamp
        exact ⟨_, rfl, num, n, rfl, whole, low, high⟩
      | null => cases clamp
      | bool boolean => cases clamp
      | str str => cases clamp
      | arr kids => cases clamp
      | obj fields => cases clamp
    · rintro ⟨_, same, num, n, rfl, whole, low, high⟩
      cases same
      exact (clamps_iff num).mpr ⟨n, whole, low, high⟩

theorem others_cons (key : Bytes) (kid : Jval) (fields : Members) :
    others ((key, kid) :: fields) = if IsLimit key then others fields else (key, kid) :: others fields :=
  remaining_cons key kid fields

theorem bounded_members_eq (fields : Members) : ∀ (out : Bytes) (wrote : Bool), boundedMembers fields out wrote =
    (out ++ writtenFields (!wrote) (others fields), wrote || !(others fields).isEmpty) := by
  induction fields with
  | nil =>
    have none_ : others [] = [] := rfl
    exact fun out wrote => by simp [boundedMembers, none_, writtenFields]
  | cons field fields ih =>
    intro out wrote
    obtain ⟨key, kid⟩ := field
    rw [boundedMembers, others_cons]
    by_cases limit : key = maxTokens ∨ key = maxCompletionTokens
    · rw [if_pos limit, if_pos (show IsLimit key from limit), ih]
    · rw [if_neg limit, if_neg (show ¬IsLimit key from limit), ih]
      simp only [text_json_string_eq, text_json_value_eq, Option.getD_some, writtenFields]
      cases wrote <;> simp

def whole (n : Nat) (small : n ≤ 2 ^ 53) : Jval :=
  .num (integer false n small)

def limit : Jval :=
  whole 4096 (by decide)

theorem written_whole {n : Nat} (small : n ≤ 2 ^ 53) : written (whole n small) = decimal n := by
  rw [whole, written, integer, format, if_neg Bool.false_ne_true, format_integer (Nat.lt_of_le_of_lt small (by decide))]

theorem written_limit : written limit = [0x34, 0x30, 0x39, 0x36] := by
  have text : decimal 4096 = [0x34, 0x30, 0x39, 0x36] := by decide
  rw [limit, written_whole, text]

theorem bounded_text {body : Bytes} {fields : Members} (some_ : body ≠ []) (read : parsed body = some (.obj fields)) :
    mapleBoundedBody body = if clamps ((jsonGet (.obj fields) maxTokens).or (jsonGet (.obj fields) maxCompletionTokens)) then
        some (written (.obj (others fields ++ [(maxTokens, limit)]))) else none := by
  have texts : utf8 "\x7b" = [0x7b] ∧ utf8 "\"max_tokens\":4096\x7d" =
      0x22 :: maxTokens ++ 0x22 :: 0x3a :: ([0x34, 0x30, 0x39, 0x36] ++ [0x7d]) := by decide
  rw [mapleBoundedBody, if_neg some_, read]
  dsimp only
  rw [bounded_members_eq, written, written_fields_append, writtenFields, writtenFields, limit_texts.2, written_limit, texts.1, texts.2]
  cases others fields with
  | nil => simp [writtenFields]
  | cons field rest => simp

end Clamping

section Sent

variable {body : Bytes} {members sent : Members}

def keptMembers (members : Members) : Members :=
  remainingCut IsLimit members

theorem mapped_fields_snoc (f : Bytes → Bytes) (fields : Members) (key : Bytes) (kid : Jval) :
    mappedFields f (fields ++ [(key, kid)]) = mappedFields f fields ++ [(f key, mapped f kid)] := by
  rw [mapped_fields_eq, mapped_fields_eq, List.map_append]
  rfl

theorem sent_on_iff (means : Means body (.obj members)) : SentOn body (.obj members) (.obj sent) ↔
    (Oversized members ∧ AllFiniteFields (keptMembers members) ∧
      sent = mappedFields reread (keptMembers members) ++ [(maxTokens, limit)]) ∨ ¬Oversized members ∧ sent = members := by
  have read : parsed body = some (.obj (mappedFields cstr members)) := means_parsed means
  rw [SentOn, bounded_text (means_some means) read]
  by_cases large : Oversized members
  · have name : cstr maxTokens = maxTokens := cstr_self (limit_texts.1 _ (.inl rfl)).1
    have again : reread maxTokens = maxTokens := by
      have ascii := (limit_texts.1 maxTokens (.inl rfl)).2
      rw [reread_self]
      exact ascii_string (fun c inside => UInt8.lt_iff_toNat_lt.mp (ascii c inside)) (limit_texts.1 _ (.inl rfl)).1
    have cut : Jval.obj (others (mappedFields cstr members) ++ [(maxTokens, limit)]) =
        mapped cstr (.obj (keptMembers members ++ [(maxTokens, limit)])) := by
      rw [mapped, mapped_fields_snoc, others, remaining_mapped, name]
      rfl
    have finite : AllFiniteFields (keptMembers members ++ [(maxTokens, limit)]) ↔ AllFiniteFields (keptMembers members) := by
      rw [all_finite_fields_iff, all_finite_fields_iff, List.forall_mem_append]
      exact and_iff_left fun member inside => by
        rw [List.mem_singleton.mp inside]
        exact ⟨_, _, rfl⟩
    rw [if_pos ((clamps_oversized members).mpr large)]
    dsimp only
    rw [cut, means_reread, AllFinite, finite, mapped, Jval.obj.injEq, mapped_fields_snoc, again]
    simp only [large, true_and, not_true_eq_false, false_and, or_false]
    rfl
  · rw [if_neg fun clamp => large ((clamps_oversized members).mp clamp)]
    dsimp only
    rw [Jval.obj.injEq]
    simp only [large, false_and, not_false_eq_true, true_and, false_or]

theorem reread_limit {key : Bytes} (limit : IsLimit (reread key)) : IsLimit (cstr key) := by
  have same : reread key = cstr key := lossy_ascii (limit_texts.1 _ limit).2
  rwa [same] at limit

theorem reread_kept (members : Members) : ∀ member ∈ mappedFields reread (keptMembers members), ¬IsLimit member.1 := by
  rw [mapped_fields_eq]
  intro member inside
  obtain ⟨member, among, rfl⟩ := List.mem_map.mp inside
  exact fun limit => (mem_remaining_cut.mp among).2 (reread_limit limit)

theorem others_sent (members : Members) : others (mappedFields reread (keptMembers members) ++ [(maxTokens, limit)]) =
    mappedFields reread (keptMembers members) := by
  rw [others, remaining_append, remaining_self (reread_kept members), remaining_none fun member inside => ?_, List.append_nil]
  rw [List.mem_singleton.mp inside]
  exact .inl rfl

theorem kept_iff : AllFiniteFields (keptMembers members) ∧ mappedFields reread (keptMembers members) = others members ↔
    ∀ member ∈ others members, StringText member.1 ∧ Writable member.2 :=
  remaining_iff fun key limit => (limit_texts.1 key limit).1

theorem oversized_unbounded (large : Oversized members) (texts : ∀ member ∈ others members, StringText member.1) :
    ¬Bounded members := by
  intro bounded
  obtain ⟨_, counts, num, n, rfl, whole, low, _⟩ := large
  have from_ {key : Bytes} (limit : IsLimit key) (first : firstNamed key members = some (.num num)) : False := by
    obtain ⟨member, found, value⟩ := Option.map_eq_some_iff.mp first
    have inside := List.mem_of_find?_eq_some found
    have name : cstr member.1 = key := by simpa using List.find?_some found
    have named : IsLimit member.1 := by
      by_contra other
      have text := texts member (mem_remaining.mpr ⟨inside, other⟩)
      rw [← name, cstr_self text.2] at limit
      exact other limit
    obtain ⟨num', n', value', whole', _, high⟩ := bounded.taken member inside named
    cases value.symm.trans value'
    cases whole.symm.trans whole'
    omega
  rcases Option.or_eq_some_iff.mp counts with first | ⟨_, second⟩
  · exact from_ (.inl rfl) first
  · exact from_ (.inr rfl) second

theorem limit_taken : Whole 1 4096 limit :=
  ⟨_, 4096, rfl, natural_integer (by decide), by decide, by decide⟩

theorem sent_bounded (members : Members) : Bounded (mappedFields reread (keptMembers members) ++ [(maxTokens, limit)]) := by
  constructor
  · intro member inside named
    rcases List.mem_append.mp inside with among | last
    · exact absurd named (reread_kept members member among)
    · rw [List.mem_singleton.mp last]
      exact limit_taken
  · intro key named
    have none_ : (mappedFields reread (keptMembers members)).filter (fun member => member.1 = key) = [] := by
      rw [List.filter_eq_nil_iff]
      intro member inside same
      exact reread_kept members member inside ((decide_eq_true_eq.mp same).symm ▸ named)
    rw [List.filter_append, none_, List.nil_append]
    exact List.length_filter_le _ _

end Sent

section Bound

variable {body : Bytes} {members : Members}

-- The bound holds of what is sent on just when the limits are taken as they are, or when the one that counts is
-- lowered and all that is written again beside it is read back as it was.
theorem bounded_body_iff (means : Means body (.obj members)) :
    (∃ sent, SentOn body (.obj members) (.obj sent) ∧ Kept members sent) ↔
      (Oversized members ∧ ∀ member ∈ others members, StringText member.1 ∧ Writable member.2) ∨
        ¬Oversized members ∧ Bounded members := by
  by_cases large : Oversized members
  · simp only [sent_on_iff means, large, true_and, not_true_eq_false, false_and, or_false, ← kept_iff]
    constructor
    · rintro ⟨_, ⟨finite, rfl⟩, kept⟩
      have rest := kept.rest
      rw [others_sent] at rest
      exact ⟨finite, rest⟩
    · rintro ⟨finite, same⟩
      have writable := kept_iff.mp ⟨finite, same⟩
      refine ⟨_, ⟨finite, rfl⟩, sent_bounded members, (others_sent members).trans same, fun bounded => ?_⟩
      exact absurd bounded (oversized_unbounded large fun member inside => (writable member inside).1)
  · simp only [sent_on_iff means, large, false_and, not_false_eq_true, true_and, false_or]
    constructor
    · rintro ⟨_, rfl, kept⟩
      exact kept.bounded
    · intro bounded
      exact ⟨members, rfl, bounded, rfl, fun _ => rfl⟩

theorem limit_written {n : Nat} (small : n ≤ 2 ^ 53) (text : Bytes)
    (same : text = 0x7b :: 0x22 :: maxTokens ++ 0x22 :: 0x3a :: decimal n ++ [0x7d]) :
    Means text (.obj [(maxTokens, whole n small)]) := by
  have name : StringText maxTokens :=
    ascii_string (fun c inside => UInt8.lt_iff_toNat_lt.mp ((limit_texts.1 _ (.inl rfl)).2 c inside)) (limit_texts.1 _ (.inl rfl)).1
  have shape : text = written (.obj [(maxTokens, whole n small)]) := by
    rw [same, written, writtenFields, writtenFields, limit_texts.2, written_whole small]
    simp
  rw [shape]
  exact means_self ⟨name, ⟨_, _, rfl⟩, trivial⟩

theorem limit_counts {n : Nat} (small : n ≤ 2 ^ 53) : Oversized [(maxTokens, whole n small)] ↔ 4097 ≤ n ∧ n ≤ 2 ^ 31 - 1 := by
  have first : firstNamed maxTokens [(maxTokens, whole n small)] = some (whole n small) := by
    rw [firstNamed, List.find?_cons, decide_eq_true (cstr_self (limit_texts.1 _ (.inl rfl)).1)]
    rfl
  rw [Oversized, first]
  constructor
  · rintro ⟨_, same, num, k, rfl, value, range⟩
    cases same
    cases (natural_integer small).symm.trans value
    exact range
  · exact fun range => ⟨_, rfl, _, n, rfl, natural_integer small, range⟩

theorem bounded_body_lowered : ∃ sent, SentOn (utf8 "\x7b\"max_tokens\":9000\x7d") (.obj [(maxTokens, whole 9000 (by decide))]) (.obj sent) ∧
    Kept [(maxTokens, whole 9000 (by decide))] sent := by
  refine (bounded_body_iff (limit_written (by decide) _ (by decide))).mpr (.inl ⟨(limit_counts (by decide)).mpr (by decide), ?_⟩)
  rw [others_cons, if_pos (.inl rfl)]
  exact fun member inside => by cases inside

theorem large_limit_sent {n : Nat} (small : n ≤ 2 ^ 53) (large : 2 ^ 31 ≤ n) {text : Bytes}
    (means : Means text (.obj [(maxTokens, whole n small)])) :
    ¬∃ sent, SentOn text (.obj [(maxTokens, whole n small)]) (.obj sent) ∧ Kept [(maxTokens, whole n small)] sent := by
  rintro ⟨sent, on, kept⟩
  rcases (sent_on_iff means).mp on with ⟨lowered, _⟩ | ⟨_, rfl⟩
  · have low := ((limit_counts small).mp lowered).2
    omega
  · obtain ⟨_, k, same, value, _, high⟩ := kept.bounded.taken _ List.mem_cons_self (.inl rfl)
    cases same
    cases (natural_integer small).symm.trans value
    omega

theorem two_billion_sent : Means (utf8 "\x7b\"max_tokens\":2147483648\x7d") (.obj [(maxTokens, whole 2147483648 (by decide))]) ∧
    ¬∃ sent, SentOn (utf8 "\x7b\"max_tokens\":2147483648\x7d") (.obj [(maxTokens, whole 2147483648 (by decide))]) (.obj sent) ∧
      Kept [(maxTokens, whole 2147483648 (by decide))] sent := by
  have means : Means (utf8 "\x7b\"max_tokens\":2147483648\x7d") (.obj [(maxTokens, whole 2147483648 (by decide))]) :=
    limit_written (by decide) _ (by decide)
  exact ⟨means, large_limit_sent (by decide) (by decide) means⟩

end Bound

end SamosaChat.Maple
