import SamosaChat.Json.Agree
import SamosaChat.Json.Record

set_option autoImplicit false

namespace SamosaChat.JsonMeaning

open Utf8 Text Binary64
open OcrJson hiding parsed
open JsonGrammar hiding Value Chars Kids Fields
open Json hiding Value Chars Kids Fields
open FloatText (isHex)

mutual

def meant : Tree → Jval
  | .null => .null
  | .bool boolean => .bool boolean
  | .num negative mantissa exponent => .num (ofScaled negative 10 mantissa exponent)
  | .str bytes => .str bytes
  | .arr kids => .arr (meantKids kids)
  | .obj fields => .obj (meantFields fields)

def meantKids : List Tree → List Jval
  | [] => []
  | kid :: kids => meant kid :: meantKids kids

def meantFields : List (Bytes × Tree) → List (Bytes × Jval)
  | [] => []
  | (key, kid) :: fields => (key, meant kid) :: meantFields fields

end

def Means (text : Bytes) (value : Jval) : Prop :=
  ∃ tree, Denotes text tree ∧ meant tree = value

mutual

def mapped (f : Bytes → Bytes) : Jval → Jval
  | .null => .null
  | .bool boolean => .bool boolean
  | .num num => .num num
  | .str str => .str (f str)
  | .arr kids => .arr (mappedKids f kids)
  | .obj fields => .obj (mappedFields f fields)

def mappedKids (f : Bytes → Bytes) : List Jval → List Jval
  | [] => []
  | kid :: kids => mapped f kid :: mappedKids f kids

def mappedFields (f : Bytes → Bytes) : List (Bytes × Jval) → List (Bytes × Jval)
  | [] => []
  | (key, kid) :: fields => (f key, mapped f kid) :: mappedFields f fields

end

mutual

def AllFinite : Jval → Prop
  | .null => True
  | .bool _ => True
  | .num num => Finite num
  | .str _ => True
  | .arr kids => AllFiniteKids kids
  | .obj fields => AllFiniteFields fields

def AllFiniteKids : List Jval → Prop
  | [] => True
  | kid :: kids => AllFinite kid ∧ AllFiniteKids kids

def AllFiniteFields : List (Bytes × Jval) → Prop
  | [] => True
  | (_, kid) :: fields => AllFinite kid ∧ AllFiniteFields fields

end

theorem mapped_fields_eq (f : Bytes → Bytes) (fields : List (Bytes × Jval)) :
    mappedFields f fields = fields.map fun field => (f field.1, mapped f field.2) := by
  induction fields with
  | nil => rfl
  | cons field fields ih => rw [mappedFields, ih, List.map_cons]

theorem all_finite_fields_iff (fields : List (Bytes × Jval)) : AllFiniteFields fields ↔ ∀ field ∈ fields, AllFinite field.2 := by
  induction fields with
  | nil => exact iff_of_true trivial fun field inside => by cases inside
  | cons field fields ih => rw [AllFiniteFields, ih, List.forall_mem_cons]

mutual

theorem parsed_tree_mapped : ∀ tree : Tree, parsedTree tree = mapped cstr (meant tree)
  | .null => rfl
  | .bool _ => rfl
  | .num _ _ _ => rfl
  | .str _ => rfl
  | .arr kids => congrArg Jval.arr (parsed_kids_mapped kids)
  | .obj fields => congrArg Jval.obj (parsed_fields_mapped fields)

theorem parsed_kids_mapped : ∀ kids : List Tree, parsedKids kids = mappedKids cstr (meantKids kids)
  | [] => rfl
  | kid :: kids => by rw [parsedKids, parsed_tree_mapped kid, parsed_kids_mapped kids, meantKids, mappedKids]

theorem parsed_fields_mapped : ∀ fields : List (Bytes × Tree), parsedFields fields = mappedFields cstr (meantFields fields)
  | [] => rfl
  | (key, kid) :: fields => by
    rw [parsedFields, parsed_tree_mapped kid, parsed_fields_mapped fields, meantFields, mappedFields]

end

section Clean

theorem clean_skip {c : UInt8} {s : Bytes} (other : c ≠ 0) (inside : (0 : UInt8) ∈ c :: s) : (0 : UInt8) ∈ s :=
  (List.mem_cons.mp inside).resolve_left (Ne.symm other)

theorem clean_skip_all {text s : Bytes} (clean : (0 : UInt8) ∉ text) (inside : (0 : UInt8) ∈ text ++ s) : (0 : UInt8) ∈ s :=
  (List.mem_append.mp inside).resolve_left clean

theorem ws_clean {s r : Bytes} (blank : Ws s r) (inside : (0 : UInt8) ∈ s) : (0 : UInt8) ∈ r := by
  obtain ⟨blanks, all, rfl⟩ := blank
  exact clean_skip_all (fun nul => absurd (all 0 nul) (by decide)) inside

theorem chars_clean {s r : Bytes} {elements : List Element} (chars : JsonGrammar.Chars s elements r) :
    (0 : UInt8) ∈ s → (0 : UInt8) ∈ r := by
  induction chars with
  | close r => exact clean_skip (by decide)
  | raw inner other high rest ih =>
    refine fun inside => ih (clean_skip ?_ inside)
    rintro rfl
    exact high (by decide)
  | escape known rest ih =>
    have letters : escapes = [0x22, 0x5c, 0x2f, 0x62, 0x66, 0x6e, 0x72, 0x74] := by decide
    refine fun inside => ih (clean_skip ?_ (clean_skip (by decide) inside))
    rintro rfl
    rw [letters] at known
    exact absurd known (by decide)
  | @code a b c d s _ _ hex rest ih =>
    intro inside
    have digits : (0 : UInt8) ∉ [a, b, c, d] := fun nul => (hex_plain 0 (hex 0 nul)).1 rfl
    exact ih (clean_skip_all digits (clean_skip (by decide) (clean_skip (by decide) inside)))

theorem digits_clean {digits : Bytes} (all : ∀ c ∈ digits, isDigit c = true) : (0 : UInt8) ∉ digits :=
  fun nul => absurd (all 0 nul) (by decide)

theorem numeral_clean (numeral : Numeral) : (0 : UInt8) ∉ numeral.text := by
  have sign : (0 : UInt8) ∉ (if numeral.negative then [0x2d] else []) := by
    cases numeral.negative <;> decide
  have fraction : (0 : UInt8) ∉ numeral.fraction.elim [] fun fraction => 0x2e :: fraction.digits := by
    cases numeral.fraction with
    | none => exact List.not_mem_nil
    | some fraction => exact fun inside => digits_clean fraction.all (clean_skip (by decide) inside)
  have power : (0 : UInt8) ∉ numeral.power.elim [] Power.text := by
    cases numeral.power with
    | none => exact List.not_mem_nil
    | some power =>
      have mark : power.mark ≠ 0 := by
        rcases power.marked with mark | mark <;> rw [mark] <;> decide
      have signs : (0 : UInt8) ∉ power.sign := by
        rcases power.signed with sign | sign | sign <;> rw [sign] <;> decide
      exact fun inside => digits_clean power.all (clean_skip_all signs (clean_skip mark inside))
  intro inside
  rw [Numeral.text, List.append_assoc, List.append_assoc] at inside
  exact power (clean_skip_all fraction (clean_skip_all (digits_clean numeral.all) (clean_skip_all sign inside)))

theorem words_clean : (0 : UInt8) ∉ utf8 "null" ∧ (0 : UInt8) ∉ utf8 "true" ∧ (0 : UInt8) ∉ utf8 "false" := by
  obtain ⟨yes, no, null⟩ := words_written
  rw [yes, no, null]
  decide

mutual

theorem value_clean : ∀ {s r : Bytes} {tree : Tree}, JsonGrammar.Value s tree r → (0 : UInt8) ∈ s → (0 : UInt8) ∈ r
  | _, _, _, .null _, inside => clean_skip_all words_clean.1 inside
  | _, _, _, .yes _, inside => clean_skip_all words_clean.2.1 inside
  | _, _, _, .no _, inside => clean_skip_all words_clean.2.2 inside
  | _, _, _, .num numeral _, inside => clean_skip_all (numeral_clean numeral) inside
  | _, _, _, .str chars, inside => chars_clean chars (clean_skip (by decide) inside)
  | _, _, _, .emptyArr blank, inside => clean_skip (by decide) (ws_clean blank (clean_skip (by decide) inside))
  | _, _, _, .arr blank kids, inside => kids_clean kids (ws_clean blank (clean_skip (by decide) inside))
  | _, _, _, .emptyObj blank, inside => clean_skip (by decide) (ws_clean blank (clean_skip (by decide) inside))
  | _, _, _, .obj blank fields, inside => fields_clean fields (ws_clean blank (clean_skip (by decide) inside))

theorem kids_clean : ∀ {s r : Bytes} {kids : List Tree}, JsonGrammar.Kids s kids r → (0 : UInt8) ∈ s → (0 : UInt8) ∈ r
  | _, _, _, .last value close, inside => clean_skip (by decide) (ws_clean close (value_clean value inside))
  | _, _, _, .more value comma blank rest, inside =>
    kids_clean rest (ws_clean blank (clean_skip (by decide) (ws_clean comma (value_clean value inside))))

theorem fields_clean : ∀ {s r : Bytes} {fields : List (Bytes × Tree)}, JsonGrammar.Fields s fields r → (0 : UInt8) ∈ s → (0 : UInt8) ∈ r
  | _, _, _, .last name colon_ blank value close, inside =>
    clean_skip (by decide) (ws_clean close (value_clean value (ws_clean blank
      (clean_skip (by decide) (ws_clean colon_ (chars_clean name (clean_skip (by decide) inside)))))))
  | _, _, _, .more name colon_ blank value comma blank' rest, inside =>
    fields_clean rest (ws_clean blank' (clean_skip (by decide) (ws_clean comma (value_clean value (ws_clean blank
      (clean_skip (by decide) (ws_clean colon_ (chars_clean name (clean_skip (by decide) inside)))))))))

end

theorem means_clean {text : Bytes} {value : Jval} (means : Means text value) : (0 : UInt8) ∉ text := by
  obtain ⟨tree, ⟨t, r, front, inside, behind⟩, _⟩ := means
  exact fun nul => absurd (ws_clean behind (value_clean inside (ws_clean front nul))) List.not_mem_nil

end Clean

theorem means_some {text : Bytes} {value : Jval} (means : Means text value) : text ≠ [] := by
  rintro rfl
  obtain ⟨tree, denotes, _⟩ := means
  obtain ⟨_, value, _⟩ := denotes_iff.mp denotes
  obtain ⟨c, t, shape, _⟩ := value_starts value
  cases shape

theorem means_parsed {raw : Bytes} {value : Jval} (means : Means raw value) : parsed raw = some (mapped cstr value) := by
  have whole : cstr raw = raw := cstr_self (means_clean means)
  obtain ⟨tree, denotes, rfl⟩ := means
  rw [← whole] at denotes
  obtain ⟨rest, read, _⟩ := denotes_parsed denotes
  rw [parsed, read, parsed_tree_mapped]

section Cut

theorem bind_ok {ε α β : Type} {x : Except ε α} {f : α → Except ε β} {b : β} (ended : x >>= f = .ok b) :
    ∃ a, x = .ok a ∧ f a = .ok b := by
  cases x with
  | error error => cases ended
  | ok a => exact ⟨a, rfl, ended⟩

theorem map_ok {ε α β : Type} {x : Except ε α} {f : α → β} {b : β} (ended : x.map f = .ok b) : ∃ a, x = .ok a ∧ f a = b := by
  cases x with
  | error error => cases ended
  | ok a => exact ⟨a, rfl, Except.ok.inj ended⟩

theorem str_raw_cut {s bytes r : Bytes} (read : jParseStrRaw s = .ok (bytes, r)) : cstr bytes = bytes := by
  obtain ⟨_, _, inner⟩ := bind_ok read
  obtain ⟨⟨raw, _⟩, _, same⟩ := bind_ok inner
  cases same
  exact cstr_self (cstr_text raw)

theorem literal_cut {width : Nat} {value v : Jval} {s r : Bytes} (cut : mapped cstr value = value)
    (read : literal width value s = .ok (v, r)) : mapped cstr v = v := by
  obtain ⟨_, _, same⟩ := map_ok read
  cases same
  exact cut

theorem parse_cut (fuel : Nat) : (∀ {s r : Bytes} {v : Jval}, jParseVal fuel s = .ok (v, r) → mapped cstr v = v) ∧
      (∀ {s r : Bytes} {kids : List Jval}, jParseKids fuel s = .ok (kids, r) → mappedKids cstr kids = kids) ∧
        ∀ {s r : Bytes} {fields : List (Bytes × Jval)}, jParseFields fuel s = .ok (fields, r) → mappedFields cstr fields = fields := by
  induction fuel with
  | zero => exact ⟨fun read => (by cases read), fun read => (by cases read), fun read => (by cases read)⟩
  | succ fuel ih =>
    obtain ⟨value, kids, fields⟩ := ih
    refine ⟨fun read => ?_, fun read => ?_, fun read => ?_⟩
    · rw [jParseVal] at read
      dsimp only at read
      split_ifs at read with str obj emptyObj arr emptyArr yes no null
      · obtain ⟨⟨text, _⟩, raw, same⟩ := map_ok read
        cases same
        rw [mapped, str_raw_cut raw]
      · cases read
        rfl
      · obtain ⟨⟨members, _⟩, inner, same⟩ := map_ok read
        cases same
        rw [mapped, fields inner]
      · cases read
        rfl
      · obtain ⟨⟨items, _⟩, inner, same⟩ := map_ok read
        cases same
        rw [mapped, kids inner]
      · exact literal_cut rfl read
      · exact literal_cut rfl read
      · exact literal_cut rfl read
      · cases read
        rfl
    · rw [jParseKids] at read
      obtain ⟨⟨val, s⟩, first, later⟩ := bind_ok read
      dsimp only at later
      split_ifs at later with more
      · obtain ⟨⟨rest, _⟩, inner, same⟩ := map_ok later
        cases same
        rw [mappedKids, value first, kids inner]
      · cases later
        rw [mappedKids, value first, mappedKids]
    · rw [jParseFields] at read
      obtain ⟨⟨key, s⟩, name, afterName⟩ := bind_ok read
      obtain ⟨⟨val, s⟩, first, later⟩ := bind_ok afterName
      dsimp only at later
      split_ifs at later with more
      · obtain ⟨⟨rest, _⟩, inner, same⟩ := map_ok later
        cases same
        rw [mappedFields, str_raw_cut name, value first, fields inner]
      · cases later
        rw [mappedFields, str_raw_cut name, value first, mappedFields]

theorem parsed_cut {raw : Bytes} {value : Jval} (read : parsed raw = some value) : mapped cstr value = value := by
  rw [parsed] at read
  cases parse : jsonParse raw with
  | error error =>
    rw [parse] at read
    cases read
  | ok pair =>
    obtain ⟨v, r⟩ := pair
    rw [parse] at read
    cases read
    exact (parse_cut _).1 parse

theorem get_cut {o value : Jval} {key : Bytes} (cut : mapped cstr o = o) (found : jsonGet o key = some value) : mapped cstr value = value := by
  cases o with
  | obj fields =>
    rw [mapped, Jval.obj.injEq] at cut
    rw [jsonGet] at found
    induction fields with
    | nil => cases found
    | cons field fields ih =>
      obtain ⟨name, kid⟩ := field
      rw [mappedFields, List.cons.injEq, Prod.mk.injEq] at cut
      rw [Json.find] at found
      split_ifs at found with same
      · cases found
        exact cut.1.2
      · exact ih cut.2 found
  | null => cases found
  | bool boolean => cases found
  | num num => cases found
  | str str => cases found
  | arr kids => cases found

end Cut

section Survival

variable {f g : Bytes → Bytes}

mutual

theorem mapped_mapped : ∀ value : Jval, mapped f (mapped g value) = mapped (f ∘ g) value
  | .null => rfl
  | .bool _ => rfl
  | .num _ => rfl
  | .str _ => rfl
  | .arr kids => congrArg Jval.arr (mapped_mapped_kids kids)
  | .obj fields => congrArg Jval.obj (mapped_mapped_fields fields)

theorem mapped_mapped_kids : ∀ kids : List Jval, mappedKids f (mappedKids g kids) = mappedKids (f ∘ g) kids
  | [] => rfl
  | kid :: kids => by rw [mappedKids, mappedKids, mappedKids, mapped_mapped kid, mapped_mapped_kids kids]

theorem mapped_mapped_fields : ∀ fields : List (Bytes × Jval), mappedFields f (mappedFields g fields) = mappedFields (f ∘ g) fields
  | [] => rfl
  | (key, kid) :: fields => by
    rw [mappedFields, mappedFields, mappedFields, mapped_mapped kid, mapped_mapped_fields fields, Function.comp_apply]

end

mutual

theorem all_finite_mapped : ∀ value : Jval, AllFinite (mapped f value) ↔ AllFinite value
  | .null => Iff.rfl
  | .bool _ => Iff.rfl
  | .num _ => Iff.rfl
  | .str _ => Iff.rfl
  | .arr kids => all_finite_mapped_kids kids
  | .obj fields => all_finite_mapped_fields fields

theorem all_finite_mapped_kids : ∀ kids : List Jval, AllFiniteKids (mappedKids f kids) ↔ AllFiniteKids kids
  | [] => Iff.rfl
  | kid :: kids => and_congr (all_finite_mapped kid) (all_finite_mapped_kids kids)

theorem all_finite_mapped_fields : ∀ fields : List (Bytes × Jval), AllFiniteFields (mappedFields f fields) ↔ AllFiniteFields fields
  | [] => Iff.rfl
  | (_, kid) :: fields => and_congr (all_finite_mapped kid) (all_finite_mapped_fields fields)

end

def reread (str : Bytes) : Bytes :=
  lossy (cstr str)

theorem reread_text (str : Bytes) : StringText (reread str) :=
  ⟨valid_lossy _, lossy_clean (cstr_text str)⟩

theorem reread_self (str : Bytes) : reread str = str ↔ StringText str := by
  constructor
  · intro same
    rw [← same]
    exact reread_text str
  · rintro ⟨valid, clean⟩
    rw [reread, cstr_self clean, lossy_valid valid]

mutual

-- What is read back as it was: its strings have no terminator inside and are UTF-8, and its numbers are finite.
theorem writable_iff : ∀ value : Jval, Writable value ↔ AllFinite value ∧ mapped reread value = value
  | .null => iff_of_true trivial ⟨trivial, rfl⟩
  | .bool _ => iff_of_true trivial ⟨trivial, rfl⟩
  | .num num => by
    rw [Writable, AllFinite, mapped]
    exact (and_iff_left rfl).symm
  | .str str => by
    rw [Writable, AllFinite, mapped, true_and, Jval.str.injEq]
    exact (reread_self str).symm
  | .arr kids => by
    rw [Writable, AllFinite, mapped, Jval.arr.injEq]
    exact writable_kids_iff kids
  | .obj fields => by
    rw [Writable, AllFinite, mapped, Jval.obj.injEq]
    exact writable_members_iff fields

theorem writable_kids_iff : ∀ kids : List Jval, WritableKids kids ↔ AllFiniteKids kids ∧ mappedKids reread kids = kids
  | [] => iff_of_true trivial ⟨trivial, rfl⟩
  | kid :: kids => by
    rw [WritableKids, AllFiniteKids, mappedKids, List.cons.injEq, writable_iff kid, writable_kids_iff kids]
    exact and_and_and_comm

theorem writable_members_iff : ∀ fields : List (Bytes × Jval),
    WritableFields fields ↔ AllFiniteFields fields ∧ mappedFields reread fields = fields
  | [] => iff_of_true trivial ⟨trivial, rfl⟩
  | (key, kid) :: fields => by
    rw [WritableFields, AllFiniteFields, mappedFields, List.cons.injEq, Prod.mk.injEq, writable_iff kid,
      writable_members_iff fields, ← reread_self key]
    tauto

end

theorem writable_reread (value : Jval) : Writable (mapped reread value) ↔ AllFinite value := by
  have again : reread ∘ reread = reread := funext fun str => (reread_self _).mpr (reread_text str)
  rw [writable_iff, all_finite_mapped, mapped_mapped, again]
  exact and_iff_left rfl

end Survival

section Remaining

variable {apart : Bytes → Prop} [DecidablePred apart] {members : List (Bytes × Jval)}

def remaining (apart : Bytes → Prop) [DecidablePred apart] (members : List (Bytes × Jval)) : List (Bytes × Jval) :=
  members.filter fun member => ¬apart member.1

def remainingCut (apart : Bytes → Prop) [DecidablePred apart] (members : List (Bytes × Jval)) : List (Bytes × Jval) :=
  members.filter fun member => ¬apart (cstr member.1)

theorem remaining_cons (key : Bytes) (kid : Jval) (members : List (Bytes × Jval)) :
    remaining apart ((key, kid) :: members) = if apart key then remaining apart members else (key, kid) :: remaining apart members := by
  rw [remaining, List.filter_cons]
  by_cases named : apart key
  · rw [if_pos named, if_neg (by simpa using named)]
    rfl
  · rw [if_neg named, if_pos (by simpa using named)]
    rfl

theorem remaining_append (first second : List (Bytes × Jval)) :
    remaining apart (first ++ second) = remaining apart first ++ remaining apart second :=
  List.filter_append _ _

theorem remaining_self (none_ : ∀ member ∈ members, ¬apart member.1) : remaining apart members = members :=
  List.filter_eq_self.mpr fun member inside => by simpa using none_ member inside

theorem remaining_none (all : ∀ member ∈ members, apart member.1) : remaining apart members = [] :=
  List.filter_eq_nil_iff.mpr fun member inside => by simpa using all member inside

theorem mem_remaining_cut {member : Bytes × Jval} :
    member ∈ remainingCut apart members ↔ member ∈ members ∧ ¬apart (cstr member.1) := by
  rw [remainingCut, List.mem_filter, decide_eq_true_eq]

theorem mem_remaining {member : Bytes × Jval} : member ∈ remaining apart members ↔ member ∈ members ∧ ¬apart member.1 := by
  rw [remaining, List.mem_filter, decide_eq_true_eq]

theorem remaining_mapped (members : List (Bytes × Jval)) :
    remaining apart (mappedFields cstr members) = mappedFields cstr (remainingCut apart members) := by
  rw [mapped_fields_eq, mapped_fields_eq, remaining, remainingCut, List.filter_map]
  rfl

theorem remaining_cut_whole (clean : ∀ key, apart key → (0 : UInt8) ∉ key)
    (whole : ∀ member ∈ remaining apart members, (0 : UInt8) ∉ member.1) : remainingCut apart members = remaining apart members := by
  apply List.filter_congr
  intro member inside
  rw [decide_eq_decide, not_iff_not]
  by_cases named : apart member.1
  · rw [cstr_self (clean _ named)]
  · rw [cstr_self (whole member (mem_remaining.mpr ⟨inside, named⟩))]

theorem remaining_iff (clean : ∀ key, apart key → (0 : UInt8) ∉ key) :
    AllFiniteFields (remainingCut apart members) ∧ mappedFields reread (remainingCut apart members) = remaining apart members ↔
      ∀ member ∈ remaining apart members, StringText member.1 ∧ Writable member.2 := by
  rw [← writable_fields_iff]
  constructor
  · rintro ⟨finite, same⟩
    rw [← same]
    exact (writable_reread (.obj (remainingCut apart members))).mpr finite
  · intro writable
    rw [remaining_cut_whole clean fun member inside => ((writable_fields_iff _).mp writable member inside).1.2]
    exact (writable_members_iff _).mp writable

end Remaining

end SamosaChat.JsonMeaning
