import SamosaChat.Json.StrictValues
import SamosaChat.Json.RoundTrip

set_option autoImplicit false

namespace SamosaChat.OcrJson

open Utf8 Text JsonGrammar Binary64
open Json hiding Value Chars Kids Fields
open FloatText (isHex hexValue hexDigitsValue strtod)

mutual

def parsedTree : Tree → Jval
  | .null => .null
  | .bool boolean => .bool boolean
  | .num negative mantissa exponent => .num (ofScaled negative 10 mantissa exponent)
  | .str bytes => .str (cstr bytes)
  | .arr kids => .arr (parsedKids kids)
  | .obj fields => .obj (parsedFields fields)

def parsedKids : List Tree → List Jval
  | [] => []
  | kid :: kids => parsedTree kid :: parsedKids kids

def parsedFields : List (Bytes × Tree) → List (Bytes × Jval)
  | [] => []
  | (key, kid) :: fields => (cstr key, parsedTree kid) :: parsedFields fields

end

variable {c : UInt8} {elements : List Element} {high : Nat} {s r : Bytes}

section Strings

theorem hex_plain : ∀ c : UInt8, isHex c = true → c ≠ 0 ∧ isSpace c = false ∧ c ≠ 0x2d ∧ c ≠ 0x2b ∧ toLower c ≠ 0x78 ∧ hexValue c < 16 :=
  every_byte (by decide +kernel)

variable {a b d : UInt8} {low : Nat}

theorem hex_four_bound (hex : ∀ x ∈ [a, b, c, d], isHex x = true) : hexDigitsValue [a, b, c, d] < 65536 := by
  have first := (hex_plain a (hex a (by simp))).2.2.2.2.2
  have second := (hex_plain b (hex b (by simp))).2.2.2.2.2
  have third := (hex_plain c (hex c (by simp))).2.2.2.2.2
  have fourth := (hex_plain d (hex d (by simp))).2.2.2.2.2
  simp only [hexDigitsValue, List.foldl_cons, List.foldl_nil]
  omega

theorem four_hex (hex : ∀ x ∈ [a, b, c, d], isHex x = true) (s : Bytes) :
    four (a :: b :: c :: d :: s) = hexDigitsValue [a, b, c, d] := by
  have text : cstr [a, b, c, d] = [a, b, c, d] := cstr_self fun nul => (hex_plain 0 (hex 0 nul)).1 rfl
  obtain ⟨_, space, minus, plus, _⟩ := hex_plain a (hex a (by simp))
  have second := (hex_plain b (hex b (by simp))).2.2.2.2.1
  have marks : (utf8 "0x").isPrefixOf ([a, b, c, d].map toLower) = false := by
    have letters : utf8 "0x" = [0x30, 0x78] := by decide
    rw [letters]
    simp [List.isPrefixOf, Ne.symm second]
  have all : [a, b, c, d].takeWhile isHex = [a, b, c, d] := List.takeWhile_eq_self_iff.mpr hex
  have body : [a, b, c, d].dropWhile isSpace = [a, b, c, d] := by
    rw [List.dropWhile_cons, space, if_neg Bool.false_ne_true]
  have bound := hex_four_bound hex
  have cut : (a :: b :: c :: d :: s).take 4 = [a, b, c, d] := rfl
  rw [four, cut, text, strtoul16, body]
  have signs : ((some a : Option UInt8) == some 0x2d) = false ∧ ((some a : Option UInt8) == some 0x2b) = false := by
    simp [minus, plus]
  simp only [List.head?_cons, signs.1, signs.2, Bool.or_self, Bool.false_eq_true, if_false, marks, all]
  exact Nat.mod_eq_of_lt (by omega)

theorem or_low {a x k : Nat} (small : x < 2 ^ k) : 2 ^ k * a ||| x = 2 ^ k * a + x :=
  (Nat.two_pow_add_eq_or_of_lt small a).symm

theorem put_code {cp : Nat} (small : cp < 0x110000) : jPutCode cp = sequence cp := by
  have low (n : Nat) : 0x80 ||| n &&& 0x3f = 0x80 + n % 64 := by
    rw [Nat.and_two_pow_sub_one_eq_mod n 6]
    exact or_low (k := 6) (a := 2) (Nat.mod_lt n (by decide))
  have six : cp >>> 6 = cp / 64 := Nat.shiftRight_eq_div_pow cp 6
  have twelve : cp >>> 12 = cp / 4096 := Nat.shiftRight_eq_div_pow cp 12
  have eighteen : cp >>> 18 = cp / 262144 := Nat.shiftRight_eq_div_pow cp 18
  unfold jPutCode Utf8.sequence
  rw [low, low, low, six, twelve, eighteen]
  by_cases one : cp < 0x80
  · rw [if_pos one, if_pos one]
  rw [if_neg one, if_neg one]
  by_cases two : cp < 0x800
  · have high : 0xc0 ||| cp / 64 = 0xc0 + cp / 64 := or_low (k := 5) (a := 6) (by omega)
    rw [if_pos two, if_pos two, high]
  rw [if_neg two, if_neg two]
  by_cases three : cp < 0x10000
  · have high : 0xe0 ||| cp / 4096 = 0xe0 + cp / 4096 := or_low (k := 4) (a := 14) (by omega)
    rw [if_pos three, if_pos three, high]
  · have high : 0xf0 ||| cp / 262144 = 0xf0 + cp / 262144 := or_low (k := 3) (a := 30) (by omega)
    rw [if_neg three, if_neg three, high]

theorem pair_joined (high low : Nat) : pair high low = joined high low := by
  have ten : (high - 0xd800) <<< 10 = (high - 0xd800) * 1024 := by rw [Nat.shiftLeft_eq]
  unfold pair joined
  rw [ten]

theorem bytes_of_single {unit : Nat} (alone : ∀ low later, elements = .code low :: later → (highUnit unit && lowUnit low) = false) :
    bytesOf (.code unit :: elements) = sequence unit ++ bytesOf elements := by
  match elements, alone with
  | [], _ => rfl
  | .raw _ :: _, _ => rfl
  | .escape _ :: _, _ => rfl
  | .code low :: later, alone =>
    rw [bytesOf, alone low later rfl, if_neg Bool.false_ne_true]

theorem bytes_of_pair (elements : List Element) (both : (highUnit high && lowUnit low) = true) :
    bytesOf (.code high :: .code low :: elements) = sequence (joined high low) ++ bytesOf elements := by
  rw [bytesOf, if_pos both]

theorem unescape_byte : ∀ e ∈ escapes, unescape e = escapeByte e ∧ e ≠ 0x75 := by
  have letters : escapes = [0x22, 0x5c, 0x2f, 0x62, 0x66, 0x6e, 0x72, 0x74] := by decide
  rw [letters]
  decide

theorem unicode_single {unit : Nat} (whole : 4 ≤ s.length) (same : four s = unit) (small : unit < 0x110000)
    (alone : lowHalf unit (s.drop 4) = .ok none) : unicodeEscape s = .ok (sequence unit, s.drop 4) := by
  rw [unicode_read whole, same, alone, ← put_code small]
  rfl

theorem unicode_pair (whole : 10 ≤ s.length) (same : four s = high)
    (half : lowHalf high (s.drop 4) = .ok (some low)) (small : joined high low < 0x110000) :
    unicodeEscape s = .ok (sequence (joined high low), s.drop 10) := by
  have moved : advance 6 (s.drop 4) = .ok (s.drop 10) := by
    rw [advance, if_pos (by rw [List.length_drop]; omega), List.drop_drop]
  rw [unicode_read (by omega), same, half, ← put_code small, ← pair_joined]
  simp only [Except.bind, moved, Except.map]

theorem low_half_code {high : Nat} {a b c d : UInt8} (hex : ∀ x ∈ [a, b, c, d], isHex x = true) (s : Bytes) :
    lowHalf high (0x5c :: 0x75 :: a :: b :: c :: d :: s) =
      .ok (if highUnit high && lowUnit (hexDigitsValue [a, b, c, d]) then some (hexDigitsValue [a, b, c, d]) else none) := by
  have read : hexFour (0x5c :: 0x75 :: a :: b :: c :: d :: s) 2 = .ok (hexDigitsValue [a, b, c, d]) := by
    rw [hex_four_ok (by simp), ← four_hex hex s]
    rfl
  rw [lowHalf, read]
  cases up : highUnit high with
  | true =>
    have up' : isHigh high = true := up
    simp only [up', Bool.true_and]
    rfl
  | false =>
    have up' : isHigh high = false := up
    simp only [up', Bool.false_and]
    rfl

theorem low_half_other (other : s.take 2 ≠ [0x5c, 0x75]) : lowHalf high s = .ok none := by
  rw [lowHalf, if_neg (by simp [other])]

theorem joined_bound (both : (highUnit high && lowUnit low) = true) : joined high low < 0x110000 := by
  simp only [highUnit, lowUnit, Bool.and_eq_true, decide_eq_true_eq] at both
  unfold joined
  omega

theorem code_starts (chars : JsonGrammar.Chars s (.code low :: elements) r) :
    ∃ a b c d t, s = 0x5c :: 0x75 :: a :: b :: c :: d :: t ∧ (∀ x ∈ [a, b, c, d], isHex x = true) ∧
      low = hexDigitsValue [a, b, c, d] ∧ JsonGrammar.Chars t elements r := by
  cases chars with
  | code hex rest => exact ⟨_, _, _, _, _, rfl, hex, rfl, rest⟩

theorem other_starts (chars : JsonGrammar.Chars s elements r)
    (alone : ∀ low later, elements ≠ .code low :: later) : s.take 2 ≠ [0x5c, 0x75] := by
  cases chars with
  | close =>
    intro same
    exact absurd (List.cons.inj same).1 (by decide)
  | raw _ other _ _ =>
    intro same
    exact other (List.cons.inj same).1
  | escape known _ =>
    intro same
    exact (unescape_byte _ known).2 (List.cons.inj (List.cons.inj same).2).1
  | code _ _ => exact absurd rfl (alone _ _)

theorem chars_decodes (n : Nat) : ∀ (s : Bytes) (elements : List Element) (r : Bytes), s.length ≤ n →
    JsonGrammar.Chars s elements r → Decodes s (bytesOf elements) r := by
  induction n with
  | zero =>
    intro s elements r small chars
    rw [List.length_eq_zero_iff.mp (Nat.le_zero.mp small)] at chars
    cases chars
  | succ n ih =>
    intro s elements r small chars
    cases chars with
    | close => exact decodes_quote r
    | @raw c t _ later inner other high rest =>
      rw [List.length_cons] at small
      exact @decodes_step c t [c] t (bytesOf later) r inner (if_neg other) (Nat.le_refl _) (ih _ _ _ (by omega) rest)
    | @escape e t _ later known rest =>
      rw [List.length_cons, List.length_cons] at small
      rw [bytesOf, ← (unescape_byte e known).1]
      exact decodes_escape (unescape_byte e known).2 (ih _ _ _ (by omega) rest)
    | @code a b c d t _ later hex rest =>
      simp only [List.length_cons] at small
      have same : four (a :: b :: c :: d :: t) = hexDigitsValue [a, b, c, d] := four_hex hex t
      have bound := hex_four_bound hex
      have single (alone : lowHalf (hexDigitsValue [a, b, c, d]) t = .ok none)
          (bytes : bytesOf (.code (hexDigitsValue [a, b, c, d]) :: later) = sequence (hexDigitsValue [a, b, c, d]) ++ bytesOf later) :
          Decodes (0x5c :: 0x75 :: a :: b :: c :: d :: t) (bytesOf (.code (hexDigitsValue [a, b, c, d]) :: later)) r := by
        rw [bytes]
        refine decodes_step (by decide) ?_ (by simp only [List.length_cons]; omega) (ih _ _ _ (by omega) rest)
        rw [string_step_code]
        exact unicode_single (by simp) same (by omega) alone
      by_cases next : ∃ low more, later = .code low :: more
      · obtain ⟨low, more, rfl⟩ := next
        obtain ⟨a', b', c', d', u, rfl, hex', rfl, rest'⟩ := code_starts rest
        have half := @low_half_code (hexDigitsValue [a, b, c, d]) _ _ _ _ hex' u
        by_cases both : (highUnit (hexDigitsValue [a, b, c, d]) && lowUnit (hexDigitsValue [a', b', c', d'])) = true
        · rw [both, if_pos rfl] at half
          rw [bytes_of_pair more both]
          simp only [List.length_cons] at small
          refine decodes_step (by decide) ?_ (by simp only [List.length_cons]; omega) (ih _ _ _ (by omega) rest')
          rw [string_step_code]
          exact unicode_pair (by simp) same half (joined_bound both)
        · have apart := eq_false_of_ne_true both
          rw [apart, if_neg Bool.false_ne_true] at half
          refine single half (bytes_of_single fun low later shape => ?_)
          cases shape
          exact apart
      · have alone : ∀ low more, later ≠ .code low :: more := fun low more shape => next ⟨low, more, shape⟩
        exact single (low_half_other (other_starts rest alone)) (bytes_of_single fun low more shape => absurd shape (alone low more))

end Strings

variable {t : Bytes} {fuel : Nat}

section Trees

def ValueParsed (fuel : Nat) : Prop :=
  ∀ s tree r, JsonGrammar.Value (jWs s) tree r → FloatText.Stop r → 2 * s.length + 2 ≤ fuel →
    jParseVal fuel s = .ok (parsedTree tree, r)

def KidsParsed (fuel : Nat) : Prop :=
  ∀ s kids r, JsonGrammar.Kids (jWs s) kids r → 2 * s.length + 3 ≤ fuel → jParseKids fuel s = .ok (parsedKids kids, r)

def FieldsParsed (fuel : Nat) : Prop :=
  ∀ s fields r, JsonGrammar.Fields (jWs s) fields r → 2 * s.length + 3 ≤ fuel →
    jParseFields fuel s = .ok (parsedFields fields, r)

variable {u : Bytes}

theorem delimiter_marked {close : UInt8} (skipped : jWs t = c :: u) (mark : c = 0x2c ∨ c = close) :
    delimiter close t = (c == 0x2c, u) := by
  rw [delimiter, skipped]
  by_cases comma : c = 0x2c
  · rw [comma]
    exact if_pos rfl
  · have same := mark.resolve_left comma
    rw [← same, List.head?_cons, if_neg (by simpa using comma), if_pos rfl, beq_false_of_ne comma]
    rfl

theorem colon_marked (skipped : jWs t = 0x3a :: u) : colon t = u := by
  rw [colon, skipped]
  exact if_pos rfl

theorem str_raw_chars (chars : JsonGrammar.Chars t elements r) : jParseStrRaw (0x22 :: t) = .ok (cstr (bytesOf elements), r) := by
  have read := chars_decodes t.length t elements r (Nat.le_refl _) chars (t.length + 1) (Nat.lt_succ_self _)
  have moved : advance 1 (0x22 :: t) = .ok t := by
    rw [advance, if_pos (by simp)]
    rfl
  rw [jParseStrRaw, moved]
  change ((stringLoop (t.length + 1) t).bind _) = _
  rw [read]
  rfl

theorem parse_val_ws (fuel : Nat) (s : Bytes) : jParseVal fuel s = jParseVal fuel (jWs s) := by
  have skipped : jWs (jWs s) = jWs s := List.dropWhile_idempotent _ _
  cases fuel with
  | zero => rfl
  | succ fuel => rw [jParseVal, jParseVal, skipped]

theorem read_shorter {val : Jval} (read : jParseVal fuel s = .ok (val, t))
    (enough : 2 * s.length + 2 ≤ fuel) : t.length ≤ s.length := by
  have settles := (settled fuel).1 s enough
  rw [read] at settles
  exact settles.2

theorem name_shorter {key : Bytes} (read : jParseStrRaw s = .ok (key, t)) : t.length ≤ s.length - 1 := by
  have settles := str_raw_settles s
  rw [read] at settles
  exact settles.2

theorem behind_shorter (skipped : jWs t = c :: u) : u.length < t.length := by
  have bound := ws_length t
  rw [skipped, List.length_cons] at bound
  omega

theorem kids_parsed (values : ValueParsed fuel) (later : KidsParsed fuel) : KidsParsed (fuel + 1) := by
  intro s kids r inside enough
  cases inside with
  | @last _ t _ kid value close =>
    have read := values s kid t value (ws_stop close (by decide)) (by omega)
    have skipped := (ws_mark (by decide)).mp close
    rw [parse_kids_step read, delimiter_marked skipped (.inr rfl)]
    rfl
  | @more _ t u v _ kid kids value comma blank rest =>
    have read := values s kid t value (ws_stop comma (by decide)) (by omega)
    have skipped := (ws_mark (by decide)).mp comma
    have first := read_shorter read (by omega)
    have second := behind_shorter skipped
    have behind : JsonGrammar.Kids (jWs u) kids r := by
      rw [jWs, ws_skip blank fun c front => (kids_front rest c front).1]
      exact rest
    rw [parse_kids_step read, delimiter_marked skipped (.inl rfl)]
    change ((jParseKids fuel u).map fun out => (parsedTree kid :: out.1, out.2)) = _
    rw [later u kids r behind (by omega)]
    rfl

theorem fields_front_plain {fields : List (Bytes × Tree)} (inside : JsonGrammar.Fields s fields r) :
    ∀ c ∈ s.head?, isSpace c = false := by
  intro c front
  rw [fields_front inside] at front
  cases front
  decide

theorem fields_parsed (values : ValueParsed fuel) (later : FieldsParsed fuel) : FieldsParsed (fuel + 1) := by
  intro s fields r inside enough
  -- A name with the value behind its colon.
  have member {t u v w : Bytes} {elements : List Element} {kid : Tree} (whole : jWs s = 0x22 :: t)
      (name : JsonGrammar.Chars t elements u) (colon_ : Ws u (0x3a :: v)) {x : Bytes} (blank : Ws v x)
      (value : JsonGrammar.Value x kid w) (stop : FloatText.Stop w) :
      w.length < s.length ∧ jParseFields (fuel + 1) s =
        if (delimiter 0x7d w).1 = true then
          (jParseFields fuel (delimiter 0x7d w).2).map fun out => ((cstr (bytesOf elements), parsedTree kid) :: out.1, out.2)
        else .ok ([(cstr (bytesOf elements), parsedTree kid)], (delimiter 0x7d w).2) := by
    have skipped := (ws_mark (by decide)).mp colon_
    have key := str_raw_chars name
    have first := behind_shorter whole
    have second := name_shorter key
    have third := behind_shorter skipped
    rw [List.length_cons] at second
    have here : JsonGrammar.Value (jWs v) kid w := by
      rw [jWs, ws_skip blank fun c front => (value_front value c front).1]
      exact value
    have read := values v kid w here stop (by omega)
    have fourth := read_shorter read (by omega)
    refine ⟨by omega, ?_⟩
    rw [jParseFields, whole, key]
    change ((jParseVal fuel (colon u)).bind _) = _
    rw [colon_marked skipped, read]
    rfl
  generalize whole : jWs s = front at inside
  cases inside with
  | last name colon_ blank value close =>
    obtain ⟨_, read⟩ := member whole name colon_ blank value (ws_stop close (by decide))
    have skipped := (ws_mark (by decide)).mp close
    rw [read, delimiter_marked skipped (.inr rfl)]
    rfl
  | @more _ _ _ _ w x y _ elements kid fields name colon_ blank value comma blank' rest =>
    obtain ⟨shorter, read⟩ := member whole name colon_ blank value (ws_stop comma (by decide))
    have skipped := (ws_mark (by decide)).mp comma
    have second := behind_shorter skipped
    have behind : JsonGrammar.Fields (jWs x) fields r := by
      rw [jWs, ws_skip blank' (fields_front_plain rest)]
      exact rest
    rw [read, delimiter_marked skipped (.inl rfl)]
    change ((jParseFields fuel x).map fun out => ((cstr (bytesOf elements), parsedTree kid) :: out.1, out.2)) = _
    rw [later x fields r behind (by omega)]
    rfl

theorem number_parsed (numeral : Numeral) (stop : FloatText.Stop r) : jParseVal (fuel + 1) (numeral.text ++ r) =
      .ok (.num (ofScaled numeral.negative 10 numeral.mantissa numeral.exponent), r) := by
  obtain ⟨c, t, shape, starts⟩ := numeral_starts numeral
  have lead := lead_number c starts
  have others : ∀ c ∈ (Tree.num false 0 0).leads, c ≠ 0x22 ∧ c ≠ 0x7b ∧ c ≠ 0x5b ∧ c ≠ 0x74 ∧ c ≠ 0x66 ∧ c ≠ 0x6e := by
    decide
  obtain ⟨string, object, array, yes, no, null⟩ := others c lead
  have read := strtod_numeral numeral stop
  rw [shape, List.cons_append] at read ⊢
  rw [parse_val_head _ (lead_plain lead).1, if_neg string, if_neg object, if_neg array, if_neg yes, if_neg no, if_neg null, read]

theorem array_parsed (later : KidsParsed fuel) {kids : List Tree}
    (inside : (kids = [] ∧ Ws t (0x5d :: r)) ∨ ∃ u, Ws t u ∧ JsonGrammar.Kids u kids r) (enough : 2 * t.length + 3 ≤ fuel) :
    jParseVal (fuel + 1) (0x5b :: t) = .ok (.arr (parsedKids kids), r) := by
  rw [parse_val_head _ (by decide), if_neg (by decide), if_neg (by decide), if_pos rfl]
  rcases inside with ⟨rfl, blank⟩ | ⟨u, blank, inside⟩
  · have skipped : jWs t = 0x5d :: r := (ws_mark (by decide)).mp blank
    rw [skipped, List.head?_cons, if_pos rfl]
    rfl
  · have skipped : jWs t = u := ws_skip blank fun c front => (kids_front inside c front).1
    have skipped' : jWs (jWs t) = u := (List.dropWhile_idempotent _ _).trans skipped
    have bound := ws_length t
    have behind : JsonGrammar.Kids (jWs (jWs t)) kids r := by
      rw [skipped']
      exact inside
    rw [if_neg (by rw [skipped]; exact fun close => (kids_front inside _ close).2 rfl), later _ kids r behind (by omega)]
    rfl

theorem object_parsed (later : FieldsParsed fuel) {fields : List (Bytes × Tree)}
    (inside : (fields = [] ∧ Ws t (0x7d :: r)) ∨ ∃ u, Ws t u ∧ JsonGrammar.Fields u fields r) (enough : 2 * t.length + 3 ≤ fuel) :
    jParseVal (fuel + 1) (0x7b :: t) = .ok (.obj (parsedFields fields), r) := by
  rw [parse_val_head _ (by decide), if_neg (by decide), if_pos rfl]
  rcases inside with ⟨rfl, blank⟩ | ⟨u, blank, inside⟩
  · have skipped : jWs t = 0x7d :: r := (ws_mark (by decide)).mp blank
    rw [skipped, List.head?_cons, if_pos rfl]
    rfl
  · have skipped : jWs t = u := ws_skip blank (fields_front_plain inside)
    have skipped' : jWs (jWs t) = u := (List.dropWhile_idempotent _ _).trans skipped
    have bound := ws_length t
    have behind : JsonGrammar.Fields (jWs (jWs t)) fields r := by
      rw [skipped']
      exact inside
    rw [if_neg (by rw [skipped, fields_front inside]; decide), later _ fields r behind (by omega)]
    rfl

theorem value_parsed (kids : KidsParsed fuel) (fields : FieldsParsed fuel) : ValueParsed (fuel + 1) := by
  intro s tree r value stop enough
  have bound := ws_length s
  rw [parse_val_ws]
  generalize jWs s = w at value bound
  cases tree with
  | null =>
    rw [value_null value]
    exact parse_null r
  | bool boolean =>
    rw [value_bool value]
    exact parse_bool boolean r
  | num negative mantissa exponent =>
    obtain ⟨numeral, rfl, rfl, rfl, rfl⟩ := value_num value
    exact number_parsed numeral stop
  | str bytes =>
    obtain ⟨t, elements, rfl, chars, rfl⟩ := value_str value
    rw [parse_val_head _ (by decide), if_pos rfl, str_raw_chars chars]
    rfl
  | arr members =>
    obtain ⟨t, rfl, inside⟩ := value_arr value
    rw [List.length_cons] at bound
    exact array_parsed kids inside (by omega)
  | obj members =>
    obtain ⟨t, rfl, inside⟩ := value_obj value
    rw [List.length_cons] at bound
    exact object_parsed fields inside (by omega)

theorem parsed (fuel : Nat) : ValueParsed fuel ∧ KidsParsed fuel ∧ FieldsParsed fuel := by
  induction fuel with
  | zero =>
    exact ⟨fun s tree r _ _ enough => by omega, fun s kids r _ enough => by omega, fun s fields r _ enough => by omega⟩
  | succ fuel ih =>
    obtain ⟨values, kids, fields⟩ := ih
    exact ⟨value_parsed kids fields, kids_parsed values kids, fields_parsed values fields⟩

end Trees

theorem denotes_parsed {raw : Bytes} {tree : Tree} (denotes : Denotes (cstr raw) tree) :
    ∃ rest, jsonParse raw = .ok (parsedTree tree, rest) ∧ Ws rest [] := by
  obtain ⟨rest, value, behind⟩ := denotes_iff.mp denotes
  have blank : Ws rest [] := behind ▸ ws_drop rest
  exact ⟨rest, (parsed _).1 (cstr raw) tree rest value (ws_end_stop blank) (Nat.le_refl _), blank⟩

theorem complete_true_iff (raw : Bytes) : ocrJsonTextComplete (some raw) = .ok true ↔
    ∃ fields, Denotes (cstr raw) (.obj fields) ∧ (Tree.obj fields).nesting ≤ 64 := by
  obtain ⟨answer, ends, accepts⟩ := text_complete_iff raw
  rw [← accepts, ends]
  exact ⟨fun same => Except.ok.inj same, fun same => by rw [same]⟩

-- The gate takes an object of the grammar with at most sixty-four arrays and objects around any value, it
-- ends inside the text, and the parser reads all of such a text as the tree that the grammar denotes.
theorem strict_lenient (raw : Bytes) :
    (∃ answer, ocrJsonTextComplete (some raw) = .ok answer) ∧
    (ocrJsonTextComplete (some raw) = .ok true ↔
      ∃ fields, Denotes (cstr raw) (.obj fields) ∧ (Tree.obj fields).nesting ≤ 64) ∧
    ∀ tree, Denotes (cstr raw) tree → ∃ rest, jsonParse raw = .ok (parsedTree tree, rest) ∧ Ws rest [] := by
  obtain ⟨answer, ends, _⟩ := text_complete_iff raw
  exact ⟨⟨answer, ends⟩, complete_true_iff raw, fun tree denotes => denotes_parsed denotes⟩

def nulText : Bytes :=
  [0x7b, 0x22, 0x61, 0x22, 0x3a, 0x22, 0x5c, 0x75, 0x30, 0x30, 0x30, 0x30, 0x22, 0x7d]

theorem nul_text_value : JsonGrammar.Value nulText (.obj [([0x61], .str [0])]) [] := by
  have none_ (s : Bytes) : Ws s s := ⟨[], by simp, rfl⟩
  have name : JsonGrammar.Chars (nulText.drop 2) [.raw 0x61] (nulText.drop 4) :=
    .raw (by decide) (by decide) (by decide) (.close _)
  have code : JsonGrammar.Chars (nulText.drop 6) [.code 0] (nulText.drop 13) := .code (by decide) (.close _)
  exact .obj (none_ _) (.last name (none_ _) (none_ _) (.str code) (none_ _))

-- A string of the text that holds a NUL is not the string that the parser gives.
theorem nul_string_cut : ocrJsonTextComplete (some nulText) = .ok true ∧
    Denotes (cstr nulText) (.obj [([0x61], .str [0])]) ∧ jsonParse nulText = .ok (.obj [([0x61], .str [])], []) := by
  have text : cstr nulText = nulText := by decide
  have front : jWs nulText = nulText := by decide
  have value : JsonGrammar.Value (jWs nulText) (.obj [([0x61], .str [0])]) [] := by
    rw [front]
    exact nul_text_value
  have denotes : Denotes (cstr nulText) (.obj [([0x61], .str [0])]) := by
    rw [text]
    exact denotes_iff.mpr ⟨[], value, rfl⟩
  refine ⟨(complete_true_iff nulText).mpr ⟨_, denotes, ?_⟩, denotes, ?_⟩
  · rw [obj_nesting, nestingFields, nestingFields, Tree.nesting]
    · decide
    · simp
    · simp
  · rw [jsonParse, text]
    exact (parsed _).1 nulText _ [] value (fun c front => by cases front) (Nat.le_refl _)

end SamosaChat.OcrJson
