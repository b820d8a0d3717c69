import SamosaChat.Lib.FixedText

set_option autoImplicit false

namespace SamosaChat.JsonGrammar

open Utf8 Text Decimal FloatText Binary64

-- The grammar of RFC 8259 over bytes. Each rule relates a text to what is left behind the construct that
-- it starts with. White space is what isspace takes for it, and bytes from 0x80 on are not looked into.

def Ws (s r : Bytes) : Prop :=
  ∃ blanks, (∀ c ∈ blanks, isSpace c = true) ∧ s = blanks ++ r

inductive Element
  | raw (c : UInt8)
  | escape (e : UInt8)
  | code (unit : Nat)

def escapes : Bytes :=
  utf8 "\"\\/bfnrt"

inductive Chars : Bytes → List Element → Bytes → Prop
  | close (r : Bytes) : Chars (0x22 :: r) [] r
  | raw {c : UInt8} {s r : Bytes} {elements : List Element} (inner : c ≠ 0x22) (other : c ≠ 0x5c) (high : ¬c < 0x20)
      (rest : Chars s elements r) : Chars (c :: s) (.raw c :: elements) r
  | escape {e : UInt8} {s r : Bytes} {elements : List Element} (known : e ∈ escapes) (rest : Chars s elements r) :
      Chars (0x5c :: e :: s) (.escape e :: elements) r
  | code {a b c d : UInt8} {s r : Bytes} {elements : List Element} (hex : ∀ x ∈ [a, b, c, d], isHex x = true)
      (rest : Chars s elements r) :
      Chars (0x5c :: 0x75 :: a :: b :: c :: d :: s) (.code (hexDigitsValue [a, b, c, d]) :: elements) r

def escapeByte (e : UInt8) : UInt8 :=
  if e = 0x62 then 0x08
  else if e = 0x66 then 0x0c
  else if e = 0x6e then 0x0a
  else if e = 0x72 then 0x0d
  else if e = 0x74 then 0x09
  else e

def highUnit (unit : Nat) : Bool :=
  0xd800 ≤ unit && unit ≤ 0xdbff

def lowUnit (unit : Nat) : Bool :=
  0xdc00 ≤ unit && unit ≤ 0xdfff

def joined (high low : Nat) : Nat :=
  0x10000 + (high - 0xd800) * 1024 + (low - 0xdc00)

-- The bytes that the characters stand for. Two units that are a pair are one character, and a surrogate
-- that stands alone is written like any other unit.
def bytesOf : List Element → Bytes
  | [] => []
  | .raw c :: elements => c :: bytesOf elements
  | .escape e :: elements => escapeByte e :: bytesOf elements
  | .code high :: .code low :: elements =>
    if highUnit high && lowUnit low then sequence (joined high low) ++ bytesOf elements
    else sequence high ++ bytesOf (.code low :: elements)
  | .code unit :: elements => sequence unit ++ bytesOf elements

structure Power where
  mark : UInt8
  sign : Bytes
  digits : Bytes
  marked : mark = 0x65 ∨ mark = 0x45
  signed : sign = [] ∨ sign = [0x2b] ∨ sign = [0x2d]
  some_ : digits ≠ []
  all : ∀ c ∈ digits, isDigit c = true

def Power.text (power : Power) : Bytes :=
  power.mark :: (power.sign ++ power.digits)

def Power.value (power : Power) : Int :=
  if power.sign = [0x2d] then -(digitsValue power.digits : Int) else digitsValue power.digits

structure Fraction where
  digits : Bytes
  some_ : digits ≠ []
  all : ∀ c ∈ digits, isDigit c = true

structure Numeral where
  negative : Bool
  whole : Bytes
  fraction : Option Fraction
  power : Option Power
  some_ : whole ≠ []
  all : ∀ c ∈ whole, isDigit c = true
  lead : whole.head? = some 0x30 → whole = [0x30]

def Numeral.fractionDigits (numeral : Numeral) : Bytes :=
  numeral.fraction.elim [] Fraction.digits

def Numeral.text (numeral : Numeral) : Bytes :=
  (if numeral.negative then [0x2d] else []) ++ numeral.whole ++ numeral.fraction.elim [] (fun fraction => 0x2e :: fraction.digits) ++
    numeral.power.elim [] Power.text

def Numeral.mantissa (numeral : Numeral) : Nat :=
  digitsValue (numeral.whole ++ numeral.fractionDigits)

def Numeral.exponent (numeral : Numeral) : Int :=
  numeral.power.elim 0 Power.value - numeral.fractionDigits.length

inductive Tree
  | null
  | bool (boolean : Bool)
  | num (negative : Bool) (mantissa : Nat) (exponent : Int)
  | str (bytes : Bytes)
  | arr (kids : List Tree)
  | obj (fields : List (Bytes × Tree))

mutual

def Tree.nesting : Tree → Nat
  | .arr kids => nestingKids kids
  | .obj fields => nestingFields fields
  | _ => 0

def nestingKids : List Tree → Nat
  | [] => 0
  | kid :: kids => max (kid.nesting + 1) (nestingKids kids)

def nestingFields : List (Bytes × Tree) → Nat
  | [] => 0
  | (_, kid) :: fields => max (kid.nesting + 1) (nestingFields fields)

end

mutual

inductive Value : Bytes → Tree → Bytes → Prop
  | null (r : Bytes) : Value (utf8 "null" ++ r) .null r
  | yes (r : Bytes) : Value (utf8 "true" ++ r) (.bool true) r
  | no (r : Bytes) : Value (utf8 "false" ++ r) (.bool false) r
  | num (numeral : Numeral) (r : Bytes) :
      Value (numeral.text ++ r) (.num numeral.negative numeral.mantissa numeral.exponent) r
  | str {s r : Bytes} {elements : List Element} (chars : Chars s elements r) : Value (0x22 :: s) (.str (bytesOf elements)) r
  | emptyArr {s r : Bytes} (blank : Ws s (0x5d :: r)) : Value (0x5b :: s) (.arr []) r
  | arr {s t r : Bytes} {kids : List Tree} (blank : Ws s t) (inside : Kids t kids r) : Value (0x5b :: s) (.arr kids) r
  | emptyObj {s r : Bytes} (blank : Ws s (0x7d :: r)) : Value (0x7b :: s) (.obj []) r
  | obj {s t r : Bytes} {fields : List (Bytes × Tree)} (blank : Ws s t) (inside : Fields t fields r) :
      Value (0x7b :: s) (.obj fields) r

inductive Kids : Bytes → List Tree → Bytes → Prop
  | last {s t r : Bytes} {kid : Tree} (value : Value s kid t) (close : Ws t (0x5d :: r)) : Kids s [kid] r
  | more {s t u v r : Bytes} {kid : Tree} {kids : List Tree} (value : Value s kid t) (comma : Ws t (0x2c :: u))
      (blank : Ws u v) (rest : Kids v kids r) : Kids s (kid :: kids) r

inductive Fields : Bytes → List (Bytes × Tree) → Bytes → Prop
  | last {s t u v w r : Bytes} {elements : List Element} {kid : Tree} (name : Chars s elements t) (colon : Ws t (0x3a :: u))
      (blank : Ws u v) (value : Value v kid w) (close : Ws w (0x7d :: r)) : Fields (0x22 :: s) [(bytesOf elements, kid)] r
  | more {s t u v w x y r : Bytes} {elements : List Element} {kid : Tree} {fields : List (Bytes × Tree)}
      (name : Chars s elements t) (colon : Ws t (0x3a :: u)) (blank : Ws u v) (value : Value v kid w)
      (comma : Ws w (0x2c :: x)) (blank' : Ws x y) (rest : Fields y fields r) :
      Fields (0x22 :: s) ((bytesOf elements, kid) :: fields) r

end

def Denotes (s : Bytes) (tree : Tree) : Prop :=
  ∃ t r, Ws s t ∧ Value t tree r ∧ Ws r []

section White

variable {s r t : Bytes} {c : UInt8}

theorem ws_drop (s : Bytes) : Ws s (s.dropWhile isSpace) :=
  ⟨s.takeWhile isSpace, fun _ inside => (List.mem_takeWhile_imp inside), (List.takeWhile_append_dropWhile).symm⟩

theorem ws_skip (blank : Ws s r) (plain : ∀ c ∈ r.head?, isSpace c = false) : s.dropWhile isSpace = r := by
  obtain ⟨blanks, all, rfl⟩ := blank
  rw [List.dropWhile_append_of_pos all]
  cases r with
  | nil => rfl
  | cons c r => rw [List.dropWhile_cons, plain c rfl, if_neg Bool.false_ne_true]

theorem ws_mark (plain : isSpace c = false) : Ws s (c :: r) ↔ s.dropWhile isSpace = c :: r :=
  ⟨fun blank => ws_skip blank fun d front => by cases front; exact plain, fun skipped => skipped ▸ ws_drop s⟩

theorem space_stop : ∀ d : UInt8, isSpace d = true → isDigit d = false ∧ d ≠ 0x2e ∧ toLower d ≠ 0x65 ∧ toLower d ≠ 0x78 :=
  every_byte (by decide +kernel)

theorem blanks_stop {blanks : Bytes} (all : ∀ c ∈ blanks, isSpace c = true) (stop : Stop r) : Stop (blanks ++ r) := by
  cases blanks with
  | nil => exact stop
  | cons b blanks =>
    intro d front
    cases front
    exact space_stop b (all b List.mem_cons_self)

theorem ws_stop (blank : Ws s (c :: r)) (mark : c ∈ [(0x2c : UInt8), 0x3a, 0x5d, 0x7d]) : Stop s := by
  obtain ⟨blanks, all, rfl⟩ := blank
  have marks : ∀ d ∈ [(0x2c : UInt8), 0x3a, 0x5d, 0x7d],
      isDigit d = false ∧ d ≠ 0x2e ∧ toLower d ≠ 0x65 ∧ toLower d ≠ 0x78 := by decide
  apply blanks_stop all
  intro d front
  cases front
  exact marks c mark

theorem ws_end_stop (blank : Ws s []) : Stop s := by
  obtain ⟨blanks, all, rfl⟩ := blank
  exact blanks_stop all fun d front => by cases front

end White

section Numbers

variable {rest : Bytes}

theorem Power.first (power : Power) : ∃ t, power.text = power.mark :: t ∧ toLower power.mark = 0x65 ∧
    isDigit power.mark = false ∧ power.mark ≠ 0x2e := by
  refine ⟨_, rfl, ?_⟩
  rcases power.marked with mark | mark
  · rw [mark]
    decide
  · rw [mark]
    decide

theorem exponent_power (power : Power) (stop : Stop rest) : exponent 0x65 (power.text ++ rest) = (power.value, rest) := by
  obtain ⟨taken, left⟩ := digits_end power.all fun c front => (stop c front).1
  obtain ⟨d, digits, shape⟩ := List.exists_cons_of_ne_nil power.some_
  obtain ⟨_, minus, plus⟩ := digit_not_space (power.all d (by rw [shape]; exact List.mem_cons_self))
  have lower : toLower power.mark = 0x65 := power.first.choose_spec.2.1
  rw [Power.text, List.cons_append, exponent, if_pos lower, Power.value]
  rcases power.signed with sign | sign | sign
  · have head : (power.digits ++ rest).head? = some d := by rw [shape]; rfl
    have body : power.sign ++ power.digits ++ rest = power.digits ++ rest := by rw [sign]; rfl
    have unsigned : (some d == some 0x2d) = false ∧ (some d == some 0x2b) = false := by simp [minus, plus]
    simp only [body, head, unsigned.1, unsigned.2, Bool.or_self, Bool.false_eq_true, if_false, taken, left]
    rw [if_neg power.some_, sign, if_neg (by decide)]
  · have head : (power.sign ++ power.digits ++ rest).head? = some 0x2b := by rw [sign]; rfl
    have body : (power.sign ++ power.digits ++ rest).drop 1 = power.digits ++ rest := by rw [sign]; rfl
    have marks : ((some 0x2b : Option UInt8) == some 0x2d) = false := by decide
    simp only [head, marks, beq_self_eq_true, Bool.or_true, if_true, Bool.false_eq_true, if_false, body, taken, left]
    rw [if_neg power.some_, sign, if_neg (by decide)]
  · have head : (power.sign ++ power.digits ++ rest).head? = some 0x2d := by rw [sign]; rfl
    have body : (power.sign ++ power.digits ++ rest).drop 1 = power.digits ++ rest := by rw [sign]; rfl
    simp only [head, beq_self_eq_true, Bool.true_or, if_true, body, taken, left]
    rw [if_neg power.some_, sign, if_pos rfl]

def Numeral.powerText (numeral : Numeral) : Bytes :=
  numeral.power.elim [] Power.text

def Numeral.fractionText (numeral : Numeral) : Bytes :=
  numeral.fraction.elim [] fun fraction => 0x2e :: fraction.digits

theorem power_text_stop (numeral : Numeral) (stop : Stop rest) :
    ∀ c ∈ (numeral.powerText ++ rest).head?, isDigit c = false ∧ c ≠ 0x2e ∧ toLower c ≠ 0x78 := by
  intro c front
  cases power : numeral.power with
  | none =>
    rw [Numeral.powerText, power] at front
    exact ⟨(stop c front).1, (stop c front).2.1, (stop c front).2.2.2⟩
  | some power_ =>
    obtain ⟨t, text, lower, digit, point⟩ := power_.first
    rw [Numeral.powerText, power, Option.elim_some, text] at front
    cases front
    exact ⟨digit, point, by rw [lower]; decide⟩

theorem mantissa_numeral (numeral : Numeral) (stop : Stop rest) :
    mantissa isDigit (numeral.whole ++ numeral.fractionText ++ (numeral.powerText ++ rest)) =
      { digits := numeral.whole ++ numeral.fractionDigits
        fraction := numeral.fractionDigits.length
        rest := numeral.powerText ++ rest } := by
  have behind := power_text_stop numeral stop
  cases fraction : numeral.fraction with
  | none =>
    rw [Numeral.fractionText, Numeral.fractionDigits, fraction, Option.elim_none, Option.elim_none, List.append_nil]
    exact mantissa_whole numeral.all fun c front => ⟨(behind c front).1, (behind c front).2.1⟩
  | some fraction_ =>
    rw [Numeral.fractionText, Numeral.fractionDigits, fraction, Option.elim_some, Option.elim_some]
    exact mantissa_fraction numeral.all fraction_.all fun c front => (behind c front).1

theorem strtod_numeral (numeral : Numeral) (stop : Stop rest) :
    strtod (numeral.text ++ rest) = (ofScaled numeral.negative 10 numeral.mantissa numeral.exponent, rest) := by
  have power : exponent 0x65 (numeral.powerText ++ rest) = (numeral.power.elim 0 Power.value, rest) := by
    rw [Numeral.powerText]
    cases numeral.power with
    | none => exact exponent_absent stop
    | some power => exact exponent_power power stop
  have decimal_ : scanDecimal numeral.negative (numeral.whole ++ numeral.fractionText ++ (numeral.powerText ++ rest)) =
      some (ofScaled numeral.negative 10 numeral.mantissa numeral.exponent, rest) := by
    rw [scanDecimal, mantissa_numeral numeral stop]
    dsimp only
    rw [if_neg (by simp [numeral.some_]), power]
    rfl
  obtain ⟨c, digits, shape⟩ := List.exists_cons_of_ne_nil numeral.some_
  have digit : isDigit c = true := numeral.all c (by rw [shape]; exact List.mem_cons_self)
  have second : ∀ d ∈ (digits ++ (numeral.fractionText ++ (numeral.powerText ++ rest))).head?, toLower d ≠ 0x78 := by
    apply head_not_mark fun d inside => numeral.all d (by rw [shape]; exact List.mem_cons_of_mem _ inside)
    intro d front
    cases fraction : numeral.fraction with
    | none =>
      rw [Numeral.fractionText, fraction, Option.elim_none, List.nil_append] at front
      exact (power_text_stop numeral stop d front).2.2
    | some fraction_ =>
      rw [Numeral.fractionText, fraction, Option.elim_some] at front
      cases front
      decide
  have scan := scan_plain numeral.negative digit second
  have text : c :: (digits ++ (numeral.fractionText ++ (numeral.powerText ++ rest))) =
      numeral.whole ++ numeral.fractionText ++ (numeral.powerText ++ rest) := by
    rw [shape, List.append_assoc, List.cons_append]
  rw [text, decimal_, ← text] at scan
  have read := strtod_signed numeral.negative digit scan
  rw [← read, text]
  congr 1
  cases negative : numeral.negative with
  | true => simp [Numeral.text, Numeral.fractionText, Numeral.powerText, negative]
  | false => simp [Numeral.text, Numeral.fractionText, Numeral.powerText, negative]

end Numbers

section Shapes

variable {s r : Bytes} {tree : Tree}

theorem value_bool {boolean : Bool} (value : Value s (.bool boolean) r) : s = utf8 (if boolean then "true" else "false") ++ r := by
  cases value with
  | yes => rfl
  | no => rfl

theorem value_num {negative : Bool} {mantissa : Nat} {exponent : Int} (value : Value s (.num negative mantissa exponent) r) :
    ∃ numeral : Numeral, s = numeral.text ++ r ∧ numeral.negative = negative ∧ numeral.mantissa = mantissa ∧
      numeral.exponent = exponent := by
  cases value with
  | num numeral => exact ⟨numeral, rfl, rfl, rfl, rfl⟩

theorem value_str {bytes : Bytes} (value : Value s (.str bytes) r) :
    ∃ t elements, s = 0x22 :: t ∧ Chars t elements r ∧ bytes = bytesOf elements := by
  cases value with
  | str chars => exact ⟨_, _, rfl, chars, rfl⟩

theorem value_arr {kids : List Tree} (value : Value s (.arr kids) r) :
    ∃ t, s = 0x5b :: t ∧ ((kids = [] ∧ Ws t (0x5d :: r)) ∨ ∃ u, Ws t u ∧ Kids u kids r) := by
  cases value with
  | emptyArr blank => exact ⟨_, rfl, .inl ⟨rfl, blank⟩⟩
  | arr blank inside => exact ⟨_, rfl, .inr ⟨_, blank, inside⟩⟩

theorem value_obj {fields : List (Bytes × Tree)} (value : Value s (.obj fields) r) :
    ∃ t, s = 0x7b :: t ∧ ((fields = [] ∧ Ws t (0x7d :: r)) ∨ ∃ u, Ws t u ∧ Fields u fields r) := by
  cases value with
  | emptyObj blank => exact ⟨_, rfl, .inl ⟨rfl, blank⟩⟩
  | obj blank inside => exact ⟨_, rfl, .inr ⟨_, blank, inside⟩⟩

theorem value_null (value : Value s .null r) : s = utf8 "null" ++ r := by
  cases value with
  | null => rfl

def Tree.leads : Tree → Bytes
  | .null => [0x6e]
  | .bool boolean => [if boolean then 0x74 else 0x66]
  | .num _ _ _ => [0x2d, 0x30, 0x31, 0x32, 0x33, 0x34, 0x35, 0x36, 0x37, 0x38, 0x39]
  | .str _ => [0x22]
  | .arr _ => [0x5b]
  | .obj _ => [0x7b]

theorem numeral_starts (numeral : Numeral) : ∃ c t, numeral.text = c :: t ∧ (c = 0x2d ∨ isDigit c = true) := by
  obtain ⟨d, digits, shape⟩ := List.exists_cons_of_ne_nil numeral.some_
  cases negative : numeral.negative with
  | true =>
    rw [Numeral.text, negative]
    exact ⟨0x2d, _, rfl, .inl rfl⟩
  | false =>
    rw [Numeral.text, negative, shape]
    exact ⟨d, _, rfl, .inr (numeral.all d (by rw [shape]; exact List.mem_cons_self))⟩

theorem lead_number : ∀ c : UInt8, c = 0x2d ∨ isDigit c = true → c ∈ (Tree.num false 0 0).leads :=
  every_byte (by decide +kernel)

theorem value_starts (value : Value s tree r) : ∃ c t, s = c :: t ∧ c ∈ tree.leads := by
  cases value with
  | num numeral =>
    obtain ⟨c, t, shape, starts⟩ := numeral_starts numeral
    exact ⟨c, t ++ r, by rw [shape]; rfl, lead_number c starts⟩
  | null => exact ⟨0x6e, _, rfl, List.mem_singleton.mpr rfl⟩
  | yes => exact ⟨0x74, _, rfl, List.mem_singleton.mpr rfl⟩
  | no => exact ⟨0x66, _, rfl, List.mem_singleton.mpr rfl⟩
  | str => exact ⟨0x22, _, rfl, List.mem_singleton.mpr rfl⟩
  | emptyArr => exact ⟨0x5b, _, rfl, List.mem_singleton.mpr rfl⟩
  | arr => exact ⟨0x5b, _, rfl, List.mem_singleton.mpr rfl⟩
  | emptyObj => exact ⟨0x7b, _, rfl, List.mem_singleton.mpr rfl⟩
  | obj => exact ⟨0x7b, _, rfl, List.mem_singleton.mpr rfl⟩

def plainByte (c : UInt8) : Bool :=
  !isSpace c && c != 0x5d && c != 0

theorem leads_plain (tree : Tree) : tree.leads.all plainByte = true := by
  cases tree with
  | bool boolean => cases boolean <;> rfl
  | null => rfl
  | num => rfl
  | str => rfl
  | arr => rfl
  | obj => rfl

theorem lead_plain {c : UInt8} (starts : c ∈ tree.leads) : isSpace c = false ∧ c ≠ 0x5d ∧ c ≠ 0 := by
  have plain := List.all_eq_true.mp (leads_plain tree) c starts
  simpa [plainByte, and_assoc] using plain

theorem value_front (value : Value s tree r) : ∀ c ∈ s.head?, isSpace c = false ∧ c ≠ 0x5d := by
  obtain ⟨c, t, rfl, starts⟩ := value_starts value
  intro d front
  cases front
  exact ⟨(lead_plain starts).1, (lead_plain starts).2.1⟩

theorem kids_front {kids : List Tree} (inside : Kids s kids r) : ∀ c ∈ s.head?, isSpace c = false ∧ c ≠ 0x5d := by
  cases inside with
  | last value => exact value_front value
  | more value => exact value_front value

theorem fields_front {fields : List (Bytes × Tree)} (inside : Fields s fields r) : s.head? = some 0x22 := by
  cases inside with
  | last => rfl
  | more => rfl

end Shapes

end SamosaChat.JsonGrammar
