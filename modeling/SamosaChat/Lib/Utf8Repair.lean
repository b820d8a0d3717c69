import SamosaChat.Lib.Utf8Cut

set_option autoImplicit false

namespace SamosaChat.Utf8

def replacementCharacter : Bytes :=
  [0xef, 0xbf, 0xbd]

def lossyFrom : Nat → Bytes → Bytes
  | 0, _ => []
  | _ + 1, [] => []
  | fuel + 1, c :: rest =>
    match decodeOne (c :: rest) with
    | some (_, width) => (c :: rest).take width ++ lossyFrom fuel ((c :: rest).drop width)
    | none => replacementCharacter ++ lossyFrom fuel rest

def lossy (text : Bytes) : Bytes :=
  lossyFrom text.length text

theorem lossy_from_enough (fuel : Nat) : ∀ more text, text.length ≤ fuel → lossyFrom (fuel + more) text = lossyFrom fuel text := by
  induction fuel with
  | zero =>
    intro more text enough
    rw [List.length_eq_zero_iff.mp (Nat.le_zero.mp enough)]
    cases more <;> rfl
  | succ fuel ih =>
    intro more text enough
    rw [Nat.add_right_comm]
    cases text with
    | nil => rfl
    | cons c rest =>
      rw [List.length_cons] at enough
      rw [lossyFrom, lossyFrom]
      cases decoded : decodeOne (c :: rest) with
      | none =>
        dsimp only
        rw [ih more rest (by omega)]
      | some pair =>
        have bound := @decode_one_width _ pair.1 pair.2 decoded
        dsimp only
        rw [ih more _ (by rw [List.length_drop, List.length_cons]; omega)]

variable {text : Bytes}

theorem lossy_from_eq {fuel : Nat} (enough : text.length ≤ fuel) : lossyFrom fuel text = lossy text := by
  obtain ⟨more, rfl⟩ := Nat.exists_eq_add_of_le enough
  exact lossy_from_enough _ more text (Nat.le_refl _)

theorem lossy_some {code width : Nat} (decoded : decodeOne text = some (code, width)) :
    lossy text = text.take width ++ lossy (text.drop width) := by
  have bound := decode_one_width decoded
  cases text with
  | nil => cases decoded
  | cons c rest =>
    rw [lossy, List.length_cons, lossyFrom, decoded]
    dsimp only
    rw [lossy_from_eq (by rw [List.length_drop, List.length_cons]; omega)]

theorem lossy_none {c : UInt8} {rest : Bytes} (decoded : decodeOne (c :: rest) = none) :
    lossy (c :: rest) = replacementCharacter ++ lossy rest := by
  rw [lossy, List.length_cons, lossyFrom, decoded]
  rfl

theorem characters {motive : Bytes → Prop} (nil : motive [])
    (character : ∀ text code width, decodeOne text = some (code, width) → motive (text.drop width) → motive text)
    (malformed : ∀ c rest, decodeOne (c :: rest) = none → motive rest → motive (c :: rest)) (text : Bytes) : motive text := by
  induction size : text.length using Nat.strong_induction_on generalizing text with
  | _ n ih =>
    cases text with
    | nil => exact nil
    | cons c rest =>
      rw [List.length_cons] at size
      cases decoded : decodeOne (c :: rest) with
      | none => exact malformed c rest decoded (ih rest.length (by omega) rest rfl)
      | some pair =>
        have bound := @decode_one_width _ pair.1 pair.2 decoded
        refine character _ pair.1 pair.2 decoded (ih _ ?_ _ rfl)
        rw [List.length_drop, List.length_cons]
        omega

theorem decode_one_append {code width : Nat} (decoded : decodeOne text = some (code, width)) (more : Bytes) :
    decodeOne (text ++ more) = some (code, width) := by
  obtain ⟨scalar, size, front⟩ := decode_one_iff.mp decoded
  exact decode_one_iff.mpr ⟨scalar, size, front.trans (List.prefix_append _ _)⟩

theorem decode_one_malformed {c : UInt8} {rest after : Bytes} (valid : Valid after) (decoded : decodeOne (c :: rest) = none) :
    decodeOne (c :: rest ++ after) = none := by
  cases joined : decodeOne (c :: rest ++ after) with
  | none => rfl
  | some pair =>
    obtain ⟨code, width⟩ := pair
    obtain ⟨scalar, size, front⟩ := decode_one_iff.mp joined
    rcases List.prefix_or_prefix_of_prefix front (List.prefix_append (c :: rest) after) with inside | ⟨tail, whole⟩
    · cases decoded.symm.trans (decode_one_iff.mpr ⟨scalar, size, inside⟩)
    · rw [← whole, List.prefix_append_right_inj] at front
      obtain ⟨later, rfl⟩ := front
      cases tail with
      | nil =>
        rw [List.append_nil] at whole
        have starts : sequence code <+: c :: rest := ⟨[], (List.append_nil _).trans whole.symm⟩
        cases decoded.symm.trans (decode_one_iff.mpr ⟨scalar, size, starts⟩)
      | cons d tail =>
        have plain := valid_head valid d rfl
        have continued := sequence_tails code d (by rw [← whole]; simp)
        cases plain.symm.trans continued

theorem lossy_before {before : Bytes} (valid : Valid before) (text : Bytes) : lossy (before ++ text) = before ++ lossy text := by
  obtain ⟨codes, scalars, rfl⟩ := valid
  induction codes with
  | nil => rfl
  | cons code codes ih =>
    have scalar := scalars code List.mem_cons_self
    rw [encode_cons, List.append_assoc, lossy_some (decode_one_sequence scalar _), List.take_left, List.drop_left,
      ih fun c inside => scalars c (List.mem_cons_of_mem _ inside), List.append_assoc]

theorem lossy_valid (valid : Valid text) : lossy text = text := by
  have same := lossy_before valid []
  rwa [List.append_nil, show lossy [] = [] from rfl, List.append_nil] at same

theorem lossy_after {after : Bytes} (valid : Valid after) (text : Bytes) : lossy (text ++ after) = lossy text ++ after := by
  induction text using characters with
  | nil => exact lossy_valid valid
  | character text code width decoded ih =>
    have bound := decode_one_width decoded
    rw [lossy_some (decode_one_append decoded after), lossy_some decoded, List.take_append_of_le_length bound.2,
      List.drop_append_of_le_length bound.2, ih, List.append_assoc]
  | malformed c rest decoded ih =>
    have joined := decode_one_malformed valid decoded
    rw [List.cons_append] at joined ⊢
    rw [lossy_none joined, lossy_none decoded, ih, List.append_assoc]

theorem replacement_character_valid : Valid replacementCharacter :=
  ⟨[0xfffd], by decide, by decide⟩

theorem valid_lossy (text : Bytes) : Valid (lossy text) := by
  induction text using characters with
  | nil => exact valid_nil
  | character text code width decoded ih =>
    rw [lossy_some decoded]
    obtain ⟨scalar, size, later, rfl⟩ := decode_one_starts decoded
    rw [size, List.take_left]
    rw [size] at ih
    exact valid_append (valid_sequence scalar) ih
  | malformed c rest decoded ih =>
    rw [lossy_none decoded]
    exact valid_append replacement_character_valid ih

theorem lossy_clean (clean : (0 : UInt8) ∉ text) : (0 : UInt8) ∉ lossy text := by
  induction text using characters with
  | nil => exact clean
  | character text code width decoded ih =>
    rw [lossy_some decoded, List.mem_append, not_or]
    exact ⟨fun inside => clean (List.mem_of_mem_take inside), ih fun inside => clean (List.mem_of_mem_drop inside)⟩
  | malformed c rest decoded ih =>
    rw [lossy_none decoded, List.mem_append, not_or]
    exact ⟨by decide, ih fun inside => clean (List.mem_cons_of_mem _ inside)⟩

theorem lossy_ascii (ascii : ∀ c ∈ lossy text, c < 0x80) : lossy text = text := by
  induction text using characters with
  | nil => rfl
  | character text code width decoded ih =>
    rw [lossy_some decoded] at ascii ⊢
    rw [ih fun c inside => ascii c (List.mem_append_right _ inside), List.take_append_drop]
  | malformed c rest decoded ih =>
    rw [lossy_none decoded] at ascii
    exact absurd (ascii 0xef (List.mem_append_left _ (by decide))) (by decide)

end SamosaChat.Utf8
