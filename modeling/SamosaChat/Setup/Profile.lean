import SamosaChat.Durable.SmallFile

set_option autoImplicit false

namespace SamosaChat.Setup

open Utf8 Text Binary64 FloatText Json Buffers Durable

structure Profile where
  name : Buffer 257
  welcomeCompletedAt : Buffer 32
  selectedModelId : Buffer 64
  selectedModelVersion : Buffer 128
  createdAt : Buffer 32
  updatedAt : Buffer 32
deriving DecidableEq

def noProfile : Profile where
  name := empty 257
  welcomeCompletedAt := empty 32
  selectedModelId := empty 64
  selectedModelVersion := empty 128
  createdAt := empty 32
  updatedAt := empty 32

def continuation (c : UInt8) : Option Nat :=
  if 0xc2 ≤ c ∧ c ≤ 0xdf then some 1
  else if 0xe0 ≤ c ∧ c ≤ 0xef then some 2
  else if 0xf0 ≤ c ∧ c ≤ 0xf4 then some 3
  else none

def badSecond (c d : UInt8) : Bool :=
  c == 0xe0 && d < 0xa0 || c == 0xed && 0xa0 ≤ d || c == 0xf0 && d < 0x90 || c == 0xf4 && 0x90 ≤ d

-- The bytes of the scalar value in front, or none where the text is not valid there.
def scalarWidth (c : UInt8) (rest : Bytes) : Option Nat :=
  if c < 0x80 then if c < 0x20 ∧ c ≠ 9 ∧ c ≠ 10 ∧ c ≠ 13 then none else some 1
  else
    (continuation c).bind fun cont =>
      if rest.length < cont then none
      else if badSecond c (rest.getD 0 0) then none
      else if (rest.take cont).all fun d => d &&& 0xc0 == 0x80 then some (cont + 1)
      else none

def countFrom : Nat → Bytes → Option Nat
  | _, [] => some 0
  | 0, _ :: _ => none
  | fuel + 1, c :: rest =>
    (scalarWidth c rest).bind fun width => (countFrom fuel ((c :: rest).drop width)).map (· + 1)

def utf8ScalarCount (data : Bytes) : Option Nat :=
  countFrom data.length data

def isAsciiWs (c : UInt8) : Bool :=
  c == 0x20 || c == 0x09 || c == 0x0a || c == 0x0d

def trimAsciiWs (s : Bytes) : Bytes :=
  (s.dropWhile isAsciiWs).rdropWhile isAsciiWs

def profileMax : Nat := 65536

def profileOf (root : Jval) : Profile :=
  let onboarding := (jsonGet root (utf8 "onboarding")).getD .null
  { name := copied 257 root "name"
    createdAt := copied 32 root "created_at"
    updatedAt := copied 32 root "updated_at"
    welcomeCompletedAt := copied 32 onboarding "welcome_completed_at"
    selectedModelId := copied 64 onboarding "selected_model_id"
    selectedModelVersion := copied 128 onboarding "selected_model_version" }

def readProfile (raw : Bytes) : Option Profile :=
  match parsed raw with
  | some (.obj fields) => some (profileOf (.obj fields))
  | _ => none

def profileLoad (calls : EventCalls) (file : Option Bytes) : Option Profile :=
  (readFileLimit calls profileMax file).bind readProfile

def quotedOrNull {cap : Nat} (buffer : Buffer cap) : Bytes :=
  if buffer.text = [] then utf8 "null" else quoted buffer.text

def profileBody (p : Profile) : Bytes :=
  utf8 "\x7b\"schema_version\":1,\"name\":" ++ quoted p.name.text ++
    utf8 ",\"onboarding\":\x7b\"welcome_completed_at\":" ++ quotedOrNull p.welcomeCompletedAt ++
    utf8 ",\"selected_model_id\":" ++ quotedOrNull p.selectedModelId ++
    utf8 ",\"selected_model_version\":" ++ quotedOrNull p.selectedModelVersion ++
    utf8 ",\"active_install_job_id\":null,\"active_selection_operation_id\":null\x7d" ++
    utf8 ",\"created_at\":" ++ quoted p.createdAt.text ++ utf8 ",\"updated_at\":" ++ quoted p.updatedAt.text ++ utf8 "\x7d"

def profileText (p : Profile) : Bytes :=
  profileBody p ++ [newline]

def profileSave (calls : EventCalls) (p : Profile) (file : Option Bytes) : Bool × Option Bytes :=
  writeSmallFile calls (profileText p) file

inductive Reply
  | error (status : Nat) (code message : String)
  | ok (body : Bytes)
  | result (saved : Bool)
deriving DecidableEq

def Reply.acknowledges : Reply → Bool
  | .error _ _ _ => false
  | .ok _ => true
  | .result saved => saved

def invalidName (message : String) : Reply :=
  .error 400 "invalid_name" message

def putName (body : Bytes) : Except Reply Bytes :=
  match (parsed body).bind fun root => jsonGet root (utf8 "name") with
  | some (.str str) =>
    if str.length ≥ 512 then .error (invalidName "The name is too long.")
    else
      let name := trimAsciiWs str
      match utf8ScalarCount name with
      | some scalars =>
        if name.length = 0 ∨ scalars > 80 ∨ name.length > 256 then
          .error (invalidName "Your name must be 1-80 characters and valid text.")
        else .ok name
      | none => .error (invalidName "Your name must be 1-80 characters and valid text.")
  | _ => .error (invalidName "A name field is required.")

section Names

theorem tail_of_bits {d : UInt8} (bits : (d &&& 0xc0 == 0x80) = true) : isTail d = true := by
  rw [tail_bits] at bits
  exact bits

theorem second_of_not_bad {c d : UInt8} (good : ¬badSecond c d = true) :
    (c.toNat = 0xe0 → 0xa0 ≤ d.toNat) ∧ (c.toNat = 0xed → d.toNat < 0xa0) ∧ (c.toNat = 0xf0 → 0x90 ≤ d.toNat) ∧
      (c.toNat = 0xf4 → d.toNat < 0x90) := by
  simp only [badSecond, Bool.or_eq_true, Bool.and_eq_true, beq_iff_eq, decide_eq_true_eq, not_or, not_and,
    UInt8.le_iff_toNat_le, UInt8.lt_iff_toNat_lt, UInt8.reduceToNat, ← UInt8.toNat_inj] at good
  omega

theorem wide_decoded {c : UInt8} {rest : Bytes} {width : Nat} (large : ¬c < 0x80) (wide : scalarWidth c rest = some width) :
    ∃ code, decodeOne (c :: rest) = some (code, width) := by
  rw [scalarWidth, if_neg large] at wide
  obtain ⟨cont, lead, follows⟩ := Option.bind_eq_some_iff.mp wide
  split_ifs at follows with short bad tails
  cases follows
  have all := List.all_eq_true.mp tails
  simp only [UInt8.lt_iff_toNat_lt, UInt8.reduceToNat] at large
  unfold continuation at lead
  simp only [UInt8.le_iff_toNat_le, UInt8.reduceToNat] at lead
  split_ifs at lead with two three four
  · cases lead
    obtain _ | ⟨b, rest⟩ := rest
    · exact absurd (by simp) short
    · have second := tail_of_bits (all b (by simp))
      refine ⟨(c.toNat - 0xc0) * 64 + (b.toNat - 0x80), ?_⟩
      rw [decodeOne, if_neg (by omega), if_neg (by omega), if_pos (by omega), decodeTwo, if_pos second]
  · cases lead
    obtain _ | ⟨b, _ | ⟨d, rest⟩⟩ := rest
    · exact absurd (by simp) short
    · exact absurd (by simp) short
    · have second := tail_of_bits (all b (by simp))
      have third := tail_of_bits (all d (by simp))
      have limits := second_of_not_bad bad
      rw [List.getD_cons_zero] at limits
      have low := (is_tail_iff b).mp second
      have last := (is_tail_iff d).mp third
      refine ⟨(c.toNat - 0xe0) * 4096 + (b.toNat - 0x80) * 64 + (d.toNat - 0x80), ?_⟩
      rw [decodeOne, if_neg (by omega), if_neg (by omega), if_neg (by omega), if_pos (by omega), decodeThree]
      rw [if_pos ⟨⟨second, third⟩, by omega, by unfold Scalar; omega⟩]
  · cases lead
    obtain _ | ⟨b, _ | ⟨d, _ | ⟨e, rest⟩⟩⟩ := rest
    · exact absurd (by simp) short
    · exact absurd (by simp) short
    · exact absurd (by simp) short
    · have second := tail_of_bits (all b (by simp))
      have third := tail_of_bits (all d (by simp))
      have fourth := tail_of_bits (all e (by simp))
      have limits := second_of_not_bad bad
      rw [List.getD_cons_zero] at limits
      have low := (is_tail_iff b).mp second
      have middle := (is_tail_iff d).mp third
      have last := (is_tail_iff e).mp fourth
      refine ⟨(c.toNat - 0xf0) * 262144 + (b.toNat - 0x80) * 4096 + (d.toNat - 0x80) * 64 + (e.toNat - 0x80), ?_⟩
      rw [decodeOne, if_neg (by omega), if_neg (by omega), if_neg (by omega), if_neg (by omega), if_pos (by omega), decodeFour]
      rw [if_pos ⟨⟨second, third, fourth⟩, by omega, by unfold Scalar; omega⟩]

theorem scalar_width_decoded {c : UInt8} {rest : Bytes} {width : Nat} (wide : scalarWidth c rest = some width) :
    c ≠ 0 ∧ ∃ code, decodeOne (c :: rest) = some (code, width) := by
  by_cases small : c < 0x80
  · rw [scalarWidth, if_pos small] at wide
    split_ifs at wide with control
    cases wide
    refine ⟨?_, _, decode_one_ascii (UInt8.lt_iff_toNat_lt.mp small)⟩
    rintro rfl
    exact control (by decide)
  · refine ⟨?_, wide_decoded small wide⟩
    rintro rfl
    exact small (by decide)

theorem count_from_text (fuel : Nat) : ∀ {data : Bytes} {scalars : Nat}, countFrom fuel data = some scalars → StringText data := by
  induction fuel with
  | zero =>
    intro data scalars counted
    cases data with
    | nil => exact ⟨valid_nil, by simp⟩
    | cons c rest => cases counted
  | succ fuel ih =>
    intro data scalars counted
    cases data with
    | nil => exact ⟨valid_nil, by simp⟩
    | cons c rest =>
      obtain ⟨width, wide, later⟩ := Option.bind_eq_some_iff.mp counted
      obtain ⟨more, counted', _⟩ := Option.map_eq_some_iff.mp later
      obtain ⟨valid, noNul⟩ := ih counted'
      obtain ⟨some_, code, decoded⟩ := scalar_width_decoded wide
      refine ⟨valid_of_step decoded valid, ?_⟩
      intro inside
      obtain ⟨_, size, after, shape⟩ := decode_one_iff.mp decoded
      have tails := sequence_tails code
      cases sequence_ : sequence code with
      | nil => exact sequence_ne_nil code sequence_
      | cons d more =>
        rw [sequence_, List.cons_append, List.cons.injEq] at shape
        rw [sequence_, List.length_cons] at size
        rw [sequence_, List.tail_cons] at tails
        rw [size, ← shape.2, List.drop_succ_cons, List.drop_left] at noNul
        rw [← shape.2, List.mem_cons, List.mem_append] at inside
        rcases inside with first | middle | back
        · exact some_ first.symm
        · exact absurd (tails 0 middle) (by decide)
        · exact noNul back

theorem put_name_text {body name : Bytes} (named : putName body = .ok name) : StringText name ∧ name ≠ [] ∧ name.length < 257 := by
  unfold putName at named
  split at named
  · dsimp only at named
    split_ifs at named with long
    split at named
    · rename_i scalars counted
      split_ifs at named with wrong
      cases named
      refine ⟨count_from_text _ counted, ?_, by omega⟩
      intro none_
      exact wrong (.inl (by rw [none_]; rfl))
    · cases named
  · cases named

end Names

inductive Request
  | put (body : Bytes)
  | selection (modelId : Bytes) (version : Option Bytes)
  | welcome

structure Name where
  text : Bytes
  string : StringText text
  some_ : text ≠ []
  short : text.length < 257
deriving DecidableEq

inductive Update
  | put (name : Name)
  | selection (modelId : Bytes) (version : Option Bytes)
  | welcome
deriving DecidableEq

def nameRequired : Reply :=
  .error 409 "name_required" "Set a name before completing welcome."

-- What is refused at once. welcome_complete looks at the profile that it has loaded.
def admission (request : Request) (loaded : Option Profile) : Except Reply Update :=
  match request with
  | .put body =>
    match named : putName body with
    | .ok name =>
      let ⟨string, some_, short⟩ := put_name_text named
      .ok (.put { text := name, string := string, some_ := some_, short := short })
    | .error refusal => .error refusal
  | .selection modelId version => .ok (.selection modelId version)
  | .welcome =>
    match loaded with
    | some p => if p.name.text = [] then .error nameRequired else .ok .welcome
    | none => .error nameRequired

def putProfile (name : Name) (now : Stamp) (loaded : Option Profile) : Profile :=
  let p := loaded.getD noProfile
  { p with
    name := (pathCopy 257 name.text).1
    createdAt := if loaded.isSome then p.createdAt else now.text
    updatedAt := now.text }

def profileSetSelection (modelId : Bytes) (version : Option Bytes) (now : Stamp) (loaded : Option Profile) : Profile :=
  let p := loaded.getD noProfile
  let sameModel := loaded.isSome && p.selectedModelId.text == modelId
  { p with
    createdAt := if p.createdAt.text = [] then now.text else p.createdAt
    selectedModelId := (pathCopy 64 modelId).1
    selectedModelVersion :=
      match version with
      | some (c :: rest) => (pathCopy 128 (c :: rest)).1
      | _ => if sameModel then p.selectedModelVersion else empty 128
    updatedAt := now.text }

def welcomeComplete (now : Stamp) (loaded : Option Profile) : Profile :=
  let p := loaded.getD noProfile
  { p with
    welcomeCompletedAt := if p.welcomeCompletedAt.text = [] then now.text else p.welcomeCompletedAt
    updatedAt := now.text }

def updated (update : Update) (now : Stamp) (loaded : Option Profile) : Profile :=
  match update with
  | .put name => putProfile name now loaded
  | .selection modelId version => profileSetSelection modelId version now loaded
  | .welcome => welcomeComplete now loaded

def reply (update : Update) (saved : Bool) (p : Profile) : Reply :=
  match update, saved with
  | .selection _ _, saved => .result saved
  | _, false => .error 500 "profile_write_failed" "The profile could not be saved."
  | .put _, true => .ok (profileBody p)
  | .welcome, true =>
    .ok (utf8 "\x7b\"ok\":true,\"welcome_completed_at\":" ++ quoted p.welcomeCompletedAt.text ++ utf8 "\x7d")

section Stored

structure Clean (p : Profile) : Prop where
  name : StringText p.name.text
  welcome : StringText p.welcomeCompletedAt.text
  modelId : StringText p.selectedModelId.text
  version : StringText p.selectedModelVersion.text
  created : StringText p.createdAt.text
  updated : StringText p.updatedAt.text

def onboardingFields (p : Profile) : List (String × Jval) :=
  [("welcome_completed_at", orNull p.welcomeCompletedAt), ("selected_model_id", orNull p.selectedModelId),
    ("selected_model_version", orNull p.selectedModelVersion), ("active_install_job_id", .null),
    ("active_selection_operation_id", .null)]

def profileFields (p : Profile) : List (String × Jval) :=
  [("schema_version", .num (integer false 1 (by decide))), ("name", .str p.name.text),
    ("onboarding", record (onboardingFields p)), ("created_at", .str p.createdAt.text),
    ("updated_at", .str p.updatedAt.text)]

theorem quoted_or_null_eq {cap : Nat} (buffer : Buffer cap) : quotedOrNull buffer = written (orNull buffer) := by
  unfold quotedOrNull orNull
  split
  · rfl
  · rw [written_quoted]

theorem or_null_writable {cap : Nat} {buffer : Buffer cap} (string : StringText buffer.text) : Writable (orNull buffer) := by
  unfold orNull
  split
  · trivial
  · exact string

theorem profile_body_eq (p : Profile) : profileBody p = written (record (profileFields p)) := by
  have head : utf8 "\x7b\"schema_version\":1,\"name\":" = 0x7b :: 0x22 :: escaped (utf8 "schema_version") ++ 0x22 :: 0x3a ::
      (format (integer false 1 (by decide)) ++ 0x2c :: 0x22 :: escaped (utf8 "name") ++ [0x22, 0x3a]) := by decide +kernel
  have welcome : utf8 ",\"onboarding\":\x7b\"welcome_completed_at\":" = 0x2c :: 0x22 :: escaped (utf8 "onboarding") ++
      0x22 :: 0x3a :: 0x7b :: 0x22 :: escaped (utf8 "welcome_completed_at") ++ [0x22, 0x3a] := by decide +kernel
  have modelId : utf8 ",\"selected_model_id\":" =
      0x2c :: 0x22 :: escaped (utf8 "selected_model_id") ++ [0x22, 0x3a] := by decide +kernel
  have version : utf8 ",\"selected_model_version\":" =
      0x2c :: 0x22 :: escaped (utf8 "selected_model_version") ++ [0x22, 0x3a] := by decide +kernel
  have ids : utf8 ",\"active_install_job_id\":null,\"active_selection_operation_id\":null\x7d" =
      0x2c :: 0x22 :: escaped (utf8 "active_install_job_id") ++ 0x22 :: 0x3a :: (utf8 "null" ++
        0x2c :: 0x22 :: escaped (utf8 "active_selection_operation_id") ++ 0x22 :: 0x3a :: (utf8 "null" ++ [0x7d])) := by
    decide +kernel
  have created : utf8 ",\"created_at\":" = 0x2c :: 0x22 :: escaped (utf8 "created_at") ++ [0x22, 0x3a] := by decide +kernel
  have updated : utf8 ",\"updated_at\":" = 0x2c :: 0x22 :: escaped (utf8 "updated_at") ++ [0x22, 0x3a] := by decide +kernel
  have close : utf8 "\x7d" = [0x7d] := by decide
  rw [profileBody, head, welcome, modelId, version, ids, created, updated, close]
  simp only [profileFields, onboardingFields, record, written, writtenFields, List.map_cons, List.map_nil, quoted_eq,
    quoted_or_null_eq, if_true, if_false, Bool.false_eq_true, List.append_assoc, List.cons_append, List.nil_append,
    List.append_nil]

theorem profile_writable {p : Profile} (clean : Clean p) : Writable (record (profileFields p)) := by
  apply record_writable
  intro field inside
  simp only [profileFields, List.mem_cons, List.not_mem_nil, or_false] at inside
  rcases inside with rfl | rfl | rfl | rfl | rfl
  · exact ⟨by simp only; decide, printable_writable _ (integer_printable false (by decide))⟩
  · exact ⟨by simp only; decide, clean.name⟩
  · refine ⟨by simp only; decide, ?_⟩
    apply record_writable
    intro field inside
    simp only [onboardingFields, List.mem_cons, List.not_mem_nil, or_false] at inside
    rcases inside with rfl | rfl | rfl | rfl | rfl
    · exact ⟨by simp only; decide, or_null_writable clean.welcome⟩
    · exact ⟨by simp only; decide, or_null_writable clean.modelId⟩
    · exact ⟨by simp only; decide, or_null_writable clean.version⟩
    · exact ⟨by simp only; decide, trivial⟩
    · exact ⟨by simp only; decide, trivial⟩
  · exact ⟨by simp only; decide, clean.created⟩
  · exact ⟨by simp only; decide, clean.updated⟩

theorem profile_of_fields (p : Profile) : profileOf (record (profileFields p)) = p := by
  have onboarding : (jsonGet (record (profileFields p)) (utf8 "onboarding")).getD .null = record (onboardingFields p) := by
    rw [get_record]
    rfl
  have name : copied 257 (record (profileFields p)) "name" = p.name := copied_str rfl
  have created : copied 32 (record (profileFields p)) "created_at" = p.createdAt := copied_str rfl
  have updated : copied 32 (record (profileFields p)) "updated_at" = p.updatedAt := copied_str rfl
  have welcome : copied 32 (record (onboardingFields p)) "welcome_completed_at" = p.welcomeCompletedAt :=
    copied_or_null rfl
  have modelId : copied 64 (record (onboardingFields p)) "selected_model_id" = p.selectedModelId := copied_or_null rfl
  have version : copied 128 (record (onboardingFields p)) "selected_model_version" = p.selectedModelVersion :=
    copied_or_null rfl
  rw [profileOf, onboarding, name, created, updated, welcome, modelId, version]

theorem read_profile_text {p : Profile} (clean : Clean p) : readProfile (profileText p) = some p := by
  have read : parsed (profileText p) = some (record (profileFields p)) := by
    rw [profileText, profile_body_eq]
    exact parse_object (profile_writable clean) (by decide)
  rw [readProfile, read]
  exact congrArg some (profile_of_fields p)

theorem quoted_or_null_length {cap : Nat} (buffer : Buffer cap) : (quotedOrNull buffer).length ≤ 6 * buffer.text.length + 4 := by
  unfold quotedOrNull
  split
  · exact Nat.le_add_left 4 _
  · have most := quoted_length buffer.text
    omega

theorem profile_text_small (p : Profile) : (profileText p).length ≤ profileMax := by
  have name := quoted_length p.name.text
  have welcome := quoted_or_null_length p.welcomeCompletedAt
  have modelId := quoted_or_null_length p.selectedModelId
  have version := quoted_or_null_length p.selectedModelVersion
  have created := quoted_length p.createdAt.text
  have updated := quoted_length p.updatedAt.text
  have name_ := p.name.fits
  have welcome_ := p.welcomeCompletedAt.fits
  have modelId_ := p.selectedModelId.fits
  have version_ := p.selectedModelVersion.fits
  have created_ := p.createdAt.fits
  have updated_ := p.updatedAt.fits
  have literals : (utf8 "\x7b\"schema_version\":1,\"name\":").length +
      (utf8 ",\"onboarding\":\x7b\"welcome_completed_at\":").length + (utf8 ",\"selected_model_id\":").length +
      (utf8 ",\"selected_model_version\":").length +
      (utf8 ",\"active_install_job_id\":null,\"active_selection_operation_id\":null\x7d").length +
      (utf8 ",\"created_at\":").length + (utf8 ",\"updated_at\":").length + (utf8 "\x7d").length < 1000 := by decide
  simp only [profileText, profileBody, List.length_append, List.length_singleton, profileMax]
  omega

end Stored

end SamosaChat.Setup
