import SamosaChat.Html.Delivered

set_option autoImplicit false

namespace SamosaChat.Html

open Utf8 Text

-- What the caller's SamosaHtmlResult holds: a text that is none is NULL.
structure HtmlOut where
  text : Option Bytes := none
  title : Option Bytes := none
  textBytes : Nat := 0
  textChars : Nat := 0

def returned (result : SamosaHtmlResult) : HtmlOut where
  text := some result.text
  title := some result.title
  textBytes := result.textBytes
  textChars := result.textChars

-- What the call returns, what it leaves in the caller's result, and the error it names.
def samosaHtmlExtractInto (heap : Heap) (data : Bytes) (maxTextBytes : Nat) (out : Option HtmlOut) :
    Bool × Option HtmlOut × Option HtmlError :=
  match out with
  | none => (false, none, some .htmlOutputLimit)
  | some kept =>
    if maxTextBytes = 0 then (false, some kept, some .htmlOutputLimit)
    else
      match samosaHtmlExtract heap data maxTextBytes with
      | .error error => (false, some {}, some error)
      | .ok result => (true, some (returned result), none)

-- No white space at either end, and none beside white space.
structure Tidy (text : Bytes) : Prop where
  first : ∀ c ∈ text.head?, asciiSpace c = false
  last : ∀ c ∈ text.getLast?, asciiSpace c = false
  between : text.IsChain fun a b => ¬(asciiSpace a = true ∧ asciiSpace b = true)

structure WellFormed (maxTextBytes : Nat) (result : SamosaHtmlResult) : Prop where
  textValid : Valid result.text
  titleValid : Valid result.title
  textSize : result.textBytes = result.text.length ∧ result.textBytes ≤ maxTextBytes
  titleSize : result.title.length ≤ htmlTitleMaxBytes
  textTidy : Tidy result.text
  titleTidy : Tidy result.title
  chars : ∃ codes, (∀ code ∈ codes, Scalar code) ∧ encode codes = result.text ∧ result.textChars = codes.length

def NothingReturned (before after : Option HtmlOut) : Prop :=
  after = before ∨ after = some {}

def body (data : Bytes) : Bytes :=
  if [0xef, 0xbb, 0xbf].isPrefixOf data then data.drop 3 else data

def nowhere : Extraction where
  text := { limit := 0 }
  title := { limit := 0 }

def wholeTitle (data : Bytes) : Bytes :=
  delivered (side true) (body data).length nowhere (body data)

def wholeText (data : Bytes) : Bytes :=
  delivered (side false) (body data).length nowhere (body data)

def TitleCutsClean (data : Bytes) : Prop :=
  ∀ c ∈ (wholeTitle data)[htmlTitleMaxBytes]?, isTail c = false

variable {c : UInt8} {data text wide : Bytes} {heap : Heap}

theorem space_ascii (space : asciiSpace c = true) : c.toNat < 0x80 := by
  revert c
  exact fun {c} => every_byte (p := fun c => asciiSpace c = true → c.toNat < 0x80) (by decide +kernel) c

def separator (started : Bool) : Option Bool → Bytes
  | some newline => if started then [if newline then 0x0a else 0x20] else []
  | none => []

theorem normalize_space (space : asciiSpace c = true) (started : Bool) (pending : Option Bool) (rest : Bytes) :
    normalizeFrom started pending (c :: rest) =
      normalizeFrom started (some (pending.getD false || c == 0x0a || c == 0x0d)) rest := by
  rw [normalizeFrom.eq_def]
  exact if_pos space

theorem normalize_plain (plain : ¬asciiSpace c = true) (started : Bool) (pending : Option Bool) (rest : Bytes) :
    normalizeFrom started pending (c :: rest) = separator started pending ++ c :: normalizeFrom true none rest := by
  rw [normalizeFrom.eq_def]
  refine (if_neg plain).trans ?_
  cases pending <;> rfl

theorem normalize_spaced (text : Bytes) (started : Bool) (pending : Option Bool) :
    (∀ c ∈ (normalizeFrom started pending text).getLast?, asciiSpace c = false) ∧
      (normalizeFrom started pending text).IsChain fun a b => ¬(asciiSpace a = true ∧ asciiSpace b = true) := by
  induction text generalizing started pending with
  | nil =>
    refine ⟨fun c inside => ?_, .nil⟩
    cases inside
  | cons c rest ih =>
    by_cases space : asciiSpace c = true
    · rw [normalize_space space]
      exact ih _ _
    · rw [normalize_plain space]
      obtain ⟨last, between⟩ := ih true none
      have last' : ∀ d ∈ (c :: normalizeFrom true none rest).getLast?, asciiSpace d = false := by
        intro d inside
        cases more : normalizeFrom true none rest with
        | nil =>
          rw [more] at inside
          cases inside
          simpa using space
        | cons e others =>
          rw [more, List.getLast?_cons_cons] at inside
          exact last d (by rw [more]; exact inside)
      have between' : (c :: normalizeFrom true none rest).IsChain fun a b => ¬(asciiSpace a = true ∧ asciiSpace b = true) := by
        cases more : normalizeFrom true none rest with
        | nil => exact .singleton c
        | cons e others => exact .cons_cons (fun both => space both.1) (more ▸ between)
      cases pending with
      | none => exact ⟨last', between'⟩
      | some newline =>
        cases started with
        | false => exact ⟨last', between'⟩
        | true =>
          refine ⟨fun d inside => last' d ?_, .cons_cons (fun both => space both.2) between'⟩
          rwa [separator, if_pos rfl, List.singleton_append, List.getLast?_cons_cons] at inside

theorem normalize_first (text : Bytes) (pending : Option Bool) :
    ∀ c ∈ (normalizeFrom false pending text).head?, asciiSpace c = false := by
  induction text generalizing pending with
  | nil =>
    intro c inside
    cases inside
  | cons c rest ih =>
    intro d inside
    by_cases space : asciiSpace c = true
    · rw [normalize_space space] at inside
      exact ih _ d inside
    · rw [normalize_plain space] at inside
      have first : d = c := by
        cases pending with
        | none => exact (Option.some.inj inside).symm
        | some newline => exact (Option.some.inj inside).symm
      rw [first]
      simpa using space

theorem normalize_length (text : Bytes) (started : Bool) (pending : Option Bool) :
    (normalizeFrom started pending text).length ≤ text.length + if pending.isSome then 1 else 0 := by
  induction text generalizing started pending with
  | nil => exact Nat.zero_le _
  | cons c rest ih =>
    by_cases space : asciiSpace c = true
    · have later := ih started (some (pending.getD false || c == 0x0a || c == 0x0d))
      rw [normalize_space space, List.length_cons]
      rw [Option.isSome_some, if_pos rfl] at later
      split_ifs <;> omega
    · have later := ih true none
      have sign : (separator started pending).length ≤ if pending.isSome then 1 else 0 := by
        cases pending with
        | none => exact Nat.le_refl _
        | some newline => cases started <;> decide +revert
      rw [normalize_plain space, List.length_append, List.length_cons, List.length_cons]
      rw [Option.isSome_none, if_neg (by decide)] at later
      omega

theorem valid_around {first second : Bytes} (ascii : c.toNat < 0x80) :
    Valid (first ++ c :: second) ↔ Valid first ∧ Valid second := by
  have one : Valid [c] := ascii_valid (by simpa using ascii)
  constructor
  · intro valid
    obtain ⟨left, right⟩ := valid_cut_after valid ascii
    refine ⟨(valid_cut left fun d inside => ?_).1, right⟩
    exact valid_head one d inside
  · rintro ⟨left, right⟩
    have both : Valid ([c] ++ second) := valid_append one right
    exact valid_append left both

theorem valid_behind (ascii : c.toNat < 0x80) : Valid (c :: text) ↔ Valid text := by
  have around : Valid ([] ++ c :: text) ↔ Valid [] ∧ Valid text := valid_around ascii
  exact around.trans (and_iff_right valid_nil)

theorem normalize_words (text : Bytes) : (∀ before, Valid (before ++ normalizeFrom true none text) ↔ Valid (before ++ text)) ∧
      ∀ before newline, Valid (before ++ normalizeFrom true (some newline) text) ↔ Valid before ∧ Valid text := by
  induction text with
  | nil =>
    refine ⟨fun before => Iff.rfl, fun before newline => ?_⟩
    rw [normalizeFrom, List.append_nil]
    exact (and_iff_left valid_nil).symm
  | cons c rest ih =>
    by_cases space : asciiSpace c = true
    · have ascii := space_ascii space
      refine ⟨fun before => ?_, fun before newline => ?_⟩
      · rw [normalize_space space, ih.2, valid_around ascii]
      · rw [normalize_space space, ih.2, valid_behind ascii]
    · refine ⟨fun before => ?_, fun before newline => ?_⟩
      · rw [normalize_plain space]
        have later := ih.1 (before ++ [c])
        rwa [List.append_assoc, List.append_assoc, List.singleton_append, List.singleton_append] at later
      · have sign : (if newline then (0x0a : UInt8) else 0x20).toNat < 0x80 := by cases newline <;> decide
        rw [normalize_plain space]
        have later := ih.1 (before ++ (if newline then (0x0a : UInt8) else 0x20) :: [c])
        simp only [List.append_assoc, List.cons_append, List.nil_append] at later
        exact later.trans (valid_around sign)

theorem normalize_leading (text : Bytes) (pending : Option Bool) : Valid (normalizeFrom false pending text) ↔ Valid text := by
  induction text generalizing pending with
  | nil => exact Iff.rfl
  | cons c rest ih =>
    by_cases space : asciiSpace c = true
    · rw [normalize_space space, ih, valid_behind (space_ascii space)]
    · rw [normalize_plain space]
      have words := (normalize_words rest).1 [c]
      cases pending with
      | none => exact words
      | some newline => exact words

theorem normalize_valid (clean : (0 : UInt8) ∉ text) : Valid (normalizeWhitespace text) ↔ Valid text := by
  rw [normalizeWhitespace, cstr_self clean]
  exact normalize_leading text none

theorem normalize_tidy (text : Bytes) : Tidy (normalizeWhitespace text) := by
  obtain ⟨last, between⟩ := normalize_spaced (cstr text) false none
  exact ⟨normalize_first (cstr text) none, last, between⟩

theorem normalize_shorter (clean : (0 : UInt8) ∉ text) : (normalizeWhitespace text).length ≤ text.length := by
  rw [normalizeWhitespace, cstr_self clean]
  exact normalize_length text false none

theorem normalize_clean (text : Bytes) (clean : (0 : UInt8) ∉ text) (started : Bool) (pending : Option Bool) :
    (0 : UInt8) ∉ normalizeFrom started pending text := by
  induction text generalizing started pending with
  | nil => exact List.not_mem_nil
  | cons c rest ih =>
    rw [List.mem_cons, not_or] at clean
    by_cases space : asciiSpace c = true
    · rw [normalize_space space]
      exact ih clean.2 _ _
    · have sign : (0 : UInt8) ∉ separator started pending := by
        cases pending with
        | none => exact List.not_mem_nil
        | some newline => cases started <;> cases newline <;> decide
      rw [normalize_plain space, List.mem_append, List.mem_cons]
      exact not_or.mpr ⟨sign, not_or.mpr ⟨clean.1, ih clean.2 _ _⟩⟩

theorem sequence_lead {code : Nat} (scalar : Scalar code) : ((Utf8.sequence code).filter fun c => !isTail c).length = 1 := by
  have tails := sequence_tails code
  have first := valid_head (valid_sequence scalar)
  cases shape : Utf8.sequence code with
  | nil => exact absurd shape (sequence_ne_nil code)
  | cons c rest =>
    rw [shape] at tails first
    have none_ : rest.filter (fun c => !isTail c) = [] := by
      refine List.filter_eq_nil_iff.mpr fun d inside => ?_
      rw [tails d inside]
      decide
    rw [List.filter_cons_of_pos (by rw [first c rfl]; rfl), none_]
    rfl

theorem count_leads {codes : List Nat} (scalars : ∀ code ∈ codes, Scalar code) :
    ((encode codes).filter fun c => !isTail c).length = codes.length := by
  induction codes with
  | nil => rfl
  | cons code codes ih =>
    rw [encode_cons, List.filter_append, List.length_append, sequence_lead (scalars code List.mem_cons_self),
      ih fun other inside => scalars other (List.mem_cons_of_mem _ inside), List.length_cons, Nat.add_comm]

theorem utf8_chars_encode {codes : List Nat} (scalars : ∀ code ∈ codes, Scalar code) (clean : (0 : UInt8) ∉ encode codes) :
    utf8Chars (encode codes) = codes.length := by
  have same : (fun c : UInt8 => c &&& 0xc0 != 0x80) = fun c => !isTail c := by
    funext c
    rw [← tail_bits c]
    rfl
  rw [utf8Chars, cstr_self clean, same, count_leads scalars]

theorem bom_valid : Valid [0xef, 0xbb, 0xbf] :=
  ⟨[0xfeff], by decide, by decide⟩

theorem body_fine (accepted : samosaHtmlTextValid data = .ok ()) : Fine (body data) := by
  obtain ⟨_, valid, plain⟩ := (text_valid_iff data).mp accepted
  have clean : (0 : UInt8) ∉ data := fun inside => absurd (plain 0 inside) (by decide)
  unfold body
  by_cases mark : [0xef, 0xbb, 0xbf].isPrefixOf data = true
  · rw [if_pos mark]
    obtain ⟨rest, rfl⟩ := List.isPrefixOf_iff_prefix.mp mark
    exact ⟨valid_rest valid bom_valid, fun inside => clean (List.mem_of_mem_drop inside)⟩
  · rw [if_neg mark]
    exact ⟨valid, clean⟩

theorem whole_fine (title : Bool) (accepted : samosaHtmlTextValid data = .ok ()) :
    Fine (delivered (side title) (body data).length nowhere (body data)) :=
  delivered_fine title _ nowhere _ (Nat.le_refl _) (body_fine accepted)

theorem settle_data {state state' : Extraction} (settles : settle heap state = .ok state') :
    state'.text.data = state.text.data ∧ state'.title.data = state.title.data := by
  have text {middle : Extraction} (settles : settleText heap state = .ok middle) :
      middle.text.data = state.text.data ∧ middle.title = state.title := by
    unfold settleText putText at settles
    split_ifs at settles
    · split at settles
      · rename_i after puts
        cases settles
        exact ⟨(buffer_put_ok puts).trans (List.append_nil _), rfl⟩
      · cases settles
    · cases settles
      exact ⟨rfl, rfl⟩
  have title {middle : Extraction} (settles : settleTitle heap middle = .ok state') :
      state'.text = middle.text ∧ state'.title.data = middle.title.data := by
    unfold settleTitle at settles
    split_ifs at settles
    · split at settles
      · rename_i after puts
        cases settles
        exact ⟨rfl, (buffer_put_ok puts).trans (List.append_nil _)⟩
      · cases settles
    · cases settles
      exact ⟨rfl, rfl⟩
  cases first : settleText heap state with
  | error error =>
    rw [settle, first] at settles
    cases settles
  | ok middle =>
    rw [settle, first] at settles
    obtain ⟨textSame, titleSame⟩ := text first
    obtain ⟨textSame', titleSame'⟩ := title settles
    exact ⟨by rw [textSame', textSame], by rw [titleSame', titleSame]⟩

theorem extract_some {maxTextBytes : Nat} {result : SamosaHtmlResult}
    (extracts : samosaHtmlExtract heap data maxTextBytes = .ok result) :
    samosaHtmlTextValid data = .ok () ∧ (wholeText data).length ≤ maxTextBytes ∧
      result.text = normalizeWhitespace (wholeText data) ∧
      result.title = normalizeWhitespace ((wholeTitle data).take htmlTitleMaxBytes) ∧
      result.textBytes = result.text.length ∧ result.textChars = utf8Chars result.text := by
  unfold samosaHtmlExtract at extracts
  obtain ⟨nothing, extracts⟩ := past_guard extracts nofun
  cases accepted : samosaHtmlTextValid data with
  | error error =>
    rw [accepted] at extracts
    cases extracts
  | ok accepts =>
    rw [accepted] at extracts
    change (extractLoop heap (body data).length { text := { limit := maxTextBytes }, title := { limit := htmlTitleMaxBytes } }
      (body data) >>= _) = _ at extracts
    cases ends : extractLoop heap (body data).length
        { text := { limit := maxTextBytes }, title := { limit := htmlTitleMaxBytes } } (body data) with
    | error error =>
      rw [ends] at extracts
      cases extracts
    | ok state =>
      rw [ends] at extracts
      change (settle heap state >>= _) = _ at extracts
      cases settles : settle heap state with
      | error error =>
        rw [settles] at extracts
        cases extracts
      | ok settled =>
        rw [settles] at extracts
        cases extracts
        obtain ⟨text, title⟩ := settle_data settles
        obtain ⟨textData, titleData, within, _⟩ := extract_loop_adds heap _ (Nat.zero_le _) (Nat.zero_le _) ends
        have place : emptied { text := { limit := maxTextBytes }, title := { limit := htmlTitleMaxBytes } } =
            emptied nowhere := rfl
        have whole (side_ : Bool) := delivered_place (side side_) place (body data).length (body data)
        rw [whole, List.nil_append] at textData titleData
        have textSame : settled.text.data = wholeText data := text.trans textData
        have titleSame : settled.title.data = (wholeTitle data).take htmlTitleMaxBytes := title.trans titleData
        refine ⟨rfl, ?_, ?_, ?_, rfl, rfl⟩
        · rw [textData] at within
          exact within
        · dsimp only
          rw [textSame]
        · dsimp only
          rw [titleSame]

theorem valid_take_iff (valid : Valid text) (n : Nat) : Valid (text.take n) ↔ ∀ c ∈ text[n]?, isTail c = false := by
  have whole : Valid (text.take n ++ text.drop n) := by rwa [List.take_append_drop]
  rw [← List.head?_drop]
  exact ⟨fun left => valid_head (valid_rest whole left), fun stop => (valid_cut whole stop).1⟩

-- A result is well formed if and only if the ceiling of the title does not fall inside a character.
theorem extract_well_formed {maxTextBytes : Nat} {result : SamosaHtmlResult}
    (extracts : samosaHtmlExtract heap data maxTextBytes = .ok result) : WellFormed maxTextBytes result ↔ TitleCutsClean data := by
  obtain ⟨accepted, within, text, title, bytes, chars⟩ := extract_some extracts
  obtain ⟨textValid, textClean⟩ : Fine (wholeText data) := whole_fine false accepted
  obtain ⟨titleValid, titleClean⟩ : Fine (wholeTitle data) := whole_fine true accepted
  have cutClean : (0 : UInt8) ∉ (wholeTitle data).take htmlTitleMaxBytes := fun inside => titleClean (List.mem_of_mem_take inside)
  have valid : Valid result.title ↔ TitleCutsClean data := by
    rw [title, normalize_valid cutClean, valid_take_iff titleValid]
    rfl
  constructor
  · intro formed
    exact valid.mp formed.titleValid
  · intro cut
    have normal : Valid result.text := by rw [text, normalize_valid textClean]; exact textValid
    have clean : (0 : UInt8) ∉ result.text := by
      rw [text, normalizeWhitespace]
      exact normalize_clean _ (cstr_text _) _ _
    refine ⟨normal, valid.mpr cut, ⟨bytes, ?_⟩, ?_, text ▸ normalize_tidy _, title ▸ normalize_tidy _, ?_⟩
    · have shorter := normalize_shorter textClean
      rw [bytes, text]
      omega
    · have shorter := normalize_shorter cutClean
      rw [List.length_take] at shorter
      rw [title]
      omega
    · obtain ⟨codes, scalars, whole⟩ := normal
      refine ⟨codes, scalars, whole, ?_⟩
      rw [← whole] at clean chars
      rw [chars, utf8_chars_encode scalars clean]

theorem html_extract_output (heap : Heap) (data : Bytes) (maxTextBytes : Nat) (out : Option HtmlOut) :
    (∀ after error, samosaHtmlExtractInto heap data maxTextBytes out = (false, after, error) →
      NothingReturned out after ∧ error.isSome) ∧
    ∀ after error, samosaHtmlExtractInto heap data maxTextBytes out = (true, after, error) →
      ∃ result, after = some (returned result) ∧ (WellFormed maxTextBytes result ↔ TitleCutsClean data) := by
  unfold samosaHtmlExtractInto
  cases out with
  | none =>
    refine ⟨fun after error fails => ?_, fun after error succeeds => ?_⟩
    · cases fails
      exact ⟨.inl rfl, rfl⟩
    · cases succeeds
  | some kept =>
    dsimp only
    by_cases nothing : maxTextBytes = 0
    · rw [if_pos nothing]
      refine ⟨fun after error fails => ?_, fun after error succeeds => ?_⟩
      · cases fails
        exact ⟨.inl rfl, rfl⟩
      · cases succeeds
    · rw [if_neg nothing]
      cases extracts : samosaHtmlExtract heap data maxTextBytes with
      | error error =>
        refine ⟨fun after error' fails => ?_, fun after error' succeeds => ?_⟩
        · cases fails
          exact ⟨.inr rfl, rfl⟩
        · cases succeeds
      | ok result =>
        refine ⟨fun after error fails => ?_, fun after error succeeds => ?_⟩
        · cases fails
        · cases succeeds
          exact ⟨result, rfl, extract_well_formed extracts⟩

theorem title_put_plenty {grants : Nat → Bool} (all : ∀ size, grants size = true) (buffer : HtmlBuffer) (text : Bytes) :
    ∃ after, titlePutn grants buffer text = (true, after) := by
  unfold titlePutn
  by_cases full : buffer.data.length ≥ buffer.limit
  · exact ⟨buffer, if_pos full⟩
  · rw [if_neg full]
    obtain ⟨after, done, _⟩ := @buffer_put_plenty buffer (text.take (buffer.limit - buffer.data.length)) grants all
      (by rw [List.length_take]; omega)
    exact ⟨after, done⟩

theorem wide_loop_plenty (rounds : Nat) :
    ∀ {state : Extraction} {wide : Bytes}, state.inTitle = true → state.skip = [] → (∀ c ∈ wide, 0x80 ≤ c.toNat) →
      ∃ state', extractLoop plenty rounds state wide = .ok state' := by
  induction rounds with
  | zero =>
    intro state wide _ _ _
    cases wide <;> exact ⟨state, rfl⟩
  | succ rounds ih =>
    intro state wide inTitle skip high
    cases wide with
    | nil => exact ⟨state, rfl⟩
    | cons c rest =>
      have plain : c ≠ 0x3c ∧ c ≠ 0x26 := by
        have wide := high c List.mem_cons_self
        constructor <;>
          rintro rfl <;>
          exact absurd wide (by decide)
      obtain ⟨buffer, done⟩ := @title_put_plenty plenty.title (fun _ => rfl) state.title [c]
      have round : extractOne plenty state c rest = .ok ({ state with title := buffer }, rest) := by
        unfold extractOne
        rw [if_neg plain.1, if_neg plain.2, if_neg (by simp [skip, inTitle])]
        dsimp only
        rw [Html.put, if_pos inTitle, putTitle, done]
        rfl
      rw [extractLoop, round]
      exact ih inTitle skip fun d inside => high d (List.mem_cons_of_mem _ inside)

theorem settle_plenty {state : Extraction} (within : state.text.data.length ≤ state.text.limit)
    (inside : state.title.data.length ≤ state.title.limit) : ∃ state', settle plenty state = .ok state' := by
  have text : ∃ middle, settleText plenty state = .ok middle ∧ middle.title = state.title := by
    obtain ⟨buffer, done, _⟩ := @buffer_put_plenty state.text [] plenty.text (fun _ => rfl) (by simpa using within)
    unfold settleText putText
    rw [done]
    split_ifs
    · exact ⟨_, rfl, rfl⟩
    · exact ⟨state, rfl, rfl⟩
  obtain ⟨middle, first, same⟩ := text
  obtain ⟨buffer, done, _⟩ := @buffer_put_plenty state.title [] plenty.title (fun _ => rfl) (by simpa using inside)
  rw [settle, first]
  change ∃ state', settleTitle plenty middle = .ok state'
  rw [settleTitle, same, done]
  split_ifs
  · exact ⟨_, rfl⟩
  · exact ⟨middle, rfl⟩

def titled (title : Bytes) : Bytes :=
  utf8 "<title>" ++ title

theorem title_opens (text title : HtmlBuffer) (rest : Bytes) :
    extractOne plenty { text := text, title := title } 0x3c (utf8 "title>" ++ rest) =
      .ok ({ text := text, title := title, inTitle := true }, rest) := rfl

theorem titled_split (title : Bytes) : titled title = 0x3c :: (utf8 "title>" ++ title) ∧ body (titled title) = titled title :=
  ⟨rfl, rfl⟩

theorem titled_whole (high : ∀ c ∈ wide, 0x80 ≤ c.toNat) : wholeTitle (titled wide) = wide := by
  obtain ⟨split, plain⟩ := titled_split wide
  have round : extractOne plenty (emptied nowhere) 0x3c (utf8 "title>" ++ wide) =
      .ok ({ emptied nowhere with inTitle := true }, wide) := title_opens _ _ _
  have size : (utf8 "title>" ++ wide).length = wide.length + 6 := by
    rw [List.length_append, Nat.add_comm]
    rfl
  have shown := delivered_wide true { emptied nowhere with inTitle := true } high 6 []
  rw [List.append_nil] at shown
  rw [wholeTitle, plain, split, List.length_cons, size, delivered, round]
  exact shown.trans (List.append_nil _)

theorem titled_accepted (valid : Valid wide) (plain : ∀ c ∈ wide, binaryControl c = false) :
    samosaHtmlTextValid (titled wide) = .ok () := by
  have tag : ∀ c ∈ utf8 "<title>", c.toNat < 0x80 ∧ binaryControl c = false := by decide
  refine (text_valid_iff _).mpr ⟨by rw [(titled_split wide).1]; exact List.cons_ne_nil _ _, ?_, fun c inside => ?_⟩
  · exact valid_append (ascii_valid fun c inside => (tag c inside).1) valid
  · rcases List.mem_append.mp inside with front | back
    · exact (tag c front).2
    · exact plain c back

theorem titled_extracts (high : ∀ c ∈ wide, 0x80 ≤ c.toNat) (valid : Valid wide)
    (plain : ∀ c ∈ wide, binaryControl c = false) : ∃ result, samosaHtmlExtract plenty (titled wide) 65536 = .ok result := by
  obtain ⟨split, same⟩ := titled_split wide
  have loop : ∃ state, extractLoop plenty (titled wide).length
      { text := { limit := 65536 }, title := { limit := htmlTitleMaxBytes } } (titled wide) = .ok state := by
    rw [split, List.length_cons, extractLoop, title_opens]
    exact wide_loop_plenty _ rfl rfl high
  obtain ⟨state, ends⟩ := loop
  obtain ⟨_, title, within, textLimit, titleLimit⟩ := extract_loop_adds plenty _ (Nat.zero_le _) (Nat.zero_le _) ends
  obtain ⟨settled, settles⟩ := @settle_plenty state (by rw [textLimit]; exact within)
    (by rw [titleLimit, title, List.length_take]; exact Nat.min_le_left _ _)
  unfold samosaHtmlExtract
  rw [if_neg (by decide), titled_accepted valid plain]
  change ∃ result, (extractLoop plenty (body (titled wide)).length
    { text := { limit := 65536 }, title := { limit := htmlTitleMaxBytes } } (body (titled wide)) >>= _) = _
  rw [same, ends]
  change ∃ result, (settle plenty state >>= _) = _
  rw [settles]
  exact ⟨_, rfl⟩

def euros (n : Nat) : Bytes :=
  encode (List.replicate n 0x20ac)

theorem euro_bytes : Utf8.sequence 0x20ac = [0xe2, 0x82, 0xac] := by
  decide

theorem euros_bytes (n : Nat) : ∀ c ∈ euros n, 0x80 ≤ c.toNat ∧ binaryControl c = false := by
  intro c inside
  obtain ⟨code, here, byte⟩ := List.mem_flatMap.mp inside
  rw [List.eq_of_mem_replicate here, euro_bytes] at byte
  have all : ∀ c ∈ [0xe2, 0x82, 0xac], 0x80 ≤ c.toNat ∧ binaryControl c = false := by decide
  exact all c byte

theorem euros_length (n : Nat) : (euros n).length = 3 * n := by
  induction n with
  | zero => rfl
  | succ n ih =>
    rw [euros, List.replicate_succ, encode_cons, List.length_append, euro_bytes]
    rw [euros] at ih
    rw [ih]
    exact (Nat.add_comm 3 _).trans (Nat.mul_succ 3 n).symm

theorem euros_valid (n : Nat) : Valid (euros n) := by
  refine ⟨_, fun code inside => ?_, rfl⟩
  rw [List.eq_of_mem_replicate inside]
  decide

theorem euros_last (n : Nat) : (euros (n + 1))[3 * n + 1]? = some 0x82 := by
  have last : euros (n + 1) = euros n ++ Utf8.sequence 0x20ac := by
    rw [euros, List.replicate_succ', encode_append]
    rfl
  rw [last, List.getElem?_append_right (by rw [euros_length]; omega), euros_length, Nat.add_sub_cancel_left, euro_bytes]
  rfl

-- A title of 4098 bytes: its 4096 end with the first byte of a sequence of three.
theorem title_cut :
    ∃ result, samosaHtmlExtractInto plenty (titled (euros 1366)) 65536 (some {}) = (true, some (returned result), none) ∧
      ¬WellFormed 65536 result := by
  have high : ∀ c ∈ euros 1366, 0x80 ≤ c.toNat := fun c inside => (euros_bytes _ c inside).1
  obtain ⟨result, extracts⟩ := titled_extracts high (euros_valid _) fun c inside => (euros_bytes _ c inside).2
  refine ⟨result, ?_, fun formed => ?_⟩
  · unfold samosaHtmlExtractInto
    dsimp only
    rw [if_neg (by decide), extracts]
  · have cut := (extract_well_formed extracts).mp formed
    have inside : (wholeTitle (titled (euros 1366)))[htmlTitleMaxBytes]? = some 0x82 := by
      rw [titled_whole high]
      exact euros_last 1365
    exact absurd (cut 0x82 inside) (by decide)

-- Any bytes are extracted as their repaired text is, and a valid text as it is without repairs.
theorem replacing_well_formed {maxTextBytes : Nat} {result : SamosaHtmlResult}
    (extracts : samosaHtmlExtractReplacingInvalid heap data maxTextBytes = .ok result) :
    (WellFormed maxTextBytes result ↔ TitleCutsClean (repaired data.length data)) ∧
      (samosaHtmlTextValid data = .ok () → samosaHtmlExtract heap data maxTextBytes = .ok result) := by
  unfold samosaHtmlExtractReplacingInvalid at extracts
  split_ifs at extracts with large
  cases mended : repair heap.repaired data with
  | error error =>
    rw [mended] at extracts
    cases extracts
  | ok buffer =>
    rw [mended] at extracts
    dsimp only at extracts
    rw [repair_filled mended] at extracts
    refine ⟨extract_well_formed extracts, fun valid => ?_⟩
    obtain ⟨_, valid, plain⟩ := (text_valid_iff data).mp valid
    rwa [repaired_same _ data (Nat.le_refl _) valid plain] at extracts

theorem lone_lead_replaced : ∃ result, (WellFormed 64 result ↔ TitleCutsClean (repaired 2 [0x61, 0xc3])) ∧
    (samosaHtmlTextValid [0x61, 0xc3] = .ok () → samosaHtmlExtract plenty [0x61, 0xc3] 64 = .ok result) :=
  ⟨_, @replacing_well_formed [0x61, 0xc3] plenty 64 _ rfl⟩

end SamosaChat.Html
