import SamosaChat.Prompt.Sections

set_option autoImplicit false

namespace SamosaChat.Memory

open Utf8 Text Json Binary64 Prompt

def isText (value : Option Jval) (text : String) : Bool :=
  match value with
  | some (.str str) => str == utf8 text
  | _ => false

def isTrue (value : Option Jval) : Bool :=
  match value with
  | some (.bool boolean) => boolean
  | _ => false

def artifactKind (artifact : Jval) : Option Jval :=
  jsonGet artifact (utf8 "artifact_kind")

def contentOf (artifact : Jval) : Option Bytes :=
  match jsonGet artifact (utf8 "content") with
  | some (.str content) => some content
  | _ => none

def memoryCurrentArtifact (artifact : Jval) : Bool :=
  isText (jsonGet artifact (utf8 "freshness")) "current" && isText (jsonGet artifact (utf8 "status")) "active"

def chutniContentArtifact (item : Jval) : Bool :=
  ["extracted_text", "page_text", "ocr_text", "image_caption", "summary_short"].any (isText (artifactKind item))

def summarised (artifact : Jval) : Bool :=
  isText (artifactKind artifact) "summary_short" || isText (artifactKind artifact) "image_caption"

def literalText (other : Jval) : Bool :=
  memoryCurrentArtifact other && (contentOf other).any (· ≠ []) &&
    ["extracted_text", "page_text", "ocr_text"].any (isText (artifactKind other))

def memoryContentArtifact (artifact : Jval) (artifacts : List Jval) : Bool :=
  memoryCurrentArtifact artifact && chutniContentArtifact artifact &&
    !(summarised artifact && artifacts.any literalText)

def startPage (artifact : Jval) : Option Jval :=
  (jsonGet artifact (utf8 "selector")).bind (jsonGet · (utf8 "start"))

def samePage : Option Jval → Option Jval → Bool
  | none, none => true
  | some (.num page), some (.num prior) => sameNumber page prior
  | _, _ => false

def copies (artifacts : List Jval) (artifact : Jval) (text : Bytes) (prior : Jval) : Bool :=
  memoryContentArtifact prior artifacts && contentOf prior == some text && samePage (startPage artifact) (startPage prior)

def memoryUniqueContent (artifacts : List Jval) (index : Nat) (artifact : Jval) : Bool :=
  match contentOf artifact with
  | some text => memoryContentArtifact artifact artifacts && !(artifacts.take index).any (copies artifacts artifact text)
  | none => false

structure SourceContext where
  preview : Bytes := []
  pages : Nat := 0
  readable : Bool := false
  previewComplete : Bool := true
  previewLiteral : Bool := true
deriving DecidableEq

def pageCount (count : Option Jval) (pages : Nat) : Nat :=
  match count with
  | some (.num num) =>
    match natural num with
    | some n => if 0 < n ∧ n ≤ 10000 then n else pages
    | none => pages
  | _ => pages

def noteMetadata (note : Jval) (source : SourceContext) : SourceContext :=
  { source with
    pages := pageCount (jsonGet note (utf8 "page_count")) source.pages
    previewComplete := source.previewComplete && !isTrue (jsonGet note (utf8 "sampled")) &&
      !isTrue (jsonGet note (utf8 "needs_review")) }

def lineAfter (preview : Bytes) : Bytes :=
  if preview = [] then [] else [0x0a]

def truncated (artifact : Jval) : Bool :=
  isTrue (jsonGet artifact (utf8 "content_truncated"))

-- The sizes are of type size_t: a difference wraps.
def addPreview (limit : UInt64) (artifact : Jval) (content : Bytes) (source : SourceContext) : SourceContext :=
  let room := (limit - .ofNat source.preview.length).toNat
  { source with
    readable := true
    previewLiteral := source.previewLiteral && !summarised artifact
    previewComplete := source.previewComplete && !summarised artifact &&
      !(decide (content.length + (lineAfter source.preview).length > room) || truncated artifact)
    preview :=
      if source.preview.length < limit.toNat then
        let preview := source.preview ++ lineAfter source.preview
        preview ++ content.take (textUtf8Prefix content (limit - .ofNat preview.length).toNat)
      else source.preview }

def readMetadata (artifact : Jval) (content : Bytes) (source : SourceContext) : Except Stop SourceContext :=
  if isText (artifactKind artifact) "document_metadata" then
    (jsonParse content).map fun parsed => noteMetadata parsed.1 source
  else .ok source

def readContent (artifacts : List Jval) (limit : UInt64) (index : Nat) (artifact : Jval) (content : Bytes)
    (source : SourceContext) : SourceContext :=
  if memoryUniqueContent artifacts index artifact && content ≠ [] then addPreview limit artifact content source else source

def contextStep (artifacts : List Jval) (limit : UInt64) (index : Nat) (artifact : Jval) (source : SourceContext) :
    Except Stop SourceContext :=
  match artifactKind artifact, contentOf artifact with
  | some (.str _), some content =>
    if memoryCurrentArtifact artifact then
      (readMetadata artifact content source).map (readContent artifacts limit index artifact content)
    else .ok source
  | _, _ => .ok source

def contextLoop (artifacts : List Jval) (limit : UInt64) : Nat → List Jval → SourceContext → Except Stop SourceContext
  | _, [], source => .ok source
  | index, artifact :: rest, source =>
    match contextStep artifacts limit index artifact source with
    | .error stop => .error stop
    | .ok source => contextLoop artifacts limit (index + 1) rest source

def artifactsOf (context : Option Jval) : List Jval :=
  match context.bind (jsonGet · (utf8 "artifacts")) with
  | some (.arr kids) => kids
  | _ => []

def memorySourceContext (context : Option Jval) (limit : UInt64) : Except Stop SourceContext :=
  (contextLoop (artifactsOf context) limit 0 (artifactsOf context) {}).map fun source =>
    { source with previewComplete := source.previewComplete && source.readable }

def joinLines : List Bytes → Bytes
  | [] => []
  | [piece] => piece
  | piece :: next :: rest => piece ++ 0x0a :: joinLines (next :: rest)

theorem join_snoc {pieces : List Bytes} (some_ : pieces ≠ []) (piece : Bytes) :
    joinLines (pieces ++ [piece]) = joinLines pieces ++ 0x0a :: piece := by
  induction pieces with
  | nil => exact absurd rfl some_
  | cons first rest ih =>
    cases rest with
    | nil => rfl
    | cons second rest =>
      have later := ih (List.cons_ne_nil _ _)
      simp only [List.cons_append, joinLines, List.append_assoc] at later ⊢
      rw [later]

theorem join_some {pieces : List Bytes} (some_ : pieces ≠ []) (all : ∀ piece ∈ pieces, piece ≠ []) : joinLines pieces ≠ [] := by
  cases pieces with
  | nil => exact absurd rfl some_
  | cons first rest =>
    cases rest with
    | nil => exact all first List.mem_cons_self
    | cons second rest =>
      rw [joinLines]
      simp

def WholePrefix (piece content : Bytes) : Prop :=
  piece <+: content ∧ (piece = [] ∨ ∀ c ∈ content[piece.length]?, isTail c = false)

theorem prefix_whole (content : Bytes) (requested : Nat) :
    WholePrefix (content.take (textUtf8Prefix content requested)) content := by
  have size : (content.take (textUtf8Prefix content requested)).length = textUtf8Prefix content requested := by
    rw [List.length_take]
    exact Nat.min_eq_left (prefix_le content requested)
  refine ⟨List.take_prefix _ _, ?_⟩
  rw [size]
  unfold textUtf8Prefix
  split_ifs with short
  · rcases back_up_stop content requested with zero | stop
    · rw [zero]
      exact .inl rfl
    · refine .inr fun c inside => ?_
      rw [List.getD_eq_getElem?_getD, Option.mem_def.mp inside] at stop
      exact stop
  · refine .inr fun c inside => ?_
    rw [List.getElem?_eq_none (Nat.le_refl _)] at inside
    cases inside

def entryOf (artifacts : List Jval) (index : Nat) (artifact : Jval) : List (Jval × Bytes) :=
  match contentOf artifact with
  | some content => if memoryUniqueContent artifacts index artifact && content ≠ [] then [(artifact, content)] else []
  | none => []

def uniqueFrom (artifacts : List Jval) : Nat → List Jval → List (Jval × Bytes)
  | _, [] => []
  | index, artifact :: rest => entryOf artifacts index artifact ++ uniqueFrom artifacts (index + 1) rest

def uniqueContents (artifacts : List Jval) : List (Jval × Bytes) :=
  uniqueFrom artifacts 0 artifacts

structure Shows (limit : Nat) (read : List (Jval × Bytes)) (source : SourceContext) : Prop where
  within : source.preview.length ≤ limit
  pieces : ∃ chosen : List (Bytes × Bytes), (chosen.map Prod.fst).Sublist (read.map Prod.snd) ∧
    (∀ cut ∈ chosen, WholePrefix cut.2 cut.1) ∧ source.preview = joinLines (chosen.map Prod.snd) ∧
    (source.preview = [] → chosen = [])
  readable : source.readable = true ↔ read ≠ []
  complete : source.previewComplete = true → source.preview = joinLines (read.map Prod.snd) ∧
    ∀ shown ∈ read, summarised shown.1 = false ∧ truncated shown.1 = false
  some_ : ∀ shown ∈ read, shown.2 ≠ []

theorem shows_nothing (limit : Nat) : Shows limit [] {} where
  within := Nat.zero_le _
  pieces := ⟨[], .slnil, fun cut inside => (List.not_mem_nil inside).elim, rfl, fun _ => rfl⟩
  readable := by simp
  complete _ := ⟨rfl, fun shown inside => (List.not_mem_nil inside).elim⟩
  some_ shown inside := (List.not_mem_nil inside).elim

theorem room_eq {limit : UInt64} {n : Nat} (inside : n ≤ limit.toNat) : (limit - .ofNat n).toNat = limit.toNat - n := by
  have small : (UInt64.ofNat n).toNat = n := UInt64.toNat_ofNat_of_lt' (Nat.lt_of_le_of_lt inside limit.toNat_lt)
  rw [UInt64.toNat_sub_of_le _ _ (by rw [UInt64.le_iff_toNat_le, small]; exact inside), small]

variable {limit : UInt64} {read : List (Jval × Bytes)} {source : SourceContext}

theorem shows_noted (shows : Shows limit.toNat read source) (note : Jval) : Shows limit.toNat read (noteMetadata note source) where
  within := shows.within
  pieces := shows.pieces
  readable := shows.readable
  complete whole := by
    simp only [noteMetadata, Bool.and_eq_true] at whole
    exact shows.complete whole.1.1
  some_ := shows.some_

variable {artifact : Jval}

variable {artifacts : List Jval} {content : Bytes} {index : Nat}

theorem add_preview_room {artifact : Jval} {content : Bytes} (less : source.preview.length < limit.toNat) :
    ∃ piece, (addPreview limit artifact content source).preview = source.preview ++ lineAfter source.preview ++ piece ∧
      WholePrefix piece content ∧ (source.preview ++ lineAfter source.preview ++ piece).length ≤ limit.toNat ∧
      (source.preview.length + (lineAfter source.preview).length + content.length ≤ limit.toNat → piece = content) := by
  have line : (lineAfter source.preview).length ≤ 1 := by
    unfold lineAfter
    split_ifs <;> simp
  have size : (source.preview ++ lineAfter source.preview).length ≤ limit.toNat := by
    rw [List.length_append]
    omega
  refine ⟨content.take (textUtf8Prefix content (limit.toNat - (source.preview ++ lineAfter source.preview).length)), ?_,
    prefix_whole _ _, ?_, fun fits => ?_⟩
  · change (if source.preview.length < limit.toNat then _ else _) = _
    rw [if_pos less, room_eq size]
  · have most := prefix_within content (limit.toNat - (source.preview ++ lineAfter source.preview).length)
    rw [List.length_append, List.length_take]
    omega
  · rw [List.length_append, textUtf8Prefix, if_neg (by omega), List.take_length]

theorem add_preview_full (full : ¬source.preview.length < limit.toNat) :
    (addPreview limit artifact content source).preview = source.preview :=
  if_neg full

theorem add_preview_flag (within : source.preview.length ≤ limit.toNat)
    (whole : (addPreview limit artifact content source).previewComplete = true) :
    source.previewComplete = true ∧ summarised artifact = false ∧ truncated artifact = false ∧
      source.preview.length + (lineAfter source.preview).length + content.length ≤ limit.toNat := by
  simp only [addPreview, Bool.and_eq_true, Bool.not_eq_true', Bool.or_eq_false_iff, decide_eq_false_iff_not] at whole
  obtain ⟨⟨before, literal⟩, fits, kept⟩ := whole
  rw [room_eq within] at fits
  exact ⟨before, literal, kept, by omega⟩

theorem shows_added (shows : Shows limit.toNat read source) (artifact : Jval) (some_ : content ≠ []) :
    Shows limit.toNat (read ++ [(artifact, content)]) (addPreview limit artifact content source) := by
  have least := List.length_pos_iff.mpr some_
  obtain ⟨chosen, sublist, cuts, same, empty⟩ := shows.pieces
  have longer : (chosen.map Prod.fst).Sublist ((read ++ [(artifact, content)]).map Prod.snd) := by
    rw [List.map_append]
    exact sublist.trans (List.sublist_append_left _ _)
  have read_ : ∀ shown ∈ read ++ [(artifact, content)], shown.2 ≠ [] := by
    intro shown inside
    rcases List.mem_append.mp inside with early | last
    · exact shows.some_ shown early
    · rw [List.mem_singleton.mp last]
      exact some_
  refine ⟨?_, ?_, ⟨fun _ => by simp, fun _ => rfl⟩, fun whole => ?_, read_⟩
  · by_cases less : source.preview.length < limit.toNat
    · obtain ⟨piece, preview, _, within, _⟩ := @add_preview_room limit source artifact content less
      rw [preview]
      exact within
    · rw [add_preview_full less]
      exact shows.within
  · by_cases less : source.preview.length < limit.toNat
    · obtain ⟨piece, preview, cut, _, _⟩ := @add_preview_room limit source artifact content less
      rw [preview]
      by_cases first : source.preview = []
      · rw [first, lineAfter, if_pos rfl, List.nil_append, List.nil_append]
        by_cases nothing : piece = []
        · refine ⟨[], List.nil_sublist _, fun cut inside => (List.not_mem_nil inside).elim, nothing, fun _ => rfl⟩
        · refine ⟨[(content, piece)], ?_, ?_, rfl, fun none_ => absurd none_ nothing⟩
          · rw [List.map_append]
            exact List.sublist_append_right _ _
          · intro other inside
            rw [List.mem_singleton.mp inside]
            exact cut
      · have before : chosen.map Prod.snd ≠ [] := by
          intro none_
          rw [same, none_] at first
          exact first rfl
        refine ⟨chosen ++ [(content, piece)], ?_, ?_, ?_, fun none_ => ?_⟩
        · rw [List.map_append, List.map_append]
          exact List.Sublist.append sublist (List.Sublist.refl _)
        · intro other inside
          rcases List.mem_append.mp inside with early | last
          · exact cuts other early
          · rw [List.mem_singleton.mp last]
            exact cut
        · rw [List.map_append, List.map_singleton, join_snoc before, ← same, lineAfter, if_neg first, List.append_assoc]
          rfl
        · rw [List.append_assoc, List.append_eq_nil_iff] at none_
          exact absurd none_.1 first
    · rw [add_preview_full less]
      exact ⟨chosen, longer, cuts, same, empty⟩
  · obtain ⟨before, literal, kept, fits⟩ := add_preview_flag shows.within whole
    obtain ⟨joined, plain⟩ := shows.complete before
    obtain ⟨piece, preview, _, _, all⟩ := @add_preview_room limit source artifact content (by omega)
    refine ⟨?_, fun shown inside => ?_⟩
    · rw [preview, all fits, List.map_append, List.map_singleton]
      by_cases first : read = []
      · have none_ : source.preview = [] := by rw [joined, first]; rfl
        rw [none_, first, lineAfter, if_pos rfl]
        rfl
      · have earlier : read.map Prod.snd ≠ [] := fun none_ => first (List.map_eq_nil_iff.mp none_)
        have some' : source.preview ≠ [] := by
          rw [joined]
          refine join_some earlier fun piece inside => ?_
          obtain ⟨shown, here, rfl⟩ := List.mem_map.mp inside
          exact shows.some_ shown here
        rw [join_snoc earlier, ← joined, lineAfter, if_neg some', List.append_assoc]
        rfl
    · rcases List.mem_append.mp inside with early | last
      · exact plain shown early
      · rw [List.mem_singleton.mp last]
        exact ⟨literal, kept⟩

def Unflagged (artifact : Jval) : Prop :=
  memoryCurrentArtifact artifact = true → isText (artifactKind artifact) "document_metadata" = true →
    ∀ content note rest, contentOf artifact = some content → jsonParse content = .ok (note, rest) →
      isTrue (jsonGet note (utf8 "sampled")) = false ∧ isTrue (jsonGet note (utf8 "needs_review")) = false

theorem content_kind (content : chutniContentArtifact artifact = true) : ∃ kind, artifactKind artifact = some (.str kind) := by
  obtain ⟨text, _, same⟩ := List.any_eq_true.mp content
  unfold isText at same
  split at same
  · next kind found => exact ⟨kind, found⟩
  · cases same

theorem unique_content
    (unique : memoryUniqueContent artifacts index artifact = true) : memoryContentArtifact artifact artifacts = true := by
  unfold memoryUniqueContent at unique
  split at unique
  · rw [Bool.and_eq_true] at unique
    exact unique.1
  · cases unique

theorem content_current (content : memoryContentArtifact artifact artifacts = true) :
    memoryCurrentArtifact artifact = true ∧ chutniContentArtifact artifact = true := by
  rw [memoryContentArtifact, Bool.and_eq_true, Bool.and_eq_true] at content
  exact content.1

theorem read_metadata_shows {source' : SourceContext}
    (reads : readMetadata artifact content source = .ok source') (shows : Shows limit.toNat read source) :
    Shows limit.toNat read source' ∧ (source'.previewComplete = true → source.previewComplete = true ∧
        (isText (artifactKind artifact) "document_metadata" = true → ∀ note rest, jsonParse content = .ok (note, rest) →
          isTrue (jsonGet note (utf8 "sampled")) = false ∧ isTrue (jsonGet note (utf8 "needs_review")) = false)) := by
  unfold readMetadata at reads
  by_cases kind : isText (artifactKind artifact) "document_metadata" = true
  · rw [if_pos kind] at reads
    cases parsed : jsonParse content with
    | error stop =>
      rw [parsed] at reads
      cases reads
    | ok both =>
      rw [parsed] at reads
      cases reads
      refine ⟨shows_noted shows both.1, fun whole => ?_⟩
      simp only [noteMetadata, Bool.and_eq_true, Bool.not_eq_true'] at whole
      refine ⟨whole.1.1, fun _ note rest same => ?_⟩
      cases same
      exact ⟨whole.1.2, whole.2⟩
  · rw [if_neg kind] at reads
    cases reads
    exact ⟨shows, fun whole => ⟨whole, fun is => absurd is kind⟩⟩

theorem read_content_shows {artifacts : List Jval} {index : Nat} {artifact : Jval} {content : Bytes}
    (has : contentOf artifact = some content) (shows : Shows limit.toNat read source) :
    Shows limit.toNat (read ++ entryOf artifacts index artifact) (readContent artifacts limit index artifact content source) ∧
      ((readContent artifacts limit index artifact content source).previewComplete = true → source.previewComplete = true) := by
  unfold readContent entryOf
  rw [has]
  dsimp only
  by_cases shown : (memoryUniqueContent artifacts index artifact && content ≠ []) = true
  · have some_ : content ≠ [] := by
      rw [Bool.and_eq_true, decide_eq_true_eq] at shown
      exact shown.2
    rw [if_pos shown, if_pos shown]
    exact ⟨shows_added shows artifact some_, fun whole => (add_preview_flag shows.within whole).1⟩
  · rw [if_neg shown, if_neg shown, List.append_nil]
    exact ⟨shows, id⟩

theorem context_step_shows {source' : SourceContext}
    (step : contextStep artifacts limit index artifact source = .ok source') (shows : Shows limit.toNat read source) :
    Shows limit.toNat (read ++ entryOf artifacts index artifact) source' ∧
      (source'.previewComplete = true → source.previewComplete = true ∧ Unflagged artifact) := by
  -- An artifact that is passed over is no content.
  have passed (other : ¬(memoryCurrentArtifact artifact = true ∧ (∃ kind, artifactKind artifact = some (.str kind)) ∧
      ∃ content, contentOf artifact = some content)) (same : source' = source) :
      Shows limit.toNat (read ++ entryOf artifacts index artifact) source' ∧
        (source'.previewComplete = true → source.previewComplete = true ∧ Unflagged artifact) := by
    have none_ : entryOf artifacts index artifact = [] := by
      unfold entryOf
      cases has : contentOf artifact with
      | none => rfl
      | some content =>
        refine if_neg fun shown => other ?_
        rw [Bool.and_eq_true] at shown
        obtain ⟨current, kind⟩ := content_current (unique_content shown.1)
        exact ⟨current, content_kind kind, content, has⟩
    rw [none_, List.append_nil, same]
    refine ⟨shows, fun whole => ⟨whole, fun current kind content note rest has _ => absurd ?_ other⟩⟩
    refine ⟨current, ?_, content, has⟩
    unfold isText at kind
    split at kind
    · next str found => exact ⟨str, found⟩
    · cases kind
  unfold contextStep at step
  split at step
  · next kind content hasKind has =>
      by_cases current : memoryCurrentArtifact artifact = true
      · rw [if_pos current] at step
        cases reads : readMetadata artifact content source with
        | error stop =>
          rw [reads] at step
          cases step
        | ok noted =>
          rw [reads] at step
          cases step
          obtain ⟨shows', flag⟩ := read_metadata_shows reads shows
          obtain ⟨shows'', flag'⟩ := @read_content_shows limit read noted artifacts index artifact content has shows'
          refine ⟨shows'', fun whole => ?_⟩
          obtain ⟨before, plain⟩ := flag (flag' whole)
          refine ⟨before, fun _ kind content' note rest has' parsed => ?_⟩
          cases has.symm.trans has'
          exact plain kind note rest parsed
      · rw [if_neg current] at step
        cases step
        exact passed (fun all => current all.1) rfl
  · next other =>
      cases step
      refine passed (fun all => ?_) rfl
      obtain ⟨_, ⟨kind, hasKind⟩, content, has⟩ := all
      exact other kind content hasKind has

theorem context_loop_shows (rest : List Jval) : ∀ {index : Nat} {read : List (Jval × Bytes)} {source source' : SourceContext},
      contextLoop artifacts limit index rest source = .ok source' → Shows limit.toNat read source →
        Shows limit.toNat (read ++ uniqueFrom artifacts index rest) source' ∧
          (source'.previewComplete = true → source.previewComplete = true ∧ ∀ artifact ∈ rest, Unflagged artifact) := by
  induction rest with
  | nil =>
    intro index read source source' loop shows
    cases loop
    rw [uniqueFrom, List.append_nil]
    exact ⟨shows, fun whole => ⟨whole, fun artifact inside => (List.not_mem_nil inside).elim⟩⟩
  | cons artifact rest ih =>
    intro index read source source' loop shows
    rw [contextLoop] at loop
    cases step : contextStep artifacts limit index artifact source with
    | error stop =>
      rw [step] at loop
      cases loop
    | ok middle =>
      rw [step] at loop
      obtain ⟨shows', flag⟩ := context_step_shows step shows
      obtain ⟨shows'', flag'⟩ := ih loop shows'
      rw [List.append_assoc] at shows''
      refine ⟨shows'', fun whole => ?_⟩
      obtain ⟨middle_, later⟩ := flag' whole
      obtain ⟨before, here⟩ := flag middle_
      exact ⟨before, List.forall_mem_cons.mpr ⟨here, later⟩⟩

theorem unique_from_mem (has : contentOf artifact = some content) (some_ : content ≠ []) (rest : List Jval) :
    ∀ {index k : Nat}, rest[k]? = some artifact → memoryUniqueContent artifacts (index + k) artifact = true →
      (artifact, content) ∈ uniqueFrom artifacts index rest := by
  induction rest with
  | nil =>
    intro index k there
    cases there
  | cons first rest ih =>
    intro index k there unique
    rw [uniqueFrom, List.mem_append]
    cases k with
    | zero =>
      cases there
      left
      unfold entryOf
      rw [has]
      dsimp only
      rw [if_pos (by rw [Bool.and_eq_true, decide_eq_true_eq]; exact ⟨unique, some_⟩)]
      exact List.mem_singleton.mpr rfl
    | succ k =>
      right
      rw [List.getElem?_cons_succ] at there
      exact ih there (by rw [Nat.add_right_comm]; exact unique)

theorem unique_contents_cover (some_ : content ≠ []) (index : Nat) :
    ∀ {artifact : Jval}, artifacts[index]? = some artifact → memoryContentArtifact artifact artifacts = true →
      contentOf artifact = some content → content ∈ (uniqueContents artifacts).map Prod.snd := by
  induction index using Nat.strong_induction_on with
  | _ index ih =>
    intro artifact there kept has
    by_cases unique : memoryUniqueContent artifacts index artifact = true
    · have inside := unique_from_mem has some_ artifacts there (by rw [Nat.zero_add]; exact unique)
      exact List.mem_map.mpr ⟨_, inside, rfl⟩
    · have copied : (artifacts.take index).any (copies artifacts artifact content) = true := by
        rw [memoryUniqueContent, has] at unique
        dsimp only at unique
        rw [kept, Bool.true_and, Bool.not_eq_true', Bool.not_eq_false] at unique
        exact unique
      obtain ⟨prior, early, copy⟩ := List.any_eq_true.mp copied
      obtain ⟨j, there'⟩ := List.mem_iff_getElem?.mp early
      rw [List.getElem?_take] at there'
      split_ifs at there' with less
      · rw [copies, Bool.and_eq_true, Bool.and_eq_true, beq_iff_eq] at copy
        exact ih j less there' copy.1.1 copy.1.2

structure PreviewSound (artifacts : List Jval) (limit : Nat) (source : SourceContext) : Prop where
  within : source.preview.length ≤ limit
  pieces : ∃ chosen : List (Bytes × Bytes),
    (chosen.map Prod.fst).Sublist ((uniqueContents artifacts).map Prod.snd) ∧
      (∀ cut ∈ chosen, WholePrefix cut.2 cut.1) ∧ source.preview = joinLines (chosen.map Prod.snd)
  covered : ∀ artifact ∈ artifacts, memoryContentArtifact artifact artifacts = true → ∀ content ≠ [],
    contentOf artifact = some content → content ∈ (uniqueContents artifacts).map Prod.snd
  complete : source.previewComplete = true → source.readable = true ∧
    source.preview = joinLines ((uniqueContents artifacts).map Prod.snd) ∧
    (∀ shown ∈ uniqueContents artifacts, summarised shown.1 = false ∧ truncated shown.1 = false) ∧
    ∀ artifact ∈ artifacts, Unflagged artifact

def currentArtifact (kind : String) (content : Bytes) (page : Double) : Jval :=
  .obj [(utf8 "artifact_kind", .str (utf8 kind)), (utf8 "freshness", .str (utf8 "current")),
    (utf8 "status", .str (utf8 "active")), (utf8 "content", .str content),
    (utf8 "selector", .obj [(utf8 "start", .num page)])]

def twoPages : Option Jval :=
  some (.obj [(utf8 "artifacts", .arr [currentArtifact "page_text" (utf8 "alpha") zero,
    currentArtifact "page_text" (utf8 "alpha") zero, currentArtifact "document_metadata" (utf8 "\x7b\"sampled\":false\x7d") zero,
    currentArtifact "page_text" (utf8 "beta") zero])])

def twoPagesRead : SourceContext where
  preview := utf8 "alpha\nbeta"
  readable := true

end SamosaChat.Memory
