import SamosaChat.Reader.Read

set_option autoImplicit false

namespace SamosaChat.Reader

open Utf8 Text Binary64 Json

variable {n : Nat}

section Numbers

theorem of_ratio_natural (small : n ≤ 2 ^ 53) : ofRatio false n 1 = .finite false ⟨n * one, integer_fits small⟩ :=
  of_ratio_exact false Nat.one_pos (Nat.mul_one _).symm

theorem truncate_natural (small : n ≤ 2 ^ 53) : truncate (ofRatio false n 1) = n := by
  rw [of_ratio_natural small, truncate, if_neg Bool.false_ne_true, Nat.mul_div_cancel n FloatText.one_pos]

theorem natural_injective {k : Nat} (small : n ≤ 2 ^ 53) (small' : k ≤ 2 ^ 53)
    (same : ofRatio false n 1 = ofRatio false k 1) : n = k := by
  have truncated := congrArg truncate same
  rw [truncate_natural small, truncate_natural small'] at truncated
  exact Int.ofNat_inj.mp truncated

theorem count_num (n : Nat) : asNum (some (count n)) = some (ofRatio false n 1) := rfl

theorem num_of_count (n : Nat) : numOf (count n) = ofRatio false n 1 := rfl

theorem integer_natural (n : Nat) : integer n = count n := by
  have sign : decide ((n : Int) < 0) = false := decide_eq_false (Int.not_lt.mpr (Int.natCast_nonneg n))
  rw [integer, sign, Int.natAbs_natCast, count]

end Numbers

variable {p : Jval}

section Texts

theorem lines_joined (text : Bytes) :
    (textLines text).flatMap (· ++ [0x0a]) = text ∨ (textLines text).flatMap (· ++ [0x0a]) = text ++ [0x0a] := by
  induction text with
  | nil => exact .inl rfl
  | cons c rest ih =>
    rw [textLines]
    by_cases newline : c = 0x0a
    · rw [if_pos newline, newline]
      rcases ih with same | same
      · exact .inl (congrArg _ same)
      · exact .inr (congrArg _ same)
    · rw [if_neg newline]
      cases lines : textLines rest with
      | nil =>
        rw [lines] at ih
        rcases ih with same | same
        · rw [← same]
          exact .inr rfl
        · cases rest with
          | nil => exact .inr rfl
          | cons d rest => cases same
      | cons line more =>
        rw [lines] at ih
        rcases ih with same | same
        · exact .inl (congrArg (c :: ·) same)
        · exact .inr (congrArg (c :: ·) same)

theorem text_line_text (conf : Double) (text : Bytes) : asStr (jsonGet (textLine conf text) (utf8 "text")) = some text := by
  rw [textLine, get_record]
  rfl

theorem text_line_native (conf : Double) (text : Bytes) : nativeLine (textLine conf text) = true := by
  rw [nativeLine, textLine, get_record]
  rfl

theorem native_text_lines (conf : Double) (lines : List Bytes) :
    lineTexts ((lines.map (textLine conf)).filter nativeLine) = lines.flatMap (· ++ [0x0a]) := by
  have all : (lines.map (textLine conf)).filter nativeLine = lines.map (textLine conf) := by
    apply List.filter_eq_self.mpr
    intro line member
    obtain ⟨text, _, rfl⟩ := List.mem_map.mp member
    exact text_line_native conf text
  rw [all, lineTexts, List.filterMap_map]
  congr 1
  calc lines.filterMap ((fun line => asStr (jsonGet line (utf8 "text"))) ∘ textLine conf)
      = lines.filterMap some := List.filterMap_congr fun text _ => text_line_text conf text
    _ = lines := List.filterMap_some

def Carries (p : Jval) (structured : Bytes) : Prop :=
  if needsImage p then ∃ more, structured = extractedText p ++ more
  else structured = extractedText p ∨ structured = extractedText p ++ [0x0a]

theorem page_tree_index (page : Nat) (p : Jval) (rest : List (String × Jval)) :
    jsonGet (pageTree page p rest) (utf8 "index") = some (count page) := by
  rw [pageTree, get_record]
  rfl

theorem page_tree_lines (page : Nat) (p : Jval) {rest : List (String × Jval)} {lines : List Jval}
    (found : rest.lookup "lines" = some (.arr lines)) : linesOf (pageTree page p rest) = lines := by
  have there : jsonGet (pageTree page p rest) (utf8 "lines") = some (.arr lines) := by
    rw [pageTree, get_record]
    cases asObj (inspectionOf p) with
    | none => exact found
    | some inspection => exact found
  rw [linesOf, there]
  rfl

theorem text_layer_structured (page : Nat) (p : Jval) (text : Bytes) (label : String) :
    structuredText (pageTree page p (emitTextLayerPage text label)) = text ∨
      structuredText (pageTree page p (emitTextLayerPage text label)) = text ++ [0x0a] := by
  have lines := @page_tree_lines page p (emitTextLayerPage text label) _ rfl
  rw [structuredText, lines, native_text_lines]
  exact lines_joined text

theorem ocr_structured (page : Nat) (p : Jval) (text : Bytes) (lines : List Jval) (unfinished : Bool) :
    ∃ more, structuredText (pageTree page p (ocrPage text lines unfinished)) = text ++ more := by
  have found := @page_tree_lines page p (ocrPage text lines unfinished) _ rfl
  rw [structuredText, found]
  by_cases none_ : text = []
  · subst none_
    exact ⟨_, rfl⟩
  · have native : (text != []) = true := bne_iff_ne.mpr none_
    rw [native, if_pos rfl, List.singleton_append, List.filter_cons_of_pos (text_line_native _ text), lineTexts,
      List.filterMap_cons, text_line_text, List.flatMap_cons, List.append_assoc]
    exact ⟨_, rfl⟩

theorem needs_extracted (needs : needsImage p = true) : extractedText p = pageTxt p := by
  rw [extractedText, needs, if_neg]
  exact fun both => Bool.noConfusion both.1

theorem fallback_carries {page : Nat} {response : Jval} {read : PageRead} (needs : needsImage p = true)
    (done : fallback page p response = .ok read) :
    jsonGet read.tree (utf8 "index") = some (count page) ∧ Carries p (structuredText read.tree) := by
  rw [fallback] at done
  split_ifs at done
  cases done
  refine ⟨page_tree_index _ _ _, ?_⟩
  rw [Carries, if_pos needs, needs_extracted needs]
  rcases text_layer_structured page p (pageTxt p) "text_layer_ocr_unavailable" with same | same
  · exact ⟨[], same.trans (List.append_nil _).symm⟩
  · exact ⟨_, same⟩

theorem read_by_image_carries {page : Nat} {run : PageRun} {read : PageRead} (needs : needsImage p = true)
    (done : readByImage page p run = .ok read) :
    jsonGet read.tree (utf8 "index") = some (count page) ∧ Carries p (structuredText read.tree) := by
  rw [readByImage] at done
  cases render : run.render with
  | noTemp =>
    rw [render] at done
    cases done
  | unrendered timeout =>
    rw [render] at done
    exact fallback_carries needs done
  | rendered ocr =>
    rw [render] at done
    cases ocr with
    | cancelled => cases done
    | failed status reported => exact fallback_carries needs done
    | exited root =>
      dsimp only at done
      cases valid : root.bind ocrJsonValidate with
      | none =>
        rw [valid] at done
        exact fallback_carries needs done
      | some lines =>
        rw [valid] at done
        dsimp only at done
        split_ifs at done
        cases done
        refine ⟨page_tree_index _ _ _, ?_⟩
        rw [Carries, if_pos needs, needs_extracted needs]
        exact ocr_structured page p (pageTxt p) lines (incomplete p)

theorem read_by_text_carries (page : Nat) (plain : needsImage p = false) :
    jsonGet (readByText page p).tree (utf8 "index") = some (count page) ∧
      Carries p (structuredText (readByText page p).tree) := by
  refine ⟨page_tree_index _ _ _, ?_⟩
  rw [Carries, plain, if_neg Bool.false_ne_true]
  exact text_layer_structured _ _ _ _

theorem read_page_carries {page : Nat} {run : PageRun} {read : PageRead} (done : readPage page p run = .ok read) :
    jsonGet read.tree (utf8 "index") = some (count page) ∧ Carries p (structuredText read.tree) := by
  rw [readPage] at done
  obtain ⟨late, done⟩ := past_guard done nofun
  obtain ⟨other, done⟩ := past_guard done nofun
  obtain ⟨stopped, done⟩ := past_guard done nofun
  cases needs : needsImage p with
  | true =>
    rw [needs, if_pos rfl] at done
    exact read_by_image_carries needs done
  | false =>
    rw [needs, if_neg Bool.false_ne_true] at done
    cases done
    exact read_by_text_carries page needs

end Texts

variable {root : Jval}

section Whole

structure WholeTree (pages : List Jval) (root : Jval) : Prop where
  ok : isTrue (jsonGet root (utf8 "ok")) = true
  small : pages.length ≤ 10000
  count : jsonGet root (utf8 "page_count") = some (count pages.length)
  indices : (pagesOf root).map (fun page => jsonGet page (utf8 "index")) =
    (List.range pages.length).map fun k => some (Reader.count (k + 1))
  texts : List.Forall₂ (fun page p => Carries p (structuredText page)) (pagesOf root) pages

structure Complete (lines : Bool) (pages : List Jval) (response : Jval) : Prop where
  count : jsonGet response (utf8 "page_count") = some (count pages.length)
  indices : (pagesOf response).map (fun page => jsonGet page (utf8 "index")) =
    (List.range pages.length).map fun k => some (Reader.count (k + 1))
  text : ∃ sections : List Section,
    jsonGet response (utf8 "text") = some (.str (documentText true pages.length sections)) ∧
      sections.map Section.number = (List.range pages.length).map (fun k : Nat => (k : Int) + 1) ∧
        List.Forall₂ (fun part p => Carries p part.structured) sections pages
  lines : lines = true → List.Forall₂ (fun page p => Carries p (structuredText page)) (pagesOf response) pages

theorem page_number_at (small : n ≤ 10000) (indices : (pagesOf root).map (fun page => jsonGet page (utf8 "index")) =
      (List.range n).map fun k => some (count (k + 1))) {i : Nat} {page : Jval} (found : (pagesOf root)[i]? = some page) :
    jsonGet page (utf8 "index") = some (count (i + 1)) ∧ pageNumber i page = i + 1 ∧ i < n := by
  have there := congrArg (fun list : List (Option Jval) => list[i]?) indices
  simp only [List.getElem?_map, found, Option.map_some] at there
  obtain ⟨k, at_k, same⟩ := Option.map_eq_some_iff.mp there.symm
  obtain ⟨inside, same_k⟩ := List.getElem?_eq_some_iff.mp at_k
  rw [List.getElem_range] at same_k
  subst same_k
  rw [List.length_range] at inside
  refine ⟨same.symm, ?_, inside⟩
  rw [pageNumber, ← same, count_num, Option.map_some, Option.getD_some, truncate_natural (by omega)]
  rfl

theorem selected_whole (small : n ≤ 10000) (indices : (pagesOf root).map (fun page => jsonGet page (utf8 "index")) =
      (List.range n).map fun k => some (count (k + 1))) : selected whole root = (pagesOf root).mapIdx Prod.mk := by
  rw [selected]
  apply List.filter_eq_self.mpr
  intro entry member
  obtain ⟨i, inside, same⟩ := List.mem_mapIdx.mp member
  subst same
  have number := (page_number_at small indices (List.getElem?_eq_getElem inside)).2.1
  rw [Range.contains, number, whole]
  simp

theorem reshape_fields (request : Request) (ok : isTrue (jsonGet root (utf8 "ok")) = true) :
    jsonGet (reshapeDocReadResult request root) (utf8 "page_count") = some (integer (totalPages root)) ∧
      pagesOf (reshapeDocReadResult request root) =
        (selected request.range root).map (fun entry => reshapedPage request.lines entry.1 entry.2) ∧
      jsonGet (reshapeDocReadResult request root) (utf8 "text") = some (.str (documentText request.isPdf (totalPages root)
          ((selected request.range root).map fun entry => sectionOf (pageNumber entry.1 entry.2) entry.2))) ∧
      isTrue (jsonGet (reshapeDocReadResult request root) (utf8 "ok")) = true := by
  have shape : ∀ more, reshapeDocReadResult request root = record more →
      jsonGet (reshapeDocReadResult request root) (utf8 "page_count") = more.lookup "page_count" ∧
        jsonGet (reshapeDocReadResult request root) (utf8 "pages") = more.lookup "pages" ∧
        jsonGet (reshapeDocReadResult request root) (utf8 "text") = more.lookup "text" ∧
        jsonGet (reshapeDocReadResult request root) (utf8 "ok") = more.lookup "ok" := by
    intro more same
    rw [same, get_record, get_record, get_record, get_record]
    exact ⟨rfl, rfl, rfl, rfl⟩
  obtain ⟨count, pages, text, answered⟩ := shape _ (by
    rw [reshapeDocReadResult, if_neg (by rw [ok]; exact Bool.noConfusion)])
  refine ⟨count.trans rfl, ?_, text.trans rfl, ?_⟩
  · rw [pagesOf, pages]
    rfl
  · rw [answered]
    rfl

theorem reshaped_index (lines : Bool) (i : Nat) {page : Jval} (small : n ≤ 2 ^ 53)
    (index : jsonGet page (utf8 "index") = some (count n)) :
    jsonGet (reshapedPage lines i page) (utf8 "index") = some (count n) := by
  rw [reshapedPage, get_record, index, Option.map_some, Option.getD_some, num_of_count, truncate_natural small, integer_natural]
  rfl

theorem reshaped_lines (i : Nat) (page : Jval) : structuredText (reshapedPage true i page) = structuredText page := by
  have same : linesOf (reshapedPage true i page) = linesOf page := by
    rw [linesOf, reshapedPage, get_record, linesOf]
    cases asObj (inspectionOf page) with
    | none =>
      cases asArr (jsonGet page (utf8 "lines")) with
      | none => rfl
      | some kids => rfl
    | some inspection =>
      cases asArr (jsonGet page (utf8 "lines")) with
      | none => rfl
      | some kids => rfl
  rw [structuredText, same]
  rfl

theorem map_mapIdx {α β γ : Type} (list : List α) (f : Nat → α → β) (g : β → γ) :
    (list.mapIdx f).map g = list.mapIdx fun i a => g (f i a) := by
  apply List.ext_getElem?
  intro i
  rw [List.getElem?_map, List.getElem?_mapIdx, List.getElem?_mapIdx, Option.map_map]
  rfl

theorem forall₂_mapIdx {α β γ : Type} {R : α → γ → Prop} {S : β → γ → Prop} {f : Nat → α → β} {list : List α}
    {others : List γ} (all : List.Forall₂ R list others) (each : ∀ i a c, R a c → S (f i a) c) :
    List.Forall₂ S (list.mapIdx f) others := by
  obtain ⟨same, related⟩ := List.forall₂_iff_get.mp all
  refine List.forall₂_iff_get.mpr ⟨by rw [List.length_mapIdx]; exact same, ?_⟩
  intro i inside inside'
  rw [List.length_mapIdx] at inside
  have here := each i _ _ (related i inside inside')
  simp only [List.get_eq_getElem, List.getElem_mapIdx] at here ⊢
  exact here

theorem pages_length (indices : (pagesOf root).map (fun page => jsonGet page (utf8 "index")) =
      (List.range n).map fun k => some (count (k + 1))) : (pagesOf root).length = n := by
  have lengths := congrArg List.length indices
  rw [List.length_map, List.length_map, List.length_range] at lengths
  exact lengths

theorem reshaped_pages {request : Request} (range : request.range = whole) {root : Jval} {n : Nat} (small : n ≤ 10000)
    (ok : isTrue (jsonGet root (utf8 "ok")) = true) (indices : (pagesOf root).map (fun page => jsonGet page (utf8 "index")) =
      (List.range n).map fun k => some (count (k + 1))) :
    pagesOf (reshapeDocReadResult request root) = (pagesOf root).mapIdx (reshapedPage request.lines) ∧
      (pagesOf (reshapeDocReadResult request root)).map (fun page => jsonGet page (utf8 "index")) =
        (List.range n).map fun k => some (count (k + 1)) := by
  have pages : pagesOf (reshapeDocReadResult request root) = (pagesOf root).mapIdx (reshapedPage request.lines) := by
    rw [(reshape_fields request ok).2.1, range, selected_whole small indices, map_mapIdx]
  refine ⟨pages, ?_⟩
  rw [pages, map_mapIdx, ← indices]
  apply List.ext_getElem?
  intro i
  rw [List.getElem?_mapIdx, List.getElem?_map]
  cases found : (pagesOf root)[i]? with
  | none => rfl
  | some page =>
    obtain ⟨index, _, inside⟩ := page_number_at small indices found
    rw [Option.map_some, Option.map_some, index]
    exact congrArg some (reshaped_index request.lines i (by omega) index)

theorem whole_reshape {request : Request} (range : request.range = whole) (isPdf : request.isPdf = true)
    {pages : List Jval} {root : Jval} (tree : WholeTree pages root) :
    Complete request.lines pages (reshapeDocReadResult request root) := by
  have total : totalPages root = pages.length := by
    rw [totalPages, tree.count, count_num, Option.map_some, Option.getD_some,
      truncate_natural (Nat.le_trans tree.small (by decide))]
  obtain ⟨counted, _, text, _⟩ := reshape_fields request tree.ok
  obtain ⟨shown, indices⟩ := reshaped_pages range tree.small tree.ok tree.indices
  constructor
  case count => rw [counted, total, integer_natural]
  case indices => exact indices
  case text =>
    rw [range, selected_whole tree.small tree.indices, isPdf, total, map_mapIdx] at text
    refine ⟨_, text, ?_, ?_⟩
    · rw [map_mapIdx]
      apply List.ext_getElem?
      intro i
      rw [List.getElem?_mapIdx, List.getElem?_map]
      cases found : (pagesOf root)[i]? with
      | none =>
        have outside : pages.length ≤ i := by
          rw [← pages_length tree.indices]
          exact List.getElem?_eq_none_iff.mp found
        rw [List.getElem?_eq_none_iff.mpr (by rw [List.length_range]; exact outside)]
        rfl
      | some page =>
        obtain ⟨_, number, inside⟩ := page_number_at tree.small tree.indices found
        rw [List.getElem?_range inside]
        exact congrArg some number
    · exact forall₂_mapIdx tree.texts fun _ _ _ carried => carried
  case lines =>
    intro lines
    rw [shown, lines]
    apply forall₂_mapIdx tree.texts
    intro i page p carried
    rw [reshaped_lines]
    exact carried

end Whole

end SamosaChat.Reader
