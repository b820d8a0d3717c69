import SamosaChat.Lib.Scanf
import Mathlib.Data.List.Chain
import Mathlib.Data.List.TakeWhile

set_option autoImplicit false

namespace SamosaChat.Documents

open Utf8 Text

def retrievalChunkChars : Nat :=
  2400

def retrievalOverlapChars : Nat :=
  320

def newline : UInt8 :=
  0x0a

structure DocumentChunk where
  start : Nat
  len : Nat
  lineStart : Nat
  lineEnd : Nat
deriving DecidableEq

def DocumentChunk.stop (chunk : DocumentChunk) : Nat :=
  chunk.start + chunk.len

def boundaryAbove (text : Bytes) (floor : Nat) : Nat → Nat
  | 0 => 0
  | boundary + 1 =>
    if floor < boundary + 1 ∧ text.getD boundary 0 ≠ newline then boundaryAbove text floor boundary else boundary + 1

def chunkEnd (text : Bytes) (start : Nat) : Nat :=
  let end_ := if start + retrievalChunkChars > text.length then text.length else start + retrievalChunkChars
  let end_ :=
    if end_ < text.length then
      let floor := start + retrievalChunkChars / 2
      let boundary := boundaryAbove text floor end_
      if boundary > floor then boundary else end_
    else end_
  if end_ ≤ start then
    if start + retrievalChunkChars < text.length then start + retrievalChunkChars else text.length
  else end_

def nextStart (end_ : Nat) : Nat :=
  if end_ > retrievalOverlapChars then end_ - retrievalOverlapChars else end_

def newlines (text : Bytes) (start end_ : Nat) : Nat :=
  ((text.take end_).drop start).count newline

def chunkAt (text : Bytes) (start line : Nat) : DocumentChunk :=
  { start := start
    len := chunkEnd text start - start
    lineStart := line
    lineEnd := line + newlines text start (chunkEnd text start) }

def chunkLoop (text : Bytes) : Nat → Nat → Nat → Nat → List DocumentChunk
  | 0, _, _, _ => []
  | room + 1, start, lineCursor, line =>
    if start < text.length then
      let line := line + newlines text lineCursor start
      let end_ := chunkEnd text start
      chunkAt text start line :: if end_ = text.length then [] else chunkLoop text room (nextStart end_) start line
    else []

def mostChunks : Nat :=
  8192

def estimate (length : Nat) : Nat :=
  length / (retrievalChunkChars - retrievalOverlapChars) + 2

def maxChunks (length : Nat) : Nat :=
  if estimate length > mostChunks then mostChunks else estimate length

def documentChunks (text : Bytes) : List DocumentChunk :=
  chunkLoop text (maxChunks text.length) 0 0 1

section Ends

variable {text : Bytes} {start : Nat}

theorem boundary_above_le (text : Bytes) (floor boundary : Nat) : boundaryAbove text floor boundary ≤ boundary := by
  induction boundary with
  | zero => exact Nat.le_refl 0
  | succ boundary ih =>
    rw [boundaryAbove]
    split_ifs
    · exact Nat.le_trans ih (Nat.le_succ _)
    · exact Nat.le_refl _

theorem chunk_end_bounds (inside : start < text.length) :
    start < chunkEnd text start ∧ chunkEnd text start ≤ text.length ∧ chunkEnd text start ≤ start + retrievalChunkChars ∧
      (chunkEnd text start < text.length → start + retrievalChunkChars / 2 < chunkEnd text start) := by
  have back := boundary_above_le text (start + retrievalChunkChars / 2) (start + retrievalChunkChars)
  have wide : retrievalChunkChars = 2400 := rfl
  unfold chunkEnd
  by_cases long : start + retrievalChunkChars > text.length
  · simp only [if_pos long, Nat.lt_irrefl, if_false]
    rw [if_neg (by omega)]
    omega
  · simp only [if_neg long]
    by_cases more : start + retrievalChunkChars < text.length
    · rw [if_pos more]
      by_cases found : boundaryAbove text (start + retrievalChunkChars / 2) (start + retrievalChunkChars) >
          start + retrievalChunkChars / 2
      · rw [if_pos found, if_neg (by omega)]
        omega
      · rw [if_neg found, if_neg (by omega)]
        omega
    · rw [if_neg more, if_neg (by omega)]
      omega

theorem next_start_bounds (inside : start < text.length) (more : chunkEnd text start ≠ text.length) :
    start < nextStart (chunkEnd text start) ∧ nextStart (chunkEnd text start) ≤ chunkEnd text start ∧
      nextStart (chunkEnd text start) < text.length := by
  obtain ⟨after, most, _, half⟩ := chunk_end_bounds inside
  have wide : retrievalChunkChars = 2400 := rfl
  have overlap : retrievalOverlapChars = 320 := rfl
  have behind := half (by omega)
  unfold nextStart
  rw [if_pos (by omega)]
  omega

end Ends

def Linked (length : Nat) (chunk next : DocumentChunk) : Prop :=
  chunk.start < next.start ∧ next.start ≤ chunk.stop ∧ chunk.stop < length

def Holds (chunk : DocumentChunk) (i : Nat) : Prop :=
  chunk.start ≤ i ∧ i < chunk.stop

structure CoversTo (length : Nat) (chunks : List DocumentChunk) (stop : Nat) : Prop where
  linked : chunks.IsChain (Linked length)
  last : ∀ chunk ∈ chunks.getLast?, chunk.stop = stop
  every : ∀ i < stop, ∃ chunk ∈ chunks, Holds chunk i

def Considers (text : Bytes) (chunks : List DocumentChunk) : Prop :=
  ∃ stop, CoversTo text.length chunks stop ∧ (stop = text.length ∨ chunks.length = mostChunks)

def layout (text : Bytes) : List DocumentChunk :=
  chunkLoop text (text.length + 1) 0 0 1

section Cover

variable {text : Bytes}

theorem linked_covers {length : Nat} {chunks : List DocumentChunk} : ∀ {chunk : DocumentChunk} {stop i : Nat},
    (chunk :: chunks).IsChain (Linked length) → (∀ last ∈ (chunk :: chunks).getLast?, last.stop = stop) → chunk.start ≤ i →
      i < stop → ∃ c ∈ chunk :: chunks, Holds c i := by
  induction chunks with
  | nil =>
    intro chunk stop i _ last low high
    have same : chunk.stop = stop := last chunk rfl
    exact ⟨chunk, List.mem_cons_self, low, same ▸ high⟩
  | cons next chunks ih =>
    intro chunk stop i linked last low high
    obtain ⟨link, rest⟩ := List.isChain_cons_cons.mp linked
    by_cases inside : i < chunk.stop
    · exact ⟨chunk, List.mem_cons_self, low, inside⟩
    · have later : next.start ≤ i := Nat.le_trans link.2.1 (Nat.le_of_not_lt inside)
      obtain ⟨c, among, holds⟩ := ih rest (fun d final => last d (by rw [List.getLast?_cons_cons]; exact final)) later high
      exact ⟨c, List.mem_cons_of_mem _ among, holds⟩

theorem chunk_loop_cons {start : Nat} (room cursor line : Nat) (inside : start < text.length) :
    chunkLoop text (room + 1) start cursor line = chunkAt text start (line + newlines text cursor start) ::
        if chunkEnd text start = text.length then []
        else chunkLoop text room (nextStart (chunkEnd text start)) start (line + newlines text cursor start) := by
  rw [chunkLoop, if_pos inside]

theorem chunk_at_stop {start : Nat} (line : Nat) (inside : start < text.length) :
    (chunkAt text start line).stop = chunkEnd text start := by
  have after := (chunk_end_bounds inside).1
  change start + (chunkEnd text start - start) = chunkEnd text start
  omega

theorem chunk_loop_take (room : Nat) : ∀ more start cursor line : Nat,
    chunkLoop text room start cursor line = (chunkLoop text (room + more) start cursor line).take room := by
  induction room with
  | zero => exact fun more start cursor line => rfl
  | succ room ih =>
    intro more start cursor line
    rw [Nat.add_right_comm]
    by_cases inside : start < text.length
    · rw [chunk_loop_cons room cursor line inside, chunk_loop_cons (room + more) cursor line inside, List.take_succ_cons]
      by_cases ended : chunkEnd text start = text.length
      · rw [if_pos ended, if_pos ended, List.take_nil]
      · rw [if_neg ended, if_neg ended, ← ih more]
    · rw [chunkLoop, chunkLoop, if_neg inside, if_neg inside, List.take_nil]

theorem chunk_loop_linked (room : Nat) : ∀ start cursor line : Nat,
    (chunkLoop text room start cursor line).IsChain (Linked text.length) ∧
      ∀ chunk ∈ (chunkLoop text room start cursor line).head?, chunk.start = start := by
  induction room with
  | zero => exact fun start cursor line => ⟨.nil, fun chunk front => (by cases front)⟩
  | succ room ih =>
    intro start cursor line
    by_cases inside : start < text.length
    · rw [chunk_loop_cons room cursor line inside]
      refine ⟨?_, fun chunk front => by cases front; rfl⟩
      by_cases ended : chunkEnd text start = text.length
      · rw [if_pos ended]
        exact .singleton _
      · rw [if_neg ended]
        obtain ⟨after, most, _, _⟩ := chunk_end_bounds inside
        obtain ⟨later, touch, _⟩ := next_start_bounds inside ended
        obtain ⟨linked, first⟩ := ih (nextStart (chunkEnd text start)) start (line + newlines text cursor start)
        refine List.isChain_cons.mpr ⟨fun next front => ?_, linked⟩
        have same := first next front
        have stop := chunk_at_stop (line + newlines text cursor start) inside
        exact ⟨by rw [same]; exact later, by rw [same, stop]; exact touch, by rw [stop]; omega⟩
    · rw [chunkLoop, if_neg inside]
      exact ⟨.nil, fun chunk front => (by cases front)⟩

theorem chunk_loop_last (room : Nat) : ∀ start cursor line : Nat, (chunkLoop text room start cursor line).length < room →
    ∀ chunk ∈ (chunkLoop text room start cursor line).getLast?, chunk.stop = text.length := by
  induction room with
  | zero => exact fun start cursor line less => absurd less (Nat.not_lt_zero _)
  | succ room ih =>
    intro start cursor line
    by_cases inside : start < text.length
    · rw [chunk_loop_cons room cursor line inside]
      by_cases ended : chunkEnd text start = text.length
      · rw [if_pos ended]
        intro _ chunk final
        have only : chunk = chunkAt text start (line + newlines text cursor start) := (Option.some.inj final).symm
        rw [only, chunk_at_stop _ inside, ended]
      · rw [if_neg ended]
        intro less chunk final
        rw [List.length_cons] at less
        have rest := ih (nextStart (chunkEnd text start)) start (line + newlines text cursor start) (by omega)
        obtain ⟨_, _, goes⟩ := next_start_bounds inside ended
        obtain ⟨room', rfl⟩ : ∃ k, room = k + 1 := ⟨room - 1, by omega⟩
        rw [chunk_loop_cons room' _ _ goes] at rest final
        rw [List.getLast?_cons_cons] at final
        exact rest chunk final
    · rw [chunkLoop, if_neg inside]
      exact fun _ chunk final => by cases final

theorem chunk_loop_length (room : Nat) : ∀ start cursor line : Nat,
    (chunkLoop text room start cursor line).length ≤ text.length - start := by
  induction room with
  | zero => exact fun start cursor line => Nat.zero_le _
  | succ room ih =>
    intro start cursor line
    by_cases inside : start < text.length
    · rw [chunk_loop_cons room cursor line inside, List.length_cons]
      by_cases ended : chunkEnd text start = text.length
      · rw [if_pos ended, List.length_nil]
        omega
      · rw [if_neg ended]
        have rest := ih (nextStart (chunkEnd text start)) start (line + newlines text cursor start)
        obtain ⟨later, _, goes⟩ := next_start_bounds inside ended
        omega
    · rw [chunkLoop, if_neg inside]
      exact Nat.zero_le _

theorem document_chunks_take (text : Bytes) : documentChunks text = (layout text).take (maxChunks text.length) := by
  have wide : layout text = _ := chunk_loop_take (text.length + 1) (maxChunks text.length) 0 0 1
  have cut : documentChunks text = _ := chunk_loop_take (maxChunks text.length) (text.length + 1) 0 0 1
  have most : (chunkLoop text (text.length + 1 + maxChunks text.length) 0 0 1).length ≤ _ := chunk_loop_length _ 0 0 1
  rw [List.take_of_length_le (by omega)] at wide
  rw [Nat.add_comm (maxChunks text.length), ← wide] at cut
  exact cut

theorem layout_last (text : Bytes) : ∀ chunk ∈ (layout text).getLast?, chunk.stop = text.length :=
  chunk_loop_last _ 0 0 1 (Nat.lt_succ_of_le (chunk_loop_length (text.length + 1) 0 0 1))

theorem layout_some (text : Bytes) : layout text = [] ↔ text = [] := by
  rw [layout]
  by_cases none_ : text = []
  · rw [none_]
    exact ⟨fun _ => rfl, fun _ => rfl⟩
  · have inside : 0 < text.length := List.length_pos_iff.mpr none_
    rw [chunk_loop_cons text.length 0 1 inside]
    exact ⟨fun empty => (by cases empty), fun empty => absurd empty none_⟩

-- The first of the chunks of the layout cover the text up to where the last of them ends.
theorem layout_covers (text : Bytes) {k : Nat} (some_ : 0 < k) : ∃ stop, CoversTo text.length ((layout text).take k) stop ∧
    (stop = text.length ↔ (layout text).length ≤ k) := by
  obtain ⟨linked, first⟩ := chunk_loop_linked (text.length + 1) 0 0 1
  by_cases none_ : text = []
  · have empty := (layout_some text).mpr none_
    refine ⟨0, ?_, ?_⟩
    · rw [empty, List.take_nil]
      exact ⟨.nil, fun chunk final => (by cases final), fun i less => absurd less (Nat.not_lt_zero i)⟩
    · rw [empty, none_]
      exact ⟨fun _ => Nat.zero_le k, fun _ => rfl⟩
  obtain ⟨chunk, chunks, shape⟩ := List.exists_cons_of_ne_nil (fun empty => none_ ((layout_some text).mp empty))
  have start : chunk.start = 0 := first chunk (by rw [← layout, shape]; rfl)
  obtain ⟨k, rfl⟩ : ∃ j, k = j + 1 := ⟨k - 1, by omega⟩
  have front : (layout text).take (k + 1) = chunk :: chunks.take k := by rw [shape, List.take_succ_cons]
  have linked_ : (chunk :: chunks.take k).IsChain (Linked text.length) := by
    rw [← front]
    exact linked.take _
  obtain ⟨last, final⟩ : ∃ last, (chunk :: chunks.take k).getLast? = some last :=
    ⟨_, List.getLast?_eq_some_getLast (List.cons_ne_nil _ _)⟩
  have only : ∀ c ∈ (chunk :: chunks.take k).getLast?, c.stop = last.stop := by
    intro c among
    rw [final] at among
    cases among
    rfl
  refine ⟨last.stop, ?_, ?_⟩
  · rw [front]
    exact ⟨linked_, only, fun i less => linked_covers linked_ only (by rw [start]; exact Nat.zero_le i) less⟩
  · constructor
    · intro whole
      by_contra more
      have long : k < chunks.length := by
        rw [shape, List.length_cons] at more
        omega
      -- The last chunk is followed by another one.
      have split : (chunk :: chunks.take k) ++ chunks[k] :: chunks.drop (k + 1) = layout text := by
        rw [shape, List.cons_append, ← List.drop_eq_getElem_cons long, List.take_append_drop]
      have chain := linked
      rw [← layout, ← split] at chain
      have link := (List.isChain_append.mp chain).2.2 last final chunks[k] rfl
      exact absurd whole (Nat.ne_of_lt link.2.2)
    · intro enough
      have whole : (layout text).take (k + 1) = layout text := List.take_of_length_le enough
      rw [front] at whole
      rw [whole] at final
      exact layout_last text last final

end Cover

theorem max_chunks_some (length : Nat) : 0 < maxChunks length := by
  unfold maxChunks estimate
  split_ifs
  · exact Nat.succ_pos _
  · exact Nat.succ_pos _

section Drawn

variable {text : Bytes} {start : Nat}

def secondHalf (text : Bytes) (start : Nat) : Bytes :=
  (text.drop (start + retrievalChunkChars / 2)).take (retrievalChunkChars - retrievalChunkChars / 2)

-- The bytes behind the last line end there, none where there is no line end.
def drawnBack (text : Bytes) (start : Nat) : Nat :=
  if newline ∈ secondHalf text start then (afterLast newline (secondHalf text start)).length else 0

def drawnTotal (text : Bytes) : Nat → Nat → Nat
  | 0, _ => 0
  | chunks + 1, start =>
    drawnBack text start +
      drawnTotal text chunks (start + (retrievalChunkChars - retrievalOverlapChars) - drawnBack text start)

theorem drawn_back_le (text : Bytes) (start : Nat) : drawnBack text start ≤ retrievalChunkChars / 2 := by
  unfold drawnBack
  split_ifs
  · have tail := (List.takeWhile_prefix (· ≠ newline) (l := (secondHalf text start).reverse)).length_le
    rw [List.length_reverse, secondHalf, List.length_take] at tail
    rw [afterLast, List.length_reverse]
    exact tail.trans (Nat.min_le_left _ _)
  · exact Nat.zero_le _

theorem drawn_total_le (text : Bytes) (chunks : Nat) : ∀ start, drawnTotal text chunks start ≤ chunks * (retrievalChunkChars / 2) := by
  induction chunks with
  | zero => exact fun start => Nat.zero_le _
  | succ chunks ih =>
    intro start
    rw [drawnTotal, Nat.succ_mul, Nat.add_comm]
    exact Nat.add_le_add (ih _) (drawn_back_le text start)

theorem boundary_above_floor (text : Bytes) (floor : Nat) : boundaryAbove text floor floor = floor := by
  cases floor with
  | zero => rfl
  | succ floor => rw [boundaryAbove, if_neg fun both => absurd both.1 (Nat.lt_irrefl _)]

theorem boundary_above_back {floor : Nat} (length : Nat) (inside : floor + length ≤ text.length) :
    boundaryAbove text floor (floor + length) = floor + length - (afterLast newline ((text.drop floor).take length)).length := by
  induction length with
  | zero => exact boundary_above_floor text floor
  | succ length ih =>
    have here : floor + length < text.length := by omega
    have more : (text.drop floor).take (length + 1) = (text.drop floor).take length ++ [text[floor + length]] := by
      rw [List.take_succ_eq_append_getElem (by rw [List.length_drop]; omega), List.getElem_drop]
    have read : text.getD (floor + length) 0 = text[floor + length] := by
      rw [List.getD_eq_getElem?_getD, List.getElem?_eq_getElem here, Option.getD_some]
    rw [← Nat.add_assoc, boundaryAbove, read, more, afterLast, List.reverse_append, List.reverse_singleton,
      List.singleton_append, List.takeWhile_cons, List.length_reverse]
    by_cases mark : text[floor + length] = newline
    · rw [if_neg fun both => both.2 mark, if_neg (by simpa using mark)]
      rfl
    · have tail := ih (by omega)
      rw [afterLast, List.length_reverse] at tail
      rw [if_pos ⟨by omega, mark⟩, if_pos (by simpa using mark), tail, List.length_cons]
      omega

theorem after_last_short {mark : UInt8} {half : Bytes} (inside : mark ∈ half) : (afterLast mark half).length < half.length := by
  obtain ⟨before, after, shape, _, _, last⟩ := last_found inside
  rw [last, shape, List.length_append, List.length_cons]
  omega

theorem after_last_whole {mark : UInt8} {half : Bytes} (none_ : mark ∉ half) : afterLast mark half = half := by
  have pass : ∀ c ∈ half.reverse, decide (c ≠ mark) = true := by
    intro c inside
    rw [decide_eq_true_eq]
    rintro rfl
    exact none_ (List.mem_reverse.mp inside)
  rw [afterLast, List.takeWhile_eq_self_iff.mpr pass, List.reverse_reverse]

theorem chunk_end_drawn (long : start + retrievalChunkChars < text.length) :
    chunkEnd text start = start + retrievalChunkChars - drawnBack text start := by
  have wide : retrievalChunkChars = 2400 := rfl
  have back : boundaryAbove text (start + retrievalChunkChars / 2) (start + retrievalChunkChars) =
      start + retrievalChunkChars - (afterLast newline (secondHalf text start)).length := by
    have search := @boundary_above_back text (start + retrievalChunkChars / 2)
      (retrievalChunkChars - retrievalChunkChars / 2) (by omega)
    have whole : start + retrievalChunkChars / 2 + (retrievalChunkChars - retrievalChunkChars / 2) = start + retrievalChunkChars := by
      omega
    rw [whole] at search
    exact search
  have size : (secondHalf text start).length = 1200 := by
    rw [secondHalf, List.length_take, List.length_drop]
    omega
  have drawn : (if boundaryAbove text (start + retrievalChunkChars / 2) (start + retrievalChunkChars) >
        start + retrievalChunkChars / 2
      then boundaryAbove text (start + retrievalChunkChars / 2) (start + retrievalChunkChars)
      else start + retrievalChunkChars) = start + retrievalChunkChars - drawnBack text start := by
    rw [back, drawnBack]
    by_cases found : newline ∈ secondHalf text start
    · have short := after_last_short found
      rw [if_pos found]
      exact if_pos (by omega)
    · rw [if_neg found, after_last_whole found]
      exact if_neg (by omega)
  have small := drawn_back_le text start
  unfold chunkEnd
  simp only [if_neg (show ¬start + retrievalChunkChars > text.length by omega), if_pos long, drawn]
  rw [if_neg (by omega)]

theorem chunk_end_near (near : text.length ≤ start + retrievalChunkChars) (inside : start < text.length) :
    chunkEnd text start = text.length := by
  have stop : (if start + retrievalChunkChars > text.length then text.length else start + retrievalChunkChars) = text.length := by
    split_ifs <;> omega
  unfold chunkEnd
  simp only [stop, if_neg (Nat.lt_irrefl text.length)]
  rw [if_neg (Nat.not_le_of_lt inside)]

theorem chunk_end_far (far : start + retrievalChunkChars < text.length) : start < nextStart (chunkEnd text start) ∧
    chunkEnd text start ≠ text.length ∧ nextStart (chunkEnd text start) =
      start + (retrievalChunkChars - retrievalOverlapChars) - drawnBack text start := by
  have wide : retrievalChunkChars = 2400 := rfl
  have overlap : retrievalOverlapChars = 320 := rfl
  have small := drawn_back_le text start
  unfold nextStart
  rw [chunk_end_drawn far, if_pos (by omega)]
  omega

theorem chunk_loop_few (chunks : Nat) : ∀ room start cursor line : Nat, start < text.length → text.length - start ≤ room →
    ((chunkLoop text room start cursor line).length ≤ chunks + 1 ↔ text.length + drawnTotal text chunks start ≤
        start + chunks * (retrievalChunkChars - retrievalOverlapChars) + retrievalChunkChars) := by
  have wide : retrievalChunkChars = 2400 := rfl
  have step : retrievalChunkChars - retrievalOverlapChars = 2080 := rfl
  have half : retrievalChunkChars / 2 = 1200 := rfl
  induction chunks with
  | zero =>
    intro room start cursor line inside enough
    obtain ⟨room, rfl⟩ : ∃ k, room = k + 1 := ⟨room - 1, by omega⟩
    rw [chunk_loop_cons room cursor line inside, List.length_cons, drawnTotal]
    by_cases near : text.length ≤ start + retrievalChunkChars
    · rw [if_pos (chunk_end_near near inside), List.length_nil]
      omega
    · obtain ⟨after, more, goes⟩ := chunk_end_far (Nat.lt_of_not_le near)
      obtain ⟨room, rfl⟩ : ∃ k, room = k + 1 := ⟨room - 1, by omega⟩
      rw [if_neg more, goes, chunk_loop_cons room _ _ (by omega), List.length_cons]
      omega
  | succ chunks ih =>
    intro room start cursor line inside enough
    obtain ⟨room, rfl⟩ : ∃ k, room = k + 1 := ⟨room - 1, by omega⟩
    have total := drawn_total_le text (chunks + 1) start
    rw [half] at total
    rw [step, chunk_loop_cons room cursor line inside, List.length_cons]
    by_cases near : text.length ≤ start + retrievalChunkChars
    · rw [if_pos (chunk_end_near near inside), List.length_nil]
      omega
    · obtain ⟨after, more, goes⟩ := chunk_end_far (Nat.lt_of_not_le near)
      have small := drawn_back_le text start
      have inside_ : nextStart (chunkEnd text start) < text.length := by omega
      have rest := ih room (nextStart (chunkEnd text start)) start (line + newlines text cursor start) inside_ (by omega)
      rw [if_neg more, Nat.add_le_add_iff_right, rest, goes, drawnTotal, step]
      omega

end Drawn

theorem considers_few (text : Bytes) : Considers text (documentChunks text) ↔
      (layout text).length ≤ estimate text.length ∨ mostChunks ≤ estimate text.length := by
  obtain ⟨stop, covers, whole⟩ := layout_covers text (max_chunks_some text.length)
  have capped : maxChunks text.length = min (estimate text.length) mostChunks := by
    unfold maxChunks
    split_ifs <;> omega
  have size : (documentChunks text).length = min (maxChunks text.length) (layout text).length := by
    rw [document_chunks_take, List.length_take]
  rw [← document_chunks_take] at covers
  constructor
  · rintro ⟨stop', covers', reached | full⟩
    · cases final : (documentChunks text).getLast? with
      | none =>
        rw [List.getLast?_eq_none_iff] at final
        rw [final, List.length_nil] at size
        have some_ := max_chunks_some text.length
        omega
      | some last =>
        have same : stop' = stop := (covers'.last last final).symm.trans (covers.last last final)
        have few := whole.mp (same.symm.trans reached)
        omega
    · omega
  · intro enough
    refine ⟨stop, covers, ?_⟩
    rw [whole]
    omega

theorem estimate_iff (text : Bytes) : (layout text).length ≤ estimate text.length ↔
    drawnTotal text (text.length / (retrievalChunkChars - retrievalOverlapChars) + 1) 0 +
        text.length % (retrievalChunkChars - retrievalOverlapChars) ≤
      retrievalChunkChars - retrievalOverlapChars + retrievalChunkChars := by
  have wide : retrievalChunkChars = 2400 := rfl
  have step : retrievalChunkChars - retrievalOverlapChars = 2080 := rfl
  have half : retrievalChunkChars / 2 = 1200 := rfl
  have parts := Nat.div_add_mod text.length (retrievalChunkChars - retrievalOverlapChars)
  rw [estimate]
  rw [step] at parts ⊢
  by_cases inside : 0 < text.length
  · have few := chunk_loop_few (text.length / 2080 + 1) (text.length + 1) 0 0 1 inside (by omega)
    rw [step] at few
    exact few.trans ⟨fun most => by omega, fun most => by omega⟩
  · have none_ : text = [] := List.length_eq_zero_iff.mp (by omega)
    have total := drawn_total_le text (text.length / 2080 + 1) 0
    rw [half] at total
    rw [(layout_some text).mpr none_, List.length_nil]
    omega

-- The chunks cover the text just when the ends of the first of them are not drawn back too far, or their number is capped.
theorem chunks_cover_iff (text : Bytes) :
    Considers text (documentChunks text) ↔
      drawnTotal text (text.length / (retrievalChunkChars - retrievalOverlapChars) + 1) 0 +
          text.length % (retrievalChunkChars - retrievalOverlapChars) ≤
        retrievalChunkChars - retrievalOverlapChars + retrievalChunkChars ∨
      mostChunks ≤ estimate text.length := by
  rw [considers_few, estimate_iff]

-- Four line ends, each one just behind the middle of a chunk or just behind the end of the chunk before.
def unevenText : Bytes :=
  (List.range 5363).map fun i => if i = 1200 ∨ i = 2400 ∨ i = 3281 ∨ i = 4481 then newline else 0x61

theorem uneven_length : unevenText.length = 5363 := by
  rw [unevenText, List.length_map, List.length_range]

-- The ends are drawn back by one byte too many.
theorem uneven_not_covered : ¬Considers unevenText (documentChunks unevenText) := by
  have drawn : drawnTotal unevenText 3 0 = 3278 := by decide +kernel
  rw [considers_few, estimate_iff, uneven_length]
  rintro (few | capped)
  · have third : 5363 / (retrievalChunkChars - retrievalOverlapChars) + 1 = 3 := rfl
    rw [third, drawn] at few
    have rest : 5363 % (retrievalChunkChars - retrievalOverlapChars) = 1203 := rfl
    have most : retrievalChunkChars - retrievalOverlapChars + retrievalChunkChars = 4480 := rfl
    omega
  · have most : mostChunks = 8192 := rfl
    have room : estimate 5363 = 4 := rfl
    omega

end SamosaChat.Documents
