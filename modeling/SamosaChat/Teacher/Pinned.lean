import SamosaChat.Lib.Find
import SamosaChat.Lib.Marks

set_option autoImplicit false

-- Text of a document that becomes a part of the compaction memory.
namespace SamosaChat.Teacher

open Utf8 Text Marks

def pins : List (Bytes × Bytes) :=
  [(utf8 "<|im_start|>", utf8 "<| im_start |>"), (utf8 "<|im_end|>", utf8 "<| im_end |>"),
    (utf8 "<|endoftext|>", utf8 "<| endoftext |>")]

structure ServeBuffer where
  data : Bytes
  capacity : Nat

-- The capacity is doubled until the need fits. Sixty-four rounds are enough: after them any is past SIZE_MAX / 2.
def doubled (need : Nat) : Nat → Nat → Option Nat
  | 0, _ => none
  | rounds + 1, capacity =>
    if capacity < need then
      if capacity > (2 ^ 64 - 1) / 2 then none
      else doubled need rounds (capacity * 2)
    else some capacity

def ServeBuffer.first (buffer : ServeBuffer) : Nat :=
  if buffer.capacity = 0 then 1024 else buffer.capacity

section Append

-- Whether realloc grants a capacity. None is asked for twice in one call.
variable (realloc : Nat → Bool)

def serveBufferAppend (buffer : ServeBuffer) (piece : Bytes) : ServeBuffer × Bool :=
  let need := (buffer.data.length + piece.length + 1) % 2 ^ 64
  if need < buffer.data.length then (buffer, false)
  else if need > buffer.capacity then
    match doubled need 64 buffer.first with
    | some capacity =>
      if realloc capacity then (⟨buffer.data ++ piece, capacity⟩, true)
      else (buffer, false)
    | none => (buffer, false)
  else (⟨buffer.data ++ piece, buffer.capacity⟩, true)

def pinnedFrom : Nat → Bytes → ServeBuffer → ServeBuffer × Bool
  | _, [], buffer => (buffer, true)
  | skip + 1, _ :: rest, buffer => pinnedFrom skip rest buffer
  | 0, c :: rest, buffer =>
    match entryAt pins (c :: rest) with
    | some (marker, safe) =>
      match serveBufferAppend realloc buffer safe with
      | (buffer, true) => pinnedFrom (marker.length - 1) rest buffer
      | (buffer, false) => (buffer, false)
    | none =>
      match serveBufferAppend realloc buffer [c] with
      | (buffer, true) => pinnedFrom 0 rest buffer
      | (buffer, false) => (buffer, false)

def serveAppendCompactionPinned (buffer : ServeBuffer) (text : Option Bytes) : ServeBuffer × Bool :=
  pinnedFrom realloc 0 (cstr (text.getD [])) buffer

variable {realloc}

theorem doubled_reaches {need : Nat} (small : need ≤ 2 ^ 63) (rounds : Nat) :
    ∀ capacity, need ≤ capacity * 2 ^ rounds → ∃ enough, doubled need (rounds + 1) capacity = some enough := by
  induction rounds with
  | zero =>
    intro capacity reaches
    exact ⟨capacity, by rw [doubled, if_neg (by omega)]⟩
  | succ rounds ih =>
    intro capacity reaches
    rw [doubled]
    split_ifs with less large
    · omega
    · exact ih _ (by rwa [Nat.pow_succ', ← Nat.mul_assoc] at reaches)
    · exact ⟨capacity, rfl⟩

variable (realloc) in
structure Puts (buffer : ServeBuffer) (put out : Bytes) (result : ServeBuffer × Bool) : Prop where
  data : result.1.data = buffer.data ++ out
  start : out <+: put
  all : result.2 = true → out = put
  goes : (∀ capacity, realloc capacity = true) → buffer.data.length + put.length < 2 ^ 63 → result.2 = true

variable {buffer buffer' : ServeBuffer} {put out : Bytes} {result : ServeBuffer × Bool}

variable (realloc) in
theorem append_puts (buffer : ServeBuffer) (piece : Bytes) :
    ∃ out, Puts realloc buffer piece out (serveBufferAppend realloc buffer piece) := by
  have put (capacity : Nat) : ∃ out, Puts realloc buffer piece out (⟨buffer.data ++ piece, capacity⟩, true) :=
    ⟨piece, rfl, List.prefix_rfl, fun _ => rfl, fun _ _ => rfl⟩
  have stays (never : (∀ capacity, realloc capacity = true) → ¬ buffer.data.length + piece.length < 2 ^ 63) :
      ∃ out, Puts realloc buffer piece out (buffer, false) :=
    ⟨[], (List.append_nil _).symm, List.nil_prefix, nofun, fun grants small => absurd small (never grants)⟩
  unfold serveBufferAppend
  dsimp only
  split_ifs with wraps grows
  · exact stays fun _ => by omega
  · have first : 1 ≤ buffer.first := by
      unfold ServeBuffer.first
      split_ifs <;> omega
    cases more : doubled ((buffer.data.length + piece.length + 1) % 2 ^ 64) 64 buffer.first with
    | none =>
      refine stays fun _ small => ?_
      obtain ⟨enough, reaches⟩ :=
        doubled_reaches (show (buffer.data.length + piece.length + 1) % 2 ^ 64 ≤ 2 ^ 63 by omega) 63 buffer.first (by omega)
      rw [more] at reaches
      cases reaches
    | some capacity =>
      dsimp only
      split_ifs with granted
      · exact put capacity
      · exact stays fun grants _ => granted (grants capacity)
  · exact put buffer.capacity

theorem puts_then {rest : Bytes} (next : ServeBuffer → ServeBuffer × Bool)
    (later : ∀ buffer, ∃ out, Puts realloc buffer rest out (next buffer)) (buffer : ServeBuffer) (piece : Bytes) :
    ∃ out, Puts realloc buffer (piece ++ rest) out
      (match serveBufferAppend realloc buffer piece with
      | (buffer, true) => next buffer
      | (buffer, false) => (buffer, false)) := by
  obtain ⟨out, puts⟩ := append_puts realloc buffer piece
  revert puts
  rcases serveBufferAppend realloc buffer piece with ⟨buffer', done⟩
  intro puts
  cases done with
  | false =>
    refine ⟨out, puts.data, puts.start.trans (List.prefix_append _ _), nofun, fun grants small => ?_⟩
    rw [List.length_append] at small
    exact puts.goes grants (by omega)
  | true =>
    obtain ⟨out', puts'⟩ := later buffer'
    have data := puts.data
    rw [puts.all rfl] at data
    refine ⟨piece ++ out', ?_, (List.prefix_append_right_inj piece).mpr puts'.start, fun all => ?_, fun grants small => ?_⟩
    · rw [puts'.data, data, List.append_assoc]
    · rw [puts'.all all]
    · refine puts'.goes grants ?_
      rw [data, List.length_append]
      rwa [List.length_append, ← Nat.add_assoc] at small

variable (realloc) in
theorem pinned_puts (text : Bytes) : ∀ (skip : Nat) (buffer : ServeBuffer),
    ∃ out, Puts realloc buffer (rewriteFrom pins skip text) out (pinnedFrom realloc skip text buffer) := by
  induction text with
  | nil =>
    intro skip buffer
    refine ⟨[], ?_⟩
    cases skip <;> exact ⟨(List.append_nil _).symm, List.nil_prefix, fun _ => rfl, fun _ _ => rfl⟩
  | cons c rest ih =>
    intro skip buffer
    cases skip with
    | succ skip => exact ih skip buffer
    | zero =>
      rw [pinnedFrom, rewriteFrom]
      cases entryAt pins (c :: rest) with
      | none => exact puts_then (pinnedFrom realloc 0 rest) (ih 0) buffer [c]
      | some entry => exact puts_then (pinnedFrom realloc (entry.1.length - 1) rest) (ih (entry.1.length - 1)) buffer entry.2

end Append

theorem pins_apart : Apart 0x3c pins ∧ Apart 0x3c (back pins) := by
  have words : ∀ entry ∈ pins, (entry.1.head? = some 0x3c ∧ 0x3c ∉ entry.1.tail) ∧ (entry.2.head? = some 0x3c ∧ 0x3c ∉ entry.2.tail) ∧
      ∀ entry' ∈ pins, (¬ entry.1 <+: entry'.2 ∧ ¬ entry'.2 <+: entry.1) ∧ (entry.1 <+: entry'.1 → entry = entry') ∧
        (entry.2 <+: entry'.2 → entry = entry') := by
    decide +kernel
  have apart : Apart 0x3c pins :=
    ⟨fun entry inside => (words entry inside).1, fun entry inside => (words entry inside).2.1,
      fun entry inside entry' inside' => ((words entry inside).2.2 entry' inside').1,
      fun entry inside entry' inside' => ((words entry inside).2.2 entry' inside').2.2⟩
  exact ⟨apart, apart_back apart fun entry inside entry' inside' => ((words entry inside).2.2 entry' inside').2.1⟩

def pinnedText (text : Option Bytes) : Bytes :=
  cstr (text.getD [])

-- What is appended for a text: no marker is in it, a text without a marker is kept, one without a safe form can be had back, and
-- nothing of it changes when it is appended again.
structure Neutral (realloc : Nat → Bool) (buffer : ServeBuffer) (text : Option Bytes) (out : Bytes) : Prop where
  data : (serveAppendCompactionPinned realloc buffer text).1.data = buffer.data ++ out
  free : ∀ entry ∈ pins, ¬ entry.1 <:+: out
  goes : (∀ capacity, realloc capacity = true) → buffer.data.length + (rewrite pins (pinnedText text)).length < 2 ^ 63 →
    (serveAppendCompactionPinned realloc buffer text).2 = true
  same : (serveAppendCompactionPinned realloc buffer text).2 = true →
    (∀ entry ∈ pins, ¬ entry.1 <:+: pinnedText text) → out = pinnedText text
  restores : (serveAppendCompactionPinned realloc buffer text).2 = true →
    (∀ entry ∈ pins, ¬ entry.2 <:+: pinnedText text) → rewrite (back pins) out = pinnedText text
  again : ∀ (realloc' : Nat → Bool) (buffer' : ServeBuffer), (serveAppendCompactionPinned realloc' buffer' (some out)).2 = true →
    (serveAppendCompactionPinned realloc' buffer' (some out)).1.data = buffer'.data ++ out

theorem pinned_neutral (realloc : Nat → Bool) (buffer : ServeBuffer) (text : Option Bytes) :
    ∃ out, Neutral realloc buffer text out := by
  obtain ⟨out, puts⟩ := pinned_puts realloc (pinnedText text) 0 buffer
  obtain ⟨apart, behind⟩ := pins_apart
  have free : ∀ entry ∈ pins, ¬ entry.1 <:+: out := fun entry inside within =>
    rewrite_free apart inside _ (pinnedText text) (Nat.le_refl _) (within.trans puts.start.isInfix)
  have clean : (0 : UInt8) ∉ out := fun inside => by
    have safe : ∀ entry ∈ pins, (0 : UInt8) ∉ entry.2 := by decide +kernel
    rcases mem_rewrite _ _ (puts.start.subset inside) with from_ | ⟨entry, member, put⟩
    · exact cstr_text _ from_
    · exact safe entry member put
  have whole : cstr out = out := by
    have ends := cstr_append clean []
    rwa [List.append_nil, show cstr [] = [] from rfl, List.append_nil] at ends
  refine ⟨out, puts.data, free, puts.goes, fun done none_ => ?_, fun done none_ => ?_, fun realloc' buffer' done => ?_⟩
  · rw [puts.all done]
    exact rewrite_same none_
  · rw [puts.all done]
    exact rewrite_restores apart behind _ _ (Nat.le_refl _) none_
  · obtain ⟨out', puts'⟩ := pinned_puts realloc' (cstr out) 0 buffer'
    have kept := puts'.all done
    rw [whole] at kept
    have same : out' = out := kept.trans (rewrite_same free)
    exact puts'.data.trans (congrArg (buffer'.data ++ ·) same)

end SamosaChat.Teacher
