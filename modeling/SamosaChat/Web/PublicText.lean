import SamosaChat.Lib.Spaced
import SamosaChat.Lib.Scanf
import Mathlib.Data.List.DropRight

set_option autoImplicit false

namespace SamosaChat.PublicText

open Utf8 Text Spaced

def isPunct (c : UInt8) : Bool :=
  0x21 ≤ c && c ≤ 0x7e && !isAlnum c

def webPublicQueryTokenPrivate (token : Bytes) : Bool :=
  token.isEmpty || token.contains 0x40 || 5 ≤ token.countP isDigit || startsWith "http://" token ||
    startsWith "https://" token || startsWith "www." token

def webPublicQueryPrivateLabel (word : Bytes) : Option Nat :=
  if word = utf8 "email" ∨ word = utf8 "e-mail" ∨ word = utf8 "phone" ∨ word = utf8 "telephone" ∨ word = utf8 "mobile" ∨
      word = utf8 "ssn" ∨ word = utf8 "passport" ∨ word = utf8 "account" ∨ word = utf8 "order" then
    some 2
  else if word = utf8 "address" ∨ word = utf8 "postcode" ∨ word = utf8 "zip" then some 6
  else none

def hash : UInt8 :=
  0x23

def hyphen : UInt8 :=
  0x2d

def trim (token : Bytes) : Bytes :=
  (token.dropWhile fun c => isPunct c && c != hash).rdropWhile fun c => isPunct c && c != hyphen && c != hash

def tokens (source : Bytes) : List Bytes :=
  ((pieces isSpace (cstr source)).map trim).filter fun token => !token.isEmpty

def word (token : Bytes) : Bytes :=
  (token.take 63).map toLower

-- How much of "my name is" or "I am" was read.
inductive Phrase where
  | clear
  | my
  | name
  | i
deriving DecidableEq

structure Scan where
  skipWords : Nat
  phrase : Phrase
  out : Bytes
  done : Bool
deriving DecidableEq

def start : Scan :=
  { skipWords := 0, phrase := .clear, out := [], done := false }

def separator (out : Bytes) : Nat :=
  if out = [] then 0 else 1

def add (out token : Bytes) : Bytes :=
  (if out = [] then [] else out ++ [0x20]) ++ token

def readWord (cap : Nat) (s : Scan) (token : Bytes) : Scan :=
  if word token = utf8 "my" then { s with phrase := .my }
  else if word token = utf8 "i" then { s with phrase := .i }
  else if word token = utf8 "i'm" ∨ word token = utf8 "im" then { s with skipWords := 2 }
  else
    match webPublicQueryPrivateLabel (word token) with
    | some skip => { s with skipWords := skip }
    | none =>
      if webPublicQueryTokenPrivate token then s
      else if separator s.out > cap - s.out.length ∨ token.length > cap - s.out.length - separator s.out then
        { s with done := true }
      else { s with out := add s.out token }

def read (cap : Nat) (s : Scan) (token : Bytes) : Scan :=
  if s.done = true ∨ cap ≤ s.out.length then s
  else if s.skipWords ≠ 0 then { s with skipWords := s.skipWords - 1 }
  else
    match s.phrase with
    | .my => { s with phrase := if word token = utf8 "name" then .name else .clear }
    | .name => { s with skipWords := if word token = utf8 "is" then 2 else 0, phrase := .clear }
    | .i => { s with skipWords := if word token = utf8 "am" then 2 else 0, phrase := .clear }
    | .clear => readWord cap s token

def scan (cap : Nat) (words : List Bytes) : Scan :=
  words.foldl (read cap) start

-- The text is NULL until the first token is added.
def webPublicText (source : Bytes) (cap : Nat) : Option Bytes :=
  let out := (scan cap (tokens source)).out
  if out = [] then none else some out

def Plain (token : Bytes) : Prop :=
  word token ≠ utf8 "my" ∧ word token ≠ utf8 "i" ∧ word token ≠ utf8 "i'm" ∧ word token ≠ utf8 "im" ∧
    webPublicQueryPrivateLabel (word token) = none ∧ webPublicQueryTokenPrivate token = false

def Label (token : Bytes) : Prop :=
  webPublicQueryPrivateLabel (word token) ≠ none

def Room (cap : Nat) (s : Scan) (token : Bytes) : Prop :=
  s.done = false ∧ s.out.length + separator s.out + token.length ≤ cap

def PassedOver (s : Scan) : Prop :=
  s.skipWords = 1 ∨ s.phrase ≠ .clear

-- What is sent: words of the text in their order, none of them an identifier or right behind a label.
structure Public (cap : Nat) (source out : Bytes) : Prop where
  bounded : out.length ≤ cap
  ordered : ∃ kept : List Bytes, kept.Sublist (tokens source) ∧ out = joined 0x20 kept ∧
    ∀ token ∈ kept, webPublicQueryTokenPrivate token = false
  unlabelled : ∀ front label token back, tokens source = front ++ label :: token :: back → Label label →
    (scan cap (front ++ [label, token])).out = (scan cap (front ++ [label])).out
  again : webPublicText out cap = some out

section Tokens

variable {source token : Bytes}

def Whole (token : Bytes) : Prop :=
  Solid isSpace token ∧ 0 ∉ token ∧ trim token = token

theorem trim_trim (token : Bytes) : trim (trim token) = trim token := by
  by_cases empty : trim token = []
  · rw [empty]
    rfl
  · have front : (trim token).dropWhile (fun c => isPunct c && c != hash) = trim token := by
      have lead : trim token <+: token.dropWhile fun c => isPunct c && c != hash := List.rdropWhile_prefix _ _
      obtain ⟨tail, shape⟩ := lead
      obtain ⟨c, rest, shape'⟩ := List.exists_cons_of_ne_nil empty
      rw [shape', List.cons_append] at shape
      have stops : (isPunct c && c != hash) = false := by
        have head := List.head?_dropWhile_not (fun c => isPunct c && c != hash) token
        rw [← shape, List.head?_cons] at head
        simpa using head
      rw [shape', List.dropWhile_cons, stops]
      rfl
    conv => lhs; rw [trim, front]
    rw [trim]
    exact List.rdropWhile_idempotent _ _

theorem trim_sublist (token : Bytes) : (trim token).Sublist token :=
  (List.rdropWhile_prefix _ _).sublist.trans (List.dropWhile_sublist _)

theorem tokens_whole (among : token ∈ tokens source) : Whole token := by
  obtain ⟨from_, some_⟩ := List.mem_filter.mp among
  obtain ⟨piece, split, rfl⟩ := List.mem_map.mp from_
  obtain ⟨solid, inside⟩ := pieces_solid split
  refine ⟨⟨fun empty => ?_, fun c here => solid.2 c ((trim_sublist piece).subset here)⟩, fun nul => ?_, trim_trim piece⟩
  · rw [empty] at some_
    cases some_
  · exact cstr_text source (inside 0 ((trim_sublist piece).subset nul))

theorem joined_mem {kept : List Bytes} {c : UInt8} (inside : c ∈ joined 0x20 kept) : c = 0x20 ∨ ∃ token ∈ kept, c ∈ token := by
  induction kept with
  | nil => cases inside
  | cons token kept ih =>
    by_cases more : kept = []
    · rw [more, joined, List.intercalate_singleton] at inside
      exact .inr ⟨token, List.mem_cons_self, inside⟩
    · rw [joined_cons more] at inside
      rcases List.mem_append.mp inside with here | later
      · exact .inr ⟨token, List.mem_cons_self, here⟩
      · rcases List.mem_cons.mp later with rfl | behind
        · exact .inl rfl
        · rcases ih behind with blank | ⟨other, among, here⟩
          · exact .inl blank
          · exact .inr ⟨other, List.mem_cons_of_mem token among, here⟩

theorem tokens_joined {kept : List Bytes} (whole : ∀ token ∈ kept, Whole token) : tokens (joined 0x20 kept) = kept := by
  have text : cstr (joined 0x20 kept) = joined 0x20 kept := by
    refine cstr_self fun nul => ?_
    rcases joined_mem nul with blank | ⟨token, among, here⟩
    · cases blank
    · exact (whole token among).2.1 here
  have apart : pieces isSpace (joined 0x20 kept) = kept := pieces_joined rfl fun token among => (whole token among).1
  have same : kept.map trim = kept := by
    conv => rhs; rw [← List.map_id kept]
    exact List.map_congr_left fun token among => (whole token among).2.2
  rw [tokens, text, apart, same, List.filter_eq_self]
  intro token among
  simpa using (whole token among).1.1

end Tokens

section Read

variable {cap : Nat} {s : Scan} {token : Bytes}

structure Taken (cap : Nat) (s : Scan) (token : Bytes) : Prop where
  unskipped : s.skipWords = 0
  clear : s.phrase = .clear
  plain : Plain token
  room : Room cap s token

theorem read_taken (some_ : token ≠ []) (taken : Taken cap s token) : read cap s token = { s with out := add s.out token } := by
  obtain ⟨unskipped, clear, ⟨my, i, im, im', label, open_⟩, going, fits⟩ := taken
  have long : 0 < token.length := List.length_pos_iff.mpr some_
  rw [read, if_neg (by rw [going]; simp; omega), if_neg (by rw [unskipped]; simp)]
  rw [clear]
  simp only
  rw [readWord, if_neg my, if_neg i, if_neg (not_or.mpr ⟨im, im'⟩), label]
  simp only
  rw [if_neg (by rw [open_]; exact Bool.false_ne_true), if_neg (by omega), clear]

theorem read_left (left : ¬Taken cap s token) : (read cap s token).out = s.out := by
  rw [read]
  by_cases ended : s.done = true ∨ cap ≤ s.out.length
  · rw [if_pos ended]
  rw [if_neg ended]
  by_cases skipped : s.skipWords ≠ 0
  · rw [if_pos skipped]
  rw [if_neg skipped]
  cases phrase : s.phrase with
  | my => rfl
  | name => rfl
  | i => rfl
  | clear =>
    simp only [readWord]
    by_cases my : word token = utf8 "my"
    · rw [if_pos my]
    rw [if_neg my]
    by_cases i : word token = utf8 "i"
    · rw [if_pos i]
    rw [if_neg i]
    by_cases im : word token = utf8 "i'm" ∨ word token = utf8 "im"
    · rw [if_pos im]
    rw [if_neg im]
    cases label : webPublicQueryPrivateLabel (word token) with
    | some skip => rfl
    | none =>
      simp only
      by_cases hidden : webPublicQueryTokenPrivate token = true
      · rw [if_pos hidden]
      rw [if_neg hidden]
      by_cases full : separator s.out > cap - s.out.length ∨ token.length > cap - s.out.length - separator s.out
      · rw [if_pos full]
      · have plain : Plain token := ⟨my, i, (not_or.mp im).1, (not_or.mp im).2, label, Bool.eq_false_iff.mpr hidden⟩
        have going : s.done = false := Bool.eq_false_iff.mpr (not_or.mp ended).1
        exact absurd ⟨by omega, phrase, plain, going, by omega⟩ left

theorem scan_snoc (words : List Bytes) (token : Bytes) : scan cap (words ++ [token]) = read cap (scan cap words) token := by
  rw [scan, List.foldl_append]
  rfl

def Steady (s : Scan) : Prop :=
  s.skipWords ≠ 0 → s.phrase = .clear

theorem read_steady (steady : Steady s) : Steady (read cap s token) := by
  rw [read]
  by_cases ended : s.done = true ∨ cap ≤ s.out.length
  · rw [if_pos ended]
    exact steady
  rw [if_neg ended]
  by_cases skipped : s.skipWords ≠ 0
  · rw [if_pos skipped]
    exact fun _ => steady skipped
  rw [if_neg skipped]
  cases phrase : s.phrase with
  | my => exact fun more => absurd more skipped
  | name => exact fun _ => rfl
  | i => exact fun _ => rfl
  | clear =>
    simp only [readWord]
    by_cases my : word token = utf8 "my"
    · rw [if_pos my]
      exact fun more => absurd more skipped
    rw [if_neg my]
    by_cases i : word token = utf8 "i"
    · rw [if_pos i]
      exact fun more => absurd more skipped
    rw [if_neg i]
    by_cases im : word token = utf8 "i'm" ∨ word token = utf8 "im"
    · rw [if_pos im]
      exact fun _ => phrase
    rw [if_neg im]
    cases webPublicQueryPrivateLabel (word token) with
    | some skip => exact fun _ => phrase
    | none =>
      simp only
      split_ifs
      · exact steady
      · exact steady
      · exact steady

theorem scan_steady (words : List Bytes) : Steady (scan cap words) := by
  induction words using List.reverseRecOn with
  | nil => exact fun _ => rfl
  | append_singleton words token ih =>
    rw [scan_snoc]
    exact read_steady ih

end Read

section Kept

variable {cap : Nat}

theorem add_joined {kept : List Bytes} (solid : ∀ token ∈ kept, token ≠ []) (token : Bytes) :
    add (joined 0x20 kept) token = joined 0x20 (kept ++ [token]) := by
  rw [add]
  by_cases none_ : kept = []
  · rw [none_, List.nil_append, joined, joined, List.intercalate_singleton]
    rfl
  · rw [if_neg (fun empty => none_ ((joined_empty solid).mp empty)), joined_concat none_, List.append_assoc]
    rfl

theorem add_length (out token : Bytes) : (add out token).length = out.length + separator out + token.length := by
  unfold add separator
  split_ifs with empty
  · rw [empty]
    simp
  · rw [List.length_append, List.length_append, List.length_singleton]

theorem scan_kept (words : List Bytes) (some_ : ∀ token ∈ words, token ≠ []) : ∃ kept : List Bytes, kept.Sublist words ∧
    (scan cap words).out = joined 0x20 kept ∧ (∀ token ∈ kept, Plain token) ∧ (scan cap words).out.length ≤ cap := by
  induction words using List.reverseRecOn with
  | nil => exact ⟨[], .slnil, rfl, fun token among => (by cases among), Nat.zero_le _⟩
  | append_singleton words token ih =>
    obtain ⟨before, last⟩ := List.forall_mem_append.mp some_
    have solid : token ≠ [] := last token (List.mem_singleton_self token)
    obtain ⟨kept, sub, out, plain, bounded⟩ := ih before
    rw [scan_snoc]
    by_cases taken : Taken cap (scan cap words) token
    · refine ⟨kept ++ [token], sub.append (List.Sublist.refl _), ?_, ?_, ?_⟩
      · rw [read_taken solid taken, ← add_joined (fun t among => before t (sub.subset among)), out]
      · exact List.forall_mem_append.mpr ⟨plain, fun t among => by rw [List.mem_singleton.mp among]; exact taken.plain⟩
      · rw [read_taken solid taken]
        exact (add_length _ _).trans_le taken.room.2
    · rw [read_left taken]
      exact ⟨kept, sub.trans (List.sublist_append_left words [token]), out, plain, bounded⟩

theorem scan_plain (kept : List Bytes) (solid : ∀ token ∈ kept, token ≠ []) (plain : ∀ token ∈ kept, Plain token)
    (bounded : (joined 0x20 kept).length ≤ cap) : scan cap kept = { start with out := joined 0x20 kept } := by
  induction kept using List.reverseRecOn with
  | nil => rfl
  | append_singleton kept token ih =>
    obtain ⟨solid_, last⟩ := List.forall_mem_append.mp solid
    obtain ⟨plain_, here⟩ := List.forall_mem_append.mp plain
    have fits : (joined 0x20 kept).length + separator (joined 0x20 kept) + token.length ≤ cap := by
      rw [← add_length, add_joined solid_]
      exact bounded
    have before := ih solid_ plain_ (by omega)
    rw [scan_snoc, before, ← add_joined solid_]
    exact read_taken (last token (List.mem_singleton_self token))
      ⟨rfl, rfl, here token (List.mem_singleton_self token), rfl, fits⟩

theorem read_grows (s : Scan) (token : Bytes) : s.out.length ≤ (read cap s token).out.length := by
  by_cases taken : Taken cap s token
  · by_cases empty : token = []
    · rw [empty] at taken
      have hidden := taken.plain.2.2.2.2.2
      cases hidden
    · rw [read_taken empty taken, add_length]
      omega
  · rw [read_left taken]

theorem scan_grows (front back : List Bytes) : (scan cap front).out.length ≤ (scan cap (front ++ back)).out.length := by
  induction back using List.reverseRecOn with
  | nil => rw [List.append_nil]
  | append_singleton back token ih =>
    rw [← List.append_assoc, scan_snoc]
    exact ih.trans (read_grows _ token)

end Kept

section Labels

variable {cap : Nat} {s : Scan} {label token : Bytes}

theorem phrase_words : webPublicQueryPrivateLabel (utf8 "my") = none ∧ webPublicQueryPrivateLabel (utf8 "i") = none ∧
    webPublicQueryPrivateLabel (utf8 "i'm") = none ∧ webPublicQueryPrivateLabel (utf8 "im") = none ∧
      webPublicQueryPrivateLabel (utf8 "name") = none ∧ webPublicQueryPrivateLabel (utf8 "is") = none ∧
        webPublicQueryPrivateLabel (utf8 "am") = none := by
  decide +kernel

theorem label_apart {said : Bytes} (named : Label label) (other : webPublicQueryPrivateLabel said = none) : word label ≠ said :=
  fun same => named (by rw [same, other])

theorem label_skips {word : Bytes} {skip : Nat} (named : webPublicQueryPrivateLabel word = some skip) : skip = 2 ∨ skip = 6 := by
  unfold webPublicQueryPrivateLabel at named
  split_ifs at named
  · exact .inl (Option.some.inj named).symm
  · exact .inr (Option.some.inj named).symm

theorem read_passed (going : ¬(s.done = true ∨ cap ≤ s.out.length)) (steady : Steady s) (named : Label label) (passed : PassedOver s) :
    read cap s label = { s with skipWords := 0, phrase := .clear } := by
  obtain ⟨_, _, _, _, name, is_, am⟩ := phrase_words
  rw [read, if_neg going]
  by_cases skipped : s.skipWords ≠ 0
  · have clear := steady skipped
    have last : s.skipWords = 1 := passed.resolve_right fun open_ => open_ clear
    rw [if_pos skipped, last, ← clear]
  · rw [if_neg skipped]
    have none_ : s.skipWords = 0 := by omega
    cases phrase : s.phrase with
    | my =>
      simp only
      rw [if_neg (label_apart named name), none_]
    | name =>
      simp only
      rw [if_neg (label_apart named is_)]
    | i =>
      simp only
      rw [if_neg (label_apart named am)]
    | clear =>
      rcases passed with one | open_
      · omega
      · exact absurd phrase open_

theorem read_label (going : ¬(s.done = true ∨ cap ≤ s.out.length)) (named : Label label) (read_ : ¬PassedOver s) :
    (read cap s label).skipWords ≠ 0 := by
  obtain ⟨many, clear⟩ := not_or.mp read_
  rw [read, if_neg going]
  by_cases skipped : s.skipWords ≠ 0
  · rw [if_pos skipped]
    change s.skipWords - 1 ≠ 0
    omega
  · obtain ⟨my, i, im, im', _⟩ := phrase_words
    obtain ⟨skip, found⟩ := Option.ne_none_iff_exists'.mp named
    rw [if_neg skipped, not_not.mp clear]
    simp only
    rw [readWord, if_neg (label_apart named my), if_neg (label_apart named i),
      if_neg (not_or.mpr ⟨label_apart named im, label_apart named im'⟩), found]
    rcases label_skips found with rfl | rfl
    · exact Nat.succ_ne_zero _
    · exact Nat.succ_ne_zero _

theorem not_taken_over (ended : s.done = true ∨ cap ≤ s.out.length) (some_ : token ≠ []) : ¬Taken cap s token := by
  rintro ⟨_, _, _, going, fits⟩
  have long : 0 < token.length := List.length_pos_iff.mpr some_
  rw [going] at ended
  rcases ended with stopped | full
  · cases stopped
  · omega

theorem behind_label_iff (steady : Steady s) (named : Label label) (some_ : token ≠ []) :
    (read cap (read cap s label) token).out = (read cap s label).out ↔ (PassedOver s → ¬(Plain token ∧ Room cap s token)) := by
  by_cases going : s.done = true ∨ cap ≤ s.out.length
  · have same : read cap s label = s := by rw [read, if_pos going]
    rw [same, read_left (not_taken_over going some_)]
    refine ⟨fun _ _ both => not_taken_over (s := { s with skipWords := 0, phrase := .clear }) going some_ ?_, fun _ => rfl⟩
    exact ⟨rfl, rfl, both.1, both.2⟩
  by_cases passed : PassedOver s
  · rw [read_passed going steady named passed]
    constructor
    · intro left _ both
      have taken : Taken cap { s with skipWords := 0, phrase := .clear } token := ⟨rfl, rfl, both.1, both.2⟩
      rw [read_taken some_ taken] at left
      have longer := congrArg List.length left
      have long : 0 < token.length := List.length_pos_iff.mpr some_
      simp only [add_length] at longer
      omega
    · intro clear
      exact read_left fun taken => clear passed ⟨taken.plain, taken.room⟩
  · refine ⟨fun _ both => absurd both passed, fun _ => read_left fun taken => ?_⟩
    exact read_label going named passed taken.unskipped

end Labels

section Main

variable {cap : Nat} {source : Bytes}

theorem tokens_some {token : Bytes} (among : token ∈ tokens source) : token ≠ [] :=
  (tokens_whole among).1.1

theorem sent_again {out : Bytes} (sent : webPublicText source cap = some out) : (scan cap (tokens source)).out = out ∧
    out.length ≤ cap ∧ webPublicText out cap = some out ∧ ∃ kept : List Bytes, kept.Sublist (tokens source) ∧
      out = joined 0x20 kept ∧ ∀ token ∈ kept, webPublicQueryTokenPrivate token = false := by
  obtain ⟨kept, sub, shape, plain, bounded⟩ := @scan_kept cap (tokens source) fun token => tokens_some
  have some_ : (scan cap (tokens source)).out ≠ [] ∧ (scan cap (tokens source)).out = out := by
    unfold webPublicText at sent
    simp only at sent
    split_ifs at sent with empty
    exact ⟨empty, Option.some.inj sent⟩
  rw [shape] at some_ bounded
  obtain ⟨full, rfl⟩ := some_
  have whole (token : Bytes) (among : token ∈ kept) : Whole token := tokens_whole (sub.subset among)
  have read_again : scan cap (tokens (joined 0x20 kept)) = { start with out := joined 0x20 kept } := by
    rw [tokens_joined whole]
    exact scan_plain kept (fun token among => (whole token among).1.1) plain bounded
  refine ⟨shape, bounded, ?_, kept, sub, rfl, fun token among => (plain token among).2.2.2.2.2⟩
  rw [webPublicText, read_again]
  exact if_neg full

-- The words that are sent are safe just when no plain word stands behind a label that is passed over.
theorem public_text_iff (source : Bytes) (cap : Nat) :
    (∀ out, webPublicText source cap = some out → Public cap source out) ↔
      ∀ front label token back, tokens source = front ++ label :: token :: back → Label label → PassedOver (scan cap front) →
        ¬(Plain token ∧ Room cap (scan cap front) token) := by
  have behind {front back : List Bytes} {label token : Bytes} (shape : tokens source = front ++ label :: token :: back)
      (named : Label label) : (scan cap (front ++ [label, token])).out = (scan cap (front ++ [label])).out ↔
        (PassedOver (scan cap front) → ¬(Plain token ∧ Room cap (scan cap front) token)) := by
    have some_ : token ≠ [] := @tokens_some source token (by rw [shape]; simp)
    have two : front ++ [label, token] = (front ++ [label]) ++ [token] := by simp
    rw [two, scan_snoc, scan_snoc]
    exact behind_label_iff (scan_steady front) named some_
  constructor
  · intro safe front label token back shape named passed both
    have here := behind shape named
    cases sent : webPublicText source cap with
    | some out =>
      exact here.mp ((safe out sent).unlabelled front label token back shape named) passed both
    | none =>
      -- Nothing was sent, so nothing was taken up to here.
      have empty : (scan cap (tokens source)).out = [] := by
        by_contra full
        rw [webPublicText] at sent
        rw [if_neg full] at sent
        cases sent
      have none_ (first rest : List Bytes) (cut : tokens source = first ++ rest) : (scan cap first).out = [] := by
        have grows := @scan_grows cap first rest
        rw [← cut, empty] at grows
        exact List.length_eq_zero_iff.mp (Nat.le_zero.mp grows)
      refine here.mp ?_ passed both
      rw [none_ (front ++ [label, token]) back (by rw [shape]; simp), none_ (front ++ [label]) (token :: back) (by rw [shape]; simp)]
  · intro clear out sent
    obtain ⟨_, bounded, again, ordered⟩ := sent_again sent
    exact ⟨bounded, ordered, fun front label token back shape named =>
      (behind shape named).mpr (clear front label token back shape named), again⟩

theorem label_behind_my : ¬∀ out, webPublicText (utf8 "my email janedoe") 220 = some out → Public 220 (utf8 "my email janedoe") out := by
  have run : tokens (utf8 "my email janedoe") = [utf8 "my", utf8 "email", utf8 "janedoe"] ∧
      webPublicText (utf8 "my email janedoe") 220 = some (utf8 "janedoe") ∧
        webPublicQueryPrivateLabel (word (utf8 "email")) = some 2 ∧
          (scan 220 [utf8 "my", utf8 "email", utf8 "janedoe"]).out ≠ (scan 220 [utf8 "my", utf8 "email"]).out := by
    decide +kernel
  obtain ⟨shape, sent, named, taken⟩ := run
  intro safe
  exact taken ((safe _ sent).unlabelled [utf8 "my"] (utf8 "email") (utf8 "janedoe") [] shape
    (by rw [Label, named]; exact Option.some_ne_none 2))

end Main

end SamosaChat.PublicText
