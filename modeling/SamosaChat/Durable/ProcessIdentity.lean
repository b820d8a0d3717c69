import SamosaChat.Lib.Decimal

set_option autoImplicit false

namespace SamosaChat.Durable

open Utf8 Text Decimal

def space : UInt8 := 0x20

def closeParen : UInt8 := 0x29

def llongMax : Int := 2 ^ 63 - 1

def llongMin : Int := -2 ^ 63

def atoll (text : Bytes) : Int :=
  max llongMin (min llongMax (numeral text).value)

-- strrchr: what follows the last occurrence.
def afterLast (c : UInt8) : Bytes → Option Bytes
  | [] => none
  | d :: rest =>
    match afterLast c rest with
    | some after => some after
    | none => if d = c then some rest else none

def fieldFrom : Nat → Nat → Bytes → Option Bytes
  | 0, _, _ => none
  | rounds + 1, field, cursor =>
    if cursor = [] then none
    else
      let start := cursor.dropWhile (· = space)
      if field = 22 then some (start.takeWhile (· ≠ space))
      else fieldFrom rounds (field + 1) (start.dropWhile (· ≠ space))

-- `stat` is what can be read of /proc/<pid>/stat, none when it cannot be opened.
def durableProcessIdentity (stat : Option Bytes) : Option Int :=
  match stat with
  | none => none
  | some content =>
    let buf := cstr (content.take 1023)
    if content.take 1023 = [] then none
    else
      match afterLast closeParen buf with
      | none => none
      | some cursor => (fieldFrom (cursor.length + 1) 2 cursor).map atoll

-- `running` says that the signal 0 does not fail for want of such a process.
def durableLockIsStale (running : Bool) (stat : Option Bytes) (recordedIdentity : Int) : Bool :=
  if running = false then true
  else
    match durableProcessIdentity stat with
    | some currentIdentity => currentIdentity != recordedIdentity
    | none => false

-- The line as proc(5) lays it out: pid, (comm), state, then the numbered fields from the fourth on.
structure ProcStat where
  pid : Nat
  comm : Bytes
  state : UInt8
  numbers : List Int
  pidRange : pid < 2 ^ 31
  commLength : comm.length < 64
  commText : (0 : UInt8) ∉ comm
  stateLetter : isAlpha state = true
  enough : 20 ≤ numbers.length
  range : ∀ n ∈ numbers, llongMin ≤ n ∧ n < 2 ^ 64
  startRange : 0 ≤ numbers[18] ∧ numbers[18] ≤ llongMax

namespace ProcStat

variable (stat : ProcStat)

def starttime : Int :=
  have := stat.enough
  stat.numbers[18]

def vsize : Int :=
  have := stat.enough
  stat.numbers[19]

def fields : Bytes :=
  stat.numbers.flatMap fun n => space :: decimalInt n

def line : Bytes :=
  decimal stat.pid ++ [space, 0x28] ++ stat.comm ++ [closeParen, space, stat.state] ++ stat.fields ++ [0x0a]

end ProcStat

variable {after : Bytes} {c : UInt8} {tokens : List Bytes}

theorem after_last_append (before : Bytes) (none_ : c ∉ after) : afterLast c (before ++ c :: after) = some after := by
  have last : ∀ rest : Bytes, c ∉ rest → afterLast c rest = none := by
    intro rest
    induction rest with
    | nil => exact fun _ => rfl
    | cons d rest ih =>
      intro none_
      obtain ⟨other, later⟩ := List.ne_and_not_mem_of_not_mem_cons none_
      rw [afterLast, ih later]
      exact if_neg (Ne.symm other)
  induction before with
  | nil =>
    rw [List.nil_append, afterLast, last after none_]
    exact if_pos rfl
  | cons d before ih => rw [List.cons_append, afterLast, ih]

theorem take_while_ne {field : Bytes} (inside : c ∉ field) :
    (field ++ after).takeWhile (· ≠ c) = field ++ after.takeWhile (· ≠ c) ∧
      (field ++ after).dropWhile (· ≠ c) = after.dropWhile (· ≠ c) := by
  induction field with
  | nil => exact ⟨rfl, rfl⟩
  | cons d field ih =>
    obtain ⟨other, later⟩ := List.ne_and_not_mem_of_not_mem_cons inside
    obtain ⟨taken, left⟩ := ih later
    have pass : decide (d ≠ c) = true := by simpa using Ne.symm other
    rw [List.cons_append, List.takeWhile_cons, List.dropWhile_cons, pass, if_pos rfl, if_pos rfl, taken, left]
    exact ⟨rfl, rfl⟩

theorem field_from_pass {rounds field : Nat} {token : Bytes} (some_ : token ≠ []) (text : space ∉ token) :
    fieldFrom (rounds + 1) field (space :: token ++ after) = if field = 22 then some (token ++ after.takeWhile (· ≠ space))
      else fieldFrom rounds (field + 1) (after.dropWhile (· ≠ space)) := by
  have start : (space :: token ++ after).dropWhile (· = space) = token ++ after := by
    cases token with
    | nil => exact absurd rfl some_
    | cons d token =>
      have other := (List.ne_and_not_mem_of_not_mem_cons text).1
      simp [Ne.symm other]
  obtain ⟨taken, left⟩ := @take_while_ne after _ _ text
  rw [fieldFrom, if_neg (by simp), start]
  dsimp only
  rw [taken, left]

theorem field_from_skip (good : ∀ token ∈ tokens, token ≠ [] ∧ space ∉ token) {last : Bytes}
    (some_ : last ≠ []) (text : space ∉ last) : ∀ {field rounds : Nat}, field + tokens.length = 22 → tokens.length < rounds →
      fieldFrom rounds field ((tokens.flatMap fun token => space :: token) ++ (space :: last ++ after)) =
        some (last ++ after.takeWhile (· ≠ space)) := by
  induction tokens with
  | nil =>
    intro field rounds count enough
    obtain ⟨rounds, rfl⟩ := Nat.exists_eq_succ_of_ne_zero (show rounds ≠ 0 by simp at enough; omega)
    rw [List.flatMap_nil, List.nil_append, field_from_pass some_ text, if_pos (by simpa using count)]
  | cons token tokens ih =>
    intro field rounds count enough
    rw [List.length_cons] at count enough
    obtain ⟨rounds, rfl⟩ := Nat.exists_eq_succ_of_ne_zero (show rounds ≠ 0 by omega)
    obtain ⟨full, plain⟩ := good token (by simp)
    rw [List.flatMap_cons, List.append_assoc, field_from_pass full plain, if_neg (by omega)]
    have next : ((tokens.flatMap fun token => space :: token) ++ (space :: last ++ after)).dropWhile (· ≠ space) =
        (tokens.flatMap fun token => space :: token) ++ (space :: last ++ after) := by
      cases tokens <;> simp
    rw [next]
    exact ih (fun t inside => good t (List.mem_cons_of_mem _ inside)) (by omega) (by omega)

theorem number_token {n : Int} (range : llongMin ≤ n ∧ n < 2 ^ 64) :
    decimalInt n ≠ [] ∧ space ∉ decimalInt n ∧ closeParen ∉ decimalInt n ∧ (0 : UInt8) ∉ decimalInt n ∧
      (decimalInt n).length ≤ 21 := by
  have apart : ∀ c : UInt8, c ≠ 0x2d → isDigit c = false → c ∉ decimalInt n := by
    intro c minus digit inside
    rcases decimal_int_bytes inside with same | yes
    · exact minus same
    · rw [digit] at yes
      cases yes
  refine ⟨decimal_int_ne_nil n, apart _ (by decide) (by decide), apart _ (by decide) (by decide),
    apart _ (by decide) (by decide), ?_⟩
  refine decimal_int_length (by omega) ?_
  unfold llongMin at range
  omega

structure Fields (tokens : List Bytes) : Prop where
  count : tokens.length = 20
  full : ∀ token ∈ tokens, token ≠ [] ∧ space ∉ token
  text : ∀ token ∈ tokens, closeParen ∉ token ∧ (0 : UInt8) ∉ token ∧ token.length ≤ 21

def ProcStat.head (stat : ProcStat) : Bytes :=
  decimal stat.pid ++ [space, 0x28] ++ stat.comm

def ProcStat.early (stat : ProcStat) : List Bytes :=
  [stat.state] :: (stat.numbers.take 19).map decimalInt

def ProcStat.late (stat : ProcStat) : Bytes :=
  ((stat.numbers.drop 20).flatMap fun n => space :: decimalInt n) ++ [0x0a]

def spaced (tokens : List Bytes) : Bytes :=
  tokens.flatMap fun token => space :: token

theorem line_split (stat : ProcStat) :
    stat.line = stat.head ++ closeParen :: (spaced stat.early ++ (space :: decimalInt stat.vsize ++ stat.late)) := by
  have enough := stat.enough
  have parts : stat.numbers = stat.numbers.take 19 ++ stat.vsize :: stat.numbers.drop 20 := by
    rw [show stat.vsize :: stat.numbers.drop 20 = stat.numbers.drop 19 from
      (List.drop_eq_getElem_cons (by omega)).symm, List.take_append_drop]
  have tokens : ∀ numbers : List Int, spaced (numbers.map decimalInt) = numbers.flatMap fun n => space :: decimalInt n :=
    fun numbers => by rw [spaced, List.flatMap_map]
  have fields : stat.fields = spaced ((stat.numbers.take 19).map decimalInt) ++
      (space :: decimalInt stat.vsize ++ (stat.numbers.drop 20).flatMap fun n => space :: decimalInt n) := by
    calc stat.fields
        = (stat.numbers.take 19 ++ stat.vsize :: stat.numbers.drop 20).flatMap fun n => space :: decimalInt n := by
          rw [ProcStat.fields, ← parts]
      _ = _ := by rw [tokens, List.flatMap_append, List.flatMap_cons]
  rw [ProcStat.line, fields, ProcStat.early, ProcStat.late, ProcStat.head]
  simp [spaced]

theorem early_fields (stat : ProcStat) : Fields stat.early := by
  have enough := stat.enough
  have state : stat.state ≠ space ∧ stat.state ≠ closeParen ∧ stat.state ≠ 0 := by
    refine ⟨?_, ?_, ?_⟩
    all_goals
      intro same
      have letter := stat.stateLetter
      rw [same] at letter
      exact absurd letter (by decide)
  refine ⟨by simp [ProcStat.early]; omega, fun token inside => ?_, fun token inside => ?_⟩
  · rcases List.mem_cons.mp inside with rfl | later
    · exact ⟨by simp, by simpa using Ne.symm state.1⟩
    · obtain ⟨n, among, rfl⟩ := List.mem_map.mp later
      obtain ⟨full, plain, _⟩ := number_token (stat.range n (List.mem_of_mem_take among))
      exact ⟨full, plain⟩
  · rcases List.mem_cons.mp inside with rfl | later
    · exact ⟨by simpa using Ne.symm state.2.1, by simpa using Ne.symm state.2.2, by simp⟩
    · obtain ⟨n, among, rfl⟩ := List.mem_map.mp later
      obtain ⟨_, _, text⟩ := number_token (stat.range n (List.mem_of_mem_take among))
      exact text

theorem late_text (stat : ProcStat) :
    closeParen ∉ stat.late ∧ (0 : UInt8) ∉ stat.late ∧ ∀ c ∈ stat.late.head?, c = space ∨ c = 0x0a := by
  have text : ∀ c ∈ stat.late, c = space ∨ c = 0x0a ∨ c ≠ closeParen ∧ c ≠ 0 := by
    intro c inside
    rcases List.mem_append.mp inside with among | last
    · obtain ⟨n, number, here⟩ := List.mem_flatMap.mp among
      rcases List.mem_cons.mp here with rfl | digit
      · exact .inl rfl
      · obtain ⟨_, _, paren, null, _⟩ := number_token (stat.range n (List.mem_of_mem_drop number))
        exact .inr (.inr ⟨fun same => paren (same ▸ digit), fun same => null (same ▸ digit)⟩)
    · exact .inr (.inl (List.mem_singleton.mp last))
  refine ⟨fun inside => ?_, fun inside => ?_, fun c first => ?_⟩
  · rcases text _ inside with same | same | apart
    · exact absurd same (by decide)
    · exact absurd same (by decide)
    · exact apart.1 rfl
  · rcases text _ inside with same | same | apart
    · exact absurd same (by decide)
    · exact absurd same (by decide)
    · exact apart.2 rfl
  · unfold ProcStat.late at first
    cases rest : stat.numbers.drop 20 with
    | nil =>
      rw [rest] at first
      exact .inr (by simpa using first.symm)
    | cons n numbers =>
      rw [rest] at first
      exact .inl (by simpa using first.symm)

theorem head_text (stat : ProcStat) : stat.head.length ≤ 75 ∧ (0 : UInt8) ∉ stat.head := by
  have digits := decimal_length (n := stat.pid) (k := 10) (by omega) (by have := stat.pidRange; omega)
  have short := stat.commLength
  refine ⟨by simp [ProcStat.head]; omega, fun inside => ?_⟩
  rcases List.mem_append.mp inside with front | name
  · rcases List.mem_append.mp front with digit | open_
    · exact absurd (decimal_digits digit) (by decide)
    · exact absurd open_ (by decide)
  · exact stat.commText name

theorem spaced_length (short : ∀ token ∈ tokens, token.length ≤ 21) :
    tokens.length ≤ (spaced tokens).length ∧ (spaced tokens).length ≤ 22 * tokens.length := by
  induction tokens with
  | nil => exact ⟨le_rfl, le_rfl⟩
  | cons token tokens ih =>
    have first := short token (by simp)
    obtain ⟨low, high⟩ := ih fun t inside => short t (List.mem_cons_of_mem _ inside)
    rw [spaced, List.flatMap_cons, List.length_append]
    unfold spaced at low high
    simp only [List.length_cons]
    omega

theorem spaced_none (other : c ≠ space) (none_ : ∀ token ∈ tokens, c ∉ token) : c ∉ spaced tokens := by
  intro inside
  obtain ⟨token, among, here⟩ := List.mem_flatMap.mp inside
  exact (List.mem_cons.mp here).elim other (none_ token among)

theorem process_identity_line (stat : ProcStat) : durableProcessIdentity (some stat.line) = some (min llongMax stat.vsize) := by
  have enough := stat.enough
  have number := number_token (stat.range stat.vsize (List.getElem_mem _))
  obtain ⟨full, plain, paren, null, short⟩ := number
  have fields := early_fields stat
  obtain ⟨latePlain, lateText, lateStart⟩ := late_text stat
  obtain ⟨headShort, headText⟩ := head_text stat
  have size := spaced_length fun token inside => (fields.text token inside).2.2
  rw [fields.count] at size
  let front := stat.head ++ closeParen :: (spaced stat.early ++ space :: decimalInt stat.vsize)
  have split : stat.line = front ++ stat.late := by
    rw [line_split stat]
    simp [front]
  have frontShort : front.length ≤ 1023 := by
    simp only [front, List.length_append, List.length_cons]
    omega
  -- The buffer holds the line up to the field the scan stops at.
  let rest := stat.late.take (1023 - front.length)
  have read : stat.line.take 1023 = front ++ rest := by
    rw [split, List.take_append, List.take_of_length_le frontShort]
  have restText : (0 : UInt8) ∉ rest ∧ closeParen ∉ rest :=
    ⟨fun inside => lateText (List.mem_of_mem_take inside), fun inside => latePlain (List.mem_of_mem_take inside)⟩
  have text : (0 : UInt8) ∉ front ++ rest := by
    simp only [front, List.mem_append, List.mem_cons, not_or]
    exact ⟨⟨headText, by decide, spaced_none (by decide) fun token inside => (fields.text token inside).2.1, by decide,
      null⟩, restText.1⟩
  have buffer : cstr (front ++ rest) = front ++ rest := cstr_self text
  have cursor : afterLast closeParen (front ++ rest) =
      some (spaced stat.early ++ (space :: decimalInt stat.vsize ++ rest)) := by
    have shape : front ++ rest =
        stat.head ++ closeParen :: (spaced stat.early ++ (space :: decimalInt stat.vsize ++ rest)) := by
      simp [front]
    rw [shape, after_last_append]
    simp only [List.mem_append, List.mem_cons, not_or]
    exact ⟨spaced_none (by decide) fun token inside => (fields.text token inside).1, ⟨by decide, paren⟩, restText.2⟩
  have junk : ∀ c ∈ (rest.takeWhile (· ≠ space)).head?, isDigit c = false := by
    intro c first
    have here : c ∈ rest.head? ∧ c ≠ space := by
      cases shape : rest with
      | nil => simp [shape] at first
      | cons d rest =>
        rw [shape, List.takeWhile_cons] at first
        split_ifs at first with plain
        · obtain rfl : d = c := by simpa using first
          exact ⟨by simp, by simpa using plain⟩
        · simp at first
    have late : c ∈ stat.late.head? := by
      have start := here.1
      simp only [rest, List.head?_take] at start
      split_ifs at start
      · simp at start
      · exact start
    rcases lateStart c late with same | same
    · exact absurd same here.2
    · rw [same]
      decide
  have scan := @field_from_skip rest _ fields.full (decimalInt stat.vsize) full plain 2
    ((spaced stat.early ++ (space :: decimalInt stat.vsize ++ rest)).length + 1)
    (by rw [fields.count]) (by rw [fields.count, List.length_append]; omega)
  unfold durableProcessIdentity
  dsimp only
  rw [read, buffer, if_neg (by simp [front]), cursor]
  dsimp only
  rw [show spaced stat.early ++ (space :: decimalInt stat.vsize ++ rest) =
    (stat.early.flatMap fun token => space :: token) ++ (space :: decimalInt stat.vsize ++ rest) from rfl] at scan ⊢
  rw [scan, Option.map_some, atoll, (numeral_decimal_int stat.vsize junk).1]
  have least := (stat.range stat.vsize (List.getElem_mem _)).1
  congr 1
  unfold llongMin llongMax at *
  omega

structure Verified (before now : ProcStat) : Prop where
  recorded : durableProcessIdentity (some before.line) = some before.starttime
  current : durableProcessIdentity (some now.line) = some now.starttime
  held : before.starttime = now.starttime → ∀ identity, durableProcessIdentity (some before.line) = some identity →
    durableProcessIdentity (some now.line) = some identity ∧ durableLockIsStale true (some now.line) identity = false
  replaced : before.starttime ≠ now.starttime →
    durableProcessIdentity (some before.line) ≠ durableProcessIdentity (some now.line)

def ReadsStart (stat : ProcStat) : Prop :=
  min llongMax stat.vsize = stat.starttime

theorem lock_identity (before now : ProcStat) : Verified before now ↔ ReadsStart before ∧ ReadsStart now := by
  constructor
  · intro verified
    have recorded := verified.recorded
    have current := verified.current
    rw [process_identity_line] at recorded current
    exact ⟨Option.some.inj recorded, Option.some.inj current⟩
  · rintro ⟨first, second⟩
    have recorded : durableProcessIdentity (some before.line) = some before.starttime := by
      rw [process_identity_line, first]
    have current : durableProcessIdentity (some now.line) = some now.starttime := by
      rw [process_identity_line, second]
    refine ⟨recorded, current, fun same identity known => ?_, fun other same => ?_⟩
    · cases known.symm.trans recorded
      refine ⟨by rw [current, same], ?_⟩
      simp [durableLockIsStale, current, same]
    · rw [recorded, current] at same
      exact other (Option.some.inj same)

def holder (vsize : Nat) (small : vsize < 2 ^ 64) : ProcStat where
  pid := 4242
  comm := utf8 "samosa) (x"
  state := 0x53
  numbers := [1, 4242, 4242, 0, -1, 4194560, 7, 0, 0, 0, 3, 1, 0, 0, 20, 0, 4, 0, 100, vsize]
  pidRange := by decide
  commLength := by decide
  commText := by decide
  stateLetter := by decide
  enough := by simp
  range := by
    intro n inside
    simp only [List.mem_cons, List.not_mem_nil, or_false] at inside
    unfold llongMin
    omega
  startRange := by simp [llongMax]

-- The holder maps one more page and is judged stale.
theorem live_holder_stale :
    (holder 4096 (by decide)).starttime = (holder 8192 (by decide)).starttime ∧
      durableProcessIdentity (some (holder 4096 (by decide)).line) = some 4096 ∧
      durableLockIsStale true (some (holder 8192 (by decide)).line) 4096 = true ∧
      ¬ Verified (holder 4096 (by decide)) (holder 8192 (by decide)) := by
  have recorded : durableProcessIdentity (some (holder 4096 (by decide)).line) = some 4096 := by decide
  have stale : durableLockIsStale true (some (holder 8192 (by decide)).line) 4096 = true := by decide
  refine ⟨rfl, recorded, stale, fun verified => ?_⟩
  have fine := (verified.held rfl 4096 recorded).2
  rw [stale] at fine
  cases fine

end SamosaChat.Durable
