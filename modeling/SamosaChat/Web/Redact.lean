import SamosaChat.Lib.Rewriting
import SamosaChat.Web.Template

set_option autoImplicit false

namespace SamosaChat.Web

open Utf8 Text Json Iterate Rewriting

def neverSecret : List Bytes :=
  [utf8 "url", utf8 "results", utf8 "base_url"]

def webSecretValues (wc : WebConfig) (cap : Nat) : List Bytes :=
  match wc.user with
  | some (.obj fields) =>
    (fields.filterMap fun (key, kid) =>
      match kid with
      | .str str => if str.length < 8 ∨ key ∈ neverSecret then none else some str
      | _ => none).take cap
  | _ => []

def maskText : Bytes :=
  utf8 "<redacted>"

structure MemoryWrite where
  start : Nat
  bytes : Bytes

def put (mem : Bytes) (write : MemoryWrite) : Bytes :=
  mem.take write.start ++ write.bytes ++ mem.drop (write.start + write.bytes.length)

def roundWrites (secret mem : Bytes) (place : Nat) : List MemoryWrite :=
  if maskText.length > secret.length then [⟨place, List.replicate secret.length 0x2a⟩]
  else
    let masked := put mem ⟨place, maskText⟩
    [⟨place, maskText⟩, ⟨place + maskText.length, cstr (masked.drop (place + secret.length)) ++ [0]⟩]

structure Redaction where
  secrets : List Bytes
  mem : Bytes

def redactWrites : Redaction → List MemoryWrite
  | ⟨[], _⟩ => []
  | ⟨secret :: _, mem⟩ =>
    if secret = [] then []
    else
      match Text.find secret (cstr mem) with
      | some place => roundWrites secret mem place
      | none => []

def redactStep (state : Redaction) : Option Redaction :=
  match state.secrets with
  | [] => none
  | secret :: later =>
    if secret = [] then some ⟨later, state.mem⟩
    else
      match Text.find secret (cstr state.mem) with
      | some _ => some ⟨secret :: later, (redactWrites state).foldl put state.mem⟩
      | none => some ⟨later, state.mem⟩

def webRedact (rounds : Nat) (text : Bytes) (secrets : List Bytes) : Redaction :=
  iterate redactStep rounds ⟨secrets, text⟩

def mask (secret : Bytes) : Bytes :=
  if maskText.length > secret.length then List.replicate secret.length 0x2a else maskText

-- No secret is its own replacement, and none can share bytes with the replacement of a later one.
def Clear (secrets : List Bytes) : Prop :=
  (∀ secret ∈ secrets, mask secret ≠ secret) ∧
    secrets.Pairwise fun earlier later => meets earlier (mask later) = false

instance {secrets : List Bytes} : Decidable (Clear secrets) :=
  inferInstanceAs (Decidable (_ ∧ _))

theorem put_behind (front back bytes : Bytes) :
    put (front ++ back) ⟨front.length, bytes⟩ = front ++ bytes ++ back.drop bytes.length := by
  rw [put, List.take_left, ← List.drop_drop, List.drop_left]

theorem cstr_terminated {text rest : Bytes} (plain : (0 : UInt8) ∉ text) : cstr (text ++ 0 :: rest) = text := by
  rw [cstr_append plain]
  simp [cstr]

theorem mask_plain (secret : Bytes) : (0 : UInt8) ∉ mask secret := by
  rw [mask]
  split_ifs
  · intro inside
    exact absurd (List.eq_of_mem_replicate inside) (by decide)
  · decide

section Rounds

variable {secret before after rest text beyond : Bytes} {state next : Redaction} {secrets : List Bytes}

theorem round_text (rest : Bytes) (plain : (0 : UInt8) ∉ before ++ secret ++ after) :
    ∃ slack, slack.length + (mask secret).length = secret.length ∧
      (roundWrites secret (before ++ secret ++ after ++ 0 :: rest) before.length).foldl put
        (before ++ secret ++ after ++ 0 :: rest) = before ++ mask secret ++ after ++ 0 :: (slack ++ rest) ∧
      ∀ write ∈ roundWrites secret (before ++ secret ++ after ++ 0 :: rest) before.length,
        write.start + write.bytes.length ≤ (before ++ secret ++ after).length + 1 := by
  have whole : before ++ secret ++ after ++ 0 :: rest = before ++ (secret ++ (after ++ 0 :: rest)) := by
    simp only [List.append_assoc]
  rw [whole, roundWrites, mask]
  split_ifs with short
  · refine ⟨[], by simp, ?_, ?_⟩
    · rw [List.foldl_cons, List.foldl_nil, put_behind, List.length_replicate, List.drop_left]
      simp only [List.append_assoc, List.nil_append]
    · intro write inside
      rw [List.mem_singleton.mp inside]
      simp only [List.length_append, List.length_replicate]
      omega
  · have room : maskText.length ≤ secret.length := Nat.not_lt.mp short
    have masked : put (before ++ (secret ++ (after ++ 0 :: rest))) ⟨before.length, maskText⟩ =
        before ++ maskText ++ (secret.drop maskText.length ++ (after ++ 0 :: rest)) := by
      rw [put_behind, List.drop_append_of_le_length room]
    have text : cstr ((before ++ maskText ++ (secret.drop maskText.length ++ (after ++ 0 :: rest))).drop
        (before.length + secret.length)) = after := by
      have gone : (before ++ maskText ++ (secret.drop maskText.length ++ (after ++ 0 :: rest))).drop
          (before.length + secret.length) = after ++ 0 :: rest := by
        rw [← List.append_assoc]
        refine List.drop_left' ?_
        simp only [List.length_append, List.length_drop]
        omega
      rw [gone, cstr_terminated fun inside => plain (List.mem_append_right _ inside)]
    rw [masked]
    dsimp only
    rw [text]
    refine ⟨(secret.drop maskText.length ++ (after ++ [0])).drop (after.length + 1), ?_, ?_, ?_⟩
    · simp only [List.length_drop, List.length_append, List.length_singleton]
      omega
    · have inside : after.length + 1 ≤ (secret.drop maskText.length ++ (after ++ [0])).length := by
        simp only [List.length_append, List.length_singleton]
        omega
      have behind : secret.drop maskText.length ++ (after ++ 0 :: rest) =
          secret.drop maskText.length ++ (after ++ [0]) ++ rest := by
        simp only [List.append_assoc, List.singleton_append]
      rw [List.foldl_cons, List.foldl_cons, List.foldl_nil, masked, ← List.length_append, put_behind, List.length_append,
        List.length_singleton, behind, List.drop_append_of_le_length inside]
      simp only [List.append_assoc, List.cons_append, List.nil_append]
    · intro write inside
      have sizes : (before ++ secret ++ after).length = before.length + secret.length + after.length := by
        simp only [List.length_append]
      rcases List.mem_cons.mp inside with rfl | inside
      · dsimp only
        omega
      · rw [List.mem_singleton.mp inside]
        simp only [List.length_append, List.length_singleton]
        omega

theorem find_infix {place : Nat} (found : Text.find secret text = some place) :
    ∃ before after, text = before ++ secret ++ after ∧ before.length = place := by
  obtain ⟨⟨after, here⟩, inside, _⟩ := find_some found
  refine ⟨text.take place, after, ?_, ?_⟩
  · rw [List.append_assoc, here, List.take_append_drop]
  · rw [List.length_take]
    omega

theorem find_none_apart (missed : Text.find secret text = none) : ¬ secret <:+: text := by
  rintro ⟨before, after, rfl⟩
  refine find_none missed before.length (by simp only [List.length_append]; omega) ⟨after, ?_⟩
  rw [List.append_assoc, List.drop_left]

theorem redact_cases (memory : state.mem = text ++ 0 :: rest) (plain : (0 : UInt8) ∉ text)
    (named : ∀ secret ∈ state.secrets, secret ≠ []) (step : redactStep state = some next) :
    ∃ secret later, state.secrets = secret :: later ∧ ((¬ secret <:+: text ∧ next = ⟨later, state.mem⟩) ∨
        ∃ before after slack, text = before ++ secret ++ after ∧ slack.length + (mask secret).length = secret.length ∧
          next = ⟨secret :: later, before ++ mask secret ++ after ++ 0 :: (slack ++ rest)⟩) := by
  obtain ⟨secrets, mem⟩ := state
  subst memory
  have text_ : cstr (text ++ 0 :: rest) = text := cstr_terminated plain
  cases secrets with
  | nil => cases step
  | cons secret later =>
    refine ⟨secret, later, rfl, ?_⟩
    have some_ : secret ≠ [] := named secret List.mem_cons_self
    rw [redactStep] at step
    dsimp only at step
    rw [if_neg some_, text_] at step
    cases found : Text.find secret text with
    | none =>
      rw [found] at step
      cases step
      exact .inl ⟨find_none_apart found, rfl⟩
    | some place =>
      rw [found] at step
      cases step
      obtain ⟨before, after, rfl, rfl⟩ := find_infix found
      obtain ⟨slack, room, replaced, _⟩ := round_text rest plain
      refine .inr ⟨before, after, slack, rfl, room, ?_⟩
      rw [redactWrites, if_neg some_, text_, found]
      exact congrArg _ replaced

theorem writes_inside (memory : state.mem = text ++ 0 :: rest) (plain : (0 : UInt8) ∉ text) :
    ∀ write ∈ redactWrites state, write.start + write.bytes.length ≤ text.length + 1 := by
  obtain ⟨secrets, mem⟩ := state
  subst memory
  have text_ : cstr (text ++ 0 :: rest) = text := cstr_terminated plain
  intro write inside
  cases secrets with
  | nil => cases inside
  | cons secret later =>
    rw [redactWrites] at inside
    split_ifs at inside
    · cases inside
    · rw [text_] at inside
      cases found : Text.find secret text with
      | none =>
        rw [found] at inside
        cases inside
      | some place =>
        rw [found] at inside
        obtain ⟨before, after, rfl, rfl⟩ := find_infix found
        obtain ⟨_, _, _, within⟩ := round_text rest plain
        exact within write inside

end Rounds

def Redacting (secrets : List Bytes) (room : Nat) (beyond : Bytes) (state : Redaction) : Prop :=
  ∃ text slack done, state.mem = text ++ 0 :: (slack ++ beyond) ∧ (0 : UInt8) ∉ text ∧
    text.length + slack.length = room ∧ secrets = done ++ state.secrets ∧ ∀ secret ∈ done, ¬ secret <:+: text

def roundsLeft (room : Nat) (state : Redaction) : Nat :=
  state.secrets.length * (256 ^ room + 1) +
    match state.secrets with
    | [] => 0
    | secret :: _ => work secret (mask secret) (cstr state.mem)

section Runs

variable {secrets : List Bytes} {room : Nat} {beyond : Bytes} {state next : Redaction}

theorem redacting_step (long : ∀ secret ∈ secrets, 8 ≤ secret.length) (clear : Clear secrets)
    (redacting : Redacting secrets room beyond state) (step : redactStep state = some next) :
    Redacting secrets room beyond next ∧ roundsLeft room next < roundsLeft room state := by
  obtain ⟨text, slack, done, memory, plain, size, rfl, clean⟩ := redacting
  have named : ∀ secret ∈ state.secrets, secret ≠ [] := by
    rintro secret inside rfl
    exact absurd (long [] (List.mem_append_right _ inside)) (by decide)
  obtain ⟨secret, later, shape, ⟨missed, rfl⟩ | ⟨before, after, slack', rfl, room', rfl⟩⟩ :=
    redact_cases memory plain named step
  · constructor
    · refine ⟨text, slack, done ++ [secret], memory, plain, size, ?_, ?_⟩
      · rw [shape, List.append_assoc]
        rfl
      · intro s inside
        rcases List.mem_append.mp inside with old | new
        · exact clean s old
        · rw [List.mem_singleton.mp new]
          exact missed
    · have left : roundsLeft room state = (later.length + 1) * (256 ^ room + 1) + work secret (mask secret) (cstr state.mem) := by
        rw [roundsLeft, shape, List.length_cons]
      have head : roundsLeft room ⟨later, state.mem⟩ ≤ later.length * (256 ^ room + 1) + 256 ^ room := by
        rw [roundsLeft]
        refine Nat.add_le_add_left ?_ _
        cases later with
        | nil => exact Nat.zero_le _
        | cons first others =>
          rw [memory, cstr_terminated plain]
          exact (work_le _ _ _).trans (Nat.pow_le_pow_right (by omega) (by omega))
      rw [left, Nat.add_mul]
      omega
  · have plain' : (0 : UInt8) ∉ before ++ mask secret ++ after := by
      intro inside
      rcases List.mem_append.mp inside with inside | inside
      · rcases List.mem_append.mp inside with inside | inside
        · exact plain (List.mem_append_left _ (List.mem_append_left _ inside))
        · exact mask_plain secret inside
      · exact plain (List.mem_append_right _ inside)
    have among : secret ∈ done ++ state.secrets := by
      rw [shape]
      exact List.mem_append_right _ List.mem_cons_self
    constructor
    · refine ⟨before ++ mask secret ++ after, slack' ++ slack, done, ?_, plain', ?_, by rw [shape], ?_⟩
      · simp only [List.append_assoc]
      · simp only [List.length_append] at size ⊢
        omega
      · intro s old
        have apart := clear.2
        rw [shape] at apart
        exact apart_kept ((List.pairwise_append.mp apart).2.2 s old secret List.mem_cons_self) (clean s old)
    · have goes : (mask secret).length < secret.length ∨ (mask secret).length = secret.length ∧ mask secret ≠ secret :=
        (Nat.lt_or_eq_of_le (by omega)).imp_right fun same => ⟨same, clear.1 secret among⟩
      rw [roundsLeft, roundsLeft, shape, memory, cstr_terminated plain, cstr_terminated plain']
      exact Nat.add_lt_add_left (work_replaced goes before after) _

theorem stopped_done (stopped : redactStep state = none) : state.secrets = [] := by
  rw [redactStep] at stopped
  split at stopped
  · assumption
  · split_ifs at stopped
    split at stopped <;> cases stopped

theorem redacting_run (long : ∀ secret ∈ secrets, 8 ≤ secret.length) (clear : Clear secrets) (rounds : Nat)
    (redacting : Redacting secrets room beyond state) : Redacting secrets room beyond (iterate redactStep rounds state) :=
  iterate_invariant (fun _ _ held step => (redacting_step long clear held step).1) redacting

end Runs

def twoSecrets : List Bytes :=
  [utf8 "4111-2222-3333", utf8 "98765432"]

theorem own_mask_endless {secret text beyond : Bytes} {later : List Bytes} (own : mask secret = secret) (some_ : secret ≠ [])
    (plain : (0 : UInt8) ∉ text) (inside : secret <:+: text) (rounds : Nat) :
    webRedact rounds (text ++ 0 :: beyond) (secret :: later) = ⟨secret :: later, text ++ 0 :: beyond⟩ := by
  have kept : ∀ state next, state = ⟨secret :: later, text ++ 0 :: beyond⟩ → redactStep state = some next →
      next = ⟨secret :: later, text ++ 0 :: beyond⟩ := by
    rintro _ next rfl step
    rw [redactStep] at step
    dsimp only at step
    rw [if_neg some_, cstr_terminated plain] at step
    cases found : Text.find secret text with
    | none => exact absurd inside (find_none_apart found)
    | some place =>
      rw [found] at step
      cases step
      obtain ⟨before, after, rfl, rfl⟩ := find_infix found
      obtain ⟨slack, room, replaced, _⟩ := round_text beyond plain
      have none_ : slack = [] := List.length_eq_zero_iff.mp (by rw [own] at room; omega)
      rw [none_, own, List.nil_append] at replaced
      rw [redactWrites, if_neg some_, cstr_terminated plain, found]
      exact congrArg _ replaced
  exact iterate_invariant kept rfl

end SamosaChat.Web
