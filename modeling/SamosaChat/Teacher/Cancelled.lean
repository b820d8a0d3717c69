import SamosaChat.Lib.Text
import SamosaChat.Teacher.Growth

set_option autoImplicit false

-- What is kept of a turn that was cancelled.
namespace SamosaChat.Teacher

open Utf8 Text

def closes (c : UInt8) : Bool :=
  c ∈ utf8 " \t\n\r)]\"'*\x60"

def pieceEndsSentence (piece : Bytes) : Bool :=
  match piece.reverse.dropWhile closes with
  | c :: _ => c ∈ utf8 ".!?"
  | [] => false

-- The last place from start to stop at which the loop finds what it looks for, -1 where there is none.
def lastFrom (p : Nat → Bool) : List Nat → Nat → Int → Int
  | [], _, last => last
  | id :: ids, i, last => lastFrom p ids (i + 1) (if p id then i else last)

def lastIn (p : Nat → Bool) (transcript : List Nat) (start stop : Nat) : Int :=
  lastFrom p ((transcript.take stop).drop start) start (-1)

-- `piece` is what tok_decode writes for one token.
def cancelledTurnTrim (piece : Nat → Bytes) (transcript : List Nat) (answerStart : Nat) (thinkOpen thinkClose : Int) : Nat :=
  let lastOpen := lastIn (fun id => id = thinkOpen) transcript answerStart transcript.length
  let lastClose := lastIn (fun id => id ≠ thinkOpen ∧ id = thinkClose) transcript answerStart transcript.length
  let finalLen := if lastOpen > lastClose then lastOpen.toNat else transcript.length
  let start := if lastClose ≥ answerStart then lastClose.toNat + 1 else answerStart
  let boundary := lastIn (fun id => pieceEndsSentence (piece id)) transcript start finalLen
  if boundary ≥ 0 then boundary.toNat + 1 else 0

section Save

variable {α : Type} [Zero α] (geometry : Geometry) (grants : Nat → Bool) (compute : Nat → View α → Written α)

-- One round of the decode loop: whether the cancellation is seen at its start, the token, what the sink returns for it, and
-- whether a cycle of tokens is found.
structure Round where
  flag : Bool
  token : Nat
  sink : Int
  repeated : Bool

-- The session and the transcript as the loop leaves them, and whether the turn was cancelled. None where a step has no room.
def decode : List Round → Session α → List Nat → Option (Session α × List Nat × Bool)
  | [], session, transcript => some (session, transcript, false)
  | round :: rounds, session, transcript =>
    if round.flag then some (session, transcript, true)
    else if round.sink ≠ 0 then some (session, transcript ++ [round.token], round.sink ≠ 1)
    else if round.repeated ∨ rounds = [] then some (session, transcript ++ [round.token], false)
    else (turn geometry grants compute session (.step round.token)).bind fun session =>
      decode rounds session (transcript ++ [round.token])

-- What session_save writes of the model: the tokens, and of the caches the rows of all but the last one.
def sessionSave (session : Session α) (tokens : List Nat) : Option (List Nat × View α) :=
  if tokens.length < 2 then none else some (tokens, view geometry { session with usedRows := tokens.length - 1 })

-- None keeps the snapshot from before.
def saveCancelled (piece : Nat → Bytes) (thinkOpen thinkClose : Int) (session : Session α) (transcript : List Nat) (np : Nat) :
    Option (List Nat × View α) :=
  let saveLen := cancelledTurnTrim piece transcript np thinkOpen thinkClose
  if saveLen = 0 then none else sessionSave geometry session (transcript.take saveLen)

def stepAll (tokens : List Nat) (session : Session α) : Option (Session α) :=
  (tokens.map Turn.step).foldlM (turn geometry grants compute) session

end Save

section Trim

theorem last_from (p : Nat → Bool) (ids : List Nat) : ∀ (i : Nat) (last : Int),
    (lastFrom p ids i last = last ∧ ∀ id ∈ ids, p id = false) ∨
      ∃ j id, ids[j]? = some id ∧ p id = true ∧ lastFrom p ids i last = (i + j : Nat) ∧
        ∀ k id', j < k → ids[k]? = some id' → p id' = false := by
  induction ids with
  | nil => exact fun i last => .inl ⟨rfl, nofun⟩
  | cons id ids ih =>
    intro i last
    rw [lastFrom]
    rcases ih (i + 1) (if p id then i else last) with ⟨same, none_⟩ | ⟨j, found, here, holds, is, later⟩
    · by_cases first : p id = true
      · rw [if_pos first] at same
        refine .inr ⟨0, id, rfl, first, by rw [if_pos first, same]; rfl, fun k id' above there => ?_⟩
        obtain ⟨k, rfl⟩ := Nat.exists_eq_succ_of_ne_zero (by omega : k ≠ 0)
        exact none_ id' (List.mem_of_getElem? there)
      · rw [if_neg first] at same ⊢
        exact .inl ⟨same, List.forall_mem_cons.mpr ⟨Bool.not_eq_true _ ▸ first, none_⟩⟩
    · refine .inr ⟨j + 1, found, here, holds, by rw [is]; omega, fun k id' above there => ?_⟩
      obtain ⟨k, rfl⟩ := Nat.exists_eq_succ_of_ne_zero (by omega : k ≠ 0)
      exact later k id' (by omega) there

theorem last_in (p : Nat → Bool) (transcript : List Nat) (start stop : Nat) :
    (lastIn p transcript start stop = -1 ∨ ∃ i id, lastIn p transcript start stop = (i : Nat) ∧ start ≤ i ∧ i < stop ∧
        transcript[i]? = some id ∧ p id = true) ∧
      ∀ i id, start ≤ i → i < stop → transcript[i]? = some id → p id = true → (i : Int) ≤ lastIn p transcript start stop := by
  have read {j : Nat} {id : Nat} :
      ((transcript.take stop).drop start)[j]? = some id ↔ start + j < stop ∧ transcript[start + j]? = some id := by
    rw [List.getElem?_drop, List.getElem?_take]
    split_ifs with inside
    · exact ⟨fun there => ⟨inside, there⟩, fun there => there.2⟩
    · exact ⟨nofun, fun there => absurd there.1 inside⟩
  rcases last_from p ((transcript.take stop).drop start) start (-1) with ⟨same, none_⟩ | ⟨j, found, here, holds, is, later⟩
  · refine ⟨.inl same, fun i id above below there wanted => ?_⟩
    have inside := read.mpr ⟨by omega, (by rwa [Nat.add_sub_cancel' above] : transcript[start + (i - start)]? = some id)⟩
    rw [none_ id (List.mem_of_getElem? inside)] at wanted
    cases wanted
  · obtain ⟨below, there⟩ := read.mp here
    refine ⟨.inr ⟨start + j, found, is, by omega, below, there, holds⟩, fun i id above less there' wanted => ?_⟩
    have inside := read.mpr ⟨by omega, (by rwa [Nat.add_sub_cancel' above] : transcript[start + (i - start)]? = some id)⟩
    by_contra after
    rw [lastIn, is] at after
    rw [later (i - start) id (by omega) inside] at wanted
    cases wanted

variable {piece : Nat → Bytes} {thinkOpen thinkClose : Int} {transcript : List Nat} {np : Nat}

def IsMark (mark : Int) (transcript : List Nat) (i : Nat) : Prop :=
  ∃ id : Nat, transcript[i]? = some id ∧ (id : Int) = mark

def OpenAt (thinkOpen thinkClose : Int) (transcript : List Nat) (n : Nat) : Prop :=
  ∃ i < n, IsMark thinkOpen transcript i ∧ ∀ j, i < j → j < n → ¬ IsMark thinkClose transcript j

def Unnested (thinkOpen thinkClose : Int) (transcript : List Nat) : Prop :=
  ∀ i, IsMark thinkOpen transcript i → ¬ OpenAt thinkOpen thinkClose transcript i

-- The cut is behind the prompt and behind the end of a sentence, and in no block that the answer has opened in its turn.
theorem trim_cuts (cut : cancelledTurnTrim piece transcript np thinkOpen thinkClose ≠ 0) :
    ∃ i id, cancelledTurnTrim piece transcript np thinkOpen thinkClose = i + 1 ∧ np ≤ i ∧ transcript[i]? = some id ∧
      pieceEndsSentence (piece id) = true ∧
      (thinkOpen ≠ thinkClose → ¬ OpenAt thinkOpen thinkClose transcript np → Unnested thinkOpen thinkClose transcript →
        ¬ OpenAt thinkOpen thinkClose transcript (i + 1)) := by
  obtain ⟨opened, opens⟩ := last_in (fun id => id = thinkOpen) transcript np transcript.length
  obtain ⟨closed, shuts⟩ := last_in (fun id => id ≠ thinkOpen ∧ id = thinkClose) transcript np transcript.length
  unfold cancelledTurnTrim at cut ⊢
  dsimp only at cut ⊢
  revert cut opened opens closed shuts
  generalize lastIn (fun id => id = thinkOpen) transcript np transcript.length = lastOpen
  generalize lastIn (fun id => id ≠ thinkOpen ∧ id = thinkClose) transcript np transcript.length = lastClose
  intro cut opened opens closed shuts
  obtain ⟨found, _⟩ := last_in (fun id => pieceEndsSentence (piece id)) transcript
    (if lastClose ≥ np then lastClose.toNat + 1 else np) (if lastOpen > lastClose then lastOpen.toNat else transcript.length)
  rcases found with none_ | ⟨i, id, is, above, below, there, ends⟩
  · rw [none_, if_neg (by omega)] at cut
    exact absurd rfl cut
  rw [is, if_pos (by omega)]
  have behind : np ≤ i ∧ lastClose ≤ i := by
    split_ifs at above <;> omega
  refine ⟨i, id, rfl, behind.1, there, ends, fun apart noPrompt unnested => ?_⟩
  rintro ⟨k, less, ⟨id', there', mark⟩, open_⟩
  by_cases early : k < np
  · exact noPrompt ⟨k, early, ⟨id', there', mark⟩, fun j after before => open_ j after (by omega)⟩
  have inside : k < transcript.length := (List.getElem?_eq_some_iff.mp there').1
  have last := opens k id' (by omega) inside there' (decide_eq_true mark)
  -- No block is closed behind the opening mark, so that the text is cut at the last opening mark, which is another one.
  have before : lastClose < k := by
    rcases closed with none_ | ⟨c, id'', is', _, _, there'', shut⟩
    · omega
    · obtain ⟨other, same⟩ := of_decide_eq_true shut
      by_contra late
      have different : k ≠ c := by
        rintro rfl
        exact other ((Option.some.inj (there''.symm.trans there')) ▸ mark)
      exact open_ c (by omega) (by omega) ⟨id'', there'', same⟩
  rw [if_pos (by omega)] at below
  rcases opened with none_ | ⟨o, id'', is', _, _, there'', same⟩
  · omega
  · refine unnested o ⟨id'', there'', of_decide_eq_true same⟩ ⟨k, by omega, ⟨id', there', mark⟩, fun j after until_ => ?_⟩
    rintro ⟨shut, at_, is''⟩
    have := shuts j shut (by omega) (List.getElem?_eq_some_iff.mp at_).1 at_ (decide_eq_true ⟨fun same => apart (same.symm.trans is''), is''⟩)
    omega

end Trim

section Kept

variable {α : Type} [Zero α] {geometry : Geometry} {grants : Nat → Bool} {compute : Nat → View α → Written α}
  {session last : Session α}

def seen (geometry : Geometry) (session : Session α) (n : Nat) : View α :=
  view geometry { session with usedRows := n }

theorem rows_cut {maxT n m : Nat} {cache : Nat → Option (Block α)} (less : n ≤ m) (layer head row d : Nat) :
    rowsOf geometry maxT n cache layer head row d = if row < n then rowsOf geometry maxT m cache layer head row d else 0 := by
  unfold rowsOf
  by_cases below : row < n
  · simp only [below, if_true, show row < m by omega]
  · simp only [below, if_false, false_and, and_false]

variable (compute) in
theorem step_seen (input : Nat) (sized : Sized geometry session.state) (room : session.usedRows < session.state.maxT) {n : Nat}
    (below : n ≤ session.usedRows) :
    (seen geometry (stepped geometry compute session input) n).k = (seen geometry session n).k ∧
      (seen geometry (stepped geometry compute session input) n).v = (seen geometry session n).v := by
  have same (new : Nat → Nat → Nat → α) (cache : Nat → Option (Block α))
      (held : ∀ layer, geometry.attends layer → cached geometry session.state.maxT cache layer) :
      rowsOf geometry session.state.maxT n (writeRow geometry session.state.maxT session.usedRows new cache) =
        rowsOf geometry session.state.maxT n cache := by
    funext layer head row d
    rw [rows_cut (show n ≤ session.usedRows + 1 by omega), rows_cut below]
    split_ifs with early
    · rw [rows_written new room held, if_neg (by omega)]
    · rfl
  exact ⟨same _ _ fun layer attends => (sized layer attends).1, same _ _ fun layer attends => (sized layer attends).2⟩

theorem steps_seen (tokens : List Nat) : ∀ session : Session α, Sized geometry session.state →
    stepAll geometry grants compute tokens session = some last →
      Sized geometry last.state ∧ last.usedRows = session.usedRows + tokens.length ∧ ∀ n ≤ session.usedRows,
        (seen geometry last n).k = (seen geometry session n).k ∧ (seen geometry last n).v = (seen geometry session n).v := by
  induction tokens with
  | nil =>
    intro session sized steps
    obtain rfl := Option.some.inj steps
    exact ⟨sized, rfl, fun _ _ => ⟨rfl, rfl⟩⟩
  | cons token tokens ih =>
    intro session sized steps
    rw [stepAll, List.map_cons, List.foldlM_cons] at steps
    obtain ⟨next, first, rest⟩ := Option.bind_eq_some_iff.mp steps
    obtain ⟨room, same⟩ := within_guard first nofun
    obtain rfl := Option.some.inj same
    have sized' : Sized geometry (stepped geometry compute session token).state := fun layer attends =>
      ⟨write_sized (sized layer attends).1, write_sized (sized layer attends).2⟩
    obtain ⟨ends, used, kept⟩ := ih _ sized' rest
    refine ⟨ends, by rw [used, stepped, List.length_cons]; dsimp only; omega, fun n below => ?_⟩
    have before := step_seen compute token sized room below
    have after := kept n (Nat.le_succ_of_le below)
    exact ⟨after.1.trans before.1, after.2.trans before.2⟩

theorem steps_append (front back : List Nat) (session : Session α) : stepAll geometry grants compute (front ++ back) session =
      (stepAll geometry grants compute front session).bind (stepAll geometry grants compute back) := by
  rw [stepAll, List.map_append, List.foldlM_append]
  rfl

-- When the turn ends all of its tokens are stepped, or all but the last one.
theorem decode_steps (rounds : List Round) : ∀ (session : Session α) (transcript all : List Nat) (cancelled : Bool),
    decode geometry grants compute rounds session transcript = some (last, all, cancelled) →
      ∃ front back, stepAll geometry grants compute front session = some last ∧ all = transcript ++ front ++ back ∧
        back.length ≤ 1 := by
  induction rounds with
  | nil =>
    intro session transcript all cancelled ran
    cases ran
    exact ⟨[], [], rfl, by simp, Nat.zero_le 1⟩
  | cons round rounds ih =>
    intro session transcript all cancelled ran
    rw [decode] at ran
    split_ifs at ran
    · cases ran
      exact ⟨[], [], rfl, by simp, Nat.zero_le 1⟩
    · cases ran
      exact ⟨[], [round.token], rfl, by simp, Nat.le_refl 1⟩
    · cases ran
      exact ⟨[], [round.token], rfl, by simp, Nat.le_refl 1⟩
    · obtain ⟨next, step, rest⟩ := Option.bind_eq_some_iff.mp ran
      obtain ⟨front, back, steps, shape, short⟩ := ih next _ all cancelled rest
      refine ⟨round.token :: front, back, ?_, by rw [shape]; simp, short⟩
      rw [stepAll, List.map_cons, List.foldlM_cons, step]
      exact steps

variable {thinkOpen thinkClose : Int} {piece : Nat → Bytes} {first : Session α} {prompt transcript : List Nat}
  {saved : List Nat × View α}

structure SavedTurn (geometry : Geometry) (grants : Nat → Bool) (compute : Nat → View α → Written α) (piece : Nat → Bytes)
    (thinkOpen thinkClose : Int) (first last : Session α) (prompt transcript : List Nat) (saved : List Nat × View α) : Prop where
  start : prompt <+: saved.1
  part : saved.1 <+: transcript
  sentence : ∃ id, saved.1.getLast? = some id ∧ pieceEndsSentence (piece id) = true
  closed : thinkOpen ≠ thinkClose → ¬ OpenAt thinkOpen thinkClose transcript prompt.length →
    Unnested thinkOpen thinkClose transcript → ¬ OpenAt thinkOpen thinkClose transcript saved.1.length
  rows : ∃ resumed, stepAll geometry grants compute (saved.1.dropLast.drop first.usedRows) first = some resumed ∧
    saved.2.k = (view geometry resumed).k ∧ saved.2.v = (view geometry resumed).v
  states : saved.2.conv = last.state.conv ∧ saved.2.recurrent = last.state.recurrent

end Kept

-- A model with one layer whose state counts the tokens. Its second token ends a sentence, and the turn is cancelled at the third.
def counting : Geometry := ⟨[0], 1, 1⟩

def countStep (_ : Nat) (view : View Nat) : Written Nat where
  k _ _ _ := 0
  v _ _ _ := 0
  conv := view.conv
  recurrent layer := (view.recurrent layer).map fun block => { block with cells := fun j => block.cells j + 1 }

def noTokens : Session Nat where
  state := ⟨8, fun _ => none, fun _ => none, fun _ => none, fun _ => some ⟨0, 1, fun _ => 0⟩⟩
  usedRows := 0
  heap := ⟨1, fun label => label == 0, fun label later => beq_false_of_ne (by omega)⟩

def oneSentence (id : Nat) : Bytes :=
  if id = 6 then utf8 "." else utf8 "a"

def lateCancel : List Round :=
  [⟨false, 6, 0, false⟩, ⟨false, 7, 2, false⟩]

def counted (tokens : List Nat) : Option Nat :=
  (stepAll counting (fun _ => true) countStep tokens noTokens).bind fun session => (session.state.recurrent 0).map (·.cells 0)

end SamosaChat.Teacher
