import SamosaChat.Teacher.Controlled

set_option autoImplicit false

-- A conversation that goes on from its snapshot.
namespace SamosaChat.Teacher

def contextFits (limit existing extra generated : Int) : Bool :=
  if existing < 0 ∨ extra < 0 ∨ generated < 0 then false
  else if existing > limit ∨ extra > limit - existing then false
  else generated ≤ limit - existing - extra

section Resume

variable {α : Type} [Zero α] (geometry : Geometry)

def readRows (label : Nat → Nat) (maxT kvRows : Nat) (saved : Nat → Nat → Nat → Nat → α) (layer : Nat) : Option (Block α) :=
  if geometry.attends layer then
    some ⟨label layer, geometry.room maxT, fun j =>
      if j / geometry.headDim % maxT < kvRows then
        saved layer (j / geometry.headDim / maxT) (j / geometry.headDim % maxT) (j % geometry.headDim)
      else 0⟩
  else none

-- None for a snapshot that is refused.
def sessionResume (limit : Int) (saved : List Nat × View α) (reserve : Nat) : Option (State α) :=
  if reserve < 1 ∨ saved.1.length < 2 ∨ contextFits limit saved.1.length 0 reserve = false then none
  else some
    { maxT := saved.1.length + reserve
      k := readRows geometry (2 * ·) (saved.1.length + reserve) (saved.1.length - 1) saved.2.k
      v := readRows geometry (2 * · + 1) (saved.1.length + reserve) (saved.1.length - 1) saved.2.v
      conv := saved.2.conv
      recurrent := saved.2.recurrent }

theorem rows_read (label : Nat → Nat) {maxT maxT' n : Nat} (room : n ≤ maxT') (cache : Nat → Option (Block α)) :
    rowsOf geometry maxT' n (readRows geometry label maxT' n (rowsOf geometry maxT n cache)) = rowsOf geometry maxT n cache := by
  funext layer head row d
  by_cases within : geometry.attends layer ∧ head < geometry.nKvHeads ∧ row < n ∧ d < geometry.headDim
  · obtain ⟨attends, inside, below, less⟩ := within
    have row_ : place geometry.headDim maxT' head row d / geometry.headDim % maxT' = row := by
      rw [place_row less, Nat.mul_comm, Nat.mul_add_mod, Nat.mod_eq_of_lt (by omega)]
    have last : place geometry.headDim maxT' head row d % geometry.headDim = d := by
      rw [place, Nat.mul_comm, Nat.mul_add_mod, Nat.mod_eq_of_lt less]
    rw [rowsOf, if_pos ⟨attends, inside, below, less⟩, cell, readRows, if_pos attends]
    dsimp only
    rw [row_, last, place_head less (by omega), if_pos below]
  · rw [rowsOf, if_neg within, rowsOf, if_neg within]

end Resume

section Goes

variable {α : Type} [Zero α] {geometry : Geometry} {grants : Nat → Bool} {compute : Nat → View α → Written α}
  {first session last : Session α} {prompt transcript : List Nat} {saved : List Nat × View α}

theorem steps_room (tokens : List Nat) : ∀ session : Session α, session.usedRows ≤ session.state.maxT →
    stepAll geometry grants compute tokens session = some last → last.usedRows ≤ last.state.maxT := by
  induction tokens with
  | nil =>
    intro session room steps
    obtain rfl := Option.some.inj steps
    exact room
  | cons token tokens ih =>
    intro session room steps
    rw [stepAll, List.map_cons, List.foldlM_cons] at steps
    obtain ⟨next, first, rest⟩ := Option.bind_eq_some_iff.mp steps
    obtain ⟨free, same⟩ := within_guard first fun none_ => by cases none_
    obtain rfl := Option.some.inj same
    exact ih (stepped geometry compute session token) free rest

-- What is saved of a turn is all of it, and from there a conversation goes on as it would have gone on from the turn.
structure GoesOn (geometry : Geometry) (grants : Nat → Bool) (compute : Nat → View α → Written α) (last : Session α)
    (transcript : List Nat) (saved : List Nat × View α) : Prop where
  whole : saved.1 = transcript
  runs : ∀ (limit : Int) (reserve : Nat), 0 < reserve → transcript.length + reserve ≤ limit →
    ∃ state, sessionResume geometry limit saved reserve = some state ∧
      ∀ heap (turns : List (Turn Nat)) ends, turns.foldlM (turn geometry grants compute) last = some ends →
        ends.state.maxT ≤ transcript.length + reserve → ∃ ends', (turns.filter Turn.steps).foldlM (turn geometry grants compute)
          ⟨state, transcript.length - 1, heap⟩ = some ends' ∧ Alike geometry ends ends'

end Goes

end SamosaChat.Teacher
