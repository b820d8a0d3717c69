import SamosaChat.Lib.Text
import Mathlib.Logic.Relation

set_option autoImplicit false

namespace SamosaChat.Riff

open Utf8

-- A RIFF file: a form header of twelve bytes, and behind it chunks with a name, a size in little endian
-- and a payload that is padded to an even length.

def byteAt (s : Bytes) (i : Nat) : Nat :=
  (s.getD i 0).toNat

def le16 (s : Bytes) (i : Nat) : Nat :=
  byteAt s i + 256 * byteAt s (i + 1)

def le32 (s : Bytes) (i : Nat) : Nat :=
  byteAt s i + 256 * byteAt s (i + 1) + 65536 * byteAt s (i + 2) + 16777216 * byteAt s (i + 3)

def tag (s : Bytes) (i : Nat) : Bytes :=
  (s.drop i).take 4

def size (s : Bytes) (chunk : Nat) : Nat :=
  le32 s (chunk + 4)

def next (s : Bytes) (chunk : Nat) : Nat :=
  chunk + 8 + size s chunk + size s chunk % 2

def Step (last s : Bytes) (chunk behind : Nat) : Prop :=
  chunk + 8 ≤ s.length ∧ tag s chunk ≠ last ∧ behind = next s chunk

def Reaches (last s : Bytes) (chunk : Nat) : Prop :=
  Relation.ReflTransGen (Step last s) 12 chunk

def FirstChunk (last s : Bytes) (chunk : Nat) : Prop :=
  Reaches last s chunk ∧ chunk + 8 ≤ s.length ∧ tag s chunk = last

section

variable {last s : Bytes}

variable {chunk i n : Nat}

theorem byte_at_take (inside : i < n) : byteAt (s.take n) i = byteAt s i := by
  unfold byteAt
  rw [List.getD_eq_getElem?_getD, List.getD_eq_getElem?_getD, List.getElem?_take_of_lt inside]

theorem le32_take (inside : i + 4 ≤ n) : le32 (s.take n) i = le32 s i := by
  unfold le32
  rw [byte_at_take (by omega), byte_at_take (by omega), byte_at_take (by omega), byte_at_take (by omega)]

theorem le16_take (inside : i + 2 ≤ n) : le16 (s.take n) i = le16 s i := by
  unfold le16
  rw [byte_at_take (by omega), byte_at_take (by omega)]

theorem tag_take (inside : i + 4 ≤ n) : tag (s.take n) i = tag s i := by
  unfold tag
  rw [List.drop_take, List.take_take, Nat.min_eq_left (by omega)]

theorem size_take (inside : chunk + 8 ≤ n) : size (s.take n) chunk = size s chunk :=
  le32_take (by omega)

theorem next_take (inside : chunk + 8 ≤ n) : next (s.take n) chunk = next s chunk := by
  unfold next
  rw [size_take inside]

theorem byte_at_small (s : Bytes) (i : Nat) : byteAt s i < 256 :=
  UInt8.toNat_lt _

theorem le32_small (s : Bytes) (i : Nat) : le32 s i < 2 ^ 32 := by
  have first := byte_at_small s i
  have second := byte_at_small s (i + 1)
  have third := byte_at_small s (i + 2)
  have fourth := byte_at_small s (i + 3)
  unfold le32
  omega

theorem next_after (s : Bytes) (chunk : Nat) : chunk + 8 + size s chunk ≤ next s chunk := by
  unfold next
  omega

theorem step_unique : Relator.RightUnique (Step last s) := by
  rintro chunk behind behind' ⟨_, _, rfl⟩ ⟨_, _, rfl⟩
  rfl

theorem reaches_later {target : Nat} (way : Relation.ReflTransGen (Step last s) chunk target) : chunk ≤ target := by
  induction way with
  | refl => exact Nat.le_refl _
  | tail _ step ih =>
    obtain ⟨_, _, rfl⟩ := step
    have after := next_after s
    exact Nat.le_trans ih (Nat.le_trans (Nat.le_add_right _ _) (Nat.le_trans (Nat.le_add_right _ _) (after _)))

theorem reaches_front {target : Nat} (here : Reaches last s chunk) (there : FirstChunk last s target) :
    chunk = target ∨ Step last s chunk (next s chunk) ∧ next s chunk ≤ target := by
  obtain ⟨way, _, named⟩ := there
  rcases Relation.ReflTransGen.total_of_right_unique step_unique here way with forward | back
  · rcases Relation.ReflTransGen.cases_head forward with same | ⟨behind, step, rest⟩
    · exact .inl same
    · have same : behind = next s chunk := step.2.2
      rw [same] at step rest
      exact .inr ⟨step, reaches_later rest⟩
  · rcases Relation.ReflTransGen.cases_head back with same | ⟨behind, step, _⟩
    · exact .inl same.symm
    · exact absurd named step.2.1

end

end SamosaChat.Riff
