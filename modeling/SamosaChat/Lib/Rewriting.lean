import Mathlib.Data.List.Infix
import Mathlib.Data.Nat.Digits.Defs
import SamosaChat.Lib.Find

set_option autoImplicit false

-- One word of a text after the other is replaced, until the text has it no more.
namespace SamosaChat.Rewriting

open Utf8

variable {old new word before after text other : Bytes}

def number (text : Bytes) : Nat :=
  Nat.ofDigits 256 (text.map UInt8.toNat)

theorem number_append (front back : Bytes) : number (front ++ back) = number front + 256 ^ front.length * number back := by
  rw [number, List.map_append, Nat.ofDigits_append, List.length_map]
  rfl

theorem number_lt (text : Bytes) : number text < 256 ^ text.length := by
  have digits : ∀ d ∈ text.map UInt8.toNat, d < 256 := by
    intro d inside
    obtain ⟨c, _, rfl⟩ := List.mem_map.mp inside
    exact c.toNat_lt
  have bound := Nat.ofDigits_lt_base_pow_length (by omega) digits
  rwa [List.length_map] at bound

theorem number_inj (size : text.length = other.length) (same : number text = number other) : text = other := by
  have digits : ∀ bytes : Bytes, ∀ d ∈ bytes.map UInt8.toNat, d < 256 := by
    intro bytes d inside
    obtain ⟨c, _, rfl⟩ := List.mem_map.mp inside
    exact c.toNat_lt
  have maps : text.map UInt8.toNat = other.map UInt8.toNat :=
    Nat.ofDigits_inj_of_len_eq (by omega) (by rw [List.length_map, List.length_map, size]) (digits text) (digits other) same
  exact List.map_injective_iff.mpr (fun _ _ => UInt8.toNat_inj.mp) maps

def work (old new text : Bytes) : Nat :=
  if new.length < old.length then text.length
  else if number new < number old then number text
  else 256 ^ text.length - number text

theorem work_le (old new text : Bytes) : work old new text ≤ 256 ^ text.length := by
  rw [work]
  split_ifs
  · exact Nat.le_of_lt (Nat.lt_pow_self (by omega))
  · exact Nat.le_of_lt (number_lt text)
  · exact Nat.sub_le _ _

theorem work_replaced (goes : new.length < old.length ∨ new.length = old.length ∧ new ≠ old) (before after : Bytes) :
    work old new (before ++ new ++ after) < work old new (before ++ old ++ after) := by
  have sum (w : Bytes) : number (before ++ w ++ after) =
      number before + 256 ^ before.length * number w + 256 ^ (before.length + w.length) * number after := by
    rw [number_append, number_append, List.length_append]
  rw [work, work]
  rcases goes with shorter | ⟨size, differ⟩
  · rw [if_pos shorter, if_pos shorter]
    simp only [List.length_append]
    omega
  · have sizes : (before ++ new ++ after).length = (before ++ old ++ after).length := by
      simp only [List.length_append, size]
    have positive : 0 < 256 ^ before.length := Nat.pow_pos (by omega)
    have equal : ¬ new.length < old.length := by omega
    rw [if_neg equal, if_neg equal, sizes, sum new, sum old, size]
    rcases Nat.lt_trichotomy (number new) (number old) with less | same | more
    · have smaller := Nat.mul_lt_mul_of_pos_left less positive
      rw [if_pos less, if_pos less]
      omega
    · exact absurd (number_inj size same) differ
    · have larger := Nat.mul_lt_mul_of_pos_left more positive
      have bound := number_lt (before ++ new ++ after)
      rw [sizes, sum new, size] at bound
      rw [if_neg (Nat.lt_asymm more), if_neg (Nat.lt_asymm more)]
      omega

def meets (one other : Bytes) : Bool :=
  one.tails.any (fun rest => rest ≠ [] && (rest.isPrefixOf other || other.isPrefixOf rest)) ||
    other.tails.any fun rest => rest ≠ [] && (rest.isPrefixOf one || one.isPrefixOf rest)

theorem meets_iff : meets word other = true ↔ (∃ rest, rest <:+ word ∧ rest ≠ [] ∧ (rest <+: other ∨ other <+: rest)) ∨
      ∃ rest, rest <:+ other ∧ rest ≠ [] ∧ (rest <+: word ∨ word <+: rest) := by
  simp [meets, List.mem_tails, List.isPrefixOf_iff_prefix]

theorem apart_kept (apart : meets word new = false) (free : ¬ word <:+: before ++ old ++ after) :
    ¬ word <:+: before ++ new ++ after := by
  rintro ⟨x, y, shape⟩
  have apart' := fun met => Bool.eq_false_iff.mp apart (meets_iff.mpr met)
  have front : x <+: before ++ new ++ after := ⟨word ++ y, by rw [← shape, List.append_assoc]⟩
  have found : x ++ word <+: before ++ new ++ after := ⟨y, shape⟩
  have lead : before <+: before ++ new ++ after := ⟨new ++ after, by rw [List.append_assoc]⟩
  have replaced : before ++ new <+: before ++ new ++ after := ⟨after, rfl⟩
  by_cases early : x.length + word.length ≤ before.length
  · -- It stands before the replaced word.
    obtain ⟨tail, rfl⟩ := List.prefix_of_prefix_length_le found lead (by rwa [List.length_append])
    exact free ⟨x, tail ++ old ++ after, by simp only [List.append_assoc]⟩
  · by_cases late : before.length + new.length ≤ x.length
    · -- It stands behind it.
      obtain ⟨middle, rfl⟩ := List.prefix_of_prefix_length_le replaced front (by rwa [List.length_append])
      simp only [List.append_assoc, List.append_cancel_left_eq] at shape
      refine free ⟨before ++ old ++ middle, y, ?_⟩
      rw [← shape]
      simp only [List.append_assoc]
    · refine apart' ?_
      by_cases first : x.length ≤ before.length
      · -- The new word begins in it.
        left
        obtain ⟨gap, rfl⟩ := List.prefix_of_prefix_length_le front lead first
        rw [List.length_append] at early late
        simp only [List.append_assoc, List.append_cancel_left_eq] at shape
        obtain ⟨rest, rfl⟩ : gap <+: word :=
          List.prefix_of_prefix_length_le ⟨new ++ after, shape.symm⟩ ⟨y, rfl⟩ (by omega)
        rw [List.append_assoc, List.append_cancel_left_eq] at shape
        rw [List.length_append] at early
        refine ⟨rest, List.suffix_append _ _, ?_, List.prefix_or_prefix_of_prefix ⟨y, rfl⟩ ⟨after, shape.symm⟩⟩
        rintro rfl
        rw [List.length_nil] at early
        omega
      · -- It begins in the new word.
        right
        obtain ⟨gap, rfl⟩ := List.prefix_of_prefix_length_le lead front (by omega)
        rw [List.length_append] at late first
        simp only [List.append_assoc, List.append_cancel_left_eq] at shape
        obtain ⟨rest, rfl⟩ : gap <+: new :=
          List.prefix_of_prefix_length_le ⟨word ++ y, shape⟩ ⟨after, rfl⟩ (by omega)
        rw [List.append_assoc, List.append_cancel_left_eq] at shape
        refine ⟨rest, List.suffix_append _ _, ?_, List.prefix_or_prefix_of_prefix ⟨after, rfl⟩ ⟨y, shape⟩⟩
        rintro rfl
        rw [List.append_nil] at late
        omega

end SamosaChat.Rewriting
