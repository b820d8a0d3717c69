import Mathlib.Data.List.Range

set_option autoImplicit false

namespace SamosaChat.Sliding

structure Window where
  first : Nat
  last : Nat
deriving DecidableEq

def Window.Has (window : Window) (x : Nat) : Prop :=
  window.first ≤ x ∧ x < window.last

-- A stretch of positions that is gone through in windows of one width, each of which starts in front of the end of the
-- window before it.
structure Strip where
  total : Nat
  width : Nat
  overlap : Nat
  some_ : 0 < total
  narrow : overlap < width

variable (s : Strip)

def Strip.step : Nat :=
  s.width - s.overlap

theorem step_some : 0 < s.step :=
  Nat.sub_pos_of_lt s.narrow

theorem width_eq : s.width = s.step + s.overlap :=
  (Nat.sub_add_cancel (Nat.le_of_lt s.narrow)).symm

-- How many windows are behind the first one: what it leaves, in steps, with a started step counted as a whole one.
def Strip.extra : Nat :=
  (s.total - s.width) / s.step + if (s.total - s.width) % s.step = 0 then 0 else 1

def Strip.window (i : Nat) : Window :=
  { first := i * s.step, last := min (i * s.step + s.width) s.total }

def Strip.windows : List Window :=
  (List.range (s.extra + 1)).map s.window

structure Covers (total overlap : Nat) (windows : List Window) : Prop where
  some_ : ∀ window ∈ windows, window.first < window.last
  inside : ∀ window ∈ windows, window.last ≤ total
  overlapping : windows.IsChain fun window behind => behind.first + overlap = window.last
  last : ∀ window ∈ windows.getLast?, window.last = total
  union : ∀ x, x < total ↔ ∃ window ∈ windows, window.Has x

section Count

variable {s}

theorem steps_divided : (s.total - s.width) / s.step * s.step + (s.total - s.width) % s.step = s.total - s.width :=
  Nat.div_add_mod' _ _

theorem extra_reaches : s.total ≤ s.extra * s.step + s.width := by
  have divided := steps_divided (s := s)
  have below : (s.total - s.width) % s.step < s.step := Nat.mod_lt _ (step_some s)
  unfold Strip.extra
  split
  · rw [Nat.add_zero]
    omega
  · rw [Nat.add_mul, Nat.one_mul]
    omega

theorem before_short {i : Nat} (before : i < s.extra) : i * s.step + s.width < s.total := by
  have divided := steps_divided (s := s)
  unfold Strip.extra at before
  split at before
  · next whole =>
      have steps : (i + 1) * s.step ≤ (s.total - s.width) / s.step * s.step := Nat.mul_le_mul_right _ (by omega)
      have forward := step_some s
      rw [Nat.add_mul, Nat.one_mul] at steps
      omega
  · have steps : i * s.step ≤ (s.total - s.width) / s.step * s.step := Nat.mul_le_mul_right _ (by omega)
    omega

theorem extra_le {k : Nat} : s.extra ≤ k ↔ s.total ≤ s.width + k * s.step := by
  constructor
  · intro few
    have steps : s.extra * s.step ≤ k * s.step := Nat.mul_le_mul_right _ few
    have reaches := extra_reaches (s := s)
    omega
  · intro reached
    by_contra many
    have short := before_short (Nat.lt_of_not_le many)
    omega

theorem first_inside {i : Nat} (is : i ≤ s.extra) : i * s.step < s.total := by
  rcases Nat.eq_or_lt_of_le is with rfl | before
  · cases zero : s.extra with
    | zero => simpa using s.some_
    | succ n =>
      have short : n * s.step + s.width < s.total := before_short (by omega)
      have wide := width_eq s
      rw [Nat.add_mul, Nat.one_mul]
      omega
  · have short := before_short before
    omega

theorem extra_single (single : s.total ≤ s.width) : s.extra = 0 := by
  unfold Strip.extra
  rw [Nat.sub_eq_zero_of_le single, Nat.zero_div, Nat.zero_mod, if_pos rfl]

end Count

section Windows

variable {s}

theorem window_before {i : Nat} (before : i < s.extra) : (s.window i).last = i * s.step + s.width :=
  Nat.min_eq_left (Nat.le_of_lt (before_short before))

theorem window_last : (s.window s.extra).last = s.total :=
  Nat.min_eq_right extra_reaches

theorem window_some {i : Nat} (is : i ≤ s.extra) : (s.window i).first < (s.window i).last := by
  have inside := first_inside is
  have forward := step_some s
  have wide := width_eq s
  change i * s.step < min (i * s.step + s.width) s.total
  exact Nat.lt_min.mpr ⟨by omega, inside⟩

theorem window_behind {i : Nat} (before : i < s.extra) : (s.window (i + 1)).first + s.overlap = (s.window i).last := by
  rw [window_before before]
  change (i + 1) * s.step + s.overlap = i * s.step + s.width
  rw [Nat.add_mul, Nat.one_mul, width_eq s, Nat.add_assoc]

theorem window_has {x : Nat} (inside : x < s.total) : (s.window (min (x / s.step) s.extra)).Has x := by
  have forward := step_some s
  have divided : x / s.step * s.step + x % s.step = x := Nat.div_add_mod' _ _
  have below : x % s.step < s.step := Nat.mod_lt _ forward
  have wide := width_eq s
  rcases Nat.le_total (x / s.step) s.extra with near | far
  · rw [Nat.min_eq_left near]
    refine ⟨?_, Nat.lt_min.mpr ⟨?_, inside⟩⟩
    · change x / s.step * s.step ≤ x
      omega
    · omega
  · rw [Nat.min_eq_right far]
    refine ⟨?_, ?_⟩
    · have steps : s.extra * s.step ≤ x / s.step * s.step := Nat.mul_le_mul_right _ far
      change s.extra * s.step ≤ x
      omega
    · rw [window_last]
      exact inside

theorem windows_length : s.windows.length = s.extra + 1 := by
  rw [Strip.windows, List.length_map, List.length_range]

theorem window_mem {window : Window} : window ∈ s.windows ↔ ∃ i ≤ s.extra, s.window i = window := by
  unfold Strip.windows
  simp only [List.mem_map, List.mem_range, Nat.lt_succ_iff]

theorem windows_cover : Covers s.total s.overlap s.windows where
  some_ window is := by
    obtain ⟨i, inside, rfl⟩ := window_mem.mp is
    exact window_some inside
  inside window is := by
    obtain ⟨i, inside, rfl⟩ := window_mem.mp is
    exact Nat.min_le_right _ _
  overlapping := by
    unfold Strip.windows
    rw [List.isChain_map, List.isChain_range_succ]
    exact fun i before => window_behind before
  last window is := by
    rw [Strip.windows, List.range_succ, List.map_append, List.map_singleton, List.getLast?_append, List.getLast?_singleton,
      Option.some_or, Option.mem_some_iff] at is
    rw [← is, window_last]
  union x := by
    refine ⟨fun inside => ⟨_, window_mem.mpr ⟨_, Nat.min_le_right _ _, rfl⟩, window_has inside⟩, ?_⟩
    rintro ⟨window, is, _, before⟩
    obtain ⟨i, inside, rfl⟩ := window_mem.mp is
    exact Nat.lt_of_lt_of_le before (Nat.min_le_right _ _)

end Windows

section Walk

variable {s}

def Strip.rest (i : Nat) : List Window :=
  (List.range' i (s.extra + 1 - i)).map s.window

theorem rest_zero : s.rest 0 = s.windows := by
  unfold Strip.rest Strip.windows
  rw [Nat.sub_zero, ← List.range_eq_range']

theorem rest_last : s.rest s.extra = [s.window s.extra] := by
  unfold Strip.rest
  rw [Nat.add_sub_cancel_left]
  rfl

theorem rest_before {i : Nat} (before : i < s.extra) : s.rest i = s.window i :: s.rest (i + 1) := by
  unfold Strip.rest
  rw [show s.extra + 1 - i = (s.extra + 1 - (i + 1)) + 1 by omega, List.range'_succ, List.map_cons]

theorem windows_single (single : s.extra = 0) : s.windows = [{ first := 0, last := s.total }] := by
  have last : (s.window 0).last = s.total := by
    rw [← single]
    exact window_last
  have frames : s.window 0 = { first := 0, last := s.total } := by
    change ({ first := 0 * s.step, last := (s.window 0).last } : Window) = _
    rw [last, Nat.zero_mul]
  rw [← rest_zero, ← single, rest_last, single, frames]

end Walk

end SamosaChat.Sliding
