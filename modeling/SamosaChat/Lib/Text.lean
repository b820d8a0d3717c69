import Mathlib.Algebra.NeZero
import SamosaChat.Lib.Utf8

set_option autoImplicit false

namespace SamosaChat.Text

open Utf8

def utf8 (text : String) : Bytes :=
  encode (text.toList.map Char.toNat)

-- The C string a buffer holds.
def cstr (bytes : Bytes) : Bytes :=
  bytes.takeWhile (· ≠ 0)

-- Character classes of the "C" locale.

def isSpace (c : UInt8) : Bool :=
  c == 0x20 || 0x09 ≤ c && c ≤ 0x0d

def isDigit (c : UInt8) : Bool :=
  0x30 ≤ c && c ≤ 0x39

def isUpper (c : UInt8) : Bool :=
  0x41 ≤ c && c ≤ 0x5a

def isLower (c : UInt8) : Bool :=
  0x61 ≤ c && c ≤ 0x7a

def isAlpha (c : UInt8) : Bool :=
  isUpper c || isLower c

def isAlnum (c : UInt8) : Bool :=
  isAlpha c || isDigit c

def toLower (c : UInt8) : UInt8 :=
  if isUpper c then c + 0x20 else c

def find (needle : Bytes) : Bytes → Option Nat
  | [] => if needle = [] then some 0 else none
  | c :: rest => if needle.isPrefixOf (c :: rest) then some 0 else (find needle rest).map (· + 1)

theorem cstr_self {bytes : Bytes} (text : (0 : UInt8) ∉ bytes) : cstr bytes = bytes := by
  induction bytes with
  | nil => rfl
  | cons c rest ih =>
    obtain ⟨other, later⟩ := List.ne_and_not_mem_of_not_mem_cons text
    have pass : decide (c ≠ 0) = true := by simpa using Ne.symm other
    rw [cstr, List.takeWhile_cons, pass, if_pos rfl]
    exact congrArg _ (ih later)

theorem cstr_text (bytes : Bytes) : (0 : UInt8) ∉ cstr bytes := by
  induction bytes with
  | nil => simp [cstr]
  | cons c rest ih =>
    rw [cstr, List.takeWhile_cons]
    by_cases stop : c = 0
    · simp [stop]
    · rw [if_pos (by simpa using stop)]
      exact fun inside => (List.mem_cons.mp inside).elim (fun same => stop same.symm) ih

end SamosaChat.Text

namespace SamosaChat.Buffers

open Utf8

-- A char array of cap bytes, by the text in it. One of its bytes is the terminator.
structure Buffer (cap : Nat) where
  text : Bytes
  fits : text.length < cap
deriving DecidableEq

-- The sizes that several of the source's records have.
instance neZero32 : NeZero 32 := ⟨by decide⟩
instance neZero64 : NeZero 64 := ⟨by decide⟩
instance neZero80 : NeZero 80 := ⟨by decide⟩
instance neZero128 : NeZero 128 := ⟨by decide⟩

def empty (cap : Nat) [NeZero cap] : Buffer cap :=
  { text := [], fits := Nat.pos_of_neZero cap }

-- snprintf("%s"), and whether all of the text went in.
def pathCopy (cap : Nat) [NeZero cap] (value : Bytes) : Buffer cap × Bool :=
  ({ text := value.take (cap - 1)
     fits := by
      have room := Nat.pos_of_neZero cap
      rw [List.length_take]
      omega }, value.length < cap)

section Copies

variable {cap : Nat}

theorem buffer_ext {buffer buffer' : Buffer cap} (same : buffer.text = buffer'.text) : buffer = buffer' := by
  cases buffer
  cases buffer'
  cases same
  rfl

theorem path_copy_text [NeZero cap] {value : Bytes} (fits : value.length < cap) : (pathCopy cap value).1.text = value :=
  List.take_of_length_le (by omega)

theorem path_copy_self [NeZero cap] (buffer : Buffer cap) : (pathCopy cap buffer.text).1 = buffer :=
  buffer_ext (path_copy_text buffer.fits)

end Copies

end SamosaChat.Buffers
