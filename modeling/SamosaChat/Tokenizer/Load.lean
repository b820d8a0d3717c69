import SamosaChat.Json.Value
import SamosaChat.Lib.OpenTable

set_option autoImplicit false

namespace SamosaChat.Tokenizer

open Utf8 Text Json Binary64 Slots

def tkFnv (s : Bytes) : UInt64 :=
  s.foldl (fun h c => (h ^^^ c.toUInt64) * 1099511628211) 1469598103934665603

structure Hmap where
  cap : Nat
  e : Nat → Option (Bytes × Nat)

def hmInit (cap : Nat) : Hmap :=
  { cap := cap, e := fun _ => none }

def hmSlot (m : Hmap) (key : Bytes) : Nat :=
  (tkFnv key &&& UInt64.ofNat (m.cap - 1)).toNat

-- The cell where the walk over the table ends: the key's or a free one. None when it would not end.
def hmWalk (m : Hmap) (key : Bytes) : Nat → Nat → Option Nat
  | 0, _ => none
  | rounds + 1, h =>
    match m.e h with
    | some (k, _) => if k = key then some h else hmWalk m key rounds ((h + 1) &&& (m.cap - 1))
    | none => some h

def hmPut (m : Hmap) (entry : Bytes × Nat) : Hmap :=
  match hmWalk m entry.1 m.cap (hmSlot m entry.1) with
  | some h => { m with e := write m.e h (some entry) }
  | none => m

def hmGet (m : Hmap) (key : Bytes) : Option Nat :=
  (hmWalk m key m.cap (hmSlot m key)).bind fun h => (m.e h).map Prod.snd

def u8Put (cp : Nat) : Bytes :=
  if cp < 0x80 then [.ofNat cp]
  else if cp < 0x800 then [.ofNat (0xc0 ||| cp >>> 6), .ofNat (0x80 ||| cp &&& 0x3f)]
  else if cp < 0x10000 then
    [.ofNat (0xe0 ||| cp >>> 12), .ofNat (0x80 ||| cp >>> 6 &&& 0x3f), .ofNat (0x80 ||| cp &&& 0x3f)]
  else
    [.ofNat (0xf0 ||| cp >>> 18), .ofNat (0x80 ||| cp >>> 12 &&& 0x3f), .ofNat (0x80 ||| cp >>> 6 &&& 0x3f),
      .ofNat (0x80 ||| cp &&& 0x3f)]

def isDir (b : Nat) : Bool :=
  33 ≤ b && b ≤ 126 || 161 ≤ b && b ≤ 172 || 174 ≤ b && b ≤ 255

-- The bytes that do not stand for themselves are counted from 256 on.
def byte2cp (b : UInt8) : Nat :=
  if isDir b.toNat then b.toNat else 256 + ((List.range b.toNat).filter fun c => !isDir c).length

def byte2str (b : UInt8) : Bytes :=
  u8Put (byte2cp b)

def everyByte : List UInt8 :=
  (List.range 256).map UInt8.ofNat

def cp2byte (cp : Nat) : Option UInt8 :=
  everyByte.find? fun b => byte2cp b == cp

structure Special where
  str : Bytes
  id : Nat
deriving DecidableEq

-- The order of the added tokens: qsort by length, in any order where the lengths are the same.
structure Qsort where
  sort : List Special → List Special
  perm : ∀ specials, (sort specials).Perm specials
  sorted : ∀ specials, (sort specials).Pairwise fun a b => b.str.length ≤ a.str.length

structure Tok where
  vocab : Hmap
  merges : Hmap
  id2str : Nat → Option Bytes
  idAdded : Nat → Bool
  nIds : Nat
  sp : List Special
  ignoreMerges : Bool

-- What a tokenizer.json says, read off its tree. A merge that is skipped is none: it keeps its rank.
structure Source where
  vocab : List (Bytes × Nat)
  merges : List (Option (Bytes × Bytes))
  added : List Special
  ignoreMerges : Bool
deriving DecidableEq

-- (int)num, as an index: a number that is no int or is negative would be undefined or out of bounds.
def idOf : Double → Option Nat
  | .finite negative magnitude =>
    let id := magnitude.units / one
    if id < 2 ^ 31 - 1 ∧ (negative = false ∨ id = 0) then some id else none
  | _ => none

def numOf : Jval → Double
  | .num num => num
  | _ => zero

def kidsOf : Jval → List Jval
  | .arr kids => kids
  | .obj fields => fields.map Prod.snd
  | _ => []

def fieldsOf : Jval → Option (List (Bytes × Jval))
  | .obj fields => some fields
  | .arr (_ :: _) => none
  | _ => some []

def vocabEntry (field : Bytes × Jval) : Option (Bytes × Nat) :=
  (idOf (numOf field.2)).map fun id => (cstr field.1, id)

def mergeEntry : Jval → Option (Option (Bytes × Bytes))
  | .str s =>
    match find [0x20] (cstr s) with
    | some ll => some (some ((cstr s).take ll, (cstr s).drop (ll + 1)))
    | none => some none
  | .arr (.str l :: .str r :: _) => some (some (cstr l, cstr r))
  | .arr (_ :: _ :: _) => none
  | _ => some none

def addedEntry (a : Jval) : Option Special :=
  match jsonGet a (utf8 "id"), jsonGet a (utf8 "content") with
  | some id, some (.str content) => (idOf (numOf id)).map fun id => { str := cstr content, id := id }
  | _, _ => none

def readSource (root : Jval) : Option Source := do
  let model ← jsonGet root (utf8 "model")
  let vocab ← (← fieldsOf (← jsonGet model (utf8 "vocab"))).mapM vocabEntry
  let merges ← (kidsOf (← jsonGet model (utf8 "merges"))).mapM mergeEntry
  let added ← ((jsonGet root (utf8 "added_tokens")).elim [] kidsOf).mapM addedEntry
  let ignoreMerges :=
    match jsonGet model (utf8 "ignore_merges") with
    | some (.bool boolean) => boolean
    | _ => false
  return { vocab := vocab, merges := merges, added := added, ignoreMerges := ignoreMerges }

def doubled (target : Nat) : Nat → Nat → Nat
  | 0, vc => vc
  | rounds + 1, vc => if vc < target then doubled target rounds (vc <<< 1) else vc

def capacity (len : Nat) : Nat :=
  doubled (len * 2) (len * 2) 1

def mergeKey (left right : Bytes) : Bytes :=
  left ++ 0 :: right

def ranked (merges : List (Option (Bytes × Bytes))) : List (Bytes × Nat) :=
  merges.zipIdx.filterMap fun entry => entry.1.map fun merge => (mergeKey merge.1 merge.2, entry.2)

def Source.ids (source : Source) : List Nat :=
  source.vocab.map Prod.snd ++ source.added.map Special.id

def setString (id2str : Nat → Option Bytes) (entry : Bytes × Nat) : Nat → Option Bytes :=
  Function.update id2str entry.2 (some entry.1)

def tokLoad (qsort : Qsort) (root : Jval) : Option Tok :=
  (readSource root).map fun source =>
    { vocab := source.vocab.foldl hmPut (hmInit (capacity source.vocab.length)),
      merges := (ranked source.merges).foldl hmPut (hmInit (capacity source.merges.length)),
      id2str := (source.added.map fun special => (special.str, special.id)).foldl setString
        (source.vocab.foldl setString fun _ => none),
      idAdded := fun id => source.added.any fun special => special.id == id,
      nIds := source.ids.foldl Nat.max 0 + 1,
      sp := qsort.sort source.added,
      ignoreMerges := source.ignoreMerges }

end SamosaChat.Tokenizer
