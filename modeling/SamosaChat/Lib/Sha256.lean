import Mathlib.Data.List.Basic

set_option autoImplicit false

namespace SamosaChat.Sha256

def rotr32 (x n : UInt32) : UInt32 :=
  (x >>> n) ||| (x <<< (32 - n))

def roundConstants : List UInt32 :=
  [0x428a2f98, 0x71374491, 0xb5c0fbcf, 0xe9b5dba5, 0x3956c25b, 0x59f111f1, 0x923f82a4, 0xab1c5ed5,
   0xd807aa98, 0x12835b01, 0x243185be, 0x550c7dc3, 0x72be5d74, 0x80deb1fe, 0x9bdc06a7, 0xc19bf174,
   0xe49b69c1, 0xefbe4786, 0x0fc19dc6, 0x240ca1cc, 0x2de92c6f, 0x4a7484aa, 0x5cb0a9dc, 0x76f988da,
   0x983e5152, 0xa831c66d, 0xb00327c8, 0xbf597fc7, 0xc6e00bf3, 0xd5a79147, 0x06ca6351, 0x14292967,
   0x27b70a85, 0x2e1b2138, 0x4d2c6dfc, 0x53380d13, 0x650a7354, 0x766a0abb, 0x81c2c92e, 0x92722c85,
   0xa2bfe8a1, 0xa81a664b, 0xc24b8b70, 0xc76c51a3, 0xd192e819, 0xd6990624, 0xf40e3585, 0x106aa070,
   0x19a4c116, 0x1e376c08, 0x2748774c, 0x34b0bcb5, 0x391c0cb3, 0x4ed8aa4a, 0x5b9cca4f, 0x682e6ff3,
   0x748f82ee, 0x78a5636f, 0x84c87814, 0x8cc70208, 0x90befffa, 0xa4506ceb, 0xbef9a3f7, 0xc67178f2]

structure Words where
  a : UInt32
  b : UInt32
  c : UInt32
  d : UInt32
  e : UInt32
  f : UInt32
  g : UInt32
  h : UInt32
  deriving DecidableEq

structure Context where
  h : Words
  bits : UInt64
  block : List UInt8

def word : List UInt8 → UInt32
  | [p0, p1, p2, p3] => (p0.toUInt32 <<< 24) ||| (p1.toUInt32 <<< 16) ||| (p2.toUInt32 <<< 8) ||| p3.toUInt32
  | _ => 0

def blockWords : Nat → List UInt8 → List UInt32
  | 0, _ => []
  | n + 1, block => word (block.take 4) :: blockWords n (block.drop 4)

-- The newest word stands first: w[i - 2] is entry 1, w[i - 16] entry 15.
def extendSchedule : Nat → List UInt32 → List UInt32
  | 0, w => w
  | n + 1, w =>
    let w15 := w.getD 14 0
    let w2 := w.getD 1 0
    let s0 := rotr32 w15 7 ^^^ rotr32 w15 18 ^^^ (w15 >>> 3)
    let s1 := rotr32 w2 17 ^^^ rotr32 w2 19 ^^^ (w2 >>> 10)
    extendSchedule n ((w.getD 15 0 + s0 + w.getD 6 0 + s1) :: w)

def schedule (block : List UInt8) : List UInt32 :=
  (extendSchedule 48 (blockWords 16 block).reverse).reverse

def round (v : Words) (k w : UInt32) : Words :=
  let s1 := rotr32 v.e 6 ^^^ rotr32 v.e 11 ^^^ rotr32 v.e 25
  let ch := (v.e &&& v.f) ^^^ (~~~v.e &&& v.g)
  let temp1 := v.h + s1 + ch + k + w
  let s0 := rotr32 v.a 2 ^^^ rotr32 v.a 13 ^^^ rotr32 v.a 22
  let maj := (v.a &&& v.b) ^^^ (v.a &&& v.c) ^^^ (v.b &&& v.c)
  { a := temp1 + (s0 + maj), b := v.a, c := v.b, d := v.c, e := v.d + temp1, f := v.e, g := v.f, h := v.g }

def compress (h : Words) (block : List UInt8) : Words :=
  let v := (roundConstants.zip (schedule block)).foldl (fun v kw => round v kw.1 kw.2) h
  { a := h.a + v.a, b := h.b + v.b, c := h.c + v.c, d := h.d + v.d, e := h.e + v.e, f := h.f + v.f, g := h.g + v.g, h := h.h + v.h }

def init : Context where
  h := { a := 0x6a09e667, b := 0xbb67ae85, c := 0x3c6ef372, d := 0xa54ff53a,
         e := 0x510e527f, f := 0x9b05688c, g := 0x1f83d9ab, h := 0x5be0cd19 }
  bits := 0
  block := []

def updateByte (ctx : Context) (byte : UInt8) : Context :=
  let block := ctx.block ++ [byte]
  if block.length = 64 then
    { h := compress ctx.h block, bits := ctx.bits + 8, block := [] }
  else
    { ctx with bits := ctx.bits + 8, block := block }

def update (ctx : Context) (data : List UInt8) : Context :=
  data.foldl updateByte ctx

def bigEndian32 (x : UInt32) : List UInt8 :=
  [(x >>> 24).toUInt8, (x >>> 16).toUInt8, (x >>> 8).toUInt8, x.toUInt8]

def bigEndian64 (x : UInt64) : List UInt8 :=
  [(x >>> 56).toUInt8, (x >>> 48).toUInt8, (x >>> 40).toUInt8, (x >>> 32).toUInt8,
   (x >>> 24).toUInt8, (x >>> 16).toUInt8, (x >>> 8).toUInt8, x.toUInt8]

def padTo (n : Nat) (block : List UInt8) : List UInt8 :=
  block ++ List.replicate (n - block.length) 0

def finish (ctx : Context) : List UInt8 :=
  let marked := ctx.block ++ [0x80]
  let (h, block) := if marked.length > 56 then (compress ctx.h (padTo 64 marked), []) else (ctx.h, marked)
  let h := compress h (padTo 56 block ++ bigEndian64 ctx.bits)
  [h.a, h.b, h.c, h.d, h.e, h.f, h.g, h.h].flatMap bigEndian32

def digest (data : List UInt8) : List UInt8 :=
  finish (update init data)

def hexDigit (n : UInt8) : Char :=
  ['0', '1', '2', '3', '4', '5', '6', '7', '8', '9', 'a', 'b', 'c', 'd', 'e', 'f'].getD n.toNat '0'

def hexChars (digest : List UInt8) : List Char :=
  digest.flatMap fun (byte : UInt8) => [hexDigit (byte >>> 4), hexDigit (byte &&& 15)]

def hex (digest : List UInt8) : String :=
  String.ofList (hexChars digest)

example : hex (digest [97, 98, 99]) = "ba7816bf8f01cfea414140de5dae2223b00361a396177a9cb410ff61f20015ad" := by
  decide +kernel

end SamosaChat.Sha256
