import SamosaChat.Lib.Text

set_option autoImplicit false

namespace SamosaChat.Summary

open Utf8 Text

-- strchr finds the terminator too, so that a blank at the very end goes as well.
def summaryNormalizePunctuation : Bytes → Bytes
  | [] => []
  | c :: rest =>
    if c = 0x20 ∧ (rest = [] ∨ rest.headD 0 ∈ utf8 ".,;:!?") then summaryNormalizePunctuation rest
    else c :: summaryNormalizePunctuation rest

-- What the helper process does while one batch is with it: write 0 is the header, write i + 1 the i-th frame,
-- and read i the i-th reply, if its length and its bytes come before the deadline.
structure Helper where
  starts : Bool
  writes : Nat → Bool
  reads : Nat → Option Bytes
  allocates : Nat → Bool

def readReply (helper : Helper) (i : Nat) : Option Bytes :=
  match helper.reads i with
  | none => none
  | some frame =>
    if frame.length = 0 ∨ frame.length > 65536 then none
    else if !helper.allocates i then none
    else
      let reply := summaryNormalizePunctuation (cstr frame)
      if reply.length < 12 then none else some reply

def writesParts (helper : Helper) (parts : List Bytes) : Bool :=
  parts.zipIdx.all fun (part, i) => decide (part.length ≤ 60000) && helper.writes (i + 1)

-- The replies, or none of them.
def nativeSummarizeBatchNow (helper : Helper) (parts : List Bytes) : Option (List Bytes) :=
  if parts.length < 1 ∨ parts.length > 64 then none
  else if helper.starts && helper.writes 0 && writesParts helper parts then
    (List.range parts.length).mapM (readReply helper)
  else none

variable {γ : Type}

-- A NativeSummaryRequest lives on the stack of its caller, whose number stands for its address.
structure Request (γ : Type) where
  caller : Nat
  gateway : γ
  parts : List Bytes
  concise : Int
deriving DecidableEq

-- Where a caller's thread is. The dispatcher sleeps or waits for the helper outside the lock.
inductive Place (γ : Type)
  | waiting
  | coalescing
  | summarizing (group : List (Request γ))
  | returned (ok : Bool)

structure Caller (γ : Type) where
  request : Request γ
  replies : List (Option Bytes)
  ok : Bool
  done : Bool
  place : Place γ

structure Batch (γ : Type) where
  gateway : γ
  concise : Int
  group : List (Request γ)
  helper : Option Helper

def framesOf (group : List (Request γ)) : List Bytes :=
  group.flatMap Request.parts

def Batch.frames (batch : Batch γ) : List Bytes :=
  framesOf batch.group

-- `faulted` is raised where the queue's first request is read and there is none.
structure World (γ : Type) where
  callers : List (Caller γ)
  queue : List (Request γ)
  dispatching : Bool
  batches : List (Batch γ)
  faulted : Bool

def start : World γ where
  callers := []
  queue := []
  dispatching := false
  batches := []
  faulted := false

structure Call (γ : Type) where
  gateway : γ
  parts : List Bytes
  concise : Int
  replies : List (Option Bytes)
  some_ : 1 ≤ parts.length
  few : parts.length ≤ 64

def setPlace (place : Place γ) (caller : Caller γ) : Caller γ :=
  { caller with place := place }

-- The lines of native_summarize_batch up to the first wait or the first sleep.
def enqueue (call : Call γ) (world : World γ) : World γ :=
  let request : Request γ :=
    { caller := world.callers.length, gateway := call.gateway, parts := call.parts, concise := call.concise }
  let place : Place γ := if world.dispatching then .waiting else .coalescing
  { world with
    callers := world.callers ++ [{ request := request, replies := call.replies, ok := false, done := false, place := place }]
    queue := world.queue ++ [request]
    dispatching := true }

def wake (i : Nat) (world : World γ) : World γ :=
  match world.callers[i]? with
  | some caller =>
    match caller.place with
    | .waiting =>
      if caller.done then { world with callers := world.callers.modify i (setPlace (.returned caller.ok)) } else world
    | _ => world
  | none => world

def gatherFrom [DecidableEq γ] (first : Request γ) : Nat → List (Request γ) → List (Request γ) × List (Request γ)
  | _, [] => ([], [])
  | frames, candidate :: rest =>
    if candidate.gateway = first.gateway ∧ candidate.concise = first.concise ∧ frames + candidate.parts.length ≤ 64 then
      let (group, left) := gatherFrom first (frames + candidate.parts.length) rest
      (candidate :: group, left)
    else
      let (group, left) := gatherFrom first frames rest
      (group, candidate :: left)

def gather [DecidableEq γ] (i : Nat) (world : World γ) : World γ :=
  match world.callers[i]? with
  | some caller =>
    match caller.place with
    | .coalescing =>
      match world.queue with
      | [] => { world with faulted := true }
      | first :: rest =>
        let (group, left) := gatherFrom first 0 (first :: rest)
        { world with
          callers := world.callers.modify i (setPlace (.summarizing group))
          queue := left
          batches := world.batches ++
            [{ gateway := first.gateway, concise := first.concise, group := group, helper := none }] }
    | _ => world
  | none => world

def answer (outputs : List (Option Bytes)) (ok : Bool) (offset count : Nat) (caller : Caller γ) : Caller γ :=
  { caller with
    replies := (outputs.drop offset).take count ++ caller.replies.drop count
    ok := ok
    done := true }

def deliver (outputs : List (Option Bytes)) (ok : Bool) : Nat → List (Request γ) → List (Caller γ) → List (Caller γ)
  | _, [], callers => callers
  | offset, request :: rest, callers =>
    deliver outputs ok (offset + request.parts.length) rest
      (callers.modify request.caller (answer outputs ok offset request.parts.length))

def outputsOf (frames : Nat) (replies : Option (List Bytes)) : List (Option Bytes) :=
  match replies with
  | some replies => replies.map some
  | none => List.replicate frames none

def closeBatch (helper : Helper) : List (Batch γ) → List (Batch γ)
  | [] => []
  | [batch] => [{ batch with helper := some helper }]
  | batch :: rest => batch :: closeBatch helper rest

-- The helper is through with the batch: its replies are handed out, and the loop goes on or ends.
def finish (i : Nat) (helper : Helper) (world : World γ) : World γ :=
  match world.callers[i]? with
  | some caller =>
    match caller.place with
    | .summarizing group =>
      let replies := nativeSummarizeBatchNow helper (framesOf group)
      let callers := deliver (outputsOf (framesOf group).length replies) replies.isSome 0 group world.callers
      let batches := closeBatch helper world.batches
      if world.queue = [] then
        { world with
          callers := callers.modify i fun own => setPlace (.returned own.ok) own
          dispatching := false
          batches := batches }
      else { world with callers := callers.modify i (setPlace .coalescing), batches := batches }
    | _ => world
  | none => world

inductive Action (γ : Type)
  | call (call : Call γ)
  | wake (caller : Nat)
  | gather (caller : Nat)
  | finish (caller : Nat) (helper : Helper)

def step [DecidableEq γ] (world : World γ) : Action γ → World γ
  | .call call => enqueue call world
  | .wake i => wake i world
  | .gather i => gather i world
  | .finish i helper => finish i helper world

def run [DecidableEq γ] (actions : List (Action γ)) : World γ :=
  actions.foldl step start

end SamosaChat.Summary
