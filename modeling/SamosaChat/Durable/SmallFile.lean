import SamosaChat.Durable.JobEvents
import SamosaChat.Json.Record

set_option autoImplicit false

namespace SamosaChat.Durable

open Utf8 Text Json Buffers

def EventCalls.writesFile (calls : EventCalls) : Bool :=
  calls.names && calls.creates && calls.writes && calls.syncs && calls.closes && calls.renames

def EventCalls.readsFile (calls : EventCalls) : Bool :=
  calls.opens && calls.stats && calls.allocates && calls.reads

structure Stamp where
  text : Buffer 32
  string : StringText text.text

def morning : Stamp where
  text := (pathCopy 32 (utf8 "2026-01-01T08:00:00Z")).1
  string := by
    rw [path_copy_text (by decide)]
    exact literal_text (by decide)

section Files

variable {calls : EventCalls} {limit : Nat} {text content : Bytes} {file : Option Bytes}

theorem written_file (writes : calls.writesFile = true) : writeSmallFile calls text file = (true, some (cstr text)) :=
  if_pos writes

theorem unwritten_file (refused : calls.writesFile = false) : writeSmallFile calls text file = (false, file) :=
  if_neg (by
    rw [EventCalls.writesFile] at refused
    rw [refused]
    exact Bool.false_ne_true)

theorem read_whole (reads : calls.readsFile = true) (small : content.length ≤ limit) :
    readFileLimit calls limit (some content) = some content := by
  simp only [EventCalls.readsFile, Bool.and_eq_true] at reads
  obtain ⟨⟨⟨opens, stats⟩, allocates⟩, read⟩ := reads
  simp [readFileLimit, opens, stats, allocates, read, small]

theorem read_some (read : readFileLimit calls limit file = some content) : file = some content ∧ content.length ≤ limit := by
  unfold readFileLimit at read
  cases file with
  | none => cases read
  | some whole =>
    dsimp only at read
    split_ifs at read with opens large allocates reads
    cases read
    refine ⟨rfl, ?_⟩
    rw [Bool.or_eq_true, not_or, decide_eq_true_eq] at large
    exact Nat.le_of_not_gt large.2

end Files

end SamosaChat.Durable
