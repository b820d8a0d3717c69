import SamosaChat.Summary.Batch
import Mathlib.Data.List.Nodup

set_option autoImplicit false

namespace SamosaChat.Summary

open Utf8 Iterate

section Gather

variable {γ : Type} [DecidableEq γ] {first : Request γ}

theorem gather_from_perm (frames : Nat) (queue : List (Request γ)) :
    ((gatherFrom first frames queue).1 ++ (gatherFrom first frames queue).2).Perm queue := by
  induction queue generalizing frames with
  | nil => exact .nil
  | cons candidate rest ih =>
    by_cases joins : candidate.gateway = first.gateway ∧ candidate.concise = first.concise ∧
        frames + candidate.parts.length ≤ 64
    · rw [gatherFrom, if_pos joins]
      exact (ih _).cons candidate
    · rw [gatherFrom, if_neg joins]
      exact List.perm_middle.trans ((ih _).cons candidate)

theorem gather_from_alike (frames : Nat) (queue : List (Request γ)) : ∀ request ∈ (gatherFrom first frames queue).1,
      request.gateway = first.gateway ∧ request.concise = first.concise := by
  induction queue generalizing frames with
  | nil => exact fun _ inside => nomatch inside
  | cons candidate rest ih =>
    intro request inside
    by_cases joins : candidate.gateway = first.gateway ∧ candidate.concise = first.concise ∧
        frames + candidate.parts.length ≤ 64
    · rw [gatherFrom, if_pos joins] at inside
      rcases List.mem_cons.mp inside with rfl | later
      · exact ⟨joins.1, joins.2.1⟩
      · exact ih _ request later
    · rw [gatherFrom, if_neg joins] at inside
      exact ih _ request inside

theorem gather_from_frames (frames : Nat) (queue : List (Request γ)) (room : frames ≤ 64) :
    frames + (framesOf (gatherFrom first frames queue).1).length ≤ 64 := by
  induction queue generalizing frames with
  | nil => exact room
  | cons candidate rest ih =>
    by_cases joins : candidate.gateway = first.gateway ∧ candidate.concise = first.concise ∧
        frames + candidate.parts.length ≤ 64
    · rw [gatherFrom, if_pos joins]
      have later := ih (frames + candidate.parts.length) joins.2.2
      simp only [framesOf, List.flatMap_cons, List.length_append] at later ⊢
      omega
    · rw [gatherFrom, if_neg joins]
      exact ih frames room

theorem gather_from_first (rest : List (Request γ)) (fits : first.parts.length ≤ 64) :
    ∃ more left, gatherFrom first 0 (first :: rest) = (first :: more, left) := by
  rw [gatherFrom, if_pos ⟨rfl, rfl, by omega⟩]
  exact ⟨_, _, rfl⟩

end Gather

section Deliver

variable {γ : Type} (outputs : List (Option Bytes)) (ok : Bool)

@[simp] theorem frames_of_cons (request : Request γ) (rest : List (Request γ)) :
    framesOf (request :: rest) = request.parts ++ framesOf rest := rfl

@[simp] theorem frames_of_append (before after : List (Request γ)) :
    framesOf (before ++ after) = framesOf before ++ framesOf after :=
  List.flatMap_append

@[simp] theorem deliver_length (offset : Nat) (group : List (Request γ)) (callers : List (Caller γ)) :
    (deliver outputs ok offset group callers).length = callers.length := by
  induction group generalizing offset callers with
  | nil => rfl
  | cons request rest ih => rw [deliver, ih, List.length_modify]

theorem modify_requests {callers : List (Caller γ)} {f : Caller γ → Caller γ} (i : Nat)
    (keeps : ∀ caller, (f caller).request = caller.request) :
    (callers.modify i f).map Caller.request = callers.map Caller.request := by
  refine List.ext_getElem? fun j => ?_
  rw [List.getElem?_map, List.getElem?_map, List.getElem?_modify]
  by_cases here : i = j
  · cases callers[j]? with
    | none => rfl
    | some caller => simp [here, keeps]
  · cases callers[j]? with
    | none => rfl
    | some caller => simp [here]

theorem deliver_requests (offset : Nat) (group : List (Request γ)) (callers : List (Caller γ)) :
    (deliver outputs ok offset group callers).map Caller.request = callers.map Caller.request := by
  induction group generalizing offset callers with
  | nil => rfl
  | cons request rest ih =>
    rw [deliver, ih]
    exact modify_requests request.caller fun _ => rfl

theorem deliver_others {i : Nat} (offset : Nat) (group : List (Request γ)) (callers : List (Caller γ))
    (absent : i ∉ group.map Request.caller) : (deliver outputs ok offset group callers)[i]? = callers[i]? := by
  induction group generalizing offset callers with
  | nil => rfl
  | cons request rest ih =>
    rw [List.map_cons, List.mem_cons, not_or] at absent
    rw [deliver, ih _ _ absent.2, List.getElem?_modify_ne]
    exact Ne.symm absent.1

-- A caller of the group gets the outputs from where the requests before its own end.
theorem deliver_answers {before after : List (Request γ)} {request : Request γ} (offset : Nat)
    (callers : List (Caller γ)) (apart : ((before ++ request :: after).map Request.caller).Nodup) :
    (deliver outputs ok offset (before ++ request :: after) callers)[request.caller]? =
      callers[request.caller]?.map (answer outputs ok (offset + (framesOf before).length) request.parts.length) := by
  induction before generalizing offset callers with
  | nil =>
    have alone : request.caller ∉ after.map Request.caller := (List.nodup_cons.mp apart).1
    rw [List.nil_append, deliver, deliver_others _ _ _ _ _ alone, List.getElem?_modify_eq]
    rfl
  | cons other before ih =>
    rw [List.cons_append, List.map_cons, List.nodup_cons] at apart
    have different : other.caller ≠ request.caller := fun same => apart.1 (by simp [same])
    rw [List.cons_append, deliver, ih _ _ apart.2, List.getElem?_modify_ne _ _ different, frames_of_cons,
      List.length_append, Nat.add_assoc]

theorem outputs_of_now (helper : Helper) (frames : List Bytes) :
    outputsOf frames.length (nativeSummarizeBatchNow helper frames) =
      (List.range frames.length).map fun k =>
        if (nativeSummarizeBatchNow helper frames).isSome then readReply helper k else none := by
  cases now : nativeSummarizeBatchNow helper frames with
  | none => simp [outputsOf]
  | some replies =>
    unfold nativeSummarizeBatchNow at now
    split_ifs at now with counted sent
    exact (map_m_some_iff.mp now).symm

end Deliver

end SamosaChat.Summary
