import SamosaChat.Summary.Deliver
import SamosaChat.Lib.Runs
import Mathlib.Data.List.Range

set_option autoImplicit false

namespace SamosaChat.Summary

open Utf8 Text Runs

variable {γ : Type}

def Place.dispatches : Place γ → Bool
  | .waiting => false
  | .coalescing => true
  | .summarizing _ => true
  | .returned _ => false

def Batch.Formed (batch : Batch γ) : Prop :=
  batch.group ≠ [] ∧ batch.frames.length ≤ 64 ∧
    ∀ request ∈ batch.group, request.gateway = batch.gateway ∧ request.concise = batch.concise

def Closed (batches : List (Batch γ)) : Prop :=
  ∀ batch ∈ batches, batch.helper.isSome = true

def Replied (batches : List (Batch γ)) (caller : Caller γ) : Prop :=
  ∃ batch ∈ batches, ∃ helper before after,
    batch.helper = some helper ∧ batch.group = before ++ caller.request :: after ∧
    caller.ok = (nativeSummarizeBatchNow helper batch.frames).isSome ∧
    ∀ j part, caller.request.parts[j]? = some part →
      batch.frames[(framesOf before).length + j]? = some part ∧
      caller.replies[j]? = some (if caller.ok then readReply helper ((framesOf before).length + j) else none)

structure Kept (callers : List (Caller γ)) (queue : List (Request γ)) (batches : List (Batch γ)) : Prop where
  numbered : (callers.map Caller.request).map Request.caller = List.range callers.length
  fits : ∀ request ∈ callers.map Caller.request, 1 ≤ request.parts.length ∧ request.parts.length ≤ 64
  taken : (queue ++ batches.flatMap Batch.group).Perm (callers.map Caller.request)
  formed : ∀ batch ∈ batches, batch.Formed
  answered : ∀ batch ∈ batches, batch.helper.isSome = true → ∀ request ∈ batch.group,
    ∃ caller, callers[request.caller]? = some caller ∧ caller.done = true
  replied : ∀ (i : Nat) (caller : Caller γ), callers[i]? = some caller → caller.done = true → Replied batches caller

def Alone (callers : List (Caller γ)) (i : Nat) : Prop :=
  ∀ (j : Nat) (other : Caller γ), callers[j]? = some other → other.place.dispatches = true → j = i

inductive Phase (world : World γ) : Prop
  | idle (clear : world.dispatching = false) (empty : world.queue = []) (closed : Closed world.batches)
      (nobody : ∀ (j : Nat) (other : Caller γ), world.callers[j]? = some other → other.place.dispatches = false)
  | coalescing (i : Nat) (own : Caller γ) (here : world.callers[i]? = some own) (place : own.place = .coalescing)
      (flag : world.dispatching = true) (some_ : world.queue ≠ []) (closed : Closed world.batches)
      (alone : Alone world.callers i)
  | summarizing (i : Nat) (own : Caller γ) (here : world.callers[i]? = some own) (before : List (Batch γ))
      (batch : Batch γ) (place : own.place = .summarizing batch.group) (flag : world.dispatching = true)
      (last : world.batches = before ++ [batch]) (closed : Closed before) (inFlight : batch.helper = none)
      (alone : Alone world.callers i)

structure Sound (world : World γ) : Prop where
  kept : Kept world.callers world.queue world.batches
  returned : ∀ (i : Nat) (caller : Caller γ) (ok : Bool), world.callers[i]? = some caller →
    caller.place = .returned ok → caller.done = true ∧ caller.ok = ok
  unfaulted : world.faulted = false
  phase : Phase world

variable {batches : List (Batch γ)} {callers : List (Caller γ)}

theorem modify_some {f : Caller γ → Caller γ} {i j : Nat} {caller : Caller γ} (here : (callers.modify i f)[j]? = some caller) :
    ∃ old, callers[j]? = some old ∧ caller = if i = j then f old else old := by
  rw [List.getElem?_modify] at here
  cases found : callers[j]? with
  | none => simp [found] at here
  | some old =>
    refine ⟨old, rfl, ?_⟩
    by_cases same : i = j
    · simpa [found, same] using here.symm
    · simpa [found, same] using here.symm

theorem appended_some {new caller : Caller γ} {j : Nat} (here : (callers ++ [new])[j]? = some caller) :
    callers[j]? = some caller ∨ j = callers.length ∧ caller = new := by
  by_cases early : j < callers.length
  · rw [List.getElem?_append_left early] at here
    exact .inl here
  · rw [List.getElem?_append_right (Nat.not_lt.mp early)] at here
    obtain ⟨last, rfl⟩ := List.getElem?_eq_some_iff.mp here
    simp only [List.length_cons, List.length_nil] at last
    exact .inr ⟨by omega, by simp⟩

theorem kept_place {queue : List (Request γ)} (i : Nat) (place : Caller γ → Place γ) (kept : Kept callers queue batches) :
    Kept (callers.modify i fun own => setPlace (place own) own) queue batches := by
  have requests : (callers.modify i fun own => setPlace (place own) own).map Caller.request =
      callers.map Caller.request := modify_requests i fun _ => rfl
  refine ⟨?_, ?_, ?_, kept.formed, ?_, ?_⟩
  · rw [requests, List.length_modify]
    exact kept.numbered
  · rw [requests]
    exact kept.fits
  · rw [requests]
    exact kept.taken
  · intro batch inside closed request among
    obtain ⟨caller, found, done⟩ := kept.answered batch inside closed request among
    refine ⟨if i = request.caller then setPlace (place caller) caller else caller, ?_, ?_⟩
    · by_cases same : i = request.caller
      · simp [same, found]
      · simp [same, found]
    · split
      · exact done
      · exact done
  · intro j caller here done
    obtain ⟨old, found, rfl⟩ := modify_some here
    by_cases same : i = j
    · rw [if_pos same] at done ⊢
      exact kept.replied j old found done
    · rw [if_neg same] at done ⊢
      exact kept.replied j old found done

theorem kept_start : Kept ([] : List (Caller γ)) [] [] where
  numbered := rfl
  fits := by simp
  taken := .nil
  formed := by simp
  answered := by simp
  replied := by simp

theorem sound_start : Sound (start : World γ) where
  kept := kept_start
  returned := by simp [start]
  unfaulted := rfl
  phase := .idle rfl rfl (by simp [start, Closed]) (by simp [start])

section Enqueue

variable (call : Call γ) {world : World γ}

theorem kept_enqueue (kept : Kept world.callers world.queue world.batches) :
    Kept (enqueue call world).callers (enqueue call world).queue (enqueue call world).batches := by
  refine ⟨?_, ?_, ?_, kept.formed, ?_, ?_⟩
  · simp [enqueue, List.range_succ, ← kept.numbered]
  · intro request inside
    simp only [enqueue, List.map_append, List.mem_append, List.map_cons, List.map_nil, List.mem_singleton] at inside
    rcases inside with old | rfl
    · exact kept.fits request old
    · exact ⟨call.some_, call.few⟩
  · simp only [enqueue, List.map_append, List.map_cons, List.map_nil, List.append_assoc]
    refine (List.Perm.append_left _ List.perm_append_comm).trans ?_
    rw [← List.append_assoc]
    exact kept.taken.append_right _
  · intro batch inside closed request among
    obtain ⟨caller, found, done⟩ := kept.answered batch inside closed request among
    have early : request.caller < world.callers.length := (List.getElem?_eq_some_iff.mp found).1
    exact ⟨caller, (List.getElem?_append_left early).trans found, done⟩
  · intro i caller here done
    rcases appended_some here with old | ⟨-, rfl⟩
    · exact kept.replied i caller old done
    · simp at done

theorem alone_enqueue {i : Nat} {new : Caller γ} (alone : Alone world.callers i)
    (quiet : new.place.dispatches = false) : Alone (world.callers ++ [new]) i := by
  intro j other here busy
  rcases appended_some here with old | ⟨-, rfl⟩
  · exact alone j other old busy
  · rw [quiet] at busy
    cases busy

theorem phase_enqueue (phase : Phase world) : Phase (enqueue call world) := by
  cases phase with
  | idle clear empty closed nobody =>
    refine .coalescing world.callers.length _ List.getElem?_concat_length ?_ rfl (by simp [enqueue]) closed ?_
    · simp [clear]
    · intro j other here busy
      rcases appended_some here with old | ⟨rfl, -⟩
      · rw [nobody j other old] at busy
        cases busy
      · rfl
  | coalescing i own here place flag some_ closed alone =>
    have early : i < world.callers.length := (List.getElem?_eq_some_iff.mp here).1
    refine .coalescing i own ((List.getElem?_append_left early).trans here) place rfl (by simp [enqueue]) closed ?_
    exact alone_enqueue alone (by simp [flag, Place.dispatches])
  | summarizing i own here before batch place flag last closed inFlight alone =>
    have early : i < world.callers.length := (List.getElem?_eq_some_iff.mp here).1
    refine .summarizing i own ((List.getElem?_append_left early).trans here) before batch place rfl last closed
      inFlight ?_
    exact alone_enqueue alone (by simp [flag, Place.dispatches])

theorem sound_enqueue (sound : Sound world) : Sound (enqueue call world) where
  kept := kept_enqueue call sound.kept
  returned := by
    intro i caller ok here place
    rcases appended_some here with old | ⟨-, rfl⟩
    · exact sound.returned i caller ok old place
    · by_cases flag : world.dispatching = true
      · simp [flag] at place
      · simp [flag] at place
  unfaulted := sound.unfaulted
  phase := phase_enqueue call sound.phase

end Enqueue

section Wake

variable {world : World γ} {i : Nat} {caller : Caller γ}

theorem phase_place {place : Caller γ → Place γ} (quiet : ∀ own, (place own).dispatches = false)
    (here : world.callers[i]? = some caller) (was : caller.place.dispatches = false) (phase : Phase world) :
    Phase { world with callers := world.callers.modify i fun own => setPlace (place own) own } := by
  have others : ∀ (j : Nat) (other : Caller γ),
      (world.callers.modify i fun own => setPlace (place own) own)[j]? = some other →
      other.place.dispatches = true → world.callers[j]? = some other := by
    intro j other found busy
    obtain ⟨old, before, rfl⟩ := modify_some found
    by_cases same : i = j
    · rw [if_pos same, setPlace, quiet] at busy
      cases busy
    · rw [if_neg same]
      exact before
  have stays : ∀ (j : Nat) (own : Caller γ), world.callers[j]? = some own → own.place.dispatches = true →
      (world.callers.modify i fun own => setPlace (place own) own)[j]? = some own := by
    intro j own found busy
    have different : i ≠ j := by
      rintro rfl
      rw [here] at found
      cases found
      rw [was] at busy
      cases busy
    rw [List.getElem?_modify_ne _ _ different, found]
  cases phase with
  | idle clear empty closed nobody =>
    refine .idle clear empty closed fun j other found => ?_
    by_contra busy
    rw [Bool.not_eq_false] at busy
    rw [nobody j other (others j other found busy)] at busy
    cases busy
  | coalescing d own found coalesces flag some_ closed alone =>
    refine .coalescing d own (stays d own found (by simp [coalesces, Place.dispatches])) coalesces flag some_ closed ?_
    exact fun j other found busy => alone j other (others j other found busy) busy
  | summarizing d own found before batch summarizes flag last closed inFlight alone =>
    refine .summarizing d own (stays d own found (by simp [summarizes, Place.dispatches])) before batch summarizes flag
      last closed inFlight ?_
    exact fun j other found busy => alone j other (others j other found busy) busy

theorem sound_wake (i : Nat) (sound : Sound world) : Sound (wake i world) := by
  unfold wake
  split
  · rename_i caller here
    split
    · rename_i waits
      by_cases done : caller.done = true
      · rw [if_pos done]
        refine ⟨kept_place i _ sound.kept, ?_, sound.unfaulted, ?_⟩
        · intro j other ok found place
          obtain ⟨old, before, rfl⟩ := modify_some found
          by_cases same : i = j
          · subst same
            rw [here] at before
            cases before
            simpa [setPlace, done] using place
          · rw [if_neg same] at place ⊢
            exact sound.returned j old ok before place
        · exact phase_place (fun _ => rfl) here (by simp [waits, Place.dispatches]) sound.phase
      · rw [if_neg done]
        exact sound
    · exact sound
  · exact sound

end Wake

section Gather

variable {world : World γ} {i : Nat} {caller : Caller γ}

theorem replied_mono {batches : List (Batch γ)} {caller : Caller γ} (more : List (Batch γ))
    (replied : Replied batches caller) : Replied (batches ++ more) caller := by
  obtain ⟨batch, inside, rest⟩ := replied
  exact ⟨batch, List.mem_append_left _ inside, rest⟩

variable {callers : List (Caller γ)}

theorem kept_gather [DecidableEq γ] {batches : List (Batch γ)} {first : Request γ}
    {rest group left : List (Request γ)} (gathered : gatherFrom first 0 (first :: rest) = (group, left))
    (kept : Kept callers (first :: rest) batches) :
    Kept callers left
      (batches ++ [{ gateway := first.gateway, concise := first.concise, group := group, helper := none }]) := by
  have whole : (group ++ left).Perm (first :: rest) := by
    simpa only [gathered] using @gather_from_perm _ _ first 0 (first :: rest)
  have known : first ∈ callers.map Caller.request := kept.taken.subset (by simp)
  refine ⟨kept.numbered, kept.fits, ?_, ?_, ?_, ?_⟩
  · rw [List.flatMap_append]
    simp only [List.flatMap_cons, List.flatMap_nil, List.append_nil]
    calc List.Perm (left ++ (batches.flatMap Batch.group ++ group)) (group ++ left ++ batches.flatMap Batch.group) := by
          rw [← List.append_assoc, List.append_assoc group]
          exact List.perm_append_comm
      List.Perm _ (first :: rest ++ batches.flatMap Batch.group) := whole.append_right _
      List.Perm _ (callers.map Caller.request) := kept.taken
  · intro batch inside
    rcases List.mem_append.mp inside with old | new
    · exact kept.formed batch old
    · rw [List.mem_singleton.mp new]
      refine ⟨?_, ?_, ?_⟩
      · obtain ⟨more, others, same⟩ := gather_from_first rest (kept.fits first known).2
        rw [gathered] at same
        cases same
        exact List.cons_ne_nil _ _
      · simpa [gathered, Batch.frames] using @gather_from_frames _ _ first 0 (first :: rest) (Nat.zero_le _)
      · simpa only [gathered] using @gather_from_alike _ _ first 0 (first :: rest)
  · intro batch inside closed
    rcases List.mem_append.mp inside with old | new
    · exact kept.answered batch old closed
    · rw [List.mem_singleton.mp new] at closed
      cases closed
  · intro j caller here done
    exact replied_mono _ (kept.replied j caller here done)

theorem coalescing_phase (phase : Phase world) (here : world.callers[i]? = some caller) (place : caller.place = .coalescing) :
    world.dispatching = true ∧ world.queue ≠ [] ∧ Closed world.batches ∧ Alone world.callers i := by
  have busy : caller.place.dispatches = true := by rw [place]; rfl
  cases phase with
  | idle clear empty closed nobody =>
    rw [nobody i caller here] at busy
    cases busy
  | coalescing d own found coalesces flag some_ closed alone =>
    cases alone i caller here busy
    exact ⟨flag, some_, closed, alone⟩
  | summarizing d own found before batch summarizes flag last closed inFlight alone =>
    cases alone i caller here busy
    rw [found] at here
    cases here
    rw [place] at summarizes
    cases summarizes

theorem alone_place (place : Caller γ → Place γ) (alone : Alone callers i) :
    Alone (callers.modify i fun own => setPlace (place own) own) i := by
  intro j other found busy
  obtain ⟨old, before, rfl⟩ := modify_some found
  by_cases same : i = j
  · exact same.symm
  · rw [if_neg same] at busy
    exact alone j old before busy

theorem returned_place {place : Caller γ → Place γ} (busy : ∀ own, (place own).dispatches = true)
    (returned : ∀ (j : Nat) (other : Caller γ) (ok : Bool), callers[j]? = some other →
      other.place = .returned ok → other.done = true ∧ other.ok = ok) : ∀ (j : Nat) (other : Caller γ) (ok : Bool),
      (callers.modify i fun own => setPlace (place own) own)[j]? = some other →
      other.place = .returned ok → other.done = true ∧ other.ok = ok := by
  intro j other ok found back
  obtain ⟨old, before, rfl⟩ := modify_some found
  by_cases same : i = j
  · rw [if_pos same] at back
    have still := busy old
    rw [show place old = .returned ok from back] at still
    cases still
  · rw [if_neg same] at back ⊢
    exact returned j old ok before back

theorem sound_gather [DecidableEq γ] (i : Nat) (sound : Sound world) : Sound (gather i world) := by
  unfold gather
  split
  · rename_i caller here
    split
    · rename_i place
      obtain ⟨flag, some_, closed, alone⟩ := coalescing_phase sound.phase here place
      split
      · rename_i empty
        exact absurd empty some_
      · rename_i first rest queued
        have kept := sound.kept
        rw [queued] at kept
        refine ⟨kept_place i _ (kept_gather rfl kept), returned_place (fun _ => rfl) sound.returned, sound.unfaulted, ?_⟩
        have moved : (world.callers.modify i (setPlace (.summarizing (gatherFrom first 0 (first :: rest)).1)))[i]? =
            some (setPlace (.summarizing (gatherFrom first 0 (first :: rest)).1) caller) := by
          rw [List.getElem?_modify_eq, here]
          rfl
        exact .summarizing i _ moved world.batches _ rfl flag rfl closed rfl (alone_place _ alone)
    · exact sound
  · exact sound

end Gather

section Finish

variable {world : World γ} {i : Nat} {caller : Caller γ}

theorem close_batch_last (helper : Helper) (before : List (Batch γ)) (batch : Batch γ) :
    closeBatch helper (before ++ [batch]) = before ++ [{ batch with helper := some helper }] := by
  induction before with
  | nil => rfl
  | cons other before ih =>
    cases before with
    | nil => rfl
    | cons more before => exact congrArg (other :: ·) ih

variable {batch : Batch γ} {batches before : List (Batch γ)} {callers : List (Caller γ)} {group queue : List (Request γ)}

theorem summarizing_phase (phase : Phase world) (here : world.callers[i]? = some caller)
    (place : caller.place = .summarizing group) : world.dispatching = true ∧ Alone world.callers i ∧ ∃ before batch,
      world.batches = before ++ [batch] ∧ Closed before ∧ batch.helper = none ∧ batch.group = group := by
  have busy : caller.place.dispatches = true := by rw [place]; rfl
  cases phase with
  | idle clear empty closed nobody =>
    rw [nobody i caller here] at busy
    cases busy
  | coalescing d own found coalesces flag some_ closed alone =>
    cases alone i caller here busy
    rw [found] at here
    cases here
    rw [place] at coalesces
    cases coalesces
  | summarizing d own found before batch summarizes flag last closed inFlight alone =>
    cases alone i caller here busy
    rw [found] at here
    cases here
    rw [place] at summarizes
    cases summarizes
    exact ⟨flag, alone, before, batch, last, closed, inFlight, rfl⟩

theorem group_apart (kept : Kept callers queue (before ++ [batch])) : (batch.group.map Request.caller).Nodup := by
  have all : ((queue ++ (before ++ [batch]).flatMap Batch.group).map Request.caller).Nodup := by
    rw [(kept.taken.map Request.caller).nodup_iff, kept.numbered]
    exact List.nodup_range
  refine all.sublist (List.Sublist.map _ ?_)
  simp only [List.flatMap_append, List.flatMap_cons, List.flatMap_nil, List.append_nil]
  exact (List.sublist_append_right _ _).trans (List.sublist_append_right _ _)

theorem answer_replied {helper : Helper} {batches : List (Batch γ)} {batch : Batch γ} {before after : List (Request γ)}
    {caller : Caller γ} (inside : batch ∈ batches) (through : batch.helper = some helper)
    (split : batch.group = before ++ caller.request :: after) : Replied batches
      (answer (outputsOf batch.frames.length (nativeSummarizeBatchNow helper batch.frames))
        (nativeSummarizeBatchNow helper batch.frames).isSome (framesOf before).length caller.request.parts.length
        caller) := by
  refine ⟨batch, inside, helper, before, after, through, split, rfl, fun j part here => ?_⟩
  have early : j < caller.request.parts.length := (List.getElem?_eq_some_iff.mp here).1
  have frames : batch.frames = framesOf before ++ (caller.request.parts ++ framesOf after) := by
    rw [Batch.frames, split, frames_of_append, frames_of_cons]
  have placed : batch.frames[(framesOf before).length + j]? = some part := by
    rw [frames, List.getElem?_append_right (Nat.le_add_right _ _), Nat.add_sub_cancel_left, List.getElem?_append_left early]
    exact here
  refine ⟨placed, ?_⟩
  have bound := (List.getElem?_eq_some_iff.mp placed).1
  simp only [answer, outputs_of_now]
  rw [List.getElem?_append_left (by simp; omega), List.getElem?_take_of_lt early, List.getElem?_drop]
  simp [bound]

theorem caller_number (kept : Kept callers queue batches) (here : callers[i]? = some caller) : caller.request.caller = i := by
  have numbers : ((callers.map Caller.request).map Request.caller)[i]? = some caller.request.caller := by
    simp [here]
  rw [kept.numbered, List.getElem?_range (List.getElem?_eq_some_iff.mp here).1] at numbers
  exact (Option.some.inj numbers).symm

theorem caller_of_request {request : Request γ} (kept : Kept callers queue batches) (known : request ∈ callers.map Caller.request) :
    ∃ caller, callers[request.caller]? = some caller ∧ caller.request = request := by
  obtain ⟨caller, inside, rfl⟩ := List.mem_map.mp known
  obtain ⟨i, here⟩ := List.mem_iff_getElem?.mp inside
  rw [caller_number kept here]
  exact ⟨caller, here, rfl⟩

theorem batch_known {request : Request γ} (kept : Kept callers queue batches) (inside : batch ∈ batches)
    (among : request ∈ batch.group) : request ∈ callers.map Caller.request :=
  kept.taken.subset (List.mem_append_right _ (List.mem_flatMap.mpr ⟨batch, inside, among⟩))

theorem deliver_at (outputs : List (Option Bytes)) (ok : Bool)
    (callers : List (Caller γ)) (apart : (group.map Request.caller).Nodup) (i : Nat) :
    (deliver outputs ok 0 group callers)[i]? = callers[i]? ∨
      ∃ before request after, group = before ++ request :: after ∧ request.caller = i ∧
        (deliver outputs ok 0 group callers)[i]? =
          callers[i]?.map (answer outputs ok (framesOf before).length request.parts.length) := by
  by_cases among : i ∈ group.map Request.caller
  · obtain ⟨request, inside, rfl⟩ := List.mem_map.mp among
    obtain ⟨before, after, rfl⟩ := List.append_of_mem inside
    refine .inr ⟨before, request, after, rfl, rfl, ?_⟩
    rw [deliver_answers outputs ok 0 callers apart, Nat.zero_add]
  · exact .inl (deliver_others outputs ok 0 group callers among)

theorem deliver_done (outputs : List (Option Bytes)) (ok : Bool)
    (apart : (group.map Request.caller).Nodup) (here : callers[i]? = some caller)
    (settled : caller.done = true ∨ i ∈ group.map Request.caller) :
    ∃ after, (deliver outputs ok 0 group callers)[i]? = some after ∧ after.done = true := by
  rcases deliver_at outputs ok callers apart i with same | ⟨before, request, after, split, rfl, answered⟩
  · by_cases among : i ∈ group.map Request.caller
    · obtain ⟨request, inside, rfl⟩ := List.mem_map.mp among
      obtain ⟨before, after, rfl⟩ := List.append_of_mem inside
      exact ⟨_, (deliver_answers outputs ok 0 callers apart).trans (congrArg _ here), rfl⟩
    · exact ⟨caller, same.trans here, settled.resolve_right among⟩
  · exact ⟨_, answered.trans (congrArg _ here), rfl⟩

theorem replied_close (helper : Helper) (inFlight : batch.helper = none) (replied : Replied (before ++ [batch]) caller) :
    Replied (before ++ [{ batch with helper := some helper }]) caller := by
  obtain ⟨other, inside, used, earlier, later, through, rest⟩ := replied
  rcases List.mem_append.mp inside with old | new
  · exact ⟨other, List.mem_append_left _ old, used, earlier, later, through, rest⟩
  · rw [List.mem_singleton.mp new, inFlight] at through
    cases through

theorem kept_finish (helper : Helper) (kept : Kept callers queue (before ++ [batch])) (inFlight : batch.helper = none) :
    Kept (deliver (outputsOf batch.frames.length (nativeSummarizeBatchNow helper batch.frames))
        (nativeSummarizeBatchNow helper batch.frames).isSome 0 batch.group callers)
      queue (before ++ [{ batch with helper := some helper }]) := by
  have apart := group_apart kept
  have last : ∀ other ∈ before ++ [{ batch with helper := some helper }], other ∈ before ∨ other.group = batch.group := by
    intro other inside
    rcases List.mem_append.mp inside with old | new
    · exact .inl old
    · exact .inr (by rw [List.mem_singleton.mp new])
  refine ⟨?_, ?_, ?_, ?_, ?_, ?_⟩
  · rw [deliver_requests, deliver_length]
    exact kept.numbered
  · rw [deliver_requests]
    exact kept.fits
  · rw [deliver_requests]
    simpa using kept.taken
  · intro other inside
    rcases List.mem_append.mp inside with old | new
    · exact kept.formed other (List.mem_append_left _ old)
    · rw [List.mem_singleton.mp new]
      exact kept.formed batch (by simp)
  · intro other inside closed request among
    rcases last other inside with old | same
    · obtain ⟨caller, here, done⟩ := kept.answered other (List.mem_append_left _ old)
        closed request among
      exact deliver_done _ _ apart here (.inl done)
    · rw [same] at among
      obtain ⟨caller, here, -⟩ := caller_of_request kept (batch_known kept (List.mem_append_right _ (List.mem_singleton_self batch)) among)
      exact deliver_done _ _ apart here (.inr (List.mem_map_of_mem among))
  · intro j caller here done
    rcases deliver_at (outputsOf batch.frames.length (nativeSummarizeBatchNow helper batch.frames))
        (nativeSummarizeBatchNow helper batch.frames).isSome callers apart j with
      same | ⟨earlier, request, later, split, rfl, answered⟩
    · rw [same] at here
      exact replied_close helper inFlight (kept.replied j caller here done)
    · rw [answered] at here
      obtain ⟨old, found, rfl⟩ := Option.map_eq_some_iff.mp here
      have known : request ∈ batch.group := by simp [split]
      obtain ⟨own, at_, same⟩ := caller_of_request kept (batch_known kept (List.mem_append_right _ (List.mem_singleton_self batch)) known)
      rw [found] at at_
      cases at_
      subst same
      exact @answer_replied _ helper _ { batch with helper := some helper } earlier later old
        (List.mem_append_right _ (List.mem_singleton_self _)) rfl split

theorem deliver_place (outputs : List (Option Bytes)) (ok : Bool)
    (apart : (group.map Request.caller).Nodup) (here : (deliver outputs ok 0 group callers)[i]? = some caller) :
    ∃ old, callers[i]? = some old ∧ caller.place = old.place := by
  rcases deliver_at outputs ok callers apart i with same | ⟨before, request, after, split, rfl, answered⟩
  · exact ⟨caller, same.symm.trans here, rfl⟩
  · rw [answered] at here
    obtain ⟨old, found, rfl⟩ := Option.map_eq_some_iff.mp here
    exact ⟨old, found, rfl⟩

theorem done_not_in_flight (kept : Kept callers queue (before ++ [batch])) (inFlight : batch.helper = none)
    (here : callers[i]? = some caller) (done : caller.done = true) : caller.request ∉ batch.group := by
  intro among
  obtain ⟨other, inside, used, earlier, later, through, split, -⟩ := kept.replied i caller here done
  have old : other ∈ before := by
    rcases List.mem_append.mp inside with old | new
    · exact old
    · rw [List.mem_singleton.mp new, inFlight] at through
      cases through
  have all : ((queue ++ (before ++ [batch]).flatMap Batch.group).map Request.caller).Nodup := by
    rw [(kept.taken.map Request.caller).nodup_iff, kept.numbered]
    exact List.nodup_range
  simp only [List.flatMap_append, List.flatMap_cons, List.flatMap_nil, List.append_nil] at all
  rw [← List.append_assoc] at all
  refine (List.nodup_append'.mp all.of_map).2.2 (List.mem_append_right _ ?_) among
  exact List.mem_flatMap.mpr ⟨other, old, by simp [split]⟩

theorem returned_deliver (outputs : List (Option Bytes)) (ok : Bool) (kept : Kept callers queue (before ++ [batch]))
    (inFlight : batch.helper = none) (returned : ∀ (j : Nat) (other : Caller γ) (ok : Bool), callers[j]? = some other →
      other.place = .returned ok → other.done = true ∧ other.ok = ok) :
    ∀ (j : Nat) (other : Caller γ) (back : Bool), (deliver outputs ok 0 batch.group callers)[j]? = some other →
      other.place = .returned back → other.done = true ∧ other.ok = back := by
  intro j other back found place
  rcases deliver_at outputs ok callers (group_apart kept) j with same | ⟨earlier, request, later, split, rfl, answered⟩
  · exact returned j other back (same.symm.trans found) place
  · rw [answered] at found
    obtain ⟨old, here, rfl⟩ := Option.map_eq_some_iff.mp found
    have known : request ∈ batch.group := by simp [split]
    obtain ⟨own, at_, same⟩ :=
      caller_of_request kept (batch_known kept (List.mem_append_right _ (List.mem_singleton_self batch)) known)
    rw [here] at at_
    cases at_
    have done := (returned request.caller old back here place).1
    exact absurd (same ▸ known) (done_not_in_flight kept inFlight here done)

theorem closed_finish (helper : Helper) (closed : Closed before) : Closed (before ++ [{ batch with helper := some helper }]) := by
  intro other inside
  rcases List.mem_append.mp inside with old | new
  · exact closed other old
  · rw [List.mem_singleton.mp new]
    rfl

theorem all_done (kept : Kept callers [] batches)
    (closed : Closed batches) (here : callers[i]? = some caller) : caller.done = true := by
  have known : caller.request ∈ batches.flatMap Batch.group := by
    refine kept.taken.symm.subset ?_
    exact List.mem_map_of_mem (List.mem_of_getElem? here)
  obtain ⟨batch, inside, among⟩ := List.mem_flatMap.mp known
  obtain ⟨found, at_, done⟩ := kept.answered batch inside (closed batch inside) caller.request among
  rw [caller_number kept here, here] at at_
  cases at_
  exact done

theorem sound_finish (i : Nat) (helper : Helper) (sound : Sound world) : Sound (finish i helper world) := by
  unfold finish
  split
  · rename_i own here
    split
    · rename_i group place
      obtain ⟨flag, alone, before, batch, last, closed, inFlight, rfl⟩ := summarizing_phase sound.phase here place
      have old := sound.kept
      rw [last] at old
      have kept := kept_finish helper old inFlight
      have returned := returned_deliver
        (outputsOf batch.frames.length (nativeSummarizeBatchNow helper batch.frames))
        (nativeSummarizeBatchNow helper batch.frames).isSome old inFlight sound.returned
      simp only [last, close_batch_last]
      split
      · rename_i empty
        rw [empty] at kept
        refine ⟨?_, ?_, sound.unfaulted, ?_⟩
        · rw [empty]
          exact kept_place i (fun own => .returned own.ok) kept
        · intro j other ok found back
          obtain ⟨mid, delivered, rfl⟩ := modify_some found
          by_cases same : i = j
          · rw [if_pos same] at back ⊢
            cases back
            have done : mid.done = true := all_done kept (closed_finish helper closed) delivered
            exact ⟨done, rfl⟩
          · rw [if_neg same] at back ⊢
            exact returned j mid ok delivered back
        · refine .idle rfl empty (closed_finish helper closed) fun j other found => ?_
          obtain ⟨mid, delivered, rfl⟩ := modify_some found
          by_cases same : i = j
          · rw [if_pos same]
            rfl
          · rw [if_neg same]
            obtain ⟨first, started, stays⟩ := deliver_place _ _ (group_apart old) delivered
            by_contra busy
            rw [Bool.not_eq_false, stays] at busy
            exact same (alone j first started busy).symm
      · rename_i some_
        refine ⟨kept_place i (fun _ => .coalescing) kept, returned_place (fun _ => rfl) returned, sound.unfaulted, ?_⟩
        obtain ⟨mid, delivered⟩ : ∃ mid, (deliver
            (outputsOf batch.frames.length (nativeSummarizeBatchNow helper batch.frames))
            (nativeSummarizeBatchNow helper batch.frames).isSome 0 batch.group world.callers)[i]? = some mid := by
          have early := (List.getElem?_eq_some_iff.mp here).1
          exact ⟨_, List.getElem?_eq_getElem (by simpa using early)⟩
        refine .coalescing i (setPlace .coalescing mid) ?_ rfl flag some_ (closed_finish helper closed) ?_
        · rw [List.getElem?_modify_eq]
          exact congrArg (Option.map _) delivered
        · apply alone_place
          intro j other found busy
          obtain ⟨first, started, stays⟩ := deliver_place _ _ (group_apart old) found
          rw [stays] at busy
          exact alone j first started busy
    · exact sound
  · exact sound

end Finish

theorem sound_step [DecidableEq γ] (world : World γ) (action : Action γ) (sound : Sound world) : Sound (step world action) := by
  cases action with
  | call call => exact sound_enqueue call sound
  | wake i => exact sound_wake i sound
  | gather i => exact sound_gather i sound
  | finish i helper => exact sound_finish i helper sound

theorem sound_run [DecidableEq γ] (actions : List (Action γ)) : Sound (run actions) :=
  run_invariant sound_step sound_start actions

section Requests

def Request.handed (request : Request γ) : γ × List Bytes × Int :=
  (request.gateway, request.parts, request.concise)

def callsOf : List (Action γ) → List (γ × List Bytes × Int)
  | [] => []
  | .call call :: rest => (call.gateway, call.parts, call.concise) :: callsOf rest
  | .wake _ :: rest => callsOf rest
  | .gather _ :: rest => callsOf rest
  | .finish _ _ :: rest => callsOf rest

theorem wake_requests (i : Nat) (world : World γ) :
    (wake i world).callers.map Caller.request = world.callers.map Caller.request := by
  unfold wake
  split
  · split
    · split
      · exact modify_requests i fun _ => rfl
      · rfl
    · rfl
  · rfl

theorem gather_requests [DecidableEq γ] (i : Nat) (world : World γ) :
    (gather i world).callers.map Caller.request = world.callers.map Caller.request := by
  unfold gather
  split
  · split
    · split
      · rfl
      · exact modify_requests i fun _ => rfl
    · rfl
  · rfl

theorem finish_requests (i : Nat) (helper : Helper) (world : World γ) :
    (finish i helper world).callers.map Caller.request = world.callers.map Caller.request := by
  unfold finish
  split
  · split
    · simp only
      split
      · refine (modify_requests i ?_).trans (deliver_requests _ _ _ _ _)
        exact fun _ => rfl
      · refine (modify_requests i ?_).trans (deliver_requests _ _ _ _ _)
        exact fun _ => rfl
    · rfl
  · rfl

theorem run_requests [DecidableEq γ] (actions : List (Action γ)) (world : World γ) :
    ((actions.foldl step world).callers.map Caller.request).map Request.handed =
      (world.callers.map Caller.request).map Request.handed ++ callsOf actions := by
  induction actions generalizing world with
  | nil => exact (List.append_nil _).symm
  | cons action rest ih =>
    rw [List.foldl_cons, ih]
    cases action with
    | call call => simp [step, enqueue, callsOf, Request.handed]
    | wake i => rw [step, wake_requests, callsOf]
    | gather i => rw [step, gather_requests, callsOf]
    | finish i helper => rw [step, finish_requests, callsOf]

end Requests

section Progress

variable {world : World γ} {i : Nat} {caller : Caller γ}

def Place.inside : Place γ → Bool
  | .waiting => true
  | .coalescing => true
  | .summarizing _ => true
  | .returned _ => false

def Caller.inside (caller : Caller γ) : Bool :=
  caller.place.inside

def left (world : World γ) : Nat :=
  world.callers.countP Caller.inside + 2 * world.queue.length + world.batches.countP (fun batch => batch.helper.isNone)

theorem inside_modify {callers : List (Caller γ)} (f : Caller γ → Caller γ) (here : callers[i]? = some caller)
    (was : caller.inside = true) : (callers.modify i f).countP Caller.inside + 1 =
      callers.countP Caller.inside + if (f caller).inside = true then 1 else 0 := by
  obtain ⟨early, same⟩ := List.getElem?_eq_some_iff.mp here
  have split : callers = callers.take i ++ caller :: callers.drop (i + 1) := by
    rw [← same]
    simp
  have counted := congrArg (List.countP Caller.inside) split
  rw [List.modify_eq_take_cons_drop early, same]
  simp only [List.countP_append, List.countP_cons, was, if_true] at counted ⊢
  omega

theorem inside_places {callers others : List (Caller γ)} (places : others.map Caller.place = callers.map Caller.place) :
    others.countP Caller.inside = callers.countP Caller.inside := by
  have counted : ∀ l : List (Caller γ), l.countP Caller.inside = (l.map Caller.place).countP Place.inside :=
    fun l => by rw [List.countP_map]; rfl
  rw [counted, counted, places]

theorem inside_deliver (outputs : List (Option Bytes)) (ok : Bool) (offset : Nat) (group : List (Request γ))
    (callers : List (Caller γ)) :
    (deliver outputs ok offset group callers).countP Caller.inside = callers.countP Caller.inside := by
  induction group generalizing offset callers with
  | nil => rfl
  | cons request rest ih =>
    rw [deliver, ih]
    apply inside_places
    refine List.ext_getElem? fun j => ?_
    rw [List.getElem?_map, List.getElem?_map, List.getElem?_modify]
    cases callers[j]? with
    | none => rfl
    | some caller =>
      by_cases same : request.caller = j
      · simp [same, answer]
      · simp [same]

theorem wake_left (here : world.callers[i]? = some caller) (waits : caller.place = .waiting)
    (done : caller.done = true) : left (wake i world) < left world := by
  have fewer := inside_modify (setPlace (.returned caller.ok)) here (by rw [Caller.inside, waits]; rfl)
  rw [if_neg (by exact Bool.false_ne_true)] at fewer
  simp only [wake, here, waits, done, if_true, left]
  omega

theorem gather_left [DecidableEq γ] (sound : Sound world) (here : world.callers[i]? = some caller)
    (coalesces : caller.place = .coalescing) : left (gather i world) < left world := by
  obtain ⟨-, some_, -⟩ := coalescing_phase sound.phase here coalesces
  cases queued : world.queue with
  | nil => exact absurd queued some_
  | cons first rest =>
    have known : first ∈ world.callers.map Caller.request := by
      refine sound.kept.taken.subset ?_
      simp [queued]
    obtain ⟨more, others, gathered⟩ := gather_from_first rest (sound.kept.fits first known).2
    have whole := (@gather_from_perm _ _ first 0 (first :: rest)).length_eq
    have same := inside_modify (setPlace (.summarizing (first :: more))) here (by rw [Caller.inside, coalesces]; rfl)
    have still : (setPlace (.summarizing (first :: more)) caller).inside = true := rfl
    rw [if_pos still] at same
    rw [gathered] at whole
    simp only [List.length_append, List.length_cons] at whole
    simp only [gather, here, coalesces, queued, gathered, left, List.countP_append, List.countP_cons, List.countP_nil,
      Option.isNone_none, if_true, List.length_cons]
    omega

theorem finish_left (sound : Sound world) (here : world.callers[i]? = some caller) {group : List (Request γ)}
    (summarizes : caller.place = .summarizing group) (helper : Helper) : left (finish i helper world) < left world := by
  obtain ⟨-, -, before, batch, last, -, inFlight, rfl⟩ := summarizing_phase sound.phase here summarizes
  obtain ⟨mid, delivered, stays⟩ : ∃ mid, (deliver
      (outputsOf (framesOf batch.group).length (nativeSummarizeBatchNow helper (framesOf batch.group)))
      (nativeSummarizeBatchNow helper (framesOf batch.group)).isSome 0 batch.group world.callers)[i]? = some mid ∧
      mid.inside = true := by
    have early := (List.getElem?_eq_some_iff.mp here).1
    have kept := sound.kept
    rw [last] at kept
    refine ⟨_, List.getElem?_eq_getElem (by simpa using early), ?_⟩
    obtain ⟨old, found, place⟩ := deliver_place
      (outputsOf (framesOf batch.group).length (nativeSummarizeBatchNow helper (framesOf batch.group)))
      (nativeSummarizeBatchNow helper (framesOf batch.group)).isSome (group_apart kept)
      (List.getElem?_eq_getElem (by simpa using early))
    rw [here] at found
    cases found
    rw [Caller.inside, place, summarizes]
    rfl
  have fewer := inside_modify (fun own => setPlace (.returned own.ok) own) delivered stays
  have same := inside_modify (setPlace .coalescing) delivered stays
  have out : (setPlace (.returned mid.ok) mid).inside = false := rfl
  have still : (setPlace .coalescing mid).inside = true := rfl
  rw [inside_deliver, if_neg (by rw [out]; exact Bool.false_ne_true)] at fewer
  rw [inside_deliver, if_pos still] at same
  by_cases empty : world.queue = []
  · simp only [finish, here, summarizes, if_pos empty, left, last, close_batch_last, List.countP_append,
      List.countP_cons, List.countP_nil, inFlight, Option.isNone_none, Option.isNone_some, if_true, Bool.false_eq_true, if_false]
    omega
  · simp only [finish, here, summarizes, if_neg empty, left, last, close_batch_last, List.countP_append,
      List.countP_cons, List.countP_nil, inFlight, Option.isNone_none, Option.isNone_some, if_true, Bool.false_eq_true, if_false]
    omega

theorem progress [DecidableEq γ] (sound : Sound world) (here : world.callers[i]? = some caller) (inside : caller.inside = true) :
    ∃ j, left (wake j world) < left world ∨ left (gather j world) < left world ∨
      ∀ helper, left (finish j helper world) < left world := by
  cases sound.phase with
  | idle clear empty closed nobody =>
    have kept := sound.kept
    rw [empty] at kept
    have done := all_done kept closed here
    refine ⟨i, .inl (wake_left here ?_ done)⟩
    have quiet := nobody i caller here
    cases place : caller.place with
    | waiting => rfl
    | coalescing => simp [place, Place.dispatches] at quiet
    | summarizing group => simp [place, Place.dispatches] at quiet
    | returned ok => simp [Caller.inside, place, Place.inside] at inside
  | coalescing d own found coalesces flag some_ closed alone =>
    exact ⟨d, .inr (.inl (gather_left sound found coalesces))⟩
  | summarizing d own found before batch summarizes flag last closed inFlight alone =>
    exact ⟨d, .inr (.inr (finish_left sound found summarizes))⟩

theorem steps_left [DecidableEq γ] (sound : Sound world) (i : Nat) :
    left (wake i world) ≤ left world ∧ left (gather i world) ≤ left world ∧
      ∀ helper, left (finish i helper world) ≤ left world := by
  cases here : world.callers[i]? with
  | none => simp [wake, gather, finish, here]
  | some caller =>
    cases place : caller.place with
    | waiting =>
      refine ⟨?_, by simp [gather, here, place], by simp [finish, here, place]⟩
      by_cases done : caller.done = true
      · exact (wake_left here place done).le
      · simp [wake, here, place, done]
    | coalescing =>
      exact ⟨by simp [wake, here, place], (gather_left sound here place).le, by simp [finish, here, place]⟩
    | summarizing group =>
      exact ⟨by simp [wake, here, place], by simp [gather, here, place], fun helper => (finish_left sound here place helper).le⟩
    | returned ok => simp [wake, gather, finish, here, place]

end Progress

structure Batched [DecidableEq γ] (actions : List (Action γ)) (world : World γ) : Prop where
  handed : (world.callers.map Caller.request).map Request.handed = callsOf actions
  distinct : (world.callers.map Caller.request).Nodup
  taken : (world.queue ++ world.batches.flatMap Batch.group).Perm (world.callers.map Caller.request)
  formed : ∀ batch ∈ world.batches, batch.Formed
  inFlight : world.batches.countP (fun batch => batch.helper.isNone) ≤ 1
  replied : ∀ caller ∈ world.callers, caller.done = true → Replied world.batches caller
  returned : ∀ caller ∈ world.callers, ∀ ok, caller.place = .returned ok → caller.done = true ∧ caller.ok = ok
  flagged : world.queue ≠ [] → world.dispatching = true
  clear : world.queue = [] → Closed world.batches → world.dispatching = false
  unfaulted : world.faulted = false
  goesOn : ∀ caller ∈ world.callers, caller.inside = true →
    ∃ j, left (step world (.wake j)) < left world ∨ left (step world (.gather j)) < left world ∨
      ∀ helper, left (step world (.finish j helper)) < left world
  comesNearer : ∀ j, left (step world (.wake j)) ≤ left world ∧ left (step world (.gather j)) ≤ left world ∧
    ∀ helper, left (step world (.finish j helper)) ≤ left world

theorem closed_count (closed : Closed batches) : batches.countP (fun batch => batch.helper.isNone) = 0 := by
  rw [List.countP_eq_zero]
  intro batch inside
  have through := closed batch inside
  cases found : batch.helper with
  | none => simp [found] at through
  | some helper => simp

theorem in_flight_once {world : World γ} (phase : Phase world) : world.batches.countP (fun batch => batch.helper.isNone) ≤ 1 := by
  cases phase with
  | idle clear empty closed nobody => simp [closed_count closed]
  | coalescing i own here place flag some_ closed alone => simp [closed_count closed]
  | summarizing i own here before batch place flag last closed inFlight alone =>
    rw [last, List.countP_append, closed_count closed]
    simp [inFlight]

theorem queued_flagged {world : World γ} (phase : Phase world) (some_ : world.queue ≠ []) : world.dispatching = true := by
  cases phase with
  | idle clear empty closed nobody => exact absurd empty some_
  | coalescing i own here place flag some_ closed alone => exact flag
  | summarizing i own here before batch place flag last closed inFlight alone => exact flag

theorem idle_clear {world : World γ} (phase : Phase world) (empty : world.queue = []) (closed : Closed world.batches) :
    world.dispatching = false := by
  cases phase with
  | idle clear empty closed nobody => exact clear
  | coalescing i own here place flag some_ closed alone => exact absurd empty some_
  | summarizing i own here before batch place flag last others inFlight alone =>
    have through := closed batch (by simp [last])
    rw [inFlight] at through
    cases through

theorem requests_distinct {queue : List (Request γ)} (kept : Kept callers queue batches) : (callers.map Caller.request).Nodup := by
  apply List.Nodup.of_map Request.caller
  rw [kept.numbered]
  exact List.nodup_range

theorem native_summarize_batch [DecidableEq γ] (actions : List (Action γ)) : Batched actions (run actions) where
  handed := run_requests actions start
  distinct := requests_distinct (sound_run actions).kept
  taken := (sound_run actions).kept.taken
  formed := (sound_run actions).kept.formed
  inFlight := in_flight_once (sound_run actions).phase
  replied := by
    intro caller inside done
    obtain ⟨i, here⟩ := List.mem_iff_getElem?.mp inside
    exact (sound_run actions).kept.replied i caller here done
  returned := by
    intro caller inside ok place
    obtain ⟨i, here⟩ := List.mem_iff_getElem?.mp inside
    exact (sound_run actions).returned i caller ok here place
  flagged := queued_flagged (sound_run actions).phase
  clear := idle_clear (sound_run actions).phase
  unfaulted := (sound_run actions).unfaulted
  goesOn := by
    intro caller inside still
    obtain ⟨i, here⟩ := List.mem_iff_getElem?.mp inside
    exact progress (sound_run actions) here still
  comesNearer := steps_left (sound_run actions)

def oneCall : Call Nat where
  gateway := 0
  parts := [utf8 "a part"]
  concise := 0
  replies := [none]
  some_ := by decide
  few := by decide

-- With its only batch at the helper, the queue is empty and the flag still set.
theorem flag_set_in_flight : ¬ ∀ actions : List (Action Nat), (run actions).queue = [] → (run actions).dispatching = false := by
  intro always
  have clear := always [.call oneCall, .gather 0] (by decide)
  revert clear
  decide

end SamosaChat.Summary
