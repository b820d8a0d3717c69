import SamosaChat.Lib.Runs
import SamosaChat.Fs.CopyStep

set_option autoImplicit false

namespace SamosaChat.Fs

open Crash

variable {f g h : Folder}

def placesOf (env : Env) (folder : Folder) (root src dst : PathArg) : Option CopyPlaces :=
  match realpathOf env folder root, absoluteOf env root, absoluteOf env src, absoluteOf env dst with
  | .ok rootAbs, some rootInput, some sourceAbs, some destinationAbs =>
    choosePlaces env rootAbs rootInput sourceAbs destinationAbs
  | _, _, _, _ => none

theorem copy_places_ends (attempt : Attempt) (env : Env) (root src dst : PathArg) (f : Folder) :
    Ends (copyPlaces attempt env root src dst)
      (fun answer g => g = f ∧ (answer = none ∨ answer = placesOf env f root src dst)) (fun g => g = f) f := by
  have failed : f = f ∧ ((none : Option CopyPlaces) = none ∨ none = placesOf env f root src dst) := ⟨rfl, .inl rfl⟩
  unfold copyPlaces
  refine ends_step rfl (fun _ _ _ => failed) fun _ => ?_
  cases rootAbs : realpathOf env f root with
  | error errno => exact failed
  | ok rootAbs' =>
    refine (make_absolute_ends attempt env .root root f).bind fun rootInput g ends => ?_
    obtain ⟨rfl, input⟩ := ends
    cases rootInput with
    | none => exact failed
    | some rootInput =>
      refine (make_absolute_ends attempt env .source src g).bind fun sourceAbs h ends => ?_
      obtain ⟨rfl, source⟩ := ends
      cases sourceAbs with
      | none => exact failed
      | some sourceAbs =>
        refine (make_absolute_ends attempt env .destination dst h).bind fun destinationAbs g ends => ?_
        obtain ⟨rfl, destination⟩ := ends
        cases destinationAbs with
        | none => exact failed
        | some destinationAbs =>
          refine ⟨rfl, .inr ?_⟩
          simp only [reduceCtorEq, false_or] at input source destination
          simp only [placesOf, rootAbs, ← input, ← source, ← destination]

theorem copy_places_undisturbed {attempt : Attempt} (undisturbed : attempt.undisturbed) (env : Env)
    (root src dst : PathArg) (f : Folder) : copyPlaces attempt env root src dst f = (some (placesOf env f root src dst), f) := by
  have real : realpath attempt env .root root f = (some (realpathOf env f root), f) := by
    simp [realpath, perform, call, undisturbed _]
  have absolute := fun use path => make_absolute_undisturbed undisturbed env use path f
  simp only [copyPlaces, bind, real, placesOf]
  cases realpathOf env f root with
  | error errno => rfl
  | ok rootAbs =>
    simp only [absolute]
    cases absoluteOf env root with
    | none => rfl
    | some rootInput =>
      simp only [absolute]
      cases absoluteOf env src with
      | none => rfl
      | some sourceAbs =>
        simp only [absolute]
        cases absoluteOf env dst with
        | none => rfl
        | some destinationAbs => rfl

def requestOf (env : Env) (folder : Folder) (args : CopyArgs) : Option CopyRequest :=
  match args.root, args.src, args.dst, args.operationId, args.expectedHash with
  | some root, some src, some dst, some operationId, some expectedHash =>
    if operationId = "" ∨ operationId.utf8ByteSize > 100 ∨ expectedHash.utf8ByteSize ≠ 64 ∨
        !args.haveSize ∨ !args.haveMtime ∨ !args.haveDev ∨ !args.haveIno ∨
        hasDotdotComponent src ∨ hasDotdotComponent dst ∨ !operationId.toList.all operationIdChar then none
    else
      match placesOf env folder root src dst with
      | none => none
      | some places =>
        if reserved places.destination ∨ reserved places.source then none
        else some { places, operationId, expectedHash }
  | _, _, _, _, _ => none

theorem check_copy_ends (attempt : Attempt) (env : Env) (args : CopyArgs) (f : Folder) : Ends (checkCopy attempt env args)
      (fun answer g => g = f ∧ ∀ request, answer = .ok request → requestOf env f args = some request) (fun g => g = f) f := by
  unfold checkCopy requestOf
  split
  · rename_i root src dst operationId expectedHash hroot hsrc hdst hid hhash
    try simp only [hroot, hsrc, hdst, hid, hhash]
    split
    · exact ⟨rfl, by simp⟩
    rename_i good
    split
    · exact ⟨rfl, by simp⟩
    rename_i chars
    rw [if_neg]
    swap
    · simp only [not_or] at good ⊢
      exact ⟨good.1, good.2.1, good.2.2.1, good.2.2.2.1, good.2.2.2.2.1, good.2.2.2.2.2.1, good.2.2.2.2.2.2.1,
        good.2.2.2.2.2.2.2.1, good.2.2.2.2.2.2.2.2, chars⟩
    refine (copy_places_ends attempt env root src dst f).bind fun answer g ends => ?_
    obtain ⟨rfl, known⟩ := ends
    cases answer with
    | none => exact ⟨rfl, by simp⟩
    | some places =>
      have same := known.resolve_left (by simp)
      rw [← same]
      dsimp only
      split
      · exact ⟨rfl, by simp⟩
      · exact ⟨rfl, fun request answer => by cases answer; rfl⟩
  · exact ⟨rfl, by simp⟩

variable {env : Env} {request : CopyRequest}

theorem check_copy_undisturbed {attempt : Attempt} (undisturbed : attempt.undisturbed) (env : Env) (args : CopyArgs)
    {f : Folder} (known : requestOf env f args = some request) : checkCopy attempt env args f = (some (.ok request), f) := by
  unfold checkCopy
  unfold requestOf at known
  split at known
  · rename_i root src dst operationId expectedHash hroot hsrc hdst hid hhash
    simp only [hroot, hsrc, hdst, hid, hhash]
    split at known
    · cases known
    rename_i good
    simp only [not_or] at good
    obtain ⟨a, b, c, d, e, f_, g_, h_, i, chars⟩ := good
    rw [if_neg (by simp only [not_or]; exact ⟨a, b, c, d, e, f_, g_, h_, i⟩), if_neg chars]
    simp only [bind, copy_places_undisturbed undisturbed]
    cases places : placesOf env f root src dst with
    | none =>
      rw [places] at known
      cases known
    | some places' =>
      rw [places] at known
      dsimp only at known ⊢
      split at known
      · cases known
      · rename_i free
        cases known
        rw [if_neg free]
        rfl
  · cases known

theorem request_free {args : CopyArgs} (known : requestOf env f args = some request) :
    reserved request.places.destination = false ∧ reserved request.places.source = false := by
  unfold requestOf at known
  split at known
  · split at known
    · cases known
    split at known
    · cases known
    · split at known
      · cases known
      · rename_i free
        cases known
        simpa using free
  · cases known

theorem as_text_root {name : Path} (plain : Plain name) : (if asText name = [""] then [] else asText name) = name := by
  unfold asText
  by_cases empty : name = []
  · simp [empty]
  · rw [if_neg empty, if_neg]
    intro same
    have bad := plain "" (by simp [same])
    cases bad

theorem choose_root {rootAbs rootInput sourceAbs destinationAbs : Path} {places : CopyPlaces}
    (chosen : choosePlaces env rootAbs rootInput sourceAbs destinationAbs = some places) :
    places.root = if rootAbs = [""] then [] else rootAbs := by
  unfold choosePlaces at chosen
  split at chosen
  · cases chosen
  · cases chosen
    rfl

theorem places_kept {root src dst : PathArg} {places : CopyPlaces}
    (known : placesOf env f root src dst = some places) (kept : KeepsWays f g)
    (last : g.names places.root = f.names places.root) : placesOf env g root src dst = some places := by
  have same : realpathOf env g root = realpathOf env f root := by
    unfold placesOf at known
    unfold realpathOf at known ⊢
    by_cases empty : emptyText root = true
    · rw [if_pos empty, if_pos empty]
    rw [if_neg empty] at known ⊢
    rw [if_neg empty]
    cases found : resolve f (startOf env root) with
    | error errno => simp [found] at known
    | ok name =>
      rw [found] at known
      have there : places.root = name := by
        dsimp only at known
        split at known
        · rename_i rootAbs _ _ _ real _ _ _
          split at real
          · cases real
            rw [choose_root known, as_text_root (resolve_plain found)]
          · cases real
        · cases known
      rw [there] at last
      rw [resolve_kept kept last found]
  unfold placesOf at known ⊢
  rw [same]
  exact known

theorem request_kept {args : CopyArgs} (known : requestOf env f args = some request) (kept : KeepsWays f g)
    (last : g.names request.places.root = f.names request.places.root) : requestOf env g args = some request := by
  unfold requestOf at known ⊢
  split at known
  · rename_i root src dst operationId expectedHash _ _ _ _ _
    split at known
    · cases known
    rename_i good
    rw [if_neg good]
    cases places : placesOf env f root src dst with
    | none =>
      rw [places] at known
      cases known
    | some places' =>
      rw [places] at known
      dsimp only at known
      split at known
      · cases known
      · rename_i free
        cases known
        rw [places_kept places kept last]
        exact if_neg free
  · cases known

end SamosaChat.Fs
