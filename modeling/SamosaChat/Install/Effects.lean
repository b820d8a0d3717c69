import SamosaChat.Install.Safety

set_option autoImplicit false

namespace SamosaChat.Install

open Utf8 Runs Function

section Files

variable {gateway : Gateway} {first : Place → Option Content} {world : World}

theorem inv_published (separate : Separate gateway) (inv : Inv gateway first world) {w : Nat} {artifact : Artifact}
    {path : Bytes} {content : Content} (known : artifact ∈ gateway.catalog.artifacts)
    (installPath : artifact.installPath = some path) (good : artifact.Matches content) (committed : w ∈ world.committed) :
    Inv gateway first { world.place (gateway.place path) (some content) with
      published := update world.published (gateway.place path) (some (w, artifact)) } := by
  obtain ⟨file, home⟩ := separate.outside artifact known path installPath
  rw [home]
  constructor
  case working => exact inv.working
  case apart => exact inv.apart
  case sole => exact inv.sole
  case standing =>
    intro w' id job stage found
    apply standing_frame (inv.standing w' id job stage found)
    case files =>
      intro name
      have other : Place.staged id name ≠ .home file := nofun
      exact update_of_ne other (some content) world.files
    case publishes => exact fun _ member => member
    case committed => exact fun _ member => member
  case queued => exact inv.queued
  case acked => exact inv.acked
  case staging => exact inv.staging
  case installed => exact inv.installed
  case published =>
    intro place w' other found
    change update world.published (.home file) (some (w, artifact)) place = some (w', other) at found
    change _ ∧ _ ∧ (∃ held, update world.files (.home file) (some content) place = some held ∧ _) ∧ _
    rcases update_cases found with ⟨rfl, ⟨⟩⟩ | ⟨own, found⟩
    · rw [update_self]
      exact ⟨known, ⟨path, installPath, home⟩, ⟨content, rfl, good⟩, committed⟩
    · rw [update_of_ne own]
      exact inv.published place w' other found
  case untouched =>
    intro other unpublished
    change update world.published (.home file) (some (w, artifact)) (.home other) = none at unpublished
    change update world.files (.home file) (some content) (.home other) = _
    rcases update_cases unpublished with ⟨_, ⟨⟩⟩ | ⟨own, unpublished⟩
    rw [update_of_ne own]
    exact inv.untouched other unpublished

theorem inv_grow (inv : Inv gateway first world) (publishes : List (Bytes × Artifact)) (committed : List Nat) :
    Inv gateway first { world with
      publishes := publishes ++ world.publishes
      committed := committed ++ world.committed } where
  working := inv.working
  apart := inv.apart
  sole := inv.sole
  standing := by
    intro w id job stage found
    apply standing_frame (inv.standing w id job stage found)
    case files => exact fun _ => rfl
    case publishes => exact fun _ member => List.mem_append_right _ member
    case committed => exact fun _ member => List.mem_append_right _ member
  queued := inv.queued
  acked := inv.acked
  staging := inv.staging
  installed := fun id job found state artifact member =>
    List.mem_append_right _ (inv.installed id job found state artifact member)
  published := by
    intro place w artifact found
    obtain ⟨known, path, held, began⟩ := inv.published place w artifact found
    exact ⟨known, path, held, List.mem_append_right _ began⟩
  untouched := inv.untouched

theorem inv_deliver (separate : Separate gateway) (inv : Inv gateway first world) (c : Nat) (content : Content) :
    Inv gateway first (step gateway world (.deliver c content)) := by
  simp only [step]
  cases running : world.curls c with
  | none => exact inv
  | some curl =>
    obtain ⟨dest, exit⟩ := curl
    cases exit with
    | some status => exact inv
    | none =>
      obtain ⟨id, name, staged⟩ := inv.staging c _ running
      change dest = .staged id name at staged
      subst staged
      apply inv_place separate inv
      intro w job stage found k artifact inside named
      obtain ⟨job', i, other, phase, inside', named'⟩ := inv.sole w _ found rfl c name running
      cases phase
      refine ⟨?_, nofun⟩
      intro covers
      exact staging_names_apart separate inside inside' (Nat.ne_of_lt covers) named named'

theorem inv_exit (inv : Inv gateway first world) (c : Nat) (status : Int) :
    Inv gateway first (step gateway world (.exit c status)) := by
  simp only [step]
  cases running : world.curls c with
  | none => exact inv
  | some curl =>
    obtain ⟨dest, exit⟩ := curl
    cases exit with
    | some status => exact inv
    | none =>
      constructor
      case working => exact inv.working
      case apart => exact inv.apart
      case sole =>
        intro w worker found live c' name writes
        rcases update_cases writes with ⟨_, ⟨⟩⟩ | ⟨_, writes⟩
        exact inv.sole w worker found live c' name writes
      case standing =>
        intro w id job stage found
        apply standing_frame (inv.standing w id job stage found)
        case files => exact fun _ => rfl
        case publishes => exact fun _ member => member
        case committed => exact fun _ member => member
      case queued => exact inv.queued
      case acked => exact inv.acked
      case staging =>
        intro c' curl found
        rcases update_cases found with ⟨_, ⟨⟩⟩ | ⟨_, found⟩
        · obtain ⟨id, name, staged⟩ := inv.staging c _ running
          exact ⟨id, name, staged⟩
        · exact inv.staging c' curl found
      case installed => exact inv.installed
      case published => exact inv.published
      case untouched => exact inv.untouched

theorem inv_curl (inv : Inv gateway first world) {c : Nat} {id name : Bytes}
    (waits : ∀ w worker, world.workers w = some worker → worker.phase.live = true → worker.job = id →
      Fetches gateway worker.phase c name) :
    Inv gateway first { world with curls := update world.curls c (some ⟨.staged id name, none⟩) } where
  working := inv.working
  apart := inv.apart
  sole := by
    intro w worker found live c' name' writes
    rcases update_cases writes with ⟨rfl, ⟨⟩⟩ | ⟨_, writes⟩
    · exact waits w worker found live rfl
    · exact inv.sole w worker found live c' name' writes
  standing := by
    intro w id job stage found
    apply standing_frame (inv.standing w id job stage found)
    case files => exact fun _ => rfl
    case publishes => exact fun _ member => member
    case committed => exact fun _ member => member
  queued := inv.queued
  acked := inv.acked
  staging := by
    intro c' curl found
    rcases update_cases found with ⟨_, ⟨⟩⟩ | ⟨_, found⟩
    · exact ⟨id, name, rfl⟩
    · exact inv.staging c' curl found
  installed := inv.installed
  published := inv.published
  untouched := inv.untouched

theorem inv_rename (separate : Separate gateway) (inv : Inv gateway first world) {old new : Bytes}
    (ended : ∀ job, world.jobs old = some job → job.state.over = true) (free : world.jobs new = none) :
    Inv gateway first (world.renameDir old new) := by
  have unheldOld : Unheld world old := unheld_of inv fun job found => over_rests (ended job found)
  have unheldNew : Unheld world new := by
    apply unheld_of inv
    intro job found
    rw [free] at found
    cases found
  have others : ∀ id, id ≠ old → id ≠ new → (world.renameDir old new).jobs id = world.jobs id := by
    intro id notOld notNew
    change update (update world.jobs new (world.jobs old)) old none id = _
    rw [update_of_ne notOld, update_of_ne notNew]
  have renamed : ∀ id job, (world.renameDir old new).jobs id = some job →
      job.state.over = true ∨ world.jobs id = some job := by
    intro id job found
    by_cases atOld : id = old
    · change update (update world.jobs new (world.jobs old)) old none id = _ at found
      rw [atOld, update_self] at found
      cases found
    · by_cases atNew : id = new
      · change update (update world.jobs new (world.jobs old)) old none id = _ at found
        rw [update_of_ne atOld, atNew, update_self] at found
        exact .inl (ended job found)
      · rw [others id atOld atNew] at found
        exact .inr found
  constructor
  case working =>
    intro w worker found live
    rw [others worker.job (unheldOld.workers w worker found live) (unheldNew.workers w worker found live)]
    exact inv.working w worker found live
  case apart => exact inv.apart
  case sole =>
    intro w worker found live c name writes
    change (world.curls c).map _ = _ at writes
    obtain ⟨⟨dest, exit⟩, running, same⟩ := Option.map_eq_some_iff.mp writes
    obtain ⟨id, name', staged⟩ := inv.staging c _ running
    change dest = .staged id name' at staged
    subst staged
    injection same with dest exit
    rw [Place.renamed] at dest
    by_cases moved : id = old
    · rw [if_pos moved] at dest
      injection dest with here _
      exact absurd here.symm (unheldNew.workers w worker found live)
    · rw [if_neg moved] at dest
      cases dest
      cases exit
      exact inv.sole w worker found live c name running
  case standing =>
    intro w id job stage found
    have notOld := unheldOld.workers w _ found rfl
    have notNew := unheldNew.workers w _ found rfl
    apply standing_frame (inv.standing w id job stage found)
    case files =>
      intro name
      change (if id = new then _ else if id = old then none else world.files (.staged id name)) = _
      rw [if_neg notNew, if_neg notOld]
    case publishes => exact fun _ member => member
    case committed => exact fun _ member => member
  case queued =>
    intro i id waits
    have notOld : id ≠ old := fun same => unheldOld.handlers i (same ▸ waits)
    have notNew : id ≠ new := fun same => unheldNew.handlers i (same ▸ waits)
    rw [others id notOld notNew]
    exact inv.queued i id waits
  case acked =>
    intro id member job found
    exact (renamed id job found).elim (fun ended => ended) fun found => inv.acked id member job found
  case staging =>
    intro c curl found
    change (world.curls c).map _ = _ at found
    obtain ⟨⟨dest, exit⟩, running, same⟩ := Option.map_eq_some_iff.mp found
    obtain ⟨id, name, staged⟩ := inv.staging c _ running
    change dest = .staged id name at staged
    subst staged
    cases same
    change ∃ id' name', (if id = old then Place.staged new name else .staged id name) = .staged id' name'
    by_cases moved : id = old
    · exact ⟨new, name, if_pos moved⟩
    · exact ⟨id, name, if_neg moved⟩
  case installed =>
    intro id job found state
    rcases renamed id job found with ended | found
    · rw [state] at ended
      cases ended
    · exact inv.installed id job found state
  case published =>
    intro place w artifact found
    obtain ⟨known, ⟨path, installPath, same⟩, there, committed⟩ := inv.published place w artifact found
    refine ⟨known, ⟨path, installPath, same⟩, ?_, committed⟩
    obtain ⟨file, home⟩ := separate.outside artifact known path installPath
    rw [home] at same
    subst same
    exact there
  case untouched => exact inv.untouched

structure Opening (gateway : Gateway) (first : Place → Option Content) (world : World) : Prop where
  inv : Inv gateway first world
  workers : ∀ w, world.workers w = none
  handlers : ∀ i, world.handlers i = .idle

theorem opening_restarted (inv : Inv gateway first world) : Opening gateway first (restarted world) where
  inv := by
    constructor
    case working =>
      intro w worker found
      cases found
    case apart =>
      intro w worker w' worker' found
      cases found
    case sole =>
      intro w worker found
      cases found
    case standing =>
      intro w id job stage found
      cases found
    case queued =>
      intro i id found
      cases found
    case acked => exact inv.acked
    case staging => exact inv.staging
    case installed => exact inv.installed
    case published => exact inv.published
    case untouched => exact inv.untouched
  workers := fun _ => rfl
  handlers := fun _ => rfl

theorem opening_repair (opening : Opening gateway first world) (entry : Bytes × Bool) :
    Opening gateway first (repairJob world entry) := by
  rw [repairJob]
  cases found : world.jobs entry.1 with
  | none => exact opening
  | some job =>
    dsimp only
    by_cases working : job.state.working = true
    · rw [if_pos working]
      have kept : Inv gateway first (world.save entry.1 (job.moved .paused) entry.2) := by
        apply inv_save opening.inv
        case holds =>
          right
          constructor
          case workers =>
            intro w worker there
            rw [opening.workers w] at there
            cases there
          case handlers =>
            intro i waits
            rw [opening.handlers i] at waits
            cases waits
        case acked =>
          intro acked
          have ended := opening.inv.acked _ acked job found
          rw [over_rests ended] at working
          cases working
        case installed => exact nofun
      obtain ⟨id, saved⟩ := entry
      cases saved with
      | false => exact opening
      | true => exact ⟨kept, opening.workers, opening.handlers⟩
    · rw [if_neg working]
      exact opening

theorem inv_restart (inv : Inv gateway first world) (listing : List (Bytes × Bool)) :
    Inv gateway first (step gateway world (.restart listing)) := by
  have repaired : ∀ world entry, Opening gateway first world → Opening gateway first (repairJob world entry) :=
    fun _ entry opening => opening_repair opening entry
  exact (run_invariant repaired (opening_restarted inv) listing).inv

end Files

end SamosaChat.Install
