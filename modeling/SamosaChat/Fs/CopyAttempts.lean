import SamosaChat.Fs.CopyRecovery

set_option autoImplicit false

namespace SamosaChat.Fs

open Crash Runs

variable {f g h : Folder} {env : Env} {args : CopyArgs} {request : CopyRequest}

abbrev CopyRequest.names (request : CopyRequest) (pid : Nat) : CopyNames :=
  operationNames request.places request.operationId pid

theorem command_ends (attempt : Attempt) (undo : Bool) (f : Folder) (blind : Prop)
    (sees : ∀ request, requestOf env f args = some request →
      (∃ fault, attempt.fate (.lstat .destination (request.names 0).destination) = .refused fault) → blind) :
    Ends (commandCopy attempt env args undo)
      (fun answer g => g = f ∧ answer.applied = false ∨ ∃ request, requestOf env f args = some request ∧
        RunAnswers request.places request.operationId attempt.pid undo request.expectedHash blind args.expected f answer g)
      (fun g => g = f ∨ ∃ request, requestOf env f args = some request ∧
        RunStops request.places request.operationId attempt.pid undo request.expectedHash blind f g) f := by
  unfold commandCopy
  refine (Ends.mono (check_copy_ends attempt env args f) (fun answer g ends => ends)
    (fun g same => .inl same)).bind fun answer g ends => ?_
  obtain ⟨rfl, known⟩ := ends
  cases answer with
  | error reason => exact .inl ⟨rfl, rfl⟩
  | ok request =>
    have this := known request rfl
    exact (copy_in_root_ends attempt args.expected (request_free this).1 g (sees request this)).mono
      (fun answer after ends => .inr ⟨request, this, ends⟩) (fun after ends => .inr ⟨request, this, ends⟩)

theorem answers_stops {places : CopyPlaces} {operationId expectedHash : String} {pid : Nat} {undo : Bool} {blind : Prop}
    {expected : Expected} {answer : CopyResult}
    (answers : RunAnswers places operationId pid undo expectedHash blind expected f answer g) :
    RunStops places operationId pid undo expectedHash blind f g := by
  obtain ⟨mid, before, ⟨same, _⟩ | ⟨entered, stops, _⟩⟩ := answers
  · exact ⟨mid, before, .inl same⟩
  · exact ⟨mid, before, .inr ⟨entered, stops⟩⟩

theorem command_left (attempt : Attempt) (undo : Bool) (f : Folder) (blind : Prop)
    (sees : ∀ request, requestOf env f args = some request →
      (∃ fault, attempt.fate (.lstat .destination (request.names 0).destination) = .refused fault) → blind) :
    (commandCopy attempt env args undo f).2 = f ∨ ∃ request, requestOf env f args = some request ∧
      RunStops request.places request.operationId attempt.pid undo request.expectedHash blind f
        (commandCopy attempt env args undo f).2 := by
  refine @Ends.left _ _ _ _ (fun g => g = f ∨ ∃ request, requestOf env f args = some request ∧
    RunStops request.places request.operationId attempt.pid undo request.expectedHash blind f g)
    ((command_ends attempt undo f blind sees).mono (fun answer g ends => ?_) (fun g ends => ends))
  exact ends.imp (fun same => same.1) fun ⟨request, known, answers⟩ => ⟨request, known, answers_stops answers⟩

section Invariant

variable {places : CopyPlaces} {operationId expectedHash : String} (inv : CopyInv places operationId expectedHash f g)
include inv

theorem inv_ways : KeepsWays f g := by
  intro path way
  by_cases destination : path = (operationNames places operationId 0).destination
  · subst destination
    cases inv.pair with
    | taken node there still _ => rw [there, still]
    | absent free _ _ =>
      rcases way with directory | ⟨_, _, symlink⟩
      · cases free.symm.trans directory
      · cases free.symm.trans symlink
    | receipted _ _ free =>
      rcases way with directory | ⟨_, _, symlink⟩
      · cases free.symm.trans directory
      · cases free.symm.trans symlink
  · rcases way with directory | ⟨_, _, symlink⟩
    · rw [directory, inv.kept path _ destination directory]
    · rw [symlink, inv.kept path _ destination symlink]

theorem inv_root : g.names places.root = f.names places.root := by
  have notKept : ¬ Kept places places.root := by
    rintro (same | ⟨before, some_, _, _, same⟩)
    · simp at same
    · exact some_ (List.append_cancel_left (same.symm.trans (List.append_nil _).symm))
  by_cases some_ : places.destination = []
  · -- A destination that is the root itself is only ever looked at.
    have same : (operationNames places operationId 0).destination = places.root := by
      simp [operationNames, some_]
    rw [← same]
    cases inv.pair with
    | taken node there still _ => rw [there, still]
    | absent free _ none => rw [free, none]
    | receipted _ _ _ _ _ _ entered => exact absurd some_ entered.way.1
  · have aside : Aside places operationId places.root := root_aside some_
    cases there : f.names places.root with
    | some node => exact inv.kept _ node aside.2.1 there
    | none =>
      rcases inv.made _ aside there with none | ⟨kept, _⟩ | ⟨lock, _⟩
      · exact none
      · exact absurd kept notKept
      · simp [operationNames] at lock

theorem inv_request (known : requestOf env f args = some request)
    (same : request.places = places) : requestOf env g args = some request := by
  subst same
  exact request_kept known (inv_ways inv) (inv_root inv)

end Invariant

def Sighted (request : CopyRequest) (attempt : Attempt) : Prop :=
  ∀ fault, attempt.fate (.lstat .destination (request.names 0).destination) ≠ .refused fault

abbrev RequestInv (request : CopyRequest) (f g : Folder) : Prop :=
  CopyInv request.places request.operationId request.expectedHash f g

theorem command_inv (known : requestOf env f args = some request)
    (fresh : f.names (request.names 0).receipt = none) (inv : RequestInv request f g) {attempt : Attempt}
    (sighted : Sighted request attempt) (undo : Bool) : RequestInv request f (commandCopy attempt env args undo g).2 := by
  have this : requestOf env g args = some request := inv_request inv known rfl
  obtain ⟨target, source⟩ := request_free known
  have sees : ∀ other, requestOf env g args = some other →
      (∃ fault, attempt.fate (.lstat .destination (other.names 0).destination) = .refused fault) → False := by
    rintro other known' ⟨fault, refused⟩
    cases this.symm.trans known'
    exact sighted fault refused
  rcases command_left attempt undo g False sees with same | ⟨other, known', stops⟩
  · rw [same]
    exact inv
  · cases this.symm.trans known'
    obtain ⟨mid, before, after⟩ := stops
    have middle := prelude_inv target inv before
    rcases after with same | ⟨entered, stops⟩
    · rw [same]
      exact middle
    · exact frame_inv middle stops.1 fresh (stops_pair (fun no => no) target source middle entered stops)

def recover (env : Env) (args : CopyArgs) (folder : Folder) (history : List (Attempt × Bool)) : Folder :=
  history.foldl (fun folder run => (commandCopy run.1 env args run.2 folder).2) folder

theorem recover_inv (known : requestOf env f args = some request)
    (fresh : f.names (request.names 0).receipt = none) (history : List (Attempt × Bool))
    (sighted : ∀ run ∈ history, Sighted request run.1) : RequestInv request f (recover env args f history) := by
  have along : ∀ (runs : List (Attempt × Bool)) (g : Folder), (∀ run ∈ runs, Sighted request run.1) →
      Along (fun folder run => (commandCopy run.1 env args run.2 folder).2) (fun _ run => Sighted request run.1) g runs := by
    intro runs
    induction runs with
    | nil => exact fun _ _ => trivial
    | cons run rest ih =>
      exact fun g all => ⟨all run (by simp), ih _ fun other inside => all other (List.mem_cons_of_mem _ inside)⟩
  have preserved : ∀ (g : Folder) (run : Attempt × Bool), RequestInv request f g → Sighted request run.1 →
      RequestInv request f (commandCopy run.1 env args run.2 g).2 :=
    fun g run inv sighted => command_inv known fresh inv sighted run.2
  exact along_invariant preserved (copy_inv_start fresh) history (along history f sighted)

theorem command_completed {attempt : Attempt} {answer : CopyResult}
    (answers : (commandCopy attempt env args false f).1 = some answer) (applied : answer.applied = true) :
    ∃ request, requestOf env f args = some request ∧
      Completed (request.names attempt.pid) request.expectedHash (commandCopy attempt env args false f).2 := by
  have ends := (command_ends attempt false f True (fun _ _ _ => trivial)).answered answers
  rcases ends with ⟨_, failed⟩ | ⟨request, known, mid, _, ⟨_, failed⟩ | ⟨_, _, completed, _⟩⟩
  · rw [failed] at applied
    cases applied
  · rw [failed] at applied
    cases applied
  · exact ⟨request, known, completed applied rfl⟩

-- No run takes a destination away or changes it, but an undo that finds it to be its receipt
-- with the expected bytes.
theorem command_spares (known : requestOf env f args = some request) (attempt : Attempt) (undo : Bool) {node : Node}
    (there : f.names (request.names 0).destination = some node) :
    (commandCopy attempt env args undo f).2.names (request.names 0).destination = some node ∨
      undo = true ∧ ∃ id, node = .regular id ∧ f.names (request.names 0).receipt = some (.regular id) ∧
        hashOf (f.files id) = request.expectedHash := by
  obtain ⟨target, source⟩ := request_free known
  rcases command_left attempt undo f True (fun _ _ _ => trivial) with same | ⟨other, known', mid, before, after⟩
  · rw [same]
    exact .inl there
  · cases known.symm.trans known'
    have still := before.kept _ _ there
    rcases after with same | ⟨_, stops⟩
    · rw [same]
      exact .inl still
    · cases stops.2 with
      | kept _ destination => exact .inl (destination.trans still)
      | staged _ _ _ _ _ destination => exact .inl (destination.trans still)
      | published _ _ _ free => cases still.symm.trans free
      | unpublished id undone receipt hash destination gone left =>
        refine .inr ⟨undone, id, Option.some.inj (still.symm.trans destination), ?_⟩
        cases here : f.names (request.names 0).receipt with
        | some receipt' =>
          have same := before.kept _ _ here
          cases same.symm.trans receipt
          exact ⟨rfl, by rw [← before.files id (f.unused _ _ here), hash]⟩
        | none => cases (prelude_receipt target before here).symm.trans receipt
      | cleaned _ _ _ destination => exact .inl (destination.trans still)

end SamosaChat.Fs
