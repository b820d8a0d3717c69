import SamosaChat.Lib.Iterate
import SamosaChat.Fs.Copy

set_option autoImplicit false

namespace SamosaChat.Fs

open Crash

variable {f g h : Folder}

def KeepsWays (f g : Folder) : Prop :=
  ∀ path, (f.names path = some .directory ∨ ∃ absolute target, f.names path = some (.symlink absolute target)) →
    g.names path = f.names path

variable {directory name : Path}

theorem walk_with_kept (kept : KeepsWays f g) {follow follow' : Path → Path → Except Errno Path}
    (last : g.names name = f.names name)
    (links : ∀ here rest, follow here rest = .ok name → follow' here rest = .ok name) (parts : Path) :
    ∀ here, walkWith f follow here parts = .ok name → walkWith g follow' here parts = .ok name := by
  induction parts with
  | nil => exact fun _ found => found
  | cons component rest ih =>
    intro here found
    by_cases skip : component = "" ∨ component = "."
    · rw [walk_with_skip skip] at found ⊢
      exact ih here found
    by_cases up : component = ".."
    · subst up
      rw [walk_with_up] at found ⊢
      exact ih _ found
    rw [walk_with_name skip up] at found ⊢
    -- A file can only stand at the end of the path.
    have file : ∀ node, f.names (here ++ [component]) = some node →
        (if rest = [] then .ok (here ++ [component]) else .error .other : Except Errno Path) = .ok name →
        g.names (here ++ [component]) = some node := by
      intro node at_ result
      obtain ⟨done, result⟩ := within_guard result nofun
      cases result
      rw [last, at_]
    cases node : f.names (here ++ [component]) with
    | none =>
      rw [node] at found
      cases found
    | some node' =>
      rw [node] at found
      cases node' with
      | directory =>
        rw [kept _ (.inl node), node]
        exact ih _ found
      | symlink absolute target =>
        rw [kept _ (.inr ⟨absolute, target, node⟩), node]
        exact links _ _ found
      | regular id =>
        rw [file _ node found]
        exact found
      | special =>
        rw [file _ node found]
        exact found

theorem walk_kept (kept : KeepsWays f g) (last : g.names name = f.names name) (n : Nat) :
    ∀ here parts, walk f n here parts = .ok name → walk g n here parts = .ok name := by
  induction n with
  | zero => exact fun here parts => walk_with_kept kept last (fun _ _ failed => by cases failed) parts here
  | succ n ih => exact fun here parts => walk_with_kept kept last ih parts here

variable {path : Path}

theorem resolve_kept (kept : KeepsWays f g) (last : g.names name = f.names name)
    (found : resolve f path = .ok name) : resolve g path = .ok name :=
  walk_kept kept last symloopMax [] path found

def Plain (path : Path) : Prop :=
  ∀ component ∈ path, badComponent component = false

theorem plain_drop_last (plain : Plain path) : Plain path.dropLast :=
  fun component inside => plain component (List.dropLast_subset _ inside)

theorem plain_concat {component : String} (plain : Plain path)
    (skip : ¬ (component = "" ∨ component = ".")) (up : component ≠ "..") : Plain (path ++ [component]) := by
  intro c inside
  rcases List.mem_append.mp inside with old | new
  · exact plain c old
  · rw [List.mem_singleton.mp new]
    simp only [not_or] at skip
    simp [badComponent, skip.1, skip.2, up]

theorem walk_with_plain {follow : Path → Path → Except Errno Path}
    (links : ∀ here rest, Plain here → follow here rest = .ok name → Plain name) (parts : Path) :
    ∀ here, Plain here → walkWith f follow here parts = .ok name → Plain name := by
  induction parts with
  | nil =>
    intro here plain found
    cases found
    exact plain
  | cons component rest ih =>
    intro here plain found
    by_cases skip : component = "" ∨ component = "."
    · rw [walk_with_skip skip] at found
      exact ih here plain found
    by_cases up : component = ".."
    · subst up
      rw [walk_with_up] at found
      exact ih _ (plain_drop_last plain) found
    rw [walk_with_name skip up] at found
    have further := plain_concat plain skip up
    have file : (if rest = [] then .ok (here ++ [component]) else .error .other : Except Errno Path) = .ok name →
        Plain name := by
      intro result
      obtain ⟨done, result⟩ := within_guard result nofun
      cases result
      exact further
    cases node : f.names (here ++ [component]) with
    | none =>
      rw [node] at found
      cases found
    | some node' =>
      rw [node] at found
      cases node' with
      | directory => exact ih _ further found
      | symlink absolute target =>
        refine links _ _ ?_ found
        cases absolute with
        | true => exact fun c inside => absurd inside (by simp)
        | false => exact plain
      | regular id => exact file found
      | special => exact file found

theorem walk_plain (n : Nat) : ∀ here parts, Plain here → walk f n here parts = .ok name → Plain name := by
  induction n with
  | zero => exact fun here parts plain => walk_with_plain (fun _ _ _ failed => by cases failed) parts here plain
  | succ n ih => exact fun here parts plain => walk_with_plain ih parts here plain

theorem resolve_plain (found : resolve f path = .ok name) : Plain name :=
  walk_plain symloopMax [] path (fun _ inside => absurd inside (by simp)) found

structure Grown (made : Path → Prop) (f g : Folder) : Prop where
  names : ∀ path, g.names path = f.names path ∨ made path ∧ f.names path = none ∧ g.names path = some .directory
  files : g.files = f.files
  next : g.next = f.next
  dev : g.dev = f.dev

variable {made : Path → Prop}

theorem Grown.refl : Grown made f f :=
  ⟨fun _ => .inl rfl, rfl, rfl, rfl⟩

theorem Grown.trans (first : Grown made f g) (second : Grown made g h) : Grown made f h := by
  refine ⟨fun path => ?_, second.files.trans first.files, second.next.trans first.next, second.dev.trans first.dev⟩
  rcases second.names path with same | ⟨inside, absent, here⟩
  · rw [same]
    exact first.names path
  · rcases first.names path with same | ⟨_, _, there⟩
    · exact .inr ⟨inside, same ▸ absent, here⟩
    · rw [absent] at there
      cases there

theorem Grown.mono {made' : Path → Prop} (grown : Grown made f g) (wider : ∀ path, made path → made' path) : Grown made' f g :=
  ⟨fun path => (grown.names path).imp id fun ⟨inside, rest⟩ => ⟨wider path inside, rest⟩, grown.files, grown.next, grown.dev⟩

theorem Grown.kept (grown : Grown made f g) {node : Node} (here : f.names path = some node) : g.names path = some node := by
  rcases grown.names path with same | ⟨_, absent, _⟩
  · rw [same, here]
  · rw [here] at absent
    cases absent

theorem Grown.outside (grown : Grown made f g) (other : ¬ made path) : g.names path = f.names path :=
  (grown.names path).resolve_right fun ⟨inside, _⟩ => other inside

theorem grown_mkdir (inside : made path) : Grown made f (Folder.mkdir path f).2 := by
  unfold Folder.mkdir
  split
  · rename_i absent
    refine ⟨fun p => ?_, rfl, rfl, rfl⟩
    by_cases same : p = path
    · subst same
      exact .inr ⟨inside, absent, by simp [Folder.bind]⟩
    · exact .inl (by simp [Folder.bind, Function.update_of_ne same])
  · exact Grown.refl

def OnTheWay (directory relative path : Path) : Prop :=
  ∃ before, before ≠ [] ∧ before <+: relative ∧ before ≠ relative ∧ path = directory ++ before

def Open (f : Folder) (directory relative : Path) : Prop :=
  relative ≠ [] ∧ (∀ component ∈ relative, badComponent component = false) ∧
    ∀ path, OnTheWay directory relative path → f.names path = some .directory

theorem on_the_way_cons {rest : Path} {cursor : String} (more : rest ≠ []) : OnTheWay directory (cursor :: rest) path ↔
      path = directory ++ [cursor] ∨ OnTheWay (directory ++ [cursor]) rest path := by
  constructor
  · rintro ⟨before, some_, start, less, rfl⟩
    cases before with
    | nil => exact absurd rfl some_
    | cons first before =>
      obtain ⟨rfl, after⟩ := List.cons_prefix_cons.mp start
      cases before with
      | nil => exact .inl rfl
      | cons second before =>
        exact .inr ⟨second :: before, by simp, after, fun same => less (by rw [same]), by simp⟩
  · rintro (rfl | ⟨before, some_, start, less, rfl⟩)
    · refine ⟨[cursor], by simp, ⟨rest, rfl⟩, ?_, rfl⟩
      intro same
      exact more (List.cons.inj same).2.symm
    · refine ⟨cursor :: before, by simp, List.cons_prefix_cons.mpr ⟨rfl, start⟩, ?_, by simp⟩
      intro same
      exact less (List.cons.inj same).2

theorem on_the_way_leaf {leaf : String} : ¬ OnTheWay directory [leaf] path := by
  rintro ⟨before, some_, start, less, -⟩
  cases before with
  | nil => exact some_ rfl
  | cons first before =>
    obtain ⟨rfl, after⟩ := List.cons_prefix_cons.mp start
    have nothing := List.prefix_nil.mp after
    exact less (by rw [nothing])

theorem open_cons {rest : Path} {cursor : String} (more : rest ≠ []) : Open f directory (cursor :: rest) ↔
      badComponent cursor = false ∧ f.names (directory ++ [cursor]) = some .directory ∧
        Open f (directory ++ [cursor]) rest := by
  unfold Open
  constructor
  · rintro ⟨_, good, way⟩
    refine ⟨good cursor (by simp), way _ ((on_the_way_cons more).mpr (.inl rfl)), more,
      fun c inside => good c (List.mem_cons_of_mem _ inside),
      fun path on => way path ((on_the_way_cons more).mpr (.inr on))⟩
  · rintro ⟨good, first, _, others, way⟩
    refine ⟨by simp, fun c inside => ?_, fun path on => ?_⟩
    · rcases List.mem_cons.mp inside with rfl | later
      · exact good
      · exact others c later
    · rcases (on_the_way_cons more).mp on with rfl | later
      · exact first
      · exact way path later

theorem enter_ends (attempt : Attempt) (use : Use) (create : Bool) (name : Path) (f : Folder) :
    Ends (enter attempt use create name) (fun answer g => Grown (fun path => create = true ∧ path = name) f g ∧
        (answer = true → name = [] ∨ g.names name = some .directory))
      (Grown (fun path => create = true ∧ path = name) f) f := by
  -- Whatever was made before, opening the name only looks.
  have opened : ∀ mid, Grown (fun path => create = true ∧ path = name) f mid →
      Ends (enter attempt use false name)
        (fun answer g => Grown (fun path => create = true ∧ path = name) f g ∧
          (answer = true → name = [] ∨ g.names name = some .directory))
        (Grown (fun path => create = true ∧ path = name) f) mid := by
    intro mid grown
    refine ends_step grown (fun errno _ _ => ⟨grown, by simp⟩) fun _ => ?_
    unfold Folder.openDirectory
    by_cases inside : mid.isDirectory name = true
    · rw [if_pos inside]
      exact ⟨grown, fun _ => by simpa [Folder.isDirectory] using inside⟩
    · rw [if_neg inside]
      exact ⟨grown, by simp⟩
  unfold enter
  cases create with
  | false =>
    exact opened f Grown.refl
  | true =>
    rw [if_pos rfl]
    refine ends_step Grown.refl (fun errno _ other => ?_) fun _ => ?_
    · beta_reduce
      rw [if_neg (by simp [other])]
      exact ⟨Grown.refl, by simp⟩
    · have made : (Folder.mkdir name f).1 = .ok () ∨ (Folder.mkdir name f).1 = .error .eexist := by
        unfold Folder.mkdir
        cases f.names name with
        | none => exact .inl rfl
        | some node => exact .inr rfl
      beta_reduce
      rw [if_pos made]
      exact opened _ (grown_mkdir ⟨rfl, rfl⟩)

theorem descend_ends (attempt : Attempt) (use : Use) (create : Bool) (relative : Path) : ∀ (directory : Path) (f : Folder),
      Ends (descend attempt use create directory relative)
        (fun answer g => Grown (fun path => create = true ∧ OnTheWay directory relative path) f g ∧
          ∀ parent leaf, answer = some (parent, leaf) → parent ++ [leaf] = directory ++ relative ∧ Open g directory relative)
        (Grown (fun path => create = true ∧ OnTheWay directory relative path) f) f := by
  induction relative with
  | nil => exact fun directory f => ⟨Grown.refl, fun _ _ none => by cases none⟩
  | cons cursor rest ih =>
    intro directory f
    rw [descend]
    by_cases bad : badComponent cursor = true
    · rw [if_pos bad]
      exact ⟨Grown.refl, fun _ _ none => by cases none⟩
    rw [if_neg bad]
    have good : badComponent cursor = false := by simpa using bad
    by_cases last : rest = []
    · rw [if_pos last]
      subst last
      refine ⟨Grown.refl, fun parent leaf answer => ?_⟩
      cases answer
      exact ⟨rfl, by simp, by simpa using good, fun path on => absurd on on_the_way_leaf⟩
    rw [if_neg last]
    have first : ∀ path, create = true ∧ path = directory ++ [cursor] →
        create = true ∧ OnTheWay directory (cursor :: rest) path :=
      fun path inside => ⟨inside.1, (on_the_way_cons last).mpr (.inl inside.2)⟩
    have further : ∀ path, create = true ∧ OnTheWay (directory ++ [cursor]) rest path →
        create = true ∧ OnTheWay directory (cursor :: rest) path :=
      fun path inside => ⟨inside.1, (on_the_way_cons last).mpr (.inr inside.2)⟩
    refine (Ends.mono (enter_ends attempt use create (directory ++ [cursor]) f) (fun entered mid ends => ends)
      (fun mid grown => Grown.mono grown first)).bind fun entered mid ends => ?_
    have grown := ends.1.mono first
    cases entered with
    | false => exact ⟨grown, fun _ _ none => by cases none⟩
    | true =>
      refine (ih (directory ++ [cursor]) mid).mono (fun answer after below => ?_)
        (fun after more => grown.trans (more.mono further))
      refine ⟨grown.trans (below.1.mono further), fun parent leaf found => ?_⟩
      obtain ⟨same, way⟩ := below.2 parent leaf found
      have here : mid.names (directory ++ [cursor]) = some .directory := by simpa using ends.2 rfl
      exact ⟨by simpa using same, (open_cons last).mpr ⟨good, below.1.kept here, way⟩⟩

theorem action_parent_ends (attempt : Attempt) (use : Use) (root relative : Path) (create : Bool) (f : Folder) :
    Ends (actionParent attempt use root relative create)
      (fun answer g => Grown (fun path => create = true ∧ OnTheWay root relative path) f g ∧
        ∀ parent leaf, answer = some (parent, leaf) → parent ++ [leaf] = root ++ relative ∧
          textLength relative ≤ pathMax ∧ Open g root relative)
      (Grown (fun path => create = true ∧ OnTheWay root relative path) f) f := by
  have failed : ∀ parent leaf, (none : Option (Path × String)) = some (parent, leaf) →
      parent ++ [leaf] = root ++ relative ∧ textLength relative ≤ pathMax ∧ Open f root relative :=
    fun _ _ none => by cases none
  unfold actionParent
  by_cases long : textLength relative > pathMax
  · rw [if_pos long]
    exact ⟨Grown.refl, failed⟩
  · rw [if_neg long]
    refine ends_step Grown.refl (fun errno _ _ => ⟨Grown.refl, failed⟩) fun _ => ?_
    refine (descend_ends attempt use create relative root f).mono (fun answer g ends => ⟨ends.1, ?_⟩) fun g grown => grown
    exact fun parent leaf found => ⟨(ends.2 parent leaf found).1, Nat.le_of_not_lt long, (ends.2 parent leaf found).2⟩

end SamosaChat.Fs
