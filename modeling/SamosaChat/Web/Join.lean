import Mathlib.Data.List.TakeWhile
import SamosaChat.Lib.Find
import SamosaChat.Lib.Reference
import SamosaChat.Lib.Utf8Scan
import SamosaChat.Web.Url

set_option autoImplicit false

namespace SamosaChat.Web

open Utf8 Text Decimal UriReference

structure Seen where
  https : Bool
  literal : Bool
  host : Bytes
  port : Int
  behind : Bytes
deriving DecidableEq

def schemePort (https : Bool) : Int :=
  if https then 443 else 80

def schemeText (https : Bool) : Bytes :=
  utf8 (if https then "https" else "http")

def seenAt (https : Bool) (auth behind : Bytes) : Option Seen :=
  match splitHost auth (schemePort https) with
  | .error _ => none
  | .ok (host, port) =>
    some { https := https, literal := auth.head? == some 0x5b, host := host, port := port, behind := behind }

def seen (url : Bytes) : Option Seen :=
  (splitScheme url).bind fun (https, rest) => seenAt https (authorityOf rest) (rest.drop (authorityOf rest).length)

def resolved (base loc : Bytes) : Bytes :=
  recompose (resolve (parse (skipBlanks base)) (parse loc))

def Yields (joined target : Bytes) : Prop :=
  joined = target ∨ ∃ asked, seen joined = some asked ∧ seen target = some asked

def absolute (loc : Bytes) : Bool :=
  startsWith "http://" loc || startsWith "https://" loc

-- An absolute http(s) URL or a relative reference that has an authority or a path, without dot segments.
def Supported (loc : Bytes) : Prop :=
  (absolute loc = true ∨ (parse loc).scheme = none ∧ ((parse loc).authority.isSome = true ∨ (parse loc).path ≠ [])) ∧
    DotFree (parse loc).path

def literalHost (base : Bytes) : Bool :=
  (splitScheme base).any fun (_, rest) => (authorityOf rest).head? == some 0x5b

def HostKept (base : Bytes) (parsed : ParsedUrl) : Prop :=
  literalHost base = false ∧ (standardPort parsed = true → 0x3a ∉ parsed.host)

def joinedDirectory (parsed : ParsedUrl) : Bytes :=
  if 0x2f ∈ parsed.path then beforeLast 0x2f parsed.path ++ [0x2f] else utf8 "/"

def baseDirectory (base : Bytes) : Bytes :=
  removeDots (merge (parse (skipBlanks base)).path [])

def roomLeft (parsed : ParsedUrl) : Nat :=
  4095 - (origin parsed).length

def DirectoryKept (base loc : Bytes) (parsed : ParsedUrl) : Prop :=
  (joinedDirectory parsed = baseDirectory base ∧ (joinedDirectory parsed ++ loc).length ≤ roomLeft parsed) ∨
    (roomLeft parsed < (joinedDirectory parsed ++ loc).length ∧
      (joinedDirectory parsed ++ loc).take (roomLeft parsed) = baseDirectory base ++ loc)

def Joins (base loc : Bytes) (parsed : ParsedUrl) : Prop :=
  absolute loc = true ∨
    ((parse loc).authority = none ∧ HostKept base parsed ∧ (loc.head? = some 0x2f ∨ DirectoryKept base loc parsed))

section Parts

variable {https : Bool} {name auth rest behind : Bytes}

theorem lower_alpha {c : UInt8} (lower : isLower (toLower c) = true) : isAlpha c = true := by
  rw [toLower] at lower
  split_ifs at lower with upper
  · rw [isAlpha, upper, Bool.true_or]
  · rw [isAlpha, lower, Bool.or_true]

theorem scheme_letters (lower : name.map toLower = schemeText https) : ∀ c ∈ name, isAlpha c = true := by
  have inside : ∀ d ∈ schemeText https, isLower d = true := by cases https <;> decide
  intro c among
  exact lower_alpha (inside _ (lower ▸ List.mem_map_of_mem among))

theorem scheme_length (lower : name.map toLower = schemeText https) : name.length = (schemeText https).length := by
  rw [← lower, List.length_map]

theorem scheme_some (lower : name.map toLower = schemeText https) : ∃ c more, name = c :: more ∧ isAlpha c = true := by
  cases name with
  | nil =>
    have empty : ([] : Bytes) ≠ schemeText https := by cases https <;> decide
    exact absurd lower empty
  | cons c more => exact ⟨c, more, rfl, scheme_letters lower c List.mem_cons_self⟩

theorem alpha_facts (c : UInt8) (alpha : isAlpha c = true) :
    c ≠ 0x3a ∧ isMark c = false ∧ c ≠ 0x20 ∧ c ≠ 0x09 ∧ isAlnum c = true := by
  have other : ∀ d : UInt8, isAlpha d = false → c ≠ d := by
    rintro d no rfl
    rw [alpha] at no
    cases no
  have mark : isMark c = false := by
    simp [isMark, other 0x2f (by decide), other 0x3f (by decide), other 0x23 (by decide)]
  exact ⟨other _ (by decide), mark, other _ (by decide), other _ (by decide), by rw [isAlnum, alpha, Bool.true_or]⟩

theorem split_scheme (lower : name.map toLower = schemeText https) (rest : Bytes) :
    splitScheme (name ++ utf8 "://" ++ rest) = some (https, rest) := by
  obtain ⟨c, more, shape, alpha⟩ := scheme_some lower
  have still : skipBlanks (name ++ utf8 "://" ++ rest) = name ++ utf8 "://" ++ rest := by
    obtain ⟨_, _, space, tab, _⟩ := alpha_facts c alpha
    rw [shape, skipBlanks]
    simp [space, tab]
  have found : Text.find (utf8 "://") (name ++ utf8 "://" ++ rest) = some name.length := by
    refine find_of_first ?_ ?_ ?_
    · rw [List.append_assoc, List.drop_left]
      exact List.prefix_append _ _
    · rw [List.append_assoc, List.length_append]
      exact Nat.le_add_right _ _
    · intro j less here
      obtain ⟨tail, shape⟩ := here
      have first : (name ++ utf8 "://" ++ rest)[j]? = some 0x3a := by
        rw [← List.head?_drop, ← shape]
        rfl
      rw [List.append_assoc, List.getElem?_append_left less, List.getElem?_eq_getElem less] at first
      exact (alpha_facts _ (scheme_letters lower _ (List.getElem_mem less))).1 (Option.some.inj first)
  have marks : (utf8 "://").length = 3 := by decide
  have behind : (name ++ utf8 "://" ++ rest).drop (name.length + 3) = rest := by
    rw [← marks, ← List.length_append, List.drop_left]
  have before : (name ++ utf8 "://" ++ rest).take name.length = name := by
    rw [List.append_assoc, List.take_left]
  rw [splitScheme, still, found]
  dsimp only
  rw [before, behind, lower]
  cases https with
  | false => rfl
  | true =>
    rw [if_neg (by decide)]
    rfl

theorem split_scheme_shape {url : Bytes} (split : splitScheme url = some (https, rest)) :
    ∃ name : Bytes, skipBlanks url = name ++ utf8 "://" ++ rest ∧ name.map toLower = schemeText https := by
  unfold splitScheme at split
  dsimp only at split
  cases found : Text.find (utf8 "://") (skipBlanks url) with
  | none =>
    rw [found] at split
    cases split
  | some sep =>
    rw [found] at split
    obtain ⟨⟨tail, here⟩, inside, _⟩ := find_some found
    have marks : (utf8 "://").length = 3 := by decide
    have shape : skipBlanks url = (skipBlanks url).take sep ++ utf8 "://" ++ (skipBlanks url).drop (sep + 3) := by
      have behind : (skipBlanks url).drop (sep + 3) = tail := by
        rw [← List.drop_drop, ← here, ← marks, List.drop_left]
      rw [behind, List.append_assoc, here, List.take_append_drop]
    dsimp only at split
    split_ifs at split with plain secure
    · cases split
      exact ⟨_, shape, plain⟩
    · cases split
      exact ⟨_, shape, secure⟩

theorem authority_eq (rest : Bytes) : authorityOf rest = rest.takeWhile fun c => !isMark c := by
  rw [authorityOf]
  congr 1
  funext c
  simp only [isMark, ne_eq, decide_not, Bool.not_or]
  rfl

theorem authority_of_append (clean : ∀ c ∈ auth, isMark c = false) (ends : ∀ c ∈ behind.head?, isMark c = true) :
    authorityOf (auth ++ behind) = auth := by
  rw [authority_eq, List.takeWhile_append_of_pos (fun c inside => by simp [clean c inside])]
  cases behind with
  | nil => exact List.append_nil _
  | cons c behind =>
    rw [List.takeWhile_cons_of_neg (by simp [ends c rfl])]
    exact List.append_nil _

theorem authority_clean (rest : Bytes) : ∀ c ∈ authorityOf rest, isMark c = false := by
  intro c inside
  rw [authority_eq] at inside
  simpa using List.mem_takeWhile_imp inside

theorem authority_behind (rest : Bytes) : rest.drop (authorityOf rest).length = rest.dropWhile fun c => !isMark c := by
  have whole := List.takeWhile_append_dropWhile (p := fun c => !isMark c) (l := rest)
  have cut : (authorityOf rest ++ rest.dropWhile fun c => !isMark c).drop (authorityOf rest).length = rest.dropWhile fun c => !isMark c :=
    List.drop_left
  rwa [authority_eq, whole, ← authority_eq] at cut

theorem authority_ends (rest : Bytes) : ∀ c ∈ (rest.drop (authorityOf rest).length).head?, isMark c = true := by
  intro c first
  rw [authority_behind] at first
  have stop := List.head?_dropWhile_not (fun c => !isMark c) rest
  rw [first] at stop
  simpa using stop

theorem seen_built (lower : name.map toLower = schemeText https) (clean : ∀ c ∈ auth, isMark c = false)
    (ends : ∀ c ∈ behind.head?, isMark c = true) : seen (name ++ utf8 "://" ++ (auth ++ behind)) = seenAt https auth behind := by
  rw [seen, split_scheme lower, Option.bind_some]
  dsimp only
  rw [authority_of_append clean ends, List.drop_left]

theorem scheme_of_built (lower : name.map toLower = schemeText https) (rest : Bytes) :
    schemeOf (name ++ utf8 "://" ++ rest) = some name := by
  have marks : utf8 "://" = [0x3a, 0x2f, 0x2f] := by decide
  have taken : (name ++ utf8 "://" ++ rest).takeWhile (fun c => decide (c ≠ 0x3a) && !isMark c) = name := by
    rw [List.append_assoc, List.takeWhile_append_of_pos, marks, List.cons_append, List.takeWhile_cons_of_neg (by decide),
      List.append_nil]
    intro c inside
    obtain ⟨colon, mark, _⟩ := alpha_facts c (scheme_letters lower c inside)
    simp [colon, mark]
  obtain ⟨c, more, shape, alpha⟩ := scheme_some lower
  rw [schemeOf, taken]
  refine if_pos ⟨?_, ?_, ?_⟩
  · rw [List.append_assoc, List.drop_left, marks]
    rfl
  · rw [shape]
    exact alpha
  · rw [List.all_eq_true]
    intro d inside
    simp [(alpha_facts d (scheme_letters lower d inside)).2.2.2.2]

theorem parse_built (lower : name.map toLower = schemeText https) (rest : Bytes) :
    ∃ behind : Reference, parse (name ++ utf8 "://" ++ rest) = { behind with scheme := some name, authority := some (authorityOf rest) } ∧
      behind.path = (rest.drop (authorityOf rest).length).takeWhile fun c => !isAsk c := by
  have marks : utf8 "://" = 0x3a :: utf8 "//" := by decide
  have hier : (name ++ utf8 "://" ++ rest).drop (name.length + 1) = utf8 "//" ++ rest := by
    rw [marks, List.append_assoc, ← List.drop_drop, List.drop_left]
    rfl
  have auth : authorityIn (utf8 "//" ++ rest) = some (authorityOf rest) := by
    rw [authorityIn, if_pos (List.isPrefixOf_iff_prefix.mpr (List.prefix_append _ _)), authority_eq]
    rfl
  have after : (utf8 "//" ++ rest).drop ((authorityOf rest).length + 2) = rest.drop (authorityOf rest).length := by
    rw [Nat.add_comm, ← List.drop_drop]
    rfl
  rw [parse, scheme_of_built lower]
  dsimp only
  rw [hier, auth]
  dsimp only
  rw [after]
  exact ⟨⟨none, none, _, _, _⟩, rfl, rfl⟩

end Parts

section Hosts

variable {auth host : Bytes} {standard port : Int}

theorem split_literal (open_ : auth.head? = some 0x5b) (split : splitHost auth standard = .ok (host, port)) :
    0x5d ∉ host ∧ host.length < hostMax ∧ ∀ c ∈ host, c ∈ auth := by
  rw [splitHost, if_pos open_] at split
  dsimp only at split
  split_ifs at split with missing long
  all_goals
    cases split
    refine ⟨fun inside => ?_, Nat.lt_of_not_le long, fun c inside => ?_⟩
    · have := List.mem_takeWhile_imp (List.mem_of_mem_drop inside)
      simp at this
    · exact (List.takeWhile_prefix _).subset (List.mem_of_mem_drop inside)

theorem split_name (closed : auth.head? ≠ some 0x5b) (split : splitHost auth standard = .ok (host, port)) :
    host.length < hostMax ∧ ∃ behind, auth = host ++ behind := by
  rw [splitHost, if_neg closed] at split
  dsimp only at split
  split_ifs at split with colon long long
  · cases split
    obtain ⟨before, after, shape, _, first, _⟩ := last_found colon
    rw [first] at long ⊢
    exact ⟨Nat.lt_of_not_le long, 0x3a :: after, shape⟩
  · cases split
    exact ⟨Nat.lt_of_not_le long, [], (List.append_nil _).symm⟩

theorem split_host_plain (closed : host.head? ≠ some 0x5b) (short : host.length < hostMax) (colon : 0x3a ∉ host) :
    splitHost host standard = .ok (host, standard) := by
  rw [splitHost, if_neg closed]
  dsimp only
  rw [if_neg colon, if_neg colon, if_neg (Nat.not_le.mpr short)]

theorem port_text (port_ : port = 80 ∨ port = 443) :
    decimalInt port = [0x38, 0x30] ∧ port = 80 ∨ decimalInt port = [0x34, 0x34, 0x33] ∧ port = 443 := by
  rcases port_ with rfl | rfl <;> decide +kernel

theorem atoi_port (port_ : port = 80 ∨ port = 443) : atoi (decimalInt port) = port := by
  rcases port_text port_ with ⟨text, rfl⟩ | ⟨text, rfl⟩ <;> rw [text] <;> decide

theorem split_host_port (some_ : host ≠ []) (closed : host.head? ≠ some 0x5b) (short : host.length < hostMax)
    (port_ : port = 80 ∨ port = 443) : splitHost (host ++ 0x3a :: decimalInt port) standard = .ok (host, port) := by
  have first : (host ++ 0x3a :: decimalInt port).head? = host.head? := List.head?_append_of_ne_nil _ some_
  have digits : (0x3a : UInt8) ∉ decimalInt port := by rcases port_text port_ with ⟨text, _⟩ | ⟨text, _⟩ <;> rw [text] <;> decide
  have inside : (0x3a : UInt8) ∈ host ++ 0x3a :: decimalInt port := List.mem_append_right _ List.mem_cons_self
  rw [splitHost, if_neg (by rw [first]; exact closed)]
  dsimp only
  rw [if_pos inside, if_pos inside, before_last_cut host digits, after_last_cut host digits, if_neg (Nat.not_le.mpr short),
    atoi_port port_]

theorem split_host_colon (closed : host.head? ≠ some 0x5b) (colon : 0x3a ∈ host) : splitHost host standard ≠ .ok (host, port) := by
  intro split
  obtain ⟨before, after, shape, _, first, _⟩ := last_found colon
  rw [splitHost, if_neg closed] at split
  dsimp only at split
  rw [if_pos colon, first] at split
  split_ifs at split
  have same := (Prod.mk.inj (Except.ok.inj split)).1
  have size := congrArg List.length shape
  rw [same, List.length_append, List.length_cons] at size
  omega

end Hosts

def hostText (parsed : ParsedUrl) : Bytes :=
  parsed.host ++ if standardPort parsed then [] else 0x3a :: decimalInt parsed.port

theorem origin_eq (parsed : ParsedUrl) : origin parsed = schemeText parsed.https ++ utf8 "://" ++ hostText parsed := by
  rw [origin, hostText, List.append_assoc, ParsedUrl.scheme, schemeText]

structure Based (base : Bytes) (parsed : ParsedUrl) (name rest : Bytes) : Prop where
  shape : skipBlanks base = name ++ utf8 "://" ++ rest
  lower : name.map toLower = schemeText parsed.https
  split : splitScheme base = some (parsed.https, rest)
  host : splitHost (authorityOf rest) (schemePort parsed.https) = .ok (parsed.host, parsed.port)
  named : parsed.host ≠ []
  port : parsed.port = 80 ∨ parsed.port = 443
  path : parsed.path = if rest.drop (authorityOf rest).length = [] then utf8 "/"
    else (rest.drop (authorityOf rest).length).take (pathMax - 1)

theorem accepted_based {base : Bytes} {parsed : ParsedUrl} (accepted : urlParse base = .ok parsed) :
    ∃ name rest, Based base parsed name rest := by
  obtain ⟨https, rest, _, _, split, _, host, named, port, rfl⟩ := parse_read accepted
  obtain ⟨name, shape, lower⟩ := split_scheme_shape split
  exact ⟨name, rest, shape, lower, split, host, named, port, rfl⟩

section Joined

variable {base loc name rest : Bytes} {parsed : ParsedUrl}

theorem host_facts (based : Based base parsed name rest) : parsed.host.length < hostMax ∧ ∀ c ∈ parsed.host, isMark c = false := by
  by_cases open_ : (authorityOf rest).head? = some 0x5b
  · obtain ⟨_, short, inside⟩ := split_literal open_ based.host
    exact ⟨short, fun c among => authority_clean rest c (inside c among)⟩
  · obtain ⟨short, behind, shape⟩ := split_name open_ based.host
    refine ⟨short, fun c among => authority_clean rest c ?_⟩
    rw [shape]
    exact List.mem_append_left _ among

theorem host_text_clean (based : Based base parsed name rest) : ∀ c ∈ hostText parsed, isMark c = false := by
  have colon : ∀ c ∈ (0x3a :: decimalInt parsed.port : Bytes), isMark c = false := by
    rcases port_text based.port with ⟨text, _⟩ | ⟨text, _⟩ <;> rw [text] <;> decide
  intro c inside
  rcases List.mem_append.mp inside with host | port
  · exact (host_facts based).2 c host
  · split_ifs at port
    · cases port
    · exact colon c port

theorem origin_short (based : Based base parsed name rest) : (origin parsed).length < 300 := by
  have host : parsed.host.length < 256 := (host_facts based).1
  have scheme : (schemeText parsed.https ++ utf8 "://").length ≤ 8 := by cases parsed.https <;> decide
  have port : (if standardPort parsed then [] else 0x3a :: decimalInt parsed.port : Bytes).length ≤ 4 := by
    split_ifs
    · exact Nat.zero_le _
    · rcases port_text based.port with ⟨text, _⟩ | ⟨text, _⟩ <;> rw [text] <;> decide
  rw [origin_eq, hostText, ← List.append_assoc, List.length_append, List.length_append]
  omega

theorem host_kept_iff (based : Based base parsed name rest) (behind : Bytes) :
    seenAt parsed.https (hostText parsed) behind = seenAt parsed.https (authorityOf rest) behind ↔ HostKept base parsed := by
  have short := (host_facts based).1
  have literal : literalHost base = ((authorityOf rest).head? == some 0x5b) := by
    rw [literalHost, based.split]
    rfl
  have first : (hostText parsed).head? = parsed.host.head? := List.head?_append_of_ne_nil _ based.named
  rw [HostKept, literal, seenAt, seenAt, based.host]
  dsimp only
  by_cases open_ : (authorityOf rest).head? = some 0x5b
  · -- No bracket closes the text, so it is no address, or it is not read as one.
    obtain ⟨unclosed, _, _⟩ := split_literal open_ based.host
    refine iff_of_false (fun same => ?_) (fun kept => by simp [open_] at kept)
    by_cases again : parsed.host.head? = some 0x5b
    · have missing : (0x5d : UInt8) ∉ hostText parsed := by
        intro inside
        rcases List.mem_append.mp inside with host | port
        · exact unclosed host
        · have digits : (0x5d : UInt8) ∉ (0x3a :: decimalInt parsed.port : Bytes) := by
            rcases port_text based.port with ⟨text, _⟩ | ⟨text, _⟩ <;> rw [text] <;> decide
          split_ifs at port
          · cases port
          · exact digits port
      rw [splitHost, if_pos (first.trans again), if_pos missing] at same
      cases same
    · split at same
      · cases same
      · have flag := congrArg Seen.literal (Option.some.inj same)
        dsimp only at flag
        rw [first, open_] at flag
        simp [again] at flag
  · have closed : parsed.host.head? ≠ some 0x5b := by
      obtain ⟨_, after, shape⟩ := split_name open_ based.host
      rw [shape, List.head?_append_of_ne_nil _ based.named] at open_
      exact open_
    have flags : ((hostText parsed).head? == some 0x5b) = ((authorityOf rest).head? == some 0x5b) := by
      rw [first, beq_eq_false_iff_ne.mpr closed, beq_eq_false_iff_ne.mpr open_]
    rw [flags, beq_eq_false_iff_ne.mpr open_]
    cases standard : standardPort parsed with
    | false =>
      refine iff_of_true ?_ ⟨rfl, nofun⟩
      rw [hostText, standard, if_neg Bool.false_ne_true, split_host_port based.named closed short based.port]
    | true =>
      have own : parsed.port = schemePort parsed.https := by
        cases secure : parsed.https <;> simpa [standardPort, schemePort, secure] using standard
      rw [hostText, standard, if_pos rfl, List.append_nil]
      constructor
      · intro same
        refine ⟨rfl, fun _ colon => ?_⟩
        cases split : splitHost parsed.host (schemePort parsed.https) with
        | error error =>
          rw [split] at same
          cases same
        | ok pair =>
          rw [split] at same
          have host := congrArg Seen.host (Option.some.inj same)
          have port := congrArg Seen.port (Option.some.inj same)
          exact split_host_colon closed colon (split.trans (congrArg Except.ok (Prod.ext host port)))
      · rintro ⟨_, plain⟩
        rw [split_host_plain closed short (plain rfl), own]

theorem scheme_lower (https : Bool) : (schemeText https).map toLower = schemeText https := by
  cases https <;> decide

theorem joined_eq (accepted : urlParse base = .ok parsed) (based : Based base parsed name rest)
    (relative : absolute loc = false) (short : loc.length < 2048) :
    urlJoin base loc = schemeText parsed.https ++ utf8 "://" ++ (hostText parsed ++
      if loc.head? = some 0x2f then loc else (joinedDirectory parsed ++ loc).take (roomLeft parsed)) := by
  have size := origin_short based
  have whole : (origin parsed).take 599 = origin parsed := List.take_of_length_le (by omega)
  rw [absolute] at relative
  rw [urlJoin, relative, accepted]
  dsimp only
  rw [if_neg Bool.false_ne_true, whole, ← joinedDirectory, ← List.append_assoc, ← origin_eq]
  split_ifs
  · exact List.take_of_length_le (by rw [List.length_append]; omega)
  · rw [List.append_assoc, List.take_append, List.take_of_length_le (by omega)]
    rfl

theorem base_path_absolute (rest : Bytes) :
    ∀ c ∈ ((rest.drop (authorityOf rest).length).takeWhile fun c => !isAsk c).head?, c = 0x2f := by
  intro c first
  rw [List.head?_takeWhile] at first
  obtain ⟨first, path⟩ := Option.filter_eq_some_iff.mp first
  have mark := authority_ends rest c first
  rw [Bool.not_eq_true'] at path
  rw [isMark, Bool.or_assoc, ← isAsk, path, Bool.or_false, beq_iff_eq] at mark
  exact mark

theorem merge_eq {base : Bytes} (slash : ∀ c ∈ base.head?, c = 0x2f) :
    ∃ directory : Bytes, (directory = [] ∨ directory.head? = some 0x2f) ∧ ∀ path, merge base path = directory ++ 0x2f :: path := by
  by_cases empty : base = []
  · exact ⟨[], .inl rfl, fun path => if_pos empty⟩
  · obtain ⟨c, more, shape⟩ := List.exists_cons_of_ne_nil empty
    have first : c = 0x2f := slash c (by rw [shape]; rfl)
    have inside : (0x2f : UInt8) ∈ base := by
      rw [shape, first]
      exact List.mem_cons_self
    obtain ⟨before, after, whole, _, front, _⟩ := last_found inside
    refine ⟨before, ?_, fun path => by rw [merge, if_neg empty, front]⟩
    cases before with
    | nil => exact .inl rfl
    | cons d before =>
      rw [shape, first] at whole
      exact .inr (congrArg some (List.cons.inj whole).1.symm)

theorem relative_parts (noScheme : (parse loc).scheme = none) (noAuthority : (parse loc).authority = none) :
    (parse loc).path ++ (parse loc).query ++ (parse loc).fragment = loc := by
  have whole := recompose_parse loc
  rw [recompose, noScheme, noAuthority] at whole
  exact whole

theorem resolved_relative (based : Based base parsed name rest) (noScheme : (parse loc).scheme = none)
    (noAuthority : (parse loc).authority = none) (some_ : (parse loc).path ≠ []) (free : DotFree (parse loc).path) :
    resolved base loc = name ++ utf8 "://" ++ (authorityOf rest ++
      if loc.head? = some 0x2f then loc else baseDirectory base ++ loc) := by
  obtain ⟨behind, parsed_, path⟩ := parse_built based.lower rest
  have parts := relative_parts noScheme noAuthority
  have first : (parse loc).path.head? = loc.head? := by
    conv_rhs => rw [← parts, List.append_assoc, List.head?_append_of_ne_nil _ some_]
  have directory : baseDirectory base = removeDots (merge behind.path []) := by
    rw [baseDirectory, based.shape, parsed_]
  have marks : utf8 "://" = [0x3a, 0x2f, 0x2f] := by decide
  rw [resolved, based.shape, parsed_, resolve, noScheme, noAuthority, if_neg (by simp), if_neg (by simp), if_neg some_, recompose]
  dsimp only
  rw [first, directory, marks]
  obtain ⟨front, absolute_, merged⟩ := merge_eq (path ▸ base_path_absolute rest)
  split_ifs with slash
  · rw [remove_dots_free free]
    conv_rhs => rw [← parts]
    simp only [List.append_assoc, List.cons_append, List.nil_append]
  · rw [merged, merged, remove_dots_behind absolute_ free]
    conv_rhs => rw [← parts]
    simp only [List.append_assoc, List.cons_append, List.nil_append]

theorem joined_directory_mark (based : Based base parsed name rest) :
    ∃ c more, joinedDirectory parsed = c :: more ∧ isMark c = true := by
  rw [joinedDirectory]
  split_ifs with slash
  · obtain ⟨before, after, shape, _, front, _⟩ := last_found slash
    rw [front]
    cases before with
    | nil => exact ⟨0x2f, [], rfl, rfl⟩
    | cons c before =>
      refine ⟨c, before ++ [0x2f], rfl, ?_⟩
      have first : parsed.path.head? = some c := by rw [shape]; rfl
      rw [based.path] at first
      split_ifs at first
      · cases first
        rfl
      · rw [List.head?_take, if_neg (by decide)] at first
        exact authority_ends rest c first
  · exact ⟨0x2f, [], by decide, rfl⟩

theorem base_directory_absolute (based : Based base parsed name rest) : (baseDirectory base).head? = some 0x2f := by
  obtain ⟨behind, parsed_, path⟩ := parse_built based.lower rest
  obtain ⟨front, absolute_, merged⟩ := merge_eq (path ▸ base_path_absolute rest)
  rw [baseDirectory, based.shape, parsed_]
  dsimp only
  rw [merged]
  apply remove_dots_absolute
  rcases absolute_ with rfl | slash
  · rfl
  · cases front with
    | nil => cases slash
    | cons c front => exact slash

theorem directory_kept_iff : (joinedDirectory parsed ++ loc).take (roomLeft parsed) = baseDirectory base ++ loc ↔
    DirectoryKept base loc parsed := by
  by_cases fits : (joinedDirectory parsed ++ loc).length ≤ roomLeft parsed
  · rw [List.take_of_length_le fits, List.append_cancel_right_eq]
    exact ⟨fun same => .inl ⟨same, fits⟩, fun kept => kept.elim And.left fun cut => absurd cut.1 (Nat.not_lt.mpr fits)⟩
  · exact ⟨fun same => .inr ⟨Nat.lt_of_not_le fits, same⟩, fun kept => kept.elim (fun whole => absurd whole.2 fits) And.right⟩

theorem seen_at_behind {https : Bool} {auth behind : Bytes} {asked : Seen} (read : seenAt https auth behind = some asked) :
    asked.behind = behind := by
  unfold seenAt at read
  split at read
  · cases read
  · cases read
    rfl

theorem absolute_shape (far : absolute loc = true) :
    ∃ https name rest, loc = name ++ utf8 "://" ++ rest ∧ name.map toLower = schemeText https := by
  have cut (https : Bool) (begins : startsWith ((if https then "https" else "http") ++ "://") loc = true) :
      ∃ https name rest, loc = name ++ utf8 "://" ++ rest ∧ name.map toLower = schemeText https := by
    have lower : (utf8 ((if https then "https" else "http") ++ "://")).map toLower = schemeText https ++ utf8 "://" := by
      cases https <;> decide
    rw [startsWith, lower, List.isPrefixOf_iff_prefix] at begins
    obtain ⟨tail, shape⟩ := begins
    obtain ⟨front, rest, whole, first, last⟩ := List.map_eq_append_iff.mp shape.symm
    obtain ⟨name, marks, front_, scheme, colon⟩ := List.map_eq_append_iff.mp first
    have plain : ∀ c : UInt8, toLower c ∈ utf8 "://" → toLower c = c := every_byte (by decide +kernel)
    have same : marks = utf8 "://" := by
      rw [← colon]
      conv_lhs => rw [← List.map_id marks]
      refine List.map_congr_left fun c inside => ?_
      exact (plain c (colon ▸ List.mem_map_of_mem inside)).symm
    exact ⟨https, name, rest, by rw [whole, front_, same], scheme⟩
  rw [absolute, Bool.or_eq_true] at far
  rcases far with plain | secure
  · exact cut false plain
  · exact cut true secure

theorem other_host_lost (accepted : urlParse base = .ok parsed) (based : Based base parsed name rest)
    (relative : absolute loc = false) (short : loc.length < 2048) (noScheme : (parse loc).scheme = none)
    {auth : Bytes} (names : (parse loc).authority = some auth) (free : DotFree (parse loc).path) :
    ¬Yields (urlJoin base loc) (resolved base loc) := by
  have inside : authorityIn loc = some auth := by
    rw [parse] at names noScheme
    dsimp only at names noScheme
    rw [noScheme] at names
    exact names
  have shape := authority_shape inside
  have marks : utf8 "://" = [0x3a, 0x2f, 0x2f] := by decide
  have slash : loc.head? = some 0x2f := by rw [← shape]; rfl
  have target : resolved base loc = name ++ utf8 "://" ++ loc.drop 2 := by
    obtain ⟨behind, parsed_, _⟩ := parse_built based.lower rest
    have whole := recompose_parse loc
    rw [recompose, noScheme, names, List.nil_append] at whole
    have tail : auth ++ (parse loc).path ++ (parse loc).query ++ (parse loc).fragment = loc.drop 2 :=
      congrArg (List.drop 2) whole
    rw [resolved, based.shape, parsed_, resolve, noScheme, names, if_neg (by simp), if_pos Option.isSome_some, recompose,
      remove_dots_free free, ← tail, marks]
    simp only [List.append_assoc, List.cons_append, List.nil_append]
  have joined := joined_eq accepted based relative short
  rw [if_pos slash] at joined
  rw [joined, target]
  have sizes := scheme_length based.lower
  have long : 2 ≤ loc.length := by
    rw [← shape, List.cons_append, List.cons_append, List.length_cons, List.length_cons]
    omega
  rintro (same | ⟨asked, first, second⟩)
  · have lengths := congrArg List.length same
    simp only [List.length_append, List.length_drop] at lengths
    omega
  · rw [seen_built (scheme_lower _) (host_text_clean based) (by rw [slash]; intro c here; cases here; rfl)] at first
    rw [seen, split_scheme based.lower, Option.bind_some] at second
    have behind := (seen_at_behind first).symm.trans (seen_at_behind second)
    have lengths := congrArg List.length behind
    rw [List.length_drop, List.length_drop] at lengths
    omega

theorem relative_yields_iff (accepted : urlParse base = .ok parsed) (based : Based base parsed name rest)
    (relative : absolute loc = false) (short : loc.length < 2048) (noScheme : (parse loc).scheme = none)
    (noAuthority : (parse loc).authority = none) (some_ : (parse loc).path ≠ []) (free : DotFree (parse loc).path) :
    Yields (urlJoin base loc) (resolved base loc) ↔
      HostKept base parsed ∧ (loc.head? = some 0x2f ∨ DirectoryKept base loc parsed) := by
  have size := origin_short based
  generalize joinedTail : (if loc.head? = some 0x2f then loc else (joinedDirectory parsed ++ loc).take (roomLeft parsed)) = tail
  generalize targetTail : (if loc.head? = some 0x2f then loc else baseDirectory base ++ loc) = tail'
  have tails : tail = tail' ↔ loc.head? = some 0x2f ∨ DirectoryKept base loc parsed := by
    rw [← joinedTail, ← targetTail]
    split_ifs with slash
    · exact iff_of_true rfl (.inl slash)
    · rw [directory_kept_iff]
      exact ⟨.inr, fun kept => kept.resolve_left slash⟩
  have ends : ∀ c ∈ tail.head?, isMark c = true := by
    rw [← joinedTail]
    split_ifs with slash
    · rw [slash]
      intro c here
      cases here
      rfl
    · obtain ⟨c, more, shape, mark⟩ := joined_directory_mark based
      rw [List.head?_take, roomLeft, if_neg (by omega), shape]
      intro d here
      cases here
      exact mark
  have ends' : ∀ c ∈ tail'.head?, isMark c = true := by
    rw [← targetTail]
    split_ifs with slash
    · rw [slash]
      intro c here
      cases here
      rfl
    · have first := base_directory_absolute based
      rw [List.head?_append, first]
      intro c here
      cases here
      rfl
  have joined := joined_eq accepted based relative short
  have target := resolved_relative based noScheme noAuthority some_ free
  rw [joinedTail] at joined
  rw [targetTail] at target
  have left := seen_built (scheme_lower parsed.https) (host_text_clean based) ends
  have right := seen_built based.lower (authority_clean rest) ends'
  rw [← joined] at left
  rw [← target] at right
  have read : ∃ asked, seenAt parsed.https (authorityOf rest) tail' = some asked := by
    rw [seenAt, based.host]
    exact ⟨_, rfl⟩
  rw [← tails]
  constructor
  · intro yields
    have same : seen (urlJoin base loc) = seen (resolved base loc) := by
      rcases yields with text | ⟨asked, first, second⟩
      · rw [text]
      · rw [first, second]
    rw [left, right] at same
    obtain ⟨asked, known⟩ := read
    have behind := (seen_at_behind (same.trans known)).symm.trans (seen_at_behind known)
    rw [behind] at same
    exact ⟨(host_kept_iff based tail').mp same, behind⟩
  · rintro ⟨host, rfl⟩
    obtain ⟨asked, known⟩ := read
    exact .inr ⟨asked, left.trans (((host_kept_iff based tail).mpr host).trans known), right.trans known⟩

end Joined

-- When the URL that the next hop asks for is the one that the standard gives.
theorem redirect_resolved {base loc : Bytes} {parsed : ParsedUrl} (accepted : urlParse base = .ok parsed)
    (short : loc.length < 2048) (supported : Supported loc) :
    Yields (urlJoin base loc) (resolved base loc) ↔ Joins base loc parsed := by
  obtain ⟨name, rest, based⟩ := accepted_based accepted
  obtain ⟨form, free⟩ := supported
  cases far : absolute loc with
  | true =>
    refine iff_of_true (.inl ?_) (.inl far)
    obtain ⟨https, scheme, tail, shape, lower⟩ := absolute_shape far
    have named : (parse loc).scheme.isSome = true := by
      obtain ⟨behind, parsed_, _⟩ := parse_built lower tail
      rw [shape, parsed_]
      rfl
    rw [resolved, resolve, if_pos named, remove_dots_free free, recompose_parse, urlJoin, ← absolute, far]
    rfl
  | false =>
    obtain ⟨noScheme, parts⟩ := form.resolve_left (by simp [far])
    rw [Joins, far]
    cases names : (parse loc).authority with
    | some auth =>
      refine iff_of_false (other_host_lost accepted based far short noScheme names free) ?_
      rintro (never | ⟨never, _⟩)
      · cases never
      · cases never
    | none =>
      have some_ : (parse loc).path ≠ [] := parts.resolve_left (by simp [names])
      rw [relative_yields_iff accepted based far short noScheme names some_ free]
      simp

def aPage : ParsedUrl where
  https := true
  host := utf8 "a.example"
  port := 443
  path := utf8 "/x/y?q=1"

theorem redirect_resolved_sibling :
    Yields (urlJoin (utf8 "https://a.example/x/y?q=1") (utf8 "z#top")) (resolved (utf8 "https://a.example/x/y?q=1") (utf8 "z#top")) ↔
      Joins (utf8 "https://a.example/x/y?q=1") (utf8 "z#top") aPage :=
  redirect_resolved (by decide +kernel) (by decide +kernel) ⟨.inr (by decide +kernel), by decide +kernel⟩

-- A target on another host is asked of the host that redirects.
theorem other_host_asked : ¬∀ base loc parsed, urlParse base = .ok parsed → loc.length < 2048 → Supported loc →
    Yields (urlJoin base loc) (resolved base loc) := by
  intro claimed
  have accepted : urlParse (utf8 "https://a.example/x/y?q=1") = .ok aPage := by decide +kernel
  have texts : urlJoin (utf8 "https://a.example/x/y?q=1") (utf8 "//b.example/z") ≠
      resolved (utf8 "https://a.example/x/y?q=1") (utf8 "//b.example/z") := by decide +kernel
  have hosts : (seen (urlJoin (utf8 "https://a.example/x/y?q=1") (utf8 "//b.example/z"))).map Seen.host = some (utf8 "a.example") ∧
      (seen (resolved (utf8 "https://a.example/x/y?q=1") (utf8 "//b.example/z"))).map Seen.host = some (utf8 "b.example") := by
    decide +kernel
  rcases claimed _ (utf8 "//b.example/z") _ accepted (by decide +kernel) ⟨.inr (by decide +kernel), by decide +kernel⟩ with
    same | ⟨asked, first, second⟩
  · exact texts same
  · rw [first, second] at hosts
    exact absurd (hosts.1.symm.trans hosts.2) (by decide +kernel)

end SamosaChat.Web
