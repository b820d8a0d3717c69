import SamosaChat.Multimodal.Session
import SamosaChat.Lib.Runs

set_option autoImplicit false

namespace SamosaChat.Multimodal

open Utf8 Text Runs

-- A call of samosa_mm_session_request. Its message would be the helper's `number`-th.
structure Call where
  json : Bytes
  number : Nat
  result : Except String Bytes
deriving DecidableEq

inductive Phase
  | starting
  | idle
  | receiving (json : Bytes) (number : Nat) (greeting : Bool)
  | closed

structure World where
  phase : Phase
  stdin : Bytes
  stdout : Bytes
  -- What the helper has read, and what it made of it.
  exchanges : List (Bytes × Bytes)
  failed : Bool
  calls : List Call

-- A send or a receive stands where it ends; the helper may answer at any time in between.
inductive Event
  | start (room : Nat)
  | request (json : Bytes) (room : Nat)
  | answer (reply : Bytes)
  | receive (window : Nat) (allocated : Bool)
  | close

def return_ (world : World) (json : Bytes) (number : Nat) (result : Except String Bytes) : World :=
  { world with calls := world.calls ++ [⟨json, number, result⟩] }

def step (session : Session) (world : World) : Event → World
  -- samosa_mm_session_start
  | .start room =>
    match world.phase with
    | .starting =>
      let greeting := hello session.protocol
      let (done, written) := mmSend session greeting room
      { world with
        stdin := world.stdin ++ written
        phase := if done then .receiving greeting world.exchanges.length true else .closed }
    | _ => world
  -- samosa_mm_session_request
  | .request json room =>
    let number := world.exchanges.length
    match world.phase with
    | .idle =>
      if json = [] then return_ world json number (.error "multimodal_not_ready")
      else if session.maxFrameBytes < json.length then
        return_ world json number (.error "multimodal_request_too_large")
      else
        let (done, written) := mmSend session json room
        if done then { world with stdin := world.stdin ++ written, phase := .receiving json number false }
        else
          return_ { world with stdin := world.stdin ++ written, failed := true } json number
            (.error "multimodal_pipe_error")
    | .closed => return_ world json number (.error "multimodal_not_ready")
    | _ => world
  | .answer reply =>
    match helperReceive session.protocol world.stdin with
    | none => world
    | some (heard, rest) =>
      if heard = [] then { world with stdin := rest }
      else
        { world with
          stdin := rest
          stdout := world.stdout ++ helperSend session.protocol reply
          exchanges := world.exchanges ++ [(heard, reply)] }
  | .receive window allocated =>
    match world.phase with
    | .receiving json number greeting =>
      let (reply, rest) := mmReceive session world.stdout window allocated
      let world := { world with stdout := rest }
      if greeting then
        match reply with
        | some reply => { world with phase := if mmReplyOk reply then .idle else .closed }
        | none => { world with phase := .closed }
      else
        match reply with
        | some reply => return_ { world with phase := .idle } json number (.ok reply)
        | none =>
          return_ { world with phase := .idle, failed := true } json number
            (.error "multimodal_timeout_or_protocol_error")
    | _ => world
  | .close => { world with phase := .closed }

def newWorld : World where
  phase := .starting
  stdin := []
  stdout := []
  exchanges := []
  failed := false
  calls := []

def Call.returned (call : Call) (reply : Bytes) : Prop :=
  call.result = .ok reply

structure Kept (session : Session) (world : World) : Prop where
  -- What a call returns is what the helper made of that call's message.
  own : ∀ call ∈ world.calls, ∀ reply, call.returned reply → world.exchanges[call.number]? = some (call.json, reply)
  apart : world.calls.Pairwise fun earlier later =>
    ∀ reply other, earlier.returned reply → later.returned other → earlier.number < later.number
  -- While a reply is awaited, nothing else is in the pipe.
  discarded : ∀ json number greeting, world.phase = .receiving json number greeting →
    world.stdout = (world.exchanges.drop number).flatMap fun exchange => helperSend session.protocol exchange.2

structure Drained (world : World) : Prop where
  read : world.stdin = []
  returned : world.stdout = []

def Good (session : Session) (world : World) : Event → Prop
  -- After a failed call, the next one finds both pipes empty.
  | .request _ _ => world.phase = .idle → world.failed = true → Drained world
  | .answer reply => session.protocol = .jsonLine → newline ∉ reply
  | _ => True

inductive Waiting (protocol : Protocol) (world : World) (json : Bytes) (number : Nat) : Prop
  | sent (unread : world.stdin = message protocol json) (silent : world.stdout = [])
      (next : world.exchanges.length = number)
  | answered (reply : Bytes) (read : world.stdin = []) (one : world.stdout = helperSend protocol reply)
      (last : world.exchanges.length = number + 1) (own : world.exchanges[number]? = some (json, reply))
      (line : protocol = .jsonLine → newline ∉ reply)

structure Receiving (session : Session) (world : World) (json : Bytes) (number : Nat) : Prop where
  ended : Ended session.protocol json
  waiting : Waiting session.protocol world json number

structure Inv (session : Session) (world : World) : Prop where
  own : ∀ call ∈ world.calls, ∀ reply, call.returned reply → world.exchanges[call.number]? = some (call.json, reply)
  apart : world.calls.Pairwise fun earlier later =>
    ∀ reply other, earlier.returned reply → later.returned other → earlier.number < later.number
  starting : world.phase = .starting → Drained world
  idle : world.phase = .idle → world.failed = false → Drained world
  receiving : ∀ json number greeting, world.phase = .receiving json number greeting →
    Receiving session world json number ∧
      ∀ call ∈ world.calls, ∀ reply, call.returned reply → call.number < number

section Steps

variable {session : Session} {world : World}

theorem returned_below (inv : Inv session world) {call : Call} (called : call ∈ world.calls) {reply : Bytes}
    (returned : call.returned reply) : call.number < world.exchanges.length := by
  have own := inv.own call called reply returned
  exact (List.getElem?_eq_some_iff.mp own).1

theorem inv_fail (inv : Inv session world) (json : Bytes) (number : Nat) (code : String)
    (still : ∀ json number greeting, world.phase ≠ .receiving json number greeting) :
    Inv session (return_ world json number (.error code)) where
  own := by
    intro call called reply returned
    rcases List.mem_append.mp called with old | new
    · exact inv.own call old reply returned
    · cases List.mem_singleton.mp new
      cases returned
  apart := by
    apply List.pairwise_append.mpr
    refine ⟨inv.apart, List.pairwise_singleton _ _, ?_⟩
    intro earlier _ later new reply other _ returned
    cases List.mem_singleton.mp new
    cases returned
  starting := fun phase => ⟨(inv.starting phase).read, (inv.starting phase).returned⟩
  idle := fun phase fine => ⟨(inv.idle phase fine).read, (inv.idle phase fine).returned⟩
  receiving := fun json number greeting phase => absurd phase (still json number greeting)

theorem inv_turn (inv : Inv session world) {phase : Phase} {stdin stdout : Bytes} {failed : Bool}
    (starting : phase = .starting → stdin = [] ∧ stdout = []) (idle : phase = .idle → failed = false → stdin = [] ∧ stdout = [])
    (receiving : ∀ json number greeting, phase = .receiving json number greeting →
      Receiving session { world with phase := phase, stdin := stdin, stdout := stdout, failed := failed } json number ∧
        world.exchanges.length ≤ number) :
    Inv session { world with phase := phase, stdin := stdin, stdout := stdout, failed := failed } where
  own := inv.own
  apart := inv.apart
  starting := fun phase_ => ⟨(starting phase_).1, (starting phase_).2⟩
  idle := fun phase_ fine => ⟨(idle phase_ fine).1, (idle phase_ fine).2⟩
  receiving := by
    intro json number greeting phase_
    obtain ⟨received, after⟩ := receiving json number greeting phase_
    refine ⟨received, ?_⟩
    intro call called reply returned
    exact Nat.lt_of_lt_of_le (returned_below inv called returned) after

theorem receiving_sent (drained : Drained world) {json written : Bytes} {room : Nat}
    (sent : mmSend session json room = (true, written)) (phase : Phase) :
    Receiving session { world with phase := phase, stdin := world.stdin ++ written } json world.exchanges.length := by
  obtain ⟨whole, ended⟩ := send_whole sent
  refine ⟨ended, .sent ?_ drained.returned rfl⟩
  change world.stdin ++ written = message session.protocol json
  rw [drained.read, whole, List.nil_append]

theorem inv_start (inv : Inv session world) (room : Nat) : Inv session (step session world (.start room)) := by
  simp only [step]
  cases phase : world.phase with
  | starting =>
    have drained := inv.starting phase
    dsimp only
    cases sent : mmSend session (hello session.protocol) room with
    | mk done written =>
      apply inv_turn inv
      case starting => cases done <;> nofun
      case idle => cases done <;> nofun
      case receiving =>
        intro json number greeting receiving
        cases done with
        | false => cases receiving
        | true =>
          cases receiving
          exact ⟨receiving_sent drained sent _, Nat.le_refl _⟩
  | _ => exact inv

theorem inv_request (inv : Inv session world) {json : Bytes} {room : Nat}
    (good : Good session world (.request json room)) : Inv session (step session world (.request json room)) := by
  simp only [step]
  cases phase : world.phase with
  | idle =>
    have still : ∀ json number greeting, world.phase ≠ .receiving json number greeting := by
      intro _ _ _ receiving
      rw [phase] at receiving
      cases receiving
    have drained : Drained world := by
      cases failed : world.failed with
      | true => exact good phase failed
      | false => exact inv.idle phase failed
    dsimp only
    split_ifs with none_ large done_
    · exact inv_fail inv _ _ _ still
    · exact inv_fail inv _ _ _ still
    · have sent : mmSend session json room = (true, (mmSend session json room).2) := Prod.ext done_ rfl
      apply inv_turn inv
      case starting => nofun
      case idle => nofun
      case receiving =>
        intro json number greeting receiving
        cases receiving
        exact ⟨receiving_sent drained sent _, Nat.le_refl _⟩
    · have failed : Inv session
          { world with stdin := world.stdin ++ (mmSend session json room).2, phase := .idle, failed := true } := by
        apply inv_turn inv
        case starting => nofun
        case idle => nofun
        case receiving => nofun
      rw [← phase] at failed ⊢
      exact inv_fail failed _ _ _ still
  | closed =>
    apply inv_fail inv
    intro _ _ _ receiving
    rw [phase] at receiving
    cases receiving
  | _ => exact inv

theorem inv_answer (inv : Inv session world) {reply : Bytes} (good : Good session world (.answer reply)) :
    Inv session (step session world (.answer reply)) := by
  simp only [step]
  cases received : helperReceive session.protocol world.stdin with
  | none => exact inv
  | some result =>
    obtain ⟨heard, rest⟩ := result
    have unread : world.stdin ≠ [] := by
      intro empty
      rw [empty, helper_waits] at received
      cases received
    have own_ : ∀ {json number}, Receiving session world json number →
        heard = json ∧ rest = [] ∧ heard ≠ [] ∧ world.stdout = [] ∧ world.exchanges.length = number := by
      intro json number receiving
      cases receiving.waiting with
      | sent message silent next =>
        rw [message] at received
        obtain ⟨same, nothing⟩ := helper_hears receiving.ended received
        exact ⟨same, nothing, same ▸ receiving.ended.some_, silent, next⟩
      | answered _ read => exact absurd read unread
    dsimp only
    split_ifs with blank
    · apply inv_turn inv
      case starting => exact fun phase => absurd (inv.starting phase).read unread
      case idle => exact fun phase fine => absurd (inv.idle phase fine).read unread
      case receiving =>
        intro json number greeting phase
        obtain ⟨_, _, some_, _⟩ := own_ (inv.receiving json number greeting phase).1
        exact absurd blank some_
    · constructor
      case own =>
        intro call called other returned
        rw [List.getElem?_append_left (returned_below inv called returned)]
        exact inv.own call called other returned
      case apart => exact inv.apart
      case starting => exact fun phase => absurd (inv.starting phase).read unread
      case idle => exact fun phase fine => absurd (inv.idle phase fine).read unread
      case receiving =>
        intro json number greeting phase
        obtain ⟨receiving, below⟩ := inv.receiving json number greeting phase
        obtain ⟨same, nothing, _, silent, next⟩ := own_ receiving
        refine ⟨⟨receiving.ended, .answered reply nothing ?_ ?_ ?_ good⟩, below⟩
        · change world.stdout ++ helperSend session.protocol reply = _
          rw [silent, List.nil_append]
        · change (world.exchanges ++ [(heard, reply)]).length = _
          rw [List.length_append, next, List.length_singleton]
        · change (world.exchanges ++ [(heard, reply)])[number]? = _
          rw [← next, List.getElem?_concat_length, same]

theorem receive_own {json : Bytes} {number : Nat} (receiving : Receiving session world json number)
    {window : Nat} {allocated : Bool} {received rest : Bytes}
    (got : mmReceive session world.stdout window allocated = (some received, rest)) :
    world.stdin = [] ∧ rest = [] ∧ world.exchanges[number]? = some (json, received) := by
  cases receiving.waiting with
  | sent _ silent =>
    have nothing := receive_nothing session window allocated
    rw [silent] at got
    rw [got] at nothing
    cases nothing
  | answered reply read one last own line =>
    rw [one] at got
    obtain ⟨same, nothing⟩ := receive_reply line got
    rw [same]
    exact ⟨read, nothing, own⟩

theorem inv_receive (inv : Inv session world) (window : Nat) (allocated : Bool) :
    Inv session (step session world (.receive window allocated)) := by
  simp only [step]
  cases phase : world.phase with
  | receiving json number greeting =>
    obtain ⟨receiving, below⟩ := inv.receiving json number greeting phase
    dsimp only
    cases got : mmReceive session world.stdout window allocated with
    | mk received rest =>
      cases received with
      | none =>
        cases greeting with
        | true =>
          apply inv_turn inv
          case starting => nofun
          case idle => nofun
          case receiving => nofun
        | false =>
          have failed : Inv session { world with phase := .idle, stdout := rest, failed := true } := by
            apply inv_turn inv
            case starting => nofun
            case idle => nofun
            case receiving => nofun
          exact inv_fail failed _ _ _ nofun
      | some reply =>
        obtain ⟨read, nothing, own⟩ := receive_own receiving got
        cases greeting with
        | true =>
          apply inv_turn inv
          case starting => split_ifs <;> nofun
          case idle => exact fun _ _ => ⟨read, nothing⟩
          case receiving => split_ifs <;> nofun
        | false =>
          constructor
          case own =>
            intro call called other returned
            rcases List.mem_append.mp called with old | new
            · exact inv.own call old other returned
            · cases List.mem_singleton.mp new
              cases returned
              exact own
          case apart =>
            apply List.pairwise_append.mpr
            refine ⟨inv.apart, List.pairwise_singleton _ _, ?_⟩
            intro earlier old later new other _ returned _
            cases List.mem_singleton.mp new
            exact below earlier old other returned
          case starting => nofun
          case idle => exact fun _ _ => ⟨read, nothing⟩
          case receiving => nofun
  | _ => exact inv

theorem inv_step (inv : Inv session world) (event : Event) (good : Good session world event) :
    Inv session (step session world event) := by
  cases event with
  | start room => exact inv_start inv room
  | request json room => exact inv_request inv good
  | answer reply => exact inv_answer inv good
  | receive window allocated => exact inv_receive inv window allocated
  | close =>
    apply inv_turn inv
    case starting => nofun
    case idle => nofun
    case receiving => nofun

theorem kept_inv (inv : Inv session world) : Kept session world where
  own := inv.own
  apart := inv.apart
  discarded := by
    intro json number greeting phase
    cases (inv.receiving json number greeting phase).1.waiting with
    | sent _ silent next =>
      rw [silent, ← next, List.drop_length]
      rfl
    | answered reply _ one last own =>
      have only : world.exchanges.drop number = [(json, reply)] := by
        obtain ⟨bound, entry⟩ := List.getElem?_eq_some_iff.mp own
        rw [List.drop_eq_getElem_cons bound, entry, List.drop_of_length_le (by omega)]
      rw [only, one, List.flatMap_singleton]

end Steps

theorem inv_new (session : Session) : Inv session newWorld where
  own := nofun
  apart := .nil
  starting := fun _ => ⟨rfl, rfl⟩
  idle := nofun
  receiving := nofun

theorem replies_own (session : Session) (events : List Event) (good : Along (step session) (Good session) newWorld events) :
    Kept session (events.foldl (step session) newWorld) := by
  have preserved : ∀ world event, Inv session world → Good session world event → Inv session (step session world event) :=
    fun _ event inv good => inv_step inv event good
  exact kept_inv (along_invariant preserved (inv_new session) events good)

def molmo2 : Session where
  protocol := .jsonFrameV1
  maxFrameBytes := 1048576

def analyze (media : String) : Bytes :=
  utf8 ("\x7b\"command\":\"analyze\",\"id\":\"gateway\",\"media_path\":\"" ++ media ++ "\"\x7d")

def observed (observation : String) : Bytes :=
  utf8 ("\x7b\"status\":\"ok\",\"id\":\"gateway\",\"observation\":\"" ++ observation ++ "\"\x7d")

def opened (rest : List Event) : List Event :=
  [.start 1000, .answer (utf8 "\x7b\"status\":\"ok\"\x7d"), .receive 1000 true] ++ rest

def cat : List Event :=
  [.request (analyze "/cat.png") 1000, .answer (observed "a cat"), .receive 1000 true]

theorem replies_own_cat : Kept molmo2 ((opened cat).foldl (step molmo2) newWorld) := by
  apply replies_own
  refine ⟨trivial, nofun, trivial, ?_, nofun, trivial, trivial⟩
  intro _ failed
  have fine : ((opened []).foldl (step molmo2) newWorld).failed = false := by decide
  change ((opened []).foldl (step molmo2) newWorld).failed = true at failed
  rw [fine] at failed
  cases failed

def late : List Event :=
  [.request (analyze "/cat.png") 1000, .receive 0 true, .answer (observed "a cat"),
    .request (analyze "/dog.png") 1000, .receive 1000 true, .answer (observed "a dog")]

theorem reply_mistaken : ¬ Kept molmo2 ((opened late).foldl (step molmo2) newWorld) := by
  intro kept
  have run : ((opened late).foldl (step molmo2) newWorld).calls =
      [⟨analyze "/cat.png", 1, .error "multimodal_timeout_or_protocol_error"⟩, ⟨analyze "/dog.png", 2, .ok (observed "a cat")⟩] ∧
      ((opened late).foldl (step molmo2) newWorld).exchanges[2]? = some (analyze "/dog.png", observed "a dog") ∧
        observed "a dog" ≠ observed "a cat" := by
    decide +kernel
  obtain ⟨called, answered, apart⟩ := run
  have own := kept.own ⟨analyze "/dog.png", 2, .ok (observed "a cat")⟩ (by rw [called]; simp) (observed "a cat") rfl
  rw [answered] at own
  exact apart (congrArg Prod.snd (Option.some.inj own))

end SamosaChat.Multimodal
