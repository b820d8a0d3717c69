import SamosaChat.Json.Value

set_option autoImplicit false

namespace SamosaChat.App

open Utf8 Text Json

def voiceTraceTokenValid (value : Bytes) (cap : Nat) : Bool :=
  decide (value ≠ []) && decide (value.length < cap) && value.all fun c => isAlnum c || c == 0x5f || c == 0x2d

structure ClientId where
  text : Bytes
  valid : voiceTraceTokenValid text 65 = true
deriving DecidableEq

inductive Action
  | opening
  | heartbeat
  | visibility
  | close
deriving DecidableEq

def actionOf (text : Bytes) : Option Action :=
  if text = utf8 "open" then some .opening
  else if text = utf8 "heartbeat" then some .heartbeat
  else if text = utf8 "visibility" then some .visibility
  else if text = utf8 "close" then some .close
  else none

structure Lifecycle where
  action : Action
  clientId : ClientId
  hidden : Bool
deriving DecidableEq

def hiddenOf : Option Jval → Option Bool
  | none => some false
  | some (.bool boolean) => some boolean
  | some _ => none

-- The event in a request's body. None is answered 400 and touches nothing.
def lifecycleEvent (root : Option Jval) : Option Lifecycle :=
  match root.bind fun root => jsonGet root (utf8 "action"), root.bind fun root => jsonGet root (utf8 "client_id"),
      hiddenOf (root.bind fun root => jsonGet root (utf8 "hidden")) with
  | some (.str action), some (.str client), some hidden =>
    if valid : voiceTraceTokenValid client 65 = true then
      (actionOf action).map fun action => { action := action, clientId := ⟨client, valid⟩, hidden := hidden }
    else none
  | _, _, _ => none

structure AppClient where
  id : Option ClientId
  seenMonoMs : Int
  hidden : Bool
deriving DecidableEq

def appClients : Nat := 16

def appClientStaleMs : Int := 90000

def appCloseGraceMs : Int := 2500

def appStaleCloseGraceMs : Int := 30000

def noClients : List AppClient := List.replicate appClients { id := none, seenMonoMs := 0, hidden := false }

def pruneClient (now : Int) (client : AppClient) : AppClient :=
  if client.id.isSome ∧ ¬ client.hidden ∧ now - client.seenMonoMs > appClientStaleMs then { client with id := none }
  else client

def prune (now : Int) (clients : List AppClient) : List AppClient :=
  clients.map (pruneClient now)

-- app_clients_prune_and_count_locked answers this of the pruned table.
def activeClients (clients : List AppClient) : Nat :=
  clients.countP fun client => client.id.isSome

def seenAt (clients : List AppClient) (i : Nat) : Int :=
  (clients[i]?.map AppClient.seenMonoMs).getD 0

def oldestSlot (clients : List AppClient) : Nat :=
  (List.range clients.length).foldl (fun oldest i => if seenAt clients i < seenAt clients oldest then i else oldest) 0

-- The cell of the id, or else the first empty one, or else the one seen longest ago.
def upsertSlot (clients : List AppClient) (id : ClientId) : Nat :=
  match clients.findIdx? fun client => client.id = some id with
  | some slot => slot
  | none => (clients.findIdx? fun client => client.id = none).getD (oldestSlot clients)

def appClientUpsert (clients : List AppClient) (id : ClientId) (now : Int) (hidden : Bool) : List AppClient :=
  clients.set (upsertSlot clients id) { id := some id, seenMonoMs := now, hidden := hidden }

def appClientRemove (clients : List AppClient) (id : ClientId) : List AppClient :=
  match clients.findIdx? fun client => client.id = some id with
  | some slot => clients.set slot { id := none, seenMonoMs := 0, hidden := false }
  | none => clients

def HasRoom (clients : List AppClient) (id : ClientId) : Prop :=
  ∃ client ∈ clients, client.id = some id ∨ client.id = none

instance (clients : List AppClient) (id : ClientId) : Decidable (HasRoom clients id) :=
  inferInstanceAs (Decidable (∃ client ∈ clients, client.id = some id ∨ client.id = none))

section Table

variable {clients : List AppClient} {client : AppClient} {id : ClientId} {now : Int} {hidden : Bool}

theorem found_slot {fits : AppClient → Bool} {slot : Nat} (found : clients.findIdx? fits = some slot) :
    ∃ inside : slot < clients.length, fits clients[slot] = true := by
  obtain ⟨inside, holds, _⟩ := List.findIdx?_eq_some_iff_getElem.mp found
  exact ⟨inside, holds⟩

theorem upsert_slot_room (room : HasRoom clients id) : ∃ inside : upsertSlot clients id < clients.length,
      clients[upsertSlot clients id].id = some id ∨ clients[upsertSlot clients id].id = none := by
  unfold upsertSlot
  cases own : clients.findIdx? fun client => client.id = some id with
  | some slot =>
    obtain ⟨inside, holds⟩ := found_slot own
    exact ⟨inside, .inl (of_decide_eq_true holds)⟩
  | none =>
    cases free : clients.findIdx? fun client => client.id = none with
    | some slot =>
      obtain ⟨inside, holds⟩ := found_slot free
      exact ⟨inside, .inr (of_decide_eq_true holds)⟩
    | none =>
      obtain ⟨client, inside, same | empty⟩ := room
      · have absent := List.findIdx?_eq_none_iff.mp own client inside
        simp [same] at absent
      · have absent := List.findIdx?_eq_none_iff.mp free client inside
        simp [empty] at absent

theorem mem_set_other {slot : Nat} {cell : AppClient} (member : client ∈ clients)
    (other : ∀ inside : slot < clients.length, clients[slot] ≠ client) : client ∈ clients.set slot cell := by
  obtain ⟨i, inside, rfl⟩ := List.mem_iff_getElem.mp member
  have apart : slot ≠ i := by
    rintro rfl
    exact other inside rfl
  refine List.mem_iff_getElem.mpr ⟨i, by rwa [List.length_set], ?_⟩
  rw [List.getElem_set_ne apart]

theorem upsert_listed (room : HasRoom clients id) :
    { id := some id, seenMonoMs := now, hidden := hidden } ∈ appClientUpsert clients id now hidden := by
  obtain ⟨inside, _⟩ := upsert_slot_room room
  exact List.mem_set inside _

theorem upsert_keeps (room : HasRoom clients id) (member : client ∈ clients) (live : client.id.isSome)
    (other : client.id ≠ some id) : client ∈ appClientUpsert clients id now hidden := by
  obtain ⟨inside, held⟩ := upsert_slot_room room
  refine mem_set_other member fun _ same => ?_
  rcases held with own | free
  · rw [same] at own
    exact other own
  · rw [same] at free
    rw [free] at live
    cases live

theorem remove_keeps (member : client ∈ clients) (other : client.id ≠ some id) : client ∈ appClientRemove clients id := by
  unfold appClientRemove
  cases own : clients.findIdx? fun client => client.id = some id with
  | none => exact member
  | some slot =>
    obtain ⟨inside, holds⟩ := found_slot own
    refine mem_set_other member fun _ same => ?_
    rw [same] at holds
    exact other (of_decide_eq_true holds)

def Stale (now seen : Int) (hidden : Bool) : Prop :=
  hidden = false ∧ now - seen > appClientStaleMs

instance (now seen : Int) (hidden : Bool) : Decidable (Stale now seen hidden) :=
  inferInstanceAs (Decidable (_ ∧ _))

theorem stale_later {later seen : Int} (stale : Stale now seen hidden) (after : now ≤ later) : Stale later seen hidden := by
  obtain ⟨visible, silent⟩ := stale
  exact ⟨visible, by omega⟩

theorem prune_keeps (member : client ∈ clients) (fresh : ¬ Stale now client.seenMonoMs client.hidden) :
    client ∈ prune now clients := by
  have same : pruneClient now client = client := by
    unfold pruneClient
    rw [if_neg]
    rintro ⟨_, visible, silent⟩
    exact fresh ⟨by simpa using visible, silent⟩
  rw [← same]
  exact List.mem_map_of_mem member

theorem no_active (deserted : activeClients clients = 0) (member : client ∈ clients) : client.id = none := by
  have empty := List.countP_eq_zero.mp deserted client member
  simpa using empty

end Table

end SamosaChat.App
