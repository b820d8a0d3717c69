import SamosaChat.Web.Search

set_option autoImplicit false

namespace SamosaChat.Web

open Utf8 Text

structure Pinned (before : List Event) (request : Request) : Prop where
  hop : ∃ parsed, urlParse request.url = .ok parsed ∧ parsed.host = request.host ∧ parsed.port = request.port
  lookup : ∃ earlier addresses,
    before = earlier ++ [.resolved request.host (some addresses)] ∧ PublicChoice addresses request.ip
  port : request.port = 80 ∨ request.port = 443
  uncredentialed : Uncredentialed request.url

def Vetted (events : List Event) : Prop :=
  ∀ before sender request after, events = before ++ .sent sender request :: after → Pinned before request

def sentBy (sender : Sender) : Event → Bool
  | .sent by_ _ => by_ = sender
  | _ => false

inductive Outbound
  | fetch (enforceRobots : Bool) (url : Bytes)
  | search (wc : WebConfig) (session query : Bytes) (used : Int)

def outbound (net : Net) (call : Outbound) (history : List Event) : List Event :=
  match call with
  | .fetch enforceRobots url => (fetchPublic net enforceRobots url history).2
  | .search wc session query used => (webSearchRun net wc session query used history).2

def Outbound.sender : Outbound → Sender
  | .fetch enforceRobots _ => if enforceRobots then .page else .robots
  | .search _ _ _ _ => .search

def Outbound.offline (net : Net) (history : List Event) : Outbound → Bool
  | .fetch _ _ => net.offline history
  | .search wc _ _ _ => wc.offline

def Silent (events : List Event) : Prop :=
  ∀ sender, events.countP (sentBy sender) = 0

def Guarded (net : Net) (call : Outbound) (history : List Event) : Prop :=
  ∃ new, outbound net call history = history ++ new ∧ Vetted new ∧
    new.countP (sentBy call.sender) ≤ publicFetchMaxHops ∧ (call.offline net history = true → Silent new)

structure Sendable (net : Net) (wc : WebConfig) (session query : Bytes) (used : Int) (history : List Event) (built : Built)
    (parsed : ParsedUrl) (ip : Bytes) : Prop where
  builds : webSearchBuild wc session query = .ok built
  paid : webBudgetTake wc used = true
  parses : urlParse built.url = .ok parsed
  resolves : resolvePublicHost (net.getaddrinfo history parsed.host) = .ok ip
  written : ∀ line ∈ lines built.headers, line.length < headerLineMax

section Events

theorem vetted_append {first second : List Event} (vetted : Vetted first) (vetted' : Vetted second) : Vetted (first ++ second) := by
  intro before sender request after split
  rcases List.append_eq_append_iff.mp split with ⟨middle, rfl, rest⟩ | ⟨middle, rfl, rest⟩
  · obtain ⟨hop, ⟨earlier, addresses, rfl, choice⟩, port, uncredentialed⟩ := vetted' middle sender request after rest
    exact ⟨hop, ⟨first ++ earlier, addresses, (List.append_assoc _ _ _).symm, choice⟩, port, uncredentialed⟩
  · cases middle with
    | nil =>
      obtain ⟨_, ⟨earlier, addresses, none_, _⟩, _, _⟩ := vetted' [] sender request after rest.symm
      cases earlier <;> cases none_
    | cons event middle =>
      obtain ⟨rfl, _⟩ := List.cons.inj rest
      exact vetted before sender request middle rfl

theorem vetted_nil : Vetted [] := by
  intro before sender request after split
  cases before <;> cases split

theorem vetted_quiet {event : Event} (quiet : ∀ sender, sentBy sender event = false) : Vetted [event] := by
  intro before sender request after split
  cases before with
  | nil =>
    cases split
    have sent := quiet sender
    simp [sentBy] at sent
  | cons first before =>
    obtain ⟨_, none_⟩ := List.cons.inj split
    cases before <;> cases none_

theorem vetted_sent {host : Bytes} {addresses : List SockAddr} {sender : Sender} {request : Request}
    (pinned : Pinned [.resolved host (some addresses)] request) :
    Vetted [.resolved host (some addresses), .sent sender request] := by
  intro before sender' request' after split
  match before with
  | [] => cases split
  | [_] =>
    cases split
    exact pinned
  | _ :: _ :: before =>
    simp only [List.cons_append, List.cons.injEq] at split
    cases before <;> cases split.2.2

end Events

def Grown (allowance : Sender → Nat) (history after : List Event) : Prop :=
  ∃ new, after = history ++ new ∧ Vetted new ∧ ∀ sender, new.countP (sentBy sender) ≤ allowance sender

section Steps

variable {net : Net} {sender : Sender} {history middle after : List Event} {allowance allowance' : Sender → Nat}

theorem grown_refl (history : List Event) : Grown allowance history history :=
  ⟨[], (List.append_nil _).symm, vetted_nil, fun _ => Nat.zero_le _⟩

theorem grown_trans (first : Grown allowance history middle) (second : Grown allowance' middle after) :
    Grown (fun sender => allowance sender + allowance' sender) history after := by
  obtain ⟨new, rfl, vetted, few⟩ := first
  obtain ⟨new', rfl, vetted', few'⟩ := second
  refine ⟨new ++ new', List.append_assoc _ _ _, vetted_append vetted vetted', fun sender => ?_⟩
  rw [List.countP_append]
  exact Nat.add_le_add (few sender) (few' sender)

theorem grown_weaken (grown : Grown allowance history after) (more : ∀ sender, allowance sender ≤ allowance' sender) :
    Grown allowance' history after := by
  obtain ⟨new, same, vetted, few⟩ := grown
  exact ⟨new, same, vetted, fun sender => (few sender).trans (more sender)⟩

theorem grown_quiet {event : Event} (quiet : ∀ sender, sentBy sender event = false) :
    Grown (fun _ => 0) history (history ++ [event]) :=
  ⟨[event], rfl, vetted_quiet quiet, fun sender => by simp [quiet sender]⟩

def once (sender : Sender) : Sender → Nat :=
  fun other => if other = sender then 1 else 0

theorem grown_request {url : Bytes} {parsed : ParsedUrl} {addresses : List SockAddr} {ip : Bytes}
    (options : Option WebRequestOptions) (accepted : urlParse url = .ok parsed) (choice : PublicChoice addresses ip) :
    Grown (once sender) history (curlRequest net sender ⟨url, parsed.host, parsed.port, ip, options⟩
        (history ++ [.resolved parsed.host (some addresses)])).2 := by
  obtain ⟨port, _, uncredentialed⟩ := url_parsed accepted
  have pinned : Pinned [.resolved parsed.host (some addresses)] ⟨url, parsed.host, parsed.port, ip, options⟩ :=
    ⟨⟨parsed, accepted, rfl, rfl⟩, ⟨[], addresses, rfl, choice⟩, port, uncredentialed⟩
  unfold curlRequest
  split
  · exact grown_weaken (grown_quiet fun _ => rfl) fun _ => Nat.zero_le _
  · refine ⟨[.resolved parsed.host (some addresses), .sent sender ⟨url, parsed.host, parsed.port, ip, options⟩],
      List.append_assoc _ _ _, vetted_sent pinned, fun other => ?_⟩
    by_cases same : other = sender
    · simp [once, sentBy, same]
    · simp [once, sentBy, same, Ne.symm same]

theorem hops_grown {robotsAllowed : Probe} {probes : Sender → Nat}
    (probed : ∀ url history, Grown probes history (robotsAllowed url history).2) (hops : Nat) :
    ∀ current history, Grown (fun other => hops * (probes other + once sender other)) history
      (fetchHops net sender robotsAllowed hops current history).2 := by
  induction hops with
  | zero => exact fun current history => grown_refl history
  | succ hops ih =>
    intro current history
    have first := probed current history
    have enough : ∀ other, probes other ≤ (hops + 1) * (probes other + once sender other) := by
      intro other
      rw [Nat.succ_mul]
      omega
    unfold fetchHops
    cases parse : urlParse current with
    | error error => exact grown_refl history
    | ok parsed =>
      simp only
      generalize robotsAllowed current history = probe at first ⊢
      obtain ⟨allowed, asked⟩ := probe
      simp only at first ⊢
      by_cases refused : allowed = false
      · rw [if_pos refused]
        exact grown_weaken first enough
      rw [if_neg refused]
      cases net.stub with
      | some stub =>
        simp only
        split
        · split
          · exact grown_weaken first enough
          · exact grown_weaken first enough
        · exact grown_weaken first enough
      | none =>
        simp only
        cases resolved : resolvePublicHost (net.getaddrinfo asked parsed.host) with
        | error error =>
          exact grown_weaken (grown_trans first (grown_quiet fun _ => rfl)) fun other => enough other
        | ok ip =>
          obtain ⟨addresses, answer, choice⟩ := resolved_public resolved
          rw [answer]
          have sent := @grown_request net sender asked current parsed addresses ip none parse choice
          have here := grown_trans first sent
          have all : ∀ other, probes other + once sender other ≤ (hops + 1) * (probes other + once sender other) := by
            intro other
            rw [Nat.succ_mul]
            omega
          simp only
          generalize curlRequest net sender _ _ = reply at here ⊢
          obtain ⟨reply, sentOut⟩ := reply
          simp only at here ⊢
          split
          · refine grown_weaken (grown_trans here (ih _ _)) fun other => ?_
            rw [Nat.succ_mul]
            omega
          · split
            · exact grown_weaken here all
            · split
              · exact grown_weaken here all
              · exact grown_weaken here all

theorem fetch_grown {robotsAllowed : Probe} {probes : Sender → Nat}
    (probed : ∀ url history, Grown probes history (robotsAllowed url history).2) (url : Bytes) :
    Grown (fun other => publicFetchMaxHops * (probes other + once sender other)) history
      (fetchPublicWith net sender robotsAllowed url history).2 := by
  have read : Grown (fun _ => 0) history (history ++ [.began sender (net.offline history)]) := grown_quiet fun _ => rfl
  unfold fetchPublicWith
  simp only
  split
  · exact grown_weaken read fun _ => Nat.zero_le _
  · exact grown_weaken (grown_trans read (hops_grown probed _ url _)) fun other => by omega

theorem fetch_offline {robotsAllowed : Probe} {url : Bytes} (offline : net.offline history = true) :
    (fetchPublicWith net sender robotsAllowed url history).2 = history ++ [.began sender true] := by
  unfold fetchPublicWith
  rw [offline]
  rfl

theorem robots_grown (url : Bytes) (history : List Event) :
    Grown (fun other => publicFetchMaxHops * once .robots other) history (robotsAllowed net url history).2 := by
  unfold robotsAllowed
  cases urlParse url with
  | error error => exact grown_refl history
  | ok parsed =>
    simp only
    cases net.stub with
    | some stub =>
      simp only
      split <;> exact grown_refl history
    | none =>
      have probed : ∀ url history, Grown (fun _ => 0) history (everything url history).2 :=
        fun _ history => grown_refl history
      have fetched := @fetch_grown net .robots history everything _ probed
        ((origin parsed ++ utf8 "/robots.txt").take 511)
      simp only [Nat.zero_add] at fetched
      simp only
      generalize fetchPublicWith net .robots everything _ history = reply at fetched ⊢
      obtain ⟨result, asked⟩ := reply
      cases result with
      | error error => exact fetched
      | ok page =>
        simp only at fetched ⊢
        split <;> exact fetched

end Steps

theorem fetch_guarded (net : Net) (enforceRobots : Bool) (url : Bytes) (history : List Event) :
    Guarded net (.fetch enforceRobots url) history := by
  have grown : ∃ allowance, Grown allowance history (fetchPublic net enforceRobots url history).2 ∧
      allowance (Outbound.sender (.fetch enforceRobots url)) ≤ publicFetchMaxHops := by
    cases enforceRobots with
    | true => exact ⟨_, fetch_grown robots_grown url, show 6 * (6 * 0 + 1) ≤ 6 by decide⟩
    | false =>
      have probed : ∀ url history, Grown (fun _ => 0) history (everything url history).2 :=
        fun _ history => grown_refl history
      exact ⟨_, fetch_grown probed url, show 6 * (0 + 1) ≤ 6 by decide⟩
  obtain ⟨allowance, ⟨new, same, vetted, few⟩, small⟩ := grown
  refine ⟨new, same, vetted, (few _).trans small, fun offline => ?_⟩
  have only : ∃ sender, (fetchPublic net enforceRobots url history).2 = history ++ [.began sender true] := by
    cases enforceRobots with
    | true => exact ⟨_, fetch_offline offline⟩
    | false => exact ⟨_, fetch_offline offline⟩
  obtain ⟨sender, began⟩ := only
  rw [same, List.append_cancel_left_eq] at began
  rw [began]
  exact fun _ => rfl

section Search

variable {net : Net} {wc : WebConfig} {session query : Bytes} {used : Int} {history : List Event}

theorem search_cases :
    (∃ new, (webSearchRun net wc session query used history).2 = history ++ new ∧ Vetted new ∧ Silent new) ∨
      ∃ built parsed ip addresses, Sendable net wc session query used history built parsed ip ∧
        ∃ request, (webSearchRun net wc session query used history).2 =
          history ++ [.resolved parsed.host (some addresses), .sent .search request] ∧
          Pinned [.resolved parsed.host (some addresses)] request := by
  unfold webSearchRun
  cases builds : webSearchBuild wc session query with
  | error error => exact .inl ⟨[], (List.append_nil _).symm, vetted_nil, fun _ => rfl⟩
  | ok built =>
    simp only
    by_cases unpaid : webBudgetTake wc used = false
    · rw [if_pos unpaid]
      exact .inl ⟨[], (List.append_nil _).symm, vetted_nil, fun _ => rfl⟩
    rw [if_neg unpaid]
    cases parses : urlParse built.url with
    | error error => exact .inl ⟨[], (List.append_nil _).symm, vetted_nil, fun _ => rfl⟩
    | ok parsed =>
      simp only
      cases resolves : resolvePublicHost (net.getaddrinfo history parsed.host) with
      | error error => exact .inl ⟨_, rfl, vetted_quiet fun _ => rfl, fun _ => rfl⟩
      | ok ip =>
        obtain ⟨addresses, answer, choice⟩ := resolved_public resolves
        simp only [answer]
        unfold curlRequest
        split
        · exact .inl ⟨_, rfl, vetted_quiet fun _ => rfl, fun _ => rfl⟩
        · rename_i short
          refine .inr ⟨built, parsed, ip, addresses, ⟨builds, by simpa using unpaid, parses, ?_, ?_⟩, _,
            List.append_assoc _ _ _, ?_⟩
          · rw [answer] at resolves ⊢
            exact resolves
          · intro line inside
            simp only [Option.map_some, Option.getD_some, List.any_eq_true, decide_eq_true_eq, not_exists, not_and] at short
            exact Nat.lt_of_not_le (short line inside)
          · obtain ⟨port, _, uncredentialed⟩ := url_parsed parses
            exact ⟨⟨parsed, parses, rfl, rfl⟩, ⟨[], addresses, rfl, choice⟩, port, uncredentialed⟩

theorem sendable_sends {built : Built} {parsed : ParsedUrl} {ip : Bytes}
    (sendable : Sendable net wc session query used history built parsed ip) :
    ∃ addresses request, (webSearchRun net wc session query used history).2 =
      history ++ [.resolved parsed.host (some addresses), .sent .search request] := by
  obtain ⟨builds, paid, parses, resolves, written⟩ := sendable
  obtain ⟨addresses, answer, choice⟩ := resolved_public resolves
  refine ⟨addresses, ⟨built.url, parsed.host, parsed.port, ip, some ⟨built.headers, built.body, webSearchResponseLimit⟩⟩, ?_⟩
  have short : ((lines built.headers).any fun line => decide (line.length ≥ headerLineMax)) = false := by
    rw [List.any_eq_false]
    intro line inside
    simpa using written line inside
  unfold webSearchRun
  rw [builds]
  simp only
  rw [if_neg (by simp [paid]), parses]
  simp only
  rw [answer] at resolves
  rw [answer, resolves]
  simp only [curlRequest, Option.map_some, Option.getD_some, short, Bool.false_eq_true, if_false]
  exact List.append_assoc _ _ _

end Search

theorem outbound_guarded (net : Net) (call : Outbound) (history : List Event) :
    Guarded net call history ↔
      ∀ wc session query used built parsed ip, call = .search wc session query used → wc.offline = true →
        ¬Sendable net wc session query used history built parsed ip := by
  cases call with
  | fetch enforceRobots url =>
    exact iff_of_true (fetch_guarded net enforceRobots url history) fun _ _ _ _ _ _ _ other => nomatch other
  | search wc session query used =>
    constructor
    · rintro ⟨new, same, _, _, silent⟩ _ _ _ _ built parsed ip itself offline sendable
      cases itself
      obtain ⟨addresses, request, sent⟩ := sendable_sends sendable
      rw [outbound, sent, List.append_cancel_left_eq] at same
      have none_ := silent offline .search
      rw [← same] at none_
      simp [sentBy] at none_
    · intro refused
      rcases @search_cases net wc session query used history with
        ⟨new, same, vetted, silent⟩ | ⟨built, parsed, ip, addresses, sendable, request, same, pinned⟩
      · exact ⟨new, same, vetted, by rw [silent]; exact Nat.zero_le _, fun _ => silent⟩
      · refine ⟨_, same, vetted_sent pinned, show 1 ≤ 6 by decide, fun offline => ?_⟩
        exact absurd sendable (refused wc session query used built parsed ip rfl offline)

def offlineConfig : WebConfig where
  provider := utf8 "own"
  user := some (.obj [(utf8 "url", .str (utf8 "https://search.example/?q=\x7bquery\x7d"))])
  preset := none
  dailyLimit := none
  offline := true

def openNet : Net where
  offline := fun _ => true
  getaddrinfo := fun _ _ => some [.inet 93 184 216 34]
  transport := fun _ _ => ⟨200, none, none⟩
  stub := none

theorem offline_search_sent : ¬∀ net call history, Guarded net call history := by
  intro claim
  obtain ⟨new, same, _, _, silent⟩ := claim openNet (.search offlineConfig [] (utf8 "tea") 0) []
  have sent : (outbound openNet (.search offlineConfig [] (utf8 "tea") 0) []).countP (sentBy .search) = 1 := by
    decide +kernel
  rw [same, List.nil_append, silent rfl] at sent
  cases sent

end SamosaChat.Web
