import SamosaChat.Jobs.Schedule
import SamosaChat.Lib.Runs

set_option autoImplicit false

namespace SamosaChat.Jobs

open Text Runs

def insideWindow (schedule : Schedule) (nowMinutes : Int) : Bool :=
  minutesInWindow nowMinutes (parseHhmm schedule.windowStart) (parseHhmm schedule.windowEnd)

structure Stale (schedule : Schedule) (poll : Poll) : Prop where
  enabled : schedule.enabled = true
  open_ : schedule.lastStatus ≠ some (utf8 "complete")
  power : poll.onBattery = true → schedule.runOnBattery = true
  outside : insideWindow schedule poll.nowMinutes = false
  expired : windowExpired schedule poll.nowEpoch = true

-- Once a schedule was run its deadline is not looked at again, unless the schedule is a one-shot to be skipped;
-- and what a one-shot comes to is written down.
structure Good (job : JobDef) (world : World) (poll : Poll) : Prop where
  fresh : world.runs ≠ [] → hasWatch job = true ∨ world.schedule.missedPolicy = utf8 "run_next_start" →
    ¬Stale world.schedule poll
  written : hasWatch job = false → poll.written = true

structure Kept (job : JobDef) (armed : Schedule) (world : World) : Prop where
  inWindow : ∀ earlier ran later, world.runs = earlier ++ ran :: later →
    insideWindow armed ran.nowMinutes = true ∨
      armed.missedPolicy = utf8 "run_next_start" ∧ windowExpired armed ran.nowEpoch = true ∧ earlier = []
  watch : hasWatch job = true → (∃ ran ∈ world.runs, insideWindow armed ran.nowMinutes = true) →
    world.schedule.enabled = true ∧ world.schedule.lastStatus ≠ some (utf8 "expired") ∧
      ∀ earlier ran later, world.runs = earlier ++ ran :: later →
        (∃ before ∈ earlier, insideWindow armed before.nowMinutes = true) → insideWindow armed ran.nowMinutes = true
  oneShot : hasWatch job = false → ∀ earlier ran later, world.runs = earlier ++ ran :: later →
    ran.complete = true → later = []

structure SameTerms (armed schedule : Schedule) : Prop where
  windowStart : schedule.windowStart = armed.windowStart
  windowEnd : schedule.windowEnd = armed.windowEnd
  missedPolicy : schedule.missedPolicy = armed.missedPolicy
  deadlineEpoch : schedule.deadlineEpoch = armed.deadlineEpoch

theorem same_terms_write {armed schedule : Schedule} (same : SameTerms armed schedule) (written enabled : Bool)
    (status reason : String) : SameTerms armed (writeScheduleWithStatus written schedule status enabled reason) := by
  cases written with
  | true => exact ⟨same.windowStart, same.windowEnd, same.missedPolicy, same.deadlineEpoch⟩
  | false => exact same

theorem same_inside {armed schedule : Schedule} (same : SameTerms armed schedule) (nowMinutes : Int) :
    insideWindow schedule nowMinutes = insideWindow armed nowMinutes := by
  rw [insideWindow, insideWindow, same.windowStart, same.windowEnd]

theorem same_expired {armed schedule : Schedule} (same : SameTerms armed schedule) (nowEpoch : Int) :
    windowExpired schedule nowEpoch = windowExpired armed nowEpoch := by
  rw [windowExpired, windowExpired, same.deadlineEpoch]

theorem decision_cases (schedule : Schedule) (poll : Poll) :
    let decided := scheduleDecision schedule poll.nowMinutes poll.onBattery (windowExpired schedule poll.nowEpoch)
    (decided.1 = true ∧ schedule.enabled = true ∧ insideWindow schedule poll.nowMinutes = true) ∨
      (decided.1 = true ∧ Stale schedule poll ∧ schedule.missedPolicy = utf8 "run_next_start") ∨
      (decided = (false, .windowExpired) ∧ Stale schedule poll ∧ schedule.missedPolicy ≠ utf8 "run_next_start") ∨
      (decided.1 = false ∧ decided.2 ≠ .windowExpired) := by
  unfold scheduleDecision
  cases enabled : schedule.enabled with
  | false => simp
  | true =>
    by_cases open_ : schedule.lastStatus = some (utf8 "complete")
    · simp [open_]
    by_cases power : poll.onBattery = true ∧ schedule.runOnBattery = false
    · simp [open_, power]
    have powered : poll.onBattery = true → schedule.runOnBattery = true := by
      intro onBattery
      by_contra off
      exact power ⟨onBattery, by simpa using off⟩
    have goesOn : (poll.onBattery && !schedule.runOnBattery) = false := by
      cases onBattery : poll.onBattery with
      | false => rfl
      | true => simp [powered onBattery]
    by_cases valid : parseHhmm schedule.windowStart < 0 ∨ parseHhmm schedule.windowEnd < 0
    · simp [open_, goesOn, valid]
    cases inside : insideWindow schedule poll.nowMinutes with
    | true =>
      rw [insideWindow] at inside
      simp [open_, goesOn, valid, inside]
    | false =>
      have out := inside
      rw [insideWindow] at out
      cases expired : windowExpired schedule poll.nowEpoch with
      | false => simp [open_, goesOn, valid, out]
      | true =>
        have stale : Stale schedule poll := ⟨enabled, open_, powered, inside, expired⟩
        by_cases policy : schedule.missedPolicy = utf8 "run_next_start"
        · simp [open_, goesOn, valid, out, policy, stale]
        · simp [open_, goesOn, valid, out, policy, stale]

inductive RunLeaves (job : JobDef) (poll : Poll) (schedule : Schedule) : Schedule × Bool → Prop
  | untouched : RunLeaves job poll schedule (schedule, false)
  | open_ (status reason : String) (complete : Bool) (other : utf8 status ≠ utf8 "expired")
      (unfinished : hasWatch job = false → complete = false) :
      RunLeaves job poll schedule (writeScheduleWithStatus poll.written schedule status true reason, complete)
  | finished (oneShot : hasWatch job = false) :
      RunLeaves job poll schedule (writeScheduleWithStatus poll.written schedule "complete" false "complete", true)

theorem run_leaves (job : JobDef) (poll : Poll) (schedule : Schedule) :
    RunLeaves job poll schedule (runScheduledJobNative job poll schedule) := by
  unfold runScheduledJobNative
  by_cases missing : poll.jobRead = false ∨ (job.folder = none ∧ job.publicInputs = false)
  · rw [if_pos missing]
    exact .open_ "failed" "job_unavailable" false (by decide) fun _ => rfl
  rw [if_neg missing]
  by_cases lost : poll.eventsPath = false
  · rw [if_pos lost]
    exact .untouched
  rw [if_neg lost]
  cases watches : hasWatch job with
  | true =>
    cases works : poll.works with
    | true => exact .open_ "watching" "delta_checked" true (by decide) fun no => by rw [watches] at no; cases no
    | false => exact .open_ "watching_with_error" "delta_incomplete" false (by decide) fun _ => rfl
  | false =>
    cases works : poll.works with
    | true =>
      simp only [Bool.false_eq_true, if_false, if_true]
      split
      · exact .finished watches
      · split
        · exact .finished watches
        · exact .finished watches
    | false =>
      simp only [Bool.false_eq_true, if_false]
      split
      · exact .open_ "failed" "public_fetch_failed" false (by decide) fun _ => rfl
      · split
        · exact .open_ "failed" "folder_scan_failed" false (by decide) fun _ => rfl
        · exact .open_ "failed" "folder_index_failed" false (by decide) fun _ => rfl

structure Inv (job : JobDef) (armed : Schedule) (world : World) : Prop where
  terms : SameTerms armed world.schedule
  kept : Kept job armed world
  retired : world.schedule.lastStatus = some (utf8 "expired") → world.schedule.enabled = false
  watching : hasWatch job = true → world.runs ≠ [] →
    world.schedule.enabled = true ∧ world.schedule.lastStatus ≠ some (utf8 "expired")
  finished : hasWatch job = false → (∃ ran ∈ world.runs, ran.complete = true) → world.schedule.enabled = false

theorem snoc_split {α : Type} {l earlier later : List α} {a b : α} (same : l ++ [a] = earlier ++ b :: later) :
    (earlier = l ∧ b = a ∧ later = []) ∨ ∃ before, l = earlier ++ b :: before ∧ later = before ++ [a] := by
  rcases List.eq_nil_or_concat later with rfl | ⟨before, last, rfl⟩
  · obtain ⟨rfl, one⟩ := List.append_inj' same rfl
    cases one
    exact .inl ⟨rfl, rfl, rfl⟩
  · rw [List.concat_eq_append, ← List.cons_append, ← List.append_assoc] at same
    obtain ⟨rfl, one⟩ := List.append_inj' same rfl
    cases one
    exact .inr ⟨before, rfl, by simp⟩

section Step

variable {job : JobDef} {armed : Schedule} {world : World} {poll : Poll}

theorem inv_run (inv : Inv job armed world) (good : Good job world poll) (enabled : world.schedule.enabled = true)
    (allowed : insideWindow armed poll.nowMinutes = true ∨
      armed.missedPolicy = utf8 "run_next_start" ∧ windowExpired armed poll.nowEpoch = true ∧ world.runs = [])
    {left : Schedule × Bool} (leaves : RunLeaves job poll world.schedule left) :
    Inv job armed
      { schedule := left.1
        runs := world.runs ++ [{ nowMinutes := poll.nowMinutes, nowEpoch := poll.nowEpoch, complete := left.2 }] } := by
  have unexpired : world.schedule.lastStatus ≠ some (utf8 "expired") := by
    intro expired
    rw [inv.retired expired] at enabled
    cases enabled
  have undone : hasWatch job = false → ∀ ran ∈ world.runs, ran.complete = false := by
    intro oneShot ran inside
    by_contra complete
    rw [inv.finished oneShot ⟨ran, inside, by simpa using complete⟩] at enabled
    cases enabled
  have terms : SameTerms armed left.1 := by
    cases leaves with
    | untouched => exact inv.terms
    | open_ status reason complete other unfinished => exact same_terms_write inv.terms _ _ _ _
    | finished oneShot => exact same_terms_write inv.terms _ _ _ _
  have watching : hasWatch job = true → left.1.enabled = true ∧ left.1.lastStatus ≠ some (utf8 "expired") := by
    intro watches
    cases leaves with
    | untouched => exact ⟨enabled, unexpired⟩
    | open_ status reason complete other unfinished =>
      cases written : poll.written with
      | true => exact ⟨rfl, fun same => other (Option.some.inj same)⟩
      | false => exact ⟨enabled, unexpired⟩
    | finished oneShot =>
      rw [watches] at oneShot
      cases oneShot
  have retired : left.1.lastStatus = some (utf8 "expired") → left.1.enabled = false := by
    intro expired
    cases leaves with
    | untouched => exact absurd expired unexpired
    | open_ status reason complete other unfinished =>
      cases written : poll.written with
      | true =>
        rw [written] at expired
        exact absurd (Option.some.inj expired) other
      | false =>
        rw [written] at expired
        exact absurd expired unexpired
    | finished oneShot =>
      rw [good.written oneShot]
      rfl
  have finished : hasWatch job = false → left.2 = true → left.1.enabled = false := by
    intro oneShot complete
    cases leaves with
    | untouched => cases complete
    | open_ status reason done other unfinished =>
      rw [unfinished oneShot] at complete
      cases complete
    | finished _ =>
      rw [good.written oneShot]
      rfl
  refine ⟨terms, ⟨?_, ?_, ?_⟩, retired, fun watches _ => watching watches, ?_⟩
  · intro earlier ran later split
    rcases snoc_split split with ⟨rfl, rfl, rfl⟩ | ⟨before, old, rfl⟩
    · exact allowed
    · exact inv.kept.inWindow earlier ran before old
  · intro watches _
    refine ⟨(watching watches).1, (watching watches).2, ?_⟩
    rintro earlier ran later split ⟨first, among, _⟩
    rcases snoc_split split with ⟨rfl, rfl, rfl⟩ | ⟨before, old, rfl⟩
    · rcases allowed with inside | ⟨_, _, none_⟩
      · exact inside
      · rw [none_] at among
        cases among
    · rcases inv.kept.inWindow earlier ran before old with inside | ⟨_, _, none_⟩
      · exact inside
      · rw [none_] at among
        cases among
  · intro oneShot earlier ran later split complete
    rcases snoc_split split with ⟨rfl, rfl, rfl⟩ | ⟨before, old, rfl⟩
    · rfl
    · have still := undone oneShot ran (by rw [old]; simp)
      rw [still] at complete
      cases complete
  · rintro oneShot ⟨ran, inside, complete⟩
    rcases List.mem_append.mp inside with old | new
    · rw [undone oneShot ran old] at complete
      cases complete
    · rw [List.mem_singleton.mp new] at complete
      exact finished oneShot complete

theorem inv_retire (inv : Inv job armed world) (good : Good job world poll) (stale : Stale world.schedule poll) :
    Inv job armed
      { world with schedule := writeScheduleWithStatus poll.written world.schedule "expired" false "window_expired" } := by
  have unrun : hasWatch job = true → world.runs = [] := by
    intro watches
    by_contra some_
    exact good.fresh some_ (.inl watches) stale
  refine ⟨same_terms_write inv.terms _ _ _ _, ⟨inv.kept.inWindow, ?_, inv.kept.oneShot⟩, ?_, ?_, ?_⟩
  · rintro watches ⟨ran, inside, _⟩
    rw [show world.runs = [] from unrun watches] at inside
    cases inside
  · intro expired
    cases written : poll.written with
    | true => rfl
    | false =>
      rw [written] at expired
      exact inv.retired expired
  · intro watches some_
    exact absurd (unrun watches) some_
  · intro oneShot _
    rw [good.written oneShot]
    rfl

theorem inv_step (inv : Inv job armed world) (good : Good job world poll) : Inv job armed (jobsdOnceNative job world poll) := by
  unfold jobsdOnceNative
  by_cases readable : poll.readable = false
  · rw [if_pos readable]
    exact inv
  rw [if_neg readable]
  rcases decision_cases world.schedule poll with
    ⟨runs, enabled, inside⟩ | ⟨runs, stale, policy⟩ | ⟨retires, stale, policy⟩ | ⟨waits, other⟩
  · simp only [runs, if_true]
    rw [same_inside inv.terms] at inside
    exact inv_run inv good enabled (.inl inside) (run_leaves job poll world.schedule)
  · simp only [runs, if_true]
    have expired := stale.expired
    rw [same_expired inv.terms] at expired
    have unrun : world.runs = [] := by
      by_contra some_
      exact good.fresh some_ (.inr policy) stale
    refine inv_run inv good stale.enabled (.inr ⟨?_, expired, unrun⟩) (run_leaves job poll world.schedule)
    rw [← inv.terms.missedPolicy]
    exact policy
  · simp only [retires, Bool.false_eq_true, if_false, if_true]
    exact inv_retire inv good stale
  · simp only [waits, Bool.false_eq_true, if_false, if_neg other]
    exact inv

end Step

theorem armed_open {calls : ArmCalls} {body : ArmBody} {armed : Schedule} (isArmed : jobsScheduleArm calls body = .ok armed) :
    armed.lastStatus ≠ some (utf8 "expired") := by
  simp only [jobsScheduleArm] at isArmed
  split_ifs at isArmed
  · cases isArmed
    cases calls.rewrites with
    | true => exact fun same => absurd (Option.some.inj same) (by decide)
    | false => exact fun same => nomatch same
  · cases isArmed
    exact fun same => nomatch same

theorem inv_armed (job : JobDef) {armed : Schedule} (open_ : armed.lastStatus ≠ some (utf8 "expired")) :
    Inv job armed { schedule := armed, runs := [] } where
  terms := ⟨rfl, rfl, rfl, rfl⟩
  kept :=
    { inWindow := fun _ _ _ split => absurd split (by simp)
      watch := fun _ some_ => by simp at some_
      oneShot := fun _ _ _ _ split => absurd split (by simp) }
  retired := fun expired => absurd expired open_
  watching := fun _ some_ => absurd rfl some_
  finished := fun _ some_ => by simp at some_

theorem schedule_kept (calls : ArmCalls) (body : ArmBody) (armed : Schedule)
    (isArmed : jobsScheduleArm calls body = .ok armed) (polls : List Poll)
    (good : Along (jobsdOnceNative body.job) (Good body.job) { schedule := armed, runs := [] } polls) :
    Kept body.job armed (polled body.job armed polls) :=
  (along_invariant (fun _ _ => inv_step) (inv_armed body.job (armed_open isArmed)) polls good).kept

theorem stale_breaks {job : JobDef} {armed : Schedule} {world : World} {poll : Poll}
    (terms : SameTerms armed world.schedule) (stale : Stale world.schedule poll) (readable : poll.readable = true)
    (written : poll.written = true) (valid : 0 ≤ parseHhmm armed.windowStart ∧ 0 ≤ parseHhmm armed.windowEnd)
    (ran : world.runs ≠ []) (matters : armed.missedPolicy = utf8 "run_next_start" ∨
      hasWatch job = true ∧ ∃ ran ∈ world.runs, insideWindow armed ran.nowMinutes = true) :
    ¬Kept job armed (jobsdOnceNative job world poll) := by
  intro kept
  have outside := stale.outside
  rw [insideWindow] at outside
  have open_ : ¬(parseHhmm world.schedule.windowStart < 0 ∨ parseHhmm world.schedule.windowEnd < 0) := by
    rw [terms.windowStart, terms.windowEnd]
    omega
  have goesOn : (poll.onBattery && !world.schedule.runOnBattery) = false := by
    cases onBattery : poll.onBattery with
    | false => rfl
    | true => simp [stale.power onBattery]
  have decided : scheduleDecision world.schedule poll.nowMinutes poll.onBattery
      (windowExpired world.schedule poll.nowEpoch) =
      if world.schedule.missedPolicy = utf8 "run_next_start" then (true, .missedWindow) else (false, .windowExpired) := by
    simp [scheduleDecision, stale.enabled, stale.open_, goesOn, open_, outside, stale.expired]
  by_cases policy : world.schedule.missedPolicy = utf8 "run_next_start"
  · rw [if_pos policy] at decided
    have next : (jobsdOnceNative job world poll).runs = world.runs ++
        [{ nowMinutes := poll.nowMinutes, nowEpoch := poll.nowEpoch,
           complete := (runScheduledJobNative job poll world.schedule).2 }] := by
      simp [jobsdOnceNative, readable, decided]
    rcases kept.inWindow world.runs _ [] next with inside | ⟨_, _, none_⟩
    · have same := same_inside terms poll.nowMinutes
      rw [stale.outside] at same
      rw [← same] at inside
      cases inside
    · exact ran none_
  · rw [if_neg policy] at decided
    have next : jobsdOnceNative job world poll = { world with
        schedule := writeScheduleWithStatus true world.schedule "expired" false "window_expired" } := by
      simp [jobsdOnceNative, readable, decided, written]
    rw [next] at kept
    rcases matters with again | ⟨watches, inside⟩
    · rw [terms.missedPolicy] at policy
      exact policy again
    · have enabled := (kept.watch watches inside).1
      cases enabled

section Night

-- A folder watched from ten to six, armed in the evening; the window closes at epoch 100000.
def nightBody : ArmBody where
  job :=
    { jobId := utf8 "night"
      watchRecipe := some (utf8 "folder_report")
      folder := some (utf8 "/home/user/inbox")
      publicInputs := false
      organize := false
      runOnBattery := false }
  windowStart := none
  windowEnd := none
  missedPolicy := none
  keepAwake := none

def nightCalls : ArmCalls where
  changed := false
  freezes := true
  writes := true
  scans := true
  rewrites := true
  clock :=
    { localtime := fun _ => some { day := 0, hour := 21, min := 0, sec := 0 }
      mktime := fun _ => some 100000 }
  now := 60000

def nightSchedule : Schedule where
  enabled := true
  windowStart := utf8 "22:00"
  windowEnd := utf8 "06:00"
  missedPolicy := utf8 "skip"
  deadlineEpoch := 100000
  keepAwake := true
  runOnBattery := false
  lastStatus := some (utf8 "watching")
  lastReason := some (utf8 "baseline_ready")

def pollAt (nowMinutes nowEpoch : Int) : Poll where
  nowMinutes := nowMinutes
  nowEpoch := nowEpoch
  onBattery := false
  readable := true
  jobRead := true
  eventsPath := true
  works := true
  written := true

theorem night_kept : Kept nightBody.job nightSchedule (polled nightBody.job nightSchedule [pollAt 1380 70000]) :=
  schedule_kept nightCalls nightBody nightSchedule (by decide) [pollAt 1380 70000]
    ⟨⟨fun some_ => absurd rfl some_, fun _ => rfl⟩, trivial⟩

-- At noon after a night with its run, the watch is retired.
theorem watch_retired_after_run :
    ¬∀ (calls : ArmCalls) (body : ArmBody) (armed : Schedule) (polls : List Poll),
      jobsScheduleArm calls body = .ok armed → polls.Pairwise (fun first second => first.nowEpoch ≤ second.nowEpoch) →
      Kept body.job armed (polled body.job armed polls) := by
  intro always
  have kept := always nightCalls nightBody nightSchedule [pollAt 1380 70000, pollAt 720 120000] (by decide)
    (by decide)
  have ran : ∃ ran ∈ (polled nightBody.job nightSchedule [pollAt 1380 70000, pollAt 720 120000]).runs,
      insideWindow nightSchedule ran.nowMinutes = true := by
    decide
  have retired : (polled nightBody.job nightSchedule [pollAt 1380 70000, pollAt 720 120000]).schedule.enabled = false := by
    decide
  have enabled := (kept.watch (by decide) ran).1
  rw [retired] at enabled
  cases enabled

end Night

end SamosaChat.Jobs
