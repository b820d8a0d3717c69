import SamosaChat.Lib.Scanf

set_option autoImplicit false

namespace SamosaChat.Jobs

open Utf8 Text Decimal

-- sscanf with "%d:%d%c": the minute is the last thing in the text.
def parseHhmm (value : Bytes) : Int :=
  let scanned := do
    let (h, rest) ← scanInt value
    let (m, rest) ← scanInt (← scanLiteral ":" rest)
    if rest = [] then some (h, m) else none
  match scanned with
  | none => -1
  | some (h, m) => if h < 0 ∨ h > 23 ∨ m < 0 ∨ m > 59 then -1 else h * 60 + m

def minutesInWindow (now start end_ : Int) : Bool :=
  if start = end_ then true
  else if start < end_ then decide (now ≥ start ∧ now < end_)
  else decide (now ≥ start ∨ now < end_)

-- The broken-down local time, as far as it is changed here; `day` is the rest of it.
structure Tm where
  day : Int
  hour : Int
  min : Int
  sec : Int

structure Clock where
  localtime : Int → Option Tm
  mktime : Tm → Option Int

def windowDeadlineEpoch (clock : Clock) (endMinutes start : Int) : Int :=
  match clock.localtime start with
  | none => 0
  | some tmv =>
    let tmv := { tmv with hour := endMinutes / 60, min := endMinutes % 60, sec := 0 }
    match clock.mktime tmv with
    | none => 0
    | some candidate =>
      if candidate < start then (clock.mktime { tmv with day := tmv.day + 1 }).getD 0
      else candidate

structure Schedule where
  enabled : Bool
  windowStart : Bytes
  windowEnd : Bytes
  missedPolicy : Bytes
  deadlineEpoch : Int
  keepAwake : Bool
  runOnBattery : Bool
  lastStatus : Option Bytes
  lastReason : Option Bytes
deriving DecidableEq

inductive Reason
  | disabled
  | complete
  | onBattery
  | invalidWindow
  | insideWindow
  | missedWindow
  | windowExpired
  | outsideWindow
deriving DecidableEq

def Reason.text : Reason → String
  | .disabled => "disabled"
  | .complete => "complete"
  | .onBattery => "on_battery"
  | .invalidWindow => "invalid_window"
  | .insideWindow => "inside_window"
  | .missedWindow => "missed_window"
  | .windowExpired => "window_expired"
  | .outsideWindow => "outside_window"

def scheduleDecision (schedule : Schedule) (nowMinutes : Int) (onBattery windowExpired : Bool) : Bool × Reason :=
  if schedule.enabled = false then (false, .disabled)
  else if schedule.lastStatus = some (utf8 "complete") then (false, .complete)
  else if onBattery && !schedule.runOnBattery then (false, .onBattery)
  else
    let start := parseHhmm schedule.windowStart
    let end_ := parseHhmm schedule.windowEnd
    if start < 0 ∨ end_ < 0 then (false, .invalidWindow)
    else if minutesInWindow nowMinutes start end_ then (true, .insideWindow)
    else if windowExpired then
      if schedule.missedPolicy = utf8 "run_next_start" then (true, .missedWindow) else (false, .windowExpired)
    else (false, .outsideWindow)

def writeScheduleWithStatus (written : Bool) (schedule : Schedule) (status : String) (enabled : Bool) (reason : String) :
    Schedule :=
  if written then
    { schedule with enabled := enabled, lastStatus := some (utf8 status), lastReason := some (utf8 reason) }
  else schedule

structure JobDef where
  jobId : Bytes
  watchRecipe : Option Bytes
  folder : Option Bytes
  publicInputs : Bool
  organize : Bool
  runOnBattery : Bool
deriving DecidableEq

def validJobId (jobId : Bytes) : Bool :=
  jobId ≠ [] && jobId.all fun c => isAlnum c || c == 0x2d || c == 0x5f

structure ArmBody where
  job : JobDef
  windowStart : Option Bytes
  windowEnd : Option Bytes
  missedPolicy : Option Bytes
  keepAwake : Option Bool

structure ArmCalls where
  changed : Bool
  freezes : Bool
  writes : Bool
  scans : Bool
  rewrites : Bool
  clock : Clock
  now : Int

inductive ArmError
  | invalidWatch
  | invalidJobId
  | definitionChanged
  | invalidSchedule
  | unwritten
deriving DecidableEq

def badWatch (job : JobDef) : Bool :=
  match job.watchRecipe with
  | none => false
  | some recipe =>
    (recipe ≠ utf8 "classify_inbox" && recipe ≠ utf8 "folder_report") || job.folder.getD [] == []

-- The schedule that is on disk afterwards. A watch is armed by its first scan, and told so in a second write.
def jobsScheduleArm (calls : ArmCalls) (body : ArmBody) : Except ArmError Schedule :=
  if badWatch body.job then .error .invalidWatch
  else if validJobId body.job.jobId = false then .error .invalidJobId
  else if calls.changed then .error .definitionChanged
  else if calls.freezes = false then .error .unwritten
  else
    let windowStart := body.windowStart.getD (utf8 "22:00")
    let windowEnd := body.windowEnd.getD (utf8 "06:00")
    let missedPolicy := body.missedPolicy.getD (utf8 "skip")
    if parseHhmm windowStart < 0 ∨ parseHhmm windowEnd < 0 ∨
        (missedPolicy ≠ utf8 "skip" ∧ missedPolicy ≠ utf8 "run_next_start") then .error .invalidSchedule
    else if calls.writes = false then .error .unwritten
    else
      let schedule : Schedule :=
        { enabled := true
          windowStart := windowStart
          windowEnd := windowEnd
          missedPolicy := missedPolicy
          deadlineEpoch := windowDeadlineEpoch calls.clock (parseHhmm windowEnd) calls.now
          keepAwake := body.keepAwake.getD true
          runOnBattery := body.job.runOnBattery
          lastStatus := none
          lastReason := none }
      if body.job.watchRecipe.isSome && calls.scans then
        .ok (writeScheduleWithStatus calls.rewrites schedule "watching" true "baseline_ready")
      else .ok schedule

-- One jobsd_once as one schedule meets it. `works` is the outcome of the work itself.
structure Poll where
  nowMinutes : Int
  nowEpoch : Int
  onBattery : Bool
  readable : Bool
  jobRead : Bool
  eventsPath : Bool
  works : Bool
  written : Bool

def hasWatch (job : JobDef) : Bool :=
  job.watchRecipe.isSome && job.folder.isSome

def runScheduledJobNative (job : JobDef) (poll : Poll) (schedule : Schedule) : Schedule × Bool :=
  let write := writeScheduleWithStatus poll.written schedule
  if poll.jobRead = false ∨ (job.folder = none ∧ job.publicInputs = false) then
    (write "failed" true "job_unavailable", false)
  else if poll.eventsPath = false then (schedule, false)
  else if hasWatch job then
    (if poll.works then write "watching" true "delta_checked"
      else write "watching_with_error" true "delta_incomplete", poll.works)
  else if job.publicInputs then
    (if poll.works then write "complete" false "complete" else write "failed" true "public_fetch_failed", poll.works)
  else if job.organize = false then
    (if poll.works then write "complete" false "complete" else write "failed" true "folder_scan_failed", poll.works)
  else
    (if poll.works then write "complete" false "complete" else write "failed" true "folder_index_failed", poll.works)

structure Ran where
  nowMinutes : Int
  nowEpoch : Int
  complete : Bool
deriving DecidableEq

structure World where
  schedule : Schedule
  runs : List Ran

def windowExpired (schedule : Schedule) (nowEpoch : Int) : Bool :=
  decide (schedule.deadlineEpoch > 0 ∧ nowEpoch ≥ schedule.deadlineEpoch)

def jobsdOnceNative (job : JobDef) (world : World) (poll : Poll) : World :=
  if poll.readable = false then world
  else
    let (shouldRun, reason) := scheduleDecision world.schedule poll.nowMinutes poll.onBattery
      (windowExpired world.schedule poll.nowEpoch)
    if shouldRun then
      let (schedule, complete) := runScheduledJobNative job poll world.schedule
      { schedule := schedule
        runs := world.runs ++ [{ nowMinutes := poll.nowMinutes, nowEpoch := poll.nowEpoch, complete := complete }] }
    else if reason = .windowExpired then
      { world with schedule := writeScheduleWithStatus poll.written world.schedule "expired" false "window_expired" }
    else world

def polled (job : JobDef) (schedule : Schedule) (polls : List Poll) : World :=
  polls.foldl (jobsdOnceNative job) { schedule := schedule, runs := [] }

end SamosaChat.Jobs
