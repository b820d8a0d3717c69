import SamosaChat.Attachments.Wav
import SamosaChat.Lib.Sliding

set_option autoImplicit false

namespace SamosaChat.Windows

open Utf8 Text Riff Wav Sliding

def overlapFrames : Nat := 16000

def intMax : Nat := 2 ^ 31 - 1

def llongMax : Nat := 2 ^ 63 - 1

def uint32Max : Nat := 2 ^ 32 - 1

-- By the number that the environment holds, where positive_env reads one from it.
def audioTranscriptWindowFrames (configured : Option Nat) : Nat :=
  let seconds :=
    match configured with
    | some n => if 10 ≤ n ∧ n ≤ 3600 then n else 600
    | none => 600
  seconds * 16000

def audioTranscriptWindowCount (total window : Nat) : Nat :=
  if total = 0 ∨ window = 0 then 0
  else if total ≤ window then 1
  else if window ≤ overlapFrames then 0
  else
    let step := window - overlapFrames
    let remaining := total - window
    let extra := remaining / step + if remaining % step = 0 then 0 else 1
    if extra < intMax then 1 + extra else 0

section Loop

inductive Transcribed
  | ok
  | notReady
  | busy
  | prepareFailed
  | processFailed
  | outputInvalid
  | cancelled
deriving DecidableEq

inductive Exit
  | transcribed (outcome : Transcribed)
  | evidenceWriteFailed
  | windowInvalid
deriving DecidableEq

-- What is not settled by the frames: whether the cancellation is seen at the start of a turn, what the work on a window
-- ends in where the loop does not go on behind it, and what the transcription of the whole recording at once ends in.
structure Host where
  cancelled : Nat → Bool
  work : Nat → Window → Option Exit
  whole : Exit

structure Run where
  exit : Exit
  windows : List Window
deriving DecidableEq

def Run.behind (window : Window) (run : Run) : Run :=
  { run with windows := window :: run.windows }

def framesAt (total window start : Nat) : Window :=
  let sum := word (start + window)
  { first := start, last := if sum > total ∨ sum < start then total else sum }

theorem frames_left {total window start : Nat} (inside : start < total)
    (forward : ¬((framesAt total window start).last ≤ overlapFrames ∨ (framesAt total window start).last - overlapFrames ≤ start)) :
    total - ((framesAt total window start).last - overlapFrames) < total - start := by
  have within : (framesAt total window start).last ≤ total := by
    change (if word (start + window) > total ∨ word (start + window) < start then total else word (start + window)) ≤ total
    split <;> omega
  omega

def windowLoop (host : Host) (total window index start : Nat) : Run :=
  if start < total then
    if host.cancelled index then { exit := .transcribed .cancelled, windows := [] }
    else
      match host.work index (framesAt total window start) with
      | some exit => { exit, windows := [framesAt total window start] }
      | none =>
        if (framesAt total window start).last = total then
          { exit := .transcribed .ok, windows := [framesAt total window start] }
        else if (framesAt total window start).last ≤ overlapFrames ∨
            (framesAt total window start).last - overlapFrames ≤ start then
          { exit := .transcribed .prepareFailed, windows := [framesAt total window start] }
        else
          (windowLoop host total window (index + 1) ((framesAt total window start).last - overlapFrames)).behind
            (framesAt total window start)
  else { exit := .transcribed .ok, windows := [] }
termination_by total - start
decreasing_by exact frames_left ‹_› ‹_›

def attachmentAudioAugment (host : Host) (total window : Nat) : Run :=
  let totalWindows := audioTranscriptWindowCount total window
  if totalWindows = 0 then { exit := .transcribed .prepareFailed, windows := [] }
  else if totalWindows = 1 then { exit := host.whole, windows := [{ first := 0, last := total }] }
  else windowLoop host total window 0 0

end Loop

section File

inductive Call
  | interrupted
  | failed
  | moved (n : Nat)
deriving DecidableEq

def audioWriteAll : List Call → Bytes → Bytes → Option (Bool × Bytes × List Call)
  | [], out, data => if data.isEmpty then some (true, out, []) else none
  | call :: calls, out, data =>
    if data.isEmpty then some (true, out, call :: calls)
    else
      match call with
      | .interrupted => audioWriteAll calls out data
      | .failed => some (false, out, calls)
      | .moved n =>
        let wrote := data.take n
        if wrote.isEmpty then some (false, out, calls) else audioWriteAll calls (out ++ wrote) (data.drop n)

def audioPutLe16 (value : Nat) : Bytes :=
  [UInt8.ofNat value, UInt8.ofNat (value >>> 8)]

def audioPutLe32 (value : Nat) : Bytes :=
  [UInt8.ofNat value, UInt8.ofNat (value >>> 8), UInt8.ofNat (value >>> 16), UInt8.ofNat (value >>> 24)]

def windowHeader (dataBytes : Nat) : Bytes :=
  utf8 "RIFF" ++ audioPutLe32 (36 + dataBytes) ++ utf8 "WAVEfmt " ++ audioPutLe32 16 ++ audioPutLe16 1 ++ audioPutLe16 1 ++
    audioPutLe32 16000 ++ audioPutLe32 32000 ++ audioPutLe16 2 ++ audioPutLe16 16 ++ utf8 "data" ++ audioPutLe32 dataBytes

def copyLoop (source : Bytes) (offset dataBytes : Nat) : List Call → List Call → Nat → Bytes → Option (Bool × Bytes)
  | [], _, copied, out => if copied < dataBytes then none else some (true, out)
  | call :: reads, writes, copied, out =>
    if copied < dataBytes then
      match call with
      | .interrupted => copyLoop source offset dataBytes reads writes copied out
      | .failed => some (false, out)
      | .moved n =>
        let wanted := min (dataBytes - copied) 65536
        let buffer := ((source.drop (offset + copied)).take wanted).take n
        if buffer.isEmpty then some (false, out)
        else
          (audioWriteAll writes out buffer).bind fun (ok, out, writes) =>
            if ok then copyLoop source offset dataBytes reads writes (copied + buffer.length) out else some (false, out)
    else some (true, out)

structure Disk where
  joined : Bool
  sourceOpens : Bool
  outputOpens : Bool
  changesMode : Bool
  reads : List Call
  writes : List Call
  syncs : Bool
  closes : Bool

-- The file, or none where it was not made and nothing of it is left; and nothing where a list of calls was too short.
def audioWavWindowCreate (disk : Disk) (source : Bytes) (wav : WavInfo) (frames : Window) : Option (Option Bytes) :=
  if frames.first ≥ frames.last ∨ wav.sampleRate ≠ 16000 ∨ wav.channels ≠ 1 ∨ wav.bitsPerSample ≠ 16 then some none
  else
    let dataBytes := word ((frames.last - frames.first) * 2)
    if dataBytes > uint32Max ∨ wav.dataOffset > llongMax ∨ frames.first > (llongMax - wav.dataOffset) / 2 then some none
    else if !(disk.joined && disk.sourceOpens && disk.outputOpens && disk.changesMode) then some none
    else
      (audioWriteAll disk.writes [] (windowHeader dataBytes)).bind fun (ok, out, writes) =>
        if ok then
          (copyLoop source (wav.dataOffset + frames.first * 2) dataBytes disk.reads writes 0 out).map fun (ok, out) =>
            if ok && disk.syncs && disk.closes then some out else none
        else some none

end File

section Steps

variable {host : Host} {s : Strip}

theorem frames_at_eq (small : s.total < 2 ^ 63) (bounded : s.width < 2 ^ 63) {i : Nat} (is : i ≤ s.extra) :
    framesAt s.total s.width (i * s.step) = s.window i := by
  have inside := first_inside is
  have sum : word (i * s.step + s.width) = i * s.step + s.width := word_small (by omega)
  unfold framesAt Strip.window
  rw [sum, Window.mk.injEq]
  refine ⟨rfl, ?_⟩
  split <;> omega

theorem count_eq (second : s.overlap = overlapFrames) :
    audioTranscriptWindowCount s.total s.width = if s.extra < intMax then s.extra + 1 else 0 := by
  have some_ := s.some_
  have narrow := s.narrow
  unfold audioTranscriptWindowCount
  rw [if_neg (by omega)]
  by_cases single : s.total ≤ s.width
  · rw [if_pos single, extra_single single, if_pos (by decide)]
  · rw [if_neg single, if_neg (by omega), Nat.add_comm s.extra, ← second]
    rfl

def Host.Goes (host : Host) : Prop :=
  (∀ index, host.cancelled index = false) ∧ ∀ index frames, host.work index frames = none

theorem window_loop_turn (second : s.overlap = overlapFrames) (small : s.total < 2 ^ 63) (bounded : s.width < 2 ^ 63) {i : Nat}
    (is : i ≤ s.extra) (index : Nat) :
    windowLoop host s.total s.width index (i * s.step) =
      if host.cancelled index then { exit := .transcribed .cancelled, windows := [] }
      else
        match host.work index (s.window i) with
        | some exit => { exit, windows := [s.window i] }
        | none =>
          if i = s.extra then { exit := .transcribed .ok, windows := [s.window i] }
          else (windowLoop host s.total s.width (index + 1) ((i + 1) * s.step)).behind (s.window i) := by
  have inside := first_inside is
  have forward := step_some s
  rw [windowLoop, if_pos inside, frames_at_eq small bounded is]
  cases stops : host.cancelled index with
  | true => rfl
  | false =>
    rw [if_neg Bool.false_ne_true, if_neg Bool.false_ne_true]
    cases work : host.work index (s.window i) with
    | some exit => rfl
    | none =>
      dsimp only
      by_cases last : i = s.extra
      · have whole : (s.window i).last = s.total := by
          rw [last]
          exact window_last
        rw [if_pos whole, if_pos last]
      · have before : i < s.extra := Nat.lt_of_le_of_ne is last
        have short := before_short before
        have width := width_eq s
        have start : (i + 1) * s.step = i * s.step + s.step := Nat.succ_mul _ _
        have next : i * s.step + s.width - overlapFrames = (i + 1) * s.step := by omega
        rw [window_before before, if_neg (by omega), if_neg (by omega), if_neg last, next]

theorem window_loop_rest (second : s.overlap = overlapFrames) (small : s.total < 2 ^ 63) (bounded : s.width < 2 ^ 63) (left : Nat) :
    ∀ i index, i + left = s.extra →
      (windowLoop host s.total s.width index (i * s.step)).windows <+: s.rest i ∧
      (host.Goes → windowLoop host s.total s.width index (i * s.step) = { exit := .transcribed .ok, windows := s.rest i }) := by
  induction left with
  | zero =>
    intro i index last
    rw [Nat.add_zero] at last
    have rest : s.rest i = [s.window i] := by
      rw [last]
      exact rest_last
    rw [window_loop_turn second small bounded (Nat.le_of_eq last), rest]
    refine ⟨?_, fun goes => ?_⟩
    · cases host.cancelled index with
      | true => exact List.nil_prefix
      | false => cases host.work index (s.window i) with
        | some exit => exact List.prefix_refl _
        | none =>
          exact (congrArg (fun run : Run => run.windows <+: [s.window i]) (if_pos last)).mpr (List.prefix_refl _)
    · rw [goes.1, goes.2, if_neg Bool.false_ne_true]
      exact if_pos last
  | succ left ih =>
    intro i index last
    have before : i < s.extra := by omega
    obtain ⟨begun, through⟩ := ih (i + 1) (index + 1) (by omega)
    rw [window_loop_turn second small bounded (Nat.le_of_lt before), rest_before before]
    refine ⟨?_, fun goes => ?_⟩
    · cases host.cancelled index with
      | true => exact List.nil_prefix
      | false => cases host.work index (s.window i) with
        | some exit => exact List.prefix_append [s.window i] (s.rest (i + 1))
        | none =>
          change (if i = s.extra then _ else _ : Run).windows <+: _
          rw [if_neg (Nat.ne_of_lt before)]
          exact (List.prefix_cons_inj _).mpr begun
    · rw [goes.1, goes.2, if_neg Bool.false_ne_true]
      change (if i = s.extra then _ else _ : Run) = _
      rw [if_neg (Nat.ne_of_lt before), through goes]
      rfl

end Steps

section Copies

theorem write_all_appends (calls : List Call) : ∀ (out data out' : Bytes) (left : List Call),
    audioWriteAll calls out data = some (true, out', left) → out' = out ++ data := by
  induction calls with
  | nil =>
    intro out data out' left wrote
    unfold audioWriteAll at wrote
    obtain ⟨empty, wrote⟩ := within_guard wrote nofun
    cases wrote
    rw [List.isEmpty_iff.mp empty, List.append_nil]
  | cons call calls ih =>
    intro out data out' left wrote
    unfold audioWriteAll at wrote
    by_cases empty : data.isEmpty = true
    · rw [if_pos empty] at wrote
      cases wrote
      rw [List.isEmpty_iff.mp empty, List.append_nil]
    rw [if_neg empty] at wrote
    cases call with
    | interrupted => exact ih out data out' left wrote
    | failed => cases wrote
    | moved n =>
      change (if (data.take n).isEmpty then _ else _ : Option (Bool × Bytes × List Call)) = _ at wrote
      obtain ⟨none_, wrote⟩ := past_guard wrote nofun
      rw [ih _ _ _ _ wrote, List.append_assoc, List.take_append_drop]

def slice (source : Bytes) (offset length : Nat) : Bytes :=
  (source.drop offset).take length

theorem slice_append (source : Bytes) (offset first rest : Nat) :
    slice source offset first ++ slice source (offset + first) rest = slice source offset (first + rest) := by
  unfold slice
  rw [List.take_add, List.drop_drop]

theorem slice_taken (source : Bytes) (offset wanted n : Nat) :
    ((source.drop offset).take wanted).take n = slice source offset (((source.drop offset).take wanted).take n).length := by
  unfold slice
  rw [List.take_take, List.length_take, List.take_eq_take_iff]
  omega

theorem copy_loop_appends (source : Bytes) (offset dataBytes : Nat) (reads : List Call) :
    ∀ (writes : List Call) (copied : Nat) (out out' : Bytes), copied ≤ dataBytes →
      copyLoop source offset dataBytes reads writes copied out = some (true, out') →
        out' = out ++ slice source (offset + copied) (dataBytes - copied) ∧
          (slice source (offset + copied) (dataBytes - copied)).length = dataBytes - copied := by
  have over_ (copied : Nat) (out : Bytes) (inside : copied ≤ dataBytes) (done : ¬copied < dataBytes) :
      out = out ++ slice source (offset + copied) (dataBytes - copied) ∧
        (slice source (offset + copied) (dataBytes - copied)).length = dataBytes - copied := by
    have none_ : dataBytes - copied = 0 := by omega
    rw [none_]
    exact ⟨(List.append_nil out).symm, rfl⟩
  induction reads with
  | nil =>
    intro writes copied out out' inside read
    unfold copyLoop at read
    obtain ⟨more, read⟩ := past_guard read nofun
    cases read
    exact over_ copied out inside more
  | cons call reads ih =>
    intro writes copied out out' inside read
    unfold copyLoop at read
    by_cases more : copied < dataBytes
    · rw [if_pos more] at read
      cases call with
      | interrupted => exact ih writes copied out out' inside read
      | failed => cases read
      | moved n =>
        generalize taken : ((source.drop (offset + copied)).take (min (dataBytes - copied) 65536)).take n = buffer
        have first : buffer = slice source (offset + copied) buffer.length := by
          rw [← taken]
          exact slice_taken source (offset + copied) _ n
        have short : buffer.length ≤ dataBytes - copied := by
          rw [← taken, List.length_take, List.length_take]
          omega
        dsimp only at read
        rw [taken] at read
        obtain ⟨none_, read⟩ := past_guard read nofun
        obtain ⟨⟨ok, middle, writes'⟩, wrote, read⟩ := Option.bind_eq_some_iff.mp read
        cases ok with
        | false => cases read
        | true =>
          obtain ⟨whole, long⟩ := ih writes' (copied + buffer.length) middle out' (by omega) read
          have left : dataBytes - copied = buffer.length + (dataBytes - (copied + buffer.length)) := by omega
          rw [← Nat.add_assoc] at whole long
          rw [left, ← slice_append, ← first, List.length_append, long, whole, write_all_appends _ _ _ _ _ wrote, List.append_assoc]
          exact ⟨rfl, rfl⟩
    · rw [if_neg more] at read
      cases read
      exact over_ copied out inside more

end Copies

section Header

variable {n : Nat} {samples : Bytes}

theorem window_header_eq (n : Nat) : windowHeader n =
    [82, 73, 70, 70] ++ audioPutLe32 (36 + n) ++ [87, 65, 86, 69, 102, 109, 116, 32, 16, 0, 0, 0, 1, 0, 1, 0, 0x80, 0x3e, 0, 0,
      0, 0x7d, 0, 0, 2, 0, 16, 0, 100, 97, 116, 97] ++ audioPutLe32 n := by
  have names : utf8 "RIFF" = [82, 73, 70, 70] ∧ utf8 "WAVEfmt " = [87, 65, 86, 69, 102, 109, 116, 32] ∧
      utf8 "data" = [100, 97, 116, 97] := by decide
  unfold windowHeader
  rw [names.1, names.2.1, names.2.2]
  rfl

theorem put_le32_read {value : Nat} (small : value < 2 ^ 32) (rest : Bytes) : le32 (audioPutLe32 value ++ rest) 0 = value := by
  change (UInt8.ofNat value).toNat + 256 * (UInt8.ofNat (value >>> 8)).toNat + 65536 * (UInt8.ofNat (value >>> 16)).toNat +
    16777216 * (UInt8.ofNat (value >>> 24)).toNat = value
  simp only [UInt8.toNat_ofNat', Nat.shiftRight_eq_div_pow]
  omega

theorem le32_drop (s : Bytes) (i : Nat) : le32 s i = le32 (s.drop i) 0 := by
  unfold le32 byteAt
  simp only [List.getD_eq_getElem?_getD, List.getElem?_drop, Nat.zero_add, Nat.add_zero, Nat.add_assoc]

theorem window_header_length (n : Nat) : (windowHeader n).length = 44 := by
  rw [window_header_eq]
  rfl

theorem header_names (n : Nat) (samples : Bytes) :
    tag (windowHeader n ++ samples) 0 = utf8 "RIFF" ∧ tag (windowHeader n ++ samples) 8 = utf8 "WAVE" ∧
      tag (windowHeader n ++ samples) 12 = utf8 "fmt " ∧ tag (windowHeader n ++ samples) 36 = utf8 "data" := by
  have names : utf8 "RIFF" = [82, 73, 70, 70] ∧ utf8 "WAVE" = [87, 65, 86, 69] ∧ utf8 "fmt " = [102, 109, 116, 32] ∧
      utf8 "data" = [100, 97, 116, 97] := by decide
  rw [window_header_eq, names.1, names.2.1, names.2.2.1, names.2.2.2]
  exact ⟨rfl, rfl, rfl, rfl⟩

theorem header_sizes (small : 36 + n < 2 ^ 32) (samples : Bytes) :
    le32 (windowHeader n ++ samples) 4 = 36 + n ∧ size (windowHeader n ++ samples) 12 = 16 ∧
      size (windowHeader n ++ samples) 36 = n := by
  unfold size
  rw [le32_drop _ 4, le32_drop _ (36 + 4), window_header_eq]
  exact ⟨put_le32_read small _, rfl, put_le32_read (by omega) samples⟩

theorem header_format (n : Nat) (samples : Bytes) :
    le16 (windowHeader n ++ samples) 20 = 1 ∧ le16 (windowHeader n ++ samples) 22 = 1 ∧
      le32 (windowHeader n ++ samples) 24 = 16000 ∧ le16 (windowHeader n ++ samples) 34 = 16 := by
  rw [le32_drop _ 24, window_header_eq]
  exact ⟨rfl, rfl, @put_le32_read 16000 (by decide) _, rfl⟩

def windowInfo (n : Nat) : WavInfo :=
  { format := 1, channels := 1, bitsPerSample := 16, sampleRate := 16000, dataBytes := n, dataOffset := 44 }

theorem header_turn (long : samples.length = n) (small : 36 + n < 2 ^ 32) :
    turnSpec (windowHeader n ++ samples) (44 + n) (36 + n + 8) 12 { info := .zero, haveFmt := false } =
      .on 36 { info := { windowInfo 0 with dataOffset := 0 }, haveFmt := true } := by
  obtain ⟨-, -, fmt, -⟩ := header_names n samples
  obtain ⟨-, sixteen, -⟩ := header_sizes small samples
  obtain ⟨pcm, mono, rate, bits⟩ := header_format n samples
  have length : (windowHeader n ++ samples).length = 44 + n := by
    rw [List.length_append, window_header_length, long]
  have second : next (windowHeader n ++ samples) 12 = 36 := by
    unfold next
    rw [sixteen]
  unfold turnSpec move
  rw [second, if_neg (by omega), if_pos fmt, sixteen, if_neg (by rw [length]; omega), if_neg (by rw [length]; omega), pcm, mono,
    rate, bits]
  rfl

theorem samples_turn (some_ : 0 < n) (even : n % 2 = 0) (small : 36 + n < 2 ^ 32) :
    turnSpec (windowHeader n ++ samples) (44 + n) (36 + n + 8) 36 { info := { windowInfo 0 with dataOffset := 0 }, haveFmt := true } =
      .found { info := windowInfo n, haveFmt := true } := by
  obtain ⟨-, -, -, data⟩ := header_names n samples
  obtain ⟨-, -, sized⟩ := header_sizes small samples
  have apart : utf8 "data" ≠ utf8 "fmt " := by decide
  have behind : next (windowHeader n ++ samples) 36 = 44 + n := by
    unfold next
    rw [sized, even]
    omega
  unfold turnSpec
  rw [behind, if_neg (by omega), data, if_neg apart, if_pos rfl, sized, if_neg (by omega)]
  rfl

theorem window_admitted (even : n % 2 = 0) (bounded : n ≤ 14400 * 32000) :
    admits { info := windowInfo n, haveFmt := true } = true :=
  admits_iff.mpr ⟨rfl, rfl, rfl, rfl, rfl, even, decide_eq_false (Nat.not_lt.mpr bounded)⟩

theorem window_file_reads (long : samples.length = n) (some_ : 0 < n) (even : n % 2 = 0) (bounded : n ≤ 14400 * 32000)
    (small : (windowHeader n ++ samples).length < 2 ^ 63) :
    attachmentPcmWavInfo ⟨windowHeader n ++ samples, small⟩ (windowHeader n ++ samples).length = .ok (some (windowInfo n)) := by
  obtain ⟨riff, wave, -, -⟩ := header_names n samples
  obtain ⟨whole, -, -⟩ := header_sizes (n := n) (by omega) samples
  have length : (windowHeader n ++ samples).length = 44 + n := by
    rw [List.length_append, window_header_length, long]
  have walked : chunkLoop (43 + n + 1 + 1) (windowHeader n ++ samples) (44 + n) (36 + n + 8) 12 { info := .zero, haveFmt := false } =
      .ok (some { info := windowInfo n, haveFmt := true }) := by
    rw [chunk_loop_step small _ 12 _ (by rw [length]; omega), header_turn long (by omega)]
    dsimp only
    rw [chunk_loop_step small _ 36 _ (by rw [length]; omega), samples_turn some_ even (by omega)]
  rw [wav_head _ (by rw [length]; omega)]
  dsimp only
  rw [if_pos ⟨riff, wave, by rw [length, whole]; omega, by rw [whole]; omega⟩, length, whole,
    show 44 + n + 1 = 43 + n + 1 + 1 by omega, walked]
  change Except.ok (if admits { info := windowInfo n, haveFmt := true } = true then some (windowInfo n) else none) = _
  rw [if_pos (window_admitted even bounded)]

end Header

structure Holds (source : Bytes) (wav : WavInfo) (frames : Window) (file : Bytes) : Prop where
  exact_ : file =
    windowHeader (2 * (frames.last - frames.first)) ++
      slice source (wav.dataOffset + 2 * frames.first) (2 * (frames.last - frames.first))
  whole : (slice source (wav.dataOffset + 2 * frames.first) (2 * (frames.last - frames.first))).length =
    2 * (frames.last - frames.first)
  reads : ∀ small : file.length < 2 ^ 63, attachmentPcmWavInfo ⟨file, small⟩ file.length =
    .ok (some (windowInfo (2 * (frames.last - frames.first))))

theorem window_created {disk : Disk} {source : Bytes} {wav : WavInfo} {frames : Window} {file : Bytes}
    (bounded : frames.last - frames.first ≤ 3600 * 16000) (made : audioWavWindowCreate disk source wav frames = some (some file)) :
    Holds source wav frames file := by
  have bytes : word ((frames.last - frames.first) * 2) = 2 * (frames.last - frames.first) := by
    rw [word_small (by omega), Nat.mul_comm]
  unfold audioWavWindowCreate at made
  by_cases wrong : frames.first ≥ frames.last ∨ wav.sampleRate ≠ 16000 ∨ wav.channels ≠ 1 ∨ wav.bitsPerSample ≠ 16
  · rw [if_pos wrong] at made
    cases made
  rw [if_neg wrong, bytes, Nat.mul_comm frames.first] at made
  dsimp only at made
  obtain ⟨far, made⟩ := past_guard made nofun
  obtain ⟨closed, made⟩ := past_guard made nofun
  obtain ⟨⟨ok, head, writes⟩, wrote, made⟩ := Option.bind_eq_some_iff.mp made
  cases ok with
  | false => cases made
  | true =>
    obtain ⟨⟨ok, out⟩, copied, made⟩ := Option.map_eq_some_iff.mp made
    dsimp only at made
    by_cases done : (ok && disk.syncs && disk.closes) = true
    swap
    · rw [if_neg done] at made
      cases made
    rw [if_pos done] at made
    cases made
    rw [Bool.and_eq_true, Bool.and_eq_true] at done
    have all : ok = true := done.1.1
    rw [all] at copied
    have header := write_all_appends _ _ _ _ _ wrote
    obtain ⟨exact_, whole⟩ := copy_loop_appends _ _ _ _ _ _ _ _ (Nat.zero_le _) copied
    rw [List.nil_append] at header
    rw [Nat.add_zero, Nat.sub_zero] at exact_ whole
    rw [header] at exact_
    refine ⟨exact_, whole, ?_⟩
    rw [exact_]
    exact fun small => window_file_reads whole (by omega) (Nat.mul_mod_right 2 _) (by omega) small

structure Planned (host : Host) (total window : Nat) (plan : List Window) : Prop where
  counted : plan.length = audioTranscriptWindowCount total window
  covers : Covers total overlapFrames plan
  begun : (attachmentAudioAugment host total window).windows <+: plan
  through : host.Goes → attachmentAudioAugment host total window =
    { exit := if plan.length = 1 then host.whole else .transcribed .ok, windows := plan }

theorem frames_bounds (configured : Option Nat) :
    overlapFrames < audioTranscriptWindowFrames configured ∧ audioTranscriptWindowFrames configured ≤ 3600 * 16000 := by
  unfold audioTranscriptWindowFrames overlapFrames
  cases configured with
  | none => decide
  | some n =>
    dsimp only
    split <;> omega

theorem augment_planned (host : Host) (s : Strip) (second : s.overlap = overlapFrames) (small : s.total < 2 ^ 63)
    (bounded : s.width < 2 ^ 63) (fits : s.extra < intMax) : Planned host s.total s.width s.windows := by
  have counted : audioTranscriptWindowCount s.total s.width = s.extra + 1 := by
    rw [count_eq second, if_pos fits]
  have covers : Covers s.total overlapFrames s.windows := by
    rw [← second]
    exact windows_cover
  have run : (attachmentAudioAugment host s.total s.width).windows <+: s.windows ∧
      (host.Goes → attachmentAudioAugment host s.total s.width =
        { exit := if s.windows.length = 1 then host.whole else .transcribed .ok, windows := s.windows }) := by
    unfold attachmentAudioAugment
    rw [counted, windows_length]
    dsimp only
    rw [if_neg (Nat.succ_ne_zero _)]
    by_cases single : s.extra = 0
    · rw [if_pos (by omega), if_pos (by omega), windows_single single]
      exact ⟨List.prefix_refl _, fun _ => rfl⟩
    · obtain ⟨begun, through⟩ := @window_loop_rest host s second small bounded s.extra 0 0 (Nat.zero_add _)
      rw [Nat.zero_mul, rest_zero] at begun through
      rw [if_neg (by omega), if_neg (by omega)]
      exact ⟨begun, through⟩
  exact ⟨windows_length.trans counted.symm, covers, run.1, run.2⟩

-- Each recording that is not empty and whose windows can be counted is gone through in so many windows, one behind the
-- other and over each of its frames; of the others no window is begun. A file that is made for a window is that window.
theorem recording_covered (host : Host) (configured : Option Nat) (total : Nat) (small : total < 2 ^ 63) :
    let window := audioTranscriptWindowFrames configured
    (audioTranscriptWindowCount total window = 0 ↔ total = 0 ∨ window + (intMax - 1) * (window - overlapFrames) < total) ∧
    (audioTranscriptWindowCount total window = 0 →
      attachmentAudioAugment host total window = { exit := .transcribed .prepareFailed, windows := [] }) ∧
    (0 < audioTranscriptWindowCount total window → ∃ plan, Planned host total window plan ∧
      ∀ frames ∈ plan, ∀ disk source wav file, audioWavWindowCreate disk source wav frames = some (some file) →
        Holds source wav frames file) := by
  intro window
  obtain ⟨wide, bounded⟩ := frames_bounds configured
  refine ⟨?_, fun none_ => if_pos none_, fun counted => ?_⟩
  · rcases Nat.eq_zero_or_pos total with rfl | some_
    · exact ⟨fun _ => .inl rfl, fun _ => if_pos (.inl rfl)⟩
    let s : Strip := { total, width := window, overlap := overlapFrames, some_, narrow := wide }
    have count : audioTranscriptWindowCount total window = if s.extra < intMax then s.extra + 1 else 0 := count_eq (s := s) rfl
    have few : s.extra ≤ intMax - 1 ↔ total ≤ window + (intMax - 1) * (window - overlapFrames) := extra_le
    have most : intMax = 2147483647 := rfl
    rw [count]
    split <;> omega
  · have some_ : 0 < total := by
      rcases Nat.eq_zero_or_pos total with rfl | some_
      · exact absurd counted (Nat.lt_irrefl 0)
      · exact some_
    let s : Strip := { total, width := window, overlap := overlapFrames, some_, narrow := wide }
    have fits : s.extra < intMax := by
      have count : audioTranscriptWindowCount total window = if s.extra < intMax then s.extra + 1 else 0 := count_eq (s := s) rfl
      by_contra many
      rw [count, if_neg many] at counted
      exact Nat.lt_irrefl 0 counted
    refine ⟨s.windows, augment_planned host s rfl small (Nat.lt_of_le_of_lt bounded (by decide)) fits, ?_⟩
    intro frames is disk source wav file made
    obtain ⟨i, -, rfl⟩ := window_mem.mp is
    have narrow : (s.window i).last - (s.window i).first ≤ window := by
      have most : (s.window i).last ≤ i * s.step + window := Nat.min_le_left _ _
      change (s.window i).last - i * s.step ≤ window
      omega
    exact window_created (Nat.le_trans narrow bounded) made

def steady : Host :=
  { cancelled := fun _ => false, work := fun _ _ => none, whole := .transcribed .ok }

-- A recording that ends with its second window.
theorem recording_covered_twice : ∃ plan, plan.length = 2 ∧ Covers 304000 overlapFrames plan ∧
    (attachmentAudioAugment steady 304000 (audioTranscriptWindowFrames (some 10))).windows = plan := by
  have two : audioTranscriptWindowCount 304000 (audioTranscriptWindowFrames (some 10)) = 2 := by decide
  obtain ⟨-, -, planned⟩ := recording_covered steady (some 10) 304000 (by decide)
  obtain ⟨plan, ⟨counted, covers, -, through⟩, -⟩ := planned (by rw [two]; decide)
  exact ⟨plan, counted.trans two, covers, congrArg Run.windows (through ⟨fun _ => rfl, fun _ _ => rfl⟩)⟩

-- A recording of more windows than an int counts is refused as one that has none.
theorem long_recording_uncovered : 2 ^ 62 < 2 ^ 63 ∧
    audioTranscriptWindowCount (2 ^ 62) (audioTranscriptWindowFrames (some 10)) = 0 ∧
    ¬Covers (2 ^ 62) overlapFrames (attachmentAudioAugment steady (2 ^ 62) (audioTranscriptWindowFrames (some 10))).windows := by
  have none_ : audioTranscriptWindowCount (2 ^ 62) (audioTranscriptWindowFrames (some 10)) = 0 := by decide
  refine ⟨by decide, none_, fun covers => ?_⟩
  unfold attachmentAudioAugment at covers
  rw [none_] at covers
  obtain ⟨window, is, -⟩ := (covers.union 0).mp (by decide)
  cases is

end SamosaChat.Windows
