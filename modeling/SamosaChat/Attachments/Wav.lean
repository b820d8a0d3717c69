import SamosaChat.Lib.Riff

set_option autoImplicit false

namespace SamosaChat.Wav

open Utf8 Text Riff

structure Available where
  bytes : Bytes
  small : bytes.length < 2 ^ 63

inductive Stop
  | outside
  | fuel
deriving DecidableEq

-- A size_t or a uint64_t.
def word (n : Nat) : Nat :=
  n % 2 ^ 64

def readAt (data : Bytes) (i : Nat) : Except Stop Nat :=
  if i < data.length then .ok (byteAt data i) else .error .outside

def attachmentLe16 (data : Bytes) (p : Nat) : Except Stop Nat := do
  let a ← readAt data p
  let b ← readAt data (p + 1)
  return a ||| b <<< 8

def attachmentLe32 (data : Bytes) (p : Nat) : Except Stop Nat := do
  let a ← readAt data p
  let b ← readAt data (p + 1)
  let c ← readAt data (p + 2)
  let d ← readAt data (p + 3)
  return a ||| b <<< 8 ||| c <<< 16 ||| d <<< 24

def sameTag (data : Bytes) (p : Nat) (name : String) : Except Stop Bool :=
  if p + 4 ≤ data.length then .ok (tag data p == utf8 name) else .error .outside

structure WavInfo where
  format : Nat
  channels : Nat
  bitsPerSample : Nat
  sampleRate : Nat
  dataBytes : Nat
  dataOffset : Nat
deriving DecidableEq

def WavInfo.zero : WavInfo :=
  { format := 0, channels := 0, bitsPerSample := 0, sampleRate := 0, dataBytes := 0, dataOffset := 0 }

structure Scan where
  info : WavInfo
  haveFmt : Bool

inductive Turn
  | refuse
  | found (scan : Scan)
  | on (at_ : Nat) (scan : Scan)

def move (data : Bytes) (next : Nat) (scan : Scan) : Turn :=
  if next > data.length then .refuse else .on next scan

def readFormat (data : Bytes) (payload : Nat) (info : WavInfo) : Except Stop WavInfo := do
  let format ← attachmentLe16 data payload
  let channels ← attachmentLe16 data (word (payload + 2))
  let sampleRate ← attachmentLe32 data (word (payload + 4))
  let bitsPerSample ← attachmentLe16 data (word (payload + 14))
  return { info with format, channels, sampleRate, bitsPerSample }

def chunkTurn (data : Bytes) (total riffEnd at_ : Nat) (scan : Scan) : Except Stop Turn := do
  let chunkBytes ← attachmentLe32 data (at_ + 4)
  let payload := word (at_ + 8)
  let next := word (payload + chunkBytes + (chunkBytes &&& 1))
  if next > riffEnd then return .refuse
  else if ← sameTag data at_ "fmt " then
    if chunkBytes < 16 ∨ word (payload + 16) > data.length then return .refuse
    else
      let info ← readFormat data payload scan.info
      return move data next { info, haveFmt := true }
  else if ← sameTag data at_ "data" then
    if chunkBytes = 0 ∨ word (payload + chunkBytes) > total then return .refuse
    else return .found { scan with info := { scan.info with dataBytes := chunkBytes, dataOffset := payload } }
  else return move data next scan

def chunkLoop : Nat → Bytes → Nat → Nat → Nat → Scan → Except Stop (Option Scan)
  | 0, _, _, _, _, _ => .error .fuel
  | fuel + 1, data, total, riffEnd, at_, scan =>
    if word (at_ + 8) ≤ data.length then
      (chunkTurn data total riffEnd at_ scan).bind fun turn =>
        match turn with
        | .refuse => .ok none
        | .found scan => .ok (some scan)
        | .on at_ scan => chunkLoop fuel data total riffEnd at_ scan
    else .ok none

-- duration_seconds over four hours: the quotient by 32000 is above 14400.0 exactly when the bytes are above their product.
def tooLong (info : WavInfo) : Bool :=
  info.dataBytes > 14400 * 32000

def admits (scan : Scan) : Bool :=
  scan.haveFmt && scan.info.format == 1 && scan.info.channels == 1 && scan.info.sampleRate == 16000 &&
    scan.info.bitsPerSample == 16 && scan.info.dataBytes % 2 == 0 && !tooLong scan.info

def attachmentPcmWavInfo (data : Available) (total : Nat) : Except Stop (Option WavInfo) := do
  if data.bytes.length < 12 ∨ total < 44 then return none
  else if !(← sameTag data.bytes 0 "RIFF") then return none
  else if !(← sameTag data.bytes 8 "WAVE") then return none
  else
    let riffEnd := word ((← attachmentLe32 data.bytes 4) + 8)
    if riffEnd > total ∨ riffEnd < 44 then return none
    else
      let found ← chunkLoop (data.bytes.length + 1) data.bytes total riffEnd 12 { info := .zero, haveFmt := false }
      return found.bind fun scan => if admits scan then some scan.info else none

section Reads

variable {data : Bytes}

theorem read_ok {i : Nat} (inside : i < data.length) : readAt data i = .ok (byteAt data i) :=
  if_pos inside

theorem join16 {a b : Nat} (low : a < 2 ^ 8) : a ||| b <<< 8 = a + 256 * b := by
  rw [Nat.or_comm, Nat.shiftLeft_eq, Nat.mul_comm, ← Nat.two_pow_add_eq_or_of_lt low]
  omega

theorem le16_ok {p : Nat} (inside : p + 2 ≤ data.length) : attachmentLe16 data p = .ok (le16 data p) := by
  unfold attachmentLe16 le16
  rw [read_ok (by omega), read_ok (by omega), ← join16 (byte_at_small data p)]
  rfl

theorem join32 {a b c d : Nat} (first : a < 256) (second : b < 256) (third : c < 256) :
    a ||| b <<< 8 ||| c <<< 16 ||| d <<< 24 = a + 256 * b + 65536 * c + 16777216 * d := by
  have two : a ||| b <<< 8 = a + 256 * b := join16 first
  have three : (a + 256 * b) ||| c <<< 16 = a + 256 * b + 65536 * c := by
    rw [Nat.or_comm, Nat.shiftLeft_eq, Nat.mul_comm, ← Nat.two_pow_add_eq_or_of_lt (by omega)]
    omega
  have four : (a + 256 * b + 65536 * c) ||| d <<< 24 = a + 256 * b + 65536 * c + 16777216 * d := by
    rw [Nat.or_comm, Nat.shiftLeft_eq, Nat.mul_comm, ← Nat.two_pow_add_eq_or_of_lt (by omega)]
    omega
  rw [two, three, four]

theorem le32_ok {p : Nat} (inside : p + 4 ≤ data.length) : attachmentLe32 data p = .ok (le32 data p) := by
  unfold attachmentLe32 le32
  rw [read_ok (by omega), read_ok (by omega), read_ok (by omega), read_ok (by omega),
    ← join32 (byte_at_small data p) (byte_at_small data (p + 1)) (byte_at_small data (p + 2))]
  rfl

theorem same_tag_ok {p : Nat} {name : String} (inside : p + 4 ≤ data.length) :
    sameTag data p name = .ok (tag data p == utf8 name) :=
  if_pos inside

theorem word_small {n : Nat} (small : n < 2 ^ 64) : word n = n :=
  Nat.mod_eq_of_lt small

end Reads

section Turns

variable {data : Bytes} {total riffEnd at_ : Nat} {scan : Scan}

structure Formatted (data : Bytes) (chunk : Nat) (info : WavInfo) : Prop where
  named : tag data chunk = utf8 "fmt "
  sized : 16 ≤ size data chunk
  format : info.format = le16 data (chunk + 8)
  channels : info.channels = le16 data (chunk + 10)
  sampleRate : info.sampleRate = le32 data (chunk + 12)
  bitsPerSample : info.bitsPerSample = le16 data (chunk + 22)

theorem read_format {payload : Nat} {info : WavInfo} (inside : payload + 16 ≤ data.length) (small : data.length < 2 ^ 63) :
    readFormat data payload info = .ok
      { info with
        format := le16 data payload
        channels := le16 data (payload + 2)
        sampleRate := le32 data (payload + 4)
        bitsPerSample := le16 data (payload + 14) } := by
  unfold readFormat
  rw [word_small (by omega), word_small (by omega), word_small (by omega), le16_ok (by omega), le16_ok (by omega),
    le32_ok (by omega), le16_ok (by omega)]
  rfl

def turnSpec (data : Bytes) (total riffEnd at_ : Nat) (scan : Scan) : Turn :=
  if next data at_ > riffEnd then .refuse
  else if tag data at_ = utf8 "fmt " then
    if size data at_ < 16 ∨ at_ + 24 > data.length then .refuse
    else
      move data (next data at_)
        { info :=
            { scan.info with
              format := le16 data (at_ + 8)
              channels := le16 data (at_ + 10)
              sampleRate := le32 data (at_ + 12)
              bitsPerSample := le16 data (at_ + 22) }
          haveFmt := true }
  else if tag data at_ = utf8 "data" then
    if size data at_ = 0 ∨ at_ + 8 + size data at_ > total then .refuse
    else .found { scan with info := { scan.info with dataBytes := size data at_, dataOffset := at_ + 8 } }
  else move data (next data at_) scan

theorem chunk_turn_eq (header : at_ + 8 ≤ data.length) (small : data.length < 2 ^ 63) :
    chunkTurn data total riffEnd at_ scan = .ok (turnSpec data total riffEnd at_ scan) := by
  have bound : size data at_ < 2 ^ 32 := le32_small data (at_ + 4)
  have odd : size data at_ &&& 1 = size data at_ % 2 := Nat.and_one_is_mod _
  have sized : le32 data (at_ + 4) = size data at_ := rfl
  have payload : word (at_ + 8) = at_ + 8 := word_small (by omega)
  have behind : word (at_ + 8 + size data at_ + size data at_ % 2) = next data at_ := word_small (by omega)
  have fields : word (at_ + 8 + 16) = at_ + 24 := word_small (by omega)
  have extent : word (at_ + 8 + size data at_) = at_ + 8 + size data at_ := word_small (by omega)
  unfold chunkTurn turnSpec
  rw [le32_ok (by omega), same_tag_ok (by omega), same_tag_ok (by omega), sized]
  simp only [bind, Except.bind, odd]
  rw [payload, behind, fields, extent]
  by_cases far : next data at_ > riffEnd
  · rw [if_pos far, if_pos far]
    rfl
  rw [if_neg far, if_neg far]
  by_cases fmt : tag data at_ = utf8 "fmt "
  · rw [if_pos (beq_iff_eq.mpr fmt), if_pos fmt]
    by_cases cut : size data at_ < 16 ∨ at_ + 24 > data.length
    · rw [if_pos cut, if_pos cut]
      rfl
    · rw [if_neg cut, if_neg cut, read_format (by omega) small]
      rfl
  rw [if_neg (by simpa using fmt), if_neg fmt]
  by_cases isData : tag data at_ = utf8 "data"
  · rw [if_pos (beq_iff_eq.mpr isData), if_pos isData]
    by_cases cut : size data at_ = 0 ∨ at_ + 8 + size data at_ > total
    · rw [if_pos cut, if_pos cut]
      rfl
    · rw [if_neg cut, if_neg cut]
      rfl
  · rw [if_neg (by simpa using isData), if_neg isData]
    rfl

end Turns

section Walk

variable {data : Bytes} {total riffEnd : Nat}

structure Visited (data : Bytes) (at_ : Nat) (scan : Scan) : Prop where
  reached : Reaches (utf8 "data") data at_
  formatted : scan.haveFmt = true → ∃ chunk, chunk < at_ ∧ Reaches (utf8 "data") data chunk ∧ Formatted data chunk scan.info

structure Found (data : Bytes) (total riffEnd : Nat) (chunk : Nat) (scan : Scan) : Prop where
  first : FirstChunk (utf8 "data") data chunk
  bytes : scan.info.dataBytes = size data chunk
  offset : scan.info.dataOffset = chunk + 8
  total : chunk + 8 + size data chunk ≤ total
  declared : chunk + 8 + size data chunk ≤ riffEnd
  formatted : scan.haveFmt = true →
    ∃ format, format < chunk ∧ Reaches (utf8 "data") data format ∧ Formatted data format scan.info

theorem move_on {at_ behind : Nat} {scan scan' : Scan} (on : move data behind scan = .on at_ scan') :
    at_ = behind ∧ scan' = scan ∧ behind ≤ data.length := by
  unfold move at on
  obtain ⟨far, on⟩ := past_guard on nofun
  cases on
  exact ⟨rfl, rfl, Nat.le_of_not_lt far⟩

theorem turn_on {at_ at' : Nat} {scan scan' : Scan} (header : at_ + 8 ≤ data.length) (visited : Visited data at_ scan)
    (on : turnSpec data total riffEnd at_ scan = .on at' scan') : at_ < at' ∧ at' ≤ data.length ∧ Visited data at' scan' := by
  have after := next_after data at_
  have apart : utf8 "fmt " ≠ utf8 "data" := by decide
  unfold turnSpec at on
  split_ifs at on with far fmt cut isData empty
  · obtain ⟨rfl, rfl, inside⟩ := move_on on
    have other : tag data at_ ≠ utf8 "data" := by rw [fmt]; exact apart
    refine ⟨by omega, inside, visited.reached.tail ⟨header, other, rfl⟩, fun _ => ⟨at_, by omega, visited.reached, ?_⟩⟩
    exact ⟨fmt, by omega, rfl, rfl, rfl, rfl⟩
  · obtain ⟨rfl, rfl, inside⟩ := move_on on
    refine ⟨by omega, inside, visited.reached.tail ⟨header, isData, rfl⟩, fun have_ => ?_⟩
    obtain ⟨chunk, before, reached, formatted⟩ := visited.formatted have_
    exact ⟨chunk, by omega, reached, formatted⟩

theorem turn_found {at_ : Nat} {scan scan' : Scan} (header : at_ + 8 ≤ data.length) (visited : Visited data at_ scan)
    (found : turnSpec data total riffEnd at_ scan = .found scan') : Found data total riffEnd at_ scan' := by
  have after := next_after data at_
  unfold turnSpec at found
  split_ifs at found with far fmt cut isData empty
  · exact absurd found (by unfold move; split_ifs <;> exact fun same => by cases same)
  · cases found
    exact ⟨⟨visited.reached, header, isData⟩, rfl, rfl, by omega, by omega, fun have_ => by
      obtain ⟨chunk, before, reached, formatted⟩ := visited.formatted have_
      exact ⟨chunk, before, reached, ⟨formatted.named, formatted.sized, formatted.format, formatted.channels, formatted.sampleRate,
        formatted.bitsPerSample⟩⟩⟩
  · exact absurd found (by unfold move; split_ifs <;> exact fun same => by cases same)

theorem chunk_loop_step (small : data.length < 2 ^ 63) (fuel at_ : Nat) (scan : Scan) (header : at_ + 8 ≤ data.length) :
    chunkLoop (fuel + 1) data total riffEnd at_ scan =
      match turnSpec data total riffEnd at_ scan with
      | .refuse => .ok none
      | .found scan => .ok (some scan)
      | .on at_ scan => chunkLoop fuel data total riffEnd at_ scan := by
  rw [chunkLoop, word_small (by omega), if_pos header, chunk_turn_eq header small]
  rfl

theorem chunk_loop_ends (small : data.length < 2 ^ 63) (fuel : Nat) : ∀ (at_ : Nat) (scan : Scan), at_ ≤ data.length →
    data.length < at_ + fuel → Visited data at_ scan →
      ∃ out, chunkLoop fuel data total riffEnd at_ scan = .ok out ∧ ∀ scan', out = some scan' →
        ∃ chunk, Found data total riffEnd chunk scan' := by
  induction fuel with
  | zero => exact fun at_ scan inside enough => by omega
  | succ fuel ih =>
    intro at_ scan inside enough visited
    by_cases header : at_ + 8 ≤ data.length
    · rw [chunk_loop_step small fuel at_ scan header]
      cases turn : turnSpec data total riffEnd at_ scan with
      | refuse => exact ⟨none, rfl, fun scan' none_ => by cases none_⟩
      | found scan' => exact ⟨some scan', rfl, fun found same => by cases same; exact ⟨at_, turn_found header visited turn⟩⟩
      | on at' scan' =>
        obtain ⟨later, inside', visited'⟩ := turn_on header visited turn
        exact ih at' scan' inside' (by omega) visited'
    · rw [chunkLoop, word_small (by omega), if_neg header]
      exact ⟨none, rfl, fun scan' none_ => by cases none_⟩

end Walk

section Prefixes

variable {file : Bytes} {total riffEnd : Nat}

theorem turn_take {n at_ header : Nat} (scan : Scan) (there : FirstChunk (utf8 "data") file header)
    (here : Reaches (utf8 "data") file at_) (before : at_ ≤ header) (enough : header + 8 ≤ n) :
    turnSpec (file.take n) total riffEnd at_ scan = turnSpec file total riffEnd at_ scan := by
  have whole := there.2.1
  have long : header + 8 ≤ (file.take n).length := by
    rw [List.length_take]
    omega
  have apart : utf8 "fmt " ≠ utf8 "data" := by decide
  have after := next_after file at_
  unfold turnSpec
  rw [next_take (by omega), size_take (by omega), tag_take (by omega)]
  by_cases far : next file at_ > riffEnd
  · rw [if_pos far, if_pos far]
  rw [if_neg far, if_neg far]
  -- What lies in front of the data chunk ends in front of its header.
  have front (other : tag file at_ ≠ utf8 "data") : next file at_ ≤ header := by
    rcases reaches_front here there with rfl | ⟨_, inside⟩
    · exact absurd there.2.2 other
    · exact inside
  by_cases fmt : tag file at_ = utf8 "fmt "
  · rw [if_pos fmt, if_pos fmt]
    have inside := front (by rw [fmt]; exact apart)
    by_cases short : size file at_ < 16
    · rw [if_pos (.inl short), if_pos (.inl short)]
    · have room : ¬(size file at_ < 16 ∨ at_ + 24 > (file.take n).length) := by omega
      have room' : ¬(size file at_ < 16 ∨ at_ + 24 > file.length) := by omega
      rw [if_neg room, if_neg room', le16_take (by omega), le16_take (by omega), le32_take (by omega), le16_take (by omega),
        move, move, if_neg (by omega), if_neg (by omega)]
  rw [if_neg fmt, if_neg fmt]
  by_cases isData : tag file at_ = utf8 "data"
  · rw [if_pos isData, if_pos isData]
  · rw [if_neg isData, if_neg isData]
    have inside := front isData
    rw [move, move, if_neg (by omega), if_neg (by omega)]

theorem chunk_loop_take {n m header : Nat} (small : n < 2 ^ 63) (small' : m < 2 ^ 63)
    (there : FirstChunk (utf8 "data") file header) (enough : header + 8 ≤ n) (enough' : header + 8 ≤ m) (fuel : Nat) :
    ∀ (fuel' at_ : Nat) (scan : Scan), Reaches (utf8 "data") file at_ → at_ ≤ header → header < at_ + fuel → header < at_ + fuel' →
      chunkLoop fuel (file.take n) total riffEnd at_ scan = chunkLoop fuel' (file.take m) total riffEnd at_ scan := by
  induction fuel with
  | zero => exact fun fuel' at_ scan _ _ less _ => by omega
  | succ fuel ih =>
    intro fuel' at_ scan here before less less'
    obtain ⟨fuel', rfl⟩ : ∃ k, fuel' = k + 1 := ⟨fuel' - 1, by omega⟩
    have whole := there.2.1
    have length (k : Nat) (k_ : header + 8 ≤ k) : at_ + 8 ≤ (file.take k).length := by
      rw [List.length_take]
      omega
    have short (k : Nat) (k_ : k < 2 ^ 63) : (file.take k).length < 2 ^ 63 :=
      Nat.lt_of_le_of_lt (List.length_take_le k file) k_
    rw [chunk_loop_step (short n small) fuel at_ scan (length n enough),
      chunk_loop_step (short m small') fuel' at_ scan (length m enough'), turn_take scan there here before enough,
      turn_take scan there here before enough']
    cases turn : turnSpec file total riffEnd at_ scan with
    | refuse => rfl
    | found scan' => rfl
    | on at' scan' =>
      have apart : utf8 "fmt " ≠ utf8 "data" := by decide
      obtain ⟨same, other⟩ : at' = next file at_ ∧ tag file at_ ≠ utf8 "data" := by
        unfold turnSpec at turn
        split_ifs at turn with far fmt cut isData empty
        · exact ⟨(move_on turn).1, by rw [fmt]; exact apart⟩
        · exact ⟨(move_on turn).1, isData⟩
      rcases reaches_front here there with rfl | ⟨step, inside⟩
      · exact absurd there.2.2 other
      · rw [same]
        have after := next_after file at_
        exact ih fuel' (next file at_) scan' (here.tail step) inside (by omega) (by omega)

end Prefixes

structure PcmWave (data : Bytes) (total : Nat) (info : WavInfo) : Prop where
  riff : tag data 0 = utf8 "RIFF"
  wave : tag data 8 = utf8 "WAVE"
  declared : le32 data 4 + 8 ≤ total
  samples : ∃ chunk, FirstChunk (utf8 "data") data chunk ∧ info.dataBytes = size data chunk ∧ info.dataOffset = chunk + 8
  inside : info.dataOffset + info.dataBytes ≤ le32 data 4 + 8
  even : info.dataBytes % 2 = 0
  formatted : ∃ chunk, chunk < info.dataOffset ∧ Reaches (utf8 "data") data chunk ∧ Formatted data chunk info
  pcm : info.format = 1
  mono : info.channels = 1
  rate : info.sampleRate = 16000
  bits : info.bitsPerSample = 16

section Admission

variable {total : Nat}

theorem wav_head (data : Available) (enough : ¬(data.bytes.length < 12 ∨ total < 44)) :
    attachmentPcmWavInfo data total =
      if tag data.bytes 0 = utf8 "RIFF" ∧ tag data.bytes 8 = utf8 "WAVE" ∧ le32 data.bytes 4 + 8 ≤ total ∧
          44 ≤ le32 data.bytes 4 + 8 then
        (chunkLoop (data.bytes.length + 1) data.bytes total (le32 data.bytes 4 + 8) 12 { info := .zero, haveFmt := false }).map
          fun found => found.bind fun scan => if admits scan then some scan.info else none
      else .ok none := by
  have bound := le32_small data.bytes 4
  have declared : word (le32 data.bytes 4 + 8) = le32 data.bytes 4 + 8 := word_small (by omega)
  rw [attachmentPcmWavInfo, if_neg enough, same_tag_ok (by omega), same_tag_ok (by omega), le32_ok (by omega)]
  simp only [bind, Except.bind, declared]
  by_cases riff : tag data.bytes 0 = utf8 "RIFF"
  · rw [if_neg (by simp [riff])]
    by_cases wave : tag data.bytes 8 = utf8 "WAVE"
    · rw [if_neg (by simp [wave])]
      by_cases fits : le32 data.bytes 4 + 8 ≤ total ∧ 44 ≤ le32 data.bytes 4 + 8
      · rw [if_neg (by omega), if_pos ⟨riff, wave, fits⟩]
        cases chunkLoop (data.bytes.length + 1) data.bytes total (le32 data.bytes 4 + 8) 12 { info := .zero, haveFmt := false } <;> rfl
      · rw [if_pos (by omega), if_neg fun all => fits all.2.2]
        rfl
    · rw [if_pos (by simp [wave]), if_neg fun all => wave all.2.1]
      rfl
  · rw [if_pos (by simp [riff]), if_neg fun all => riff all.1]
    rfl

theorem visited_first (data : Bytes) : Visited data 12 { info := .zero, haveFmt := false } :=
  ⟨.refl, fun have_ => by cases have_⟩

theorem admits_iff {scan : Scan} : admits scan = true ↔
    scan.haveFmt = true ∧ scan.info.format = 1 ∧ scan.info.channels = 1 ∧ scan.info.sampleRate = 16000 ∧
      scan.info.bitsPerSample = 16 ∧ scan.info.dataBytes % 2 = 0 ∧ tooLong scan.info = false := by
  simp [admits, and_assoc]

theorem wav_settles (data : Available) : ∃ found, attachmentPcmWavInfo data total = .ok found ∧
    ∀ info, found = some info → PcmWave data.bytes total info := by
  by_cases short : data.bytes.length < 12 ∨ total < 44
  · refine ⟨none, ?_, fun info none_ => by cases none_⟩
    rw [attachmentPcmWavInfo, if_pos short]
    rfl
  rw [wav_head data short]
  by_cases form : tag data.bytes 0 = utf8 "RIFF" ∧ tag data.bytes 8 = utf8 "WAVE" ∧ le32 data.bytes 4 + 8 ≤ total ∧
      44 ≤ le32 data.bytes 4 + 8
  · obtain ⟨out, ended, sound⟩ := @chunk_loop_ends data.bytes total (le32 data.bytes 4 + 8) data.small
      (data.bytes.length + 1) 12 { info := .zero, haveFmt := false } (by omega) (by omega) (visited_first data.bytes)
    rw [if_pos form, ended]
    refine ⟨_, rfl, fun info accepted => ?_⟩
    obtain ⟨scan, found, admitted⟩ := Option.bind_eq_some_iff.mp accepted
    obtain ⟨taken, admitted⟩ := within_guard admitted nofun
    cases admitted
    obtain ⟨chunk, found⟩ := sound scan found
    obtain ⟨have_, pcm, mono, rate, bits, even, _⟩ := admits_iff.mp taken
    obtain ⟨format, before, reached, formatted⟩ := found.formatted have_
    have declared := found.declared
    rw [← found.bytes, ← found.offset] at declared
    exact ⟨form.1, form.2.1, form.2.2.1, ⟨chunk, found.first, found.bytes, found.offset⟩, declared, even,
      ⟨format, by rw [found.offset]; omega, reached, formatted⟩, pcm, mono, rate, bits⟩
  · rw [if_neg form]
    exact ⟨none, rfl, fun info none_ => by cases none_⟩

theorem wav_take {file : Bytes} {header : Nat} (there : FirstChunk (utf8 "data") file header) {data data' : Available}
    (front : data.bytes <+: file) (front' : data'.bytes <+: file) (enough : header + 8 ≤ data.bytes.length)
    (enough' : header + 8 ≤ data'.bytes.length) : attachmentPcmWavInfo data total = attachmentPcmWavInfo data' total := by
  have whole := there.2.1
  have later := reaches_later there.1
  by_cases tiny : total < 44
  · rw [attachmentPcmWavInfo, attachmentPcmWavInfo, if_pos (.inr tiny), if_pos (.inr tiny)]
  have same := List.prefix_iff_eq_take.mp front
  have same' := List.prefix_iff_eq_take.mp front'
  have loops := @chunk_loop_take file total (le32 file 4 + 8) data.bytes.length data'.bytes.length header data.small data'.small
    there enough enough' (data.bytes.length + 1) (data'.bytes.length + 1) 12 { info := .zero, haveFmt := false } .refl later
    (by omega) (by omega)
  rw [wav_head data (by omega), wav_head data' (by omega)]
  have riff {bytes : Bytes} (cut : bytes = file.take bytes.length) (room : header + 8 ≤ bytes.length) :
      tag bytes 0 = tag file 0 ∧ tag bytes 8 = tag file 8 ∧ le32 bytes 4 = le32 file 4 := by
    rw [cut]
    exact ⟨tag_take (by omega), tag_take (by omega), le32_take (by omega)⟩
  obtain ⟨first, second, third⟩ := riff same enough
  obtain ⟨first', second', third'⟩ := riff same' enough'
  rw [first, second, third, first', second', third']
  rw [← same, ← same'] at loops
  rw [loops]

end Admission

-- The parser ends inside the bytes that are there. What it accepts is a WAV file of the one format, with its samples in
-- the declared size; and two prefixes of a file that hold the header of its data chunk are judged alike.
theorem wav_admission (total : Nat) :
    (∀ data : Available, ∃ found, attachmentPcmWavInfo data total = .ok found ∧
      ∀ info, found = some info → PcmWave data.bytes total info) ∧
    ∀ (file : Bytes) (header : Nat), FirstChunk (utf8 "data") file header → ∀ data data' : Available,
      data.bytes <+: file → data'.bytes <+: file → header + 8 ≤ data.bytes.length → header + 8 ≤ data'.bytes.length →
        attachmentPcmWavInfo data total = attachmentPcmWavInfo data' total :=
  ⟨wav_settles, fun _ _ there _ _ front front' enough enough' => wav_take there front front' enough enough'⟩

def shortWav : Bytes :=
  utf8 "RIFF" ++ [38, 0, 0, 0] ++ utf8 "WAVEfmt " ++
    [16, 0, 0, 0, 1, 0, 1, 0, 0x80, 0x3e, 0, 0, 0, 0x7d, 0, 0, 2, 0, 16, 0] ++ utf8 "data" ++ [2, 0, 0, 0, 7, 0]

def shortInfo : WavInfo :=
  { format := 1, channels := 1, bitsPerSample := 16, sampleRate := 16000, dataBytes := 2, dataOffset := 44 }

-- The whole file, and its first bytes up to the samples.
theorem wav_admission_short : PcmWave shortWav 46 shortInfo ∧
    attachmentPcmWavInfo ⟨shortWav.take 44, by decide⟩ 46 = .ok (some shortInfo) := by
  have whole : attachmentPcmWavInfo ⟨shortWav, by decide⟩ 46 = .ok (some shortInfo) := by decide
  have header : FirstChunk (utf8 "data") shortWav 36 :=
    ⟨Relation.ReflTransGen.refl.tail ⟨by decide, by decide, by decide⟩, by decide, by decide⟩
  obtain ⟨found, read, sound⟩ := (wav_admission 46).1 ⟨shortWav, by decide⟩
  rw [whole] at read
  cases read
  refine ⟨sound shortInfo rfl, ?_⟩
  rw [← whole]
  exact (wav_admission 46).2 shortWav 36 header ⟨shortWav.take 44, by decide⟩ ⟨shortWav, by decide⟩ (List.take_prefix _ _)
    (List.prefix_refl _) (by decide) (by decide)

end SamosaChat.Wav
