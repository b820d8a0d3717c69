import SamosaChat.Durable.SmallFile
import SamosaChat.Json.Assign

set_option autoImplicit false

namespace SamosaChat.Settings

open Utf8 Text Binary64 Decimal FloatText Json
open Durable

def configMax : Nat := 1 <<< 20

def runtimeContextMax : Nat := 262144

def intMax : Nat := 2 ^ 31 - 1

instance neZeroInt : NeZero (2 ^ 31) := ⟨by decide⟩

def toInt (num : Double) : Option (Fin (2 ^ 31)) :=
  (natural num).bind fun number => if inside : number < 2 ^ 31 then some ⟨number, inside⟩ else none

-- "auto" or an int, of those that are not negative.
inductive Spec
  | auto
  | count (number : Fin (2 ^ 31))
deriving DecidableEq

structure RuntimeConfig where
  cpu : Spec
  context : Spec
  autoCompact : Bool
  threshold : Fin (2 ^ 31)
deriving DecidableEq

def runtimeConfigDefaults : RuntimeConfig where
  cpu := .auto
  context := .auto
  autoCompact := true
  threshold := 80

inductive SpecRead
  | absent
  | malformed
  | read (spec : Spec)

def runtimeSpecRead (value : Option Jval) (maximum : Nat) : SpecRead :=
  match value with
  | none => .absent
  | some (.str str) => if str = utf8 "auto" then .read .auto else .malformed
  | some (.num num) =>
    match toInt num with
    | some number => if 1 ≤ number.val ∧ number.val ≤ maximum then .read (.count number) else .malformed
    | none => .malformed
  | some _ => .malformed

def configRoot (calls : EventCalls) (file : Option Bytes) : Option Members :=
  (readFileLimit calls configMax file).bind fun raw =>
    match parsed raw with
    | some (.obj fields) => some fields
    | _ => none

def member? (value : Option Jval) (key : Bytes) : Option Jval :=
  value.bind fun o => jsonGet o key

def readCpu (value : Option Jval) : Spec :=
  match runtimeSpecRead value intMax with
  | .read spec => spec
  | _ => runtimeConfigDefaults.cpu

def readContext (value : Option Jval) : Spec :=
  match runtimeSpecRead value runtimeContextMax with
  | .read .auto => .auto
  | .read (.count number) => if 2 ≤ number.val then .count number else runtimeConfigDefaults.context
  | _ => runtimeConfigDefaults.context

def readCompact (value : Option Jval) : Bool :=
  match value with
  | some (.bool boolean) => boolean
  | _ => runtimeConfigDefaults.autoCompact

def readThreshold (value : Option Jval) : Fin (2 ^ 31) :=
  match value with
  | some (.num num) =>
    match toInt num with
    | some number => if 50 ≤ number.val ∧ number.val ≤ 90 then number else runtimeConfigDefaults.threshold
    | none => runtimeConfigDefaults.threshold
  | _ => runtimeConfigDefaults.threshold

def readConfig (cpu model : Option Jval) : RuntimeConfig where
  cpu := readCpu cpu
  context := readContext (member? model (utf8 "context_tokens"))
  autoCompact := readCompact (member? model (utf8 "auto_compact"))
  threshold := readThreshold (member? model (utf8 "compact_threshold_percent"))

def runtimeConfigLoad (root : Option Members) (backend : Bytes) : RuntimeConfig :=
  let runtime := member? (root.map Jval.obj) (utf8 "runtime")
  readConfig (member? runtime (utf8 "cpu_threads")) (member? (member? runtime (utf8 "models")) backend)

def specText : Spec → Bytes
  | .auto => quoted (utf8 "auto")
  | .count number => decimal number.val

def modelText (config : RuntimeConfig) : Bytes :=
  utf8 "\x7b\"context_tokens\":" ++ specText config.context ++ utf8 ",\"auto_compact\":" ++
    utf8 (if config.autoCompact then "true" else "false") ++ utf8 ",\"compact_threshold_percent\":" ++
    decimal config.threshold.val ++ utf8 "\x7d"

def runtimeConfigText (root : Option Members) (backend : Bytes) (config : RuntimeConfig) : Bytes :=
  let fields := root.getD []
  let oldRuntime := children fields (utf8 "runtime")
  let oldModels := children oldRuntime (utf8 "models")
  object ((without [utf8 "runtime"] fields).map fieldText ++
    [member "runtime"
      (object ((without [utf8 "cpu_threads", utf8 "models"] oldRuntime).map fieldText ++
        [member "cpu_threads" (specText config.cpu), member "models"
            (object ((without [backend] oldModels).map fieldText ++ [quoted backend ++ 0x3a :: modelText config]))]))]) ++
    [newline]

def webConsentText (root : Option Members) (verdict : Bytes) : Bytes :=
  let fields := root.getD []
  let search := children fields (utf8 "search")
  object ((without [utf8 "search"] fields).map fieldText ++
    [member "search"
      (object ((without [utf8 "consent"] search).map fieldText ++ [member "consent" (quoted verdict)]))]) ++
    [newline]

inductive Consent
  | unset
  | granted
  | denied
deriving DecidableEq

def verdictText : Bool → Bytes
  | true => utf8 "granted"
  | false => utf8 "denied"

-- web_config_load, as far as the consent goes.
def webConsentLoad (root : Option Members) : Consent :=
  match member? (member? (root.map Jval.obj) (utf8 "search")) (utf8 "consent") with
  | some (.str str) => if str = utf8 "granted" then .granted else if str = utf8 "denied" then .denied else .unset
  | _ => .unset

section Trees

variable {backend : Bytes} {config : RuntimeConfig} {fields : Members}

def intValue (number : Fin (2 ^ 31)) : Jval :=
  .num (integer false number.val (by omega))

def specValue : Spec → Jval
  | .auto => .str (utf8 "auto")
  | .count number => intValue number

def modelValue (config : RuntimeConfig) : Jval :=
  record [("context_tokens", specValue config.context), ("auto_compact", .bool config.autoCompact),
    ("compact_threshold_percent", intValue config.threshold)]

def saved (backend : Bytes) (config : RuntimeConfig) (fields : Members) : Members :=
  assign [utf8 "runtime", utf8 "models", backend] (modelValue config)
    (assign [utf8 "runtime", utf8 "cpu_threads"] (specValue config.cpu) fields)

def consented (granted : Bool) (fields : Members) : Members :=
  assign [utf8 "search", utf8 "consent"] (.str (verdictText granted)) fields

theorem int_text (number : Fin (2 ^ 31)) : decimal number.val = written (intValue number) := by
  have small : number.val < 10 ^ 17 := by omega
  rw [intValue, written, integer, format, if_neg Bool.false_ne_true, format_integer small]

theorem spec_text (spec : Spec) : specText spec = written (specValue spec) := by
  cases spec with
  | auto => exact (written_quoted _).symm
  | count number => exact int_text number

theorem model_members (context threshold : Jval) (compact : Bool) :
    utf8 "\x7b\"context_tokens\":" ++ written context ++ utf8 ",\"auto_compact\":" ++
        utf8 (if compact then "true" else "false") ++ utf8 ",\"compact_threshold_percent\":" ++ written threshold ++
        utf8 "\x7d" = written (record [("context_tokens", context), ("auto_compact", .bool compact),
        ("compact_threshold_percent", threshold)]) := by
  have first : utf8 "\x7b\"context_tokens\":" = 0x7b :: 0x22 :: escaped (utf8 "context_tokens") ++ [0x22, 0x3a] := by
    decide
  have second : utf8 ",\"auto_compact\":" = 0x2c :: 0x22 :: escaped (utf8 "auto_compact") ++ [0x22, 0x3a] := by
    decide
  have third : utf8 ",\"compact_threshold_percent\":" =
      0x2c :: 0x22 :: escaped (utf8 "compact_threshold_percent") ++ [0x22, 0x3a] := by decide
  have close : utf8 "\x7d" = [0x7d] := by decide
  rw [first, second, third, close, record]
  simp only [written, writtenFields, List.map_cons, List.map_nil, if_true, if_false, Bool.false_eq_true,
    List.append_assoc, List.cons_append, List.nil_append, List.append_nil]

theorem model_text (config : RuntimeConfig) : modelText config = written (modelValue config) := by
  rw [modelText, spec_text, int_text, model_members, modelValue]

theorem object_snoc (fields : Members) (key : Bytes) (value : Jval) :
    object (fields.map fieldText ++ [quoted key ++ 0x3a :: written value]) = written (.obj (fields ++ [(key, value)])) := by
  rw [← object_text, List.map_append]
  rfl

theorem object_two (fields : Members) (key key' : Bytes) (value value' : Jval) :
    object (fields.map fieldText ++ [quoted key ++ 0x3a :: written value, quoted key' ++ 0x3a :: written value']) =
      written (.obj (fields ++ [(key, value), (key', value')])) := by
  rw [← object_text, List.map_append]
  rfl

theorem runtime_text_eq (root : Option Members) (backend : Bytes) (config : RuntimeConfig) :
    runtimeConfigText root backend config = written (.obj (saved backend config (root.getD []))) ++ [newline] := by
  have different : utf8 "models" ≠ utf8 "cpu_threads" := by decide
  have both : ∀ (runtime : Members) (cpu models : Jval),
      put (utf8 "models") models (put (utf8 "cpu_threads") cpu runtime) =
        without [utf8 "cpu_threads", utf8 "models"] runtime ++ [(utf8 "cpu_threads", cpu), (utf8 "models", models)] := by
    intro runtime cpu models
    have kept : without [utf8 "models"] [(utf8 "cpu_threads", cpu)] = [(utf8 "cpu_threads", cpu)] :=
      List.filter_cons_of_pos (by simpa using different.symm)
    have twice : without [utf8 "models"] (without [utf8 "cpu_threads"] runtime) =
        without [utf8 "cpu_threads", utf8 "models"] runtime := by
      unfold without
      rw [List.filter_filter]
      apply List.filter_congr
      intro field _
      simp only [List.mem_cons, List.not_mem_nil, or_false, not_or, Bool.decide_and, Bool.and_comm]
    rw [put, put]
    unfold without at kept twice ⊢
    rw [List.filter_append, kept, twice, List.append_assoc, List.singleton_append]
  rw [saved, assign, assign, assign, assign, assign, children_put, children_put_other different, put_put, both]
  rw [runtimeConfigText, member, member, member, spec_text, model_text, object_snoc, object_two, object_snoc]
  rfl

theorem consent_text_eq (root : Option Members) (granted : Bool) :
    webConsentText root (verdictText granted) = written (.obj (consented granted (root.getD []))) ++ [newline] := by
  rw [consented, assign, assign, webConsentText, member, member, ← written_quoted (verdictText granted), object_snoc, object_snoc]
  rfl

-- The settings that the writers make: those that a request has been checked for, or that were loaded.
structure RuntimeConfig.Valid (config : RuntimeConfig) : Prop where
  cpu : ∀ number, config.cpu = .count number → 1 ≤ number.val
  context : ∀ number, config.context = .count number → 2 ≤ number.val ∧ number.val ≤ runtimeContextMax
  threshold : 50 ≤ config.threshold.val ∧ config.threshold.val ≤ 90

theorem to_int_value (number : Fin (2 ^ 31)) (small : number.val ≤ 2 ^ 53) :
    toInt (integer false number.val small) = some number := by
  rw [toInt, natural_integer, Option.bind_some, dif_pos number.isLt]

theorem spec_read_value (spec : Spec) {maximum : Nat}
    (range : ∀ number, spec = .count number → 1 ≤ number.val ∧ number.val ≤ maximum) :
    runtimeSpecRead (some (specValue spec)) maximum = .read spec := by
  cases spec with
  | auto => rw [specValue, runtimeSpecRead, if_pos rfl]
  | count number =>
    rw [specValue, intValue, runtimeSpecRead, to_int_value]
    exact if_pos (range number rfl)

theorem model_member (config : RuntimeConfig) (key : String) : member? (some (modelValue config)) (utf8 key) =
      [("context_tokens", specValue config.context), ("auto_compact", .bool config.autoCompact),
        ("compact_threshold_percent", intValue config.threshold)].lookup key := by
  rw [member?, Option.bind_some, modelValue, get_record]

theorem read_cpu_value (valid : config.Valid) : readCpu (some (specValue config.cpu)) = config.cpu := by
  have range : ∀ number, config.cpu = .count number → 1 ≤ number.val ∧ number.val ≤ intMax :=
    fun number same => ⟨valid.cpu number same, Nat.le_sub_one_of_lt number.isLt⟩
  rw [readCpu, spec_read_value config.cpu range]

theorem read_context_value (valid : config.Valid) : readContext (some (specValue config.context)) = config.context := by
  have range : ∀ number, config.context = .count number → 1 ≤ number.val ∧ number.val ≤ runtimeContextMax :=
    fun number same => ⟨(Nat.le_succ 1).trans (valid.context number same).1, (valid.context number same).2⟩
  rw [readContext, spec_read_value config.context range]
  cases context : config.context with
  | auto => rfl
  | count number => exact if_pos (valid.context number context).1

theorem read_threshold_value (number : Fin (2 ^ 31)) (range : 50 ≤ number.val ∧ number.val ≤ 90) :
    readThreshold (some (intValue number)) = number := by
  rw [intValue, readThreshold, to_int_value]
  exact if_pos range

theorem read_saved (valid : config.Valid) : readConfig (some (specValue config.cpu)) (some (modelValue config)) = config := by
  have context : member? (some (modelValue config)) (utf8 "context_tokens") = some (specValue config.context) := by
    rw [model_member]
    rfl
  have compact : member? (some (modelValue config)) (utf8 "auto_compact") = some (.bool config.autoCompact) := by
    rw [model_member]
    rfl
  have threshold : member? (some (modelValue config)) (utf8 "compact_threshold_percent") =
      some (intValue config.threshold) := by
    rw [model_member]
    rfl
  rw [readConfig, context, compact, threshold, read_cpu_value valid, read_context_value valid,
    read_threshold_value _ valid.threshold, readCompact]

theorem runtime_load_eq (fields : Members) (backend : Bytes) : runtimeConfigLoad (some fields) backend =
      readConfig (lookup [utf8 "runtime", utf8 "cpu_threads"] (.obj fields))
        (lookup [utf8 "runtime", utf8 "models", backend] (.obj fields)) := by
  simp only [runtimeConfigLoad, member?, Option.map_some, Option.bind_some, lookup, Option.bind_assoc, Option.bind_fun_some]

theorem consent_load_eq (fields : Members) :
    webConsentLoad (some fields) =
      match lookup [utf8 "search", utf8 "consent"] (.obj fields) with
      | some (.str str) => if str = utf8 "granted" then .granted else if str = utf8 "denied" then .denied else .unset
      | _ => .unset := by
  simp only [webConsentLoad, member?, Option.map_some, Option.bind_some, lookup, Option.bind_fun_some]

theorem int_writable (number : Fin (2 ^ 31)) : Writable (intValue number) :=
  ⟨false, _, rfl⟩

theorem spec_writable (spec : Spec) : Writable (specValue spec) := by
  cases spec with
  | auto => exact literal_text (by decide)
  | count number => exact int_writable number

theorem model_writable (config : RuntimeConfig) : Writable (modelValue config) := by
  have context : StringText (utf8 "context_tokens") := literal_text (by decide)
  have compact : StringText (utf8 "auto_compact") := literal_text (by decide)
  have threshold : StringText (utf8 "compact_threshold_percent") := literal_text (by decide)
  exact ⟨context, spec_writable config.context, compact, trivial, threshold, int_writable config.threshold, trivial⟩

theorem saved_writable (string : StringText backend) (writable : WritableFields fields) :
    WritableFields (saved backend config fields) := by
  apply writable_assign _ (model_writable config)
  · apply writable_assign _ (spec_writable config.cpu) writable
    intro key inside
    simp only [List.mem_cons, List.not_mem_nil, or_false] at inside
    rcases inside with rfl | rfl <;> exact literal_text (by decide)
  · intro key inside
    simp only [List.mem_cons, List.not_mem_nil, or_false] at inside
    rcases inside with rfl | rfl | rfl
    · exact literal_text (by decide)
    · exact literal_text (by decide)
    · exact string

theorem consented_writable (granted : Bool) (writable : WritableFields fields) : WritableFields (consented granted fields) := by
  apply writable_assign _ _ writable
  · intro key inside
    simp only [List.mem_cons, List.not_mem_nil, or_false] at inside
    rcases inside with rfl | rfl <;> exact literal_text (by decide)
  · cases granted <;> exact literal_text (by decide)

end Trees

end SamosaChat.Settings
