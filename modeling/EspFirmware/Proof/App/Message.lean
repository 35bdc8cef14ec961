import EspFirmware.Proof.App.Json

namespace EspFirmware.Proof.App
open EspFirmware.App EspFirmware.Spec EspFirmware.Lib EspFirmware.Lib.Parser

variable {strtod : Strtod}

theorem cString_strncpyBytes (payload stack : List Byte) :
    cString (strncpyBytes payload ++ stack) = cString (payload ++ stack) := by
  by_cases nul : 0 ∈ payload
  · obtain ⟨zeros, some_zero⟩ := Nat.exists_eq_add_of_lt (length_cString_lt nul)
    rw [strncpyBytes, show payload.length - (cString payload).length = zeros + 1 by omega,
      List.append_assoc, cString_append_of_not_mem (nul_not_mem_cString payload),
      cString_append_of_mem nul]
    simp [cString, List.replicate_succ]
  · rw [strncpyBytes, cString_of_not_mem nul, Nat.sub_self, List.replicate_zero, List.append_nil]

theorem cJSONParse_of_decided {payload : List Byte} (decided : ParseDecided strtod payload)
    (tail tail' : List Byte) :
    cJSONParse strtod (cString (payload ++ tail)) = cJSONParse strtod (cString (payload ++ tail')) := by
  by_cases nul : 0 ∈ payload
  · rw [cString_append_of_mem nul, cString_append_of_mem nul]
  · have final (rest : List Byte) : parseText strtod (textFuel payload) payload = .fail ∧
          cJSONParse strtod (payload ++ cString rest) = none ∨
        ∃ json left, parseText strtod (textFuel payload) payload = .done json left ∧
          cJSONParse strtod (payload ++ cString rest) = some json := by
      have steps : textFuel payload ≤ textFuel (payload ++ cString rest) := by
        simp only [textFuel, List.length_append]
        omega
      have stable : Refines (parseText strtod _) (parseText strtod _) := refines_parseText steps
      have kept := stable payload (cString rest ++ [0])
      rw [← List.append_assoc] at kept
      cases parsed : parseText strtod (textFuel payload) payload with
      | done json left =>
          refine .inr ⟨json, left, rfl, ?_⟩
          rw [cJSONParse, kept.1 json left parsed]
      | fail =>
          refine .inl ⟨rfl, ?_⟩
          rw [cJSONParse, kept.2 parsed]
      | more =>
          rcases decided with nul' | result
          · contradiction
          · rw [parsed] at result
            contradiction
    rw [cString_append_of_not_mem nul, cString_append_of_not_mem nul]
    rcases final tail with ⟨failed, none₁⟩ | ⟨json, left, done, some₁⟩ <;>
      rcases final tail' with ⟨failed', none₂⟩ | ⟨json', left', done', some₂⟩
    · rw [none₁, none₂]
    · rw [failed] at done'; contradiction
    · rw [done] at failed'; contradiction
    · rw [done] at done'
      cases done'
      rw [some₁, some₂]

section
variable {msg : Option Json}

theorem lookup_of_not_object (noObject : ∀ json, msg = some json → json.isObject = false)
    (name : String) : parseLevel1JsonNumber msg name = none ∧ parseLevel1JsonObject msg name = false := by
  cases msg with
  | none => exact ⟨rfl, rfl⟩
  | some json =>
      cases json with
      | object members => exact absurd (noObject _ rfl) (by simp [Json.isObject])
      | _ => exact ⟨rfl, rfl⟩

theorem not_groupActs_of_not_object (noObject : ∀ json, msg = some json → json.isObject = false) :
    ¬ GroupActs msg := by
  simp [GroupActs, lookup_of_not_object noObject]

theorem not_selfActs_of_not_object (noObject : ∀ json, msg = some json → json.isObject = false) :
    ¬ SelfActs msg := by
  simp [SelfActs, lookup_of_not_object noObject, alarmCommands, alarmAddCommand, alarmModifyCommand,
    alarmDeleteCommand, alarmClearCommand]

theorem group_idle (idle : ¬ GroupActs msg) (d : App.Device) : csroDeviceHandleGroupMessage msg d = d :=
  if_neg idle

theorem self_idle (idle : ¬ SelfActs msg) (d : App.Device) : csroDeviceHandleSelfMessage msg d = d := by
  simp only [SelfActs, not_or, not_exists, not_and, not_le, ne_eq, not_not] at idle
  obtain ⟨interval, sysinfo, alarminfo, restart, alarms, channels⟩ := idle
  have intervalIdle : commandInterval msg d = d := by
    unfold commandInterval
    cases found : parseLevel1JsonNumber msg "interval" with
    | none => rfl
    | some value =>
        exact if_neg fun inside => absurd inside.2 (not_le.mpr (interval value found inside.1))
  have alarmsIdle : commandAlarms msg d = d := by simp [commandAlarms, alarms, runCommands]
  have channelsIdle : csroNlightHandleSelfMessage msg d = d := by
    simp [csroNlightHandleSelfMessage, commandChannel, channels]
  rw [csroDeviceHandleSelfMessage, intervalIdle, commandSysinfo, if_neg sysinfo, commandAlarminfo,
    if_neg alarminfo, if_neg restart, alarmsIdle, channelsIdle]

section
variable {γ : Type*} {f : App.Device → γ}
  (ignores : ∀ d channel status, f { d with channel := channel, statusTrigger := status } = f d)
include ignores

theorem nlightChannelSet_keeps (i : Fin NLIGHT) (value source : BitVec 8) (d : App.Device) :
    f (nlightChannelSet i value source d) = f d := by
  unfold nlightChannelSet
  split
  · exact ignores d _ true
  · rfl

theorem commandChannel_keeps (i : Fin NLIGHT) (d : App.Device) : f (commandChannel msg i d) = f d := by
  unfold commandChannel
  split
  · exact nlightChannelSet_keeps ignores i _ _ d
  · rfl

theorem csroNlightHandleSelfMessage_keeps (d : App.Device) : f (csroNlightHandleSelfMessage msg d) = f d := by
  have channels (l : List (Fin NLIGHT)) (d : App.Device) :
      f (l.foldl (fun d i => commandChannel msg i d) d) = f d := by
    induction l generalizing d with
    | nil => rfl
    | cons i rest ih => rw [List.foldl_cons, ih, commandChannel_keeps ignores]
  unfold csroNlightHandleSelfMessage
  dsimp only
  split
  · exact (ignores _ _ true).trans (channels _ d)
  · exact channels _ d

end

def otherFields (d : App.Device) : BitVec 16 × Bool × Bool := (d.interval, d.systemTrigger, d.alarmTrigger)

def idleDevice : App.Device where
  alarm := ⟨fun _ => ⟨false, 0, 0, 0⟩, fun _ => none⟩
  channel := fun i => ⟨BitVec.ofNat 8 i.val, 0, 0, 0, 0, 0⟩
  timeNow := 0
  interval := 0
  nvsInterval := none
  statusPeriod := 0
  statusTrigger := false
  systemTrigger := false
  alarmTrigger := false
  restarted := false

theorem otherFields_before_channels (d : App.Device) :
    otherFields (commandAlarms msg (commandAlarminfo msg (commandSysinfo msg (commandInterval msg d)))) =
      ((commandInterval msg d).interval,
        d.systemTrigger || decide (parseLevel1JsonNumber msg "sysinfo" = some 1),
        d.alarmTrigger || decide (parseLevel1JsonNumber msg "alarminfo" = some 1) ||
          decide (alarmCommands msg ≠ [])) := by
  have interval : (commandInterval msg d).systemTrigger = d.systemTrigger ∧
      (commandInterval msg d).alarmTrigger = d.alarmTrigger := by
    unfold commandInterval csroSystemSetInterval
    split
    · split <;> exact ⟨rfl, rfl⟩
    · exact ⟨rfl, rfl⟩
  generalize commandInterval msg d = e at interval ⊢
  unfold commandAlarms commandAlarminfo commandSysinfo otherFields
  dsimp only
  by_cases sysinfo : parseLevel1JsonNumber msg "sysinfo" = some 1 <;>
    by_cases alarminfo : parseLevel1JsonNumber msg "alarminfo" = some 1 <;>
    by_cases alarms : alarmCommands msg = [] <;>
    simp only [sysinfo, alarminfo, alarms, if_true, if_false, ne_eq] <;>
    simp [App.Device.triggerAlarm, App.Device.triggerSystem, interval]

theorem self_acts (acts : SelfActs msg) : csroDeviceHandleSelfMessage msg idleDevice ≠ idleDevice := by
  intro same
  by_cases restart : parseLevel1JsonNumber msg "restart" = some 1
  · have restarted := congrArg App.Device.restarted same
    rw [csroDeviceHandleSelfMessage, if_pos restart] at restarted
    cases restarted
  have fields := congrArg otherFields same
  have status := congrArg App.Device.statusTrigger same
  rw [csroDeviceHandleSelfMessage, if_neg restart] at fields status
  rw [csroNlightHandleSelfMessage_keeps (f := otherFields) fun _ _ _ => rfl, otherFields_before_channels, otherFields, Prod.mk.injEq,
    Prod.mk.injEq] at fields
  obtain ⟨interval, system, alarm⟩ := fields
  rcases acts with ⟨value, found, low, high⟩ | sysinfo | alarminfo | restart' | alarms | ⟨i, channel⟩
  · have set : (commandInterval msg idleDevice).interval = value.setWidth 16 := by
      rw [commandInterval, found]
      exact congrArg App.Device.interval (if_pos ⟨low, high⟩)
    have zero : value.setWidth 16 = 0#16 := set.symm.trans interval
    rw [zero] at low
    contradiction
  · simp only [sysinfo, decide_true, Bool.or_true] at system
    cases system
  · simp only [alarminfo, decide_true, Bool.or_true, Bool.true_or] at alarm
    cases alarm
  · contradiction
  · simp only [alarms, ne_eq, not_false_eq_true, decide_true, Bool.or_true] at alarm
    cases alarm
  · have valid : ((List.finRange NLIGHT).any fun i =>
        (parseLevel1JsonNumber msg (channelName i)).isSome) = true :=
      List.any_eq_true.mpr ⟨i, List.mem_finRange i, Option.isSome_iff_ne_none.mpr channel⟩
    rw [csroNlightHandleSelfMessage, if_pos valid] at status
    cases status

theorem group_acts (acts : GroupActs msg) : csroDeviceHandleGroupMessage msg idleDevice ≠ idleDevice := by
  intro same
  have status := congrArg App.Device.statusTrigger same
  unfold GroupActs at acts
  rw [csroDeviceHandleGroupMessage, if_pos acts] at status
  cases status

end

theorem json_handler_iff {handle : Option Json → App.Device → App.Device} {Acts : Option Json → Prop}
    (idle : ∀ msg, ¬ Acts msg → ∀ d, handle msg d = d)
    (acts : ∀ msg, Acts msg → handle msg idleDevice ≠ idleDevice)
    (noObject : ∀ msg : Option Json, (∀ json, msg = some json → json.isObject = false) → ¬ Acts msg)
    (payload : List Byte) :
    (∃ effect : App.Device → App.Device, ∀ (memory : Spec.Memory) d,
      some (handle (cJSONParse strtod (cString (payload ++ memory.stale))) d) = some (effect d)) ↔
      ParseDecided strtod payload ∨
        ∀ tail, ¬ Acts (cJSONParse strtod (cString (payload ++ tail))) := by
  constructor
  · rintro ⟨effect, only⟩
    by_cases decided : ParseDecided strtod payload
    · exact .inl decided
    refine .inr fun tail active => acts _ active ?_
    have noNul : 0 ∉ payload := fun nul => decided (.inl nul)
    have undecided : parseText strtod (textFuel payload) payload = .more := by
      cases parsed : parseText strtod (textFuel payload) payload with
      | more => rfl
      | _ => exact absurd (.inr (by rw [parsed]; trivial)) decided
    have here := only ⟨tail, [], []⟩ idleDevice
    have empty := only ⟨[], [], []⟩ idleDevice
    rw [List.append_nil, cString_of_not_mem noNul,
      idle _ (noObject _ (cJSONParse_of_undecided undecided))] at empty
    exact Option.some.inj (here.trans empty.symm)
  · rintro (decided | never)
    · refine ⟨handle (cJSONParse strtod (cString payload)), fun memory d => ?_⟩
      rw [cJSONParse_of_decided decided memory.stale [], List.append_nil]
    · exact ⟨id, fun memory d => congrArg some (idle _ (never memory.stale) d)⟩

def hassEffect (subTopic text : List Byte) (d : App.Device) : App.Device :=
  match (List.finRange NLIGHT).find? fun i => subTopic = ascii (channelName i), hassCommand text with
  | some i, some value => (nlightChannelSet i value 2 d).triggerStatus
  | _, _ => d

theorem getHassMessageSubTopic_of_fits {topic : List Byte} (fits : TopicFits topic) (stack : List Byte) :
    getHassMessageSubTopic topic stack =
      some ((segments (cString topic)).getLast?.getD (cString stack)) := by
  obtain ⟨topicShort, nameShort, segmentsShort⟩ := fits
  have segmentsFit : ((segments (cString topic)).any fun s => decide (50 ≤ s.length)) = false := by
    simpa using segmentsShort
  rw [getHassMessageSubTopic, if_neg (by omega)]
  dsimp only
  rw [segmentsFit]
  rfl

theorem getHassMessageSubTopic_overrun {topic : List Byte} (long : ¬ TopicFits topic)
    (stack : List Byte) : getHassMessageSubTopic topic stack = none := by
  unfold getHassMessageSubTopic
  split
  · rfl
  · rename_i short
    rw [not_or, not_lt, not_le] at short
    refine if_pos ?_
    by_contra fit
    exact long ⟨short.1, short.2, by simpa using fit⟩

theorem hass_eq {topic payload : List Byte} (short : payload.length ≤ 200) (fits : TopicFits topic)
    (payloadStack subTopicStack : List Byte) (d : App.Device) :
    csroNlightHandleHassMessage topic payload payloadStack subTopicStack d =
      some (hassEffect ((segments (cString topic)).getLast?.getD (cString subTopicStack))
        (cString (payload ++ payloadStack)) d) := by
  rw [csroNlightHandleHassMessage, if_neg (not_lt.mpr short), cString_strncpyBytes,
    getHassMessageSubTopic_of_fits fits]
  dsimp only
  unfold hassEffect
  cases (List.finRange NLIGHT).find? _ with
  | none => rfl
  | some i => cases hassCommand (cString (payload ++ payloadStack)) <;> rfl

theorem hass_overrun {topic payload : List Byte} (long : ¬ (payload.length ≤ 200 ∧ TopicFits topic))
    (payloadStack subTopicStack : List Byte) (d : App.Device) :
    csroNlightHandleHassMessage topic payload payloadStack subTopicStack d = none := by
  unfold csroNlightHandleHassMessage
  split
  · rfl
  · rename_i short
    rw [getHassMessageSubTopic_overrun fun fits => long ⟨not_lt.mp short, fits⟩]

theorem hassEffect_idle {subTopic text : List Byte}
    (idle : (∃ i, subTopic = ascii (channelName i)) → hassCommand text = none) (d : App.Device) :
    hassEffect subTopic text d = d := by
  unfold hassEffect
  split
  · rename_i i value channel command
    have named : subTopic = ascii (channelName i) := by simpa using List.find?_some channel
    rw [idle ⟨i, named⟩] at command
    contradiction
  · rfl

theorem hassEffect_acts {subTopic text : List Byte} (named : ∃ i, subTopic = ascii (channelName i))
    (command : hassCommand text ≠ none) : hassEffect subTopic text idleDevice ≠ idleDevice := by
  obtain ⟨i, named⟩ := named
  obtain ⟨value, command⟩ := Option.ne_none_iff_exists'.mp command
  have found : ((List.finRange NLIGHT).find? fun i => subTopic = ascii (channelName i)).isSome :=
    List.find?_isSome.mpr ⟨i, List.mem_finRange i, by simpa using named⟩
  obtain ⟨j, found⟩ := Option.isSome_iff_exists.mp found
  intro same
  have status := congrArg App.Device.statusTrigger same
  rw [hassEffect, found, command] at status
  cases status

theorem hassCommand_ne_none_iff (text : List Byte) :
    hassCommand text ≠ none ↔ text = ascii "on" ∨ text = ascii "off" := by
  unfold hassCommand
  by_cases on : text = ascii "on"
  · simp [on]
  · by_cases off : text = ascii "off"
    · simp [off, show ascii "off" ≠ ascii "on" by decide]
    · simp [on, off]

theorem hassCommand_cString_iff {payload : List Byte} (noNul : 0 ∉ payload) :
    (∃ tail, hassCommand (cString (payload ++ tail)) ≠ none) ↔
      payload <+: ascii "on" ∨ payload <+: ascii "off" := by
  simp only [hassCommand_ne_none_iff, cString_append_of_not_mem noNul]
  constructor
  · rintro ⟨tail, on | off⟩
    · exact .inl ⟨cString tail, on⟩
    · exact .inr ⟨cString tail, off⟩
  · have clean (word rest : List Byte) (whole : payload ++ rest = word) (plain : 0 ∉ word) :
        cString rest = rest :=
      cString_of_not_mem fun nul => plain (whole ▸ List.mem_append_right _ nul)
    rintro (⟨rest, on⟩ | ⟨rest, off⟩)
    · exact ⟨rest, .inl (by rw [clean _ rest on (by decide), on])⟩
    · exact ⟨rest, .inr (by rw [clean _ rest off (by decide), off])⟩

theorem hassCommand_spoiled {payload : List Byte} (noNul : 0 ∉ payload) :
    hassCommand (cString (payload ++ [1])) = none := by
  by_contra command
  rw [cString_append_of_not_mem noNul] at command
  have last (word : List Byte) (same : payload ++ cString [1] = word) : word.getLast? = some 1 := by
    rw [← same]
    exact List.getLast?_append_of_ne_nil _ (by decide)
  rcases (hassCommand_ne_none_iff _).mp command with on | off
  · exact absurd (last _ on) (by decide)
  · exact absurd (last _ off) (by decide)

theorem hass_handler_iff (topic payload : List Byte) :
    (∃ effect : App.Device → App.Device, ∀ (memory : Spec.Memory) d,
      csroNlightHandleHassMessage topic payload memory.payloadStack memory.subTopicStack d =
        some (effect d)) ↔
      payload.length ≤ 200 ∧ TopicFits topic ∧
        (NamesChannel topic → 0 ∈ payload ∨
          ¬ payload <+: ascii "on" ∧ ¬ payload <+: ascii "off") ∧
        (segments (cString topic) = [] → ∀ tail, hassCommand (cString (payload ++ tail)) = none) := by
  by_cases fit : payload.length ≤ 200 ∧ TopicFits topic
  · obtain ⟨short, fits⟩ := fit
    simp only [hass_eq short fits, short, fits, true_and, Option.some.injEq]
    constructor
    · rintro ⟨effect, only⟩
      refine ⟨fun ⟨i, named⟩ => ?_, fun noSegment tail => ?_⟩
      · -- the stack completes the payload to a command, or spoils it
        by_contra undecided
        rw [← not_or, not_or, not_not] at undecided
        obtain ⟨noNul, start⟩ := undecided
        obtain ⟨tail, command⟩ := (hassCommand_cString_iff noNul).mpr start
        have here := only ⟨[], tail, []⟩ idleDevice
        have spoiled := only ⟨[], [1], []⟩ idleDevice
        rw [named] at here spoiled
        rw [hassEffect_idle fun _ => hassCommand_spoiled noNul] at spoiled
        exact hassEffect_acts ⟨i, rfl⟩ command (here.trans spoiled.symm)
      · -- the stack names a channel, or none
        by_contra command
        have here := only ⟨[], tail, ascii "channel1"⟩ idleDevice
        have unnamed := only ⟨[], tail, []⟩ idleDevice
        have noName : ¬ ∃ i, ([] : List Byte) = ascii (channelName i) := by decide
        rw [noSegment] at here unnamed
        change hassEffect [] _ _ = _ at unnamed
        rw [hassEffect_idle fun named => absurd named noName] at unnamed
        have channel1 : cString (ascii "channel1") = ascii (channelName 0) := by decide
        exact hassEffect_acts ⟨0, channel1⟩ command (here.trans unnamed.symm)
    · rintro ⟨channel, noSegment⟩
      refine ⟨hassEffect ((segments (cString topic)).getLast?.getD []) (cString payload),
        fun memory d => ?_⟩
      cases last : (segments (cString topic)).getLast? with
      | none =>
          have never := noSegment (List.getLast?_eq_none_iff.mp last)
          have noText : hassCommand (cString payload) = none := by simpa using never []
          rw [hassEffect_idle fun _ => never _, hassEffect_idle fun _ => noText]
      | some subTopic =>
          change hassEffect subTopic _ d = hassEffect subTopic _ d
          by_cases nul : 0 ∈ payload
          · rw [cString_append_of_mem nul]
          · have idle (stack : List Byte) : hassEffect subTopic (cString (payload ++ stack)) d = d := by
              refine hassEffect_idle (fun ⟨i, named⟩ => ?_) d
              by_contra command
              have decided := (channel ⟨i, named ▸ last⟩).resolve_left nul
              have start := (hassCommand_cString_iff nul).mp ⟨stack, command⟩
              exact start.elim decided.1 decided.2
            rw [idle memory.payloadStack]
            simpa using (idle []).symm
  · refine ⟨fun ⟨effect, only⟩ => ?_, fun all => absurd ⟨all.1, all.2.1⟩ fit⟩
    have here := only ⟨[], [], []⟩ idleDevice
    rw [hass_overrun fit] at here
    contradiction

theorem message_effect_iff (strtod : Strtod) (h : Handler) (m : Publish) :
    DependsOnlyOnMessage strtod h m ↔ Determined strtod m h := by
  cases h with
  | self =>
      exact json_handler_iff (fun _ => self_idle) (fun _ => self_acts)
        (fun _ => not_selfActs_of_not_object) m.payload
  | group =>
      exact json_handler_iff (fun _ => group_idle) (fun _ => group_acts)
        (fun _ => not_groupActs_of_not_object) m.payload
  | hass => exact hass_handler_iff m.topic m.payload

def decimal : Strtod := fun token =>
  let digits := token.takeWhile isDigit
  if digits = [] then none
  else some (digits.foldl (fun n c => 10 * n + (c.toNat - 48 : Int)) 0, digits.length)

/-- A truncated restart command takes effect when an earlier packet left a brace behind it, and a
Home Assistant command is lost when the stack does not hold a zero behind it. -/
theorem memory_decides :
    let truncated : Publish := ⟨[], ascii "\x7b\"restart\":1"⟩
    let switchOn : Publish := ⟨ascii "csro/5ccf7f000001/nlight/hass/channel1", ascii "on"⟩
    let state (d : App.Device) := (d.channel 0).state
    (deliver decimal .self truncated ⟨ascii "\x7d", [], []⟩ idleDevice).map App.Device.restarted = some true ∧
    (deliver decimal .self truncated ⟨[], [], []⟩ idleDevice).map App.Device.restarted = some false ∧
    (deliver decimal .hass switchOn ⟨[], [0], []⟩ idleDevice).map state = some 1 ∧
    (deliver decimal .hass switchOn ⟨[], [1], []⟩ idleDevice).map state = some 0 ∧
    ¬ DependsOnlyOnMessage decimal .self truncated ∧ ¬ DependsOnlyOnMessage decimal .hass switchOn := by
  intro truncated switchOn state
  have restarts : (deliver decimal .self truncated ⟨ascii "\x7d", [], []⟩ idleDevice).map
      App.Device.restarted = some true := by decide +kernel
  have stays : (deliver decimal .self truncated ⟨[], [], []⟩ idleDevice).map
      App.Device.restarted = some false := by decide +kernel
  have on : (deliver decimal .hass switchOn ⟨[], [0], []⟩ idleDevice).map state = some 1 := by
    decide
  have lost : (deliver decimal .hass switchOn ⟨[], [1], []⟩ idleDevice).map state = some 0 := by
    decide
  refine ⟨restarts, stays, on, lost, ?_, ?_⟩
  · rintro ⟨effect, only⟩
    rw [only] at restarts stays
    rw [restarts] at stays
    contradiction
  · rintro ⟨effect, only⟩
    rw [only] at on lost
    rw [on] at lost
    contradiction

end EspFirmware.Proof.App
