import EspFirmware.Proof.App.Published

/-!
Announcements are the only thing that can overrun the settings, and the topics made of the settings
are short whatever was announced.
-/

namespace EspFirmware.Proof.App
open EspFirmware.App EspFirmware.Lib EspFirmware.Spec

theorem length_deviceTopic (topicPrefix macStr suffix : List Byte) :
    (deviceTopic topicPrefix macStr suffix).length = topicPrefix.length + macStr.length + suffix.length + 10 := by
  have slash : (ascii "/").length = 1 := rfl
  have type : devType.length = 7 := rfl
  simp only [deviceTopic, List.length_append, slash, type]
  omega

section
variable (m : MqttStruct) (s : SystemStruct)

theorem deviceTopic_fits {suffix : List Byte} (short : suffix.length ≤ 28) :
    (deviceTopic m.topicPrefix.text s.macStr suffix).length < MQTT_TOPIC_LENGTH := by
  have settings := m.topicPrefix.fits
  have limit : MQTT_TOPIC_LENGTH = 100 := rfl
  rw [length_deviceTopic, length_macStr]
  omega

theorem groupTopic_fits : (groupTopic m.topicPrefix.text).length < MQTT_TOPIC_LENGTH := by
  have settings := m.topicPrefix.fits
  have limit : MQTT_TOPIC_LENGTH = 100 := rfl
  have name : (ascii "/group").length = 6 := rfl
  rw [groupTopic, List.length_append]
  omega

theorem topics_fit (station : Station) : ∀ topic ∈ topics station, topic.length < MQTT_TOPIC_LENGTH := by
  intro topic mem
  rcases List.mem_cons.mp mem with rfl | device
  · exact groupTopic_fits station.mqtt
  · obtain ⟨suffix, named, rfl⟩ := List.mem_map.mp device
    have short : ∀ suffix ∈ ["command", "hass/#", "available", "state", "system", "timer"],
        (ascii suffix).length ≤ 28 := by decide
    exact deviceTopic_fits station.mqtt station.sysinfo (short suffix named)

theorem isSome_bind {α β : Type} {x : Option α} {f : α → Option β} (first : x.isSome = true)
    (second : ∀ a, (f a).isSome = true) : (x.bind f).isSome = true := by
  obtain ⟨a, rfl⟩ := Option.isSome_iff_exists.mp first
  exact second a

theorem mqttPubMessgae_isSome {suffix : String} (short : (ascii suffix).length ≤ 28) (published : Bool) :
    (mqttPubMessgae s.macStr suffix published m).isSome = true := by
  refine isSome_bind (strcpy_isSome_iff.mpr (deviceTopic_fits m s short)) fun _ => ?_
  cases published <;> rfl

theorem brokerIsConnected_isSome (net : Answers) : (brokerIsConnected net s m).isSome = true := by
  have device {suffix : String} (short : (ascii suffix).length ≤ 28) :
      (strcpy MQTT_TOPIC_LENGTH (deviceTopic m.topicPrefix.text s.macStr (ascii suffix))).isSome = true :=
    strcpy_isSome_iff.mpr (deviceTopic_fits m s short)
  unfold brokerIsConnected
  split
  · rfl
  · split
    · rfl
    · split
      · rfl
      · refine isSome_bind (strcpy_isSome_iff.mpr (groupTopic_fits m)) fun _ => ?_
        refine isSome_bind (device (by decide)) fun _ => isSome_bind (device (by decide)) fun _ => ?_
        refine isSome_bind (device (by decide)) fun _ => ?_
        dsimp only
        split
        · refine isSome_bind (strcpy_isSome_iff.mpr (by decide)) fun _ => ?_
          refine isSome_bind ?_ fun _ => rfl
          exact mqttPubMessgae_isSome _ { s with servConnCount := s.servConnCount + 1 } (by decide) _
        · rfl

theorem publishDue_isSome {suffix : String} (short : (ascii suffix).length ≤ 28) (published : Bool)
    (message : Option (CharArray MQTT_BUFFER_LENGTH)) :
    (publishDue s.macStr suffix published message m).isSome = true := by
  cases message with
  | none => rfl
  | some content =>
      rw [publishDue, Option.isSome_map]
      exact mqttPubMessgae_isSome { m with content := content } s short published

theorem csroMqttTaskRound_isSome (net : Answers) (due : Due) : (csroMqttTaskRound net due s m).isSome = true := by
  refine isSome_bind (brokerIsConnected_isSome m s net) fun ⟨connected, s, m⟩ => ?_
  dsimp only
  split
  · refine isSome_bind (publishDue_isSome m s (by decide) _ _) fun m => ?_
    refine isSome_bind (publishDue_isSome m s (by decide) _ _) fun m => ?_
    exact isSome_bind (publishDue_isSome m s (by decide) _ _) fun m => rfl
  · rfl

end

theorem setServer_eq (servIp servMac : List Byte) (m : MqttStruct)
    (fit : 4 ≤ servIp.length → 10 ≤ servMac.length → servIp.length < 50 ∧ servMac.length < 50) :
    ∃ m', setServer servIp servMac m = some m' ∧
      ((m'.broker = m.broker ∧ m'.topicPrefix = m.topicPrefix) ∨
        m'.broker.text = servIp ∧ m'.topicPrefix.text = servMac) := by
  unfold setServer
  split
  · rename_i long
    split
    · obtain ⟨ip, mac⟩ := fit long.1 long.2
      rw [strcpy_fits ip, strcpy_fits mac]
      exact ⟨_, rfl, .inr ⟨rfl, rfl⟩⟩
    · exact ⟨m, rfl, .inl ⟨rfl, rfl⟩⟩
  · exact ⟨m, rfl, .inl ⟨rfl, rfl⟩⟩

theorem setServer_overrun (servIp servMac : List Byte) (m : MqttStruct) (ip : 4 ≤ servIp.length)
    (mac : 10 ≤ servMac.length) (long : ¬ (servIp.length < 50 ∧ servMac.length < 50)) :
    setServer servIp servMac m = none := by
  have other : servIp ≠ m.broker.text ∨ servMac ≠ m.topicPrefix.text := by
    by_contra same
    rw [not_or, not_not, not_not] at same
    exact long ⟨same.1 ▸ m.broker.fits, same.2 ▸ m.topicPrefix.fits⟩
  rw [setServer, if_pos ⟨ip, mac⟩, if_pos other]
  by_cases fits : servIp.length < 50
  · rw [strcpy_fits fits, strcpy_overrun (not_lt.mp fun short => long ⟨fits, short⟩)]
    rfl
  · rw [strcpy_overrun (not_lt.mp fits)]
    rfl

section
variable (strtod : Strtod) (lib : TimeLib)

theorem processUdpMessage_eq (udpBuf : List Byte) (stack : Fin 6 → BitVec 32) (m : MqttStruct) (c : Clock) :
    ∃ c', processUdpMessage strtod lib udpBuf stack m c =
      (((cJSONParse strtod (cString udpBuf)).bind serverStrings).elim (some m) fun server =>
        setServer server.1 server.2 m).map fun m => (m, c') := by
  unfold processUdpMessage
  cases cJSONParse strtod (cString udpBuf) with
  | none => exact ⟨c, rfl⟩
  | some json =>
      refine ⟨processTime lib json stack c, ?_⟩
      dsimp only [Option.bind_some, processServer]
      cases serverStrings json <;> rfl

theorem datagram_staysInside_iff (s : Station) (bytes : List Byte) (stack : Fin 6 → BitVec 32) :
    StaysInside strtod lib s (.datagram bytes stack) ↔ AnnouncementFits strtod bytes := by
  obtain ⟨c, message⟩ := processUdpMessage_eq strtod lib (udpRxBuffer bytes) stack s.mqtt s.clock
  have known : (cJSONParse strtod (cString (udpRxBuffer bytes))).bind serverStrings = announced strtod bytes := rfl
  rcases Option.eq_none_or_eq_some (announced strtod bytes) with found | ⟨⟨servIp, servMac⟩, found⟩
  · rw [known, found] at message
    refine iff_of_true ?_ fun server mem => ?_
    · refine ⟨{ s with clock := c }, ?_, .inl ⟨rfl, rfl⟩, s.mqtt.broker.fits, s.mqtt.topicPrefix.fits, topics_fit _⟩
      rw [stationStep, message]
      rfl
    · rw [found] at mem
      cases mem
  · rw [known, found, Option.elim_some] at message
    constructor
    · rintro ⟨s', made, -⟩ server mem ip mac
      obtain rfl : (servIp, servMac) = server := Option.some.inj (found.symm.trans mem)
      by_contra long
      rw [stationStep, message, setServer_overrun servIp servMac s.mqtt ip mac long] at made
      cases made
    · intro fits
      obtain ⟨m, set, taken⟩ := setServer_eq servIp servMac s.mqtt (fits _ found)
      refine ⟨{ s with mqtt := m, clock := c }, ?_, taken.imp id ?_, m.broker.fits, m.topicPrefix.fits, topics_fit _⟩
      · rw [stationStep, message, set]
        rfl
      · rintro ⟨rfl, rfl⟩
        exact found

theorem round_staysInside (s : Station) (net : Answers) (due : Due) :
    StaysInside strtod lib s (.round net due) := by
  obtain ⟨⟨sysinfo, mqtt⟩, made⟩ := Option.isSome_iff_exists.mp (csroMqttTaskRound_isSome s.mqtt s.sysinfo net due)
  refine ⟨{ s with sysinfo := sysinfo, mqtt := mqtt }, ?_, trivial, mqtt.broker.fits, mqtt.topicPrefix.fits,
    topics_fit _⟩
  rw [stationStep, made]
  rfl

theorem staysInside_iff (s : Station) (e : StationEvent) : StaysInside strtod lib s e ↔ eventFits strtod e := by
  cases e with
  | datagram bytes stack => exact datagram_staysInside_iff strtod lib s bytes stack
  | round net due => exact iff_of_true (round_staysInside strtod lib s net due) trivial

/-- A run stays inside the settings and the topics from any state on if and only if every announcement in it fits. -/
theorem announcements_stay_inside_iff (events : List StationEvent) (s : Station) :
    EachStep (stationStep strtod lib) (StaysInside strtod lib) events s ↔ ∀ e ∈ events, eventFits strtod e := by
  induction events generalizing s with
  | nil => exact iff_of_true trivial fun e none_ => nomatch none_
  | cons e rest ih =>
      rw [List.forall_mem_cons, ← staysInside_iff strtod lib s e]
      constructor
      · rintro ⟨inside, later⟩
        obtain ⟨s', made, -⟩ := id inside
        exact ⟨inside, (ih s').mp (later s' made)⟩
      · rintro ⟨inside, fit⟩
        exact ⟨inside, fun s' _ => (ih s').mpr fit⟩

end

def stationAtBoot : Station where
  sysinfo := ⟨fun _ => 0, none, 0, 0, 0⟩
  mqtt := mqttAtBoot
  clock := clockAtBoot fun _ => ⟨false, 0, 0, 0⟩

def longAnnouncement : List Byte :=
  ascii "\x7b\"ip\":\"broker.with.a.name.of.exactly.fifty.characters.lan\",\"mac\":\"5ccf7f000001\"\x7d"

theorem long_announcement_overruns :
    ¬ EachStep (stationStep Proof.App.decimal utc) (StaysInside Proof.App.decimal utc)
      [.datagram longAnnouncement fun _ => 0] stationAtBoot := by
  rintro ⟨⟨s', made, -⟩, -⟩
  have overrun : (stationStep Proof.App.decimal utc stationAtBoot (.datagram longAnnouncement fun _ => 0)).isNone := by
    decide +kernel
  rw [made] at overrun
  cases overrun

end EspFirmware.Proof.App

/-!
The sub-topic is the last segment of the topic where the topic and its segments fit their buffers
and no zero in it hides the last segment.
-/

namespace EspFirmware.Proof.App
open EspFirmware.App EspFirmware.Lib EspFirmware.Spec

theorem isTopicMatched_mem {topicFilter topicName : List Byte} (matched : isTopicMatched topicFilter topicName = true)
    {c : Byte} (mem : c ∈ topicFilter) (notPlus : c ≠ 43) (notHash : c ≠ 35) : c ∈ topicName := by
  fun_induction isTopicMatched topicFilter topicName with
  | case1 => exact mem
  | case2 => cases matched
  | case3 => cases matched
  | case4 => cases matched
  | case5 => cases matched
  | case6 topicFilter name topicName _ _ ih =>
      rcases List.mem_cons.mp mem with rfl | rest
      · exact absurd rfl notPlus
      · exact List.mem_cons_of_mem name ((List.dropWhile_sublist _).subset (ih matched rest))
  | case7 topicFilter name topicName _ _ _ ih =>
      rcases List.mem_cons.mp mem with rfl | rest
      · exact absurd rfl notHash
      · exact nomatch ih matched rest
  | case8 f topicFilter name topicName _ literal _ _ ih =>
      rcases List.mem_cons.mp mem with rfl | rest
      · have same : c = name := by
          by_contra other
          exact literal ⟨notPlus, notHash, other⟩
        exact same ▸ List.mem_cons_self
      · exact List.mem_cons_of_mem name (ih matched rest)

theorem mem_splitOn {c sep : Byte} {l : List Byte} (mem : c ∈ l) (other : c ≠ sep) : ∃ s ∈ l.splitOn sep, c ∈ s := by
  induction l with
  | nil => cases mem
  | cons x l ih =>
      rw [List.splitOn_cons_eq_if_modifyHead]
      split
      · rename_i isSep
        rcases List.mem_cons.mp mem with rfl | rest
        · exact absurd (eq_of_beq isSep) other
        · obtain ⟨s, inside, found⟩ := ih rest
          exact ⟨s, List.mem_cons_of_mem [] inside, found⟩
      · cases pieces : l.splitOn sep with
        | nil => exact absurd pieces (List.splitOn_ne_nil sep l)
        | cons first later =>
            rw [pieces] at ih
            rw [List.modifyHead_cons]
            rcases List.mem_cons.mp mem with rfl | rest
            · exact ⟨_, List.mem_cons_self, List.mem_cons_self⟩
            · obtain ⟨s, inside, found⟩ := ih rest
              rcases List.mem_cons.mp inside with rfl | after
              · exact ⟨_, List.mem_cons_self, List.mem_cons_of_mem x found⟩
              · exact ⟨s, List.mem_cons_of_mem _ after, found⟩

theorem delivered_lastSegment {s : Station} {topic : List Byte} (delivered : DeliveredToHass s topic) :
    ∃ segment, lastSegment topic = some segment ∧ segment ≠ [] := by
  have named : (104 : Byte) ∈ deviceTopic s.mqtt.topicPrefix.text s.sysinfo.macStr (ascii "hass/#") :=
    List.mem_append_right _ (by decide)
  have mem : (104 : Byte) ∈ topic := by
    rcases Bool.or_eq_true_iff.mp delivered.matched with same | matched
    · exact eq_of_beq same ▸ named
    · exact isTopicMatched_mem matched named (by decide) (by decide)
  obtain ⟨piece, inside, found⟩ := mem_splitOn mem (show (104 : Byte) ≠ 47 by decide)
  have nonempty : piece ≠ [] := List.ne_nil_of_mem found
  have kept : piece ∈ segments topic := List.mem_filter.mpr ⟨inside, decide_eq_true nonempty⟩
  have last := List.getLast?_eq_some_getLast (List.ne_nil_of_mem kept)
  refine ⟨_, last, ?_⟩
  exact of_decide_eq_true (List.mem_filter.mp (List.getLast_mem (List.ne_nil_of_mem kept))).2

/-- A topic that is delivered has its last segment taken if and only if it fits and no zero hides that segment. -/
theorem sub_topic_exact_iff {s : Station} {topic : List Byte} (delivered : DeliveredToHass s topic) :
    SubTopicExact topic ↔ TopicFits topic ∧ lastSegment (cString topic) = lastSegment topic := by
  obtain ⟨last, isLast, nonempty⟩ := delivered_lastSegment delivered
  constructor
  · rintro ⟨-, segment, found, -, kept⟩
    obtain rfl : last = segment := Option.some.inj (isLast.symm.trans found)
    have fits : TopicFits topic := by
      by_contra long
      have overrun := kept []
      rw [getHassMessageSubTopic_overrun long] at overrun
      cases overrun
    have result := kept []
    rw [getHassMessageSubTopic_of_fits fits, Option.some.injEq] at result
    refine ⟨fits, ?_⟩
    rw [isLast, lastSegment]
    cases before : (segments (cString topic)).getLast? with
    | none =>
        -- nothing is copied then, and `sub_topic` stays as it was
        rw [before] at result
        exact absurd result.symm nonempty
    | some segment =>
        rw [before] at result
        exact congrArg some result
  · rintro ⟨fits, same⟩
    have before : (segments (cString topic)).getLast? = some last := same.trans isLast
    refine ⟨Nat.le_of_lt_succ fits.2.1, last, isLast, fits.2.2 last (List.mem_of_getLast? before), fun stack => ?_⟩
    rw [getHassMessageSubTopic_of_fits fits, before]
    rfl

def announcedStation : Station :=
  { stationAtBoot with mqtt := { mqttAtBoot with topicPrefix := ⟨ascii "5ccf7f000001", by decide⟩ } }

def topicUnder (suffix : String) : List Byte :=
  deviceTopic (ascii "5ccf7f000001") announcedStation.sysinfo.macStr (ascii "hass/" ++ ascii suffix)

theorem channel_sub_topic : DeliveredToHass announcedStation (topicUnder "light/channel1/") ∧
    SubTopicExact (topicUnder "light/channel1/") := by
  have delivered : DeliveredToHass announcedStation (topicUnder "light/channel1/") := by decide
  refine ⟨delivered, (sub_topic_exact_iff delivered).mpr ⟨⟨?_, ?_, ?_⟩, ?_⟩⟩ <;> decide

/-- The segment is one character too long for `sub_topic`. -/
theorem long_segment_overruns :
    ¬ (DeliveredToHass announcedStation (topicUnder "a.subtopic.with.a.name.of.exactly.fifty.characters") →
      SubTopicExact (topicUnder "a.subtopic.with.a.name.of.exactly.fifty.characters")) := by
  intro exact_
  obtain ⟨-, segment, -, -, kept⟩ := exact_ (by decide)
  have overrun : getHassMessageSubTopic (topicUnder "a.subtopic.with.a.name.of.exactly.fifty.characters") [] = none := by
    decide
  rw [kept []] at overrun
  cases overrun

end EspFirmware.Proof.App
