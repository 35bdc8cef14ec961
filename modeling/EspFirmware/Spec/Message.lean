import EspFirmware.App.Udp
import EspFirmware.Lib.Run
import EspFirmware.Spec.Time

/-!
What a client may expect of the commands in a self message: alarms go by the numbers they were
published under, and a number out of range changes nothing.
-/

namespace EspFirmware.Spec
open EspFirmware.App

structure OnlyDeletes (msg : Option Json) (n : BitVec 32) : Prop where
  stays : parseLevel1JsonNumber msg "restart" ≠ some 1
  noAdd : alarmAddCommand msg = none
  noModify : alarmModifyCommand msg = none
  noClear : alarmClearCommand msg = none
  object : parseLevel1JsonObject msg "alarm_delete" = true
  index : parseLevel2JsonNumber msg "alarm_delete" "index" = some n

structure OnlyModifies (msg : Option Json) (n : BitVec 32) (e : AlarmEntry) : Prop where
  stays : parseLevel1JsonNumber msg "restart" ≠ some 1
  noAdd : alarmAddCommand msg = none
  noDelete : alarmDeleteCommand msg = none
  noClear : alarmClearCommand msg = none
  object : parseLevel1JsonObject msg "alarm_modify" = true
  index : parseLevel2JsonNumber msg "alarm_modify" "index" = some n
  weekday : (parseLevel2JsonNumber msg "alarm_modify" "weekday").map (·.setWidth 8) = some e.weekday
  minutes : (parseLevel2JsonNumber msg "alarm_modify" "minutes").map (·.setWidth 16) = some e.minutes
  action : (parseLevel2JsonNumber msg "alarm_modify" "action").map (·.setWidth 16) = some e.action

def entryJson (e : AlarmEntry) : Json := .object
  [(ascii "weekday", .number (e.weekday.setWidth 32)),
   (ascii "minutes", .number (e.minutes.setWidth 32)),
   (ascii "action", .number (e.action.setWidth 32))]

def publishedMembers (l : List AlarmEntry) : List (List Byte × Json) :=
  l.mapIdx (fun i e => (ascii (alarmKey (i + 1)), entryJson e)) ++
    [(ascii "count", .number (BitVec.ofNat 32 l.length))]

def PublishesList (alarms : Alarms) : Prop :=
  ∃ members, csroDevicePrepareTimerMessage alarms = .object members ∧
    members.Perm (publishedMembers (alarmList alarms))

def DeletesByNumber (d : App.Device) : Prop :=
  ∀ msg n, OnlyDeletes msg n → 1 ≤ n.toNat → n.toNat ≤ (alarmList d.alarm.alarms).length →
    alarmList (csroDeviceHandleSelfMessage msg d).alarm.alarms =
      (alarmList d.alarm.alarms).eraseIdx (n.toNat - 1)

def ModifiesByNumber (d : App.Device) : Prop :=
  ∀ msg n e, OnlyModifies msg n e → 1 ≤ n.toNat → n.toNat ≤ (alarmList d.alarm.alarms).length →
    alarmList (csroDeviceHandleSelfMessage msg d).alarm.alarms =
      (alarmList d.alarm.alarms).set (n.toNat - 1) e

def IntervalChecked (msg : Option Json) : Prop :=
  ∀ n, parseLevel1JsonNumber msg "interval" = some n → ¬ (2 ≤ n.toNat ∧ n.toNat ≤ 120) →
    ∀ d, (csroDeviceHandleSelfMessage msg d).interval = d.interval ∧
      (csroDeviceHandleSelfMessage msg d).nvsInterval = d.nvsInterval

def ChannelChecked (msg : Option Json) (i : Fin NLIGHT) : Prop :=
  ∀ n, parseLevel1JsonNumber msg (channelName i) = some n → ¬ n.toNat ≤ 2 →
    ∀ d, (csroDeviceHandleSelfMessage msg d).channel i = d.channel i

def Denotes (first count : Nat) (n : BitVec 32) : Prop := first ≤ n.toNat ∧ n.toNat < first + count

def IndexChecked (msg : Option Json) (first count : Nat) (n : BitVec 32) : Prop :=
  ¬ Denotes first count n → ∀ d, (∀ i, (d.alarm.alarms i).valid = decide (i.val < count)) →
    (csroDeviceHandleSelfMessage msg d).alarm.alarms = d.alarm.alarms

structure FieldsChecked (msg : Option Json) (first count : Nat) : Prop where
  interval : IntervalChecked msg
  channel : ∀ i, ChannelChecked msg i
  delete : ∀ n, OnlyDeletes msg n → IndexChecked msg first count n
  modify : ∀ n e, OnlyModifies msg n e → IndexChecked msg first count n

/-- Cutting a number off to the width of the parameter it is passed as does not bring it into
range. -/
structure SurvivesNarrowing (msg : Option Json) (first count : Nat) : Prop where
  interval : ∀ n, parseLevel1JsonNumber msg "interval" = some n →
    (2 ≤ n.toNat ∧ n.toNat ≤ 120) ∨ ¬ (2 ≤ n.toNat % 2 ^ 16 ∧ n.toNat % 2 ^ 16 ≤ 120)
  channel : parseLevel1JsonNumber msg "restart" ≠ some 1 →
    ∀ i n, parseLevel1JsonNumber msg (channelName i) = some n → n.toNat ≤ 2 ∨ 2 < n.toNat % 2 ^ 8
  delete : ∀ n, OnlyDeletes msg n → Denotes first count n ∨ count ≤ (n - 1).toNat % 2 ^ 8
  modify : ∀ n e, OnlyModifies msg n e → Denotes first count n ∨ count ≤ n.toNat % 2 ^ 8

end EspFirmware.Spec

/-!
A message as it reaches a handler: the bytes of the PUBLISH packet, and the memory around them
that the handler may read as well. What a device makes of topics, and of servers that announce themselves.
-/

namespace EspFirmware.Spec
open EspFirmware.App EspFirmware.Lib

inductive Handler where
  | self
  | group
  | hass
  deriving DecidableEq, Repr

structure Publish where
  topic : List Byte
  payload : List Byte

/-- `stale` follows the payload in `recv_buf`; the other two are what the local buffers `payload`
(from the end of the copied bytes on) and `sub_topic` hold on entry. -/
structure Memory where
  stale : List Byte
  payloadStack : List Byte
  subTopicStack : List Byte

def deliver (strtod : Strtod) (h : Handler) (m : Publish) (memory : Memory) (d : App.Device) :
    Option App.Device :=
  match h with
  | .self =>
      some (csroDeviceHandleSelfMessage (cJSONParse strtod (cString (m.payload ++ memory.stale))) d)
  | .group =>
      some (csroDeviceHandleGroupMessage (cJSONParse strtod (cString (m.payload ++ memory.stale))) d)
  | .hass =>
      csroNlightHandleHassMessage m.topic m.payload memory.payloadStack memory.subTopicStack d

/-- The handler stays inside its buffers and its effect is a function of the message alone. -/
def DependsOnlyOnMessage (strtod : Strtod) (h : Handler) (m : Publish) : Prop :=
  ∃ effect : App.Device → App.Device, ∀ memory d, deliver strtod h m memory d = some (effect d)

def ParseDecided (strtod : Strtod) (payload : List Byte) : Prop :=
  0 ∈ payload ∨
    match parseText strtod (textFuel payload) payload with
    | .more => False
    | _ => True

def SelfActs (msg : Option Json) : Prop :=
  (∃ value, parseLevel1JsonNumber msg "interval" = some value ∧
    2 ≤ (value.setWidth 16).toNat ∧ (value.setWidth 16).toNat ≤ 120) ∨
  parseLevel1JsonNumber msg "sysinfo" = some 1 ∨
  parseLevel1JsonNumber msg "alarminfo" = some 1 ∨
  parseLevel1JsonNumber msg "restart" = some 1 ∨
  alarmCommands msg ≠ [] ∨
  ∃ i, parseLevel1JsonNumber msg (channelName i) ≠ none

def GroupActs (msg : Option Json) : Prop := parseLevel1JsonNumber msg "update" = some 1

def TopicFits (topic : List Byte) : Prop :=
  topic.length ≤ 200 ∧ (cString topic).length < 200 ∧
    ∀ s ∈ segments (cString topic), s.length < 50

def NamesChannel (topic : List Byte) : Prop :=
  ∃ i, (segments (cString topic)).getLast? = some (ascii (channelName i))

/-- What a message must be like for its effect not to depend on memory. A payload the parser has
not decided is harmless only if no text it may be continued to asks for anything. -/
def Determined (strtod : Strtod) (m : Publish) : Handler → Prop
  | .self => ParseDecided strtod m.payload ∨
      ∀ tail, ¬ SelfActs (cJSONParse strtod (cString (m.payload ++ tail)))
  | .group => ParseDecided strtod m.payload ∨
      ∀ tail, ¬ GroupActs (cJSONParse strtod (cString (m.payload ++ tail)))
  | .hass => m.payload.length ≤ 200 ∧ TopicFits m.topic ∧
      (NamesChannel m.topic → 0 ∈ m.payload ∨
        ¬ m.payload <+: ascii "on" ∧ ¬ m.payload <+: ascii "off") ∧
      (segments (cString m.topic) = [] →
        ∀ tail, hassCommand (cString (m.payload ++ tail)) = none)

/-- The client hands a packet with this topic name to the handler of `<prefix>/<mac>/<type>/hass/#`. The packet has five
bytes more. -/
structure DeliveredToHass (s : Station) (topic : List Byte) : Prop where
  matched : delivers (deviceTopic s.mqtt.topicPrefix.text s.sysinfo.macStr (ascii "hass/#")) topic = true
  packet : topic.length + 5 ≤ MQTT_BUFFER_LENGTH

instance decidableDeliveredToHass (s : Station) (topic : List Byte) : Decidable (DeliveredToHass s topic) :=
  decidable_of_iff (_ ∧ _) ⟨fun both => ⟨both.1, both.2⟩, fun delivered => ⟨delivered.1, delivered.2⟩⟩

def lastSegment (topic : List Byte) : Option (List Byte) := (segments topic).getLast?

/-- The last segment is found and kept, whatever was in `sub_topic`, and the local buffer has room for the topic. -/
def SubTopicExact (topic : List Byte) : Prop :=
  (cString topic).length ≤ 199 ∧ ∃ segment, lastSegment topic = some segment ∧ segment.length < 50 ∧
    ∀ stack, getHassMessageSubTopic topic stack = some segment

section
variable (strtod : Strtod)

def announced (datagram : List Byte) : Option (List Byte × List Byte) :=
  (cJSONParse strtod (cString (udpRxBuffer datagram))).bind serverStrings

def AnnouncementFits (datagram : List Byte) : Prop :=
  ∀ server ∈ announced strtod datagram, 4 ≤ server.1.length → 10 ≤ server.2.length →
    server.1.length < 50 ∧ server.2.length < 50

instance decidableAnnouncementFits (datagram : List Byte) : Decidable (AnnouncementFits strtod datagram) :=
  Option.decidableForallMem _

def eventFits : StationEvent → Prop
  | .datagram bytes _ => AnnouncementFits strtod bytes
  | .round _ _ => True

def topics (s : Station) : List (List Byte) :=
  groupTopic s.mqtt.topicPrefix.text ::
    ["command", "hass/#", "available", "state", "system", "timer"].map fun suffix =>
      deviceTopic s.mqtt.topicPrefix.text s.sysinfo.macStr (ascii suffix)

def Taken (s s' : Station) : StationEvent → Prop
  | .datagram bytes _ => (s'.mqtt.broker = s.mqtt.broker ∧ s'.mqtt.topicPrefix = s.mqtt.topicPrefix) ∨
      announced strtod bytes = some (s'.mqtt.broker.text, s'.mqtt.topicPrefix.text)
  | .round _ _ => True

def StaysInside (lib : TimeLib) (s : Station) (e : StationEvent) : Prop :=
  ∃ s', stationStep strtod lib s e = some s' ∧ Taken strtod s s' e ∧
    s'.mqtt.broker.text.length < 50 ∧ s'.mqtt.topicPrefix.text.length < 50 ∧
    ∀ topic ∈ topics s', topic.length < MQTT_TOPIC_LENGTH

end

def mqttAtBoot : MqttStruct where
  subTopicSelf := .empty _ (by decide)
  subTopicHass := .empty _ (by decide)
  subTopicGroup := .empty _ (by decide)
  pubTopic := .empty _ (by decide)
  content := .empty _ (by decide)
  broker := .empty _ (by decide)
  topicPrefix := .empty _ (by decide)
  isconnected := false

inductive Delivery where
  | atMostOnce
  | atLeastOnce (id : BitVec 16)
  | exactlyOnce (id : BitVec 16)
  deriving DecidableEq, Repr

structure Publication where
  topic : List Byte
  payload : List Byte
  delivery : Delivery
  dup : Bool
  retained : Bool
  deriving DecidableEq, Repr

def headerFlag (b : Bool) : Byte := if b then 1 else 0

def Delivery.qos : Delivery → Nat
  | .atMostOnce => 0
  | .atLeastOnce _ => 1
  | .exactlyOnce _ => 2

def Delivery.id : Delivery → Option (BitVec 16)
  | .atMostOnce => none
  | .atLeastOnce id | .exactlyOnce id => some id

def Publication.packet (bufSize : Nat) (m : Publication) : Option (List Byte) :=
  mqttSerializePublish bufSize (headerFlag m.dup) m.delivery.qos (headerFlag m.retained) (m.delivery.id.getD 0)
    ⟨some m.topic, []⟩ m.payload

def Publication.ack (m : Publication) : Option (List Byte) :=
  match m.delivery with
  | .atMostOnce => none
  | .atLeastOnce id => some (0x40 :: 2 :: writeInt id.toNat)
  | .exactlyOnce id => some (0x50 :: 2 :: writeInt id.toNat)

structure StandsFor (d : PublishData) (m : Publication) : Prop where
  topic : d.topicName = m.topic
  payload : d.payload.take d.payloadlen.toNat = m.payload
  payloadlen : d.payloadlen = m.payload.length
  qos : d.qos = m.delivery.qos
  packetid : d.packetid = m.delivery.id
  dup : d.dup = headerFlag m.dup
  retained : d.retained = headerFlag m.retained

def topicLength : List Byte → Nat
  | a :: b :: _ => 256 * a.toNat + b.toNat
  | _ => 0

def TopicInside (body : List Byte) : Prop := 2 ≤ body.length ∧ 2 + topicLength body ≤ body.length

def NotAcknowledged (c : MQTTClient) (mqttwrite : Bool) (qos : Nat) : Prop :=
  0 < qos ∧ (qos = 3 ∨ c.buf_size < 4 ∨ mqttwrite = false)

structure PublishEnds (c : MQTTClient) (mqttwrite : Bool) (qos : Nat) (body : List Byte) (rc : Int) (c' : MQTTClient) :
    Prop where
  closes : rc = FAILURE ↔ TopicInside body ∧ NotAcknowledged c mqttwrite qos
  goesOn : rc ≠ FAILURE → rc = PUBLISH.toNat
  session : c'.isconnected = (c.isconnected && decide (rc ≠ FAILURE))
  passedOver : ¬ TopicInside body → c'.delivered = c.delivered
  delivered : TopicInside body → ∃ data, c'.delivered = c.delivered ++ [data] ∧
    data.topicName = (body.drop 2).take (topicLength body) ∧
    (data.payloadlen < 0 ↔ 0 < qos ∧ body.length < topicLength body + 4)

end EspFirmware.Spec
