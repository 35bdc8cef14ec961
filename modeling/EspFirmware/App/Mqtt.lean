import EspFirmware.App.Print

/-!
The MQTT side of the device, `csro_mqtt.c`, and how the client under it matches a topic name with
the filter of a subscription. The answers of the network come in as a parameter; of the client's own
record there are only `isconnected` and, for the packets, its buffers.
-/

namespace EspFirmware.App
open EspFirmware.Lib

abbrev MQTT_TOPIC_LENGTH : Nat := 100

structure MqttStruct where
  subTopicSelf : CharArray MQTT_TOPIC_LENGTH
  subTopicHass : CharArray MQTT_TOPIC_LENGTH
  subTopicGroup : CharArray MQTT_TOPIC_LENGTH
  pubTopic : CharArray MQTT_TOPIC_LENGTH
  content : CharArray MQTT_BUFFER_LENGTH
  broker : CharArray 50
  topicPrefix : CharArray 50
  isconnected : Bool
  deriving DecidableEq

def groupTopic (topicPrefix : List Byte) : List Byte := topicPrefix ++ ascii "/group"

def deviceTopic (topicPrefix macStr suffix : List Byte) : List Byte :=
  topicPrefix ++ ascii "/" ++ macStr ++ ascii "/" ++ devType ++ ascii "/" ++ suffix

structure Answers where
  networkConnect : Bool
  mqttConnect : Bool
  subscribeSelf : Bool
  subscribeHass : Bool
  subscribeGroup : Bool
  publishAvailable : Bool
  publishState : Bool
  publishSystem : Bool
  publishTimer : Bool
  yield : Bool
  deriving DecidableEq, Repr

def mqttPubMessgae (macStr : List Byte) (suffix : String) (published : Bool) (m : MqttStruct) :
    Option (Bool × MqttStruct) := do
  let pubTopic ← strcpy MQTT_TOPIC_LENGTH (deviceTopic m.topicPrefix.text macStr (ascii suffix))
  let m := { m with pubTopic := pubTopic }
  if published then some (true, m) else some (false, { m with isconnected := false })

def brokerIsConnected (net : Answers) (s : SystemStruct) (m : MqttStruct) :
    Option (Bool × SystemStruct × MqttStruct) :=
  if m.isconnected then some (true, s, m)
  else if m.broker.text = [] ∨ m.topicPrefix.text = [] then some (false, s, m)
  else if net.networkConnect = false then some (false, s, m)
  else do
    let subTopicGroup ← strcpy MQTT_TOPIC_LENGTH (groupTopic m.topicPrefix.text)
    let subTopicSelf ← strcpy MQTT_TOPIC_LENGTH (deviceTopic m.topicPrefix.text s.macStr (ascii "command"))
    let subTopicHass ← strcpy MQTT_TOPIC_LENGTH (deviceTopic m.topicPrefix.text s.macStr (ascii "hass/#"))
    let pubTopic ← strcpy MQTT_TOPIC_LENGTH (deviceTopic m.topicPrefix.text s.macStr (ascii "available"))
    let m := { m with subTopicGroup := subTopicGroup, subTopicSelf := subTopicSelf, subTopicHass := subTopicHass,
                      pubTopic := pubTopic }
    if net.mqttConnect && net.subscribeSelf && net.subscribeHass && net.subscribeGroup then
      let s := { s with servConnCount := s.servConnCount + 1 }
      let content ← strcpy MQTT_BUFFER_LENGTH (ascii "online")
      let (published, m) ← mqttPubMessgae s.macStr "available" net.publishAvailable
        { m with isconnected := true, content := content }
      some (published, s, m)
    else some (false, s, { m with isconnected := false })

structure Due where
  status : Option (CharArray MQTT_BUFFER_LENGTH)
  system : Option (CharArray MQTT_BUFFER_LENGTH)
  timer : Option (CharArray MQTT_BUFFER_LENGTH)

def publishDue (macStr : List Byte) (suffix : String) (published : Bool)
    (message : Option (CharArray MQTT_BUFFER_LENGTH)) (m : MqttStruct) : Option MqttStruct :=
  match message with
  | some content => (mqttPubMessgae macStr suffix published { m with content := content }).map Prod.snd
  | none => some m

def csroMqttTaskRound (net : Answers) (due : Due) (s : SystemStruct) (m : MqttStruct) :
    Option (SystemStruct × MqttStruct) := do
  let (connected, s, m) ← brokerIsConnected net s m
  if connected then
    let m ← publishDue s.macStr "state" net.publishState due.status m
    let m ← publishDue s.macStr "system" net.publishSystem due.system m
    let m ← publishDue s.macStr "timer" net.publishTimer due.timer m
    some (s, if net.yield then m else { m with isconnected := false })
  else some (s, m)

/-! ## Topic filters

A filter is a string, a topic name bytes with their number. -/

def isTopicMatched : List Byte → List Byte → Bool
  | [], [] => true
  | [], _ :: _ => false
  | _ :: _, [] => false
  | f :: topicFilter, c :: topicName =>
      if c = 47 ∧ f ≠ 47 then false
      else if f ≠ 43 ∧ f ≠ 35 ∧ f ≠ c then false
      else if f = 43 then isTopicMatched topicFilter (topicName.dropWhile (· ≠ 47))
      else if f = 35 then isTopicMatched topicFilter []
      else isTopicMatched topicFilter topicName

def delivers (topicFilter topicName : List Byte) : Bool :=
  topicName == topicFilter || isTopicMatched topicFilter topicName

/-!
The packets of the client: how it writes a publish, and how it reads what the broker sends. Bytes that are read outside
a buffer give no result.
-/

structure MQTTHeader where
  type : BitVec 4
  dup : BitVec 1
  qos : BitVec 2
  retain : BitVec 1
  deriving DecidableEq, Repr

def MQTTHeader.byte (h : MQTTHeader) : Byte :=
  BitVec.ofNat 8 (16 * h.type.toNat + 8 * h.dup.toNat + 2 * h.qos.toNat + h.retain.toNat)

def MQTTHeader.ofByte (b : Byte) : MQTTHeader :=
  ⟨BitVec.ofNat 4 (b.toNat / 16), BitVec.ofNat 1 (b.toNat / 8), BitVec.ofNat 2 (b.toNat / 2),
    BitVec.ofNat 1 b.toNat⟩

def PUBLISH : BitVec 4 := 3
def PUBACK : BitVec 4 := 4
def PUBREC : BitVec 4 := 5
def PUBREL : BitVec 4 := 6

def encodeLoop : Nat → Nat → List Byte
  | 0, _ => []
  | fuel + 1, length =>
      if 0 < length / 128 then BitVec.ofNat 8 (length % 128 + 128) :: encodeLoop fuel (length / 128)
      else [BitVec.ofNat 8 (length % 128)]

/-- An `int` has no more than five groups of seven bits. -/
def mqttPacketEncode (length : Nat) : List Byte := encodeLoop 5 length

/-- How many bytes were asked for, the value, and what is left to read. The fifth byte is asked for and not read; a
source that gives no more bytes ends the loop too. -/
def decodeLoop : Nat → Nat → List Byte → Nat × Nat × List Byte
  | 0, _, input => (1, 0, input)
  | _ + 1, _, [] => (1, 0, [])
  | left + 1, multiplier, c :: rest =>
      if 128 ≤ c.toNat then
        let (len, value, rest) := decodeLoop left (multiplier * 128) rest
        (len + 1, c.toNat % 128 * multiplier + value, rest)
      else (1, c.toNat % 128 * multiplier, rest)

def mqttPacketDecode (input : List Byte) : Nat × Nat × List Byte := decodeLoop 4 1 input

def mqttPacketLen (remLen : Nat) : Nat :=
  let remLen := remLen + 1
  if remLen < 128 then remLen + 1
  else if remLen < 16384 then remLen + 2
  else if remLen < 2097151 then remLen + 3
  else remLen + 4

structure MQTTString where
  cstring : Option (List Byte)
  lenstring : List Byte
  deriving DecidableEq, Repr

def mqttStrlen (s : MQTTString) : Nat :=
  match s.cstring with
  | some text => text.length
  | none => s.lenstring.length

def writeInt (anInt : Nat) : List Byte := [BitVec.ofNat 8 (anInt / 256), BitVec.ofNat 8 (anInt % 256)]

def writeCString (string : List Byte) : List Byte := writeInt string.length ++ string

def writeMQTTString (s : MQTTString) : List Byte :=
  if 0 < s.lenstring.length then writeInt s.lenstring.length ++ s.lenstring
  else match s.cstring with
    | some text => writeCString text
    | none => writeInt 0

def readInt : List Byte → Option (Nat × List Byte)
  | a :: b :: rest => some (256 * a.toNat + b.toNat, rest)
  | _ => none

/-- The string, if it was read, what follows, and how far it is from there to `enddata`. -/
def readMQTTLenString (curdata : List Byte) (left : Int) : Option (Option (List Byte) × List Byte × Int) :=
  if 1 < left then do
    let (len, curdata) ← readInt curdata
    let left := left - 2
    if len ≤ left then
      if curdata.length < len then none
      else some (some (curdata.take len), curdata.drop len, left - len)
    else some (none, curdata, left)
  else some (none, curdata, left)

def mqttSerializePublishLength (qos : Nat) (topicName : MQTTString) (payloadlen : Nat) : Nat :=
  let len := 2 + mqttStrlen topicName + payloadlen
  if 0 < qos then len + 2 else len

def mqttSerializePublish (buflen : Nat) (dup : Byte) (qos : Nat) (retained : Byte) (packetid : BitVec 16)
    (topicName : MQTTString) (payload : List Byte) : Option (List Byte) :=
  let remLen := mqttSerializePublishLength qos topicName payload.length
  if buflen < mqttPacketLen remLen then none
  else
    let header : MQTTHeader := ⟨PUBLISH, dup.setWidth 1, BitVec.ofNat 2 qos, retained.setWidth 1⟩
    some (header.byte :: mqttPacketEncode remLen ++ writeMQTTString topicName ++
      (if 0 < qos then writeInt packetid.toNat else []) ++ payload)

def mqttSerializeAck (buflen : Nat) (packettype : BitVec 4) (dup : Byte) (packetid : BitVec 16) : Option (List Byte) :=
  if buflen < 4 then none
  else
    let header : MQTTHeader := ⟨packettype, dup.setWidth 1, if packettype = PUBREL then 1 else 0, 0⟩
    some (header.byte :: mqttPacketEncode 2 ++ writeInt packetid.toNat)

/-- What is read of a publish. The packet id is left as it was for QoS 0; the payload is a place in the buffer. -/
structure PublishData where
  dup : Byte
  qos : Nat
  retained : Byte
  packetid : Option (BitVec 16)
  topicName : List Byte
  payload : List Byte
  payloadlen : Int
  deriving DecidableEq, Repr

def mqttDeserializePublish : List Byte → Option (Nat × Option PublishData)
  | [] => none
  | b :: curdata => do
      let header := MQTTHeader.ofByte b
      if header.type ≠ PUBLISH then some (0, none)
      else
        let (rc, mylen, _) := mqttPacketDecode curdata
        if curdata.length < rc then none
        else
          let (topicName, curdata, left) ← readMQTTLenString (curdata.drop rc) mylen
          match topicName with
          | none => some (rc, none)
          | some topicName =>
              if left < 0 then some (rc, none)
              else
                let qos := header.qos.toNat
                if 0 < qos then do
                  let (packetid, curdata) ← readInt curdata
                  some (1, some ⟨header.dup.setWidth 8, qos, header.retain.setWidth 8,
                    some (BitVec.ofNat 16 packetid), topicName, curdata, left - 2⟩)
                else
                  some (1, some ⟨header.dup.setWidth 8, qos, header.retain.setWidth 8, none, topicName, curdata, left⟩)

def SUCCESS : Int := 0
def FAILURE : Int := -1
def BUFFER_OVERFLOW : Int := -2

structure MQTTClient where
  buf_size : Nat
  readbuf : List Byte
  isconnected : Bool
  /-- what was handed to `deliverMessage` -/
  delivered : List PublishData
  sent : List (List Byte)
  deriving DecidableEq, Repr

def MQTTClient.fill (c : MQTTClient) (bytes : List Byte) : MQTTClient :=
  { c with readbuf := bytes ++ c.readbuf.drop bytes.length }

/-- The type of the packet that is in the buffer now or, as a stream that ends is a time-out, 0, and what is left of the
stream. -/
def readPacket (c : MQTTClient) : List Byte → Int × MQTTClient × List Byte
  | [] => (0, c, [])
  | b :: stream =>
      let (_, remLen, stream) := mqttPacketDecode stream
      let start := b :: mqttPacketEncode remLen
      if c.readbuf.length < start.length + remLen then (BUFFER_OVERFLOW, c.fill start, stream)
      else if stream.length < remLen then (0, c.fill (start ++ stream), [])
      else ((MQTTHeader.ofByte b).type.toNat, c.fill (start ++ stream.take remLen), stream.drop remLen)

def MQTTClient.exit (c : MQTTClient) (rc packetType : Int) : Int × MQTTClient :=
  if rc = SUCCESS then (packetType, c) else (rc, { c with isconnected := false })

/-- The bytes for `sendPacket`, if there are any; for a quality of service of 3, `len` stays 0. -/
def acknowledgement (c : MQTTClient) (data : PublishData) : Option (List Byte) :=
  if data.qos = 1 then mqttSerializeAck c.buf_size PUBACK 0 (data.packetid.getD 0)
  else if data.qos = 2 then mqttSerializeAck c.buf_size PUBREC 0 (data.packetid.getD 0)
  else none

def acknowledge (mqttwrite : Bool) (c : MQTTClient) (data : PublishData) : Int × MQTTClient :=
  if data.qos = 0 then (SUCCESS, c)
  else
    match acknowledgement c data with
    | some bytes => if mqttwrite then (SUCCESS, { c with sent := c.sent ++ [bytes] }) else (FAILURE, c)
    | none => (FAILURE, c)

/-- `cycle` for a publish, with whether the network takes what is sent. Other packets are not for this side of the client,
nor are the pings of `keepalive`. -/
def cyclePublish (mqttwrite : Bool) (c : MQTTClient) (stream : List Byte) : Option (Int × MQTTClient × List Byte) :=
  let (packetType, c, stream) := readPacket c stream
  if packetType < 0 then
    let (rc, c) := c.exit packetType packetType
    some (rc, c, stream)
  else if packetType = PUBLISH.toNat then do
    let (rc, data) ← mqttDeserializePublish c.readbuf
    if rc ≠ 1 then some (packetType, c, stream)
    else
      match data with
      -- the length of the packet had one byte, which is the return code: the topic that is delivered was never set
      | none => none
      | some data =>
          let (rc, c) := acknowledge mqttwrite { c with delivered := c.delivered ++ [data] } data
          let (rc, c) := c.exit rc packetType
          some (rc, c, stream)
  else some (packetType, c, stream)

def cycles (c : MQTTClient) (stream : List Byte) : List Bool → Option (MQTTClient × List Byte)
  | [] => some (c, stream)
  | mqttwrite :: answers => do
      let (rc, c, stream) ← cyclePublish mqttwrite c stream
      if rc < 0 then some (c, stream) else cycles c stream answers

end EspFirmware.App
