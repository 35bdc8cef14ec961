import EspFirmware.Spec.Message

namespace EspFirmware.Proof.App
open EspFirmware.App EspFirmware.Spec

theorem not_length_append_lt {α : Type} (l r : List α) : ¬ (l ++ r).length < l.length := by
  rw [List.length_append]
  omega

theorem ofByte_byte (h : MQTTHeader) : MQTTHeader.ofByte h.byte = h := by
  obtain ⟨type, dup, qos, retain⟩ := h
  have byte : (MQTTHeader.byte ⟨type, dup, qos, retain⟩).toNat =
      16 * type.toNat + 8 * dup.toNat + 2 * qos.toNat + retain.toNat := by
    change (BitVec.ofNat 8 (16 * type.toNat + 8 * dup.toNat + 2 * qos.toNat + retain.toNat)).toNat = _
    rw [BitVec.toNat_ofNat]
    omega
  rw [MQTTHeader.ofByte, byte]
  congr <;> apply BitVec.eq_of_toNat_eq <;> rw [BitVec.toNat_ofNat] <;> omega

theorem length_encodeLoop_pos (fuel n : Nat) : 0 < (encodeLoop (fuel + 1) n).length := by
  rw [encodeLoop]
  split <;> simp

theorem group_left {k n : Nat} (small : n < 128 ^ (k + 1)) (more : 0 < n / 128) : n / 128 < 128 ^ k ∧ 0 < k := by
  have less : n / 128 < 128 ^ k := by
    rw [Nat.pow_succ] at small
    exact Nat.div_lt_of_lt_mul (by rw [Nat.mul_comm]; exact small)
  refine ⟨less, Nat.pos_iff_ne_zero.mpr ?_⟩
  rintro rfl
  rw [Nat.pow_zero] at less
  omega

theorem decodeLoop_encodeLoop {left fuel n : Nat} (small : n < 128 ^ left) (some_ : 0 < left) (enough : left ≤ fuel)
    (multiplier : Nat) (rest : List Byte) :
    decodeLoop left multiplier (encodeLoop fuel n ++ rest) = ((encodeLoop fuel n).length, n * multiplier, rest) := by
  induction left generalizing fuel n multiplier with
  | zero => contradiction
  | succ left ih =>
      obtain _ | fuel := fuel
      · contradiction
      rw [encodeLoop]
      split
      · rename_i more
        have digit : (BitVec.ofNat 8 (n % 128 + 128)).toNat = n % 128 + 128 := by
          rw [BitVec.toNat_ofNat]
          omega
        obtain ⟨less, positive⟩ := group_left small more
        rw [List.cons_append, decodeLoop, digit, if_pos (by omega), ih less positive (Nat.le_of_succ_le_succ enough)]
        have value : (n % 128 + 128) % 128 * multiplier + n / 128 * (multiplier * 128) = n * multiplier := by
          rw [Nat.add_mod_right, Nat.mod_mod, Nat.mul_comm multiplier, ← Nat.mul_assoc, ← Nat.add_mul,
            Nat.mul_comm (n / 128), Nat.mod_add_div]
        simp only [value, List.length_cons]
      · rename_i last
        have digit : (BitVec.ofNat 8 (n % 128)).toNat = n := by
          rw [BitVec.toNat_ofNat]
          omega
        have low : n % 128 = n := by omega
        rw [List.cons_append, decodeLoop, digit, if_neg (by omega), low]
        rfl

theorem mqttPacketDecode_encode {n : Nat} (small : n < 2 ^ 28) (rest : List Byte) :
    mqttPacketDecode (mqttPacketEncode n ++ rest) = ((mqttPacketEncode n).length, n, rest) := by
  rw [mqttPacketDecode, mqttPacketEncode, decodeLoop_encodeLoop (by omega) (by decide) (by decide), Nat.mul_one]

theorem length_encodeLoop_le {k fuel n : Nat} (small : n < 128 ^ k) (some_ : 0 < k) :
    (encodeLoop fuel n).length ≤ k := by
  induction k generalizing fuel n with
  | zero => contradiction
  | succ k ih =>
      obtain _ | fuel := fuel
      · exact Nat.zero_le _
      rw [encodeLoop]
      split
      · rename_i more
        obtain ⟨less, positive⟩ := group_left small more
        rw [List.length_cons]
        exact Nat.succ_le_succ (ih less positive)
      · exact Nat.succ_le_succ (Nat.zero_le k)

theorem length_packet_le {n : Nat} (small : n < 2 ^ 28) : 1 + (mqttPacketEncode n).length + n ≤ mqttPacketLen n := by
  have size (k : Nat) (low : n < 128 ^ k) (some_ : 0 < k) : (mqttPacketEncode n).length ≤ k :=
    length_encodeLoop_le low some_
  rw [mqttPacketLen]
  split
  · have := size 1 (by omega) (by decide)
    omega
  split
  · have := size 2 (by omega) (by decide)
    omega
  split
  · have := size 3 (by omega) (by decide)
    omega
  · have := size 4 (by omega) (by decide)
    omega

theorem lt_mqttPacketLen (n : Nat) : n < mqttPacketLen n := by
  rw [mqttPacketLen]
  split
  · omega
  split
  · omega
  split <;> omega

theorem readInt_writeInt {n : Nat} (small : n < 2 ^ 16) (rest : List Byte) :
    readInt (writeInt n ++ rest) = some (n, rest) := by
  have value : 256 * (BitVec.ofNat 8 (n / 256)).toNat + (BitVec.ofNat 8 (n % 256)).toNat = n := by
    rw [BitVec.toNat_ofNat, BitVec.toNat_ofNat]
    omega
  change some (_, rest) = _
  rw [value]

theorem readMQTTLenString_writeCString {topic : List Byte} (short : topic.length < 2 ^ 16) (rest : List Byte)
    {left : Int} (enough : 2 + topic.length ≤ left) :
    readMQTTLenString (writeCString topic ++ rest) left = some (some topic, rest, left - 2 - topic.length) := by
  rw [readMQTTLenString, if_pos (by omega), writeCString, List.append_assoc, readInt_writeInt short]
  change (if (topic.length : Int) ≤ left - 2 then _ else _) = _
  rw [if_pos (by omega), if_neg (by simp), List.take_left, List.drop_left]

def headerOf (m : Publication) : MQTTHeader :=
  ⟨PUBLISH, (headerFlag m.dup).setWidth 1, BitVec.ofNat 2 m.delivery.qos, (headerFlag m.retained).setWidth 1⟩

def idBytes (m : Publication) : List Byte := if 0 < m.delivery.qos then writeInt (m.delivery.id.getD 0).toNat else []

def bodyOf (m : Publication) : List Byte := writeCString m.topic ++ (idBytes m ++ m.payload)

theorem length_bodyOf (m : Publication) :
    (bodyOf m).length = mqttSerializePublishLength m.delivery.qos ⟨some m.topic, []⟩ m.payload.length := by
  rw [bodyOf, idBytes, mqttSerializePublishLength]
  split <;> simp [writeCString, writeInt, mqttStrlen] <;> omega

theorem packet_eq {bufSize : Nat} {m : Publication} {p : List Byte} (written : m.packet bufSize = some p) :
    p = (headerOf m).byte :: (mqttPacketEncode (bodyOf m).length ++ bodyOf m) ∧
      mqttPacketLen (bodyOf m).length ≤ bufSize := by
  rw [Publication.packet, mqttSerializePublish, ← length_bodyOf] at written
  simp only at written
  split at written
  · contradiction
  · rename_i fits
    refine ⟨?_, Nat.not_lt.mp fits⟩
    rw [← Option.some.inj written, bodyOf, idBytes, List.append_assoc, List.append_assoc]
    rfl

def dataOf (m : Publication) (behind : List Byte) : PublishData :=
  ⟨headerFlag m.dup, m.delivery.qos, headerFlag m.retained, m.delivery.id, m.topic, m.payload ++ behind,
    m.payload.length⟩

theorem standsFor_dataOf (m : Publication) (behind : List Byte) : StandsFor (dataOf m behind) m where
  topic := rfl
  payload := List.take_left
  payloadlen := rfl
  qos := rfl
  packetid := rfl
  dup := rfl
  retained := rfl

theorem headerFlag_bit (b : Bool) : ((headerFlag b).setWidth 1).setWidth 8 = headerFlag b := by
  cases b <;> rfl

theorem qos_bits (d : Delivery) : (BitVec.ofNat 2 d.qos).toNat = d.qos := by
  cases d <;> rfl

theorem id_of_qos {d : Delivery} (acknowledged : 0 < d.qos) : ∃ id, d.id = some id := by
  cases d with
  | atMostOnce => contradiction
  | atLeastOnce id => exact ⟨id, rfl⟩
  | exactlyOnce id => exact ⟨id, rfl⟩

theorem id_of_not_qos {d : Delivery} (none_ : ¬ 0 < d.qos) : d.id = none := by
  cases d with
  | atMostOnce => rfl
  | atLeastOnce id => exact absurd Nat.one_pos none_
  | exactlyOnce id => exact absurd Nat.two_pos none_

theorem deserialize_packet {m : Publication} (short : m.topic.length < 2 ^ 16) (small : (bodyOf m).length < 2 ^ 28)
    (behind : List Byte) :
    mqttDeserializePublish ((headerOf m).byte :: (mqttPacketEncode (bodyOf m).length ++ bodyOf m) ++ behind) =
      some (1, some (dataOf m behind)) := by
  have length : (bodyOf m).length = 2 + m.topic.length + (idBytes m).length + m.payload.length := by
    simp [bodyOf, writeCString, writeInt]
    omega
  have text : bodyOf m ++ behind = writeCString m.topic ++ (idBytes m ++ (m.payload ++ behind)) := by
    rw [bodyOf]
    simp only [List.append_assoc]
  have string := readMQTTLenString_writeCString short (idBytes m ++ (m.payload ++ behind))
    (show 2 + (m.topic.length : Int) ≤ ((bodyOf m).length : Int) by omega)
  have isPublish : ¬ (headerOf m).type ≠ PUBLISH := not_not_intro rfl
  have left : ¬ (((bodyOf m).length : Int) - 2 - m.topic.length < 0) := by omega
  rw [List.cons_append, mqttDeserializePublish, ofByte_byte, if_neg isPublish, List.append_assoc,
    mqttPacketDecode_encode small]
  simp only
  rw [if_neg (not_length_append_lt _ _), List.drop_left, text, string]
  simp only [Option.bind_eq_bind, Option.bind_some]
  rw [if_neg left]
  have qos : (headerOf m).qos.toNat = m.delivery.qos := qos_bits m.delivery
  have dup : (headerOf m).dup.setWidth 8 = headerFlag m.dup := headerFlag_bit m.dup
  have retained : (headerOf m).retain.setWidth 8 = headerFlag m.retained := headerFlag_bit m.retained
  rw [qos, dup, retained]
  by_cases acknowledged : 0 < m.delivery.qos
  · obtain ⟨id, same⟩ := id_of_qos acknowledged
    have bytes : idBytes m = writeInt id.toNat := by rw [idBytes, if_pos acknowledged, same, Option.getD_some]
    have rest : ((bodyOf m).length : Int) - 2 - m.topic.length - 2 = m.payload.length := by
      rw [length, bytes, show (writeInt id.toNat).length = 2 from rfl]
      omega
    rw [if_pos acknowledged, bytes, readInt_writeInt id.isLt]
    simp only [Option.bind_some]
    rw [BitVec.ofNat_toNat, BitVec.setWidth_eq, rest, dataOf, same]
  · have bytes : idBytes m = [] := if_neg acknowledged
    have rest : ((bodyOf m).length : Int) - 2 - m.topic.length = m.payload.length := by
      rw [length, bytes, List.length_nil]
      omega
    rw [if_neg acknowledged, bytes, List.nil_append, rest, dataOf, id_of_not_qos acknowledged]

def received (c : MQTTClient) (m : Publication) (p : List Byte) : MQTTClient :=
  { c with
    readbuf := p ++ c.readbuf.drop p.length
    delivered := c.delivered ++ [dataOf m (c.readbuf.drop p.length)]
    sent := c.sent ++ m.ack.toList }

theorem readPacket_body {c : MQTTClient} {b : Byte} {body : List Byte} (small : body.length < 2 ^ 28)
    (room : (b :: (mqttPacketEncode body.length ++ body)).length ≤ c.readbuf.length) (rest : List Byte) :
    readPacket c (b :: (mqttPacketEncode body.length ++ body) ++ rest) =
      (((MQTTHeader.ofByte b).type.toNat : Int), c.fill (b :: (mqttPacketEncode body.length ++ body)), rest) := by
  rw [List.length_cons, List.length_append] at room
  have size : ¬ c.readbuf.length < (b :: mqttPacketEncode body.length).length + body.length := by
    rw [List.length_cons]
    omega
  rw [List.cons_append, List.append_assoc, readPacket, mqttPacketDecode_encode small]
  simp only
  rw [if_neg size, if_neg (not_length_append_lt _ _), List.take_left, List.drop_left]
  rfl

theorem serializeAck_eq {bufSize : Nat} (room : 4 ≤ bufSize) (packettype : BitVec 4) (id : BitVec 16) :
    mqttSerializeAck bufSize packettype 0 id =
      some ((MQTTHeader.mk packettype 0 (if packettype = PUBREL then 1 else 0) 0).byte :: 2 :: writeInt id.toNat) := by
  rw [mqttSerializeAck, if_neg (by omega)]
  rfl

theorem cyclePublish_parsed {mqttwrite : Bool} {stream rest : List Byte} {filled : MQTTClient} {data : PublishData}
    (read : readPacket c stream = ((PUBLISH.toNat : Int), filled, rest))
    (parsed : mqttDeserializePublish filled.readbuf = some (1, some data)) {ended : Int × MQTTClient}
    (ends : acknowledge mqttwrite { filled with delivered := filled.delivered ++ [data] } data = ended) :
    cyclePublish mqttwrite c stream =
      some ((ended.2.exit ended.1 PUBLISH.toNat).1, (ended.2.exit ended.1 PUBLISH.toNat).2, rest) := by
  rw [cyclePublish, read]
  simp only
  rw [if_neg (by decide), if_pos trivial, parsed]
  simp only [Option.bind_eq_bind, Option.bind_some]
  rw [if_neg (not_not_intro rfl), ends]

theorem cyclePublish_unread {mqttwrite : Bool} {stream rest : List Byte} {filled : MQTTClient}
    (read : readPacket c stream = ((PUBLISH.toNat : Int), filled, rest))
    (outside : mqttDeserializePublish filled.readbuf = none) : cyclePublish mqttwrite c stream = none := by
  rw [cyclePublish, read]
  simp only
  rw [if_neg (by decide), if_pos trivial, outside]
  rfl

theorem cyclePublish_untopical {mqttwrite : Bool} {stream rest : List Byte} {filled : MQTTClient} {rc : Nat}
    (read : readPacket c stream = ((PUBLISH.toNat : Int), filled, rest))
    (parsed : mqttDeserializePublish filled.readbuf = some (rc, none)) :
    cyclePublish mqttwrite c stream = if rc = 1 then none else some ((PUBLISH.toNat : Int), filled, rest) := by
  rw [cyclePublish, read]
  simp only
  rw [if_neg (by decide), if_pos trivial, parsed]
  simp only [Option.bind_eq_bind, Option.bind_some]
  by_cases one : rc = 1
  · rw [if_neg (not_not_intro one), if_pos one]
  · rw [if_pos one, if_neg one]

theorem acknowledge_dataOf {c : MQTTClient} (ackRoom : 4 ≤ c.buf_size) (m : Publication) (behind : List Byte) :
    acknowledge true c (dataOf m behind) = (SUCCESS, { c with sent := c.sent ++ m.ack.toList }) := by
  cases kind : m.delivery with
  | atMostOnce =>
      have qos : (dataOf m behind).qos = 0 := by rw [dataOf, kind]; rfl
      have ack : m.ack.toList = [] := by rw [Publication.ack, kind]; rfl
      rw [acknowledge, if_pos qos, ack, List.append_nil]
  | atLeastOnce id =>
      have qos : (dataOf m behind).qos = 1 := by rw [dataOf, kind]; rfl
      have packetid : (dataOf m behind).packetid = some id := by rw [dataOf, kind]; rfl
      have ack : m.ack.toList = [0x40 :: 2 :: writeInt id.toNat] := by rw [Publication.ack, kind]; rfl
      have bytes : acknowledgement c (dataOf m behind) = some (0x40 :: 2 :: writeInt id.toNat) := by
        rw [acknowledgement, qos, packetid, if_pos rfl, Option.getD_some, serializeAck_eq ackRoom]
        rfl
      rw [acknowledge, if_neg (by rw [qos]; decide), bytes, ack]
      rfl
  | exactlyOnce id =>
      have qos : (dataOf m behind).qos = 2 := by rw [dataOf, kind]; rfl
      have packetid : (dataOf m behind).packetid = some id := by rw [dataOf, kind]; rfl
      have ack : m.ack.toList = [0x50 :: 2 :: writeInt id.toNat] := by rw [Publication.ack, kind]; rfl
      have bytes : acknowledgement c (dataOf m behind) = some (0x50 :: 2 :: writeInt id.toNat) := by
        rw [acknowledgement, qos, packetid, if_neg (by decide), if_pos rfl, Option.getD_some, serializeAck_eq ackRoom]
        rfl
      rw [acknowledge, if_neg (by rw [qos]; decide), bytes, ack]
      rfl

theorem cyclePublish_packet {c : MQTTClient} {bufSize : Nat} {m : Publication} {p : List Byte}
    (written : m.packet bufSize = some p) (short : m.topic.length < 2 ^ 16) (room : p.length ≤ c.readbuf.length)
    (small : c.readbuf.length ≤ 2 ^ 28) (ackRoom : 4 ≤ c.buf_size) (rest : List Byte) :
    cyclePublish true c (p ++ rest) = some ((PUBLISH.toNat : Int), received c m p, rest) := by
  obtain ⟨is, _⟩ := packet_eq written
  have less : (bodyOf m).length < 2 ^ 28 := by
    rw [is, List.length_cons, List.length_append] at room
    omega
  have parsed := deserialize_packet short less (c.readbuf.drop p.length)
  have filled : readPacket c (p ++ rest) = ((PUBLISH.toNat : Int), c.fill p, rest) := by
    rw [is] at room ⊢
    rw [readPacket_body less room, ofByte_byte]
    rfl
  rw [← is] at parsed
  have acked := @acknowledge_dataOf
    { c.fill p with delivered := c.delivered ++ [dataOf m (c.readbuf.drop p.length)] } ackRoom m (c.readbuf.drop p.length)
  rw [cyclePublish_parsed filled parsed acked]
  rfl

theorem length_readbuf_received {c : MQTTClient} {m : Publication} {p : List Byte}
    (room : p.length ≤ c.readbuf.length) : (received c m p).readbuf.length = c.readbuf.length := by
  change (p ++ c.readbuf.drop p.length).length = _
  rw [List.length_append, List.length_drop]
  omega

def twoPublications : List Publication :=
  [⟨[116], [49], .atMostOnce, false, true⟩, ⟨[116, 47, 117], [], .atLeastOnce 258, true, false⟩]

variable {c : MQTTClient} {b : Byte} {body : List Byte}

theorem readInt_eq_none (l : List Byte) : readInt l = none ↔ l.length < 2 := by
  match l with
  | [] => exact ⟨fun _ => Nat.two_pos, fun _ => rfl⟩
  | [_] => exact ⟨fun _ => Nat.one_lt_two, fun _ => rfl⟩
  | _ :: _ :: rest => exact ⟨nofun, fun short => absurd short (by simp)⟩

theorem readMQTTLenString_fits (fits : TopicInside body) (behind : List Byte) :
    readMQTTLenString (body ++ behind) body.length =
      some (some ((body.drop 2 ++ behind).take (topicLength body)), (body.drop 2 ++ behind).drop (topicLength body),
        (body.length : Int) - 2 - topicLength body) := by
  obtain ⟨two, inside⟩ := fits
  match body with
  | a :: d :: tail =>
      have room : (256 * a.toNat + d.toNat : Nat) ≤ (((a :: d :: tail).length : Nat) : Int) - 2 := by
        rw [topicLength] at inside
        omega
      have there : ¬ (tail ++ behind).length < 256 * a.toNat + d.toNat := by
        rw [topicLength, List.length_cons, List.length_cons] at inside
        rw [List.length_append]
        omega
      rw [readMQTTLenString, if_pos (by omega)]
      exact (if_pos room).trans (if_neg there)

theorem readMQTTLenString_unfit (unfit : ¬ TopicInside body) (behind : List Byte) :
    ∃ curdata left, readMQTTLenString (body ++ behind) body.length = some (none, curdata, left) := by
  by_cases two : 2 ≤ body.length
  · match body with
    | a :: d :: tail =>
        have far : ¬ (256 * a.toNat + d.toNat : Nat) ≤ (((a :: d :: tail).length : Nat) : Int) - 2 := by
          intro inside
          refine unfit ⟨two, ?_⟩
          rw [topicLength]
          omega
        refine ⟨tail ++ behind, (((a :: d :: tail).length : Nat) : Int) - 2, ?_⟩
        rw [readMQTTLenString, if_pos (by omega)]
        exact if_neg far
  · refine ⟨body ++ behind, body.length, ?_⟩
    rw [readMQTTLenString, if_neg (by omega)]

structure ReadAs (b : Byte) (body : List Byte) (data : PublishData) : Prop where
  qos : data.qos = (MQTTHeader.ofByte b).qos.toNat
  topicName : data.topicName = (body.drop 2).take (topicLength body)
  payloadlen : data.payloadlen =
    body.length - 2 - topicLength body - if 0 < (MQTTHeader.ofByte b).qos.toNat then 2 else 0

theorem deserialize_fits (publish : (MQTTHeader.ofByte b).type = PUBLISH) (small : body.length < 2 ^ 28)
    (fits : TopicInside body) (behind : List Byte) :
    (mqttDeserializePublish (b :: (mqttPacketEncode body.length ++ body) ++ behind) = none ↔
      0 < (MQTTHeader.ofByte b).qos.toNat ∧ (body ++ behind).length < 2 + topicLength body + 2) ∧
    ∀ rc data, mqttDeserializePublish (b :: (mqttPacketEncode body.length ++ body) ++ behind) = some (rc, data) →
      rc = 1 ∧ ∃ d, data = some d ∧ ReadAs b body d := by
  have inside := fits.2
  have left : ¬ ((body.length : Int) - 2 - topicLength body < 0) := by omega
  have behindTopic : ((body.drop 2 ++ behind).drop (topicLength body)).length < 2 ↔
      (body ++ behind).length < 2 + topicLength body + 2 := by
    simp only [List.length_drop, List.length_append]
    omega
  have topic : (body.drop 2 ++ behind).take (topicLength body) = (body.drop 2).take (topicLength body) := by
    refine List.take_append_of_le_length ?_
    rw [List.length_drop]
    omega
  rw [List.cons_append, mqttDeserializePublish, if_neg (not_not_intro publish), List.append_assoc,
    mqttPacketDecode_encode small]
  simp only
  rw [if_neg (not_length_append_lt _ _), List.drop_left, readMQTTLenString_fits fits]
  simp only [Option.bind_eq_bind, Option.bind_some]
  rw [if_neg left]
  by_cases acknowledged : 0 < (MQTTHeader.ofByte b).qos.toNat
  · rw [if_pos acknowledged, ← behindTopic, ← readInt_eq_none]
    cases read : readInt ((body.drop 2 ++ behind).drop (topicLength body)) with
    | none => exact ⟨⟨fun _ => ⟨acknowledged, rfl⟩, fun _ => rfl⟩, nofun⟩
    | some id =>
        refine ⟨⟨nofun, fun both => nomatch both.2⟩, ?_⟩
        rintro rc data same
        cases same
        exact ⟨rfl, _, rfl, rfl, topic, by rw [if_pos acknowledged]⟩
  · rw [if_neg acknowledged]
    refine ⟨⟨nofun, fun both => absurd both.1 acknowledged⟩, ?_⟩
    rintro rc data same
    cases same
    exact ⟨rfl, _, rfl, rfl, topic, by rw [if_neg acknowledged, Int.sub_zero]⟩

theorem deserialize_unfit (publish : (MQTTHeader.ofByte b).type = PUBLISH) (small : body.length < 2 ^ 28)
    (unfit : ¬ TopicInside body) (behind : List Byte) :
    mqttDeserializePublish (b :: (mqttPacketEncode body.length ++ body) ++ behind) =
      some ((mqttPacketEncode body.length).length, none) := by
  obtain ⟨curdata, left, read⟩ := readMQTTLenString_unfit unfit behind
  rw [List.cons_append, mqttDeserializePublish, if_neg (not_not_intro publish), List.append_assoc,
    mqttPacketDecode_encode small]
  simp only
  rw [if_neg (not_length_append_lt _ _), List.drop_left, read]
  rfl

theorem length_encode_eq_one (n : Nat) : (mqttPacketEncode n).length = 1 ↔ n < 128 := by
  rw [mqttPacketEncode, encodeLoop]
  split
  · have more : 0 < (encodeLoop 4 (n / 128)).length := length_encodeLoop_pos 3 (n / 128)
    rw [List.length_cons]
    omega
  · simp only [List.length_singleton, true_iff]
    omega

theorem acknowledgement_eq_none (c : MQTTClient) {data : PublishData} (asks : data.qos ≠ 0) (bits : data.qos < 4) :
    acknowledgement c data = none ↔ data.qos = 3 ∨ c.buf_size < 4 := by
  have short (packettype : BitVec 4) :
      mqttSerializeAck c.buf_size packettype 0 (data.packetid.getD 0) = none ↔ c.buf_size < 4 := by
    rw [mqttSerializeAck]
    split
    case isTrue less => exact iff_of_true rfl less
    case isFalse room => exact iff_of_false nofun room
  rw [acknowledgement]
  split
  case isTrue one => rw [short, one, or_iff_right (by decide)]
  case isFalse notOne =>
    split
    case isTrue two => rw [short, two, or_iff_right (by decide)]
    case isFalse notTwo => exact iff_of_true rfl (.inl (by omega))

theorem publish_ne_failure : (PUBLISH.toNat : Int) ≠ FAILURE := by decide

theorem acknowledge_cases (mqttwrite : Bool) (c : MQTTClient) {data : PublishData} (bits : data.qos < 4) :
    (NotAcknowledged c mqttwrite data.qos ∧ acknowledge mqttwrite c data = (FAILURE, c)) ∨
      (¬ NotAcknowledged c mqttwrite data.qos ∧
        ∃ sent, acknowledge mqttwrite c data = (SUCCESS, { c with sent := sent })) := by
  by_cases none_ : data.qos = 0
  · refine .inr ⟨fun not => absurd not.1 (by omega), c.sent, ?_⟩
    rw [acknowledge, if_pos none_]
  have asks : 0 < data.qos := by omega
  have unwritten := acknowledgement_eq_none c none_ bits
  rw [acknowledge, if_neg none_]
  cases bytes : acknowledgement c data with
  | none => exact .inl ⟨⟨asks, (unwritten.mp bytes).imp_right .inl⟩, rfl⟩
  | some bytes =>
      have possible : ¬ (data.qos = 3 ∨ c.buf_size < 4) := fun not => by
        rw [unwritten.mpr not] at bytes
        cases bytes
      cases mqttwrite with
      | true =>
          refine .inr ⟨fun not => ?_, _, rfl⟩
          rcases not.2 with three | short | refused
          · exact possible (.inl three)
          · exact possible (.inr short)
          · cases refused
      | false => exact .inl ⟨⟨asks, .inr (.inr rfl)⟩, rfl⟩

theorem publishEnds_parsed {mqttwrite : Bool} {filled : MQTTClient} {data : PublishData} (fits : TopicInside body)
    (readAs : ReadAs b body data) (size : filled.buf_size = c.buf_size) (session : filled.isconnected = c.isconnected)
    (delivered : filled.delivered = c.delivered ++ [data]) :
    PublishEnds c mqttwrite (MQTTHeader.ofByte b).qos.toNat body
      ((acknowledge mqttwrite filled data).2.exit (acknowledge mqttwrite filled data).1 PUBLISH.toNat).1
      ((acknowledge mqttwrite filled data).2.exit (acknowledge mqttwrite filled data).1 PUBLISH.toNat).2 := by
  have inside := fits.2
  have message : ∃ d, c.delivered ++ [data] = c.delivered ++ [d] ∧
      d.topicName = (body.drop 2).take (topicLength body) ∧
      (d.payloadlen < 0 ↔ 0 < (MQTTHeader.ofByte b).qos.toNat ∧ body.length < topicLength body + 4) := by
    refine ⟨data, rfl, readAs.topicName, ?_⟩
    rw [readAs.payloadlen]
    split <;> omega
  have bits : data.qos < 4 := by
    rw [readAs.qos]
    exact (MQTTHeader.ofByte b).qos.isLt
  have same : NotAcknowledged filled mqttwrite data.qos ↔ NotAcknowledged c mqttwrite (MQTTHeader.ofByte b).qos.toNat := by
    rw [NotAcknowledged, NotAcknowledged, size, readAs.qos]
  rcases acknowledge_cases mqttwrite filled bits with ⟨fails, ends⟩ | ⟨works, sent, ends⟩
  · rw [ends]
    exact {
      closes := iff_of_true rfl ⟨fits, same.mp fails⟩
      goesOn := fun other => absurd rfl other
      session := by simp [MQTTClient.exit, FAILURE, SUCCESS]
      passedOver := fun unfit => absurd fits unfit
      delivered := fun _ => delivered ▸ message }
  · rw [ends]
    exact {
      closes := iff_of_false publish_ne_failure fun both => works (same.mpr both.2)
      goesOn := fun _ => rfl
      session := by simp [MQTTClient.exit, FAILURE, PUBLISH, session]
      passedOver := fun unfit => absurd fits unfit
      delivered := fun _ => delivered ▸ message }

/-- A publish of fewer than 128 bytes with a topic longer than the packet is taken for a good one. -/
theorem goes_wrong_iff (publish : (MQTTHeader.ofByte b).type = PUBLISH) (small : body.length < 2 ^ 28)
    (room : (b :: (mqttPacketEncode body.length ++ body)).length ≤ c.readbuf.length) (mqttwrite : Bool)
    (rest : List Byte) :
    (cyclePublish mqttwrite c (b :: (mqttPacketEncode body.length ++ body) ++ rest) = none ↔
      (body.length < 128 ∧ ¬ TopicInside body) ∨
      (TopicInside body ∧ 0 < (MQTTHeader.ofByte b).qos.toNat ∧
        c.readbuf.length < 1 + (mqttPacketEncode body.length).length + 2 + topicLength body + 2)) ∧
    ∀ rc c' stream,
      cyclePublish mqttwrite c (b :: (mqttPacketEncode body.length ++ body) ++ rest) = some (rc, c', stream) →
      stream = rest ∧ PublishEnds c mqttwrite (MQTTHeader.ofByte b).qos.toNat body rc c' := by
  have filled := readPacket_body (c := c) small room rest
  rw [publish] at filled
  have buffer : (c.fill (b :: (mqttPacketEncode body.length ++ body))).readbuf =
      b :: (mqttPacketEncode body.length ++ body) ++
        c.readbuf.drop (b :: (mqttPacketEncode body.length ++ body)).length := rfl
  have size : (body ++ c.readbuf.drop (b :: (mqttPacketEncode body.length ++ body)).length).length +
      (1 + (mqttPacketEncode body.length).length) = c.readbuf.length := by
    rw [List.length_cons, List.length_append] at room
    rw [List.length_append, List.length_drop, List.length_cons, List.length_append]
    omega
  by_cases fits : TopicInside body
  · obtain ⟨outside, good⟩ := deserialize_fits publish small fits
      (c.readbuf.drop (b :: (mqttPacketEncode body.length ++ body)).length)
    have far : (TopicInside body ∧ 0 < (MQTTHeader.ofByte b).qos.toNat ∧
        c.readbuf.length < 1 + (mqttPacketEncode body.length).length + 2 + topicLength body + 2) ↔
        mqttDeserializePublish (b :: (mqttPacketEncode body.length ++ body) ++
          c.readbuf.drop (b :: (mqttPacketEncode body.length ++ body)).length) = none := by
      rw [outside, and_iff_right fits]
      exact and_congr_right fun _ => by omega
    rw [far, or_iff_right fun unfit => unfit.2 fits]
    rw [← buffer] at good ⊢
    cases read : mqttDeserializePublish (c.fill (b :: (mqttPacketEncode body.length ++ body))).readbuf with
    | none =>
        rw [cyclePublish_unread filled read]
        exact ⟨iff_of_true rfl rfl, nofun⟩
    | some out =>
        obtain ⟨rc, data⟩ := out
        obtain ⟨rfl, d, rfl, readAs⟩ := good rc data read
        rw [cyclePublish_parsed filled read rfl]
        refine ⟨iff_of_false nofun nofun, ?_⟩
        rintro rc c' stream same
        cases same
        exact ⟨rfl, publishEnds_parsed fits readAs rfl rfl rfl⟩
  · have parsed := deserialize_unfit publish small fits
      (c.readbuf.drop (b :: (mqttPacketEncode body.length ++ body)).length)
    rw [← buffer] at parsed
    rw [or_iff_left fun both => fits both.1, and_iff_left fits, ← length_encode_eq_one,
      cyclePublish_untopical filled parsed]
    by_cases one : (mqttPacketEncode body.length).length = 1
    · rw [if_pos one]
      exact ⟨iff_of_true rfl one, nofun⟩
    · rw [if_neg one]
      refine ⟨iff_of_false nofun one, ?_⟩
      rintro rc c' stream same
      cases same
      exact ⟨rfl, {
        closes := iff_of_false publish_ne_failure fun both => fits both.1
        goesOn := fun _ => rfl
        session := by simp [MQTTClient.fill, FAILURE, PUBLISH]
        passedOver := fun _ => rfl
        delivered := fun inside => absurd inside fits }⟩

/-- A packet too short to have a topic, one whose packet id lies behind its end, and one with the quality of service that
there is not. -/
theorem goes_wrong_short :
    cyclePublish true ⟨100, List.replicate 20 0, true, [], []⟩ [0x30, 1, 5] = none ∧
    (∃ c', cyclePublish true ⟨100, List.replicate 20 0, true, [], []⟩ [0x32, 3, 0, 1, 116] = some (3, c', []) ∧
      ∃ data ∈ c'.delivered, data.payloadlen < 0) ∧
    ∃ c', cyclePublish true ⟨100, List.replicate 20 0, true, [], []⟩ [0x36, 4, 0, 1, 116, 9] = some (FAILURE, c', []) ∧
      c'.isconnected = false := by
  have nowhere := @goes_wrong_iff ⟨100, List.replicate 20 0, true, [], []⟩ 0x30 [5] rfl (by decide) (by decide) true []
  have noId := @goes_wrong_iff ⟨100, List.replicate 20 0, true, [], []⟩ 0x32 [0, 1, 116] rfl (by decide) (by decide)
    true []
  have noQos := @goes_wrong_iff ⟨100, List.replicate 20 0, true, [], []⟩ 0x36 [0, 1, 116, 9] rfl (by decide)
    (by decide) true []
  refine ⟨nowhere.1.mpr (.inl ⟨by decide, fun fits => absurd fits.1 (by decide)⟩), ?_, ?_⟩
  · obtain ⟨_, ends⟩ := noId.2 3 _ [] rfl
    obtain ⟨data, delivered, _, negative⟩ := ends.delivered ⟨by decide, by decide⟩
    exact ⟨_, rfl, data, delivered ▸ List.mem_cons_self, negative.mpr ⟨by decide, by decide⟩⟩
  · obtain ⟨_, ends⟩ := noQos.2 FAILURE _ [] rfl
    exact ⟨_, rfl, ends.session⟩

end EspFirmware.Proof.App
