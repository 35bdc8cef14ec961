import EspFirmware.Proof.Modbus.Response

/-!
Coils and registers on their way through frames.
-/

namespace EspFirmware.Proof.Modbus
open EspFirmware.Lib EspFirmware.Modbus ModbusMaster

theorem testBit_bitsNumber (bits : List Bool) (k : Nat) : (bitsNumber bits).testBit k = bits.getD k false := by
  induction bits generalizing k with
  | nil => exact Nat.zero_testBit k
  | cons b rest ih =>
      have small : b.toNat < 2 := b.toNat_lt
      cases k with
      | zero =>
          rw [bitsNumber, Nat.testBit_zero, Nat.add_mul_mod_self_left, Nat.mod_eq_of_lt small]
          cases b <;> rfl
      | succ k =>
          have half : (b.toNat + 2 * bitsNumber rest) / 2 = bitsNumber rest := by omega
          rw [bitsNumber, Nat.testBit_succ, half, ih]
          rfl

theorem packCoils_bit (bits : List Bool) (j : Nat) {k : Nat} (inside : k < 8) :
    ((packCoils bits).getD j 0).getLsbD k = bits.getD (8 * j + k) false := by
  unfold packCoils
  simp only [List.getD_eq_getElem?_getD]
  by_cases byte : j < (bits.length + 7) / 8
  · rw [List.getElem?_map, List.getElem?_range byte, Option.map_some, Option.getD_some, BitVec.getLsbD_ofNat,
      testBit_bitsNumber, List.getD_eq_getElem?_getD, List.getElem?_take, if_pos inside, List.getElem?_drop]
    simp only [inside, decide_true, Bool.true_and]
  · rw [List.getElem?_map, List.getElem?_eq_none (by rw [List.length_range]; omega),
      List.getElem?_eq_none (show bits.length ≤ 8 * j + k by omega)]
    exact BitVec.getLsbD_zero

def Packed (qty : BitVec 8) (values : Nat → BitVec 8) (rounds : Nat) (data : Memory) : Prop :=
  ∀ byte k, k < 8 → 8 ≤ k + min 8 (rounds - 8 * byte) →
    (data byte).getLsbD k = (coilValues qty values).getD (8 * byte + k + min 8 (rounds - 8 * byte) - 8) false

theorem coilValues_getD (qty : BitVec 8) (values : Nat → BitVec 8) (i : Nat) :
    (coilValues qty values).getD i false = decide (i < qty.toNat ∧ values i = 1) := by
  unfold coilValues
  rw [List.getD_eq_getElem?_getD, List.getElem?_map]
  by_cases inside : i < qty.toNat
  · rw [List.getElem?_range inside]
    simp [inside]
  · rw [List.getElem?_eq_none (by rw [List.length_range]; omega)]
    simp [inside]

theorem shifted_bits : ∀ (b : BitVec 8) (k : Fin 8),
    (b >>> 1 ||| 0x80).getLsbD k = (if k.val = 7 then true else b.getLsbD (k.val + 1)) ∧
      (b >>> 1 &&& 0x7F).getLsbD k = (if k.val = 7 then false else b.getLsbD (k.val + 1)) ∧
      (b >>> 1).getLsbD k = (if k.val = 7 then false else b.getLsbD (k.val + 1)) := by
  decide +kernel

theorem packed_step {qty : BitVec 8} {values : Nat → BitVec 8} {i : Nat} {data : Memory}
    (packed : Packed qty values i data) :
    Packed qty values (i + 1) (Function.update data (i / 8)
      (if i < qty.toNat then
        if values i = 1 then data (i / 8) >>> 1 ||| 0x80 else data (i / 8) >>> 1 &&& 0x7F
      else data (i / 8) >>> 1)) := by
  intro byte k inside long
  by_cases here : byte = i / 8
  · subst here
    rw [Function.update_self]
    -- the bit on top is the value of this round, the others move down
    have bit : (if i < qty.toNat then
          if values i = 1 then data (i / 8) >>> 1 ||| 0x80 else data (i / 8) >>> 1 &&& 0x7F
        else data (i / 8) >>> 1).getLsbD k =
        if k = 7 then (coilValues qty values).getD i false else (data (i / 8)).getLsbD (k + 1) := by
      obtain ⟨set, clear, shifted⟩ := shifted_bits (data (i / 8)) ⟨k, inside⟩
      rw [coilValues_getD]
      by_cases counted : i < qty.toNat
      · rw [if_pos counted]
        by_cases one : values i = 1
        · rw [if_pos one, set, decide_eq_true ⟨counted, one⟩]
        · rw [if_neg one, clear, decide_eq_false fun both => one both.2]
      · rw [if_neg counted, shifted, decide_eq_false fun both => counted both.1]
    rw [bit]
    by_cases last : k = 7
    · rw [if_pos last]
      congr 1
      omega
    · rw [if_neg last, packed (i / 8) (k + 1) (by omega) (by omega)]
      congr 1
      omega
  · rw [Function.update_of_ne here, packed byte k inside (by omega)]
    congr 1
    omega

theorem packValues_eq (qty : BitVec 8) (values : Nat → BitVec 8) (data : Memory) :
    Memory.load (packValues qty values data) 0 (byteCount qty.toNat) = packCoils (coilValues qty values) := by
  have rounds (n : Nat) : Packed qty values n ((List.range n).foldl (fun data i =>
      let shifted := data (i / 8) >>> 1
      Function.update data (i / 8)
        (if i < qty.toNat then if values i = 1 then shifted ||| 0x80 else shifted &&& 0x7F else shifted)) data) := by
    induction n with
    | zero => exact fun byte k inside long => absurd long (by omega)
    | succ n ih =>
        rw [List.range_succ, List.foldl_append]
        exact packed_step ih
  have coils : (coilValues qty values).length = qty.toNat := (List.length_map _).trans List.length_range
  apply List.ext_getElem
  · rw [Memory.length_load, length_packCoils, coils, byteCount_eq]
  · intro j loaded inside
    have below : j < byteCount qty.toNat := by rwa [Memory.length_load] at loaded
    apply BitVec.eq_of_getLsbD_eq
    intro k bit
    have spec := packCoils_bit (coilValues qty values) j bit
    have loop := rounds (byteCount qty.toNat * 8) j k bit (by omega)
    rw [List.getD_eq_getElem?_getD, List.getElem?_eq_getElem inside, Option.getD_some] at spec
    have place : 8 * j + k + min 8 (byteCount qty.toNat * 8 - 8 * j) - 8 = 8 * j + k := by omega
    rw [spec, ← place, ← loop]
    simp only [Memory.load, List.getElem_map, List.getElem_range, Nat.zero_add]
    rfl

theorem data_left_out (line : Line) (id start qty : BitVec 8) (values : Nat → BitVec 8) (data : Memory) (m : ModbusMaster) :
    ∃ t head, modbusMasterWriteMultipleCoils line id start qty values m = some t ∧ t.sent = frame head ∧
      writeCoilsRequest id start qty values =
        frame (head ++ Memory.load (packValues qty values data) 0 (byteCount qty.toNat)) := by
  obtain ⟨t, run, sent⟩ := coils_sent line id start qty values m
  have coils : (coilValues qty values).length = qty.toNat := (List.length_map _).trans List.length_range
  refine ⟨t, _, run, sent.trans rfl, ?_⟩
  rw [packValues_eq, writeCoilsRequest, length_packCoils, coils, byteCount_eq]

theorem store_at (m : Memory) {bytes : List (BitVec 8)} {i : Nat} (inside : i < bytes.length) :
    Memory.store m 0 bytes i = bytes.getD i 0 := by
  unfold Memory.store
  rw [if_pos (by omega), Nat.sub_zero]

theorem frame_data (m : Memory) (a b c : BitVec 8) {data : List (BitVec 8)} {i : Nat} (inside : i < data.length) :
    Memory.store m 0 (frame ([a, b, c] ++ data)) (3 + i) = data.getD i 0 := by
  have length : (frame ([a, b, c] ++ data)).length = data.length + 5 := by
    rw [length_frame, List.length_append]
    show 3 + data.length + 2 = _
    omega
  have front : ([a, b, c] ++ data).length = 3 + data.length := List.length_append
  rw [store_at m (by omega), frame, List.getD_append _ _ _ _ (by omega),
    List.getD_append_right _ _ _ _ (show 3 ≤ 3 + i by omega)]
  exact congrArg (data.getD · 0) (Nat.add_sub_cancel_left 3 i)

theorem frame_count (m : Memory) (a b c : BitVec 8) (data : List (BitVec 8)) :
    Memory.store m 0 (frame ([a, b, c] ++ data)) 2 = c := by
  refine store_at m ?_
  rw [length_frame, List.length_append]
  show 2 < 3 + data.length + 2
  omega

theorem answered_frame (m : ModbusMaster) (body : List (BitVec 8)) {bytes : List (BitVec 8)} (short : bytes.length ≤ 255) :
    (answered ⟨frame bytes, true⟩ m body).rxBuf = Memory.store m.rxBuf 0 (frame bytes) ∧
      (answered ⟨frame bytes, true⟩ m body).rxLen = bytes.length + 2 := by
  have full : BUFFER_SIZE = 512 := rfl
  have received := receive_short (show 0 + (frame bytes).length < BUFFER_SIZE by rw [length_frame]; omega) m.rxBuf
  rw [answered_eq, received, length_frame, Nat.zero_add]
  exact ⟨rfl, rfl⟩

theorem frame_answer (call : Call) (m : ModbusMaster) (id func c : BitVec 8) {data : List (BitVec 8)}
    (short : data.length ≤ 252) (isId : (prepared call m).slaveId = id) (isFunc : (prepared call m).funcCode = func) :
    (transactionOf call ⟨frame ([id, func, c] ++ data), true⟩ m).result =
      (answerOf call).value (Memory.store (prepared call m).rxBuf 0 (frame ([id, func, c] ++ data))) := by
  have length : ([id, func, c] ++ data).length = data.length + 3 := by
    rw [List.length_append]
    exact Nat.add_comm _ _
  obtain ⟨buffer, received⟩ := answered_frame (prepared call m) (requestOf call) (show ([id, func, c] ++ data).length ≤ 255 by omega)
  have first : Memory.store (prepared call m).rxBuf 0 (frame ([id, func, c] ++ data)) 0 = id :=
    store_at _ (by rw [length_frame]; omega)
  have second : Memory.store (prepared call m).rxBuf 0 (frame ([id, func, c] ++ data)) 1 = func :=
    store_at _ (by rw [length_frame]; omega)
  have valid : (modbusMasterValidateRx (answered ⟨frame ([id, func, c] ++ data), true⟩ (prepared call m)
      (requestOf call))).value (answered ⟨frame ([id, func, c] ++ data), true⟩ (prepared call m) (requestOf call)).rxBuf =
      true := by
    rw [validate_value, buffer, received, first, second]
    refine ⟨by omega, crcAccepts_frame _ (by omega), ?_, ?_⟩
    · rw [answered_eq]
      exact isId.symm
    · rw [answered_eq]
      exact isFunc.symm
  rw [← buffer]
  exact (finished_valid rfl valid).1

theorem low_bit (b : BitVec 8) (k : Nat) : 0x01 &&& b >>> k = if b.getLsbD k then 1 else 0 := by
  rw [BitVec.and_comm]
  have bit := @BitVec.and_one_eq_setWidth_ofBool_getLsbD 8 (b >>> k)
  rw [BitVec.getLsbD_ushiftRight, Nat.add_zero] at bit
  refine Eq.trans bit ?_
  cases b.getLsbD k <;> rfl

theorem coils_decoded (id start : BitVec 8) (m : ModbusMaster) {bits : List Bool} (few : bits.length ≤ 255) :
    ∃ t, modbusMasterReadCoils ⟨coilsResponse id bits, true⟩ id start (BitVec.ofNat 8 bits.length) m = some t ∧
      t.result = some (.coils (bits.map fun b => if b then 1 else 0)) := by
  have packed := length_packCoils bits
  have qty : (BitVec.ofNat 8 bits.length).toNat = bits.length := by
    rw [BitVec.toNat_ofNat]
    omega
  refine ⟨_, readCoils_run id start _, ?_⟩
  unfold coilsResponse
  rw [frame_answer (.readCoils id start (BitVec.ofNat 8 bits.length)) m id 1 _ (by omega) rfl rfl, answerOf, coilsAnswer,
    Look.value_bind, Look.value_byte]
  have count : Memory.store (prepared (.readCoils id start (BitVec.ofNat 8 bits.length)) m).rxBuf 0
      (frame ([id, 1, BitVec.ofNat 8 (packCoils bits).length] ++ packCoils bits)) 2 =
      BitVec.ofNat 8 (packCoils bits).length := frame_count _ _ _ _ _
  rw [count, qty, BitVec.toNat_ofNat, byteCount_eq, packed, if_neg (by omega), Look.value_bind, Look.value_pure,
    Look.value_each]
  refine congrArg (fun l => some (Answer.coils l)) (List.ext_getElem ?_ fun i ranged inside => ?_)
  · rw [List.length_map, List.length_map, List.length_range]
  · rw [List.length_map] at inside
    rw [List.getElem_map, List.getElem_map, List.getElem_range, Look.value_bind, Look.value_byte, Look.value_pure,
      ← packed, frame_data _ _ _ _ (by omega), low_bit, packCoils_bit bits (i / 8) (Nat.mod_lt i (by decide)),
      Nat.div_add_mod, List.getD_eq_getElem?_getD, List.getElem?_eq_getElem inside, Option.getD_some]

theorem registerBytes_getD (values : List (BitVec 16)) (i : Nat) :
    (registerBytes values).getD (i * 2) 0 = high (values.getD i 0) ∧
      (registerBytes values).getD (i * 2 + 1) 0 = low (values.getD i 0) := by
  induction values generalizing i with
  | nil => exact ⟨by simp [registerBytes, high], by simp [registerBytes, low]⟩
  | cons v rest ih =>
      cases i with
      | zero => exact ⟨rfl, rfl⟩
      | succ i =>
          have next : (i + 1) * 2 = i * 2 + 1 + 1 := by omega
          rw [next]
          exact ih i

theorem register_bytes (v : BitVec 16) : BitVec.ofNat 16 ((high v).toNat * 256 + (low v).toNat) = v := by
  apply BitVec.eq_of_toNat_eq
  unfold high low
  rw [BitVec.toNat_ofNat, BitVec.toNat_setWidth, BitVec.toNat_setWidth, BitVec.toNat_ushiftRight, Nat.shiftRight_eq_div_pow]
  have := v.isLt
  omega

theorem registers_decoded (id start : BitVec 8) (m : ModbusMaster) {registers : List (BitVec 16)}
    (few : registers.length ≤ 125) :
    ∃ t, modbusMasterReadHoldingRegs ⟨registersResponse id registers, true⟩ id start (BitVec.ofNat 8 registers.length) m =
      some t ∧ t.result = some (.registers registers) := by
  have bytes := length_registerBytes registers
  have qty : (BitVec.ofNat 8 registers.length).toNat = registers.length := by
    rw [BitVec.toNat_ofNat]
    omega
  refine ⟨_, readHoldingRegs_run id start _, ?_⟩
  unfold registersResponse
  rw [frame_answer (.readHoldingRegs id start (BitVec.ofNat 8 registers.length)) m id 3 _ (by omega) rfl rfl, answerOf,
    registersAnswer, Look.value_bind, Look.value_byte]
  have count : Memory.store (prepared (.readHoldingRegs id start (BitVec.ofNat 8 registers.length)) m).rxBuf 0
      (frame ([id, 3, BitVec.ofNat 8 (registerBytes registers).length] ++ registerBytes registers)) 2 =
      BitVec.ofNat 8 (registerBytes registers).length := frame_count _ _ _ _ _
  rw [count, qty, BitVec.toNat_ofNat, bytes, if_neg (by omega), Look.value_bind, Look.value_pure, Look.value_each]
  refine congrArg (fun l => some (Answer.registers l)) (List.ext_getElem ?_ fun i ranged inside => ?_)
  · rw [List.length_map, List.length_range]
  · have place : 4 + i * 2 = 3 + (i * 2 + 1) := by omega
    obtain ⟨highByte, lowByte⟩ := registerBytes_getD registers i
    simp only [List.getElem_map, List.getElem_range, Look.value_bind, Look.value_byte, Look.value_pure]
    rw [← bytes, place, frame_data _ _ _ _ (by omega), frame_data _ _ _ _ (by omega), highByte, lowByte, register_bytes,
      List.getD_eq_getElem?_getD, List.getElem?_eq_getElem inside, Option.getD_some]

/-- What a device answers is what the caller gets. -/
theorem reads_decode (id start : BitVec 8) (m : ModbusMaster) :
    (∀ bits : List Bool, 1 ≤ bits.length → bits.length ≤ 255 → ∃ t,
      modbusMasterReadCoils ⟨coilsResponse id bits, true⟩ id start (BitVec.ofNat 8 bits.length) m = some t ∧
        t.result = some (.coils (bits.map fun b => if b then 1 else 0))) ∧
    ∀ registers : List (BitVec 16), 1 ≤ registers.length → registers.length ≤ 125 → ∃ t,
      modbusMasterReadHoldingRegs ⟨registersResponse id registers, true⟩ id start (BitVec.ofNat 8 registers.length) m =
        some t ∧ t.result = some (.registers registers) :=
  ⟨fun _ _ few => coils_decoded id start m few, fun _ _ few => registers_decoded id start m few⟩

theorem ten_coils_decoded : ∃ t,
    modbusMasterReadCoils ⟨coilsResponse 17 [true, false, true, true, false, false, true, true, true, false], true⟩ 17 19 10
      idleMaster = some t ∧ t.result = some (.coils [1, 0, 1, 1, 0, 0, 1, 1, 1, 0]) :=
  (reads_decode 17 19 idleMaster).1 [true, false, true, true, false, false, true, true, true, false] (by decide) (by decide)

end EspFirmware.Proof.Modbus
