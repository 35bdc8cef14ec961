import EspFirmware.Proof.Modbus.Crc
import Mathlib.Data.List.GetD

/-!
What transactions send.
-/

namespace EspFirmware.Proof.Modbus
open EspFirmware.Lib EspFirmware.Modbus ModbusMaster

def pushed (m : ModbusMaster) (bytes : List (BitVec 8)) : ModbusMaster :=
  { m with txBuf := Memory.store m.txBuf m.txLen bytes, txLen := m.txLen + bytes.length }

theorem store_nil (m : Memory) (a : Nat) : Memory.store m a [] = m := by
  funext x
  exact Memory.store_other m (by simp only [List.length_nil]; omega)

theorem store_append (m : Memory) (a : Nat) (front back : List (BitVec 8)) :
    Memory.store (Memory.store m a front) (a + front.length) back = Memory.store m a (front ++ back) := by
  funext x
  unfold Memory.store
  rw [List.length_append]
  by_cases behind : a + front.length ≤ x ∧ x < a + front.length + back.length
  · rw [if_pos behind, if_pos (by omega), List.getD_append_right _ _ _ _ (by omega)]
    congr 1
    omega
  · rw [if_neg behind]
    by_cases before : a ≤ x ∧ x < a + front.length
    · rw [if_pos before, if_pos (by omega), List.getD_append _ _ _ _ (by omega)]
    · rw [if_neg before, if_neg (by omega)]

theorem store_cons (m : Memory) (a : Nat) (b : BitVec 8) (rest : List (BitVec 8)) :
    Memory.store (Function.update m a b) (a + 1) rest = Memory.store m a (b :: rest) := by
  have one : Function.update m a b = Memory.store m a [b] := by
    funext x
    unfold Memory.store
    by_cases here : x = a
    · subst here
      rw [Function.update_self, if_pos ⟨Nat.le_refl _, Nat.lt_succ_self _⟩, Nat.sub_self]
      rfl
    · rw [Function.update_of_ne here, if_neg (by simp only [List.length_singleton]; omega)]
  rw [one]
  exact store_append m a [b] rest

theorem pushAll_eq (bytes : List (BitVec 8)) (m : ModbusMaster) (start : m.txLen ≤ BUFFER_SIZE) :
    m.pushAll bytes = if m.txLen + bytes.length ≤ BUFFER_SIZE then some (pushed m bytes) else none := by
  induction bytes generalizing m with
  | nil =>
      have room : m.txLen + ([] : List (BitVec 8)).length ≤ BUFFER_SIZE := start
      rw [pushAll, if_pos room, pushed, store_nil]
      rfl
  | cons b rest ih =>
      rw [pushAll, push, List.length_cons]
      by_cases room : m.txLen < BUFFER_SIZE
      · rw [if_pos room, Option.bind_some, ih _ (show m.txLen + 1 ≤ _ from room)]
        have same : m.txLen + 1 + rest.length = m.txLen + (rest.length + 1) := by omega
        dsimp only
        rw [same]
        have all : pushed { m with txBuf := Function.update m.txBuf m.txLen b, txLen := m.txLen + 1 } rest =
            pushed m (b :: rest) := by
          unfold pushed
          dsimp only
          rw [store_cons, same, List.length_cons]
        rw [all]
      · rw [if_neg room, if_neg (by omega)]
        rfl

def sentFrame (body : List (BitVec 8)) : List (BitVec 8) := body ++ crcBytes (body.take (body.length % 256))

theorem length_sentFrame (body : List (BitVec 8)) : (sentFrame body).length = body.length + 2 := List.length_append

theorem load_store_take (m : Memory) (bytes : List (BitVec 8)) {n : Nat} (inside : n ≤ bytes.length) :
    Memory.load (Memory.store m 0 bytes) 0 n = bytes.take n := by
  have whole := Memory.load_store m 0 bytes
  have parts := Memory.load_append (Memory.store m 0 bytes) 0 n (bytes.length - n)
  rw [Nat.add_sub_cancel' inside, whole] at parts
  have front : (Memory.load (Memory.store m 0 bytes) 0 n ++
      Memory.load (Memory.store m 0 bytes) (0 + n) (bytes.length - n)).take n = _ :=
    List.take_left' (Memory.length_load _ _ _)
  rw [← parts] at front
  exact front.symm

def waiting (m : ModbusMaster) (body : List (BitVec 8)) : ModbusMaster :=
  { m with txBuf := Memory.store m.txBuf 0 (sentFrame body), txLen := body.length + 2, rxEnable := true, rxLen := 0 }

def answered (line : Line) (m : ModbusMaster) (body : List (BitVec 8)) : ModbusMaster :=
  { line.received.foldl uart0ReceiveOneByte (waiting m body) with rxEnable := false }

def validated (response : ModbusMaster → Look (Option Answer)) (m : ModbusMaster) : Look (Option Answer) := do
  let valid ← modbusMasterValidateRx m
  if valid then response m else pure none

def finished (line : Line) (response : ModbusMaster → Look (Option Answer)) (m : ModbusMaster)
    (body : List (BitVec 8)) : Transaction :=
  if line.complete = false then ⟨sentFrame body, none, [], answered line m body⟩
  else ⟨sentFrame body, (validated response (answered line m body)).value (answered line m body).rxBuf,
    (validated response (answered line m body)).places (answered line m body).rxBuf, answered line m body⟩

theorem finished_sent (line : Line) (response : ModbusMaster → Look (Option Answer)) (m : ModbusMaster)
    (body : List (BitVec 8)) : (finished line response m body).sent = sentFrame body := by
  unfold finished
  split <;> rfl

theorem transact_request (line : Line) (response : ModbusMaster → Look (Option Answer)) {m : ModbusMaster}
    (zero : m.txLen = 0) (body : List (BitVec 8)) :
    (m.pushAll body).bind (transact line response) =
      if body.length + 2 ≤ BUFFER_SIZE then some (finished line response m body) else none := by
  rw [pushAll_eq body m (by rw [zero]; exact Nat.zero_le _), zero, Nat.zero_add]
  by_cases first : body.length ≤ BUFFER_SIZE
  · rw [if_pos first, Option.bind_some]
    unfold transact masterSendReceive
    have length : (pushed m body).txLen = body.length := by
      show m.txLen + body.length = _
      rw [zero, Nat.zero_add]
    have buffer : (pushed m body).txBuf = Memory.store m.txBuf 0 body := by
      show Memory.store m.txBuf m.txLen body = _
      rw [zero]
    have crc : modbusCrc16 (pushed m body).txBuf (BitVec.ofNat 8 (pushed m body).txLen) =
        modbusCrc (body.take (body.length % 256)) := by
      rw [modbusCrc16_eq, length, buffer, BitVec.toNat_ofNat, load_store_take _ _ (Nat.mod_le _ _)]
    dsimp only
    rw [crc]
    change Option.map _ (Option.map _ ((pushed m body).pushAll (crcBytes (body.take (body.length % 256))))) = _
    rw [pushAll_eq _ _ (by rw [length]; exact first), length]
    change Option.map _ (Option.map _ (if body.length + 2 ≤ BUFFER_SIZE then _ else _)) = _
    by_cases room : body.length + 2 ≤ BUFFER_SIZE
    · rw [if_pos room, if_pos room]
      have frame : pushed (pushed m body) (crcBytes (body.take (body.length % 256))) =
          { m with txBuf := Memory.store m.txBuf 0 (sentFrame body), txLen := body.length + 2 } := by
        unfold pushed
        dsimp only
        rw [zero, Nat.zero_add, ← Nat.zero_add body.length, store_append, Nat.zero_add]
        rfl
      have sent : Memory.load (Memory.store m.txBuf 0 (sentFrame body)) 0 (body.length + 2) = sentFrame body := by
        rw [← length_sentFrame, Memory.load_store]
      rw [frame]
      simp only [Option.map_some]
      rw [sent]
      rfl
    · rw [if_neg room, if_neg room]
      rfl
  · rw [if_neg first, if_neg (by omega)]
    rfl

theorem high_setWidth (x : BitVec 8) : high (x.setWidth 16) = 0 := by
  apply BitVec.eq_of_getLsbD_eq
  intro i inside
  have beyond : x.getLsbD (8 + i) = false := BitVec.getLsbD_of_ge x _ (by omega)
  simp [high, beyond]

theorem low_setWidth (x : BitVec 8) : low (x.setWidth 16) = x := by
  unfold low
  rw [BitVec.setWidth_setWidth_of_le _ (by decide), BitVec.setWidth_eq]

theorem toNat_setWidth (x : BitVec 8) : (x.setWidth 16).toNat = x.toNat :=
  BitVec.toNat_setWidth_of_le (by decide)

theorem count_low (qty : BitVec 8) : low (2 * qty.setWidth 16) = BitVec.ofNat 8 (2 * qty.toNat) := by
  apply BitVec.eq_of_toNat_eq
  unfold low
  rw [BitVec.toNat_setWidth, BitVec.toNat_mul, toNat_setWidth, BitVec.toNat_ofNat]
  change 2 * qty.toNat % 2 ^ 16 % 2 ^ 8 = _
  omega

theorem byteCount_eq (qty : Nat) : byteCount qty = (qty + 7) / 8 := by
  unfold byteCount
  split <;> omega

theorem length_packCoils (bits : List Bool) : (packCoils bits).length = (bits.length + 7) / 8 :=
  (List.length_map _).trans List.length_range

theorem coils_sent (line : Line) (id start qty : BitVec 8) (values : Nat → BitVec 8) (m : ModbusMaster) :
    ∃ t, modbusMasterWriteMultipleCoils line id start qty values m = some t ∧
      t.sent = sentFrame [id, 15, 0, start, 0, qty, BitVec.ofNat 8 (byteCount qty.toNat)] := by
  unfold modbusMasterWriteMultipleCoils
  dsimp only
  have short : [id, FUNC_WRITE_MULTIPLE_COILS, 0, start, 0, qty, BitVec.ofNat 8 (byteCount qty.toNat)].length + 2 ≤
      BUFFER_SIZE := show 7 + 2 ≤ 512 by decide
  rw [high_setWidth, high_setWidth, low_setWidth, low_setWidth, transact_request _ _ rfl, if_pos short]
  exact ⟨_, rfl, finished_sent _ _ _ _⟩

/-- The values never get into the frame. -/
theorem coils_not_sent (line : Line) (id start qty : BitVec 8) (values : Nat → BitVec 8) (m : ModbusMaster)
    (some_ : 0 < qty.toNat) : ¬ SendsCoils line id start qty values m := by
  rintro ⟨t, run, sent⟩
  obtain ⟨t', run', sent'⟩ := coils_sent line id start qty values m
  obtain rfl := Option.some.inj (run.symm.trans run')
  have length := congrArg List.length (sent'.symm.trans sent)
  have coils : (coilValues qty values).length = qty.toNat := (List.length_map _).trans List.length_range
  rw [length_sentFrame, writeCoilsRequest, length_frame, List.length_append, length_packCoils, coils] at length
  change 7 + 2 = 7 + _ + 2 at length
  omega

def idleMaster : ModbusMaster := ⟨0, 0, 0, 0, 0, 0, false, fun _ => 0, 0, fun _ => 0, 0⟩

theorem one_coil_not_sent : ¬ SendsCoils ⟨[], false⟩ 1 0 1 (fun _ => 1) idleMaster :=
  coils_not_sent ⟨[], false⟩ 1 0 1 (fun _ => 1) idleMaster (by decide)

theorem coil_not_in_frame : ¬ SendsCoils ⟨[], false⟩ 17 19 2 (fun _ => 1) idleMaster := by
  rintro ⟨t, run, sent⟩
  obtain ⟨t', run', sent'⟩ := coils_sent ⟨[], false⟩ 17 19 2 (fun _ => 1) idleMaster
  obtain rfl := Option.some.inj (run.symm.trans run')
  have length := congrArg List.length (sent'.symm.trans sent)
  revert length
  decide

theorem length_registerBytes (values : List (BitVec 16)) : (registerBytes values).length = 2 * values.length := by
  unfold registerBytes
  induction values with
  | nil => rfl
  | cons v rest ih =>
      rw [List.flatMap_cons, List.length_append, ih, List.length_cons]
      show 2 + 2 * rest.length = 2 * (rest.length + 1)
      omega

theorem length_registersRequest (id start qty : BitVec 8) (values : Nat → BitVec 16) :
    (registersRequest id start qty values).length = 7 + 2 * qty.toNat := by
  unfold registersRequest
  rw [List.length_append, length_registerBytes, List.length_map, List.length_range]
  rfl

theorem registers_sent (line : Line) (id start qty : BitVec 8) (values : Nat → BitVec 16) (m : ModbusMaster) :
    (modbusMasterWriteMultipleHoldingRegs line id start qty values m).map Transaction.sent =
      if 2 * qty.toNat + 9 ≤ BUFFER_SIZE then some (sentFrame (registersRequest id start qty values)) else none := by
  have body : [id, FUNC_WRITE_MULTIPLE_REGISTERS, 0, start, 0, qty, BitVec.ofNat 8 (2 * qty.toNat)] ++
      registerBytes ((List.range qty.toNat).map values) = registersRequest id start qty values := rfl
  unfold modbusMasterWriteMultipleHoldingRegs
  dsimp only
  rw [high_setWidth, high_setWidth, low_setWidth, low_setWidth, count_low, toNat_setWidth, body, transact_request _ _ rfl,
    length_registersRequest, show 7 + 2 * qty.toNat + 2 = 2 * qty.toNat + 9 by omega]
  by_cases room : 2 * qty.toNat + 9 ≤ BUFFER_SIZE
  · rw [if_pos room, if_pos room, Option.map_some, finished_sent]
  · rw [if_neg room, if_neg room]
    rfl

theorem registersFrame_iff (id start qty : BitVec 8) (values : Nat → BitVec 16) (room : 2 * qty.toNat + 9 ≤ BUFFER_SIZE) :
    RegistersFrame ((List.range qty.toNat).map values) (sentFrame (registersRequest id start qty values)) ↔
      RegistersFit id start qty values := by
  have length := length_registersRequest id start qty values
  have data : (registerBytes ((List.range qty.toNat).map values)).length = 2 * qty.toNat := by
    rw [length_registerBytes, List.length_map, List.length_range]
  have full : BUFFER_SIZE = 512 := rfl
  -- the request with the checksum of all of it
  have same : sentFrame (registersRequest id start qty values) = frame (registersRequest id start qty values) ↔
      modbusCrc ((registersRequest id start qty values).take ((7 + 2 * qty.toNat) % 256)) =
        modbusCrc (registersRequest id start qty values) := by
    rw [← crcBytes_inj, sentFrame, frame, List.append_cancel_left_eq, length]
  constructor
  · rintro ⟨⟨head, count, six, counts, sent⟩, -⟩
    have parts : registersRequest id start qty values = head ++ [count] ++ registerBytes ((List.range qty.toNat).map values) := by
      refine (List.append_inj sent ?_).1
      rw [length, List.length_append, List.length_append, six, data]
      rfl
    have front : [id, 16, 0, start, 0, qty] ++ [BitVec.ofNat 8 (2 * qty.toNat)] = head ++ [count] :=
      (List.append_inj parts (by rw [List.length_append, six]; rfl)).1
    have last : count = BitVec.ofNat 8 (2 * qty.toNat) := (List.cons.inj (List.append_inj front six.symm).2).1.symm
    rw [data, last, BitVec.toNat_ofNat] at counts
    rw [← parts] at sent
    have crc := same.mp sent
    by_cases few : qty.toNat ≤ 124
    · exact .inl few
    · refine .inr ⟨by omega, ?_⟩
      rwa [show (7 + 2 * qty.toNat) % 256 = 7 + 2 * qty.toNat - 256 by omega] at crc
  · intro fit
    have few : qty.toNat ≤ 127 := by
      rcases fit with few | ⟨few, -⟩
      · omega
      · exact few
    refine ⟨⟨[id, 16, 0, start, 0, qty], BitVec.ofNat 8 (2 * qty.toNat), rfl, ?_, same.mpr ?_⟩, ?_⟩
    · rw [data, BitVec.toNat_ofNat]
      omega
    · rcases fit with few | ⟨-, crc⟩
      · rw [Nat.mod_eq_of_lt (by omega), ← length, List.take_length]
      · by_cases below : qty.toNat ≤ 124
        · rw [Nat.mod_eq_of_lt (by omega), ← length, List.take_length]
        · rw [show (7 + 2 * qty.toNat) % 256 = 7 + 2 * qty.toNat - 256 by omega]
          exact crc
    · rw [length_sentFrame, length]
      omega

theorem registers_framed_iff (line : Line) (id start qty : BitVec 8) (values : Nat → BitVec 16) (m : ModbusMaster) :
    SendsRegisters line id start qty values m ↔ RegistersFit id start qty values := by
  have sent := registers_sent line id start qty values m
  by_cases room : 2 * qty.toNat + 9 ≤ BUFFER_SIZE
  · rw [if_pos room] at sent
    obtain ⟨t, run, is⟩ := Option.map_eq_some_iff.mp sent
    rw [← registersFrame_iff id start qty values room, ← is]
    constructor
    · rintro ⟨t', run', framed⟩
      cases run.symm.trans run'
      exact framed
    · exact fun framed => ⟨t, run, framed⟩
  · rw [if_neg room] at sent
    have full : BUFFER_SIZE = 512 := rfl
    constructor
    · rintro ⟨t, run, -⟩
      rw [run] at sent
      cases sent
    · rintro (few | ⟨few, -⟩)
      · omega
      · omega

theorem registers_lost : ¬ SendsRegisters ⟨[], false⟩ 1 0 128 (fun _ => 0) idleMaster := by
  rintro ⟨t, -, ⟨⟨head, count, -, counts, -⟩, -⟩⟩
  have bound := count.isLt
  rw [length_registerBytes, List.length_map, List.length_range] at counts
  change count.toNat = 2 * 128 at counts
  omega

end EspFirmware.Proof.Modbus
