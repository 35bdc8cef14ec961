import EspFirmware.Proof.Modbus.Request

/-!
What transactions make of what comes in.
-/

namespace EspFirmware.Proof.Modbus
open EspFirmware.Lib EspFirmware.Modbus ModbusMaster

def receiveBytes : List (BitVec 8) → Memory → Nat → Memory × Nat
  | [], rxBuf, rxLen => (rxBuf, rxLen)
  | b :: rest, rxBuf, rxLen => receiveBytes rest (Function.update rxBuf rxLen b) ((rxLen + 1) % BUFFER_SIZE)

theorem receive_eq (bytes : List (BitVec 8)) {m : ModbusMaster} (enabled : m.rxEnable = true) :
    bytes.foldl uart0ReceiveOneByte m =
      { m with rxBuf := (receiveBytes bytes m.rxBuf m.rxLen).1, rxLen := (receiveBytes bytes m.rxBuf m.rxLen).2 } := by
  induction bytes generalizing m with
  | nil => rfl
  | cons b rest ih =>
      have one : uart0ReceiveOneByte m b =
          { m with rxBuf := Function.update m.rxBuf m.rxLen b, rxLen := (m.rxLen + 1) % BUFFER_SIZE } := if_pos enabled
      rw [List.foldl_cons, one, ih (by exact enabled)]
      rfl

theorem receive_short {bytes : List (BitVec 8)} {rxLen : Nat} (short : rxLen + bytes.length < BUFFER_SIZE)
    (rxBuf : Memory) : receiveBytes bytes rxBuf rxLen = (Memory.store rxBuf rxLen bytes, rxLen + bytes.length) := by
  induction bytes generalizing rxBuf rxLen with
  | nil => rw [receiveBytes, store_nil, List.length_nil, Nat.add_zero]
  | cons b rest ih =>
      rw [List.length_cons] at short
      have same : rxLen + 1 + rest.length = rxLen + (rest.length + 1) := by omega
      rw [receiveBytes, Nat.mod_eq_of_lt (by omega), ih (by omega), store_cons, same, List.length_cons]

theorem receive_agree (bytes : List (BitVec 8)) {rxBuf rxBuf' : Memory} {rxLen : Nat}
    (same : ∀ i < rxLen, rxBuf' i = rxBuf i) :
    (receiveBytes bytes rxBuf' rxLen).2 = (receiveBytes bytes rxBuf rxLen).2 ∧
      ∀ i < (receiveBytes bytes rxBuf rxLen).2,
        (receiveBytes bytes rxBuf' rxLen).1 i = (receiveBytes bytes rxBuf rxLen).1 i := by
  induction bytes generalizing rxBuf rxBuf' rxLen with
  | nil => exact ⟨rfl, same⟩
  | cons b rest ih =>
      refine ih fun i below => ?_
      by_cases here : i = rxLen
      · rw [here, Function.update_self, Function.update_self]
      · rw [Function.update_of_ne here, Function.update_of_ne here]
        exact same i (by have := Nat.mod_le (rxLen + 1) BUFFER_SIZE; omega)

theorem answered_eq (line : Line) (m : ModbusMaster) (body : List (BitVec 8)) :
    answered line m body = { m with
      txBuf := Memory.store m.txBuf 0 (sentFrame body), txLen := body.length + 2, rxEnable := false,
      rxBuf := (receiveBytes line.received m.rxBuf 0).1, rxLen := (receiveBytes line.received m.rxBuf 0).2 } := by
  unfold answered
  rw [receive_eq _ rfl]
  rfl

theorem validate_value (m : ModbusMaster) (mem : Memory) :
    (modbusMasterValidateRx m).value mem = true ↔
      5 ≤ m.rxLen ∧ crcAccepts m.rxBuf m.rxLen = true ∧ mem 0 = m.slaveId ∧ mem 1 = m.funcCode := by
  unfold modbusMasterValidateRx
  by_cases short : m.rxLen < 5
  · rw [if_pos short]
    exact ⟨nofun, fun all => absurd all.1 (Nat.not_le.mpr short)⟩
  · rw [if_neg short]
    by_cases wrong : crcAccepts m.rxBuf m.rxLen = false
    · rw [if_pos wrong, wrong]
      exact ⟨nofun, fun all => nomatch all.2.1⟩
    · rw [if_neg wrong, Look.value_expect, List.forall_mem_cons, List.forall_mem_singleton]
      simp only [BitVec.toNat_inj, Nat.not_lt.mp short, Bool.not_eq_false _ ▸ wrong, true_and]

theorem validate_places {m : ModbusMaster} {mem : Memory} (valid : (modbusMasterValidateRx m).value mem = true) :
    (modbusMasterValidateRx m).places mem = [0, 1] := by
  obtain ⟨long, accepted, -⟩ := (validate_value m mem).mp valid
  unfold modbusMasterValidateRx at valid ⊢
  rw [if_neg (Nat.not_lt.mpr long), if_neg (by rw [accepted]; nofun)] at valid ⊢
  exact Look.places_expect valid

variable {line : Line} {m : ModbusMaster} {body : List (BitVec 8)} {response : ModbusMaster → Look (Option Answer)}
  {answer : Look (Option Answer)}

theorem finished_master : (finished line response m body).master = answered line m body := by
  unfold finished
  split <;> rfl

theorem finished_congr (same : response (answered line m body) = answer) :
    finished line response m body = finished line (fun _ => answer) m body := by
  unfold finished validated
  rw [same]

theorem validated_value {m : ModbusMaster} {mem : Memory} (valid : (modbusMasterValidateRx m).value mem = true) :
    (validated (fun _ => answer) m).value mem = answer.value mem ∧
      (validated (fun _ => answer) m).places mem = [0, 1] ++ answer.places mem := by
  unfold validated
  rw [Look.value_bind, Look.places_bind, valid, validate_places valid]
  exact ⟨rfl, rfl⟩

theorem validated_invalid {m : ModbusMaster} {mem : Memory} (invalid : ¬ (modbusMasterValidateRx m).value mem = true) :
    (validated (fun _ => answer) m).value mem = none := by
  unfold validated
  rw [Look.value_bind, if_neg invalid]
  rfl

theorem finished_valid (complete : line.complete = true)
    (valid : (modbusMasterValidateRx (answered line m body)).value (answered line m body).rxBuf = true) :
    (finished line (fun _ => answer) m body).result = answer.value (answered line m body).rxBuf ∧
      (finished line (fun _ => answer) m body).places = [0, 1] ++ answer.places (answered line m body).rxBuf := by
  unfold finished
  rw [if_neg (by rw [complete]; nofun)]
  exact validated_value valid

theorem finished_some (accepted : (finished line (fun _ => answer) m body).result.isSome = true) :
    line.complete = true ∧
      (modbusMasterValidateRx (answered line m body)).value (answered line m body).rxBuf = true := by
  unfold finished at accepted
  split at accepted
  · cases accepted
  · rename_i complete
    refine ⟨Bool.not_eq_false _ ▸ complete, ?_⟩
    by_cases valid : (modbusMasterValidateRx (answered line m body)).value (answered line m body).rxBuf = true
    · exact valid
    · dsimp only at accepted
      rw [validated_invalid valid] at accepted
      cases accepted

def coilsAnswer (qty : BitVec 8) : Look (Option Answer) := do
  let count ← Look.byte 2
  if count.toNat ≠ byteCount qty.toNat then pure none
  else do
    let result ← Look.each (fun i => do
      let value ← Look.byte (3 + i / 8)
      pure (0x01 &&& value >>> (i % 8))) (List.range qty.toNat)
    pure (some (.coils result))

def registersAnswer (qty : BitVec 8) : Look (Option Answer) := do
  let count ← Look.byte 2
  if count.toNat ≠ qty.toNat * 2 then pure none
  else do
    let holdingregs ← Look.each (fun i => do
      let first ← Look.byte (3 + i * 2)
      let second ← Look.byte (4 + i * 2)
      pure (BitVec.ofNat 16 (first.toNat * 256 + second.toNat))) (List.range qty.toNat)
    pure (some (.registers holdingregs))

def prepared : Call → ModbusMaster → ModbusMaster
  | .readCoils id start qty, m => { m with
      slaveId := id, funcCode := FUNC_READ_COILS, readAddr := start.setWidth 16, readQty := qty.setWidth 16, txLen := 0 }
  | .readHoldingRegs id start qty, m => { m with
      slaveId := id, funcCode := FUNC_READ_HOLDING_REGISTER, readAddr := start.setWidth 16, readQty := qty.setWidth 16,
      txLen := 0 }
  | .writeSingleCoil id address _, m =>
      { m with slaveId := id, funcCode := FUNC_WRITE_SINGLE_COIL, writeAddr := address.setWidth 16, txLen := 0 }
  | .writeSingleHoldingReg id address _, m =>
      { m with slaveId := id, funcCode := FUNC_WRITE_REGISTER, writeAddr := address.setWidth 16, txLen := 0 }
  | .writeMultipleCoils id start qty _, m => { m with
      slaveId := id, funcCode := FUNC_WRITE_MULTIPLE_COILS, writeAddr := start.setWidth 16, writeQty := qty.setWidth 16,
      txLen := 0 }
  | .writeMultipleHoldingRegs id start qty _, m => { m with
      slaveId := id, funcCode := FUNC_WRITE_MULTIPLE_REGISTERS, writeAddr := start.setWidth 16,
      writeQty := qty.setWidth 16, txLen := 0 }

def requestOf : Call → List (BitVec 8)
  | .readCoils id start qty => [id, FUNC_READ_COILS, 0, start, 0, qty]
  | .readHoldingRegs id start qty => [id, FUNC_READ_HOLDING_REGISTER, 0, start, 0, qty]
  | .writeSingleCoil id address value => [id, FUNC_WRITE_SINGLE_COIL, 0, address, if value = 1 then 0xFF else 0, 0]
  | .writeSingleHoldingReg id address value => [id, FUNC_WRITE_REGISTER, 0, address, high value, low value]
  | .writeMultipleCoils id start qty _ => [id, FUNC_WRITE_MULTIPLE_COILS, 0, start, 0, qty, BitVec.ofNat 8 (byteCount qty.toNat)]
  | .writeMultipleHoldingRegs id start qty values => registersRequest id start qty values

def answerOf : Call → Look (Option Answer)
  | .readCoils _ _ qty => coilsAnswer qty
  | .readHoldingRegs _ _ qty => registersAnswer qty
  | .writeSingleCoil _ address value => echo [0, address, if value = 1 then 0xFF else 0, 0]
  | .writeSingleHoldingReg _ address value => echo [0, address, high value, low value]
  | .writeMultipleCoils _ start qty _ => echo [0, start, 0, qty]
  | .writeMultipleHoldingRegs _ start qty _ => echo [0, start, 0, qty]

def transactionOf (call : Call) (line : Line) (m : ModbusMaster) : Transaction :=
  finished line (fun _ => answerOf call) (prepared call m) (requestOf call)

theorem readCoils_run (id start qty : BitVec 8) :
    modbusMasterReadCoils line id start qty m = some (transactionOf (.readCoils id start qty) line m) := by
  have short : [id, FUNC_READ_COILS, 0, start, 0, qty].length + 2 ≤ BUFFER_SIZE := show 6 + 2 ≤ 512 by decide
  unfold modbusMasterReadCoils
  dsimp only
  rw [high_setWidth, high_setWidth, low_setWidth, low_setWidth, transact_request _ _ rfl, if_pos short]
  refine congrArg some (finished_congr ?_)
  rw [answered_eq]
  dsimp only
  rw [toNat_setWidth]
  rfl

theorem readHoldingRegs_run (id start qty : BitVec 8) :
    modbusMasterReadHoldingRegs line id start qty m = some (transactionOf (.readHoldingRegs id start qty) line m) := by
  have short : [id, FUNC_READ_HOLDING_REGISTER, 0, start, 0, qty].length + 2 ≤ BUFFER_SIZE := show 6 + 2 ≤ 512 by decide
  unfold modbusMasterReadHoldingRegs
  dsimp only
  rw [high_setWidth, high_setWidth, low_setWidth, low_setWidth, transact_request _ _ rfl, if_pos short]
  refine congrArg some (finished_congr ?_)
  rw [answered_eq]
  dsimp only
  rw [toNat_setWidth]
  rfl

theorem writeSingleCoil_run (id address value : BitVec 8) :
    modbusMasterWriteSingleCoil line id address value m =
      some (transactionOf (.writeSingleCoil id address value) line m) := by
  have short : [id, FUNC_WRITE_SINGLE_COIL, 0, address, if value = 1 then 0xFF else 0, 0].length + 2 ≤ BUFFER_SIZE :=
    show 6 + 2 ≤ 512 by decide
  unfold modbusMasterWriteSingleCoil
  dsimp only
  rw [high_setWidth, low_setWidth, transact_request _ _ rfl, if_pos short]
  refine congrArg some (finished_congr ?_)
  rw [answered_eq]
  dsimp only
  rw [high_setWidth, low_setWidth]
  rfl

theorem writeSingleHoldingReg_run (id address : BitVec 8) (value : BitVec 16) :
    modbusMasterWriteSingleHoldingReg line id address value m =
      some (transactionOf (.writeSingleHoldingReg id address value) line m) := by
  have short : [id, FUNC_WRITE_REGISTER, 0, address, high value, low value].length + 2 ≤ BUFFER_SIZE :=
    show 6 + 2 ≤ 512 by decide
  unfold modbusMasterWriteSingleHoldingReg
  dsimp only
  rw [high_setWidth, low_setWidth, transact_request _ _ rfl, if_pos short]
  refine congrArg some (finished_congr ?_)
  rw [answered_eq]
  dsimp only
  rw [high_setWidth, low_setWidth]
  rfl

theorem writeMultipleCoils_run (id start qty : BitVec 8) (values : Nat → BitVec 8) :
    modbusMasterWriteMultipleCoils line id start qty values m =
      some (transactionOf (.writeMultipleCoils id start qty values) line m) := by
  have short : [id, FUNC_WRITE_MULTIPLE_COILS, 0, start, 0, qty, BitVec.ofNat 8 (byteCount qty.toNat)].length + 2 ≤
      BUFFER_SIZE := show 7 + 2 ≤ 512 by decide
  unfold modbusMasterWriteMultipleCoils
  dsimp only
  rw [high_setWidth, high_setWidth, low_setWidth, low_setWidth, transact_request _ _ rfl, if_pos short]
  refine congrArg some (finished_congr ?_)
  rw [answered_eq]
  dsimp only
  rw [high_setWidth, high_setWidth, low_setWidth, low_setWidth]
  rfl

theorem writeMultipleHoldingRegs_run (id start qty : BitVec 8) (values : Nat → BitVec 16) :
    modbusMasterWriteMultipleHoldingRegs line id start qty values m =
      if (registersRequest id start qty values).length + 2 ≤ BUFFER_SIZE then
        some (transactionOf (.writeMultipleHoldingRegs id start qty values) line m)
      else none := by
  have body : [id, FUNC_WRITE_MULTIPLE_REGISTERS, 0, start, 0, qty, BitVec.ofNat 8 (2 * qty.toNat)] ++
      registerBytes ((List.range qty.toNat).map values) = registersRequest id start qty values := rfl
  unfold modbusMasterWriteMultipleHoldingRegs
  dsimp only
  rw [high_setWidth, high_setWidth, low_setWidth, low_setWidth, count_low, toNat_setWidth, body, transact_request _ _ rfl]
  refine if_congr Iff.rfl (congrArg some (finished_congr ?_)) rfl
  rw [answered_eq]
  dsimp only
  rw [high_setWidth, high_setWidth, low_setWidth, low_setWidth]
  rfl

theorem call_run {call : Call} {line : Line} {m : ModbusMaster} {t : Transaction} (run : call.run line m = some t) :
    t = transactionOf call line m ∧ ∀ m', call.run line m' = some (transactionOf call line m') := by
  cases call with
  | readCoils id start qty =>
      exact ⟨Option.some.inj (run.symm.trans (readCoils_run id start qty)), fun m' => readCoils_run id start qty⟩
  | readHoldingRegs id start qty =>
      exact ⟨Option.some.inj (run.symm.trans (readHoldingRegs_run id start qty)),
        fun m' => readHoldingRegs_run id start qty⟩
  | writeSingleCoil id address value =>
      exact ⟨Option.some.inj (run.symm.trans (writeSingleCoil_run id address value)),
        fun m' => writeSingleCoil_run id address value⟩
  | writeSingleHoldingReg id address value =>
      exact ⟨Option.some.inj (run.symm.trans (writeSingleHoldingReg_run id address value)),
        fun m' => writeSingleHoldingReg_run id address value⟩
  | writeMultipleCoils id start qty values =>
      exact ⟨Option.some.inj (run.symm.trans (writeMultipleCoils_run id start qty values)),
        fun m' => writeMultipleCoils_run id start qty values⟩
  | writeMultipleHoldingRegs id start qty values =>
      by_cases room : (registersRequest id start qty values).length + 2 ≤ BUFFER_SIZE
      · have all (m' : ModbusMaster) : modbusMasterWriteMultipleHoldingRegs line id start qty values m' =
            some (transactionOf (.writeMultipleHoldingRegs id start qty values) line m') := by
          rw [writeMultipleHoldingRegs_run, if_pos room]
        exact ⟨Option.some.inj (run.symm.trans (all m)), all⟩
      · have nothing : modbusMasterWriteMultipleHoldingRegs line id start qty values m = none := by
          rw [writeMultipleHoldingRegs_run, if_neg room]
        cases run.symm.trans nothing

theorem echo_some {a b c d : BitVec 8} {mem : Memory} (accepted : ((echo [a, b, c, d]).value mem).isSome = true) :
    (echo [a, b, c, d]).places mem = [2, 3, 4, 5] := by
  unfold echo at accepted ⊢
  rw [Look.value_bind, Look.value_pure] at accepted
  rw [Look.places_bind, Look.places_pure, List.append_nil]
  split at accepted
  · rename_i same
    exact Look.places_expect same
  · cases accepted

theorem coilsAnswer_some {qty : BitVec 8} {mem : Memory} (accepted : ((coilsAnswer qty).value mem).isSome = true) :
    (coilsAnswer qty).places mem = 2 :: (List.range qty.toNat).map fun i => 3 + i / 8 := by
  unfold coilsAnswer at accepted ⊢
  rw [Look.value_bind, Look.value_byte] at accepted
  rw [Look.places_bind, Look.value_byte]
  split at accepted
  · cases accepted
  · rename_i same
    rw [if_neg same]
    simp only [Look.places_byte, Look.places_bind, Look.places_each, Look.places_pure, List.append_nil,
      List.singleton_append, List.cons.injEq, true_and]
    exact List.map_eq_flatMap.symm

theorem registersAnswer_some {qty : BitVec 8} {mem : Memory}
    (accepted : ((registersAnswer qty).value mem).isSome = true) :
    (registersAnswer qty).places mem = 2 :: (List.range qty.toNat).flatMap fun i => [3 + i * 2, 4 + i * 2] := by
  unfold registersAnswer at accepted ⊢
  rw [Look.value_bind, Look.value_byte] at accepted
  rw [Look.places_bind, Look.value_byte]
  split at accepted
  · cases accepted
  · rename_i same
    rw [if_neg same]
    simp only [Look.places_byte, Look.places_bind, Look.places_each, Look.places_pure, List.append_nil,
      List.singleton_append]

theorem coilsAnswer_value (qty : BitVec 8) (mem : Memory) : (coilsAnswer qty).value mem =
    if (mem 2).toNat ≠ byteCount qty.toNat then none
    else some (.coils ((List.range qty.toNat).map fun i => 0x01 &&& mem (3 + i / 8) >>> (i % 8))) := by
  unfold coilsAnswer
  rw [Look.value_bind, Look.value_byte]
  split
  · rfl
  · rw [Look.value_bind, Look.value_each]
    rfl

theorem registersAnswer_value (qty : BitVec 8) (mem : Memory) : (registersAnswer qty).value mem =
    if (mem 2).toNat ≠ qty.toNat * 2 then none
    else some (.registers ((List.range qty.toNat).map fun i =>
      BitVec.ofNat 16 ((mem (3 + i * 2)).toNat * 256 + (mem (4 + i * 2)).toNat))) := by
  unfold registersAnswer
  rw [Look.value_bind, Look.value_byte]
  split
  · rfl
  · rw [Look.value_bind, Look.value_each]
    rfl

theorem result_answer {call : Call} {line : Line} {m : ModbusMaster} {t : Transaction} (run : call.run line m = some t)
    {answer : Answer} (success : t.result = some answer) : ∃ mem, (answerOf call).value mem = some answer := by
  obtain rfl := (call_run run).1
  obtain ⟨complete, valid⟩ := finished_some (Option.isSome_iff_exists.mpr ⟨answer, success⟩)
  exact ⟨_, (finished_valid complete valid).1.symm.trans success⟩

theorem answer_places {call : Call} {mem : Memory} (accepted : ((answerOf call).value mem).isSome = true) {n : Nat}
    (three : 3 ≤ n) : (∀ place ∈ (answerOf call).places mem, place < n) ↔ call.answerLength ≤ n := by
  have echoed : (∀ place ∈ [2, 3, 4, 5], place < n) ↔ 6 ≤ n :=
    ⟨fun all => all 5 (by decide), fun six place member => by simp at member; omega⟩
  cases call with
  | readCoils id start qty =>
      rw [answerOf, coilsAnswer_some accepted, List.forall_mem_cons, Call.answerLength, byteCount_eq]
      constructor
      · intro all
        by_cases none_ : qty.toNat = 0
        · omega
        · have last := all.2 _ (List.mem_map_of_mem (List.mem_range.mpr (show qty.toNat - 1 < qty.toNat by omega)))
          omega
      · intro long
        refine ⟨by omega, fun place member => ?_⟩
        obtain ⟨i, inside, rfl⟩ := List.mem_map.mp member
        have below := List.mem_range.mp inside
        omega
  | readHoldingRegs id start qty =>
      rw [answerOf, registersAnswer_some accepted, List.forall_mem_cons, Call.answerLength]
      constructor
      · intro all
        by_cases none_ : qty.toNat = 0
        · omega
        · have last := all.2 (4 + (qty.toNat - 1) * 2) (List.mem_flatMap.mpr
            ⟨qty.toNat - 1, List.mem_range.mpr (by omega), List.mem_cons_of_mem _ List.mem_cons_self⟩)
          omega
      · intro long
        refine ⟨by omega, fun place member => ?_⟩
        obtain ⟨i, inside, here⟩ := List.mem_flatMap.mp member
        have below := List.mem_range.mp inside
        simp only [List.mem_cons, List.not_mem_nil, or_false] at here
        omega
  | writeSingleCoil id address value => exact echo_some accepted ▸ echoed
  | writeSingleHoldingReg id address value => exact echo_some accepted ▸ echoed
  | writeMultipleCoils id start qty values => exact echo_some accepted ▸ echoed
  | writeMultipleHoldingRegs id start qty values => exact echo_some accepted ▸ echoed

theorem crcAccepts_congr {rxBuf rxBuf' : Memory} {rxLen : Nat} (two : 2 ≤ rxLen)
    (same : ∀ i < rxLen, rxBuf' i = rxBuf i) : crcAccepts rxBuf' rxLen = crcAccepts rxBuf rxLen := by
  obtain ⟨n, rfl⟩ := Nat.exists_eq_add_of_le' two
  have checksum : Memory.load rxBuf' n 2 = Memory.load rxBuf n 2 := Memory.load_congr fun x _ below => same x below
  have message : Memory.load rxBuf' 0 (n % 256) = Memory.load rxBuf 0 (n % 256) := by
    have short := Nat.mod_le n 256
    exact Memory.load_congr fun x _ below => same x (by omega)
  rw [Bool.eq_iff_iff, crcAccepts_iff, crcAccepts_iff, checksum, message]

theorem prepared_stale (call : Call) (m : ModbusMaster) (rxBuf : Memory) :
    prepared call { m with rxBuf := rxBuf } = { prepared call m with rxBuf := rxBuf } := by
  cases call <;> rfl

theorem finished_fresh {m : ModbusMaster} (complete : line.complete = true)
    (valid : (modbusMasterValidateRx (answered line m body)).value (answered line m body).rxBuf = true)
    (inside : ∀ place ∈ answer.places (answered line m body).rxBuf, place < (answered line m body).rxLen)
    (rxBuf : Memory) :
    (finished line (fun _ => answer) { m with rxBuf := rxBuf } body).result =
      (finished line (fun _ => answer) m body).result := by
  obtain ⟨long, accepted, id, func⟩ := (validate_value _ _).mp valid
  obtain ⟨length, agree⟩ := receive_agree line.received (show ∀ i < 0, rxBuf i = m.rxBuf i from nofun)
  have is := answered_eq line m body
  have is' := answered_eq line { m with rxBuf := rxBuf } body
  have sameLength : (answered line { m with rxBuf := rxBuf } body).rxLen = (answered line m body).rxLen := by
    rw [is, is']
    exact length
  have sameBytes : ∀ i < (answered line m body).rxLen,
      (answered line { m with rxBuf := rxBuf } body).rxBuf i = (answered line m body).rxBuf i := by
    rw [is, is']
    exact agree
  have valid' : (modbusMasterValidateRx (answered line { m with rxBuf := rxBuf } body)).value
      (answered line { m with rxBuf := rxBuf } body).rxBuf = true := by
    rw [validate_value, sameLength, crcAccepts_congr (by omega) sameBytes, sameBytes 0 (by omega), sameBytes 1 (by omega),
      id, func, is, is']
    exact ⟨is ▸ long, is ▸ accepted, rfl, rfl⟩
  rw [(finished_valid complete valid).1, (finished_valid complete valid').1]
  exact Look.value_congr fun place member => sameBytes place (inside place member)

theorem in_frame_iff {line : Line} {call : Call} {m : ModbusMaster} {t : Transaction} (run : call.run line m = some t)
    (accepted : t.result.isSome = true) :
    InFrame line call m t ↔ call.answerLength + 2 ≤ t.master.rxLen ∧ t.master.rxLen ≤ 257 := by
  obtain ⟨rfl, all⟩ := call_run run
  obtain ⟨complete, valid⟩ := finished_some accepted
  have found : (transactionOf call line m).result = _ ∧ (transactionOf call line m).places = _ :=
    finished_valid complete valid
  obtain ⟨value, places⟩ := found
  have long := ((validate_value _ _).mp valid).1
  have master : (transactionOf call line m).master = answered line (prepared call m) (requestOf call) := finished_master
  have some_ : ((answerOf call).value (answered line (prepared call m) (requestOf call)).rxBuf).isSome = true := by
    rw [← value]
    exact accepted
  have bound := answer_places some_ (show 3 ≤ (answered line (prepared call m) (requestOf call)).rxLen - 2 by omega)
  rw [master]
  constructor
  · rintro ⟨inside, checked, -⟩
    rw [master] at inside checked
    have enough := bound.mp fun place member => inside place (places ▸ List.mem_append_right _ member)
    have eight := (BitVec.ofNat 8 ((answered line (prepared call m) (requestOf call)).rxLen - 2)).isLt
    omega
  · rintro ⟨enough, short⟩
    have inside := bound.mpr (by omega)
    refine ⟨fun place member => ?_, ?_, fun rxBuf => ?_⟩
    · rw [master]
      rcases List.mem_append.mp (places ▸ member) with first | later
      · simp only [List.mem_cons, List.not_mem_nil, or_false] at first
        omega
      · exact inside place later
    · rw [master, BitVec.toNat_ofNat]
      omega
    · rw [all, Option.map_some]
      unfold transactionOf
      rw [prepared_stale]
      exact congrArg some (finished_fresh complete valid
        (fun place member => by have := inside place member; omega) rxBuf)

theorem whole_frame_in_frame : ∃ t, (Call.readCoils 1 0 1).run ⟨frame [1, 1, 1, 1], true⟩ idleMaster = some t ∧
    InFrame ⟨frame [1, 1, 1, 1], true⟩ (.readCoils 1 0 1) idleMaster t := by
  have some_ : ((Call.readCoils 1 0 1).run ⟨frame [1, 1, 1, 1], true⟩ idleMaster).isSome := by decide
  have run := (Option.some_get some_).symm
  refine ⟨_, run, (in_frame_iff run ?_).mpr ?_⟩
  · clear run
    revert some_
    decide +kernel
  · clear run
    revert some_
    decide

/-- The checksum of a frame without data is taken for the data. -/
theorem short_frame_accepted : ∃ t, (Call.readCoils 1 0 1).run ⟨frame [1, 1, 1], true⟩ idleMaster = some t ∧
    t.result.isSome = true ∧ ¬ InFrame ⟨frame [1, 1, 1], true⟩ (.readCoils 1 0 1) idleMaster t := by
  have some_ : ((Call.readCoils 1 0 1).run ⟨frame [1, 1, 1], true⟩ idleMaster).isSome := by decide
  refine ⟨_, (Option.some_get some_).symm, ?_, fun inFrame => ?_⟩
  · revert some_
    decide +kernel
  · have inside := inFrame.inside
    clear inFrame
    revert some_
    decide +kernel

end EspFirmware.Proof.Modbus
