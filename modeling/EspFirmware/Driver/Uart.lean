import EspFirmware.Lib.Loop
import EspFirmware.Lib.Memory
import EspFirmware.Rtos.Ringbuf

/-!
The UART driver (`uart.c`). The ring buffers are queues that lose nothing: the one for TX of items, the one for RX of
bytes. Output with a TX ring buffer and input are each modelled with their part of the interrupt handler as one step; the
handler as a whole comes after them, with the interrupts and with output that has no ring buffer.
-/

namespace EspFirmware.Driver
open Lib Lib.Memory Rtos

def UART_FIFO_LEN : Nat := 128

def uartTxData (size : BitVec 32) : List (BitVec 8) := load (store32 (store32 (fun _ => 0) 0 0) 4 size) 0 8

def txDataSize (item : List (BitVec 8)) : BitVec 32 := load32 (fun a => item.getD a 0) 4

inductive UartTxPc where
  | idle
  | description (src : List (BitVec 8))
  | data (src : List (BitVec 8))
  | enable (src : List (BitVec 8))
  | give
  deriving DecidableEq, Repr

/-- `tx_ptr` is what is left of the item from it on, and `fifo` everything that was put into the hardware FIFO. -/
structure UartTx where
  tx_buf_size : Nat
  tx_ring_buf : List (List (BitVec 8))
  tx_len_tot : BitVec 32
  tx_ptr : Option (List (BitVec 8))
  tx_len_cur : Nat
  intrEnabled : Bool
  fifo : List (BitVec 8)
  pc : UartTxPc
  deriving DecidableEq, Repr

namespace UartTx
variable (u : UartTx)

/-- `xRingbufferReceiveFromISR` and what is done with the item, with `en_tx_flg`. There is no result if there is no item. -/
def nextItem (en_tx_flg : Bool) : Option (UartTx × Bool) :=
  match u.tx_ring_buf with
  | [] => none
  | item :: ring =>
      if u.tx_len_tot = 0 then
        some ({ u with tx_ring_buf := ring, tx_ptr := none, tx_len_tot := txDataSize item }, en_tx_flg)
      else if u.tx_ptr = none then
        some ({ u with tx_ring_buf := ring, tx_ptr := some item, tx_len_cur := item.length }, true)
      else some ({ u with tx_ring_buf := ring }, en_tx_flg)

/-- The FIFO is filled from `tx_ptr`: what is left of the room in it and `en_tx_flg`. -/
def fill (src : List (BitVec 8)) (tx_fifo_rem : Nat) : UartTx × Nat × Bool :=
  let send_len := min u.tx_len_cur tx_fifo_rem
  let tx_len_tot := u.tx_len_tot - BitVec.ofNat 32 send_len
  let tx_len_cur := u.tx_len_cur - send_len
  ({ u with
    fifo := u.fifo ++ src.take send_len
    tx_ptr := if tx_len_cur = 0 then none else some (src.drop send_len)
    tx_len_tot := tx_len_tot
    tx_len_cur := tx_len_cur }, tx_fifo_rem - send_len, tx_len_tot ≠ 0)

def wantsItem : Prop := u.tx_len_tot = 0 ∨ u.tx_ptr = none ∨ u.tx_len_cur = 0

instance : Decidable u.wantsItem := inferInstanceAs (Decidable (_ ∨ _ ∨ _))

def fillTurn (tx_fifo_rem : Nat) (en_tx_flg : Bool) : UartTx × Nat × Bool :=
  match u.tx_ptr with
  | none => (u, tx_fifo_rem, en_tx_flg)
  | some src =>
      if u.tx_len_tot ≠ 0 ∧ 0 < u.tx_len_cur then u.fill src tx_fifo_rem else (u, tx_fifo_rem, en_tx_flg)

theorem nextItem_length {u u' : UartTx} {en_tx_flg en_tx_flg' : Bool}
    (received : u.nextItem en_tx_flg = some (u', en_tx_flg')) :
    u.tx_ring_buf.length = u'.tx_ring_buf.length + 1 := by
  unfold nextItem at received
  split at received
  · cases received
  next item ring same =>
      rw [same]
      split at received
      · cases received
        rfl
      · split at received <;> cases received <;> rfl

theorem fillTurn_le (u : UartTx) (tx_fifo_rem : Nat) (en_tx_flg : Bool) :
    (u.fillTurn tx_fifo_rem en_tx_flg).1.tx_ring_buf = u.tx_ring_buf ∧
      (u.fillTurn tx_fifo_rem en_tx_flg).2.1 ≤ tx_fifo_rem := by
  unfold fillTurn
  split
  · exact ⟨rfl, Nat.le_refl _⟩
  · split
    · exact ⟨rfl, Nat.sub_le _ _⟩
    · exact ⟨rfl, Nat.le_refl _⟩

theorem fillTurn_lt (u : UartTx) {tx_fifo_rem : Nat} (room : tx_fifo_rem ≠ 0) (en_tx_flg : Bool)
    (going : ¬ u.wantsItem) : (u.fillTurn tx_fifo_rem en_tx_flg).2.1 < tx_fifo_rem := by
  obtain ⟨more, some_, current⟩ := not_or.mp going |>.imp id not_or.mp
  unfold fillTurn
  split
  next none_ => exact absurd none_ some_
  next src _ =>
      rw [if_pos ⟨more, Nat.pos_of_ne_zero current⟩]
      exact Nat.sub_lt (Nat.pos_of_ne_zero room) (Nat.lt_min.mpr ⟨Nat.pos_of_ne_zero current, Nat.pos_of_ne_zero room⟩)

def fillLoop (u : UartTx) (tx_fifo_rem : Nat) (en_tx_flg : Bool) : UartTx × Bool :=
  if room : tx_fifo_rem = 0 then (u, en_tx_flg)
  else if wants : u.wantsItem then
    match received : u.nextItem en_tx_flg with
    | none => (u, en_tx_flg)
    | some (u', en_tx_flg) =>
        let turn := u'.fillTurn tx_fifo_rem en_tx_flg
        fillLoop turn.1 turn.2.1 turn.2.2
  else
    let turn := u.fillTurn tx_fifo_rem en_tx_flg
    fillLoop turn.1 turn.2.1 turn.2.2
  termination_by u.tx_ring_buf.length + tx_fifo_rem
  decreasing_by
    · have shorter := nextItem_length received
      obtain ⟨same, less⟩ := fillTurn_le u' tx_fifo_rem en_tx_flg
      rw [same]
      omega
    · have less := fillTurn_lt u room en_tx_flg wants
      rw [(fillTurn_le u tx_fifo_rem en_tx_flg).1]
      omega

/-- The TX part of `uart_rx_intr_handler_default`, with so much room in the hardware FIFO. -/
def txfifoEmpty (free : Nat) : UartTx :=
  let (u, en_tx_flg) := { u with intrEnabled := false }.fillLoop free false
  if en_tx_flg then { u with intrEnabled := true } else u

def max_size : Nat := (xRingbufferCreate u.tx_buf_size .noSplit 0 fun _ => 0).xMaxItemSize

def txStep : Option UartTx :=
  match u.pc with
  | .idle => none
  | .description src =>
      some { u with tx_ring_buf := u.tx_ring_buf ++ [uartTxData (BitVec.ofNat 32 src.length)], pc := .data src }
  | .data src =>
      let send_size := min src.length (u.max_size / 2)
      some { u with tx_ring_buf := u.tx_ring_buf ++ [src.take send_size], pc := .enable (src.drop send_size) }
  | .enable src => some { u with intrEnabled := true, pc := if src = [] then .give else .data src }
  | .give => some { u with pc := .idle }

end UartTx

inductive UartTxEvent where
  | write (src : List (BitVec 8))
  | task
  | txfifoEmpty (free : Nat)
  deriving DecidableEq, Repr

def UartTxEvent.run (u : UartTx) : UartTxEvent → Option UartTx
  | .write src =>
      if u.pc = .idle ∧ src ≠ [] ∧ src.length < 2 ^ 32 then some { u with pc := .description src } else none
  | .task => u.txStep
  | .txfifoEmpty free =>
      if u.intrEnabled ∧ 0 < free ∧ free ≤ UART_FIFO_LEN then some (u.txfifoEmpty free) else none

def UartTx.installed (tx_buffer_size : Nat) : UartTx := ⟨tx_buffer_size, [], 0, none, 0, false, [], .idle⟩

inductive UartRxPc where
  | idle
  | loop (length : Nat)
  | copy (length : Nat)
  | release (length : Nat)
  | retry (length : Nat)
  | stored (length : Nat)
  | enable (length : Nat)
  | flush
  | flushLoop
  | flushReceive
  | flushRetry
  | flushEnd
  | flushEnable
  | leave
  deriving DecidableEq, Repr

/-- `rx_head_ptr` is the item that was received and not returned, `rx_ptr` the offset of what is left of it; `fifo` is the
hardware FIFO, and `out` what the last call has copied. -/
structure UartRx where
  rx_buf_size : Nat
  rx_ring_buf : List (BitVec 8)
  rx_buffered_len : Int
  rx_buffer_full_flg : Bool
  rx_cur_remain : Nat
  rx_ptr : Nat
  rx_head_ptr : Option (List (BitVec 8))
  rx_stash : List (BitVec 8)
  intrEnabled : Bool
  fifo : List (BitVec 8)
  pc : UartRxPc
  deriving DecidableEq, Repr

namespace UartRx
variable (u : UartRx)

/-- Whether the ring buffer takes so many bytes; an item that was not returned takes up room. -/
def room (length : Nat) : Bool :=
  u.rx_ring_buf.length + (u.rx_head_ptr.getD []).length + length ≤ u.rx_buf_size

def rxfifoFull : UartRx :=
  if u.rx_buffer_full_flg = false then
    let rx_stash := u.fifo
    let u := { u with rx_stash := rx_stash, fifo := [] }
    if u.room rx_stash.length then
      { u with
        rx_ring_buf := u.rx_ring_buf ++ rx_stash
        rx_buffered_len := u.rx_buffered_len + rx_stash.length }
    else { u with intrEnabled := false, rx_buffer_full_flg := true }
  else { u with intrEnabled := false }

def receive (size : Nat) : Option UartRx :=
  if u.rx_cur_remain = 0 ∧ 0 < size ∧ size ≤ u.rx_ring_buf.length then
    some { u with
      rx_ring_buf := u.rx_ring_buf.drop size
      rx_head_ptr := some (u.rx_ring_buf.take size)
      rx_ptr := 0
      rx_cur_remain := size }
  else none

def copied (length : Nat) : List (BitVec 8) :=
  ((u.rx_head_ptr.getD []).drop u.rx_ptr).take (min u.rx_cur_remain length)

def copy (length : Nat) : UartRx :=
  let len_tmp := min u.rx_cur_remain length
  { u with
    rx_buffered_len := u.rx_buffered_len - len_tmp
    rx_ptr := u.rx_ptr + len_tmp
    rx_cur_remain := u.rx_cur_remain - len_tmp
    pc := if u.rx_cur_remain - len_tmp = 0 then .release (length - len_tmp) else .loop (length - len_tmp) }

def sendStash : Option UartRx :=
  if u.room u.rx_stash.length then some { u with rx_ring_buf := u.rx_ring_buf ++ u.rx_stash } else none

def countStash : UartRx :=
  { u with rx_buffered_len := u.rx_buffered_len + u.rx_stash.length, rx_buffer_full_flg := false }

def rxStep (size : Nat) : Option UartRx :=
  match u.pc with
  | .idle => none
  | .loop 0 => some { u with pc := .leave }
  | .loop (length + 1) =>
      if u.rx_cur_remain = 0 then
        if u.rx_ring_buf = [] then some { u with pc := .leave }
        else (u.receive size).map fun u => { u with pc := .copy (length + 1) }
      else some { u with pc := .copy (length + 1) }
  | .copy length => some (u.copy length)
  | .release length => some { u with rx_head_ptr := none, rx_ptr := 0, pc := .retry length }
  | .retry length =>
      if u.rx_buffer_full_flg then
        match u.sendStash with
        | none => some { u with pc := .loop length }
        | some u => some { u with pc := .stored length }
      else some { u with pc := .loop length }
  | .stored length => some { u.countStash with pc := .enable length }
  | .enable length => some { u with intrEnabled := true, pc := .loop length }
  | .flush => some { u with intrEnabled := false, pc := .flushLoop }
  | .flushLoop =>
      some { u with
        rx_buffered_len := if u.rx_head_ptr.isSome then u.rx_buffered_len - u.rx_cur_remain else u.rx_buffered_len
        rx_cur_remain := if u.rx_head_ptr.isSome then 0 else u.rx_cur_remain
        rx_ptr := if u.rx_head_ptr.isSome then 0 else u.rx_ptr
        rx_head_ptr := none
        pc := .flushReceive }
  | .flushReceive =>
      if u.rx_ring_buf = [] then some { u with rx_buffered_len := 0, rx_buffer_full_flg := false, pc := .flushEnd }
      else if 0 < size ∧ size ≤ u.rx_ring_buf.length then
        some { u with
          rx_ring_buf := u.rx_ring_buf.drop size
          rx_buffered_len := u.rx_buffered_len - size
          pc := .flushRetry }
      else none
  | .flushRetry =>
      if u.rx_buffer_full_flg then
        match u.sendStash with
        | none => some { u with pc := .flushLoop }
        | some u => some { u.countStash with pc := .flushLoop }
      else some { u with pc := .flushLoop }
  | .flushEnd => some { u with rx_ptr := 0, rx_cur_remain := 0, rx_head_ptr := none, fifo := [], pc := .flushEnable }
  | .flushEnable => some { u with intrEnabled := true, pc := .leave }
  | .leave => some { u with pc := .idle }

end UartRx

inductive UartRxEvent where
  | read (length : Nat)
  | flush
  | task (size : Nat)
  | rxfifoFull
  | arrive (c : BitVec 8)
  deriving DecidableEq, Repr

def UartRxEvent.run (u : UartRx) : UartRxEvent → Option UartRx
  | .read length => if u.pc = .idle then some { u with pc := .loop length } else none
  | .flush => if u.pc = .idle then some { u with pc := .flush } else none
  | .task size => u.rxStep size
  | .rxfifoFull => if u.intrEnabled then some u.rxfifoFull else none
  | .arrive c => if u.fifo.length < UART_FIFO_LEN then some { u with fifo := u.fifo ++ [c] } else none

def UartRx.installed (rx_buffer_size : Nat) : UartRx := ⟨rx_buffer_size, [], 0, false, 0, 0, none, [], true, [], .idle⟩

def UartTx.fillBody : UartTx × Nat × Bool → Option (UartTx × Nat × Bool)
  | (u, tx_fifo_rem, en_tx_flg) =>
      if tx_fifo_rem = 0 then none
      else if u.wantsItem then
        (u.nextItem en_tx_flg).map fun (u, en_tx_flg) => u.fillTurn tx_fifo_rem en_tx_flg
      else some (u.fillTurn tx_fifo_rem en_tx_flg)

def UART_RXFIFO_FULL_INT : BitVec 32 := 0x001
def UART_TXFIFO_EMPTY_INT : BitVec 32 := 0x002
def UART_PARITY_ERR_INT : BitVec 32 := 0x004
def UART_FRM_ERR_INT : BitVec 32 := 0x008
def UART_RXFIFO_OVF_INT : BitVec 32 := 0x010
def UART_RXFIFO_TOUT_INT : BitVec 32 := 0x100
def UART_INTR_MASK : BitVec 32 := 0x1ff

/-- Where the task with `tx_mux` is in `uart_tx_all` without a TX ring buffer, and what it has still to send. -/
inductive UartFifoPc where
  | idle
  | take (src : List (BitVec 8))
  | fill (src : List (BitVec 8))
  | waiting (src : List (BitVec 8))
  | enable (src : List (BitVec 8))
  | give
  deriving DecidableEq, Repr

/-- The driver with its interrupts: those that are pending, and those that are enabled, for which the `intrEnabled` of `tx`
and `rx` stand in their parts. -/
structure UartDriver where
  int_raw : BitVec 32
  int_ena : BitVec 32
  tx : UartTx
  tx_waiting_fifo : Bool
  tx_fifo_sem : Bool
  fifoPc : UartFifoPc
  rx : UartRx
  deriving DecidableEq, Repr

/-- What the hardware does during a turn of the handler: new interrupts, bytes that arrive, and how much of the TX FIFO is
in use. -/
structure UartHw where
  int_raw : BitVec 32
  received : List (BitVec 8)
  txfifo_cnt : Nat
  txfifo_cnt_le : txfifo_cnt ≤ UART_FIFO_LEN

namespace UartDriver
variable (s : UartDriver)

def int_st : BitVec 32 := s.int_raw &&& s.int_ena

def uart_clear_intr_status (mask : BitVec 32) : UartDriver := { s with int_raw := s.int_raw &&& ~~~mask }

def uart_enable_intr_mask (enable_mask : BitVec 32) : UartDriver := { s with int_ena := s.int_ena ||| enable_mask }

def uart_disable_intr_mask (disable_mask : BitVec 32) : UartDriver := { s with int_ena := s.int_ena &&& ~~~disable_mask }

def uart_enable_rx_intr : UartDriver := s.uart_enable_intr_mask (UART_RXFIFO_FULL_INT ||| UART_RXFIFO_TOUT_INT)

def uart_disable_rx_intr : UartDriver := s.uart_disable_intr_mask (UART_RXFIFO_FULL_INT ||| UART_RXFIFO_TOUT_INT)

def uart_enable_tx_intr (enable : Bool) (thresh : Int) : UartDriver :=
  if thresh < UART_FIFO_LEN then
    let s := s.uart_clear_intr_status UART_TXFIFO_EMPTY_INT
    if enable then s.uart_enable_intr_mask UART_TXFIFO_EMPTY_INT else s.uart_disable_intr_mask UART_TXFIFO_EMPTY_INT
  else s

def uart_intr_config (intr_enable_mask : BitVec 32) : UartDriver :=
  { s.uart_clear_intr_status UART_INTR_MASK with int_ena := intr_enable_mask }

def installed (rx_buffer_size tx_buffer_size : Nat) : UartDriver where
  int_raw := 0
  int_ena := UART_RXFIFO_FULL_INT ||| UART_RXFIFO_TOUT_INT ||| UART_FRM_ERR_INT ||| UART_RXFIFO_OVF_INT
  tx := .installed tx_buffer_size
  tx_waiting_fifo := false
  tx_fifo_sem := true
  fifoPc := .idle
  rx := .installed rx_buffer_size

def arrives (hw : UartHw) : UartDriver :=
  { s with
    int_raw := s.int_raw ||| hw.int_raw
    rx := { s.rx with fifo := (s.rx.fifo ++ hw.received).take UART_FIFO_LEN } }

def reread (hw : UartHw) : UartDriver × BitVec 32 := (s.arrives hw, (s.arrives hw).int_st)

def rxTurn : UartDriver :=
  let rx := { s.rx with intrEnabled := true }.rxfifoFull
  let s := { s with rx := rx }.uart_clear_intr_status (UART_RXFIFO_TOUT_INT ||| UART_RXFIFO_FULL_INT)
  if rx.intrEnabled then s
  else s.uart_disable_intr_mask (UART_RXFIFO_TOUT_INT ||| UART_RXFIFO_FULL_INT)

def fillTx (fuel : Nat) (hw : UartHw) : Option UartDriver :=
  (leaveWithin UartTx.fillBody fuel (s.tx, UART_FIFO_LEN - hw.txfifo_cnt, false)).map fun (tx, _, en_tx_flg) =>
    let s := { s with tx := tx }
    if en_tx_flg then
      (s.uart_clear_intr_status UART_TXFIFO_EMPTY_INT).uart_enable_intr_mask UART_TXFIFO_EMPTY_INT
    else s

def handlerTurn (fuel : Nat) (hw : UartHw) (uart_intr_status : BitVec 32) : Option (UartDriver × BitVec 32) :=
  if uart_intr_status &&& UART_TXFIFO_EMPTY_INT ≠ 0 then
    let s := (s.uart_clear_intr_status UART_TXFIFO_EMPTY_INT).uart_disable_intr_mask UART_TXFIFO_EMPTY_INT
    if s.tx_waiting_fifo = true ∧ s.tx.tx_buf_size = 0 then
      some ({ s with tx_waiting_fifo := false, tx_fifo_sem := true }.reread hw)
    else if s.tx.tx_buf_size = 0 then some (s.arrives hw, uart_intr_status)
    else (s.fillTx fuel hw).map fun s => s.reread hw
  else if uart_intr_status &&& UART_RXFIFO_TOUT_INT ≠ 0 ∨ uart_intr_status &&& UART_RXFIFO_FULL_INT ≠ 0 then
    some (s.rxTurn.reread hw)
  else if uart_intr_status &&& UART_RXFIFO_OVF_INT ≠ 0 then
    some (({ s with rx.fifo := [] }.uart_clear_intr_status UART_RXFIFO_OVF_INT).reread hw)
  else if uart_intr_status &&& UART_FRM_ERR_INT ≠ 0 then
    some ((s.uart_clear_intr_status UART_FRM_ERR_INT).reread hw)
  else if uart_intr_status &&& UART_PARITY_ERR_INT ≠ 0 then
    some ((s.uart_clear_intr_status UART_PARITY_ERR_INT).reread hw)
  else some ((s.uart_clear_intr_status uart_intr_status).reread hw)

def handlerLoop (env : Nat → UartHw) (limit : Nat) : Nat → Nat → UartDriver → BitVec 32 → Option UartDriver
  | fuel, t, s, uart_intr_status =>
      if uart_intr_status = 0 then some s
      else
        match fuel with
        | 0 => none
        | fuel + 1 =>
            (s.handlerTurn limit (env t) uart_intr_status).bind fun (s, uart_intr_status) =>
              handlerLoop env limit fuel (t + 1) s uart_intr_status

/-- The driver when the handler has returned, if each of its loops takes less than so many turns. -/
def uart_rx_intr_handler_default (env : Nat → UartHw) (fuel : Nat) : Option UartDriver :=
  handlerLoop env fuel fuel 0 s s.int_st

def uart_write_bytes (src : List (BitVec 8)) : Option UartDriver :=
  if s.tx.tx_buf_size ≠ 0 then ((UartTxEvent.write src).run s.tx).map fun tx => { s with tx := tx }
  else if s.fifoPc = .idle ∧ src ≠ [] then some { s with fifoPc := .take src }
  else none

def uart_fill_fifo (buffer : List (BitVec 8)) (txfifo_cnt : Nat) : UartDriver × List (BitVec 8) :=
  let copy_cnt := min buffer.length (UART_FIFO_LEN - txfifo_cnt)
  ({ s with tx.fifo := s.tx.fifo ++ buffer.take copy_cnt }, buffer.drop copy_cnt)

def fifoStep (txfifo_cnt : Nat) : Option UartDriver :=
  match s.fifoPc with
  | .idle => none
  | .take [] => some { s with fifoPc := .give }
  | .take (c :: src) =>
      if s.tx_fifo_sem then some { s with tx_fifo_sem := false, fifoPc := .fill (c :: src) } else none
  | .fill src =>
      let (s, src) := s.uart_fill_fifo src txfifo_cnt
      some { s with fifoPc := if src = [] then .take [] else .waiting src }
  | .waiting src => some { s with tx_waiting_fifo := true, fifoPc := .enable src }
  | .enable src => some { s.uart_enable_tx_intr true 10 with fifoPc := .take src }
  | .give => some { s with tx_fifo_sem := true, fifoPc := .idle }

def txTask (txfifo_cnt : Nat) : Option UartDriver :=
  if s.tx.tx_buf_size ≠ 0 then
    s.tx.txStep.map fun tx =>
      match s.tx.pc with
      | .enable _ => { s with tx := tx }.uart_enable_tx_intr true 10
      | .idle | .description _ | .data _ | .give => { s with tx := tx }
  else s.fifoStep txfifo_cnt

def uart_tx_chars (buffer : List (BitVec 8)) (txfifo_cnt : Nat) : Option UartDriver :=
  if s.tx.pc = .idle ∧ s.fifoPc = .idle then some (s.uart_fill_fifo buffer txfifo_cnt).1 else none

def rxEvent (e : UartRxEvent) : Option UartDriver :=
  match e with
  | .rxfifoFull => none
  | .read _ | .flush | .arrive _ => (e.run s.rx).map fun rx => { s with rx := rx }
  | .task size =>
      (s.rx.rxStep size).map fun rx =>
        match s.rx.pc with
        | .enable _ | .flushEnable => { s with rx := rx }.uart_enable_rx_intr
        | .flush => { s with rx := rx }.uart_disable_rx_intr
        | _ => { s with rx := rx }

end UartDriver

inductive UartEvent where
  | enableIntrMask (enable_mask : BitVec 32)
  | disableIntrMask (disable_mask : BitVec 32)
  | clearIntrStatus (mask : BitVec 32)
  | enableTxIntr (enable : Bool) (thresh : Int)
  | intrConfig (intr_enable_mask : BitVec 32)
  | write (src : List (BitVec 8))
  | txTask (txfifo_cnt : Nat)
  | txChars (buffer : List (BitVec 8)) (txfifo_cnt : Nat)
  | rx (e : UartRxEvent)
  | pending (int_raw : BitVec 32)
  | handler (env : Nat → UartHw) (fuel : Nat)

def UartEvent.run (s : UartDriver) : UartEvent → Option UartDriver
  | .enableIntrMask enable_mask => some (s.uart_enable_intr_mask enable_mask)
  | .disableIntrMask disable_mask => some (s.uart_disable_intr_mask disable_mask)
  | .clearIntrStatus mask => some (s.uart_clear_intr_status mask)
  | .enableTxIntr enable thresh => some (s.uart_enable_tx_intr enable thresh)
  | .intrConfig intr_enable_mask => some (s.uart_intr_config intr_enable_mask)
  | .write src => s.uart_write_bytes src
  | .txTask txfifo_cnt => s.txTask txfifo_cnt
  | .txChars buffer txfifo_cnt => s.uart_tx_chars buffer txfifo_cnt
  | .rx e => s.rxEvent e
  | .pending int_raw => some { s with int_raw := s.int_raw ||| int_raw }
  | .handler env fuel => s.uart_rx_intr_handler_default env fuel

end EspFirmware.Driver
