import EspFirmware.Lib.Run
import EspFirmware.Driver.Pwm
import EspFirmware.Driver.Uart

/-!
What the drivers put out and take in.
-/

namespace EspFirmware.Spec
open Lib Driver

/-- `called` is the table of the last call of `pwm_start`, `wanted` of the last one that has returned, and `cycle` what was
wanted when the cycle began. -/
structure PwmRun where
  p : Pwm
  called : List PwmParam
  wanted : List PwmParam
  cycle : List PwmParam

namespace PwmRun
variable (convert : Nat → Nat → Nat → Nat) (r : PwmRun)

def start (settings : PwmSettings) (left : Bool → List PwmParam) (level : BitVec 32) : PwmRun :=
  ⟨⟨settings, ⟨false, fun k => ⟨0, left k⟩, false, false, 0, false⟩, .idle, false, level⟩, [], [], []⟩

def note (p : Pwm) : PwmEvent → PwmRun
  | .start left =>
      let called := r.p.settings.table convert left
      ⟨p, called, if p.pc = .idle then called else r.wanted, r.cycle⟩
  | .copy => ⟨p, r.called, if p.pc = .idle then r.called else r.wanted, r.cycle⟩
  | .edge => ⟨p, r.called, r.wanted, if r.p.output.current_channel = 0 then r.wanted else r.cycle⟩
  | .setting _ => { r with p := p }
  | .stop _ => { r with p := p }

def step (event : PwmEvent) : Option PwmRun := (event.run convert r.p).map fun p => r.note convert p event

def inUse : RunPwmSingle :=
  let table := if r.p.output.current_channel = 0 then r.wanted else r.cycle
  ⟨table.length, table⟩

structure LastSettingWins : Prop where
  edge : r.p.timer → (r.p.output.pwm_timer_intr_handler r.p.level).1 =
    r.inUse.edge r.p.output.current_channel r.p.level
  next : r.p.timer → (r.p.output.pwm_timer_intr_handler r.p.level).2.current_channel =
    r.inUse.next r.p.output.current_channel
  apart : r.p.timer → r.p.pc ≠ .idle →
    (r.p.output.pwm_timer_intr_handler r.p.level).2.single ≠ r.p.output.run_pwm_toggle

end PwmRun

abbrev runPwm (convert : Nat → Nat → Nat → Nat) : List PwmEvent → PwmRun → Option PwmRun := runSteps (PwmRun.step convert)

/-- While the output is on, `pwm_start` is called after the interrupt has taken the table of the call before. -/
def TakenBefore (p : Pwm) : PwmEvent → Prop
  | .start _ => p.output.start_flag → p.output.update_done = false
  | _ => True

instance (p : Pwm) (event : PwmEvent) : Decidable (TakenBefore p event) :=
  match event with
  | .start _ => inferInstanceAs (Decidable (_ → _))
  | .setting _ => isTrue trivial
  | .copy => isTrue trivial
  | .stop _ => isTrue trivial
  | .edge => isTrue trivial

def edgesFrom (single : RunPwmSingle) : Nat → Nat → BitVec 32 → List (BitVec 32 × Nat)
  | 0, _, _ => []
  | count + 1, current_channel, mask =>
      let edge := single.edge current_channel mask
      edge :: edgesFrom single count (single.next current_channel) edge.1

def cycleOf (table : List PwmParam) (mask : BitVec 32) : List (BitVec 32 × Nat) :=
  edgesFrom ⟨table.length, table⟩ table.length 0 mask

def levelAt : List (BitVec 32 × Nat) → Nat → BitVec 32
  | [], _ => 0
  | (level, ticks) :: rest, t => if t < ticks then level else levelAt rest (t - ticks)

def Near (time numerator denominator : Int) : Prop := |time * denominator - numerator| ≤ denominator

structure Reproduces (turn : Int) (s : PwmSettings) (table : List PwmParam) (mask : BitVec 32) : Prop where
  period : ((cycleOf table mask).map Prod.snd).sum = s.period
  wave : ∀ i info, s.pwm_info[i]? = some info → ∃ start high : Int,
    Near start (info.phase * s.period) turn ∧ Near high (s.period * info.duty) s.depth ∧
      ∀ t < s.period, (levelAt (cycleOf table mask) t).getLsbD info.io_num =
        xor (s.channel_invert_bitmap.getLsbD i) (decide ((t - start) % s.period < high))

structure Proper (s : PwmSettings) : Prop where
  number : s.pwm_info.length ≤ 8
  depth : 0 < s.depth ∧ s.depth < 2 ^ 32
  period : 10 ≤ s.period ∧ s.period < 2 ^ 32
  pins : (s.pwm_info.map PwmInfo.io_num).Nodup
  pin : ∀ info ∈ s.pwm_info, info.io_num < 16
  duty : ∀ info ∈ s.pwm_info, info.duty ≤ s.depth
  phase : ∀ info ∈ s.pwm_info, -180 < info.phase ∧ info.phase < 180

def Converts (convert : Nat → Nat → Nat → Nat) (s : PwmSettings) : Prop :=
  ∀ info ∈ s.pwm_info, Near (convert s.period info.duty s.depth) (s.period * info.duty) s.depth

/-- The period is the one of `pwm_init`, the edges of a channel differ, and the delays are 16-bit numbers. -/
structure Timely (convert : Nat → Nat → Nat → Nat) (s : PwmSettings) : Prop where
  period : s.period = s.depth
  inside : ∀ info ∈ s.pwm_info, info.duty ≠ 0 → info.duty ≠ s.depth →
    0 < convert s.period info.duty s.depth ∧ convert s.period info.duty s.depth < s.depth
  delay : ∀ info ∈ s.pwm_info, info.phase.natAbs * s.depth / 180 < 2 ^ 15

structure UartTxRun where
  u : UartTx
  writes : List (List (BitVec 8))

namespace UartTxRun
variable (r : UartTxRun)

def start (tx_buffer_size : Nat) : UartTxRun := ⟨UartTx.installed tx_buffer_size, []⟩

def note (u : UartTx) : UartTxEvent → UartTxRun
  | .write src => ⟨u, r.writes ++ [src]⟩
  | .task | .txfifoEmpty _ => ⟨u, r.writes⟩

def step (event : UartTxEvent) : Option UartTxRun := (event.run r.u).map fun u => r.note u event

structure PutsOut : Prop where
  inOrder : r.u.fifo <+: r.writes.flatten
  going : r.u.pc = .idle → r.u.fifo ≠ r.writes.flatten → r.u.intrEnabled = true

def AllQueued : Prop := r.u.pc = .idle ∨ r.u.pc = .give

instance : Decidable r.AllQueued := inferInstanceAs (Decidable (_ ∨ _))

def EndsInside (free : Nat) : Prop :=
  ∀ k < r.writes.length, r.u.fifo.length + free ≠ (r.writes.take k).flatten.length

instance (free : Nat) : Decidable (r.EndsInside free) := inferInstanceAs (Decidable (∀ k < _, _))

end UartTxRun

abbrev runUartTx : List UartTxEvent → UartTxRun → Option UartTxRun := runSteps UartTxRun.step

/-- Once all items are sent, no interrupt finds room for exactly the bytes to the end of a write before the last. -/
def RoomInside (r : UartTxRun) : UartTxEvent → Prop
  | .txfifoEmpty free => r.AllQueued → r.EndsInside free
  | .write _ | .task => True

instance (r : UartTxRun) (event : UartTxEvent) : Decidable (RoomInside r event) :=
  match event with
  | .txfifoEmpty _ => inferInstanceAs (Decidable (_ → _))
  | .write _ => isTrue trivial
  | .task => isTrue trivial

/-- `received` are the bytes that arrived since the last flush, `returned` those that the reads have returned since. -/
structure UartRxRun where
  u : UartRx
  received : List (BitVec 8)
  returned : List (BitVec 8)

namespace UartRxRun
variable (r : UartRxRun)

def start (rx_buffer_size : Nat) : UartRxRun := ⟨UartRx.installed rx_buffer_size, [], []⟩

def note (u : UartRx) : UartRxEvent → UartRxRun
  | .arrive c => ⟨u, r.received ++ [c], r.returned⟩
  | .task _ =>
      match r.u.pc with
      | .copy length => ⟨u, r.received, r.returned ++ r.u.copied length⟩
      | .flushEnd => ⟨u, [], []⟩
      | _ => ⟨u, r.received, r.returned⟩
  | .read _ | .flush | .rxfifoFull => ⟨u, r.received, r.returned⟩

def step (event : UartRxEvent) : Option UartRxRun := (event.run r.u).map fun u => r.note u event

structure TakesIn : Prop where
  inOrder : r.returned <+: r.received
  counted : r.u.pc = .idle → r.u.rx_buffered_len = r.u.rx_ring_buf.length + r.u.rx_cur_remain
  unread : r.u.pc = .idle → r.u.rx_buffer_full_flg = true → r.u.rx_ring_buf ≠ [] ∨ r.u.rx_cur_remain ≠ 0
  going : r.u.pc = .idle → r.u.intrEnabled = false → r.u.rx_buffer_full_flg = true

end UartRxRun

abbrev runUartRx : List UartRxEvent → UartRxRun → Option UartRxRun := runSteps UartRxRun.step

/-- Whatever is pending, the handler leaves both of its loops if new interrupts come to an end. -/
def AlwaysLeaves (s : UartDriver) : Prop :=
  ∀ (int_raw : BitVec 32) (env : Nat → UartHw), (∃ last, ∀ t ≥ last, (env t).int_raw = 0) →
    ∃ fuel s', { s with int_raw := int_raw }.uart_rx_intr_handler_default env fuel = some s'

abbrev runUart : List UartEvent → UartDriver → Option UartDriver := runSteps UartEvent.run

/-- The step enables the interrupt for an empty TX FIFO: a call, or a write without a TX ring buffer. -/
def EnablesEmpty (s : UartDriver) : UartEvent → Prop
  | .enableIntrMask enable_mask => enable_mask &&& UART_TXFIFO_EMPTY_INT ≠ 0
  | .enableTxIntr enable thresh => enable = true ∧ thresh < UART_FIFO_LEN
  | .intrConfig intr_enable_mask => intr_enable_mask &&& UART_TXFIFO_EMPTY_INT ≠ 0
  | .txTask _ =>
      match s.fifoPc with
      | .enable _ => True
      | .idle | .take _ | .fill _ | .waiting _ | .give => False
  | _ => False

/-- That interrupt is enabled where there is a TX ring buffer or a write waits for it. -/
def WaitedFor (s : UartDriver) (e : UartEvent) : Prop :=
  EnablesEmpty s e → s.tx.tx_buf_size ≠ 0 ∨ s.tx_waiting_fifo = true

end EspFirmware.Spec
