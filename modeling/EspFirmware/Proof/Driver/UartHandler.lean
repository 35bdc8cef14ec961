import EspFirmware.Spec.Driver
import Mathlib.Data.Fintype.Card

namespace EspFirmware.Driver
open Lib Spec

theorem empty_bit (x : BitVec 32) : x &&& UART_TXFIFO_EMPTY_INT ≠ 0 ↔ x.getLsbD 1 = true := by
  rw [show UART_TXFIFO_EMPTY_INT = BitVec.twoPow 32 1 from rfl, BitVec.and_twoPow]
  cases x.getLsbD 1 with
  | false => simp
  | true => simp only [if_true, iff_true]; decide

def pendingCount (int_raw : BitVec 32) : Nat := (Finset.univ.filter fun i : Fin 32 => int_raw.getLsbD i = true).card

theorem pendingCount_le (int_raw : BitVec 32) : pendingCount int_raw ≤ 32 :=
  (Finset.card_filter_le _ _).trans (Finset.card_fin 32).le

theorem pendingCount_clear {int_raw mask : BitVec 32} (hit : int_raw &&& mask ≠ 0) :
    pendingCount (int_raw &&& ~~~mask) < pendingCount int_raw := by
  obtain ⟨i, inside, bit⟩ : ∃ i, ∃ _ : i < 32, (int_raw &&& mask).getLsbD i = true := by
    refine Classical.byContradiction fun none_ => hit (BitVec.eq_of_getLsbD_eq fun i inside => ?_)
    exact (Bool.eq_false_iff.mpr fun bit => none_ ⟨i, inside, bit⟩).trans BitVec.getLsbD_zero.symm
  rw [BitVec.getLsbD_and, Bool.and_eq_true] at bit
  refine Finset.card_lt_card (Finset.ssubset_iff_subset_ne.mpr ⟨fun j there => ?_, fun same => ?_⟩)
  · rw [Finset.mem_filter_univ, BitVec.getLsbD_and, Bool.and_eq_true] at there
    exact (Finset.mem_filter_univ j).mpr there.1
  · have there : (⟨i, inside⟩ : Fin 32) ∈ Finset.univ.filter fun i : Fin 32 => int_raw.getLsbD i = true :=
      (Finset.mem_filter_univ _).mpr bit.1
    rw [← same, Finset.mem_filter_univ, BitVec.getLsbD_and, BitVec.getLsbD_not] at there
    simp [bit.2] at there

theorem raw_of_status {s : UartDriver} {mask : BitVec 32} (hit : s.int_st &&& mask ≠ 0) : s.int_raw &&& mask ≠ 0 := by
  intro none_
  refine hit ?_
  rw [UartDriver.int_st, BitVec.and_assoc, BitVec.and_comm s.int_ena, ← BitVec.and_assoc, none_]
  exact BitVec.zero_and

theorem fillBody_cases {u : UartTx} {tx_fifo_rem : Nat} {en_tx_flg : Bool} {v : UartTx × Nat × Bool}
    (turn : UartTx.fillBody (u, tx_fifo_rem, en_tx_flg) = some v) :
    (∃ u' en_tx_flg', u.nextItem en_tx_flg = some (u', en_tx_flg') ∧ v = u'.fillTurn tx_fifo_rem en_tx_flg') ∨
      tx_fifo_rem ≠ 0 ∧ ¬ u.wantsItem ∧ v = u.fillTurn tx_fifo_rem en_tx_flg := by
  rw [UartTx.fillBody] at turn
  by_cases room : tx_fifo_rem = 0
  · rw [if_pos room] at turn
    cases turn
  · rw [if_neg room] at turn
    by_cases wants : u.wantsItem
    · rw [if_pos wants, Option.map_eq_some_iff] at turn
      obtain ⟨⟨u', en_tx_flg'⟩, received, rfl⟩ := turn
      exact .inl ⟨u', en_tx_flg', received, rfl⟩
    · rw [if_neg wants] at turn
      cases turn
      exact .inr ⟨room, wants, rfl⟩

theorem fillBody_smaller (v v' : UartTx × Nat × Bool) (turn : UartTx.fillBody v = some v') :
    v'.1.tx_ring_buf.length + v'.2.1 < v.1.tx_ring_buf.length + v.2.1 := by
  obtain ⟨u, tx_fifo_rem, en_tx_flg⟩ := v
  rcases fillBody_cases turn with ⟨u', en_tx_flg', received, rfl⟩ | ⟨room, going, rfl⟩
  · have shorter := UartTx.nextItem_length received
    obtain ⟨same, less⟩ := UartTx.fillTurn_le u' tx_fifo_rem en_tx_flg'
    rw [same]
    simp only
    omega
  · have less := UartTx.fillTurn_lt u room en_tx_flg going
    rw [(UartTx.fillTurn_le u tx_fifo_rem en_tx_flg).1]
    exact Nat.add_lt_add_left less _

theorem fillTurn_size (u : UartTx) (tx_fifo_rem : Nat) (en_tx_flg : Bool) :
    (u.fillTurn tx_fifo_rem en_tx_flg).1.tx_buf_size = u.tx_buf_size := by
  unfold UartTx.fillTurn
  repeat' split
  all_goals rfl

theorem nextItem_size {u u' : UartTx} {en_tx_flg en_tx_flg' : Bool}
    (received : u.nextItem en_tx_flg = some (u', en_tx_flg')) : u'.tx_buf_size = u.tx_buf_size := by
  unfold UartTx.nextItem at received
  split at received
  · cases received
  · repeat' split at received
    all_goals
      cases received
      rfl

theorem fillBody_keeps {v v' : UartTx × Nat × Bool} (turn : UartTx.fillBody v = some v') :
    v'.1.tx_buf_size = v.1.tx_buf_size ∧ v'.1.tx_ring_buf.length ≤ v.1.tx_ring_buf.length := by
  obtain ⟨u, tx_fifo_rem, en_tx_flg⟩ := v
  rcases fillBody_cases turn with ⟨u', en_tx_flg', received, rfl⟩ | ⟨-, -, rfl⟩
  · have shorter := UartTx.nextItem_length received
    rw [fillTurn_size, nextItem_size received, (UartTx.fillTurn_le u' tx_fifo_rem en_tx_flg').1]
    exact ⟨rfl, by simp only; omega⟩
  · rw [fillTurn_size, (UartTx.fillTurn_le u tx_fifo_rem en_tx_flg).1]
    exact ⟨rfl, Nat.le_refl _⟩

/-- Without a TX ring buffer the interrupt for an empty FIFO is only enabled while a write waits for it. -/
def Safe (s : UartDriver) : Prop :=
  s.tx.tx_buf_size = 0 → s.int_ena.getLsbD 1 = true → s.tx_waiting_fifo = true

theorem Safe.mono {s s' : UartDriver} (safe : Safe s) (size : s'.tx.tx_buf_size = s.tx.tx_buf_size)
    (ena : s'.int_ena.getLsbD 1 = true → s.int_ena.getLsbD 1 = true)
    (waiting : s.tx_waiting_fifo = true → s'.tx_waiting_fifo = true) : Safe s' :=
  fun none_ enabled => waiting (safe (size ▸ none_) (ena enabled))

structure Turned (s s' : UartDriver) (hw : UartHw) : Prop where
  safe : Safe s → Safe s'
  size : s'.tx.tx_buf_size = s.tx.tx_buf_size
  items : s'.tx.tx_ring_buf.length ≤ s.tx.tx_ring_buf.length
  cleared : ∃ mask, s.int_raw &&& mask ≠ 0 ∧ s'.int_raw = s.int_raw &&& ~~~mask ||| hw.int_raw

theorem fillTx_turned {s t s' : UartDriver} {fuel : Nat} {hw : UartHw} (some_ : t.tx.tx_buf_size ≠ 0) (tx : t.tx = s.tx)
    (raw : t.int_raw = s.int_raw &&& ~~~UART_TXFIFO_EMPTY_INT) (hit : s.int_raw &&& UART_TXFIFO_EMPTY_INT ≠ 0)
    (fills : t.fillTx fuel hw = some s') : Turned s (s'.arrives hw) hw := by
  unfold UartDriver.fillTx at fills
  obtain ⟨⟨u, tx_fifo_rem, en_tx_flg⟩, leaves, rfl⟩ := Option.map_eq_some_iff.mp fills
  have kept : u.tx_buf_size = t.tx.tx_buf_size ∧ u.tx_ring_buf.length ≤ t.tx.tx_ring_buf.length :=
    leaveWithin_keeps (fun v => v.1.tx_buf_size = t.tx.tx_buf_size ∧ v.1.tx_ring_buf.length ≤ t.tx.tx_ring_buf.length)
      (fun v v' kept turn =>
        ⟨(fillBody_keeps turn).1.trans kept.1, (fillBody_keeps turn).2.trans kept.2⟩) ⟨rfl, Nat.le_refl _⟩ leaves
  cases en_tx_flg with
  | false =>
      exact ⟨fun _ none_ => absurd (kept.1.symm.trans none_) some_, kept.1.trans (congrArg _ tx), tx ▸ kept.2,
        UART_TXFIFO_EMPTY_INT, hit, congrArg (· ||| hw.int_raw) raw⟩
  | true =>
      refine ⟨fun _ none_ => absurd (kept.1.symm.trans none_) some_, kept.1.trans (congrArg _ tx), tx ▸ kept.2,
        UART_TXFIFO_EMPTY_INT, hit, congrArg (· ||| hw.int_raw) ?_⟩
      change t.int_raw &&& ~~~UART_TXFIFO_EMPTY_INT = _
      rw [raw, BitVec.and_assoc, BitVec.and_self]

section
variable {s : UartDriver} {fuel : Nat} {hw : UartHw}

theorem handlerTurn_does {s' : UartDriver} {status : BitVec 32} (safe : Safe s) (some_ : s.int_st ≠ 0)
    (turn : s.handlerTurn fuel hw s.int_st = some (s', status)) : status = s'.int_st ∧ Turned s s' hw := by
  have same {t : UartDriver} (turn : t.reread hw = (s', status)) : status = s'.int_st ∧ s' = t.arrives hw := by
    cases turn
    exact ⟨rfl, rfl⟩
  rw [UartDriver.handlerTurn] at turn
  by_cases empty : s.int_st &&& UART_TXFIFO_EMPTY_INT ≠ 0
  · rw [if_pos empty] at turn
    have hit := raw_of_status empty
    have disabled (ena : BitVec 32) : ¬ (ena &&& ~~~UART_TXFIFO_EMPTY_INT).getLsbD 1 = true := by
      rw [BitVec.getLsbD_and, BitVec.getLsbD_not]
      simp [UART_TXFIFO_EMPTY_INT]
    simp only at turn
    split at turn
    · obtain ⟨rfl, rfl⟩ := same (Option.some_inj.mp turn)
      exact ⟨rfl, fun _ _ enabled => absurd enabled (disabled _), rfl, Nat.le_refl _, _, hit, rfl⟩
    next notWaited =>
        split at turn
        next none_ =>
            refine absurd (safe none_ ?_) fun waiting => notWaited ⟨waiting, none_⟩
            rw [empty_bit, UartDriver.int_st, BitVec.getLsbD_and, Bool.and_eq_true] at empty
            exact empty.2
        next buffered =>
            obtain ⟨t, fills, turn⟩ := Option.map_eq_some_iff.mp turn
            obtain ⟨rfl, rfl⟩ := same turn
            exact ⟨rfl, fillTx_turned buffered rfl rfl hit fills⟩
  · rw [if_neg empty] at turn
    split at turn
    next received =>
        obtain ⟨rfl, rfl⟩ := same (Option.some_inj.mp turn)
        have hit : s.int_raw &&& (UART_RXFIFO_TOUT_INT ||| UART_RXFIFO_FULL_INT) ≠ 0 := by
          refine raw_of_status fun none_ => ?_
          rw [BitVec.and_or_distrib_left] at none_
          obtain ⟨noTout, notFull⟩ := BitVec.or_eq_zero_iff.mp none_
          exact received.elim (fun hit => hit noTout) fun hit => hit notFull
        refine ⟨rfl, ?_⟩
        unfold UartDriver.rxTurn
        simp only
        split
        · exact ⟨fun safe => safe, rfl, Nat.le_refl _, _, hit, rfl⟩
        · refine ⟨fun safe => safe.mono rfl ?_ id, rfl, Nat.le_refl _, _, hit, rfl⟩
          intro enabled
          change (s.int_ena &&& _).getLsbD 1 = true at enabled
          rw [BitVec.getLsbD_and, Bool.and_eq_true] at enabled
          exact enabled.1
    · split at turn
      next hit =>
          obtain ⟨rfl, rfl⟩ := same (Option.some_inj.mp turn)
          exact ⟨rfl, fun safe => safe, rfl, Nat.le_refl _, _, raw_of_status hit, rfl⟩
      · split at turn
        next hit =>
            obtain ⟨rfl, rfl⟩ := same (Option.some_inj.mp turn)
            exact ⟨rfl, fun safe => safe, rfl, Nat.le_refl _, _, raw_of_status hit, rfl⟩
        · split at turn
          next hit =>
              obtain ⟨rfl, rfl⟩ := same (Option.some_inj.mp turn)
              exact ⟨rfl, fun safe => safe, rfl, Nat.le_refl _, _, raw_of_status hit, rfl⟩
          · obtain ⟨rfl, rfl⟩ := same (Option.some_inj.mp turn)
            refine ⟨rfl, fun safe => safe, rfl, Nat.le_refl _, _, raw_of_status ?_, rfl⟩
            rw [BitVec.and_self]
            exact some_

theorem handlerTurn_ends (hw : UartHw) (enough : s.tx.tx_ring_buf.length + UART_FIFO_LEN < fuel) (status : BitVec 32) :
    ∃ result, s.handlerTurn fuel hw status = some result := by
  rw [UartDriver.handlerTurn]
  split
  · simp only
    split
    · exact ⟨_, rfl⟩
    · split
      · exact ⟨_, rfl⟩
      · have bound : (fun v : UartTx × Nat × Bool => v.1.tx_ring_buf.length + v.2.1)
            (s.tx, UART_FIFO_LEN - hw.txfifo_cnt, false) < fuel := by
          simp only
          omega
        obtain ⟨v, leaves⟩ := leaveWithin_of_measure _ fillBody_smaller bound
        unfold UartDriver.fillTx
        exact ⟨_, by
          rw [show ((s.uart_clear_intr_status _).uart_disable_intr_mask _).tx = s.tx from rfl, leaves]
          rfl⟩
  · repeat' split
    all_goals exact ⟨_, rfl⟩

end

theorem handlerLoop_leaves {env : Nat → UartHw} {limit last : Nat} (quiet : ∀ t ≥ last, (env t).int_raw = 0) {fuel t : Nat}
    {s : UartDriver} (safe : Safe s) (enough : s.tx.tx_ring_buf.length + UART_FIFO_LEN < limit)
    (bound : 33 * (last - t) + pendingCount s.int_raw ≤ fuel) :
    ∃ s', UartDriver.handlerLoop env limit fuel t s s.int_st = some s' := by
  induction fuel generalizing t s with
  | zero =>
      have none_ : s.int_st = 0 := by
        refine Classical.byContradiction fun some_ => ?_
        have hit : s.int_st &&& s.int_st ≠ 0 := by rwa [BitVec.and_self]
        have := pendingCount_clear (raw_of_status hit)
        omega
      unfold UartDriver.handlerLoop
      rw [if_pos none_]
      exact ⟨s, rfl⟩
  | succ fuel ih =>
      unfold UartDriver.handlerLoop
      by_cases none_ : s.int_st = 0
      · rw [if_pos none_]
        exact ⟨s, rfl⟩
      · rw [if_neg none_]
        obtain ⟨⟨s', status⟩, turn⟩ := handlerTurn_ends (env t) enough s.int_st
        obtain ⟨rfl, safe', -, items, mask, hit, raw⟩ := handlerTurn_does safe none_ turn
        simp only [turn, Option.bind_some]
        refine ih (safe' safe) (by omega) ?_
        by_cases early : t < last
        · have := pendingCount_le s'.int_raw
          omega
        · rw [quiet t (Nat.le_of_not_lt early)] at raw
          have fewer := pendingCount_clear hit
          rw [raw.trans BitVec.or_zero]
          omega

theorem handlerLoop_safe {env : Nat → UartHw} {limit fuel t : Nat} {s s' : UartDriver} (safe : Safe s)
    (leaves : UartDriver.handlerLoop env limit fuel t s s.int_st = some s') : Safe s' := by
  induction fuel generalizing t s with
  | zero =>
      unfold UartDriver.handlerLoop at leaves
      split at leaves
      · cases leaves
        exact safe
      · cases leaves
  | succ fuel ih =>
      unfold UartDriver.handlerLoop at leaves
      split at leaves
      next =>
          cases leaves
          exact safe
      next some_ =>
          obtain ⟨⟨middle, status⟩, turn, rest⟩ := Option.bind_eq_some_iff.mp leaves
          obtain ⟨rfl, turned⟩ := handlerTurn_does safe some_ turn
          exact ih (turned.safe safe) rest

theorem handlerLoop_stuck {env : Nat → UartHw} {limit fuel t : Nat} {s : UartDriver} {status : BitVec 32}
    (empty : status &&& UART_TXFIFO_EMPTY_INT ≠ 0) (none_ : s.tx.tx_buf_size = 0) (alone : s.tx_waiting_fifo = false) :
    UartDriver.handlerLoop env limit fuel t s status = none := by
  have pending : status ≠ 0 := by
    rintro rfl
    exact empty BitVec.zero_and
  induction fuel generalizing t s with
  | zero =>
      unfold UartDriver.handlerLoop
      rw [if_neg pending]
  | succ fuel ih =>
      have notWaited : ¬ (s.tx_waiting_fifo = true ∧ s.tx.tx_buf_size = 0) := by
        rw [alone]
        exact fun both => Bool.false_ne_true both.1
      have turn : s.handlerTurn limit (env t) status = some
          (((s.uart_clear_intr_status UART_TXFIFO_EMPTY_INT).uart_disable_intr_mask UART_TXFIFO_EMPTY_INT).arrives (env t),
            status) := by
        rw [UartDriver.handlerTurn, if_pos empty]
        exact (if_neg notWaited).trans (if_pos none_)
      unfold UartDriver.handlerLoop
      rw [if_neg pending]
      simp only [turn, Option.bind_some]
      exact ih none_ alone

theorem alwaysLeaves_iff (s : UartDriver) : AlwaysLeaves s ↔ Safe s := by
  constructor
  · intro leaves none_ enabled
    refine Classical.byContradiction fun alone => ?_
    let env : Nat → UartHw := fun _ => ⟨0, [], 0, Nat.zero_le _⟩
    obtain ⟨fuel, s', left⟩ := leaves UART_TXFIFO_EMPTY_INT env ⟨0, fun _ _ => rfl⟩
    have empty : { s with int_raw := UART_TXFIFO_EMPTY_INT }.int_st &&& UART_TXFIFO_EMPTY_INT ≠ 0 := by
      rw [empty_bit, UartDriver.int_st, BitVec.getLsbD_and, Bool.and_eq_true]
      exact ⟨show UART_TXFIFO_EMPTY_INT.getLsbD 1 = true by decide, enabled⟩
    have stuck : UartDriver.handlerLoop env fuel fuel 0 { s with int_raw := UART_TXFIFO_EMPTY_INT }
        { s with int_raw := UART_TXFIFO_EMPTY_INT }.int_st = none :=
      handlerLoop_stuck empty none_ (Bool.eq_false_iff.mpr alone)
    cases stuck.symm.trans left
  · rintro safe int_raw env ⟨last, quiet⟩
    have count := pendingCount_le int_raw
    obtain ⟨fuel, items, turns⟩ : ∃ fuel, s.tx.tx_ring_buf.length + UART_FIFO_LEN < fuel ∧
        33 * (last - 0) + pendingCount int_raw ≤ fuel :=
      ⟨33 * last + 32 + s.tx.tx_ring_buf.length + UART_FIFO_LEN + 1, by omega, by omega⟩
    have safe' : Safe { s with int_raw := int_raw } := safe
    exact ⟨fuel, handlerLoop_leaves quiet safe' items turns⟩

theorem enableTx_keeps (s : UartDriver) (enable : Bool) (thresh : Int) :
    (s.uart_enable_tx_intr enable thresh).tx = s.tx ∧
      (s.uart_enable_tx_intr enable thresh).tx_waiting_fifo = s.tx_waiting_fifo := by
  unfold UartDriver.uart_enable_tx_intr
  repeat' split
  all_goals exact ⟨rfl, rfl⟩

theorem fifoStep_safe {s s' : UartDriver} {txfifo_cnt : Nat} (safe : Safe s)
    (waited : WaitedFor s (.txTask txfifo_cnt)) (made : s.fifoStep txfifo_cnt = some s') : Safe s' := by
  unfold WaitedFor EnablesEmpty at waited
  rw [UartDriver.fifoStep] at made
  cases at_ : s.fifoPc with
  | idle =>
      rw [at_] at made
      cases made
  | take src =>
      rw [at_] at made
      cases src with
      | nil =>
          cases made
          exact safe
      | cons c src =>
          simp only at made
          split at made
          · cases made
            exact safe
          · cases made
  | fill src =>
      rw [at_] at made
      cases made
      exact safe
  | waiting src =>
      rw [at_] at made
      cases made
      exact fun _ _ => rfl
  | enable src =>
      rw [at_] at made waited
      cases made
      obtain ⟨tx, waiting⟩ := enableTx_keeps s true 10
      refine fun none_ _ => waiting.trans ((waited trivial).resolve_left fun some_ => some_ ?_)
      exact (congrArg UartTx.tx_buf_size tx).symm.trans none_
  | give =>
      rw [at_] at made
      cases made
      exact safe

theorem txStep_size {u u' : UartTx} (made : u.txStep = some u') : u'.tx_buf_size = u.tx_buf_size := by
  rw [UartTx.txStep] at made
  cases at_ : u.pc with
  | idle =>
      rw [at_] at made
      cases made
  | description src | data src | enable src | give =>
      rw [at_] at made
      cases made
      rfl

theorem txTask_safe {s s' : UartDriver} {txfifo_cnt : Nat} (safe : Safe s)
    (waited : WaitedFor s (.txTask txfifo_cnt)) (made : s.txTask txfifo_cnt = some s') : Safe s' := by
  unfold UartDriver.txTask at made
  by_cases buffered : s.tx.tx_buf_size ≠ 0
  · rw [if_pos buffered] at made
    obtain ⟨tx, stepped, rfl⟩ := Option.map_eq_some_iff.mp made
    have size := txStep_size stepped
    intro none_
    refine absurd (size.symm.trans ?_) buffered
    cases at_ : s.tx.pc with
    | enable src =>
        simp only [at_, (enableTx_keeps _ _ _).1] at none_
        exact none_
    | idle | description src | data src | give =>
        simp only [at_] at none_
        exact none_
  · rw [if_neg buffered] at made
    exact fifoStep_safe safe waited made

theorem rxEvent_safe {s s' : UartDriver} {e : UartRxEvent} (safe : Safe s) (made : s.rxEvent e = some s') : Safe s' := by
  have more (ena : BitVec 32) (enabled : (ena ||| (UART_RXFIFO_FULL_INT ||| UART_RXFIFO_TOUT_INT)).getLsbD 1 = true) :
      ena.getLsbD 1 = true := by
    rw [BitVec.getLsbD_or, Bool.or_eq_true] at enabled
    exact enabled.resolve_right (by decide)
  have fewer (ena mask : BitVec 32) (enabled : (ena &&& ~~~mask).getLsbD 1 = true) : ena.getLsbD 1 = true := by
    rw [BitVec.getLsbD_and, Bool.and_eq_true] at enabled
    exact enabled.1
  cases e with
  | rxfifoFull => cases made
  | read length =>
      obtain ⟨rx, -, rfl⟩ := Option.map_eq_some_iff.mp made
      exact safe
  | flush =>
      obtain ⟨rx, -, rfl⟩ := Option.map_eq_some_iff.mp made
      exact safe
  | arrive c =>
      obtain ⟨rx, -, rfl⟩ := Option.map_eq_some_iff.mp made
      exact safe
  | task size =>
      obtain ⟨rx, -, rfl⟩ := Option.map_eq_some_iff.mp made
      split
      · exact safe.mono rfl (more _) id
      · exact safe.mono rfl (more _) id
      · exact safe.mono rfl (fewer _ _) id
      · exact safe

theorem run_safe (s : UartDriver) (e : UartEvent) (s' : UartDriver) (safe : Safe s) (waited : WaitedFor s e)
    (made : e.run s = some s') : Safe s' := by
  cases e with
  | enableIntrMask enable_mask =>
      cases made
      intro none_ enabled
      rw [UartDriver.uart_enable_intr_mask, BitVec.getLsbD_or, Bool.or_eq_true] at enabled
      rcases enabled with before | enables
      · exact safe none_ before
      · exact (waited ((empty_bit _).mpr enables)).resolve_left fun some_ => some_ none_
  | disableIntrMask disable_mask =>
      cases made
      refine safe.mono rfl (fun enabled => ?_) id
      rw [UartDriver.uart_disable_intr_mask, BitVec.getLsbD_and, Bool.and_eq_true] at enabled
      exact enabled.1
  | clearIntrStatus mask =>
      cases made
      exact safe
  | enableTxIntr enable thresh =>
      cases made
      obtain ⟨tx, waiting⟩ := enableTx_keeps s enable thresh
      intro none_ enabled
      rw [tx] at none_
      rw [waiting]
      unfold UartDriver.uart_enable_tx_intr at enabled
      by_cases small : thresh < UART_FIFO_LEN
      · rw [if_pos small] at enabled
        cases enable with
        | true => exact (waited ⟨rfl, small⟩).resolve_left fun some_ => some_ none_
        | false =>
            change (s.int_ena &&& ~~~UART_TXFIFO_EMPTY_INT).getLsbD 1 = true at enabled
            rw [BitVec.getLsbD_and, Bool.and_eq_true] at enabled
            exact safe none_ enabled.1
      · rw [if_neg small] at enabled
        exact safe none_ enabled
  | intrConfig intr_enable_mask =>
      cases made
      intro none_ enabled
      exact (waited ((empty_bit _).mpr enabled)).resolve_left fun some_ => some_ none_
  | write src =>
      change s.uart_write_bytes src = some s' at made
      unfold UartDriver.uart_write_bytes at made
      split at made
      next buffered =>
          obtain ⟨tx, wrote, rfl⟩ := Option.map_eq_some_iff.mp made
          rw [UartTxEvent.run] at wrote
          split at wrote
          · cases wrote
            exact safe
          · cases wrote
      next =>
          split at made
          · cases made
            exact safe
          · cases made
  | txTask txfifo_cnt => exact txTask_safe safe waited made
  | txChars buffer txfifo_cnt =>
      change s.uart_tx_chars buffer txfifo_cnt = some s' at made
      unfold UartDriver.uart_tx_chars at made
      split at made
      · cases made
        exact safe
      · cases made
  | rx e => exact rxEvent_safe safe made
  | pending int_raw =>
      cases made
      exact safe
  | handler env fuel => exact handlerLoop_safe safe made

theorem run_unsafe {s : UartDriver} {e : UartEvent} (enables : EnablesEmpty s e) (none_ : s.tx.tx_buf_size = 0)
    (alone : s.tx_waiting_fifo = false) : ∃ s', e.run s = some s' ∧ ¬ Safe s' := by
  have stuck {s' : UartDriver} (size : s'.tx.tx_buf_size = s.tx.tx_buf_size)
      (waiting : s'.tx_waiting_fifo = s.tx_waiting_fifo) (enabled : s'.int_ena.getLsbD 1 = true) : ¬ Safe s' :=
    fun safe => Bool.false_ne_true (alone.symm.trans (waiting.symm.trans (safe (size.trans none_) enabled)))
  have added (ena : BitVec 32) : (ena ||| UART_TXFIFO_EMPTY_INT).getLsbD 1 = true := by
    rw [BitVec.getLsbD_or, show UART_TXFIFO_EMPTY_INT.getLsbD 1 = true by decide, Bool.or_true]
  have enableTx {thresh : Int} (small : thresh < UART_FIFO_LEN) :
      (s.uart_enable_tx_intr true thresh).int_ena.getLsbD 1 = true := by
    unfold UartDriver.uart_enable_tx_intr
    rw [if_pos small]
    exact added s.int_ena
  cases e with
  | enableIntrMask enable_mask =>
      refine ⟨_, rfl, stuck rfl rfl ?_⟩
      rw [UartDriver.uart_enable_intr_mask, BitVec.getLsbD_or, (empty_bit _).mp enables, Bool.or_true]
  | enableTxIntr enable thresh =>
      obtain ⟨rfl, small⟩ := enables
      obtain ⟨tx, waiting⟩ := enableTx_keeps s true thresh
      exact ⟨_, rfl, stuck (congrArg _ tx) waiting (enableTx small)⟩
  | intrConfig intr_enable_mask => exact ⟨_, rfl, stuck rfl rfl ((empty_bit _).mp enables)⟩
  | txTask txfifo_cnt =>
      unfold EnablesEmpty at enables
      cases at_ : s.fifoPc with
      | enable src =>
          refine ⟨{ s.uart_enable_tx_intr true 10 with fifoPc := .take src }, ?_, ?_⟩
          · rw [UartEvent.run, UartDriver.txTask, if_neg (not_not_intro none_), UartDriver.fifoStep, at_]
          · obtain ⟨tx, waiting⟩ := enableTx_keeps s true 10
            exact stuck (congrArg UartTx.tx_buf_size tx) waiting (enableTx (by decide))
      | idle | take src | fill src | waiting src | give =>
          rw [at_] at enables
          exact absurd enables id
  | disableIntrMask _ | clearIntrStatus _ | write _ | txChars _ _ | rx _ | pending _ | handler _ _ =>
      exact absurd enables id

theorem installed_safe (rx_buffer_size tx_buffer_size : Nat) : Safe (.installed rx_buffer_size tx_buffer_size) :=
  fun _ enabled => absurd enabled (show ¬ (UART_RXFIFO_FULL_INT ||| UART_RXFIFO_TOUT_INT ||| UART_FRM_ERR_INT |||
    UART_RXFIFO_OVF_INT).getLsbD 1 = true by decide)

/-- In the states of a run the handler finishes if and only if each step that enables the interrupt for an empty FIFO does
so where there is a TX ring buffer or a write waits for it. -/
theorem handler_finishes (rx_buffer_size tx_buffer_size : Nat) (events : List UartEvent) :
    (∀ front back, events = front ++ back → ∀ s, runUart front (.installed rx_buffer_size tx_buffer_size) = some s →
      AlwaysLeaves s) ↔
    EachStep UartEvent.run WaitedFor events (.installed rx_buffer_size tx_buffer_size) := by
  have start := installed_safe rx_buffer_size tx_buffer_size
  constructor
  · generalize UartDriver.installed rx_buffer_size tx_buffer_size = s₀ at *
    intro leaves
    induction events generalizing s₀ with
    | nil => trivial
    | cons e rest ih =>
        have safe {s : UartDriver} (made : e.run s₀ = some s) : Safe s := by
          refine (alwaysLeaves_iff s).mp (leaves [e] rest rfl s ?_)
          rw [runUart, runSteps_cons, made]
          rfl
        refine ⟨fun enables => Classical.byContradiction fun unwaited => ?_, fun s made => ih s (safe made) ?_⟩
        · rw [not_or, not_not, Bool.not_eq_true] at unwaited
          obtain ⟨s, made, stuck⟩ := run_unsafe enables unwaited.1 unwaited.2
          exact stuck (safe made)
        · intro front back parts s' run
          refine leaves (e :: front) back (congrArg _ parts) s' ?_
          rw [runUart, runSteps_cons, made]
          exact run
  · rintro each front back rfl s run
    exact (alwaysLeaves_iff s).mpr (runSteps_keeps run_safe start each.front run)

/-- Without a TX ring buffer, and no write that waits. -/
theorem empty_interrupt_hangs : ¬ ∀ rx_buffer_size tx_buffer_size events s,
    runUart events (.installed rx_buffer_size tx_buffer_size) = some s → AlwaysLeaves s := by
  intro claim
  have leaves := claim 256 0 [.enableTxIntr true 10] ((UartDriver.installed 256 0).uart_enable_tx_intr true 10) rfl
  have waiting := (alwaysLeaves_iff _).mp leaves rfl (by decide)
  exact absurd waiting (by decide)

end EspFirmware.Driver
