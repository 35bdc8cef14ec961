import EspFirmware.Spec.Driver

namespace EspFirmware.Driver
open Lib Spec

variable {u u' : UartRx} {r r' : UartRxRun}

def heldRest (u : UartRx) : List (BitVec 8) := (u.rx_head_ptr.getD []).drop u.rx_ptr

def stashed (full : Bool) (rx_stash : List (BitVec 8)) : UartRxPc → List (BitVec 8)
  | .stored _ => []
  | _ => if full then rx_stash else []

def waiting (u : UartRx) : List (BitVec 8) :=
  heldRest u ++ u.rx_ring_buf ++ stashed u.rx_buffer_full_flg u.rx_stash u.pc ++ u.fifo

def Flushing : UartRxPc → Prop
  | .flush | .flushLoop | .flushReceive | .flushRetry | .flushEnd => True
  | _ => False

def Off : UartRxPc → Prop
  | .flushLoop | .flushReceive | .flushRetry | .flushEnd | .flushEnable => True
  | _ => False

def Settling : UartRxPc → Prop
  | .retry _ | .stored _ | .flushLoop | .flushReceive | .flushRetry => True
  | _ => False

def Held (u : UartRx) : UartRxPc → Prop
  | .release _ => u.rx_cur_remain = 0
  | .copy _ => u.rx_head_ptr ≠ none ∧ 0 < u.rx_cur_remain
  | .retry _ | .stored _ | .enable _ | .flushReceive | .flushRetry | .flushEnd | .flushEnable => u.rx_head_ptr = none
  | _ => u.rx_head_ptr ≠ none → 0 < u.rx_cur_remain

def uncounted (rx_stash : List (BitVec 8)) : UartRxPc → Nat
  | .stored _ => rx_stash.length
  | _ => 0

theorem uncounted_other {pc : UartRxPc} (notStored : ∀ length, pc ≠ .stored length) (rx_stash : List (BitVec 8)) :
    uncounted rx_stash pc = 0 := by
  unfold uncounted
  split
  next length => exact absurd rfl (notStored length)
  next => rfl

theorem stashed_other {pc : UartRxPc} (notStored : ∀ length, pc ≠ .stored length) (full : Bool)
    (rx_stash : List (BitVec 8)) : stashed full rx_stash pc = if full then rx_stash else [] := by
  unfold stashed
  split
  next length => exact absurd rfl (notStored length)
  next => rfl

structure RxSound (r : UartRxRun) : Prop where
  size : 128 < r.u.rx_buf_size
  stash : r.u.rx_stash.length ≤ 128
  fifo : r.u.fifo.length ≤ 128
  item : ∀ item, r.u.rx_head_ptr = some item → r.u.rx_ptr + r.u.rx_cur_remain = item.length
  noItem : r.u.rx_head_ptr = none → r.u.rx_cur_remain = 0
  held : Held r.u r.u.pc
  inOrder : r.returned <+: r.received
  order : ¬ Flushing r.u.pc → r.received = r.returned ++ waiting r.u
  count : r.u.rx_buffered_len + uncounted r.u.rx_stash r.u.pc = r.u.rx_ring_buf.length + r.u.rx_cur_remain
  flag : ¬ Settling r.u.pc → r.u.rx_buffer_full_flg = true → r.u.rx_ring_buf ≠ [] ∨ r.u.rx_head_ptr ≠ none
  stored : ∀ length, r.u.pc = .stored length → r.u.rx_buffer_full_flg = true
  emptied : r.u.pc = .flushEnd → r.u.rx_ring_buf = [] ∧ r.u.rx_buffer_full_flg = false
  off : Off r.u.pc → r.u.intrEnabled = false
  going : ¬ Off r.u.pc → (∀ length, r.u.pc ≠ .enable length) → r.u.intrEnabled = false →
    r.u.rx_buffer_full_flg = true

theorem RxSound.takesIn (sound : RxSound r) : r.TakesIn := by
  have held := sound.held
  have count := sound.count
  have flag := sound.flag
  have going := sound.going
  refine ⟨sound.inOrder, fun idle => ?_, fun idle full => ?_, fun idle off => ?_⟩
  · simp only [uncounted, idle] at count
    omega
  · rw [idle] at held flag
    exact (flag not_false full).imp id fun some_ => (held some_).ne'
  · rw [idle] at going
    exact going not_false (fun length same => by cases same) off

theorem RxSound.rxfifoFull (sound : RxSound r) (on' : r.u.intrEnabled = true) :
    RxSound ⟨r.u.rxfifoFull, r.received, r.returned⟩ := by
  have notOff : ¬ Off r.u.pc := fun off => by
    rw [sound.off off] at on'
    cases on'
  unfold UartRx.rxfifoFull
  by_cases empty : r.u.rx_buffer_full_flg = false
  · have notStored (length : Nat) : r.u.pc ≠ .stored length := fun pc => by
      rw [sound.stored length pc] at empty
      cases empty
    have waits : waiting r.u = heldRest r.u ++ r.u.rx_ring_buf ++ r.u.fifo := by
      simp [waiting, stashed_other notStored, empty]
    have order := sound.order
    have count := sound.count
    rw [waits] at order
    rw [uncounted_other notStored] at count
    rw [if_pos empty]
    simp only
    split
    next room =>
        refine { sound with
          stash := sound.fifo
          fifo := Nat.zero_le _
          order := fun notFlushing => ?_
          count := ?_
          flag := fun _ full => ?_
          stored := fun length pc => absurd pc (notStored length)
          emptied := fun pc => absurd pc fun pc => notOff (pc ▸ trivial) }
        · rw [order notFlushing]
          simp [waiting, stashed_other notStored, heldRest, empty]
        · simp only [uncounted_other notStored, List.length_append]
          omega
        · rw [empty] at full
          cases full
    next noRoom =>
        have less : r.u.rx_buf_size < r.u.rx_ring_buf.length + (r.u.rx_head_ptr.getD []).length + r.u.fifo.length := by
          simpa [UartRx.room] using noRoom
        refine { sound with
          stash := sound.fifo
          fifo := Nat.zero_le _
          order := fun notFlushing => ?_
          count := ?_
          flag := fun _ _ => ?_
          stored := fun _ _ => rfl
          emptied := fun pc => absurd pc fun pc => notOff (pc ▸ trivial)
          off := fun _ => rfl
          going := fun _ _ _ => rfl }
        · rw [order notFlushing]
          simp [waiting, stashed_other notStored, heldRest]
        · simp only [uncounted_other notStored]
          omega
        · by_contra nothing
          obtain ⟨noRing, noHead⟩ := not_or.mp nothing
          have ring : r.u.rx_ring_buf = [] := not_not.mp noRing
          have head : r.u.rx_head_ptr = none := not_not.mp noHead
          have small := sound.fifo
          have size := sound.size
          rw [ring, head, Option.getD_none, List.length_nil] at less
          omega
  · have full : r.u.rx_buffer_full_flg = true := Bool.not_eq_false _ ▸ empty
    rw [if_neg empty]
    exact { sound with off := fun _ => rfl, going := fun _ _ _ => full }

section
variable (sound : RxSound r)
include sound

theorem RxSound.received (size : Nat) {length : Nat} (pc : r.u.pc = .loop (length + 1)) (empty : r.u.rx_cur_remain = 0)
    (received : r.u.receive size = some u') : RxSound ⟨{ u' with pc := .copy (length + 1) }, r.received, r.returned⟩ := by
  obtain ⟨⟨-, positive, fits⟩, ⟨⟩⟩ := Option.ite_none_right_eq_some.mp received
  have held := sound.held
  have order := sound.order
  have count := sound.count
  have going := sound.going
  rw [pc] at held order count going
  have noHead : r.u.rx_head_ptr = none := by
    by_contra some_
    exact absurd empty (held some_).ne'
  refine { sound with
    item := fun item same => ?_
    noItem := fun none_ => by cases none_
    held := And.intro (fun none_ => by cases none_) positive
    order := fun _ => ?_
    count := ?_
    flag := fun _ _ => .inr fun none_ => by cases none_
    stored := fun _ same => by cases same
    emptied := fun same => by cases same
    off := fun off => off.elim
    going := fun _ _ off => going not_false (fun length same => by cases same) off }
  · cases same
    rw [Nat.zero_add, List.length_take, Nat.min_eq_left fits]
  · rw [order not_false]
    simp only [waiting, heldRest, noHead, Option.getD_none, Option.getD_some, pc, stashed, List.drop_nil, List.drop_zero,
      List.nil_append, List.take_append_drop]
  · simp only [uncounted, List.length_drop] at count ⊢
    omega

theorem RxSound.copied {length : Nat} (pc : r.u.pc = .copy length) :
    RxSound ⟨r.u.copy length, r.received, r.returned ++ r.u.copied length⟩ := by
  have held := sound.held
  have order := sound.order
  have count := sound.count
  have going := sound.going
  have flag := sound.flag
  rw [pc] at held order count going flag
  obtain ⟨some_, more⟩ := held
  obtain ⟨item, head⟩ := Option.ne_none_iff_exists'.mp some_
  have size := sound.item item head
  have waits : waiting r.u = r.u.copied length ++ waiting (r.u.copy length) := by
    have rest : heldRest r.u = r.u.copied length ++ heldRest (r.u.copy length) := by
      simp only [heldRest, UartRx.copied, UartRx.copy, ← List.drop_drop, List.take_append_drop]
    have same : stashed r.u.rx_buffer_full_flg r.u.rx_stash r.u.pc =
        stashed (r.u.copy length).rx_buffer_full_flg (r.u.copy length).rx_stash (r.u.copy length).pc := by
      simp only [UartRx.copy, pc]
      split <;> rfl
    rw [waiting, waiting, rest, same]
    simp only [UartRx.copy, List.append_assoc]
  have notStored (n : Nat) : (r.u.copy length).pc ≠ .stored n := by
    simp only [UartRx.copy]
    split <;> exact fun same => by cases same
  have received : r.received = r.returned ++ r.u.copied length ++ waiting (r.u.copy length) := by
    rw [order not_false, waits, List.append_assoc]
  refine { sound with
    item := fun item' same => ?_
    noItem := fun none_ => absurd none_ some_
    held := ?_
    inOrder := ?_
    order := fun _ => received
    count := ?_
    flag := fun _ full => flag not_false full
    stored := fun n same => absurd same (notStored n)
    emptied := fun same => ?_
    off := fun off => ?_
    going := fun _ _ off => going not_false (fun length same => by cases same) off }
  · cases head.symm.trans same
    simp only [UartRx.copy]
    omega
  · simp only [UartRx.copy]
    split
    next all => exact all
    next rest => exact fun _ => Nat.pos_of_ne_zero rest
  · rw [received]
    exact List.prefix_append _ _
  · simp only [uncounted_other notStored]
    simp only [UartRx.copy, uncounted] at count ⊢
    omega
  · simp only [UartRx.copy] at same
    split at same <;> cases same
  · simp only [UartRx.copy] at off
    split at off <;> cases off

theorem RxSound.released {length : Nat} (pc : r.u.pc = .release length) :
    RxSound ⟨{ r.u with rx_head_ptr := none, rx_ptr := 0, pc := .retry length }, r.received, r.returned⟩ := by
  have held := sound.held
  have order := sound.order
  have count := sound.count
  have going := sound.going
  rw [pc] at held order count going
  have rest : heldRest r.u = [] := by
    cases head : r.u.rx_head_ptr with
    | none => rw [heldRest, head, Option.getD_none, List.drop_nil]
    | some item =>
        have size := sound.item item head
        rw [heldRest, head, Option.getD_some, List.drop_eq_nil_iff]
        exact (size.symm.trans (by rw [held, Nat.add_zero])).le
  refine { sound with
    item := fun item same => by cases same
    noItem := fun _ => held
    held := rfl
    order := fun _ => ?_
    count := count
    flag := fun notSettling => absurd trivial notSettling
    stored := fun _ same => by cases same
    emptied := fun same => by cases same
    off := fun off => off.elim
    going := fun _ _ off => going not_false (fun length same => by cases same) off }
  rw [order not_false, waiting, rest, waiting, pc]
  rfl

theorem RxSound.retried {length : Nat} (pc : r.u.pc = .retry length)
    (full : r.u.rx_buffer_full_flg = true → r.u.rx_ring_buf ≠ []) :
    RxSound ⟨{ r.u with pc := .loop length }, r.received, r.returned⟩ := by
  have held := sound.held
  have order := sound.order
  have count := sound.count
  have going := sound.going
  rw [pc] at held order count going
  exact { sound with
    held := fun some_ => absurd held some_
    order := fun _ => by
      rw [order not_false, waiting, waiting, pc]
      rfl
    count := count
    flag := fun _ on' => .inl (full on')
    stored := fun _ same => by cases same
    emptied := fun same => by cases same
    off := fun off => off.elim
    going := fun _ _ off => going not_false (fun length same => by cases same) off }

theorem RxSound.noRoom (full : r.u.room r.u.rx_stash.length = false) (noHead : r.u.rx_head_ptr = none) :
    r.u.rx_ring_buf ≠ [] := by
  intro empty
  have small := sound.stash
  have size := sound.size
  simp only [UartRx.room, noHead, empty, Option.getD_none, List.length_nil] at full
  rw [decide_eq_false_iff_not] at full
  omega

theorem RxSound.stashSent {length : Nat} (pc : r.u.pc = .retry length) (full : r.u.rx_buffer_full_flg = true) :
    RxSound ⟨{ r.u with rx_ring_buf := r.u.rx_ring_buf ++ r.u.rx_stash, pc := .stored length }, r.received,
      r.returned⟩ := by
  have held := sound.held
  have order := sound.order
  have count := sound.count
  have going := sound.going
  rw [pc] at held order count going
  refine { sound with
    held := held
    order := fun _ => ?_
    count := ?_
    flag := fun notSettling => absurd trivial notSettling
    stored := fun _ _ => full
    emptied := fun same => by cases same
    off := fun off => off.elim
    going := fun _ _ off => going not_false (fun length same => by cases same) off }
  · rw [order not_false]
    simp only [waiting, heldRest, pc, stashed, full, if_true, List.append_assoc, List.nil_append]
  · simp only [uncounted, List.length_append] at count ⊢
    omega

theorem RxSound.stashCounted {length : Nat} (pc : r.u.pc = .stored length) :
    RxSound ⟨{ r.u.countStash with pc := .enable length }, r.received, r.returned⟩ := by
  have held := sound.held
  have order := sound.order
  have count := sound.count
  rw [pc] at held order count
  refine { sound with
    held := held
    order := fun _ => ?_
    count := ?_
    flag := fun _ full => by cases full
    stored := fun _ same => by cases same
    emptied := fun same => by cases same
    off := fun off => off.elim
    going := fun _ notEnable => absurd rfl (notEnable length) }
  · rw [order not_false]
    simp only [waiting, heldRest, UartRx.countStash, pc, stashed, Bool.false_eq_true, if_false]
  · simp only [uncounted, UartRx.countStash] at count ⊢
    omega

theorem RxSound.goOn {pc' : UartRxPc} {on' : Bool} (held : Held r.u pc') (notStored : ∀ length, r.u.pc ≠ .stored length)
    (notStored' : ∀ length, pc' ≠ .stored length) (notEnd : pc' ≠ .flushEnd)
    (flushing : ¬ Flushing pc' → ¬ Flushing r.u.pc)
    (flag : ¬ Settling pc' → r.u.rx_buffer_full_flg = true → r.u.rx_ring_buf ≠ [] ∨ r.u.rx_head_ptr ≠ none)
    (off : Off pc' → on' = false)
    (going : ¬ Off pc' → on' = false → r.u.rx_buffer_full_flg = true) :
    RxSound ⟨{ r.u with pc := pc', intrEnabled := on' }, r.received, r.returned⟩ := by
  have count := sound.count
  rw [uncounted_other notStored] at count
  refine { sound with
    held := held
    order := fun notFlushing => ?_
    count := ?_
    flag := flag
    stored := fun length same => absurd same (notStored' length)
    emptied := fun same => absurd same notEnd
    off := off
    going := fun notOff _ => going notOff }
  · rw [sound.order (flushing notFlushing)]
    simp only [waiting, heldRest, stashed_other notStored, stashed_other notStored']
  · simp only [uncounted_other notStored']
    exact count

theorem RxSound.itemDropped (pc : r.u.pc = .flushLoop) (ran : r.u.rxStep n = some u') :
    RxSound ⟨u', r.received, r.returned⟩ := by
  have count := sound.count
  have off := sound.off
  have noItem := sound.noItem
  rw [pc] at count off
  simp only [UartRx.rxStep, pc] at ran
  cases ran
  refine { sound with
    item := fun _ same => by cases same
    noItem := fun _ => ?_
    held := rfl
    order := fun notFlushing => absurd trivial notFlushing
    count := ?_
    flag := fun notSettling => absurd trivial notSettling
    stored := fun _ same => by cases same
    emptied := fun same => by cases same
    off := fun _ => off trivial
    going := fun notOff => absurd trivial notOff }
  · split
    next => rfl
    next none_ => exact noItem (Option.not_isSome_iff_eq_none.mp none_)
  · simp only [uncounted] at count ⊢
    split <;> omega

theorem RxSound.bytesDropped (pc : r.u.pc = .flushReceive) (ran : r.u.rxStep n = some u') :
    RxSound ⟨u', r.received, r.returned⟩ := by
  have held := sound.held
  have count := sound.count
  have off := sound.off
  rw [pc] at held count off
  have noRest := sound.noItem held
  simp only [UartRx.rxStep, pc] at ran
  split at ran
  next empty =>
      cases ran
      refine { sound with
        held := held
        order := fun notFlushing => absurd trivial notFlushing
        count := ?_
        flag := fun _ full => by cases full
        stored := fun _ same => by cases same
        emptied := fun _ => ⟨empty, rfl⟩
        off := fun _ => off trivial
        going := fun notOff => absurd trivial notOff }
      simp only [uncounted, empty, noRest]
      rfl
  next some_ =>
      obtain ⟨⟨-, fits⟩, ⟨⟩⟩ := Option.ite_none_right_eq_some.mp ran
      refine { sound with
        held := held
        order := fun notFlushing => absurd trivial notFlushing
        count := ?_
        flag := fun notSettling => absurd trivial notSettling
        stored := fun _ same => by cases same
        emptied := fun same => by cases same
        off := fun _ => off trivial
        going := fun notOff => absurd trivial notOff }
      simp only [uncounted, List.length_drop] at count ⊢
      omega

theorem RxSound.stashDropped (pc : r.u.pc = .flushRetry) (ran : r.u.rxStep n = some u') :
    RxSound ⟨u', r.received, r.returned⟩ := by
  have held := sound.held
  have count := sound.count
  have off := sound.off
  rw [pc] at held count off
  simp only [UartRx.rxStep, pc, UartRx.sendStash] at ran
  have stay : RxSound ⟨{ r.u with pc := .flushLoop }, r.received, r.returned⟩ :=
    { sound with
      held := fun some_ => absurd held some_
      order := fun notFlushing => absurd trivial notFlushing
      count := count
      flag := fun notSettling => absurd trivial notSettling
      stored := fun _ same => by cases same
      emptied := fun same => by cases same
      off := fun _ => off trivial
      going := fun notOff => absurd trivial notOff }
  split at ran
  · split at ran
    next => cases ran; exact stay
    next sent some_ =>
        cases ran
        obtain ⟨-, ⟨⟩⟩ := Option.ite_none_right_eq_some.mp some_
        refine { stay with
          order := fun notFlushing => absurd trivial notFlushing
          count := ?_
          flag := fun notSettling => absurd trivial notSettling
          stored := fun _ same => by cases same
          emptied := fun same => by cases same
          off := fun _ => off trivial
          going := fun notOff => absurd trivial notOff }
        simp only [uncounted, UartRx.countStash, List.length_append] at count ⊢
        omega
  · cases ran
    exact stay

theorem RxSound.reset (pc : r.u.pc = .flushEnd) (ran : r.u.rxStep n = some u') : RxSound ⟨u', [], []⟩ := by
  have held := sound.held
  have count := sound.count
  have off := sound.off
  obtain ⟨empty, notFull⟩ := sound.emptied pc
  rw [pc] at held count off
  have noRest := sound.noItem held
  simp only [UartRx.rxStep, pc] at ran
  cases ran
  refine { sound with
    fifo := Nat.zero_le _
    item := fun _ same => by cases same
    noItem := fun _ => rfl
    held := rfl
    inOrder := List.nil_prefix
    order := fun _ => ?_
    count := ?_
    flag := fun _ full => absurd (notFull.symm.trans full) Bool.false_ne_true
    stored := fun _ same => by cases same
    emptied := fun same => by cases same
    off := fun _ => off trivial
    going := fun notOff => absurd trivial notOff }
  · simp [waiting, heldRest, stashed, empty, notFull]
  · rw [noRest] at count
    exact count

end

theorem RxSound.task (sound : RxSound r) {size : Nat} (ran : r.u.rxStep size = some u') :
    RxSound (r.note u' (.task size)) := by
  have held := sound.held
  have flag := sound.flag
  have going := sound.going
  simp only [UartRxRun.note]
  cases pc : r.u.pc with
  | idle =>
      rw [UartRx.rxStep, pc] at ran
      cases ran
  | loop length =>
      rw [pc] at held flag going
      have notStored : ∀ length, r.u.pc ≠ .stored length := fun length same => by cases pc.symm.trans same
      have still : r.u.intrEnabled = false → r.u.rx_buffer_full_flg = true :=
        going not_false fun length same => by cases same
      have leave : RxSound ⟨{ r.u with pc := .leave }, r.received, r.returned⟩ :=
        sound.goOn held notStored (fun length same => by cases same) (fun same => by cases same)
          (fun _ flushing => by rw [pc] at flushing; exact flushing) (fun _ => flag not_false) (fun off => off.elim)
          fun _ => still
      cases length with
      | zero =>
          rw [UartRx.rxStep, pc] at ran
          cases ran
          exact leave
      | succ length =>
          simp only [UartRx.rxStep, pc] at ran
          split at ran
          next empty =>
              split at ran
              next => cases ran; exact leave
              next =>
                  obtain ⟨_, received, rfl⟩ := Option.map_eq_some_iff.mp ran
                  exact sound.received size pc empty received
          next more =>
              cases ran
              have some_ : r.u.rx_head_ptr ≠ none := fun none_ => more (sound.noItem none_)
              exact sound.goOn ⟨some_, Nat.pos_of_ne_zero more⟩ notStored (fun length same => by cases same)
                (fun same => by cases same) (fun _ flushing => by rw [pc] at flushing; exact flushing)
                (fun _ => flag not_false) (fun off => off.elim) fun _ => still
  | copy length =>
      rw [UartRx.rxStep, pc] at ran
      cases ran
      exact sound.copied pc
  | release length =>
      rw [UartRx.rxStep, pc] at ran
      cases ran
      exact sound.released pc
  | retry length =>
      simp only [UartRx.rxStep, pc, UartRx.sendStash] at ran
      rw [pc] at held
      split at ran
      next full =>
          split at ran
          next refused =>
              cases ran
              refine sound.retried pc fun _ => sound.noRoom ?_ held
              split at refused
              next => cases refused
              next noRoom => exact Bool.eq_false_iff.mpr noRoom
          next sent some_ =>
              cases ran
              obtain ⟨-, ⟨⟩⟩ := Option.ite_none_right_eq_some.mp some_
              exact sound.stashSent pc full
      next notFull =>
          cases ran
          exact sound.retried pc fun full => absurd full notFull
  | stored length =>
      rw [UartRx.rxStep, pc] at ran
      cases ran
      exact sound.stashCounted pc
  | enable length =>
      rw [UartRx.rxStep, pc] at ran
      cases ran
      rw [pc] at held flag
      exact sound.goOn (fun some_ => absurd held some_) (fun length same => by cases pc.symm.trans same)
        (fun length same => by cases same) (fun same => by cases same)
        (fun _ flushing => by rw [pc] at flushing; exact flushing) (fun _ => flag not_false) (fun off => off.elim)
        fun _ on' => by cases on'
  | flush =>
      rw [UartRx.rxStep, pc] at ran
      cases ran
      rw [pc] at held
      exact sound.goOn held (fun length same => by cases pc.symm.trans same)
        (fun length same => by cases same) (fun same => by cases same)
        (fun notFlushing => absurd trivial notFlushing) (fun notSettling => absurd trivial notSettling) (fun _ => rfl)
        fun notOff => absurd trivial notOff
  | flushLoop => exact sound.itemDropped pc ran
  | flushReceive => exact sound.bytesDropped pc ran
  | flushRetry => exact sound.stashDropped pc ran
  | flushEnd => exact sound.reset pc ran
  | flushEnable =>
      rw [UartRx.rxStep, pc] at ran
      cases ran
      rw [pc] at held flag
      exact sound.goOn (fun some_ => absurd held some_) (fun length same => by cases pc.symm.trans same)
        (fun length same => by cases same) (fun same => by cases same)
        (fun _ flushing => by rw [pc] at flushing; exact flushing) (fun _ => flag not_false) (fun off => off.elim)
        fun _ on' => by cases on'
  | leave =>
      rw [UartRx.rxStep, pc] at ran
      cases ran
      rw [pc] at held flag going
      exact sound.goOn held (fun length same => by cases pc.symm.trans same)
        (fun length same => by cases same) (fun same => by cases same)
        (fun _ flushing => by rw [pc] at flushing; exact flushing) (fun _ => flag not_false) (fun off => off.elim)
        fun _ => going not_false fun length same => by cases same

theorem RxSound.step (sound : RxSound r) {event : UartRxEvent} (made : r.step event = some r') : RxSound r' := by
  obtain ⟨u', ran, rfl⟩ := Option.map_eq_some_iff.mp made
  have idleStep {pc' : UartRxPc} (idle : r.u.pc = .idle) (kind : pc' = .flush ∨ ∃ length, pc' = .loop length) :
      RxSound ⟨{ r.u with pc := pc' }, r.received, r.returned⟩ := by
    have held := sound.held
    have flag := sound.flag
    have going := sound.going
    rw [idle] at held flag going
    rcases kind with rfl | ⟨length, rfl⟩ <;>
    exact sound.goOn held (fun length same => by cases idle.symm.trans same)
      (fun length same => by cases same) (fun same => by cases same)
      (fun _ flushing => by rw [idle] at flushing; exact flushing) (fun _ => flag not_false) (fun off => off.elim)
      fun _ => going not_false fun length same => by cases same
  cases event with
  | read length =>
      obtain ⟨idle, ⟨⟩⟩ := Option.ite_none_right_eq_some.mp ran
      exact idleStep idle (.inr ⟨length, rfl⟩)
  | flush =>
      obtain ⟨idle, ⟨⟩⟩ := Option.ite_none_right_eq_some.mp ran
      exact idleStep idle (.inl rfl)
  | task size => exact sound.task ran
  | rxfifoFull =>
      obtain ⟨on', ⟨⟩⟩ := Option.ite_none_right_eq_some.mp ran
      exact sound.rxfifoFull on'
  | arrive c =>
      obtain ⟨room, ⟨⟩⟩ := Option.ite_none_right_eq_some.mp ran
      refine { sound with
        fifo := ?_
        inOrder := sound.inOrder.trans (List.prefix_append _ _)
        order := fun notFlushing => ?_ }
      · simp only [UartRxRun.note, List.length_append, List.length_singleton]
        exact room
      · simp only [UartRxRun.note, waiting, heldRest]
        rw [sound.order notFlushing]
        simp only [waiting, heldRest, List.append_assoc]

/-- In all runs the input is delivered in order and counted, and its reception goes on. -/
theorem input_delivered {rx_buffer_size : Nat} (installed : 128 < rx_buffer_size) (events : List UartRxEvent)
    {r : UartRxRun} (run : runUartRx events (UartRxRun.start rx_buffer_size) = some r) : r.TakesIn := by
  have start : RxSound (UartRxRun.start rx_buffer_size) :=
    { size := installed
      stash := Nat.zero_le _
      fifo := Nat.zero_le _
      item := fun _ same => by cases same
      noItem := fun _ => rfl
      held := fun some_ => absurd rfl some_
      inOrder := List.nil_prefix
      order := fun _ => rfl
      count := rfl
      flag := fun _ full => by cases full
      stored := fun _ same => by cases same
      emptied := fun same => by cases same
      off := fun off => off.elim
      going := fun _ _ off => by cases off }
  exact (runSteps_always (fun r event r' sound made => RxSound.step sound made) start run).takesIn

def stashAndRead : List UartRxEvent :=
  List.replicate 128 (.arrive 7) ++ [.rxfifoFull, .arrive 8, .arrive 9, .rxfifoFull, .read 129, .task 128, .task 0, .task 0,
    .task 0, .task 0, .task 0, .task 1, .task 0, .task 0, .task 0, .task 0, .task 0]

def flushAndRead : List UartRxEvent :=
  [.flush, .task 0, .task 0, .task 1, .task 0, .task 0, .task 0, .task 0, .task 0, .task 0, .arrive 5, .rxfifoFull,
    .read 1, .task 1, .task 0, .task 0, .task 0]

theorem input_delivered_stash :
    (∃ r, runUartRx stashAndRead (UartRxRun.start 129) = some r ∧ r.returned = List.replicate 128 7 ++ [8] ∧ r.TakesIn) ∧
    ∃ r, runUartRx (stashAndRead ++ flushAndRead) (UartRxRun.start 129) = some r ∧ r.returned = [5] ∧ r.TakesIn := by
  have read : (runUartRx stashAndRead (UartRxRun.start 129)).any
      (fun r => decide (r.returned = List.replicate 128 7 ++ [8])) := by
    decide +kernel
  have flushed : (runUartRx (stashAndRead ++ flushAndRead) (UartRxRun.start 129)).any
      (fun r => decide (r.returned = [5])) := by
    decide +kernel
  obtain ⟨r, run, shown⟩ := (Option.any_eq_true _ _).mp read
  obtain ⟨r', run', shown'⟩ := (Option.any_eq_true _ _).mp flushed
  exact ⟨⟨r, run, of_decide_eq_true shown, input_delivered (by decide) _ run⟩,
    r', run', of_decide_eq_true shown', input_delivered (by decide) _ run'⟩

end EspFirmware.Driver
