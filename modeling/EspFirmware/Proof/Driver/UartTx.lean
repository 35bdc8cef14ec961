import EspFirmware.Spec.Driver

namespace EspFirmware.Driver
open Lib Lib.Memory Spec Rtos

variable {writes : List (List (BitVec 8))} {u u' : UartTx}

theorem txDataSize_uartTxData (size : BitVec 32) : txDataSize (uartTxData size) = size := by
  have byte (m : Memory) (i : Nat) (inside : i < 8) : (load m 0 8).getD i 0 = m i := by
    rw [load, List.getD_eq_getElem?_getD, List.getElem?_map, List.getElem?_range inside, Option.map_some,
      Option.getD_some, Nat.zero_add]
  rw [txDataSize, uartTxData, load32, byte _ _ (by decide), byte _ _ (by decide), byte _ _ (by decide),
    byte _ _ (by decide)]
  exact load32_store32 _ 4 size

def Left (part : List (BitVec 8)) (later : List (List (BitVec 8))) : UartTxPc → Prop
  | .idle | .give => part = [] ∧ later = []
  | .description src => part = [] ∧ later = [src] ∧ src ≠ [] ∧ src.length < 2 ^ 32
  | .data src => part = src ∧ later = [] ∧ src ≠ []
  | .enable src => part = src ∧ later = []

/-- The queue holds what is left of a write and all later ones: each a description and then its bytes. -/
def Queued (pc : UartTxPc) : List (BitVec 8) → List (List (BitVec 8)) → List (List (BitVec 8)) → Prop
  | part, later, [] => Left part later pc
  | [], later, item :: ring =>
      ∃ src rest, later = src :: rest ∧ src ≠ [] ∧ src.length < 2 ^ 32 ∧
        item = uartTxData (BitVec.ofNat 32 src.length) ∧ Queued pc src rest ring
  | b :: part, later, item :: ring => item ≠ [] ∧ ∃ rest, b :: part = item ++ rest ∧ Queued pc rest later ring

theorem Queued.extend {pc pc' : UartTxPc} {more items : List (List (BitVec 8))}
    (next : ∀ part later, Left part later pc → Queued pc' part (later ++ more) items)
    {part : List (BitVec 8)} {later ring : List (List (BitVec 8))} (queued : Queued pc part later ring) :
    Queued pc' part (later ++ more) (ring ++ items) := by
  induction ring generalizing part later with
  | nil =>
      rw [Queued] at queued
      exact next part later queued
  | cons item ring ih =>
      cases part with
      | nil =>
          obtain ⟨src, rest, rfl, some_, small, same, queued⟩ := queued
          exact ⟨src, rest ++ more, rfl, some_, small, same, ih queued⟩
      | cons b part =>
          obtain ⟨some_, rest, same, queued⟩ := queued
          exact ⟨some_, rest, same, ih queued⟩

structure TxParts (writes : List (List (BitVec 8))) (u : UartTx) (current part : List (BitVec 8))
    (sent later : List (List (BitVec 8))) : Prop where
  all : writes = sent ++ later
  put : sent.flatten = u.fifo ++ current ++ part
  total : u.tx_len_tot = BitVec.ofNat 32 (current ++ part).length
  small : (current ++ part).length < 2 ^ 32
  ptr : u.tx_ptr = if current = [] then none else some current
  length : u.tx_len_cur = current.length
  queued : Queued u.pc part later u.tx_ring_buf

def TxSound (writes : List (List (BitVec 8))) (u : UartTx) : Prop :=
  ∃ current part sent later, TxParts writes u current part sent later

section
variable {current part : List (BitVec 8)} {sent later : List (List (BitVec 8))}
  (parts : TxParts writes u current part sent later)
include parts

theorem TxParts.total_zero : u.tx_len_tot = 0 ↔ current = [] ∧ part = [] := by
  rw [parts.total, ← BitVec.toNat_inj, BitVec.toNat_ofNat, Nat.mod_eq_of_lt parts.small]
  simp

theorem TxParts.wantsItem_iff : u.wantsItem ↔ current = [] := by
  unfold UartTx.wantsItem
  rw [parts.total_zero, parts.ptr, parts.length, List.length_eq_zero_iff]
  constructor
  · rintro (all | none_ | short)
    · exact all.1
    · by_contra some_
      rw [if_neg some_] at none_
      cases none_
    · exact short
  · exact fun none_ => .inr (.inr none_)

theorem TxParts.nextItem (wants : u.wantsItem) (en_tx_flg : Bool) :
    (u.nextItem en_tx_flg = none ∧ u.tx_ring_buf = [] ∧ u.tx_ptr = none) ∨
    ∃ u' en_tx_flg', u.nextItem en_tx_flg = some (u', en_tx_flg') ∧ TxSound writes u' ∧ u'.fifo = u.fifo ∧
      u'.pc = u.pc ∧ u'.tx_buf_size = u.tx_buf_size ∧ u'.intrEnabled = u.intrEnabled := by
  obtain rfl := parts.wantsItem_iff.mp wants
  have ptr : u.tx_ptr = none := parts.ptr
  have queued := parts.queued
  have zero := parts.total_zero
  unfold UartTx.nextItem
  cases ring : u.tx_ring_buf with
  | nil => exact .inl ⟨rfl, rfl, ptr⟩
  | cons item ring =>
      rw [ring] at queued
      refine .inr ?_
      cases part with
      | nil =>
          obtain ⟨src, rest, rfl, some_, small, rfl, queued⟩ := queued
          have total : u.tx_len_tot = 0 := zero.mpr ⟨rfl, rfl⟩
          simp only [if_pos total, txDataSize_uartTxData]
          refine ⟨_, _, rfl, ⟨[], src, sent ++ [src], rest, ?_⟩, rfl, rfl, rfl, rfl⟩
          refine ⟨?_, ?_, rfl, small, rfl, parts.length, queued⟩
          · rw [parts.all, List.append_assoc]
            rfl
          · rw [List.flatten_append, parts.put]
            simp
      | cons b part =>
          obtain ⟨some_, rest, same, queued⟩ := queued
          have total : ¬ u.tx_len_tot = 0 := fun none_ => by cases (zero.mp none_).2
          simp only [if_neg total, if_pos ptr]
          refine ⟨_, _, rfl, ⟨item, rest, sent, later, ?_⟩, rfl, rfl, rfl, rfl⟩
          refine ⟨parts.all, ?_, ?_, ?_, (if_neg some_).symm, rfl, queued⟩
          · rw [parts.put, same]
            simp
          · have totals := parts.total
            rw [same] at totals
            exact totals
          · have small := parts.small
            rw [same] at small
            exact small

theorem TxParts.fill (tx_fifo_rem : Nat) : TxParts writes (u.fill current tx_fifo_rem).1
    (current.drop (min u.tx_len_cur tx_fifo_rem)) part sent later := by
  have length := parts.length
  have small := parts.small
  refine ⟨parts.all, ?_, ?_, ?_, ?_, ?_, parts.queued⟩
  · simp only [UartTx.fill, parts.put, List.append_assoc, List.take_append_drop]
  · simp only [UartTx.fill, parts.total]
    rw [← BitVec.toNat_inj]
    simp only [List.length_append, List.length_drop] at small ⊢
    rw [BitVec.toNat_sub, BitVec.toNat_ofNat, BitVec.toNat_ofNat, BitVec.toNat_ofNat]
    omega
  · simp only [List.length_append, List.length_drop] at small ⊢
    omega
  · simp only [UartTx.fill, length, List.drop_eq_nil_iff]
    congr 1
    rw [eq_iff_iff]
    omega
  · simp only [UartTx.fill, length, List.length_drop]

theorem TxParts.fillTurn {tx_fifo_rem : Nat} (room : tx_fifo_rem ≠ 0) (en_tx_flg : Bool) :
    let turn := u.fillTurn tx_fifo_rem en_tx_flg
    TxSound writes turn.1 ∧ turn.1.fifo.length + turn.2.1 = u.fifo.length + tx_fifo_rem ∧
      (turn.2.1 = 0 → turn.2.2 = true ∨ turn.1.tx_len_tot = 0) ∧
      turn.1.pc = u.pc ∧ turn.1.tx_buf_size = u.tx_buf_size ∧ turn.1.intrEnabled = u.intrEnabled := by
  unfold UartTx.fillTurn
  by_cases none_ : current = []
  · have ptr : u.tx_ptr = none := parts.ptr.trans (if_pos none_)
    rw [ptr]
    exact ⟨⟨_, _, _, _, parts⟩, rfl, fun zero => absurd zero room, rfl, rfl, rfl⟩
  · have ptr : u.tx_ptr = some current := parts.ptr.trans (if_neg none_)
    have more : u.tx_len_tot ≠ 0 ∧ 0 < u.tx_len_cur := by
      refine ⟨fun zero => none_ (parts.total_zero.mp zero).1, ?_⟩
      rw [parts.length]
      exact List.length_pos_of_ne_nil none_
    rw [ptr]
    simp only [if_pos more]
    have sent_ := parts.fill tx_fifo_rem
    refine ⟨⟨_, _, _, _, sent_⟩, ?_, fun _ => ?_, rfl, rfl, rfl⟩
    · simp only [UartTx.fill, List.length_append, List.length_take, parts.length]
      omega
    · simp only [UartTx.fill]
      exact (Decidable.em (_ = 0)).symm.imp decide_eq_true id

end

def LoopEnd (u u' : UartTx) (tx_fifo_rem : Nat) (en_tx_flg : Bool) : Prop :=
  en_tx_flg = true ∨ (u'.tx_ring_buf = [] ∧ u'.tx_ptr = none) ∨
    (u'.tx_len_tot = 0 ∧ u'.fifo.length = u.fifo.length + tx_fifo_rem)

theorem fillLoop_sound (u : UartTx) (tx_fifo_rem : Nat) (en_tx_flg : Bool) (sound : TxSound writes u)
    (begun : tx_fifo_rem = 0 → en_tx_flg = true ∨ u.tx_len_tot = 0) :
    let ends := u.fillLoop tx_fifo_rem en_tx_flg
    TxSound writes ends.1 ∧ LoopEnd u ends.1 tx_fifo_rem ends.2 ∧
      ends.1.pc = u.pc ∧ ends.1.tx_buf_size = u.tx_buf_size ∧ ends.1.intrEnabled = u.intrEnabled := by
  induction u, tx_fifo_rem, en_tx_flg using UartTx.fillLoop.induct with
  | case1 u en_tx_flg =>
      rw [UartTx.fillLoop]
      exact ⟨sound, (begun rfl).imp id fun total => .inr ⟨total, rfl⟩, rfl, rfl, rfl⟩
  | case2 u tx_fifo_rem en_tx_flg room wants missing =>
      obtain ⟨current, part, sent, later, parts⟩ := sound
      rw [UartTx.fillLoop, dif_neg room, dif_pos wants]
      rcases parts.nextItem wants en_tx_flg with ⟨-, ends⟩ | ⟨u', en_tx_flg', received, -⟩
      · split
        next => exact ⟨⟨_, _, _, _, parts⟩, .inr (.inl ends), rfl, rfl, rfl⟩
        next received => rw [missing] at received; cases received
      · rw [missing] at received
        cases received
  | case3 u tx_fifo_rem en_tx_flg room wants u' en_tx_flg' received turn ih =>
      obtain ⟨current, part, sent, later, parts⟩ := sound
      rw [UartTx.fillLoop, dif_neg room, dif_pos wants]
      rcases parts.nextItem wants en_tx_flg with ⟨missing, -⟩ | ⟨u'', flag, received', sound, fifo, kept⟩
      · rw [received] at missing
        cases missing
      · rw [received] at received'
        cases received'
        obtain ⟨_, _, _, _, parts⟩ := sound
        obtain ⟨sound, filled, begun', kept'⟩ := parts.fillTurn room en_tx_flg'
        obtain ⟨sound, ends, kept''⟩ := ih sound begun'
        split
        next missing => rw [received] at missing; cases missing
        next same =>
            rw [received] at same
            cases same
            refine ⟨sound, ends.imp id (Or.imp id fun last => ⟨last.1, ?_⟩), ?_⟩
            · rw [last.2, filled, fifo]
            · exact ⟨kept''.1.trans (kept'.1.trans kept.1), kept''.2.1.trans (kept'.2.1.trans kept.2.1),
                kept''.2.2.trans (kept'.2.2.trans kept.2.2)⟩
  | case4 u tx_fifo_rem en_tx_flg room going turn ih =>
      obtain ⟨current, part, sent, later, parts⟩ := sound
      rw [UartTx.fillLoop, dif_neg room, dif_neg going]
      obtain ⟨sound, filled, begun', kept⟩ := parts.fillTurn room en_tx_flg
      obtain ⟨sound, ends, kept'⟩ := ih sound begun'
      refine ⟨sound, ends.imp id (Or.imp id fun last => ⟨last.1, ?_⟩), ?_⟩
      · rw [last.2, filled]
      · exact ⟨kept'.1.trans kept.1, kept'.2.1.trans kept.2.1, kept'.2.2.trans kept.2.2⟩

theorem txfifoEmpty_sound (sound : TxSound writes u) {free : Nat} (room : 0 < free) :
    TxSound writes (u.txfifoEmpty free) ∧
      LoopEnd u (u.txfifoEmpty free) free (u.txfifoEmpty free).intrEnabled ∧
      (u.txfifoEmpty free).pc = u.pc ∧ (u.txfifoEmpty free).tx_buf_size = u.tx_buf_size := by
  have disabled : TxSound writes { u with intrEnabled := false } := by
    obtain ⟨_, _, _, _, parts⟩ := sound
    exact ⟨_, _, _, _, parts.all, parts.put, parts.total, parts.small, parts.ptr, parts.length, parts.queued⟩
  obtain ⟨sound, ends, pc, size, off⟩ := fillLoop_sound _ free false disabled fun none_ => absurd none_ room.ne'
  simp only [UartTx.txfifoEmpty]
  generalize UartTx.fillLoop { u with intrEnabled := false } free false = ended at sound ends pc size off
  obtain ⟨u', en_tx_flg⟩ := ended
  cases en_tx_flg with
  | true =>
      rw [if_pos rfl]
      obtain ⟨_, _, _, _, parts⟩ := sound
      exact ⟨⟨_, _, _, _, parts.all, parts.put, parts.total, parts.small, parts.ptr, parts.length, parts.queued⟩,
        .inl rfl, pc, size⟩
  | false =>
      rw [if_neg Bool.false_ne_true]
      have still : u'.intrEnabled = false := off
      rw [still]
      exact ⟨sound, ends, pc, size⟩

def Going (r : UartTxRun) : Prop := r.AllQueued → r.u.intrEnabled = true ∨ r.u.fifo = r.writes.flatten

structure TxRunSound (r : UartTxRun) : Prop where
  size : 128 < r.u.tx_buf_size
  sound : TxSound r.writes r.u
  going : Going r

theorem TxRunSound.putsOut {r : UartTxRun} (sound : TxRunSound r) : r.PutsOut := by
  obtain ⟨current, part, sent, later, parts⟩ := sound.sound
  constructor
  · rw [parts.all, List.flatten_append, parts.put, List.append_assoc, List.append_assoc]
    exact List.prefix_append _ _
  · intro idle other
    exact (sound.going (.inl idle)).resolve_right other

theorem going_end {r : UartTxRun} {free : Nat} (sound : TxSound r.writes u) (ends : LoopEnd r.u u free u.intrEnabled)
    (pc : u.pc = r.u.pc) (inside : r.AllQueued → r.EndsInside free) : Going ⟨u, r.writes⟩ := by
  intro idle
  have queued : r.AllQueued := idle.imp pc.symm.trans pc.symm.trans
  obtain ⟨current, part, sent, later, parts⟩ := sound
  rcases ends with on | ⟨empty, none_⟩ | ⟨total, length⟩
  · exact .inl on
  · refine .inr ?_
    have noCurrent : current = [] := by
      by_contra some_
      have ptr := parts.ptr
      rw [if_neg some_, none_] at ptr
      cases ptr
    have left := parts.queued
    rw [empty, Queued] at left
    have nothing : part = [] ∧ later = [] := by
      rcases idle with same | same
      · have same : u.pc = .idle := same
        rw [same] at left
        exact left
      · have same : u.pc = .give := same
        rw [same] at left
        exact left
    have put := parts.put
    rw [noCurrent, nothing.1, List.append_nil, List.append_nil] at put
    exact (put.symm.trans (by rw [parts.all, nothing.2, List.append_nil]))
  · refine .inr ?_
    obtain ⟨noCurrent, noPart⟩ := parts.total_zero.mp total
    have put := parts.put
    rw [noCurrent, noPart, List.append_nil, List.append_nil] at put
    cases later with
    | nil => exact (put.symm.trans (by rw [parts.all, List.append_nil]))
    | cons src later =>
        have before : sent.length < r.writes.length := by
          rw [parts.all, List.length_append, List.length_cons]
          omega
        refine absurd ?_ (inside queued sent.length before)
        rw [← length, ← put, parts.all, List.take_left]

theorem max_size_pos (size : 128 < u.tx_buf_size) : 0 < u.max_size / 2 := by
  have notBytes : ¬ RingbufType.noSplit = .byteBuf := by decide
  simp only [UartTx.max_size, xRingbufferCreate, rbALIGN_SIZE, rbHEADER_SIZE, if_neg notBytes]
  omega

theorem TxParts.extend {current part : List (BitVec 8)} {sent later : List (List (BitVec 8))}
    (parts : TxParts writes u current part sent later) (pc' : UartTxPc) (more items : List (List (BitVec 8))) (on : Bool)
    (next : ∀ part later, Left part later u.pc → Queued pc' part (later ++ more) items) :
    TxSound (writes ++ more) { u with tx_ring_buf := u.tx_ring_buf ++ items, pc := pc', intrEnabled := on } := by
  refine ⟨current, part, sent, later ++ more, ?_, parts.put, parts.total, parts.small, parts.ptr, parts.length,
    parts.queued.extend next⟩
  rw [parts.all, List.append_assoc]

theorem TxRunSound.task {r : UartTxRun} (sound : TxRunSound r) (ran : r.u.txStep = some u') :
    TxRunSound ⟨u', r.writes⟩ := by
  obtain ⟨current, part, sent, later, parts⟩ := sound.sound
  have extended (pc' : UartTxPc) (items : List (List (BitVec 8))) (on : Bool)
      (next : ∀ part later, Left part later r.u.pc → Queued pc' part later items) :
      TxSound r.writes { r.u with tx_ring_buf := r.u.tx_ring_buf ++ items, pc := pc', intrEnabled := on } := by
    have all := parts.extend pc' [] items on fun part later left => by
      rw [List.append_nil]
      exact next part later left
    rw [List.append_nil] at all
    exact all
  unfold UartTx.txStep at ran
  cases pc : r.u.pc with
  | idle =>
      rw [pc] at ran
      cases ran
  | description src =>
      rw [pc] at ran extended
      cases ran
      refine ⟨sound.size, extended _ _ _ fun part later left => ?_,
        fun queued => by rcases queued with busy | busy <;> cases busy⟩
      obtain ⟨rfl, rfl, some_, small⟩ := left
      exact ⟨src, [], rfl, some_, small, rfl, rfl, rfl, some_⟩
  | data src =>
      rw [pc] at ran extended
      cases ran
      refine ⟨sound.size, extended _ _ _ fun part later left => ?_,
        fun queued => by rcases queued with busy | busy <;> cases busy⟩
      obtain ⟨rfl, rfl, some_⟩ := left
      have positive := max_size_pos sound.size
      obtain ⟨b, rest, rfl⟩ := List.exists_cons_of_ne_nil some_
      refine ⟨?_, _, (List.take_append_drop _ _).symm, rfl, rfl⟩
      intro empty
      have length := congrArg List.length empty
      rw [List.length_take, List.length_cons, List.length_nil] at length
      omega
  | enable src =>
      rw [pc] at ran extended
      cases ran
      have next := extended (if src = [] then .give else .data src) [] true fun part later left => by
        obtain ⟨rfl, rfl⟩ := left
        rw [Queued]
        split
        next done => exact ⟨done, rfl⟩
        next more => exact ⟨rfl, rfl, more⟩
      rw [List.append_nil] at next
      exact ⟨sound.size, next, fun _ => .inl rfl⟩
  | give =>
      rw [pc] at ran extended
      cases ran
      have next := extended .idle [] r.u.intrEnabled fun part later left => by
        rw [Queued]
        exact left
      rw [List.append_nil] at next
      exact ⟨sound.size, next, fun _ => sound.going (.inr pc)⟩

theorem TxRunSound.step {r r' : UartTxRun} (sound : TxRunSound r) {event : UartTxEvent} (inside : RoomInside r event)
    (made : r.step event = some r') : TxRunSound r' := by
  obtain ⟨u', ran, rfl⟩ := Option.map_eq_some_iff.mp made
  obtain ⟨current, part, sent, later, parts⟩ := sound.sound
  cases event with
  | write src =>
      obtain ⟨⟨idle, some_, small⟩, ⟨⟩⟩ := Option.ite_none_right_eq_some.mp ran
      have begun : ∀ part later, Left part later r.u.pc → Queued (.description src) part (later ++ [src]) [] := by
        intro part later left
        rw [idle] at left
        obtain ⟨rfl, rfl⟩ := left
        exact ⟨rfl, rfl, some_, small⟩
      have extended := parts.extend _ _ _ r.u.intrEnabled begun
      rw [List.append_nil] at extended
      exact ⟨sound.size, extended, fun queued => by rcases queued with busy | busy <;> cases busy⟩
  | txfifoEmpty free =>
      obtain ⟨⟨-, room, -⟩, ⟨⟩⟩ := Option.ite_none_right_eq_some.mp ran
      obtain ⟨sound', ends, pc, size⟩ := txfifoEmpty_sound sound.sound room
      exact ⟨lt_of_lt_of_eq sound.size size.symm, sound', going_end sound' ends pc inside⟩
  | task => exact sound.task ran

/-- The output goes on if no interrupt fills the FIFO just to the end of a write that another one follows. -/
theorem output_goes_on {tx_buffer_size : Nat} (installed : 128 < tx_buffer_size) (events : List UartTxEvent)
    {r : UartTxRun} (run : runUartTx events (UartTxRun.start tx_buffer_size) = some r)
    (inside : EachStep UartTxRun.step RoomInside events (UartTxRun.start tx_buffer_size)) : r.PutsOut := by
  have start : TxRunSound (UartTxRun.start tx_buffer_size) :=
    ⟨installed, ⟨[], [], [], [], rfl, rfl, rfl, by decide, rfl, rfl, rfl, rfl⟩, fun _ => .inr rfl⟩
  exact (runSteps_keeps (fun r event r' sound may made => TxRunSound.step sound may made) start inside run).putsOut

def twoWrites (free : Nat) : List UartTxEvent :=
  [.write [1, 2, 3], .task, .task, .task, .task, .write [4, 5, 6], .task, .task, .task, .task, .txfifoEmpty free]

theorem output_goes_on_inside : ∃ r, runUartTx (twoWrites 4) (UartTxRun.start 256) = some r ∧ r.PutsOut := by
  have ends : (runUartTx (twoWrites 4) (UartTxRun.start 256)).isSome := by decide
  obtain ⟨r, run⟩ := Option.isSome_iff_exists.mp ends
  exact ⟨r, run, output_goes_on (by decide) (twoWrites 4) run (by decide)⟩

/-- The interrupt that puts out the first write finds no room for the second one, and is not enabled again. -/
theorem second_write_stalls : ∃ r, runUartTx (twoWrites 3) (UartTxRun.start 256) = some r ∧
    r.u.fifo = [1, 2, 3] ∧ ¬ r.PutsOut := by
  have ends : (runUartTx (twoWrites 3) (UartTxRun.start 256)).any (fun r =>
      decide (r.u.pc = .idle ∧ r.u.intrEnabled = false ∧ r.u.fifo = [1, 2, 3] ∧ r.writes = [[1, 2, 3], [4, 5, 6]])) := by
    decide +kernel
  obtain ⟨r, run, shown⟩ := (Option.any_eq_true _ _).mp ends
  obtain ⟨idle, off, fifo, writes⟩ := of_decide_eq_true shown
  refine ⟨r, run, fifo, fun puts => ?_⟩
  have on' := puts.going idle (by rw [fifo, writes]; decide)
  rw [off] at on'
  cases on'

end EspFirmware.Driver
