import Mathlib.Data.List.Forall2
import EspFirmware.Spec.Mdns

/-!
Two runs whose clocks differ by a constant do the same as long as the second clock does not wrap between two times that
are compared: packets are compared by their times, and the ends of searches with the clock.
-/

namespace EspFirmware.Proof.Mdns
open EspFirmware.Lib EspFirmware.Mdns EspFirmware.Spec

section
variable {c : BitVec 32}

theorem together_lt {a b : BitVec 32} (together : Together c a b) : a + c > b + c ↔ a > b := by
  unfold Together at together
  have smallA := a.isLt
  have smallB := b.isLt
  have smallC := c.isLt
  change (b + c).toNat < (a + c).toNat ↔ b.toNat < a.toNat
  rw [BitVec.toNat_add, BitVec.toNat_add]
  by_cases wraps : a.toNat + c.toNat < 2 ^ 32
  · rw [Nat.mod_eq_of_lt wraps, Nat.mod_eq_of_lt (together.mp wraps)]
    omega
  · have also : ¬ b.toNat + c.toNat < 2 ^ 32 := fun other => wraps (together.mpr other)
    rw [Nat.mod_eq_sub_mod (by omega), Nat.mod_eq_of_lt (by omega), Nat.mod_eq_sub_mod (by omega : _ ≥ 2 ^ 32),
      Nat.mod_eq_of_lt (by omega)]
    omega

theorem shift_sub (a b : BitVec 32) : a + c - (b + c) = a - b := by bv_omega

theorem shift_swap (a b : BitVec 32) : a + c + b = a + b + c := by bv_omega

def shiftPacket (c : BitVec 32) (p : TimedPacket) : TimedPacket := { p with send_at := p.send_at + c }

theorem insert_shift (packet : TimedPacket) {queue : List TimedPacket}
    (together : ∀ q ∈ comparedWith packet.send_at queue, Together c q.send_at packet.send_at) :
    insertTimed (shiftPacket c packet) (queue.map (shiftPacket c)) = (insertTimed packet queue).map (shiftPacket c) := by
  induction queue with
  | nil => rfl
  | cons q rest ih =>
      unfold comparedWith at together
      rw [List.map_cons]
      unfold insertTimed
      have shifted (is : Together c q.send_at packet.send_at) :
          (shiftPacket c q).send_at > (shiftPacket c packet).send_at ↔ q.send_at > packet.send_at := together_lt is
      by_cases later : q.send_at > packet.send_at
      · rw [if_pos later] at together
        have both := shifted (together q List.mem_cons_self)
        rw [if_pos later, if_pos (both.mpr later)]
        rfl
      · rw [if_neg later] at together
        have both := shifted (together q List.mem_cons_self)
        rw [if_neg later, if_neg (fun other => later (both.mp other)),
          ih fun p inside => together p (List.mem_cons_of_mem _ inside)]
        rfl

structure SameSearch (c : BitVec 32) (s s' : TimedSearch) : Prop where
  id : s'.id = s.id
  state : s'.state = s.state
  started : s'.started_at = s.started_at + c
  sent : s.state = .running → s'.sent_at = s.sent_at + c
  timeout : s'.timeout = s.timeout

theorem search_shift {s s' : TimedSearch} (now : BitVec 32) (taken : Bool) (same : SameSearch c s s')
    (unwrapped : s.state ≠ .off → Together c now (s.started_at + s.timeout) ∧
      (s.state = .init → now > s.started_at + s.timeout → taken = true)) :
    SameSearch c (s.run now taken).1 (s'.run (now + c) taken).1 ∧ (s'.run (now + c) taken).2 = (s.run now taken).2 := by
  obtain ⟨id, state, started, sent, timeout⟩ := same
  unfold TimedSearch.run
  rw [state, started, timeout, shift_swap, id]
  by_cases off : s.state = .off
  · rw [if_pos off, if_pos off]
    exact ⟨⟨id, state, started, sent, timeout⟩, rfl⟩
  · obtain ⟨together, ended⟩ := unwrapped off
    have both := together_lt together
    rw [if_neg off, if_neg off]
    by_cases late : now > s.started_at + s.timeout
    · rw [if_pos late, if_pos (both.mpr late)]
      cases taken with
      | true => exact ⟨⟨rfl, rfl, rfl, (fun running => by cases running), rfl⟩, rfl⟩
      | false =>
          refine ⟨⟨rfl, rfl, rfl, fun _ => sent ?_, rfl⟩, rfl⟩
          cases is : s.state with
          | off => exact absurd is off
          | init => exact absurd (ended is late) (by decide)
          | running => rfl
    · rw [if_neg late, if_neg (fun other => late (both.mp other))]
      have due : (s.state = .init ∨ now + c - s'.sent_at > 1000) ↔ (s.state = .init ∨ now - s.sent_at > 1000) := by
        cases is : s.state with
        | off => exact absurd is off
        | init => exact iff_of_true (.inl rfl) (.inl rfl)
        | running => rw [sent is, shift_sub]
      by_cases send : s.state = .init ∨ now - s.sent_at > 1000
      · rw [if_pos send, if_pos (due.mpr send)]
        cases taken with
        | true => exact ⟨⟨rfl, rfl, rfl, fun _ => rfl, rfl⟩, rfl⟩
        | false =>
            refine ⟨⟨rfl, rfl, rfl, fun _ => ?_, rfl⟩, rfl⟩
            change now + c - 1000 = now - 1000 + c
            bv_omega
      · rw [if_neg send, if_neg (fun other => send (due.mp other))]
        exact ⟨⟨id, state, started, sent, timeout⟩, rfl⟩

theorem searches_shift {l l' : List TimedSearch} {now : BitVec 32} {taken : List Nat} (same : List.Forall₂ (SameSearch c) l l')
    (unwrapped : ∀ s ∈ l, s.state ≠ .off → Together c now (s.started_at + s.timeout) ∧
      (s.state = .init → now > s.started_at + s.timeout → s.id ∈ taken)) :
    List.Forall₂ (SameSearch c) ((l.map fun s => s.run now (s.id ∈ taken)).map Prod.fst)
        ((l'.map fun s => s.run (now + c) (s.id ∈ taken)).map Prod.fst) ∧
      (l'.map fun s => s.run (now + c) (s.id ∈ taken)).filterMap Prod.snd =
        (l.map fun s => s.run now (s.id ∈ taken)).filterMap Prod.snd := by
  induction same with
  | nil => exact ⟨.nil, rfl⟩
  | @cons s s' l l' one _ ih =>
      obtain ⟨searches, actions⟩ := ih fun x inside => unwrapped x (List.mem_cons_of_mem _ inside)
      have here := search_shift now (decide (s.id ∈ taken)) one fun on => by
        obtain ⟨together, ended⟩ := unwrapped s List.mem_cons_self on
        exact ⟨together, fun init late => decide_eq_true (ended init late)⟩
      obtain ⟨search, action⟩ := here
      simp only [List.map_cons, List.filterMap_cons]
      rw [one.id, action, actions]
      exact ⟨.cons search searches, rfl⟩

structure SameTimes (c : BitVec 32) (t t' : Timing) : Prop where
  packets : t'.tx_queue = t.tx_queue.map (shiftPacket c)
  searches : List.Forall₂ (SameSearch c) t.search_once t'.search_once
  log : t'.log = t.log

theorem filter_forall₂ {l l' : List TimedSearch} (same : List.Forall₂ (SameSearch c) l l') (search : Nat) :
    List.Forall₂ (SameSearch c) (l.filter fun s => s.id ≠ search) (l'.filter fun s => s.id ≠ search) := by
  induction same with
  | nil => exact .nil
  | @cons s s' l l' one _ ih =>
      rw [List.filter_cons, List.filter_cons, one.id]
      split
      · exact .cons one ih
      · exact ih

theorem timing_step (t t' : Timing) (e : TimingEvent) (next : Timing) (same : SameTimes c t t') (unwrapped : e.Unwrapped c t)
    (made : e.run t = some next) : ∃ next', (e.shift c).run t' = some next' ∧ SameTimes c next next' := by
  obtain ⟨packets, searches, log⟩ := same
  cases e with
  | schedule packet ms_after now =>
      cases made
      refine ⟨_, rfl, ?_, searches, log⟩
      have inserted := insert_shift ⟨packet, now + ms_after⟩ unwrapped
      change insertTimed ⟨packet, now + c + ms_after⟩ t'.tx_queue = _
      rw [packets, shift_swap]
      exact inserted
  | schedulerRun now memory sent =>
      cases made
      refine ⟨_, rfl, ?_⟩
      unfold Timing.schedulerRun
      rw [packets]
      cases t.tx_queue with
      | nil => exact ⟨packets, searches, log⟩
      | cons p rest =>
          have due : ((shiftPacket c p).send_at - (now + c)).toInt = (p.send_at - now).toInt :=
            congrArg BitVec.toInt (shift_sub p.send_at now)
          rw [List.map_cons]
          dsimp only
          rw [due]
          split
          · exact ⟨rfl, searches, congrArg (· ++ [TimerAction.txHandle p.id]) log⟩
          · exact ⟨packets, searches, log⟩
  | searchAdd search timeout now =>
      cases made
      exact ⟨_, rfl, packets, .cons ⟨rfl, rfl, rfl, (fun running => by cases running), rfl⟩ searches, log⟩
  | searchRun now taken =>
      cases made
      obtain ⟨turned, actions⟩ := searches_shift searches unwrapped
      refine ⟨_, rfl, packets, turned, ?_⟩
      unfold Timing.searchRun
      dsimp only
      rw [log, actions]
  | clear ids =>
      cases made
      refine ⟨_, rfl, ?_, searches, log⟩
      dsimp only
      rw [packets, List.filter_map]
      rfl
  | finish search =>
      cases made
      exact ⟨_, rfl, packets, filter_forall₂ searches search, log⟩

theorem same_at_shift (c : BitVec 32) (events : List TimingEvent)
    (unwrapped : EachStep TimingEvent.run (fun t e => e.Unwrapped c t) events Timing.start) : SameAtShift c events := by
  rintro front ⟨rest, rfl⟩
  have each := unwrapped.front
  have makes : ∀ (t : Timing) e, True → e.Unwrapped c t → ∃ next, TimingEvent.run t e = some next ∧ True := by
    intro t e _ _
    cases e with
    | schedule | schedulerRun | searchAdd | searchRun | clear | finish => exact ⟨_, rfl, trivial⟩
  obtain ⟨t, run, _⟩ := runSteps_total makes trivial each
  have start : SameTimes c Timing.start Timing.start := ⟨rfl, .nil, rfl⟩
  obtain ⟨t', run', same⟩ := runSteps_simulates (TimingEvent.shift c) timing_step start each run
  refine ⟨t, t', run, run', ?_, same.log⟩
  rw [same.packets, List.map_map]
  rfl

def oneOvertakes : List TimingEvent :=
  [.schedule 0 120 0, .schedule 1 0 10, .searchAdd 2 3000 20, .searchRun 100 [2], .schedulerRun 101 true true]

theorem same_at_shift_overtakes : SameAtShift 1000000 oneOvertakes := same_at_shift 1000000 oneOvertakes (by decide)

/-- With a clock that begins 50 ms before its wrap the packets stay in the order they came in, and the one that is due has to
wait for the other. -/
theorem order_changes_at_wrap :
    (runSteps TimingEvent.run oneOvertakes Timing.start).map (fun t => (t.tx_queue.map TimedPacket.id, t.log)) =
      some ([0], [.searchSend 2, .txHandle 1]) ∧
    (runSteps TimingEvent.run (oneOvertakes.map (TimingEvent.shift (-50))) Timing.start).map
      (fun t => (t.tx_queue.map TimedPacket.id, t.log)) = some ([0, 1], [.searchSend 2]) ∧
    ¬ SameAtShift (-50) oneOvertakes := by
  have first : (runSteps TimingEvent.run oneOvertakes Timing.start).map
      (fun t => (t.tx_queue.map TimedPacket.id, t.log)) = some ([0], [.searchSend 2, .txHandle 1]) := by decide
  have second : (runSteps TimingEvent.run (oneOvertakes.map (TimingEvent.shift (-50))) Timing.start).map
      (fun t => (t.tx_queue.map TimedPacket.id, t.log)) = some ([0, 1], [.searchSend 2]) := by decide
  refine ⟨first, second, ?_⟩
  intro same
  obtain ⟨t, t', run, run', queue, _⟩ := same oneOvertakes (List.prefix_refl _)
  rw [run] at first
  rw [run'] at second
  have order := congrArg Prod.fst (Option.some.inj first)
  have order' := congrArg Prod.fst (Option.some.inj second)
  dsimp only at order order'
  rw [order, order'] at queue
  cases queue

end

end EspFirmware.Proof.Mdns
