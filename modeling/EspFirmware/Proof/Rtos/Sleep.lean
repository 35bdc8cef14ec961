import EspFirmware.Spec.Ringbuf
import EspFirmware.Proof.Rtos.ByteRing

/-!
No reader of a byte buffer is left asleep in a run in which no receiver checks the buffer while data is outstanding
and more is waiting.
-/

namespace EspFirmware.Proof.Rtos
open EspFirmware.Lib Lib.Memory EspFirmware.Rtos EspFirmware.Spec

inductive Owner {n : Nat} (s : Tasks n) : Option Part → Prop
  | nobody (held : s.held = []) (tasks : ∀ i, (s.pc i).part? = none) : Owner s none
  | reader {p : Part} (held : s.held = [p]) (tasks : ∀ i, (s.pc i).part? = none) : Owner s (some p)
  | task {p : Part} (i : Fin n) (held : s.held = []) (has : (s.pc i).part? = some p)
      (others : ∀ j, j ≠ i → (s.pc j).part? = none) : Owner s (some p)

def inHands (rb : Ringbuffer) (F t : Nat) : Option Part := if t = 0 then none else some ⟨rb.pucHead + F, t, false⟩

structure TasksInv {n : Nat} (s : Tasks n) (F t : Nat) (bytes : List (BitVec 8)) : Prop where
  ring : ByteRing s.rb F t bytes
  owner : Owner s (inHands s.rb F t)
  wakes : bytes ≠ [] → s.Wakes

section
variable {n : Nat} {s s' : Tasks n} {i : Fin n} {F t : Nat} {bytes : List (BitVec 8)} {pc : Pc} {o : Option Part} {p : Part}

theorem goto_self (s : Tasks n) (i : Fin n) (pc : Pc) : (s.goto i pc).pc i = pc := if_pos rfl

theorem goto_other {j : Fin n} (other : j ≠ i) : (s.goto i pc).pc j = s.pc j := if_neg other

theorem Owner.goto (owner : Owner s o) (before : (s.pc i).part? = none) (after : pc.part? = none)
    (held : s'.held = s.held) (same : s'.pc = s.pc) : Owner (s'.goto i pc) o := by
  have each {j : Fin n} (none_ : (s.pc j).part? = none) : ((s'.goto i pc).pc j).part? = none := by
    by_cases this : j = i
    · rw [this, goto_self]
      exact after
    · rw [goto_other this, same]
      exact none_
  cases owner with
  | nobody empty tasks => exact .nobody (held.trans empty) fun j => each (tasks j)
  | reader single tasks => exact .reader (held.trans single) fun j => each (tasks j)
  | task k empty has others =>
      have apart : k ≠ i := by
        rintro rfl
        rw [before] at has
        cases has
      refine .task k (held.trans empty) ?_ fun j other => each (others j other)
      rw [goto_other apart, same]
      exact has

theorem Owner.got (owner : Owner s none) (after : pc.part? = some p) (held : s'.held = s.held) (same : s'.pc = s.pc) :
    Owner (s'.goto i pc) (some p) := by
  cases owner with
  | nobody empty tasks =>
      refine .task i (held.trans empty) ?_ fun j other => ?_
      · rw [goto_self]
        exact after
      · rw [goto_other other, same]
        exact tasks j

theorem Owner.gotReader (owner : Owner s none) (after : pc.part? = none) (held : s'.held = p :: s.held)
    (same : s'.pc = s.pc) : Owner (s'.goto i pc) (some p) := by
  cases owner with
  | nobody empty tasks =>
      refine .reader (by rw [← empty]; exact held) fun j => ?_
      by_cases this : j = i
      · rw [this, goto_self]
        exact after
      · rw [goto_other this, same]
        exact tasks j

theorem Owner.only (owner : Owner s o) (has : (s.pc i).part? = some p) :
    o = some p ∧ s.held = [] ∧ ∀ j, j ≠ i → (s.pc j).part? = none := by
  cases owner with
  | nobody empty tasks =>
      rw [tasks i] at has
      cases has
  | reader single tasks =>
      rw [tasks i] at has
      cases has
  | task k empty got others =>
      by_cases this : i = k
      · subst this
        rw [has] at got
        cases got
        exact ⟨rfl, empty, others⟩
      · rw [others i this] at has
        cases has

theorem Owner.outstanding (owner : Owner s (some p)) : s.Outstanding := by
  cases owner with
  | reader single tasks => exact .inl (by rw [single]; exact List.cons_ne_nil _ _)
  | task k empty has others => exact .inr ⟨k, by rw [has]; exact nofun⟩

theorem TasksInv.outstanding (inv : TasksInv s F t bytes) (some_ : t ≠ 0) : s.Outstanding := by
  have owner := inv.owner
  unfold inHands at owner
  rw [if_neg some_] at owner
  exact owner.outstanding

theorem wakes_goto (wakes : s.Wakes) (checks : (s.pc i).checks = false) (gives : (s.pc i).gives = false)
    (items : s'.xItemsBufferedSemaphore = s.xItemsBufferedSemaphore) (same : s'.pc = s.pc) :
    (s'.goto i pc).Wakes := by
  rcases wakes with available | ⟨j, check⟩ | ⟨j, give⟩
  · exact .inl (items.trans available)
  · have apart : j ≠ i := by
      rintro rfl
      rw [checks] at check
      cases check
    exact .inr (.inl ⟨j, by rw [goto_other apart, same]; exact check⟩)
  · have apart : j ≠ i := by
      rintro rfl
      rw [gives] at give
      cases give
    exact .inr (.inr ⟨j, by rw [goto_other apart, same]; exact give⟩)

theorem TasksInv.goto (inv : TasksInv s F t bytes) (rb : s'.rb = s.rb)
    (items : s'.xItemsBufferedSemaphore = s.xItemsBufferedSemaphore) (held : s'.held = s.held) (same : s'.pc = s.pc)
    (before : (s.pc i).part? = none) (after : pc.part? = none) (checks : (s.pc i).checks = false)
    (gives : (s.pc i).gives = false) : TasksInv (s'.goto i pc) F t bytes where
  ring := by
    show ByteRing s'.rb F t bytes
    rw [rb]
    exact inv.ring
  owner := by
    show Owner _ (inHands s'.rb F t)
    rw [rb]
    exact inv.owner.goto before after held same
  wakes some_ := wakes_goto (inv.wakes some_) checks gives items same

theorem copyItem_inv (inv : TasksInv s F t bytes) {item : List (BitVec 8)} (at_ : s.pc i = .copyItem item)
    (run : s.copyItem i item = some s') : ∃ bytes', TasksInv s' F t bytes' := by
  have before : (s.pc i).part? = none := by rw [at_]; rfl
  unfold Tasks.copyItem at run
  rcases bytes_send inv.ring item with refused | ⟨rb', sent, same, ring, -⟩
  · rw [refused, Option.bind_some] at run
    dsimp only at run
    rw [if_neg Bool.false_ne_true] at run
    cases run
    exact ⟨bytes, inv.goto rfl rfl rfl rfl before rfl (by rw [at_]; rfl) (by rw [at_]; rfl)⟩
  · obtain ⟨size, free⟩ := bytes_freeSize ring
    rw [sent, Option.bind_some] at run
    dsimp only at run
    rw [if_pos rfl, free] at run
    cases run
    refine ⟨bytes ++ item, ring, ?_, fun _ => .inr (.inr ⟨i, ?_⟩)⟩
    · show Owner _ (inHands rb' F t)
      have hands : inHands rb' F t = inHands s.rb F t := by unfold inHands; rw [same.head]
      rw [hands]
      exact inv.owner.goto before rfl rfl rfl
    · rw [goto_self]
      rfl

theorem getItem_inv (inv : TasksInv s F t bytes) {xMaxSize : Nat} (at_ : s.pc i = .getItem xMaxSize)
    (safe : TaskEvent.Safe s (.step i)) (run : s.getItem i xMaxSize = some s') :
    ∃ t' bytes', TasksInv s' F t' bytes' := by
  have before : (s.pc i).part? = none := by rw [at_]; rfl
  have count := inv.ring.count
  unfold Tasks.getItem at run
  by_cases nothing : 0 < t ∨ bytes = []
  · rw [bytes_receive_nothing inv.ring nothing] at run
    cases run
    have empty : bytes = [] := by
      rcases nothing with some_ | empty
      · have zero := safe (by rw [at_]; rfl) (inv.outstanding (by omega))
        exact List.length_eq_zero_iff.mp (by omega)
      · exact empty
    refine ⟨t, bytes, inv.ring, inv.owner.goto before rfl rfl rfl, fun some_ => absurd empty some_⟩
  · obtain ⟨zero, some_⟩ := not_or.mp nothing
    have none_ : t = 0 := by omega
    subst none_
    obtain ⟨k, rb', first, rest, get, pos, -, -, -, -, same, -, ring⟩ := bytes_receive inv.ring some_ xMaxSize
    have hands : inHands rb' F k = some ⟨s.rb.pucHead + F, k, false⟩ := by
      unfold inHands
      rw [if_neg (by omega), same.head]
    have counted := ring.count
    rw [get, Option.map_some] at run
    dsimp only at run
    split at run
    · cases run
      refine ⟨k, rest, ring, ?_, fun _ => .inr (.inr ⟨i, ?_⟩)⟩
      · show Owner _ (inHands rb' F k)
        rw [hands]
        exact inv.owner.got rfl rfl rfl
      · rw [goto_self]
        rfl
    · cases run
      refine ⟨k, rest, ring, ?_, ?_⟩
      · show Owner _ (inHands rb' F k)
        rw [hands]
        exact inv.owner.gotReader rfl rfl rfl
      · intro more
        have := List.length_pos_iff.mpr more
        omega

theorem returnItem_inv (inv : TasksInv s F t bytes) {part : Part} (at_ : s.pc i = .returnItem part)
    {rb' : Ringbuffer} (run : s.rb.vReturnItem part.ptr = some rb') :
    ∃ F', TasksInv ({ s with rb := rb' }.goto i .giveFreeSpace) F' 0 bytes := by
  have has : (s.pc i).part? = some part := by rw [at_]; rfl
  obtain ⟨hands, empty, others⟩ := inv.owner.only has
  unfold inHands at hands
  split at hands
  · cases hands
  · rename_i some_
    cases hands
    have inside := inv.ring.inside
    have tail := inv.ring.tail
    obtain ⟨rb'', given, same, memory, ring⟩ :=
      @bytes_return _ _ _ _ inv.ring (by omega) (s.rb.pucHead + F) (by omega) (by omega)
    rw [given] at run
    cases run
    refine ⟨advance s.rb.xSize F t, ring, ?_, fun more => ?_⟩
    · refine .nobody empty fun j => ?_
      by_cases this : j = i
      · rw [this, goto_self]
        rfl
      · rw [goto_other this]
        exact others j this
    · exact wakes_goto (inv.wakes more) (by rw [at_]; rfl) (by rw [at_]; rfl) rfl rfl

theorem next_inv (inv : TasksInv s F t bytes) (safe : TaskEvent.Safe s (.step i)) (run : s.next i = some s') :
    ∃ F' t' bytes', TasksInv s' F' t' bytes' := by
  unfold Tasks.next at run
  cases at_ : s.pc i with
  | idle =>
      rw [at_] at run
      cases run
  | takeFreeSpace item =>
      rw [at_] at run
      dsimp only at run
      split at run
      · cases run
        exact ⟨F, t, bytes, inv.goto rfl rfl rfl rfl (by rw [at_]; rfl) rfl (by rw [at_]; rfl) (by rw [at_]; rfl)⟩
      · cases run
  | copyItem item =>
      rw [at_] at run
      obtain ⟨bytes', inv'⟩ := copyItem_inv inv at_ run
      exact ⟨F, t, bytes', inv'⟩
  | giveItemsBuffered xReturnSemaphore =>
      rw [at_] at run
      cases run
      refine ⟨F, t, bytes, inv.ring, ?_, fun _ => .inl rfl⟩
      refine inv.owner.goto (by rw [at_]; rfl) ?_ rfl rfl
      split <;> rfl
  | giveFreeSpace =>
      rw [at_] at run
      cases run
      exact ⟨F, t, bytes, inv.goto rfl rfl rfl rfl (by rw [at_]; rfl) rfl (by rw [at_]; rfl) (by rw [at_]; rfl)⟩
  | takeItemsBuffered xMaxSize =>
      rw [at_] at run
      dsimp only at run
      split at run
      · cases run
        refine ⟨F, t, bytes, inv.ring, inv.owner.goto (by rw [at_]; rfl) rfl rfl rfl, fun _ => .inr (.inl ⟨i, ?_⟩)⟩
        rw [goto_self]
        rfl
      · cases run
  | getItem xMaxSize =>
      rw [at_] at run
      obtain ⟨t', bytes', inv'⟩ := getItem_inv inv at_ safe run
      exact ⟨F, t', bytes', inv'⟩
  | returnSemaphore part =>
      rw [at_] at run
      cases run
      obtain ⟨hands, empty, others⟩ := inv.owner.only (show (s.pc i).part? = some part by rw [at_]; rfl)
      refine ⟨F, t, bytes, inv.ring, ?_, fun _ => .inl rfl⟩
      show Owner _ (inHands s.rb F t)
      rw [hands]
      refine .reader (by rw [← empty]; rfl) fun j => ?_
      by_cases this : j = i
      · rw [this, goto_self]
        rfl
      · rw [goto_other this]
        exact others j this
  | returnItem part =>
      rw [at_] at run
      obtain ⟨rb', given, rfl⟩ := Option.map_eq_some_iff.mp run
      obtain ⟨F', inv'⟩ := returnItem_inv inv at_ given
      exact ⟨F', 0, bytes, inv'⟩

theorem giveBack_inv (inv : TasksInv s F t bytes) {part : Part} (at_ : s.pc i = .idle) (held : part ∈ s.held) :
    TasksInv ({ s with held := s.held.erase part }.goto i (.returnItem part)) F t bytes := by
  refine ⟨inv.ring, ?_, fun more => wakes_goto (inv.wakes more) (by rw [at_]; rfl) (by rw [at_]; rfl) rfl rfl⟩
  show Owner _ (inHands s.rb F t)
  generalize hands : inHands s.rb F t = o
  have owner := inv.owner
  rw [hands] at owner
  cases owner with
  | nobody empty tasks =>
      rw [empty] at held
      cases held
  | reader single tasks =>
      rw [single, List.mem_singleton] at held
      subst held
      refine .task i ?_ ?_ fun j other => ?_
      · show s.held.erase part = []
        rw [single, List.erase_cons_head]
      · rw [goto_self]
        rfl
      · rw [goto_other other]
        exact tasks j
  | task k empty has others =>
      rw [empty] at held
      cases held

theorem task_step (inv : TasksInv s F t bytes) {e : TaskEvent n} (safe : e.Safe s) (run : e.run s = some s') :
    ∃ F' t' bytes', TasksInv s' F' t' bytes' := by
  cases e with
  | send i item =>
      unfold TaskEvent.run at run
      dsimp only at run
      split at run
      · cases run
      · rename_i busy
        have at_ : s.pc i = .idle := Decidable.not_not.mp busy
        split at run
        · cases run
          exact ⟨F, t, bytes, inv⟩
        · cases run
          exact ⟨F, t, bytes, inv.goto rfl rfl rfl rfl (by rw [at_]; rfl) rfl (by rw [at_]; rfl) (by rw [at_]; rfl)⟩
  | receive i xMaxSize =>
      unfold TaskEvent.run at run
      dsimp only at run
      split at run
      · rename_i at_
        cases run
        exact ⟨F, t, bytes, inv.goto rfl rfl rfl rfl (by rw [at_]; rfl) rfl (by rw [at_]; rfl) (by rw [at_]; rfl)⟩
      · cases run
  | giveBack i part =>
      unfold TaskEvent.run at run
      dsimp only at run
      split at run
      · rename_i may
        cases run
        exact ⟨F, t, bytes, giveBack_inv inv may.1 may.2⟩
      · cases run
  | timeout i =>
      unfold TaskEvent.run at run
      dsimp only at run
      split at run
      · rename_i at_
        cases run
        exact ⟨F, t, bytes, inv.goto rfl rfl rfl rfl (by rw [at_]; rfl) rfl (by rw [at_]; rfl) (by rw [at_]; rfl)⟩
      · rename_i at_
        cases run
        exact ⟨F, t, bytes, inv.goto rfl rfl rfl rfl (by rw [at_]; rfl) rfl (by rw [at_]; rfl) (by rw [at_]; rfl)⟩
      · cases run
  | step i => exact next_inv inv safe run

theorem TasksInv.noneAsleep (inv : TasksInv s F t bytes) : s.NoneAsleep := by
  intro waiting _
  have count := inv.ring.count
  apply inv.wakes
  rintro rfl
  rw [count] at waiting
  exact absurd waiting (by decide)

end

structure NothingSent {n : Nat} (s : Tasks n) : Prop where
  waiting : s.rb.xItemsWaiting = 0
  max : s.rb.xMaxItemSize = 0
  items : s.xItemsBufferedSemaphore = false
  held : s.held = []
  tasks : ∀ i, s.pc i = .idle ∨ ∃ xMaxSize, s.pc i = .takeItemsBuffered xMaxSize

section
variable {n : Nat} {s s' : Tasks n}

theorem NothingSent.goto (none_ : NothingSent s) (i : Fin n) {pc : Pc}
    (after : pc = .idle ∨ ∃ xMaxSize, pc = .takeItemsBuffered xMaxSize) : NothingSent (s.goto i pc) := by
  refine ⟨none_.waiting, none_.max, none_.items, none_.held, fun j => ?_⟩
  by_cases this : j = i
  · rw [this, goto_self]
    exact after
  · rw [goto_other this]
    exact none_.tasks j

theorem NothingSent.step (none_ : NothingSent s) {e : TaskEvent n} (run : e.run s = some s') : NothingSent s' := by
  have max := none_.max
  unfold TaskEvent.run at run
  cases e with
  | send i item =>
      dsimp only at run
      split at run
      · cases run
      · rw [if_pos (by omega)] at run
        cases run
        exact none_
  | receive i xMaxSize =>
      dsimp only at run
      split at run
      · cases run
        exact none_.goto i (.inr ⟨xMaxSize, rfl⟩)
      · cases run
  | giveBack i part =>
      dsimp only at run
      rw [none_.held, if_neg (fun both => List.not_mem_nil both.2)] at run
      cases run
  | timeout i =>
      dsimp only at run
      split at run
      · cases run
        exact none_.goto i (.inl rfl)
      · cases run
        exact none_.goto i (.inl rfl)
      · cases run
  | step i =>
      dsimp only at run
      unfold Tasks.next at run
      rcases none_.tasks i with at_ | ⟨xMaxSize, at_⟩
      · rw [at_] at run
        cases run
      · rw [at_] at run
        dsimp only at run
        rw [none_.items, if_neg Bool.false_ne_true] at run
        cases run

end

def TasksOk {n : Nat} (s : Tasks n) : Prop := NothingSent s ∨ ∃ F t bytes, TasksInv s F t bytes

theorem tasks_start (n size head : Nat) (memory : Lib.Memory) :
    TasksOk (.start n (xRingbufferCreate size .byteBuf head memory)) := by
  by_cases empty : size = 0
  · subst empty
    exact .inl ⟨rfl, rfl, rfl, rfl, fun i => .inl rfl⟩
  · refine .inr ⟨0, 0, [], ?_, .nobody rfl fun i => rfl, fun some_ => absurd rfl some_⟩
    exact create_bytes (by omega) head memory

/-- In a run in which no receiver checks the buffer while data is outstanding and more is waiting, nobody is left
asleep. -/
theorem no_receiver_asleep {n : Nat} (size head : Nat) (memory : Lib.Memory) (events : List (TaskEvent n))
    (safe : EachStep TaskEvent.run TaskEvent.Safe events (.start n (xRingbufferCreate size .byteBuf head memory)))
    (s : Tasks n) (run : runTasks events (.start n (xRingbufferCreate size .byteBuf head memory)) = some s) :
    s.NoneAsleep := by
  have keeps : ∀ (s : Tasks n) (e : TaskEvent n) s', TasksOk s → e.Safe s → e.run s = some s' → TasksOk s' := by
    rintro s e s' (none_ | ⟨F, t, bytes, inv⟩) safe step
    · exact .inl (none_.step step)
    · exact .inr (task_step inv safe step)
  rcases runSteps_keeps keeps (tasks_start n size head memory) safe run with none_ | ⟨F, t, bytes, inv⟩
  · intro waiting
    rw [none_.waiting] at waiting
    exact absurd waiting (by decide)
  · exact inv.noneAsleep

def sendAndReceive {n : Nat} (sender receiver : Fin n) : List (TaskEvent n) :=
  [.send sender [1, 2, 3, 4], .step sender, .step sender, .step sender, .step sender, .receive receiver 1,
    .step receiver, .step receiver, .step receiver]

theorem no_receiver_asleep_sendAndReceive :
    EachStep TaskEvent.run TaskEvent.Safe (sendAndReceive 0 1)
      (.start 3 (xRingbufferCreate 32 .byteBuf 64 fun _ => 0)) ∧
    ∃ s, runTasks (sendAndReceive 0 1) (.start 3 (xRingbufferCreate 32 .byteBuf 64 fun _ => 0)) = some s ∧
      s.NoneAsleep := by
  have safe : EachStep TaskEvent.run TaskEvent.Safe (sendAndReceive 0 1)
      (.start 3 (xRingbufferCreate 32 .byteBuf 64 fun _ => 0)) := by decide
  have some_ : (runTasks (sendAndReceive 0 1) (.start 3 (xRingbufferCreate 32 .byteBuf 64 fun _ => 0))).isSome := by
    decide
  have run := (Option.some_get some_).symm
  exact ⟨safe, _, run, no_receiver_asleep 32 64 (fun _ => 0) (sendAndReceive 0 1) safe _ run⟩

def lostSemaphore {n : Nat} (sender receiver other : Fin n) : List (TaskEvent n) :=
  sendAndReceive sender receiver ++
    [.receive other 0, .step other, .step other, .giveBack receiver ⟨64, 1, false⟩, .step receiver, .step receiver]

theorem receiver_left_asleep :
    ∃ s, runTasks (lostSemaphore 0 1 2) (.start 3 (xRingbufferCreate 32 .byteBuf 64 fun _ => 0)) = some s ∧
      ¬ s.NoneAsleep := by
  have some_ : (runTasks (lostSemaphore 0 1 2) (.start 3 (xRingbufferCreate 32 .byteBuf 64 fun _ => 0))).isSome := by
    decide
  refine ⟨_, (Option.some_get some_).symm, ?_⟩
  revert some_
  decide

end EspFirmware.Proof.Rtos
