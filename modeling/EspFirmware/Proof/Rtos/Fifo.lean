import EspFirmware.Proof.Rtos.ByteRing
import EspFirmware.Proof.Rtos.Return

/-!
A buffer of items with one reader is a queue.
-/

namespace EspFirmware.Proof.Rtos
open EspFirmware.Lib Lib.Memory EspFirmware.Rtos EspFirmware.Spec

structure ItemInv (r : RingRun) (F : Nat) (taken waiting : List Blk) (items : List (List (BitVec 8))) : Prop where
  ring : RingInv r.rb F taken waiting
  queue : Queue waiting items
  whole : r.rb.type = .noSplit → ∀ b ∈ waiting, b.split = false
  history : r.sent = r.received ++ items
  held : r.held = parts r.rb.pucHead r.rb.xSize F taken
  stop : r.held = [] → taken = []
  last : r.held ≠ [] → r.received.getLast? = some (r.held.flatMap (partBytes r.rb.memory))

section
variable {r : RingRun} {F : Nat} {taken waiting : List Blk} {items : List (List (BitVec 8))}

theorem item_send (inv : ItemInv r F taken waiting items) (item : List (BitVec 8)) :
    ∃ r' waiting' items', RingEvent.run r (.send item) = some r' ∧ ItemInv r' F taken waiting' items' := by
  unfold RingEvent.run
  dsimp only
  rcases send_spec inv.ring item with refused | ⟨rb', new, sent, carries, same, ring, whole, frame⟩
  · rw [refused]
    exact ⟨r, waiting, items, rfl, inv⟩
  · rw [sent]
    refine ⟨{ r with rb := rb', sent := r.sent ++ [item] }, waiting ++ new, items ++ [item], rfl, ring,
      inv.queue.append carries, ?_, ?_, ?_, inv.stop, ?_⟩
    · intro noSplit b member
      have type : r.rb.type = .noSplit := same.type.symm.trans noSplit
      rcases List.mem_append.mp member with old | fresh
      · exact inv.whole type b old
      · exact whole type b fresh
    · show r.sent ++ [item] = r.received ++ (items ++ [item])
      rw [inv.history, List.append_assoc]
    · show r.held = parts rb'.pucHead rb'.xSize F taken
      rw [same.head, same.size]
      exact inv.held
    · intro some_
      refine (inv.last some_).trans (congrArg some ?_)
      have each : ∀ p ∈ r.held, partBytes r.rb.memory p = partBytes rb'.memory p := by
        intro p member
        rw [inv.held] at member
        refine load_congr fun x low high => (frame x ?_).symm
        exact inBlocks_append.mpr (.inl (parts_inBlocks member (by omega) high))
      show r.held.flatMap _ = r.held.flatMap _
      rw [List.flatMap_def, List.flatMap_def, List.map_congr_left each]

theorem receiveItem_eq {rb : Ringbuffer} (geo : Geometry rb) (xMaxSize : Nat) :
    receiveItem rb xMaxSize = rb.prvReceiveGeneric (rb.type = .allowSplit) 0 := by
  unfold receiveItem
  cases type : rb.type with
  | noSplit => rfl
  | allowSplit => exact if_pos type
  | byteBuf => exact absurd type geo.items

theorem item_receive_nothing (inv : ItemInv r F taken waiting []) (none_ : r.held = []) (xMaxSize : Nat) :
    RingEvent.run r (.receive xMaxSize) = some r := by
  have empty : waiting = [] := by
    cases inv.queue
    rfl
  subst empty
  unfold RingEvent.run
  dsimp only
  rw [receiveItem_eq inv.ring.placed.geo, receive_nothing inv.ring]
  show some { r with held := [] } = some r
  rw [← none_]

theorem item_receive_some {item : List (BitVec 8)} (inv : ItemInv r F taken waiting (item :: items)) (none_ : r.held = [])
    (xMaxSize : Nat) :
    ∃ r' taken' waiting', RingEvent.run r (.receive xMaxSize) = some r' ∧ ItemInv r' F taken' waiting' items ∧
      r'.sent = r.sent ∧ r'.received = r.received ++ [item] ∧ SameRing r.rb r'.rb := by
  have nothing := inv.stop none_
  subst nothing
  have nonempty : waiting ≠ [] := by
    rintro rfl
    have counted := inv.queue
    generalize hbs : ([] : List Blk) = bs at counted
    cases counted with
    | cons first later =>
        have := (List.append_eq_nil_iff.mp hbs.symm).1
        subst this
        cases first
  obtain ⟨rb', ps, moved, rest, receive, got⟩ := receive_some inv.ring inv.queue nonempty (r.rb.type = .allowSplit) 0
  obtain ⟨items', later, front⟩ := got.queue
  have all : r.rb.type = .allowSplit ∧ decide (r.rb.type = .allowSplit) = true ∨ ∀ b ∈ waiting, b.split = false := by
    cases type : r.rb.type with
    | noSplit => exact .inr (inv.whole type)
    | allowSplit => exact .inl ⟨rfl, rfl⟩
    | byteBuf => exact absurd type inv.ring.placed.geo.items
  obtain ⟨rfl, rfl⟩ := List.cons.inj (front all)
  unfold RingEvent.run
  dsimp only
  rw [receiveItem_eq inv.ring.placed.geo, receive, Option.map_some, if_neg got.some_]
  have bytes : ps.flatMap (partBytes rb'.memory) = ps.flatMap (partBytes r.rb.memory) := by rw [got.memory]
  refine ⟨{ r with
    rb := rb'
    held := ps
    received := r.received ++ [ps.flatMap (partBytes rb'.memory)] }, moved, rest, rfl, ⟨got.inv, later, ?_, ?_, ?_, ?_, ?_⟩,
    rfl, by rw [bytes], got.same⟩
  · intro noSplit b member
    rw [got.split] at inv
    exact inv.whole (got.same.type.symm.trans noSplit) b (List.mem_append_right _ member)
  · show r.sent = r.received ++ [ps.flatMap (partBytes rb'.memory)] ++ items
    rw [bytes, inv.history, List.append_assoc]
    rfl
  · show ps = parts rb'.pucHead rb'.xSize F moved
    rw [got.same.head, got.same.size]
    exact got.parts
  · intro empty
    exact absurd empty got.some_
  · intro _
    exact List.getLast?_concat

theorem item_giveBack (inv : ItemInv r F taken waiting items) :
    ∃ r' F', RingEvent.run r .giveBack = some r' ∧ ItemInv r' F' [] waiting items ∧ r'.sent = r.sent ∧
      r'.received = r.received ∧ SameRing r.rb r'.rb := by
  have stop : parts r.rb.pucHead r.rb.xSize F taken = [] → taken = [] := by
    rw [← inv.held]
    exact inv.stop
  obtain ⟨rb', F', run, same, ring⟩ := returnParts_spec inv.ring stop
  unfold RingEvent.run
  dsimp only
  rw [inv.held, run]
  refine ⟨{ r with rb := rb', held := [] }, F', rfl, ⟨ring, inv.queue, ?_, inv.history, rfl, fun _ => rfl, ?_⟩, rfl, rfl, same⟩
  · intro noSplit
    exact inv.whole (same.type.symm.trans noSplit)
  · intro some_
    exact absurd rfl some_

theorem item_drain (inv : ItemInv r F [] waiting items) (none_ : r.held = []) :
    ∃ r', runRing (drain items.length) r = some r' ∧ r'.received = r.sent := by
  induction items generalizing r F waiting with
  | nil =>
      refine ⟨r, rfl, ?_⟩
      rw [inv.history, List.append_nil]
  | cons item items ih =>
      obtain ⟨r₁, taken₁, waiting₁, receive, inv₁, sent₁, -, -⟩ := item_receive_some inv none_ 0
      obtain ⟨r₂, F₂, giveBack, inv₂, sent₂, -, -⟩ := item_giveBack inv₁
      obtain ⟨r', run, all⟩ := ih inv₂ inv₂.held
      refine ⟨r', ?_, ?_⟩
      · rw [List.length_cons, drain, runRing, runSteps_cons, receive, Option.bind_some, runSteps_cons, giveBack]
        exact run
      · rw [all, sent₂, sent₁]

theorem ItemInv.ok (inv : ItemInv r F taken waiting items) : QueueOk r := by
  have same (queue : List (List (BitVec 8))) : units r.rb.type queue = queue := if_neg inv.ring.placed.geo.items
  refine ⟨?_, inv.last, ?_⟩
  · rw [same, same, inv.history]
    exact List.prefix_append _ _
  · intro none_
    have nothing := inv.stop none_
    subst nothing
    obtain ⟨r', run, all⟩ := item_drain inv none_
    refine ⟨items.length, r', run, ?_⟩
    rw [same, same, all]

theorem item_step (inv : ItemInv r F taken waiting items) {e : RingEvent} (allowed : e.Allowed r) :
    ∃ r' F' taken' waiting' items', e.run r = some r' ∧ ItemInv r' F' taken' waiting' items' := by
  cases e with
  | send item =>
      obtain ⟨r', waiting', items', run, inv'⟩ := item_send inv item
      exact ⟨r', F, taken, waiting', items', run, inv'⟩
  | receive xMaxSize =>
      cases items with
      | nil => exact ⟨r, F, taken, waiting, [], item_receive_nothing inv allowed xMaxSize, inv⟩
      | cons item items =>
          obtain ⟨r', taken', waiting', run, inv', -⟩ := item_receive_some inv allowed xMaxSize
          exact ⟨r', F, taken', waiting', items, run, inv'⟩
  | giveBack =>
      obtain ⟨r', F', run, inv', -⟩ := item_giveBack inv
      exact ⟨r', F', [], waiting, items, run, inv'⟩

end

theorem itemInv_start (s : Storage) {type : RingbufType} (items : type ≠ .byteBuf) :
    ItemInv (.start (s.create type)) 0 [] [] [] where
  ring := create_inv s items
  queue := .nil
  whole _ := nofun
  history := rfl
  held := rfl
  stop _ := rfl
  last some_ := absurd rfl some_

end EspFirmware.Proof.Rtos

/-!
A byte buffer with one reader is a queue of bytes, and so every buffer with one reader is a queue.
-/

namespace EspFirmware.Proof.Rtos
open EspFirmware.Lib Lib.Memory EspFirmware.Rtos EspFirmware.Spec

structure ByteInv (r : RingRun) (F t : Nat) (bytes : List (BitVec 8)) : Prop where
  ring : ByteRing r.rb F t bytes
  straight : F + t ≤ r.rb.xSize
  history : r.sent.flatten = r.received.flatten ++ bytes
  held : r.held = if t = 0 then [] else [⟨r.rb.pucHead + F, t, false⟩]
  last : r.held ≠ [] → r.received.getLast? = some (r.held.flatMap (partBytes r.rb.memory))

section
variable {r : RingRun} {F t : Nat} {bytes : List (BitVec 8)}

theorem ByteInv.nothing (inv : ByteInv r F t bytes) (none_ : r.held = []) : t = 0 := by
  have held := inv.held
  rw [none_] at held
  split at held
  · assumption
  · cases held

theorem byte_send (inv : ByteInv r F t bytes) (item : List (BitVec 8)) :
    ∃ r' bytes', RingEvent.run r (.send item) = some r' ∧ ByteInv r' F t bytes' := by
  unfold RingEvent.run
  dsimp only
  rcases bytes_send inv.ring item with refused | ⟨rb', sent, same, ring, frame⟩
  · rw [refused]
    exact ⟨r, bytes, rfl, inv⟩
  · rw [sent]
    refine ⟨{ r with rb := rb', sent := r.sent ++ [item] }, bytes ++ item, rfl, ring, ?_, ?_, ?_, ?_⟩
    · show F + t ≤ rb'.xSize
      rw [same.size]
      exact inv.straight
    · show (r.sent ++ [item]).flatten = r.received.flatten ++ (bytes ++ item)
      rw [List.flatten_concat, inv.history, List.append_assoc]
    · show r.held = if t = 0 then [] else [⟨rb'.pucHead + F, t, false⟩]
      rw [same.head]
      exact inv.held
    · intro some_
      refine (inv.last some_).trans (congrArg some ?_)
      show r.held.flatMap (partBytes r.rb.memory) = r.held.flatMap (partBytes rb'.memory)
      rw [inv.held]
      have kept : load rb'.memory (r.rb.pucHead + F) t = load r.rb.memory (r.rb.pucHead + F) t := by
        have straight := inv.straight
        rw [← ringLoad_straight straight, ← ringLoad_straight straight]
        exact ringLoad_congr fun i less => frame i (by omega)
      split
      · rfl
      · rw [List.flatMap_singleton, List.flatMap_singleton]
        exact kept.symm

theorem receiveBytes_eq {rb : Ringbuffer} (type : rb.type = .byteBuf) (xMaxSize : Nat) :
    receiveItem rb xMaxSize = rb.prvReceiveGeneric false xMaxSize := by
  unfold receiveItem
  rw [type]
  dsimp only
  split
  · rename_i zero
    rw [zero]
    rfl
  · rename_i some_
    unfold Ringbuffer.xRingbufferReceiveUpTo configASSERT
    rw [if_pos type, if_neg some_]

theorem byte_receive (inv : ByteInv r F t bytes) (none_ : r.held = []) (xMaxSize : Nat) :
    ∃ r' t' bytes', RingEvent.run r (.receive xMaxSize) = some r' ∧ ByteInv r' F t' bytes' ∧ r'.sent = r.sent ∧
      SameRing r.rb r'.rb ∧ (bytes = [] ∧ bytes' = [] ∨ bytes'.length < bytes.length) := by
  have zero := inv.nothing none_
  subst zero
  unfold RingEvent.run
  dsimp only
  rw [receiveBytes_eq inv.ring.type]
  by_cases empty : bytes = []
  · rw [bytes_receive_nothing inv.ring (.inr empty)]
    refine ⟨r, 0, bytes, ?_, inv, rfl, ⟨rfl, rfl, rfl, rfl, rfl⟩, .inl ⟨empty, empty⟩⟩
    show some { r with held := [] } = some r
    rw [← none_]
  · obtain ⟨n, rb', first, rest, get, pos, straight, parted, front, length, same, memory, ring⟩ :=
      bytes_receive inv.ring empty xMaxSize
    rw [get, Option.map_some, if_neg (List.cons_ne_nil _ _)]
    have got : [(⟨r.rb.pucHead + F, n, false⟩ : Part)].flatMap (partBytes rb'.memory) = first := by
      rw [List.flatMap_singleton, memory, front]
      rfl
    refine ⟨_, n, rest, rfl, ⟨ring, ?_, ?_, ?_, ?_⟩, rfl, same, .inr ?_⟩
    · show F + n ≤ rb'.xSize
      rw [same.size]
      exact straight
    · dsimp only
      rw [got, List.flatten_concat, inv.history, parted, List.append_assoc]
    · rw [if_neg (by omega), same.head]
    · intro _
      exact List.getLast?_concat
    · rw [parted, List.length_append]
      omega

theorem byte_giveBack (inv : ByteInv r F t bytes) :
    ∃ r' F', RingEvent.run r .giveBack = some r' ∧ ByteInv r' F' 0 bytes ∧ r'.sent = r.sent ∧ SameRing r.rb r'.rb := by
  unfold RingEvent.run
  dsimp only
  rw [inv.held]
  have tail := inv.ring.tail
  have inside := inv.ring.inside
  by_cases zero : t = 0
  · subst zero
    refine ⟨{ r with held := [] }, F, rfl, ⟨inv.ring, inv.straight, inv.history, rfl, ?_⟩, rfl,
      ⟨rfl, rfl, rfl, rfl, rfl⟩⟩
    intro some_
    exact absurd rfl some_
  · obtain ⟨rb', given, same, memory, ring⟩ := @bytes_return _ _ _ _ inv.ring (by omega) (r.rb.pucHead + F) (by omega)
      (by omega)
    rw [if_neg zero, returnParts, given, Option.bind_some, returnParts]
    refine ⟨_, advance r.rb.xSize F t, rfl, ⟨ring, ?_, inv.history, rfl, ?_⟩, rfl, same⟩
    · have less := ring.inside
      exact Nat.le_of_lt less
    · intro some_
      exact absurd rfl some_

theorem byte_drain (inv : ByteInv r F t bytes) (none_ : r.held = []) {n : Nat} (enough : bytes.length ≤ n) :
    ∃ r', runRing (drain n) r = some r' ∧ r'.received.flatten = r.sent.flatten := by
  induction n generalizing r F t bytes with
  | zero =>
      have empty : bytes = [] := List.length_eq_zero_iff.mp (by omega)
      refine ⟨r, rfl, ?_⟩
      rw [inv.history, empty, List.append_nil]
  | succ n ih =>
      obtain ⟨r₁, t₁, bytes₁, receive, inv₁, sent₁, -, fewer⟩ := byte_receive inv none_ 0
      obtain ⟨r₂, F₂, giveBack, inv₂, sent₂, -⟩ := byte_giveBack inv₁
      have less : bytes₁.length ≤ n := by
        rcases fewer with ⟨-, rfl⟩ | fewer
        · exact Nat.zero_le n
        · omega
      obtain ⟨r', run, all⟩ := ih inv₂ inv₂.held less
      refine ⟨r', ?_, ?_⟩
      · rw [drain, runRing, runSteps_cons, receive, Option.bind_some, runSteps_cons, giveBack]
        exact run
      · rw [all, sent₂, sent₁]

theorem ByteInv.ok (inv : ByteInv r F t bytes) : QueueOk r := by
  have same (queue : List (List (BitVec 8))) : units r.rb.type queue = queue.flatten.map fun b => [b] :=
    if_pos inv.ring.type
  refine ⟨?_, inv.last, ?_⟩
  · rw [same, same, inv.history, List.map_append]
    exact List.prefix_append _ _
  · intro none_
    obtain ⟨r', run, all⟩ := byte_drain inv none_ (Nat.le_refl _)
    refine ⟨bytes.length, r', run, ?_⟩
    rw [same, same, all]

theorem byte_step (inv : ByteInv r F t bytes) {e : RingEvent} (allowed : e.Allowed r) :
    ∃ r' F' t' bytes', e.run r = some r' ∧ ByteInv r' F' t' bytes' := by
  cases e with
  | send item =>
      obtain ⟨r', bytes', run, inv'⟩ := byte_send inv item
      exact ⟨r', F, t, bytes', run, inv'⟩
  | receive xMaxSize =>
      obtain ⟨r', t', bytes', run, inv', -⟩ := byte_receive inv allowed xMaxSize
      exact ⟨r', F, t', bytes', run, inv'⟩
  | giveBack =>
      obtain ⟨r', F', run, inv', -⟩ := byte_giveBack inv
      exact ⟨r', F', 0, bytes, run, inv'⟩

end

theorem byteInv_start (s : Storage) : ByteInv (.start (s.create .byteBuf)) 0 0 [] where
  ring := create_bytes (by have enough := s.enough; omega) s.head s.memory
  straight := Nat.zero_le _
  history := rfl
  held := rfl
  last some_ := absurd rfl some_

def QueueInv (r : RingRun) : Prop :=
  (∃ F taken waiting items, ItemInv r F taken waiting items) ∨ ∃ F t bytes, ByteInv r F t bytes

theorem QueueInv.ok {r : RingRun} (inv : QueueInv r) : QueueOk r := by
  rcases inv with ⟨F, taken, waiting, items, inv⟩ | ⟨F, t, bytes, inv⟩
  · exact inv.ok
  · exact inv.ok

theorem queue_step {r : RingRun} (inv : QueueInv r) {e : RingEvent} (allowed : e.Allowed r) :
    ∃ r', e.run r = some r' ∧ QueueInv r' := by
  rcases inv with ⟨F, taken, waiting, items, inv⟩ | ⟨F, t, bytes, inv⟩
  · obtain ⟨r', F', taken', waiting', items', run, inv'⟩ := item_step inv allowed
    exact ⟨r', run, .inl ⟨F', taken', waiting', items', inv'⟩⟩
  · obtain ⟨r', F', t', bytes', run, inv'⟩ := byte_step inv allowed
    exact ⟨r', run, .inr ⟨F', t', bytes', inv'⟩⟩

theorem queueInv_start (s : Storage) (type : RingbufType) : QueueInv (.start (s.create type)) := by
  cases type with
  | noSplit => exact .inl ⟨0, [], [], [], itemInv_start s nofun⟩
  | allowSplit => exact .inl ⟨0, [], [], [], itemInv_start s nofun⟩
  | byteBuf => exact .inr ⟨0, 0, [], byteInv_start s⟩

/-- No assertion fails, what is received is what was sent in the order in which it was sent, and what has not been
received yet still comes. -/
theorem ringbuffer_fifo (s : Storage) (type : RingbufType) (events : List RingEvent)
    (allowed : EachStep RingEvent.run RingEvent.Allowed events (.start (s.create type))) :
    ∃ r, runRing events (.start (s.create type)) = some r ∧ QueueOk r := by
  obtain ⟨r, run, inv⟩ := runSteps_total (fun r e inv may => queue_step inv may) (queueInv_start s type) allowed
  exact ⟨r, run, inv.ok⟩

def splitAtEnd : List RingEvent :=
  [.send [1, 2, 3, 4], .receive 0, .giveBack, .send (List.replicate 16 5), .receive 0, .giveBack, .send [6, 7], .receive 0]

theorem ringbuffer_fifo_split :
    EachStep RingEvent.run RingEvent.Allowed splitAtEnd (.start (Storage.small.create .allowSplit)) ∧
    (runRing (splitAtEnd.take 5) (.start (Storage.small.create .allowSplit))).map (fun r => r.held.length) = some 2 ∧
    ∃ r, runRing splitAtEnd (.start (Storage.small.create .allowSplit)) = some r ∧ QueueOk r := by
  have allowed : EachStep RingEvent.run RingEvent.Allowed splitAtEnd (.start (Storage.small.create .allowSplit)) := by
    decide
  exact ⟨allowed, by decide, ringbuffer_fifo Storage.small .allowSplit _ allowed⟩

end EspFirmware.Proof.Rtos
