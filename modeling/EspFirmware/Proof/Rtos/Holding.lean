import EspFirmware.Proof.Rtos.Return

/-!
Readers that hold many items keep what they were given, unless something is given back from a full buffer that has
been read to its end.
-/

namespace EspFirmware.Proof.Rtos
open EspFirmware.Lib Lib.Memory EspFirmware.Rtos EspFirmware.Spec

structure HoldInv (r : HoldRun) (F : Nat) (taken waiting : List Blk) : Prop where
  ring : RingInv r.rb F taken waiting
  queue : ∃ items, Queue waiting items
  held : r.held.map Holding.part = parts r.rb.pucHead r.rb.xSize F taken
  some_ : r.held = [] → taken = []
  kept : ∀ h ∈ r.held, load r.rb.memory (h.part.ptr - rbHEADER_SIZE) (rbHEADER_SIZE + h.part.size) = h.bytes

theorem queue_counted {waiting : List Blk} {items : List (List (BitVec 8))} (queue : Queue waiting items)
    (none_ : (waiting.filter isItem).length = 0) : waiting = [] := by
  cases queue with
  | nil => rfl
  | cons first later =>
      rw [List.filter_append, List.length_append] at none_
      cases first with
      | item => simp [isItem, itemBlk] at none_
      | behindDummy => simp [isItem, itemBlk, dummyBlk] at none_
      | split => simp [isItem, firstBlk] at none_

section
variable {r : HoldRun} {F : Nat} {taken waiting : List Blk}

theorem HoldInv.heldPart (inv : HoldInv r F taken waiting) {h : Holding} (member : h ∈ r.held) :
    h.part ∈ parts r.rb.pucHead r.rb.xSize F taken := by
  rw [← inv.held]
  exact List.mem_map_of_mem member

theorem kept_congr {m m' : Lib.Memory} {held : List Holding}
    (kept : ∀ h ∈ held, load m (h.part.ptr - rbHEADER_SIZE) (rbHEADER_SIZE + h.part.size) = h.bytes)
    (least : ∀ h ∈ held, rbHEADER_SIZE ≤ h.part.ptr)
    (frame : ∀ h ∈ held, ∀ x, h.part.ptr - rbHEADER_SIZE ≤ x → x < h.part.ptr + h.part.size → m' x = m x) :
    ∀ h ∈ held, load m' (h.part.ptr - rbHEADER_SIZE) (rbHEADER_SIZE + h.part.size) = h.bytes := by
  intro h member
  rw [← kept h member]
  apply load_congr
  intro x low high
  have := least h member
  exact frame h member x low (by omega)

theorem HoldInv.ok (inv : HoldInv r F taken waiting) : HoldOk r where
  kept := inv.kept
  empty none_ count := by
    obtain ⟨items, queue⟩ := inv.queue
    have taken_ := inv.some_ none_
    have counted := inv.ring.count
    rw [count] at counted
    have waiting_ := queue_counted queue (by omega)
    subst taken_ waiting_
    have geo := inv.ring.placed.geo
    have enough := geo.enough
    have valid := inv.ring.placed.valid.room
    have aligned := geo.aligned
    have full : r.rb.full = false := by
      rw [inv.ring.full]
      refine decide_eq_false ?_
      show ¬ 0 = r.rb.xSize
      omega
    have free := inv.ring.placed.free
    have write : r.rb.pucWrite = r.rb.pucHead + F := inv.ring.placed.write
    have fits : r.rb.prvCheckItemFitsDefault r.rb.xMaxItemSize = some true := by
      have alignedF := inv.ring.placed.valid.aligned
      unfold Ringbuffer.prvCheckItemFitsDefault configASSERT
      rw [if_pos (by unfold rbAligned; omega),
        if_pos (by unfold Ringbuffer.writeInBounds; rw [geo.tail]; omega)]
      dsimp only
      rw [if_pos (by omega), full]
      rfl
    refine ⟨full, ?_⟩
    unfold Ringbuffer.xCheckItemFits
    cases type : r.rb.type with
    | noSplit => exact fits
    | allowSplit => exact fits
    | byteBuf => exact absurd type geo.items

theorem hold_send (inv : HoldInv r F taken waiting) (item : List (BitVec 8)) :
    ∃ r' waiting', HoldEvent.run r (.send item) = some r' ∧ HoldInv r' F taken waiting' := by
  unfold HoldEvent.run
  dsimp only
  rcases send_spec inv.ring item with refused | ⟨rb', new, sent, carries, same, ring, -, frame⟩
  · rw [refused]
    exact ⟨r, waiting, rfl, inv⟩
  · rw [sent]
    refine ⟨⟨rb', r.held⟩, waiting ++ new, rfl, ring, ?_, ?_, inv.some_, ?_⟩
    · obtain ⟨items, queue⟩ := inv.queue
      exact ⟨_, queue.append carries⟩
    · rw [same.head, same.size]
      exact inv.held
    · apply kept_congr inv.kept
      · intro h member
        exact parts_ptr (inv.heldPart member)
      · intro h member x low high
        exact frame x (inBlocks_append.mpr (.inl (parts_inBlocks (inv.heldPart member) low high)))

theorem hold_receive (inv : HoldInv r F taken waiting) (both : Bool) :
    ∃ r' taken' waiting', (r.rb.prvReceiveGeneric both 0).map r.take = some r' ∧ HoldInv r' F taken' waiting' := by
  obtain ⟨items, queue⟩ := inv.queue
  by_cases none_ : waiting = []
  · subst none_
    rw [receive_nothing inv.ring]
    refine ⟨r, taken, [], ?_, inv⟩
    show some (HoldRun.mk r.rb (r.held ++ [])) = some r
    rw [List.append_nil]
  · obtain ⟨rb', ps, moved, rest, receive, got⟩ := receive_some inv.ring queue none_ both 0
    rw [receive]
    refine ⟨⟨rb', r.held ++ ps.map (holding rb'.memory)⟩, taken ++ moved, rest, rfl, got.inv, ?_, ?_, ?_, ?_⟩
    · obtain ⟨items', later, -⟩ := got.queue
      exact ⟨items', later⟩
    · show List.map Holding.part (r.held ++ ps.map (holding rb'.memory)) = parts rb'.pucHead rb'.xSize F (taken ++ moved)
      rw [got.same.head, got.same.size, parts_append, ← got.parts, List.map_append, inv.held, List.map_map]
      congr 1
      exact List.map_id ps
    · intro empty
      have := (List.append_eq_nil_iff.mp empty).2
      exact absurd (List.map_eq_nil_iff.mp this) got.some_
    · intro h member
      show load rb'.memory _ _ = _
      rw [got.memory]
      rcases List.mem_append.mp member with old | new
      · exact inv.kept h old
      · obtain ⟨p, -, rfl⟩ := List.mem_map.mp new
        rw [got.memory]
        rfl

theorem hold_giveBack (inv : HoldInv r F taken waiting) {ptr : Nat} (allowed : (HoldEvent.giveBack ptr).Allowed r)
    (safe : (HoldEvent.giveBack ptr).Safe r) :
    ∃ r' F' taken', HoldEvent.run r (.giveBack ptr) = some r' ∧ HoldInv r' F' taken' waiting := by
  obtain ⟨h, member, rfl⟩ := List.mem_map.mp allowed
  have held := inv.heldPart member
  have room := inv.ring.takenRoom
  unfold HoldEvent.run
  dsimp only
  by_cases whole : spans r.rb.xSize F taken = r.rb.xSize
  · obtain ⟨none_, full, read, write⟩ := inv.ring.readAll whole
    obtain ⟨h', only⟩ := List.length_eq_one_iff.mp (safe full read)
    rw [only, List.mem_singleton] at member
    subst member
    obtain ⟨before, b, later, split, item, out, place⟩ := parts_block held
    obtain ⟨valid, at_, short⟩ := inv.ring.block split
    have geo := inv.ring.placed.geo
    have free := inv.ring.placed.free
    have still := return_still geo valid at_ item out short read.symm
    rw [place]
    unfold partAt
    dsimp only
    rw [still]
    have gone : (r.held.filter fun g => g.part.ptr ≠ r.rb.pucHead + after r.rb.xSize F before + rbHEADER_SIZE) = [] := by
      rw [only, List.filter_cons_of_neg]
      · rfl
      · rw [place]
        exact fun differ => absurd rfl (of_decide_eq_true differ)
    refine ⟨⟨{ marked r.rb (after r.rb.xSize F before) b with full := false }, []⟩, F, [], ?_, ?_, ?_, rfl, fun _ => rfl,
      nofun⟩
    · rw [Option.map_some, gone]
    · rw [none_]
      apply ringInv_empty
      · exact ⟨geo.items, geo.enough, geo.whole, geo.aligned, geo.tail, geo.below, geo.maximum⟩
      · exact inv.ring.placed.valid
      · exact free
      · exact read.trans free
      · exact write.trans free
      · rfl
      · show r.rb.xItemsWaiting = 0
        rw [inv.ring.count, none_]
        rfl
    · rw [none_]
      exact ⟨[], .nil⟩
  · obtain ⟨rb', F', taken', given, back⟩ := return_spec inv.ring (by omega) held
    rw [given]
    have left : List.map Holding.part (r.held.filter fun g => g.part.ptr ≠ h.part.ptr) =
        parts r.rb.pucHead r.rb.xSize F' taken' := by
      rw [back.parts, ← inv.held, List.filter_map]
      rfl
    have there {g : Holding} (member : g ∈ r.held.filter fun g => g.part.ptr ≠ h.part.ptr) :
        g.part ∈ parts r.rb.pucHead r.rb.xSize F' taken' := by
      rw [← left]
      exact List.mem_map_of_mem member
    refine ⟨⟨rb', r.held.filter fun g => g.part.ptr ≠ h.part.ptr⟩, F', taken', rfl, back.inv, inv.queue, ?_, ?_, ?_⟩
    · rw [back.same.head, back.same.size]
      exact left
    · intro none_
      rw [show (r.held.filter fun g => g.part.ptr ≠ h.part.ptr) = [] from none_] at left
      exact parts_stop back.stop left.symm
    · apply kept_congr
      · intro g member
        exact inv.kept g (List.mem_filter.mp member).1
      · intro g member
        exact parts_ptr (there member)
      · intro g member x low high
        exact back.frame g.part (there member) x low high

theorem hold_step (inv : HoldInv r F taken waiting) {e : HoldEvent} (may : e.Allowed r ∧ e.Safe r) :
    ∃ r', e.run r = some r' ∧ ∃ F' taken' waiting', HoldInv r' F' taken' waiting' := by
  obtain ⟨allowed, safe⟩ := may
  cases e with
  | send item =>
      obtain ⟨r', waiting', run, inv'⟩ := hold_send inv item
      exact ⟨r', run, F, taken, waiting', inv'⟩
  | receive =>
      obtain ⟨r', taken', waiting', run, inv'⟩ := hold_receive inv false
      exact ⟨r', run, F, taken', waiting', inv'⟩
  | receiveSplit =>
      obtain ⟨r', taken', waiting', run, inv'⟩ := hold_receive inv true
      refine ⟨r', ?_, F, taken', waiting', inv'⟩
      have asked : r.rb.xRingbufferReceiveSplit = r.rb.prvReceiveGeneric true 0 := if_pos allowed
      unfold HoldEvent.run
      rw [← asked] at run
      exact run
  | giveBack ptr =>
      obtain ⟨r', F', taken', run, inv'⟩ := hold_giveBack inv allowed safe
      exact ⟨r', run, F', taken', waiting, inv'⟩

theorem holdInv_start (s : Storage) {type : RingbufType} (items : type ≠ .byteBuf) :
    HoldInv (.start (s.create type)) 0 [] [] where
  ring := create_inv s items
  queue := ⟨[], .nil⟩
  held := rfl
  some_ _ := rfl
  kept := nofun

end

/-- Nothing that readers hold is overwritten in any run in which nothing is given back from a full buffer that has
been read to its end while more is held. -/
theorem held_items_kept (s : Storage) {type : RingbufType} (items : type ≠ .byteBuf) (events : List HoldEvent)
    (allowed : EachStep HoldEvent.run HoldEvent.Allowed events (.start (s.create type)))
    (safe : EachStep HoldEvent.run HoldEvent.Safe events (.start (s.create type))) :
    ∃ r, runHold events (.start (s.create type)) = some r ∧ HoldOk r := by
  have makes : ∀ r (e : HoldEvent), (∃ F taken waiting, HoldInv r F taken waiting) → e.Allowed r ∧ e.Safe r →
      ∃ r', e.run r = some r' ∧ ∃ F taken waiting, HoldInv r' F taken waiting := by
    rintro r e ⟨F, taken, waiting, inv⟩ may
    exact hold_step inv may
  obtain ⟨r, run, F, taken, waiting, inv⟩ := runSteps_total makes ⟨0, [], [], holdInv_start s items⟩ (allowed.and safe)
  exact ⟨r, run, inv.ok⟩

def outOfOrder : List HoldEvent :=
  [.send [1, 2, 3, 4], .send [5, 6, 7, 8], .receive, .receive, .giveBack 84, .giveBack 72, .send [9, 10]]

theorem held_items_kept_outOfOrder :
    EachStep HoldEvent.run HoldEvent.Allowed outOfOrder (.start (Storage.small.create .noSplit)) ∧
    EachStep HoldEvent.run HoldEvent.Safe outOfOrder (.start (Storage.small.create .noSplit)) ∧
    ∃ r, runHold outOfOrder (.start (Storage.small.create .noSplit)) = some r ∧ HoldOk r := by
  have allowed : EachStep HoldEvent.run HoldEvent.Allowed outOfOrder (.start (Storage.small.create .noSplit)) := by decide
  have safe : EachStep HoldEvent.run HoldEvent.Safe outOfOrder (.start (Storage.small.create .noSplit)) := by decide
  exact ⟨allowed, safe, held_items_kept Storage.small (by decide) outOfOrder allowed safe⟩

def overwriting : List HoldEvent :=
  [.send [1, 2, 3, 4, 5, 6, 7, 8], .send [9, 10, 11, 12, 13, 14, 15, 16], .receive, .receive, .giveBack 88,
    .send [17, 18, 19, 20]]

theorem held_item_overwritten :
    EachStep HoldEvent.run HoldEvent.Allowed overwriting (.start (Storage.small.create .noSplit)) ∧
    ∃ r, runHold overwriting (.start (Storage.small.create .noSplit)) = some r ∧ ¬ HoldOk r := by
  have some_ : (runHold overwriting (.start (Storage.small.create .noSplit))).isSome := by decide
  refine ⟨by decide, (runHold overwriting (.start (Storage.small.create .noSplit))).get some_,
    (Option.some_get some_).symm, ?_⟩
  intro ok
  have kept := ok.kept
  clear ok
  revert some_
  decide

end EspFirmware.Proof.Rtos
