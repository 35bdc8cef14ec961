import Mathlib.Data.List.Nodup
import Mathlib.Data.Nat.Basic
import EspFirmware.Lib.Ordered
import EspFirmware.Lib.Run
import EspFirmware.Spec.Kernel

/-!
The two delayed lists of the kernel hold the tasks that wait for a time on a clock that does not wrap.
-/

namespace EspFirmware.Proof.Rtos
open EspFirmware.Rtos EspFirmware.Spec EspFirmware.Lib

/-! ## Lists of items -/

def item (x : Timed) : ListItem := ⟨x.task, BitVec.ofNat 32 x.due⟩

theorem item_le {x y : Timed} (same : epoch x.due = epoch y.due) :
    (item x).xItemValue ≤ (item y).xItemValue ↔ x.due ≤ y.due := by
  simp only [epoch, item, BitVec.le_def, BitVec.toNat_ofNat] at *
  omega

theorem walk_items {l : List Timed} {value : TickType} {due : Nat}
    (order : ∀ x ∈ l, (item x).xItemValue ≤ value ↔ x.due ≤ due) :
    (l.map item).takeWhile (fun i => i.xItemValue ≤ value) = (l.takeWhile fun x => x.due ≤ due).map item ∧
      (l.map item).dropWhile (fun i => i.xItemValue ≤ value) = (l.dropWhile fun x => x.due ≤ due).map item :=
  ⟨takeWhile_map_of fun x listed => decide_eq_decide.mpr (order x listed),
    dropWhile_map_of fun x listed => decide_eq_decide.mpr (order x listed)⟩

def Lists (list : List ListItem) (timed : List Timed) : Prop := ∃ l, list = l.map item ∧ Arranged Timed.due l timed

section
variable {list : List ListItem} {timed : List Timed}

theorem Lists.nil : Lists [] [] := ⟨[], rfl, .nil⟩

theorem Lists.eq_nil (lists : Lists list []) : list = [] := by
  obtain ⟨l, rfl, arranged⟩ := lists
  have none_ : ∀ x, x ∉ l := fun x listed => List.not_mem_nil ((arranged.mem x).mp listed)
  rw [List.eq_nil_iff_forall_not_mem.mpr none_, List.map_nil]

theorem Lists.insert (lists : Lists list timed) {x : Timed} (same : ∀ y ∈ timed, epoch y.due = epoch x.due) :
    Lists (vListInsert list (item x)) (timed ++ [x]) := by
  obtain ⟨l, rfl, arranged⟩ := lists
  refine ⟨insertBehind Timed.due x l, ?_, arranged.insert x⟩
  have order : ∀ y ∈ l, (item y).xItemValue ≤ (item x).xItemValue ↔ y.due ≤ x.due := fun y listed =>
    item_le (same y ((arranged.mem y).mp listed))
  rw [vListInsert]
  split
  case isTrue last =>
    -- nothing is behind the largest value
    have all : ∀ y ∈ l, y.due ≤ x.due := by
      intro y listed
      rw [← order y listed, last, BitVec.le_def]
      exact Nat.le_of_lt_succ (item y).xItemValue.isLt
    have whole : l.takeWhile (fun y => y.due ≤ x.due) = l := List.takeWhile_eq_self_iff.mpr (by simpa using all)
    have none_ : l.dropWhile (fun y => y.due ≤ x.due) = [] := List.dropWhile_eq_nil_iff.mpr (by simpa using all)
    simp [insertBehind, whole, none_]
  case isFalse =>
    rw [(walk_items order).1, (walk_items order).2, insertBehind, List.map_append, List.map_cons]

theorem mem_vListInsert (list : List ListItem) (new i : ListItem) : i ∈ vListInsert list new ↔ i = new ∨ i ∈ list := by
  have whole := List.takeWhile_append_dropWhile (p := fun i => decide (i.xItemValue ≤ new.xItemValue)) (l := list)
  rw [vListInsert]
  split
  · simp [or_comm]
  · rw [List.mem_append, List.mem_cons, or_left_comm, ← List.mem_append, whole]

theorem Lists.remove (lists : Lists list timed) (task : Nat) :
    Lists (list.filter fun i => i.owner ≠ task) (timed.filter fun x => x.task ≠ task) := by
  obtain ⟨l, rfl, arranged⟩ := lists
  refine ⟨l.filter fun x => x.task ≠ task, ?_, arranged.filter _⟩
  rw [List.filter_map]
  rfl

theorem Lists.any (lists : Lists list timed) (task : Nat) :
    list.any (fun i => i.owner = task) = true ↔ ∃ x ∈ timed, x.task = task := by
  obtain ⟨l, rfl, arranged⟩ := lists
  rw [List.any_map, List.any_eq_true]
  exact exists_congr fun x => and_congr (arranged.mem x) decide_eq_true_iff

theorem Lists.split (lists : Lists list timed) {now : Nat}
    (ahead : ∀ x ∈ timed, now ≤ x.due ∧ epoch x.due = epoch now) :
    (list.takeWhile fun i => i.xItemValue ≤ BitVec.ofNat 32 now).map ListItem.owner =
        (timed.filter fun x => x.due = now).map Timed.task ∧
      Lists (list.dropWhile fun i => i.xItemValue ≤ BitVec.ofNat 32 now) (timed.filter fun x => x.due ≠ now) := by
  obtain ⟨l, rfl, arranged⟩ := lists
  have least : ∀ x ∈ timed, now ≤ x.due := fun x listed => (ahead x listed).1
  have order : ∀ x ∈ l, (item x).xItemValue ≤ BitVec.ofNat 32 now ↔ x.due ≤ now := fun x listed =>
    item_le (y := ⟨0, now⟩) (ahead x ((arranged.mem x).mp listed)).2
  rw [(walk_items order).1, (walk_items order).2, arranged.takeWhile_least least]
  exact ⟨by simp [item], _, rfl, arranged.dropWhile_least least⟩

end

/-! ## The clock -/

section
variable {c : TickClock}

structure Sound (c : TickClock) : Prop where
  distinct : (c.timed.map Timed.task ++ c.forever).Nodup
  expected : ∀ t ∈ c.called, c.waits t

theorem sound_start : Sound TickClock.start := ⟨List.nodup_nil, by simp [TickClock.start]⟩

theorem Sound.advance (sound : Sound c) (nobody : c.called = []) : Sound c.advance where
  distinct := sound.distinct.sublist ((List.filter_sublist.map _).append (.refl _))
  expected t listed := by
    have : t ∈ c.called := listed
    simp [nobody] at this

theorem waits_advance {t : Nat} (waits : c.waits t) (later : t ∉ c.dueTasks) : c.advance.waits t := by
  rcases waits with ⟨x, listed, rfl⟩ | forever
  · have other : x.due ≠ c.now + 1 := fun due => later (List.mem_map.mpr ⟨x, by simp [listed, due], rfl⟩)
    exact .inl ⟨x, by simp [TickClock.advance, listed, other], rfl⟩
  · exact .inr forever

theorem waits_wait (task : Nat) (ticks : Option Nat) (t : Nat) : (c.wait task ticks).waits t ↔ c.waits t ∨ t = task := by
  cases ticks with
  | some ticks => simp [TickClock.wait, TickClock.waits, or_and_right, exists_or, or_right_comm, eq_comm]
  | none => simp [TickClock.wait, TickClock.waits, or_assoc]

theorem Sound.wait (sound : Sound c) {task : Nat} (new : ¬ c.waits task) (ticks : Option Nat) : Sound (c.wait task ticks) where
  distinct := by
    have apart : task ∉ c.timed.map Timed.task ++ c.forever := by simpa [TickClock.waits] using new
    have whole : (task :: (c.timed.map Timed.task ++ c.forever)).Nodup := List.nodup_cons.mpr ⟨apart, sound.distinct⟩
    cases ticks with
    | some ticks => simpa [TickClock.wait] using List.perm_middle.nodup_iff.mpr whole
    | none => simpa [TickClock.wait] using (List.perm_append_singleton task _).nodup_iff.mpr whole
  expected t listed := by
    have old : t ∈ c.called := by cases ticks <;> exact listed
    exact (waits_wait task ticks t).mpr (.inl (sound.expected t old))

theorem waits_ready (task t : Nat) : (c.ready task).waits t ↔ c.waits t ∧ t ≠ task := by
  have timed : (∃ x ∈ c.timed, x.task ≠ task ∧ x.task = t) ↔ (∃ x ∈ c.timed, x.task = t) ∧ t ≠ task := by
    constructor
    · rintro ⟨x, listed, other, rfl⟩
      exact ⟨⟨x, listed, rfl⟩, other⟩
    · rintro ⟨⟨x, listed, rfl⟩, other⟩
      exact ⟨x, listed, other, rfl⟩
  simp [TickClock.ready, TickClock.waits, and_assoc, or_and_right] at *
  rw [timed]

theorem Sound.ready (sound : Sound c) (task : Nat) : Sound (c.ready task) where
  distinct := sound.distinct.sublist ((List.filter_sublist.map _).append List.filter_sublist)
  expected t listed := by
    simp only [TickClock.ready, List.mem_filter, decide_eq_true_eq] at listed
    exact (waits_ready task t).mpr ⟨sound.expected t listed.1, listed.2⟩

end

/-! ## The tick -/

structure Follows (k : Kernel) (c : TickClock) : Prop where
  at_ : KernelAt k c.now
  current : Lists k.pxDelayedTaskList (c.timed.filter fun x => epoch x.due = epoch c.now)
  overflow : Lists k.pxOverflowDelayedTaskList (c.timed.filter fun x => epoch x.due ≠ epoch c.now)
  forever : k.xSuspendedTaskList = c.forever
  ahead : ∀ x ∈ c.timed, c.now < x.due ∧ x.due < c.now + 2 ^ 32
  next : ∀ i ∈ k.pxDelayedTaskList, k.xNextTaskUnblockTime ≤ i.xItemValue
  called : k.xPendingReadyList = c.called
  suspended : k.uxSchedulerSuspended.toNat = c.suspended
  owed : k.uxPendedTicks.toNat = c.owed
  readied : k.readied = c.readied
  events : ∀ t ∈ k.onEventList, c.waits t ∧ t ∉ c.called
  sound : Sound c

variable {k : Kernel} {c : TickClock}

def overTasks (k : Kernel) (list : List ListItem) : List Nat :=
  (list.takeWhile fun i => i.xItemValue ≤ k.xTickCount).map ListItem.owner

theorem unblock_eq (list : List ListItem) : k.unblock list =
    { k with
      pxDelayedTaskList := list.dropWhile fun i => i.xItemValue ≤ k.xTickCount
      xNextTaskUnblockTime := Kernel.headValue (list.dropWhile fun i => i.xItemValue ≤ k.xTickCount)
      onEventList := k.onEventList.filter fun t => t ∉ overTasks k list
      xPendingReadyList := k.xPendingReadyList.filter fun t => t ∉ overTasks k list
      readied := k.readied ++ overTasks k list } := by
  induction list generalizing k with
  | nil => simp [Kernel.unblock, Kernel.headValue, overTasks]
  | cons i rest ih =>
      by_cases later : k.xTickCount < i.xItemValue
      · have notOver : ¬ i.xItemValue ≤ k.xTickCount := by simpa [BitVec.not_le] using later
        simp [Kernel.unblock, Kernel.headValue, overTasks, later, notOver]
      · have past : i.xItemValue ≤ k.xTickCount := BitVec.not_lt.mp later
        rw [Kernel.unblock, if_neg later, ih]
        simp [Kernel.removeEventItem, Kernel.prvAddTaskToReadyList, overTasks, past, List.filter_filter, Bool.and_comm, not_or]

theorem headValue_le {list : List ListItem} (sorted : list.Pairwise fun i j => i.xItemValue ≤ j.xItemValue) :
    ∀ i ∈ list, Kernel.headValue list ≤ i.xItemValue := by
  cases list with
  | nil => simp
  | cons i rest =>
      rw [List.pairwise_cons] at sorted
      simp only [Kernel.headValue, List.forall_mem_cons]
      exact ⟨BitVec.le_refl _, sorted.1⟩

theorem Lists.sorted {list : List ListItem} {timed : List Timed} (lists : Lists list timed) {now : Nat}
    (same : ∀ x ∈ timed, epoch x.due = epoch now) : list.Pairwise fun i j => i.xItemValue ≤ j.xItemValue := by
  obtain ⟨l, rfl, arranged⟩ := lists
  rw [List.pairwise_map]
  refine arranged.sorted.imp_of_mem fun {x y} first second le => (item_le ?_).mpr le
  rw [same x ((arranged.mem x).mp first), same y ((arranged.mem y).mp second)]

theorem Follows.unblocked (at_ : KernelAt k (c.now + 1))
    (current : Lists k.pxDelayedTaskList (c.timed.filter fun x => epoch x.due = epoch (c.now + 1)))
    (ahead : ∀ x ∈ c.timed, c.now < x.due)
    (next : ∀ i ∈ k.pxDelayedTaskList, k.xNextTaskUnblockTime ≤ i.xItemValue) :
    ∃ list value,
      (if k.xNextTaskUnblockTime ≤ k.xTickCount then k.unblock k.pxDelayedTaskList else k) =
        { k with
          pxDelayedTaskList := list
          xNextTaskUnblockTime := value
          onEventList := k.onEventList.filter fun t => t ∉ c.dueTasks
          xPendingReadyList := k.xPendingReadyList.filter fun t => t ∉ c.dueTasks
          readied := k.readied ++ c.dueTasks } ∧
      Lists list (c.advance.timed.filter fun x => epoch x.due = epoch (c.now + 1)) ∧
      ∀ i ∈ list, value ≤ i.xItemValue := by
  have tick : k.xTickCount = BitVec.ofNat 32 (c.now + 1) := at_.1
  have here : ∀ x ∈ c.timed.filter fun x => epoch x.due = epoch (c.now + 1),
      c.now + 1 ≤ x.due ∧ epoch x.due = epoch (c.now + 1) := by
    intro x listed
    simp only [List.mem_filter, decide_eq_true_eq] at listed
    exact ⟨ahead x listed.1, listed.2⟩
  obtain ⟨past, later⟩ := current.split here
  have all : (c.timed.filter fun x => epoch x.due = epoch (c.now + 1)).filter (fun x => x.due = c.now + 1) =
      c.timed.filter fun x => x.due = c.now + 1 := by
    rw [List.filter_filter]
    refine List.filter_congr fun x _ => ?_
    by_cases now : x.due = c.now + 1 <;> simp [now]
  rw [all, ← tick] at past
  rw [List.filter_comm, ← tick] at later
  have order := later.sorted fun x listed => by simpa using (List.mem_filter.mp listed).2
  by_cases check : k.xNextTaskUnblockTime ≤ k.xTickCount
  · refine ⟨_, _, ?_, later, headValue_le order⟩
    rw [if_pos check, unblock_eq, TickClock.dueTasks, ← past, overTasks]
  · have none_ : ∀ i ∈ k.pxDelayedTaskList, ¬ i.xItemValue ≤ k.xTickCount := fun i listed low =>
      check (BitVec.le_trans (next i listed) low)
    have stays : k.pxDelayedTaskList.takeWhile (fun i => i.xItemValue ≤ k.xTickCount) = [] ∧
        k.pxDelayedTaskList.dropWhile (fun i => i.xItemValue ≤ k.xTickCount) = k.pxDelayedTaskList := by
      cases delayed : k.pxDelayedTaskList with
      | nil => simp
      | cons i rest => simp [none_ i (by simp [delayed])]
    rw [stays.1] at past
    rw [stays.2] at later
    refine ⟨_, k.xNextTaskUnblockTime, ?_, later, next⟩
    rw [if_neg check, TickClock.dueTasks, ← past]
    simp

theorem epoch_cases (now : Nat) :
    (now + 1) % 2 ^ 32 ≠ 0 ∧ epoch (now + 1) = epoch now ∨
      (now + 1) % 2 ^ 32 = 0 ∧ epoch (now + 1) = epoch now + 1 ∧ now % 2 ^ 32 = 2 ^ 32 - 1 := by
  simp only [epoch]
  omega

theorem Follows.runs_iff (follows : Follows k c) : k.uxSchedulerSuspended = 0 ↔ c.suspended = 0 := by
  rw [← follows.suspended, ← BitVec.toNat_inj]
  rfl

theorem Follows.counted (follows : Follows k c) : k.xTickCount + 1 = BitVec.ofNat 32 (c.now + 1) := by
  rw [follows.at_.1, BitVec.ofNat_add]
  rfl

theorem Follows.ahead_advance (follows : Follows k c) :
    ∀ x ∈ c.advance.timed, c.now + 1 < x.due ∧ x.due < c.now + 1 + 2 ^ 32 := by
  intro x listed
  simp only [TickClock.advance, List.mem_filter, decide_eq_true_eq] at listed
  have := follows.ahead x listed.1
  omega

theorem Follows.called_advance (follows : Follows k c) (nobody : c.called = []) :
    k.xPendingReadyList.filter (fun t => t ∉ c.dueTasks) = c.advance.called := by
  rw [follows.called, TickClock.advance, nobody, List.filter_nil]

theorem Follows.events_advance (follows : Follows k c) :
    ∀ t ∈ k.onEventList.filter (fun t => t ∉ c.dueTasks), c.advance.waits t ∧ t ∉ c.advance.called := by
  intro t listed
  simp only [List.mem_filter, decide_eq_true_eq] at listed
  exact ⟨waits_advance (follows.events t listed.1).1 listed.2, (follows.events t listed.1).2⟩

theorem Follows.advance (follows : Follows k c) (running : c.suspended = 0) (nobody : c.called = []) :
    Follows k.xTaskIncrementTick c.advance := by
  have active : k.uxSchedulerSuspended = 0 := follows.runs_iff.mpr running
  have counted := follows.counted
  have wraps : k.xTickCount + 1 = 0 ↔ (c.now + 1) % 2 ^ 32 = 0 := by
    rw [counted, ← BitVec.toNat_inj, BitVec.toNat_ofNat]
    rfl
  rw [Kernel.xTaskIncrementTick, if_pos active]
  simp only
  rcases epoch_cases c.now with ⟨stays, turn⟩ | ⟨wrapped, turn, last⟩
  · rw [if_neg fun zero => stays (wraps.mp zero)]
    have at_ : KernelAt { k with xTickCount := k.xTickCount + 1 } (c.now + 1) := ⟨counted, by rw [turn]; exact follows.at_.2⟩
    obtain ⟨list, value, same, lists, next⟩ := Follows.unblocked at_ (by rw [turn]; exact follows.current)
      (fun x listed => (follows.ahead x listed).1) follows.next
    have overflow : c.advance.timed.filter (fun x => epoch x.due ≠ epoch (c.now + 1)) =
        c.timed.filter fun x => epoch x.due ≠ epoch c.now := by
      rw [turn, TickClock.advance, List.filter_filter]
      refine List.filter_congr fun x _ => ?_
      by_cases now : x.due = c.now + 1 <;> simp [now, turn]
    rw [same]
    exact {
      at_ := at_
      current := lists
      overflow := by
        show Lists _ (c.advance.timed.filter fun x => epoch x.due ≠ epoch (c.now + 1))
        rw [overflow]
        exact follows.overflow
      forever := follows.forever
      ahead := follows.ahead_advance
      next := next
      called := follows.called_advance nobody
      events := follows.events_advance
      sound := follows.sound.advance nobody
      suspended := follows.suspended
      owed := follows.owed
      readied := by rw [TickClock.advance, ← follows.readied] }
  · rw [if_pos (wraps.mpr wrapped)]
    -- every task that waits is on the other list
    have all : ∀ x ∈ c.timed, epoch x.due = epoch (c.now + 1) := by
      intro x listed
      have := follows.ahead x listed
      simp only [epoch] at *
      omega
    have due : c.timed.filter (fun x => epoch x.due = epoch c.now) = [] := by
      rw [List.filter_eq_nil_iff]
      intro x listed
      simp [all x listed, turn]
    have everybody : c.timed.filter (fun x => epoch x.due ≠ epoch c.now) = c.timed := by
      rw [List.filter_eq_self]
      intro x listed
      simp [all x listed, turn]
    have left : k.pxDelayedTaskList = [] := by
      have := follows.current
      rw [due] at this
      exact this.eq_nil
    have waiting := follows.overflow
    rw [everybody] at waiting
    have now_ : c.timed.filter (fun x => epoch x.due = epoch (c.now + 1)) = c.timed := by
      rw [List.filter_eq_self]
      intro x listed
      simp [all x listed]
    have at_ : KernelAt ({ k with xTickCount := k.xTickCount + 1 } : Kernel).switchDelayedLists (c.now + 1) := by
      refine ⟨counted, ?_⟩
      rw [turn, BitVec.ofNat_add]
      show k.xNumOfOverflows + 1 = _
      rw [follows.at_.2]
      rfl
    obtain ⟨list, value, same, lists, next⟩ := Follows.unblocked at_ (by rw [now_]; exact waiting)
      (fun x listed => (follows.ahead x listed).1) (headValue_le (waiting.sorted all))
    rw [same]
    exact {
      at_ := at_
      current := lists
      overflow := by
        have none_ : c.advance.timed.filter (fun x => epoch x.due ≠ epoch (c.now + 1)) = [] := by
          rw [List.filter_eq_nil_iff]
          intro x listed
          simp [all x (List.mem_of_mem_filter listed)]
        show Lists k.pxDelayedTaskList (c.advance.timed.filter fun x => epoch x.due ≠ epoch (c.now + 1))
        rw [none_, left]
        exact .nil
      forever := follows.forever
      ahead := follows.ahead_advance
      next := next
      called := follows.called_advance nobody
      events := follows.events_advance
      sound := follows.sound.advance nobody
      suspended := follows.suspended
      owed := follows.owed
      readied := by
        rw [TickClock.advance, ← follows.readied]
        rfl }

/-! ## Waiting and being ready -/

theorem Follows.blocked (follows : Follows k c) (task : Nat) : k.blocked task ↔ c.waits task := by
  have lists : (k.pxDelayedTaskList ++ k.pxOverflowDelayedTaskList).any (fun i => i.owner = task) ↔
      ∃ x ∈ c.timed, x.task = task := by
    rw [List.any_append, Bool.or_eq_true, follows.current.any, follows.overflow.any]
    constructor
    · rintro (⟨x, listed, same⟩ | ⟨x, listed, same⟩) <;> exact ⟨x, List.mem_of_mem_filter listed, same⟩
    · rintro ⟨x, listed, same⟩
      by_cases now : epoch x.due = epoch c.now
      · exact .inl ⟨x, by simp [listed, now], same⟩
      · exact .inr ⟨x, by simp [listed, now], same⟩
  rw [Kernel.blocked, Bool.or_eq_true, lists, TickClock.waits, follows.forever, List.contains_iff_mem]

theorem Follows.wait (follows : Follows k c) {task : Nat} (new : k.blocked task = false) {xTicksToWait : TickType}
    (some_ : xTicksToWait ≠ 0) (xCanBlockIndefinitely : Bool) :
    Follows (k.prvAddCurrentTaskToDelayedList task xTicksToWait xCanBlockIndefinitely)
      (c.wait task (TickClock.asked xTicksToWait xCanBlockIndefinitely)) := by
  have free : ¬ c.waits task := by
    rw [← follows.blocked, new]
    simp
  have sound := follows.sound.wait free (TickClock.asked xTicksToWait xCanBlockIndefinitely)
  have events : ∀ t ∈ k.onEventList,
      (c.wait task (TickClock.asked xTicksToWait xCanBlockIndefinitely)).waits t ∧ t ∉ c.called := fun t listed =>
    ⟨(waits_wait ..).mpr (.inl (follows.events t listed).1), (follows.events t listed).2⟩
  by_cases indefinite : xTicksToWait = portMAX_DELAY ∧ xCanBlockIndefinitely = true
  · have ticks : TickClock.asked xTicksToWait xCanBlockIndefinitely = none := if_pos indefinite
    rw [ticks] at sound events ⊢
    rw [Kernel.prvAddCurrentTaskToDelayedList, if_pos indefinite]
    exact { follows with forever := by rw [TickClock.wait, ← follows.forever], events, sound }
  · have ticks : TickClock.asked xTicksToWait xCanBlockIndefinitely = some xTicksToWait.toNat := if_neg indefinite
    rw [ticks] at sound events ⊢
    rw [Kernel.prvAddCurrentTaskToDelayedList, if_neg indefinite]
    have positive : 0 < xTicksToWait.toNat := by
      rw [Nat.pos_iff_ne_zero]
      exact fun zero => some_ (BitVec.toNat_inj.mp zero)
    have bound := xTicksToWait.isLt
    let x : Timed := ⟨task, c.now + xTicksToWait.toNat⟩
    have wakes : k.xTickCount + xTicksToWait = (item x).xItemValue := by
      rw [follows.at_.1, item, BitVec.ofNat_add, BitVec.ofNat_toNat, BitVec.setWidth_eq]
    have ahead : ∀ y ∈ c.timed ++ [x], c.now < y.due ∧ y.due < c.now + 2 ^ 32 := by
      intro y listed
      rcases List.mem_append.mp listed with listed | listed
      · exact follows.ahead y listed
      · rw [List.mem_singleton.mp listed]
        exact ⟨Nat.lt_add_of_pos_right positive, Nat.add_lt_add_left bound c.now⟩
    have wrapped : (item x).xItemValue < k.xTickCount ↔ epoch x.due ≠ epoch c.now := by
      simp only [follows.at_.1, item, x, epoch, BitVec.lt_def, BitVec.toNat_ofNat]
      omega
    rw [wakes]
    by_cases other : epoch x.due = epoch c.now
    · rw [if_neg fun wraps => wrapped.mp wraps other]
      have same : ∀ y ∈ c.timed.filter fun y => epoch y.due = epoch c.now, epoch y.due = epoch x.due := by
        intro y listed
        rw [other]
        simpa using (List.mem_filter.mp listed).2
      have here : (c.timed ++ [x]).filter (fun y => epoch y.due = epoch c.now) =
          c.timed.filter (fun y => epoch y.due = epoch c.now) ++ [x] := by simp [other]
      have there : (c.timed ++ [x]).filter (fun y => epoch y.due ≠ epoch c.now) =
          c.timed.filter fun y => epoch y.due ≠ epoch c.now := by simp [other]
      refine { follows with ahead, events, sound, current := ?_, overflow := ?_, next := ?_ }
      · rw [TickClock.wait, here]
        exact follows.current.insert same
      · rw [TickClock.wait, there]
        exact follows.overflow
      · intro i listed
        have first : i = item x ∨ k.xNextTaskUnblockTime ≤ i.xItemValue :=
          ((mem_vListInsert _ _ _).mp listed).imp_right (follows.next i)
        show (if (item x).xItemValue < k.xNextTaskUnblockTime then (item x).xItemValue else k.xNextTaskUnblockTime) ≤ _
        rcases first with rfl | first <;> split <;> simp only [BitVec.le_def, BitVec.lt_def] at * <;> omega
    · rw [if_pos (wrapped.mpr other)]
      have same : ∀ y ∈ c.timed.filter fun y => epoch y.due ≠ epoch c.now, epoch y.due = epoch x.due := by
        intro y listed
        have behind : epoch y.due ≠ epoch c.now := by simpa using (List.mem_filter.mp listed).2
        have := ahead y (List.mem_append_left _ (List.mem_of_mem_filter listed))
        have := ahead x (List.mem_append_right _ List.mem_cons_self)
        simp only [epoch] at *
        omega
      have here : (c.timed ++ [x]).filter (fun y => epoch y.due = epoch c.now) =
          c.timed.filter fun y => epoch y.due = epoch c.now := by simp [other]
      have there : (c.timed ++ [x]).filter (fun y => epoch y.due ≠ epoch c.now) =
          c.timed.filter (fun y => epoch y.due ≠ epoch c.now) ++ [x] := by simp [other]
      refine { follows with ahead, events, sound, current := ?_, overflow := ?_ }
      · rw [TickClock.wait, here]
        exact follows.current
      · rw [TickClock.wait, there]
        exact follows.overflow.insert same

theorem Follows.reset (follows : Follows k c) : Follows k.prvResetNextTaskUnblockTime c :=
  { follows with
    next := headValue_le (follows.current.sorted fun x listed => by simpa using (List.mem_filter.mp listed).2) }

theorem Follows.ready (follows : Follows k c) (task : Nat) :
    Follows (((k.removeEventItem task).removeStateItem task).prvAddTaskToReadyList task) (c.ready task) where
  at_ := follows.at_
  current := by
    rw [TickClock.ready, List.filter_comm]
    exact follows.current.remove task
  overflow := by
    rw [TickClock.ready, List.filter_comm]
    exact follows.overflow.remove task
  forever := by
    rw [TickClock.ready, ← follows.forever]
    rfl
  ahead x listed := follows.ahead x (List.mem_of_mem_filter listed)
  next i listed := follows.next i (List.mem_of_mem_filter listed)
  called := by
    rw [TickClock.ready, ← follows.called]
    rfl
  suspended := follows.suspended
  owed := follows.owed
  readied := by
    rw [TickClock.ready, ← follows.readied]
    rfl
  events t listed := by
    have other := List.mem_filter.mp listed
    have waits := follows.events t other.1
    refine ⟨(waits_ready task t).mpr ⟨waits.1, by simpa using other.2⟩, fun called => waits.2 ?_⟩
    exact List.mem_of_mem_filter called
  sound := follows.sound.ready task

theorem Follows.readyPending (follows : Follows k c) (tasks : List Nat) :
    Follows (k.readyPending tasks) (tasks.foldl TickClock.ready c) := by
  induction tasks generalizing k c with
  | nil => exact follows
  | cons task rest ih => exact ih (follows.ready task)

theorem Follows.unwindTicks (follows : Follows k c) (running : c.suspended = 0) (nobody : c.called = []) (count : Nat) :
    Follows (k.unwindTicks count) (c.advances count) := by
  induction count generalizing k c with
  | zero => exact follows
  | succ count ih => exact ih (follows.advance running nobody) running nobody

theorem ready_kept (tasks : List Nat) (c : TickClock) :
    (tasks.foldl TickClock.ready c).now = c.now ∧ (tasks.foldl TickClock.ready c).owed = c.owed ∧
      (tasks.foldl TickClock.ready c).suspended = c.suspended := by
  induction tasks generalizing c with
  | nil => exact ⟨rfl, rfl, rfl⟩
  | cons task rest ih => exact ih (c.ready task)

theorem ready_called (tasks : List Nat) (c : TickClock) :
    (tasks.foldl TickClock.ready c).called = c.called.filter fun t => t ∉ tasks := by
  induction tasks generalizing c with
  | nil => simp
  | cons task rest ih =>
      rw [List.foldl_cons, ih]
      simp [TickClock.ready, List.filter_filter, not_or, Bool.and_comm]

theorem advances_kept (c : TickClock) (count : Nat) :
    (c.advances count).now = c.now + count ∧ (c.advances count).called = c.called ∧
      (c.advances count).suspended = c.suspended := by
  induction count generalizing c with
  | zero => exact ⟨rfl, rfl, rfl⟩
  | succ count ih =>
      obtain ⟨now, called, suspended⟩ := ih c.advance
      refine ⟨?_, called, suspended⟩
      rw [TickClock.advances, now]
      show c.now + 1 + count = _
      omega

theorem resumed_called (c : TickClock) : (c.called.foldl TickClock.ready c).called = [] := by
  rw [ready_called, List.filter_eq_nil_iff]
  simp

theorem Follows.resume (follows : Follows k c) (suspended : k.uxSchedulerSuspended ≠ 0) :
    Follows k.xTaskResumeAll c.resume := by
  have one : 1 ≤ k.uxSchedulerSuspended.toNat := by
    rw [Nat.one_le_iff_ne_zero]
    exact fun zero => suspended (BitVec.toNat_inj.mp zero)
  have less : Follows { k with uxSchedulerSuspended := k.uxSchedulerSuspended - 1 }
      { c with suspended := c.suspended - 1 } :=
    { follows with
      suspended := by rw [BitVec.toNat_sub_of_le one, follows.suspended]; rfl
      sound := ⟨follows.sound.distinct, follows.sound.expected⟩ }
  have readied : ∀ tasks, tasks = c.called →
      Follows (({ k with uxSchedulerSuspended := k.uxSchedulerSuspended - 1 } : Kernel).readyPending tasks)
        (c.called.foldl TickClock.ready { c with suspended := c.suspended - 1 }) := by
    rintro tasks rfl
    exact less.readyPending c.called
  rw [Kernel.xTaskResumeAll, TickClock.resume]
  dsimp only
  by_cases last : c.suspended - 1 = 0
  · rw [if_pos (less.runs_iff.mpr last), if_pos last]
    have settled : Follows (if k.xPendingReadyList = [] then
        ({ k with uxSchedulerSuspended := k.uxSchedulerSuspended - 1 } : Kernel).readyPending
          k.xPendingReadyList
        else (({ k with uxSchedulerSuspended := k.uxSchedulerSuspended - 1 } : Kernel).readyPending
          k.xPendingReadyList).prvResetNextTaskUnblockTime)
        (c.called.foldl TickClock.ready { c with suspended := c.suspended - 1 }) := by
      split
      · exact readied _ follows.called
      · exact (readied _ follows.called).reset
    have unwound := settled.unwindTicks ((ready_kept _ _).2.2.trans last) (resumed_called { c with suspended := c.suspended - 1 })
      (c.called.foldl TickClock.ready { c with suspended := c.suspended - 1 }).owed
    rw [settled.owed]
    exact { unwound with owed := rfl, sound := ⟨unwound.sound.distinct, unwound.sound.expected⟩ }
  · rw [if_neg fun zero => last (less.runs_iff.mp zero), if_neg last]
    exact less

/-! ## Runs -/

def Quiet (c : TickClock) : Prop := c.suspended = 0 → c.called = []

theorem Quiet.resume (c : TickClock) : Quiet c.resume := by
  intro running
  rw [TickClock.resume] at *
  dsimp only at *
  by_cases last : c.suspended - 1 = 0
  · rw [if_pos last]
    exact (advances_kept _ _).2.1.trans (resumed_called { c with suspended := c.suspended - 1 })
  · rw [if_neg last] at running
    exact absurd running last

theorem Quiet.wait (quiet : Quiet c) (task : Nat) (ticks : Option Nat) : Quiet (c.wait task ticks) := by
  cases ticks <;> exact quiet

theorem Quiet.ready (quiet : Quiet c) (task : Nat) : Quiet (c.ready task) := by
  intro running
  rw [TickClock.ready, quiet running]
  rfl

theorem wait_called (c : TickClock) (task : Nat) (ticks : Option Nat) : (c.wait task ticks).called = c.called := by
  cases ticks <;> rfl

theorem Follows.place (follows : Follows k c) {task : Nat} (new : k.blocked task = false) {xTicksToWait : TickType}
    (some_ : xTicksToWait ≠ 0) :
    Follows (k.vTaskPlaceOnEventList task xTicksToWait) (c.wait task (TickClock.asked xTicksToWait true)) := by
  have placed : k.vTaskPlaceOnEventList task xTicksToWait =
      { k.prvAddCurrentTaskToDelayedList task xTicksToWait true with onEventList := k.onEventList ++ [task] } := by
    simp only [Kernel.vTaskPlaceOnEventList, Kernel.prvAddCurrentTaskToDelayedList]
    split
    · rfl
    · split <;> rfl
  have kept : (k.prvAddCurrentTaskToDelayedList task xTicksToWait true).onEventList = k.onEventList := by
    simp only [Kernel.prvAddCurrentTaskToDelayedList]
    split
    · rfl
    · split <;> rfl
  have waits := follows.wait new some_ true
  have free : task ∉ c.called := by
    intro listed
    have blocked := (follows.blocked task).mpr (follows.sound.expected task listed)
    rw [new] at blocked
    cases blocked
  rw [placed]
  refine { waits with events := ?_ }
  intro t listed
  rcases List.mem_append.mp listed with old | one
  · exact waits.events t (by rw [kept]; exact old)
  · rw [List.mem_singleton.mp one, wait_called]
    exact ⟨(waits_wait ..).mpr (.inr rfl), free⟩

theorem removeEventItem_other {task : Nat} (event : task ∉ k.onEventList) (pending : task ∉ k.xPendingReadyList) :
    k.removeEventItem task = k := by
  have first : k.onEventList.filter (fun t => t ≠ task) = k.onEventList :=
    List.filter_eq_self.mpr fun t listed => decide_eq_true fun same => event (same ▸ listed)
  have second : k.xPendingReadyList.filter (fun t => t ≠ task) = k.xPendingReadyList :=
    List.filter_eq_self.mpr fun t listed => decide_eq_true fun same => pending (same ▸ listed)
  rw [Kernel.removeEventItem, first, second]

theorem Follows.event (follows : Follows k c) (quiet : Quiet c) {task : Nat} (waiting : task ∈ k.onEventList) :
    Follows (k.xTaskRemoveFromEventList task) (c.step (.xTaskRemoveFromEventList task)) ∧
      Quiet (c.step (.xTaskRemoveFromEventList task)) := by
  obtain ⟨waits, uncalled⟩ := follows.events task waiting
  rw [Kernel.xTaskRemoveFromEventList, TickClock.step]
  by_cases running : c.suspended = 0
  · rw [if_pos (show (k.removeEventItem task).uxSchedulerSuspended = 0 from follows.runs_iff.mpr running),
      if_pos running]
    exact ⟨(follows.ready task).reset, quiet.ready task⟩
  · rw [if_neg fun zero : (k.removeEventItem task).uxSchedulerSuspended = 0 =>
      running (follows.runs_iff.mp zero), if_neg running]
    have pending : k.xPendingReadyList.filter (fun t => t ≠ task) = c.called := by
      rw [follows.called]
      exact List.filter_eq_self.mpr fun t listed => decide_eq_true fun same => uncalled (same ▸ listed)
    have called : Follows { k.removeEventItem task with xPendingReadyList := (k.removeEventItem task).xPendingReadyList ++ [task] }
        { c with called := c.called ++ [task] } :=
      { follows with
        called := congrArg (· ++ [task]) pending
        events := by
          intro t listed
          have other := List.mem_filter.mp listed
          have old := follows.events t other.1
          have ne : t ≠ task := by simpa using other.2
          exact ⟨old.1, by simp [old.2, ne]⟩
        sound := ⟨follows.sound.distinct, by
          intro t listed
          rcases List.mem_append.mp listed with old | one
          · exact follows.sound.expected t old
          · rw [List.mem_singleton.mp one]
            exact waits⟩ }
    exact ⟨called.reset, fun zero => absurd zero running⟩

theorem toNat_succ {n : UBaseType_t} (room : n ≠ 0xFFFFFFFF) : (n + 1).toNat = n.toNat + 1 := by
  have other : n.toNat ≠ 0xFFFFFFFF := fun same => room (BitVec.toNat_inj.mp same)
  have bound := n.isLt
  have one : (1 : UBaseType_t).toNat = 1 := rfl
  rw [BitVec.toNat_add, one]
  omega

theorem Follows.step (follows : Follows k c) (quiet : Quiet c) {e : KernelEvent} (counted : CountersFit k e) {k' : Kernel}
    (made : e.run k = some k') : Follows k' (c.step e) ∧ Quiet (c.step e) := by
  cases e with
  | xTaskIncrementTick =>
      cases made
      rw [TickClock.step]
      by_cases running : c.suspended = 0
      · rw [if_pos running]
        exact ⟨follows.advance running (quiet running), fun _ => quiet running⟩
      · have held : k.xTaskIncrementTick = { k with uxPendedTicks := k.uxPendedTicks + 1 } :=
          if_neg fun zero => running (follows.runs_iff.mp zero)
        have room := counted.resolve_left fun zero => running (follows.runs_iff.mp zero)
        rw [if_neg running, held]
        exact ⟨{ follows with
          owed := by rw [toNat_succ room, follows.owed]
          sound := ⟨follows.sound.distinct, follows.sound.expected⟩ }, quiet⟩
  | vTaskSuspendAll =>
      cases made
      exact ⟨{ follows with
        suspended := by rw [Kernel.vTaskSuspendAll, toNat_succ counted, follows.suspended]; rfl
        sound := ⟨follows.sound.distinct, follows.sound.expected⟩ }, fun zero => absurd zero (Nat.succ_ne_zero _)⟩
  | xTaskResumeAll =>
      rw [KernelEvent.run] at made
      split at made
      · cases made
      case isFalse suspended =>
        cases made
        exact ⟨follows.resume suspended, Quiet.resume c⟩
  | prvAddCurrentTaskToDelayedList task xTicksToWait xCanBlockIndefinitely =>
      rw [KernelEvent.run] at made
      split at made
      · cases made
      case isFalse can =>
        cases made
        obtain ⟨new, some_⟩ := not_or.mp can
        exact ⟨follows.wait (Bool.eq_false_iff.mpr new) some_ _, quiet.wait task _⟩
  | vTaskPlaceOnEventList task xTicksToWait =>
      rw [KernelEvent.run] at made
      split at made
      · cases made
      case isFalse can =>
        cases made
        obtain ⟨new, some_⟩ := not_or.mp can
        exact ⟨follows.place (Bool.eq_false_iff.mpr new) some_, quiet.wait task _⟩
  | xTaskRemoveFromEventList task =>
      rw [KernelEvent.run] at made
      split at made
      case isTrue waiting =>
        cases made
        exact follows.event quiet waiting
      · cases made
  | xTaskGenericNotify task =>
      rw [KernelEvent.run] at made
      split at made
      case isTrue waiting =>
        cases made
        have same : k.removeEventItem task = k := removeEventItem_other waiting.2.1 waiting.2.2
        have ready := follows.ready task
        rw [same] at ready
        exact ⟨ready.reset, quiet.ready task⟩
      · cases made

theorem Follows.start : Follows Kernel.start TickClock.start where
  at_ := ⟨rfl, rfl⟩
  current := .nil
  overflow := .nil
  forever := rfl
  ahead := by simp [TickClock.start]
  next := by simp [Kernel.start]
  called := rfl
  suspended := rfl
  owed := rfl
  readied := rfl
  events := by simp [Kernel.start]
  sound := sound_start

theorem Follows.run (follows : Follows k c) (quiet : Quiet c) {events : List KernelEvent}
    (counted : EachStep KernelEvent.run CountersFit events k) {k' : Kernel} (run : runSteps KernelEvent.run events k = some k') :
    Follows k' (events.foldl TickClock.step c) ∧ Quiet (events.foldl TickClock.step c) := by
  induction events generalizing k c with
  | nil =>
      cases run
      exact ⟨follows, quiet⟩
  | cons e rest ih =>
      rw [runSteps_cons] at run
      obtain ⟨middle, made, later⟩ := Option.bind_eq_some_iff.mp run
      obtain ⟨next, still⟩ := follows.step quiet counted.1 made
      exact ih next still (counted.2 middle made) later

/-! ## One wait -/

inductive Awaits (task due count : Nat) (c : TickClock) : Prop
  | waits (before : c.now < due) (listed : ⟨task, due⟩ ∈ c.timed) (same : c.readied.count task = count)
  | ready (past : due ≤ c.now) (gone : ¬ c.waits task) (once : c.readied.count task = count + 1)

section
variable {task due count : Nat}

theorem Sound.unique (sound : Sound c) {x y : Timed} (first : x ∈ c.timed) (second : y ∈ c.timed) (same : x.task = y.task) :
    x = y := List.inj_on_of_nodup_map (List.nodup_append.mp sound.distinct).1 first second same

theorem count_dueTasks_of_waits (sound : Sound c) (listed : ⟨task, due⟩ ∈ c.timed) :
    c.dueTasks.count task = if due = c.now + 1 then 1 else 0 := by
  have distinct : c.dueTasks.Nodup :=
    (List.nodup_append.mp sound.distinct).1.sublist (List.filter_sublist.map Timed.task)
  split
  case isTrue now =>
    exact List.count_eq_one_of_mem distinct
      (List.mem_map.mpr ⟨⟨task, due⟩, List.mem_filter.mpr ⟨listed, decide_eq_true now⟩, rfl⟩)
  case isFalse other =>
    refine List.count_eq_zero.mpr fun member => ?_
    obtain ⟨y, there, same⟩ := List.mem_map.mp member
    simp only [List.mem_filter, decide_eq_true_eq] at there
    have equal := sound.unique there.1 listed same
    rw [equal] at there
    exact other there.2

theorem waits_of_advance (waits : c.advance.waits task) : c.waits task := by
  rcases waits with ⟨x, listed, same⟩ | forever
  · exact .inl ⟨x, List.mem_of_mem_filter listed, same⟩
  · exact .inr forever

theorem Awaits.advance (awaits : Awaits task due count c) (sound : Sound c) : Awaits task due count c.advance := by
  cases awaits with
  | waits before listed same =>
      have readied : c.advance.readied.count task = count + if due = c.now + 1 then 1 else 0 := by
        rw [TickClock.advance, List.count_append, same, count_dueTasks_of_waits sound listed]
      by_cases now : due = c.now + 1
      · rw [if_pos now] at readied
        refine .ready now.le ?_ readied
        rintro (⟨y, there, same⟩ | forever)
        · simp only [TickClock.advance, List.mem_filter, decide_eq_true_eq] at there
          rw [sound.unique there.1 listed same] at there
          exact there.2 now
        · exact (List.nodup_append.mp sound.distinct).2.2 task (List.mem_map.mpr ⟨_, listed, rfl⟩) task forever rfl
      · rw [if_neg now] at readied
        refine .waits (show c.now + 1 < due by omega) ?_ readied
        simp [TickClock.advance, listed, now]
  | ready past gone once =>
      have none_ : c.dueTasks.count task = 0 := by
        refine List.count_eq_zero.mpr fun member => gone ?_
        obtain ⟨y, there, same⟩ := List.mem_map.mp member
        exact .inl ⟨y, List.mem_of_mem_filter there, same⟩
      refine .ready (past.trans (Nat.le_succ _)) (fun waits => gone (waits_of_advance waits)) ?_
      rw [TickClock.advance, List.count_append, none_, once]

theorem Awaits.of_same {c' : TickClock} (awaits : Awaits task due count c) (now : c'.now = c.now)
    (timed : c'.timed = c.timed) (forever : c'.forever = c.forever) (readied : c'.readied = c.readied) :
    Awaits task due count c' := by
  cases awaits with
  | waits before listed same => exact .waits (now ▸ before) (timed ▸ listed) (readied ▸ same)
  | ready past gone once =>
      refine .ready (now ▸ past) ?_ (readied ▸ once)
      rw [TickClock.waits, timed, forever]
      exact gone

theorem Awaits.advances (awaits : Awaits task due count c) (sound : Sound c) (nobody : c.called = []) (n : Nat) :
    Awaits task due count (c.advances n) := by
  induction n generalizing c with
  | zero => exact awaits
  | succ n ih => exact ih (awaits.advance sound) (sound.advance nobody) nobody

theorem Awaits.other (awaits : Awaits task due count c) {t : Nat} (other : t ≠ task) : Awaits task due count (c.ready t) := by
  have readied : (c.ready t).readied.count task = c.readied.count task := by
    rw [TickClock.ready, List.count_append, List.count_singleton]
    simp [other]
  cases awaits with
  | waits before listed same => exact .waits before (by simp [TickClock.ready, listed, other.symm]) (readied.trans same)
  | ready past gone once =>
      exact .ready past (fun waits => gone ((waits_ready t task).mp waits).1) (readied.trans once)

theorem Awaits.others (awaits : Awaits task due count c) {tasks : List Nat} (others : task ∉ tasks) :
    Awaits task due count (tasks.foldl TickClock.ready c) := by
  induction tasks generalizing c with
  | nil => exact awaits
  | cons t rest ih =>
      obtain ⟨first, later⟩ := List.ne_and_not_mem_of_not_mem_cons others
      exact ih (awaits.other first.symm) later

theorem Awaits.wait (awaits : Awaits task due count c) {t : Nat} (other : t ≠ task) (ticks : Option Nat) :
    Awaits task due count (c.wait t ticks) := by
  cases awaits with
  | waits before listed same =>
      cases ticks with
      | some ticks => exact .waits before (List.mem_append_left _ listed) same
      | none => exact .waits before listed same
  | ready past gone once =>
      have still : ¬ (c.wait t ticks).waits task := fun waits =>
        ((waits_wait t ticks task).mp waits).elim gone other.symm
      cases ticks <;> exact .ready past still once

structure Alone (task due count : Nat) (c : TickClock) : Prop where
  awaits : Awaits task due count c
  uncalled : task ∉ c.called

theorem Sound.readies (sound : Sound c) (tasks : List Nat) : Sound (tasks.foldl TickClock.ready c) := by
  induction tasks generalizing c with
  | nil => exact sound
  | cons t rest ih => exact ih (sound.ready t)

theorem Alone.resume (alone : Alone task due count c) (sound : Sound c) : Alone task due count c.resume := by
  have less : Awaits task due count { c with suspended := c.suspended - 1 } := alone.awaits.of_same rfl rfl rfl rfl
  have sound' : Sound { c with suspended := c.suspended - 1 } := ⟨sound.distinct, sound.expected⟩
  rw [TickClock.resume]
  dsimp only
  split
  · have readied := (less.others alone.uncalled).advances (sound'.readies c.called)
      (resumed_called { c with suspended := c.suspended - 1 })
      (c.called.foldl TickClock.ready { c with suspended := c.suspended - 1 }).owed
    refine ⟨readied.of_same rfl rfl rfl rfl, ?_⟩
    · show task ∉ (TickClock.advances _ _).called
      rw [(advances_kept _ _).2.1, resumed_called { c with suspended := c.suspended - 1 }]
      exact List.not_mem_nil
  · exact ⟨less, alone.uncalled⟩

theorem Alone.step (alone : Alone task due count c) (sound : Sound c) {e : KernelEvent}
    (other : taskOf e ≠ some task) : Alone task due count (c.step e) := by
  cases e with
  | xTaskIncrementTick =>
      rw [TickClock.step]
      split
      · exact ⟨alone.awaits.advance sound, alone.uncalled⟩
      · exact ⟨alone.awaits.of_same rfl rfl rfl rfl, alone.uncalled⟩
  | vTaskSuspendAll =>
      exact ⟨alone.awaits.of_same rfl rfl rfl rfl, alone.uncalled⟩
  | xTaskResumeAll => exact alone.resume sound
  | prvAddCurrentTaskToDelayedList t xTicksToWait xCanBlockIndefinitely =>
      have ne : t ≠ task := fun same => other (congrArg some same)
      refine ⟨alone.awaits.wait ne _, ?_⟩
      rw [TickClock.step, wait_called]
      exact alone.uncalled
  | vTaskPlaceOnEventList t xTicksToWait =>
      have ne : t ≠ task := fun same => other (congrArg some same)
      refine ⟨alone.awaits.wait ne _, ?_⟩
      rw [TickClock.step, wait_called]
      exact alone.uncalled
  | xTaskRemoveFromEventList t =>
      have ne : t ≠ task := fun same => other (congrArg some same)
      rw [TickClock.step]
      split
      · exact ⟨alone.awaits.other ne, fun listed => alone.uncalled (List.mem_of_mem_filter listed)⟩
      · exact ⟨alone.awaits.of_same rfl rfl rfl rfl, by simp [alone.uncalled, ne.symm]⟩
  | xTaskGenericNotify t =>
      have ne : t ≠ task := fun same => other (congrArg some same)
      exact ⟨alone.awaits.other ne, fun listed => alone.uncalled (List.mem_of_mem_filter listed)⟩

end

theorem ticks_counted (c : TickClock) (e : KernelEvent) :
    (c.step e).now + (c.step e).owed = c.now + c.owed + if e = .xTaskIncrementTick then 1 else 0 := by
  have wait (task : Nat) (ticks : Option Nat) : (c.wait task ticks).now + (c.wait task ticks).owed = c.now + c.owed := by
    cases ticks <;> rfl
  cases e with
  | xTaskIncrementTick =>
      rw [TickClock.step, if_pos rfl]
      split
      · show c.now + 1 + c.owed = _
        omega
      · rfl
  | vTaskSuspendAll => rfl
  | xTaskResumeAll =>
      have other : ¬ KernelEvent.xTaskResumeAll = .xTaskIncrementTick := fun same => by cases same
      rw [TickClock.step, TickClock.resume, if_neg other]
      split
      · obtain ⟨now, owed, _⟩ := ready_kept c.called { c with suspended := c.suspended - 1 }
        show (TickClock.advances _ _).now + 0 = _
        rw [(advances_kept _ _).1, now, owed]
      · rfl
  | prvAddCurrentTaskToDelayedList task xTicksToWait xCanBlockIndefinitely => exact wait ..
  | vTaskPlaceOnEventList task xTicksToWait => exact wait ..
  | xTaskRemoveFromEventList task =>
      rw [TickClock.step]
      split <;> rfl
  | xTaskGenericNotify task => rfl

theorem Follows.await {task due count : Nat} (follows : Follows k c) (quiet : Quiet c) (alone : Alone task due count c)
    {events : List KernelEvent} (others : ∀ e ∈ events, taskOf e ≠ some task)
    (counted : EachStep KernelEvent.run CountersFit events k) {k' : Kernel} (run : runSteps KernelEvent.run events k = some k') :
    ∃ c', Follows k' c' ∧ Awaits task due count c' ∧
      c'.now + c'.owed = c.now + c.owed + events.count .xTaskIncrementTick := by
  induction events generalizing k c with
  | nil =>
      cases run
      exact ⟨c, follows, alone.awaits, rfl⟩
  | cons e rest ih =>
      rw [runSteps_cons] at run
      obtain ⟨middle, made, later⟩ := Option.bind_eq_some_iff.mp run
      obtain ⟨next, still⟩ := follows.step quiet counted.1 made
      rw [List.forall_mem_cons] at others
      obtain ⟨c', follows', awaits, ticks⟩ :=
        ih next still (alone.step follows.sound others.1) others.2 (counted.2 middle made) later
      refine ⟨c', follows', awaits, ?_⟩
      rw [ticks, ticks_counted, List.count_cons]
      simp only [beq_iff_eq]
      omega

theorem delays_follow_clock {events : List KernelEvent} (run : runSteps KernelEvent.run events Kernel.start = some k)
    (counted : EachStep KernelEvent.run CountersFit events Kernel.start) :
    let c := events.foldl TickClock.step TickClock.start
    KernelAt k c.now ∧ k.readied = c.readied ∧ ∀ task, k.blocked task ↔ c.waits task := by
  obtain ⟨follows, _⟩ := Follows.start.run (fun _ => rfl) counted run
  exact ⟨follows.at_, follows.readied, follows.blocked⟩

def delayAndEvent : List KernelEvent :=
  [.vTaskSuspendAll, .prvAddCurrentTaskToDelayedList 1 2 false, .xTaskIncrementTick, .xTaskResumeAll,
    .vTaskPlaceOnEventList 2 portMAX_DELAY, .xTaskIncrementTick, .xTaskRemoveFromEventList 2]

theorem delays_follow_clock_event : ∃ k, runSteps KernelEvent.run delayAndEvent Kernel.start = some k ∧
    KernelAt k (delayAndEvent.foldl TickClock.step TickClock.start).now ∧
    k.readied = (delayAndEvent.foldl TickClock.step TickClock.start).readied := by
  have some_ : (runSteps KernelEvent.run delayAndEvent Kernel.start).isSome := by decide
  have follows := delays_follow_clock (Option.some_get some_).symm (by decide)
  exact ⟨_, (Option.some_get some_).symm, follows.1, follows.2.1⟩

theorem delay_lasts {before after : List KernelEvent} {task : Nat} {xTicksToWait : TickType} {xCanBlockIndefinitely : Bool}
    {k₀ : Kernel} (first : runSteps KernelEvent.run before Kernel.start = some k₀)
    (rest : runSteps KernelEvent.run
      (.prvAddCurrentTaskToDelayedList task xTicksToWait xCanBlockIndefinitely :: after) k₀ = some k)
    (bounded : ¬ (xTicksToWait = portMAX_DELAY ∧ xCanBlockIndefinitely = true))
    (others : ∀ e ∈ after, taskOf e ≠ some task)
    (counted : EachStep KernelEvent.run CountersFit
      (before ++ .prvAddCurrentTaskToDelayedList task xTicksToWait xCanBlockIndefinitely :: after) Kernel.start) :
    let ended := xTicksToWait.toNat + k.uxPendedTicks.toNat ≤ after.count .xTaskIncrementTick + k₀.uxPendedTicks.toNat
    (k.blocked task = true ↔ ¬ ended) ∧ k.readied.count task = k₀.readied.count task + if ended then 1 else 0 := by
  intro ended
  obtain ⟨follows, quiet⟩ := Follows.start.run (fun _ => rfl) counted.front first
  have counted := counted.back first
  rw [runSteps_cons] at rest
  obtain ⟨waiting, made, later⟩ := Option.bind_eq_some_iff.mp rest
  obtain ⟨next, still⟩ := follows.step quiet counted.1 made
  generalize before.foldl TickClock.step TickClock.start = c at *
  have free : task ∉ c.called := by
    intro listed
    have blocked := (follows.blocked task).mpr (follows.sound.expected task listed)
    rw [KernelEvent.run, if_pos (.inl blocked)] at made
    cases made
  rw [TickClock.step, TickClock.asked, if_neg bounded] at next still
  have alone : Alone task (c.now + xTicksToWait.toNat) (k₀.readied.count task) (c.wait task (some xTicksToWait.toNat)) := by
    refine ⟨.waits ?_ (List.mem_append_right _ List.mem_cons_self) (by rw [follows.readied]; rfl), free⟩
    exact (next.ahead _ (List.mem_append_right _ List.mem_cons_self)).1
  obtain ⟨c', follows', awaits, ticks⟩ := next.await still alone others (counted.2 waiting made) later
  have total : c'.now + k.uxPendedTicks.toNat = c.now + k₀.uxPendedTicks.toNat + after.count .xTaskIncrementTick := by
    rw [follows'.owed, follows.owed]
    exact ticks
  cases awaits with
  | waits before listed same =>
      have early : ¬ ended := by omega
      refine ⟨iff_of_true ((follows'.blocked task).mpr (.inl ⟨_, listed, rfl⟩)) early, ?_⟩
      rw [if_neg early, follows'.readied, same]
      rfl
  | ready past gone once =>
      have late : ended := by omega
      refine ⟨iff_of_false (fun blocked => gone ((follows'.blocked task).mp blocked)) (not_not_intro late), ?_⟩
      rw [if_pos late, follows'.readied, once]

theorem delay_lasts_suspended : ∃ k, runSteps KernelEvent.run
      [.vTaskSuspendAll, .prvAddCurrentTaskToDelayedList 1 2 false, .xTaskIncrementTick, .xTaskResumeAll,
        .xTaskIncrementTick] Kernel.start = some k ∧ k.readied.count 1 = 1 := by
  have first : runSteps KernelEvent.run [.vTaskSuspendAll] Kernel.start = some Kernel.start.vTaskSuspendAll := rfl
  have some_ : (runSteps KernelEvent.run [.prvAddCurrentTaskToDelayedList 1 2 false, .xTaskIncrementTick, .xTaskResumeAll,
      .xTaskIncrementTick] Kernel.start.vTaskSuspendAll).isSome := by decide
  have lasts := delay_lasts first (Option.some_get some_).symm (by decide) (by decide) (by decide)
  have ended : ((runSteps KernelEvent.run [.prvAddCurrentTaskToDelayedList 1 2 false, .xTaskIncrementTick, .xTaskResumeAll,
      .xTaskIncrementTick] Kernel.start.vTaskSuspendAll).get some_).uxPendedTicks = 0 := by decide +revert
  refine ⟨_, (Option.some_get some_).symm, ?_⟩
  rw [lasts.2, ended]
  decide

/-! ## Periods -/

theorem previousWake_eq (start : Nat) (xTimeIncrement : TickType) (calls : Nat → Nat) (n : Nat) :
    previousWake start xTimeIncrement calls n = BitVec.ofNat 32 (start + n * xTimeIncrement.toNat) := by
  induction n with
  | zero => simp [previousWake]
  | succ n ih =>
      have wake : previousWake start xTimeIncrement calls (n + 1) =
          previousWake start xTimeIncrement calls n + xTimeIncrement := rfl
      rw [wake, ih, Nat.succ_mul, ← Nat.add_assoc, BitVec.ofNat_add (start + n * xTimeIncrement.toNat),
        BitVec.ofNat_toNat, BitVec.setWidth_eq]

theorem vTaskDelayUntil_eq {previous now : Nat} {xTimeIncrement : TickType} (some_ : xTimeIncrement ≠ 0)
    (after : previous ≤ now) (before : now < previous + 2 ^ 32) :
    (vTaskDelayUntil (BitVec.ofNat 32 now) (BitVec.ofNat 32 previous) xTimeIncrement).2 =
      if now < previous + xTimeIncrement.toNat then some (BitVec.ofNat 32 (previous + xTimeIncrement.toNat - now))
      else none := by
  have positive : 0 < xTimeIncrement.toNat := by
    rw [Nat.pos_iff_ne_zero]
    exact fun zero => some_ (BitVec.toNat_inj.mp zero)
  have bound := xTimeIncrement.isLt
  have wake : (BitVec.ofNat 32 previous + xTimeIncrement).toNat = (previous + xTimeIncrement.toNat) % 2 ^ 32 := by
    rw [BitVec.toNat_add, BitVec.toNat_ofNat]
    omega
  rw [vTaskDelayUntil]
  simp only [BitVec.lt_def, wake, BitVec.toNat_ofNat]
  by_cases later : now < previous + xTimeIncrement.toNat
  · rw [if_pos later]
    have delays : if now % 2 ^ 32 < previous % 2 ^ 32 then
        (previous + xTimeIncrement.toNat) % 2 ^ 32 < previous % 2 ^ 32 ∧ now % 2 ^ 32 < (previous + xTimeIncrement.toNat) % 2 ^ 32
        else (previous + xTimeIncrement.toNat) % 2 ^ 32 < previous % 2 ^ 32 ∨
          now % 2 ^ 32 < (previous + xTimeIncrement.toNat) % 2 ^ 32 := by
      split <;> omega
    rw [if_pos delays]
    congr 1
    apply BitVec.eq_of_toNat_eq
    rw [BitVec.toNat_sub, wake, BitVec.toNat_ofNat, BitVec.toNat_ofNat]
    omega
  · rw [if_neg later]
    have goesOn : ¬ if now % 2 ^ 32 < previous % 2 ^ 32 then
        (previous + xTimeIncrement.toNat) % 2 ^ 32 < previous % 2 ^ 32 ∧ now % 2 ^ 32 < (previous + xTimeIncrement.toNat) % 2 ^ 32
        else (previous + xTimeIncrement.toNat) % 2 ^ 32 < previous % 2 ^ 32 ∨
          now % 2 ^ 32 < (previous + xTimeIncrement.toNat) % 2 ^ 32 := by
      split <;> omega
    rw [if_neg goesOn]

theorem period_kept {start : Nat} {xTimeIncrement : TickType} (some_ : xTimeIncrement ≠ 0) {calls : Nat → Nat}
    (late : ∀ n, start + n * xTimeIncrement.toNat ≤ calls n ∧ calls n < start + n * xTimeIncrement.toNat + 2 ^ 32) (n : Nat) :
    (vTaskDelayUntil (BitVec.ofNat 32 (calls n)) (previousWake start xTimeIncrement calls n) xTimeIncrement).2 =
      if calls n < start + (n + 1) * xTimeIncrement.toNat then
        some (BitVec.ofNat 32 (start + (n + 1) * xTimeIncrement.toNat - calls n))
      else none := by
  rw [previousWake_eq, vTaskDelayUntil_eq some_ (late n).1 (late n).2, Nat.succ_mul, ← Nat.add_assoc]

/-- The second period ends after the tick count has wrapped. -/
theorem period_kept_wrap :
    (vTaskDelayUntil (BitVec.ofNat 32 4294967293) (previousWake 4294967280 10 (fun n => 4294967280 + n * 10 + 3) 1) 10).2 =
      some 7 :=
  @period_kept 4294967280 10 (by decide) (fun n => 4294967280 + n * 10 + 3)
    (fun n => ⟨Nat.le_add_right _ 3, Nat.add_lt_add_left (by decide) _⟩) 1

/-! ## Time-outs -/

theorem check_eq {start now : Nat} (at_ : KernelAt k now) (order : start ≤ now) (gap : now < start + 2 ^ 32)
    {pxTicksToWait : TickType} (finite : pxTicksToWait ≠ portMAX_DELAY) :
    xTaskCheckForTimeOut k ⟨BitVec.ofNat 32 (epoch start), BitVec.ofNat 32 start⟩ pxTicksToWait =
      if start + pxTicksToWait.toNat ≤ now then (true, ⟨BitVec.ofNat 32 (epoch start), BitVec.ofNat 32 start⟩, 0)
      else (false, vTaskSetTimeOutState k, pxTicksToWait - BitVec.ofNat 32 (now - start)) := by
  have elapsed : k.xTickCount - BitVec.ofNat 32 start = BitVec.ofNat 32 (now - start) := by
    apply BitVec.eq_of_toNat_eq
    rw [at_.1, BitVec.toNat_sub, BitVec.toNat_ofNat, BitVec.toNat_ofNat, BitVec.toNat_ofNat]
    omega
  -- the count of wraps has changed only where the tick count has become smaller
  have around : ¬ (k.xNumOfOverflows ≠ BitVec.ofNat 32 (epoch start) ∧ BitVec.ofNat 32 start ≤ k.xTickCount) := by
    rintro ⟨wrapped, notLess⟩
    rw [at_.2] at wrapped
    rw [at_.1, BitVec.le_def, BitVec.toNat_ofNat, BitVec.toNat_ofNat] at notLess
    have differ : epoch now ≠ epoch start := fun same => wrapped (congrArg _ same)
    simp only [epoch] at differ
    omega
  have less : (BitVec.ofNat 32 (now - start)).toNat = now - start := by
    rw [BitVec.toNat_ofNat]
    omega
  have early : BitVec.ofNat 32 (now - start) < pxTicksToWait ↔ ¬ start + pxTicksToWait.toNat ≤ now := by
    rw [BitVec.lt_def, less]
    omega
  rw [xTaskCheckForTimeOut]
  simp only
  rw [if_neg finite, if_neg around, elapsed]
  by_cases ended : start + pxTicksToWait.toNat ≤ now
  · rw [if_neg fun before => early.mp before ended, if_pos ended]
  · rw [if_pos (early.mpr ended), if_neg ended]

theorem gives_up_in_time {kernelAt : Nat → Kernel} (at_ : ∀ t, KernelAt (kernelAt t) t) {start : Nat} {xTicksToWait : TickType}
    (finite : xTicksToWait ≠ portMAX_DELAY) {checks : List Nat}
    (soon : (start :: checks).IsChain fun s t => s ≤ t ∧ t < s + 2 ^ 32) :
    givesUp kernelAt (vTaskSetTimeOutState (kernelAt start)) xTicksToWait checks =
      checks.find? fun t => start + xTicksToWait.toNat ≤ t := by
  induction checks generalizing start xTicksToWait with
  | nil => rfl
  | cons t rest ih =>
      rw [List.isChain_cons_cons] at soon
      obtain ⟨⟨order, gap⟩, later⟩ := soon
      have state : vTaskSetTimeOutState (kernelAt start) = ⟨BitVec.ofNat 32 (epoch start), BitVec.ofNat 32 start⟩ := by
        rw [vTaskSetTimeOutState, (at_ start).1, (at_ start).2]
      rw [givesUp, state, check_eq (at_ t) order gap finite, List.find?_cons]
      by_cases ended : start + xTicksToWait.toNat ≤ t
      · simp [ended]
      · have bound := xTicksToWait.isLt
        have left : (xTicksToWait - BitVec.ofNat 32 (t - start)).toNat = xTicksToWait.toNat - (t - start) := by
          rw [BitVec.toNat_sub, BitVec.toNat_ofNat]
          omega
        have still : xTicksToWait - BitVec.ofNat 32 (t - start) ≠ portMAX_DELAY := by
          intro same
          have whole : xTicksToWait.toNat ≠ portMAX_DELAY.toNat := fun same => finite (BitVec.toNat_inj.mp same)
          have value : portMAX_DELAY.toNat = 2 ^ 32 - 1 := rfl
          rw [← BitVec.toNat_inj, left] at same
          omega
        have deadline : t + (xTicksToWait.toNat - (t - start)) = start + xTicksToWait.toNat := by omega
        simp only [ended, if_false, decide_false]
        rw [ih still later, left, deadline]
        rfl

/-- The tick count wraps between two checks. -/
theorem gives_up_in_time_wrap :
    givesUp (fun t => { Kernel.start with xTickCount := BitVec.ofNat 32 t, xNumOfOverflows := BitVec.ofNat 32 (epoch t) })
      ⟨0, BitVec.ofNat 32 4294967290⟩ 8 [4294967292, 4294967299, 4294967305] = some 4294967299 :=
  @gives_up_in_time _ (fun t => ⟨rfl, rfl⟩) 4294967290 8 (by decide) [4294967292, 4294967299, 4294967305] (by simp)

end EspFirmware.Proof.Rtos
