import EspFirmware.Proof.Heap.Tidy

/-!
What each call does to the heap and its live allocations, and what therefore holds in every run.
-/

namespace EspFirmware.Proof.Heap
open EspFirmware.Lib Memory EspFirmware.Heap EspFirmware.Spec

variable {n : Nat} {regions : Fin n → HeapRegion} {h : HeapCaps n} {bs : Fin n → List Blk} {live : List Alloc}

theorem inHeader_append {a : Nat} {as cs : List Blk} {x : Nat} :
    InHeader a (as ++ cs) x ↔ InHeader a as x ∨ InHeader (a + total as) cs x := by
  induction as generalizing a with
  | nil => simp [InHeader]
  | cons b as ih => simp only [List.cons_append, InHeader, ih, total_cons, Nat.add_assoc, or_assoc]

theorem header_outside (inv : HeapInv h bs) {num : Fin n} {ptr room : Nat} (member : PtrIn h bs num (ptr, room))
    (i : Fin n) {x : Nat} (inside : InHeader (memStart (h.region i)) (bs i) x ∨
      (memEnd (h.region i) ≤ x ∧ x < memEnd (h.region i) + 8)) : x < ptr ∨ ptr + room ≤ x := by
  have range := ptrIn_bounds inv member
  dsimp only at range
  by_cases here : i = num
  · subst here
    obtain ⟨pre, b, post, split, -, place⟩ := ptrsOf_split member
    have run := (inv.regions i).linked.1
    rw [split] at run inside
    rw [run_append] at run
    obtain ⟨before, block, after⟩ := run
    have roomB := block.room
    injection place with atPtr atRoom
    rcases inside with header | last
    · rcases inHeader_append.mp header with inPre | inBlock | inPost
      · have := inHeader_bounds before inPre
        omega
      · omega
      · have := (inHeader_bounds after inPost).1
        omega
    · omega
  · have mine := header_in_region (inv.regions i) inside
    have bounds := (inv.regions num).bounds
    have low := bounds.low
    have high := bounds.high
    rcases inv.apart i num here with before | after <;> omega

theorem HeapInv.written (inv : HeapInv h bs) {num : Fin n} {ptr room : Nat} (member : PtrIn h bs num (ptr, room))
    {m' : Memory} (frame : Frame h.memory m' ptr (ptr + room)) : HeapInv { h with memory := m' } bs :=
  ⟨fun i => regionInv_congr (inv.regions i) fun x inside => frame x (header_outside inv member i inside), inv.apart⟩

theorem LiveInv.written (live_ : LiveInv h bs live) (m' : Memory) : LiveInv { h with memory := m' } bs live :=
  ⟨live_.given, live_.distinct⟩

def MinStep (h h' : HeapCaps n) : Prop :=
  ∀ num, (h'.region num).minFreeBytes = min (h.region num).minFreeBytes (h'.region num).freeBytes

def MinBelow (h : HeapCaps n) : Prop := ∀ num, (h.region num).minFreeBytes ≤ (h.region num).freeBytes

theorem MinBelow.refl (below : MinBelow h) : MinStep h h := fun num => (Nat.min_eq_left (below num)).symm

structure Malloced (h h' : HeapCaps n) (bs bs' : Fin n → List Blk) (live : List Alloc) (ptr size : Nat) (caps : Word) :
    Prop where
  inv : HeapInv h' bs'
  live : LiveInv h' bs' (if ptr ≠ 0 then ⟨ptr, size, caps⟩ :: live else live)
  min : MinStep h h'
  room : ptr ≠ 0 → ∃ num room, PtrIn h' bs' num (ptr, room) ∧ size ≤ room

theorem mallocFrom_taken (inv : HeapInv h bs) (live_ : LiveInv h bs live) (below : MinBelow h) {num : Fin n}
    {size : Nat} {caps : Word} {h' : HeapCaps n} {pre post : List Blk} {s k : Nat}
    (room : size + memBlkHeadSize h.trace ≤ k) (split : bs num = pre ++ freeBlock s :: post) (fits : k ≤ s)
    (hasCaps : (h.region num).caps &&& caps = caps)
    (moved : Moved h h' num (pre ++ (taken s k h.trace ++ post)))
    (minimum : (h'.region num).minFreeBytes = min (h.region num).minFreeBytes (h'.region num).freeBytes) :
    Malloced h h' bs (Function.update bs num (pre ++ (taken s k h.trace ++ post))) live
      (memStart (h.region num) + total pre + memBlkHeadSize h.trace) size caps := by
  have bounds := (inv.regions num).bounds
  have positive := bounds.positive
  have run := (inv.regions num).linked.1
  rw [split, run_append] at run
  obtain ⟨before, block, after⟩ := run
  rw [size_freeBlock] at after
  have sizeTaken : k ≤ takenSize s k h.trace := by
    unfold takenSize
    split
    · exact Nat.le_refl k
    · exact fits
  have newPtr : PtrIn h' (Function.update bs num (pre ++ (taken s k h.trace ++ post))) num
      (memStart (h.region num) + total pre + memBlkHeadSize h.trace,
        takenSize s k h.trace - memBlkHeadSize h.trace) := by
    rw [PtrIn, Function.update_self, moved.same.memStart, ptrsOf_append, ptrsOf_taken fits]
    exact List.mem_append_right _ List.mem_cons_self
  have kept : ∀ i x, PtrIn h bs i x → PtrIn h' (Function.update bs num (pre ++ (taken s k h.trace ++ post))) i x := by
    intro i x old
    by_cases here : i = num
    · subst here
      rw [PtrIn, split, ptrsOf_append, ptrsOf_free rfl, size_freeBlock] at old
      rw [PtrIn, Function.update_self, moved.same.memStart, ptrsOf_append, ptrsOf_taken fits]
      rcases List.mem_append.mp old with early | late
      · exact List.mem_append_left _ early
      · exact List.mem_append_right _ (List.mem_cons_of_mem _ late)
    · rw [PtrIn, Function.update_of_ne here, (moved.sameRegion i).memStart]
      exact old
  have fresh : memStart (h.region num) + total pre + memBlkHeadSize h.trace ∉ live.map Alloc.ptr := by
    intro member
    obtain ⟨a, old, same⟩ := List.mem_map.mp member
    obtain ⟨i, room', oldPtr, -, -⟩ := live_.given a old
    have range := ptrIn_bounds inv oldPtr
    dsimp only at range
    have end_ := (inv.regions num).end_
    rw [split, total_append, total_cons, size_freeBlock] at end_
    by_cases here : i = num
    · subst here
      rw [PtrIn, split, ptrsOf_append, ptrsOf_free rfl, size_freeBlock] at oldPtr
      have head := head_ge ⟨0, true, h.trace⟩
      rw [Blk.head] at head
      dsimp only at head
      rcases List.mem_append.mp oldPtr with early | late
      · have := (ptrsOf_bounds before early).2
        dsimp only at this
        omega
      · have := (ptrsOf_bounds after late).1
        dsimp only at this
        omega
    · have mine := (inv.regions i).bounds
      have low := mine.low
      have high := mine.high
      have low' := bounds.low
      have high' := bounds.high
      rcases inv.apart i num here with first | second <;> omega
  refine ⟨inv.moved moved, ?_, ?_, fun _ => ⟨num, _, newPtr, by omega⟩⟩
  · rw [if_pos (by omega)]
    constructor
    · intro a member
      rcases List.mem_cons.mp member with rfl | old
      · refine ⟨num, _, newPtr, by dsimp only; omega, ?_⟩
        rw [moved.same.caps]
        exact hasCaps
      · obtain ⟨i, room', oldPtr, enough, capable⟩ := live_.given a old
        refine ⟨i, room', kept i _ oldPtr, enough, ?_⟩
        rw [(moved.sameRegion i).caps]
        exact capable
    · rw [List.map_cons, List.nodup_cons]
      exact ⟨fresh, live_.distinct⟩
  · intro i
    by_cases here : i = num
    · rw [here]
      exact minimum
    · rw [moved.others i here]
      exact below.refl i

def given (live : List Alloc) (ptr size : Nat) (caps : Word) : List Alloc :=
  if ptr ≠ 0 then ⟨ptr, size, caps⟩ :: live else live

theorem Malloced.none (inv : HeapInv h bs) (live_ : LiveInv h bs live) (below : MinBelow h) (size : Nat)
    (caps : Word) : Malloced h h bs bs live 0 size caps := by
  refine ⟨inv, ?_, below.refl, fun nonzero => absurd rfl nonzero⟩
  rw [if_neg (not_not_intro rfl)]
  exact live_

theorem mallocLoop_counted (inv : HeapInv h bs) (live_ : LiveInv h bs live) (tidy : Tidy regions h bs live)
    (below : MinBelow h) {size : Nat} (counted : size + memBlkHeadSize h.trace + 3 < 2 ^ 32) (caps file line : Word)
    (nums : List (Fin n)) :
    ∃ h' ptr bs', mallocLoop size caps file line nums h = some (h', ptr) ∧
      Malloced h h' bs bs' live ptr size caps ∧ Tidy regions h' bs' (given live ptr size caps) := by
  induction nums with
  | nil => exact ⟨h, 0, bs, rfl, .none inv live_ below size caps, tidy⟩
  | cons num rest ih =>
      rcases mallocFrom_spec (inv.regions num) counted caps file line with none_ | found
      · obtain ⟨h', ptr, bs', eq, result⟩ := ih
        refine ⟨h', ptr, bs', ?_, result⟩
        rw [mallocLoop, none_]
        exact eq
      · obtain ⟨h', pre, s, post, eq, split, fits, hasCaps, moved, minimum⟩ := found
        have positive := (inv.regions num).bounds.positive
        have result := mallocFrom_taken inv live_ below (ptr2memblkSize_eq counted).1 split fits hasCaps moved minimum
        refine ⟨h', _, _, ?_, result, ?_⟩
        · rw [mallocLoop, eq]
          dsimp only
          rw [if_pos (by omega)]
        · rw [given, if_pos (by omega)]
          exact tidy.taken split fits moved size caps

theorem mallocLoop_refused (inv : HeapInv h bs) {size : Nat} {caps : Word}
    (tooSmall : ∀ num, (h.region num).caps &&& caps = caps → TooSmall (bs num) (ptr2memblkSize size h.trace))
    (file line : Word) (nums : List (Fin n)) : mallocLoop size caps file line nums h = some (h, 0) := by
  induction nums with
  | nil => rfl
  | cons num rest ih =>
      rcases mallocFrom_cases (inv.regions num) size caps file line with
        ⟨refused, -⟩ | ⟨pre, s, post, split, fits, hasCaps, -⟩
      · rw [mallocLoop, refused]
        exact ih
      · have small := tooSmall num hasCaps (freeBlock s) (by rw [split]; simp) rfl
        rw [size_freeBlock] at small
        omega

theorem mallocLoop_null (inv : HeapInv h bs) {size : Nat} {caps file line : Word} {nums : List (Fin n)}
    {h' : HeapCaps n} (null : mallocLoop size caps file line nums h = some (h', 0)) :
    ∀ num ∈ nums, (h.region num).caps &&& caps = caps → TooSmall (bs num) (ptr2memblkSize size h.trace) := by
  induction nums with
  | nil =>
      intro num none
      cases none
  | cons num rest ih =>
      intro i member hasCaps
      rcases mallocFrom_cases (inv.regions num) size caps file line with
        ⟨refused, tooSmall⟩ | ⟨pre, s, post, -, -, -, found⟩
      · rw [mallocLoop, refused] at null
        cases member with
        | head => exact tooSmall hasCaps
        | tail _ member => exact ih null i member hasCaps
      · have positive := (inv.regions num).bounds.positive
        rw [mallocLoop, found] at null
        cases taken : takeFound num (memStart (h.region num) + total pre) (ptr2memblkSize size h.trace) file line h with
        | none =>
            rw [taken] at null
            cases null
        | some result =>
            have ptr := takeFound_ptr taken
            rw [taken] at null
            dsimp only at null
            rw [if_pos (by omega)] at null
            have isNull := congrArg Prod.snd (Option.some.inj null)
            dsimp only at isNull
            omega

def Sized (h : HeapCaps n) (bs : Fin n → List Blk) (bytes : Nat) (caps : Word) : Prop :=
  bytes + memBlkHeadSize h.trace + 3 < 2 ^ 32 ∨
    ∀ num, (h.region num).caps &&& caps = caps → TooSmall (bs num) (ptr2memblkSize (wrap bytes) h.trace)

theorem heapCapsMalloc_spec (inv : HeapInv h bs) (live_ : LiveInv h bs live) (tidy : Tidy regions h bs live)
    (below : MinBelow h) {bytes : Nat} {caps : Word} (sized : Sized h bs bytes caps) (file line : Word) :
    ∃ h' ptr bs', heapCapsMalloc (wrap bytes) caps file line h = some (h', ptr) ∧
      Malloced h h' bs bs' live ptr bytes caps ∧ Tidy regions h' bs' (given live ptr bytes caps) := by
  rcases sized with counted | tooSmall
  · have whole : wrap bytes = bytes := Nat.mod_eq_of_lt (by omega)
    rw [whole]
    exact mallocLoop_counted inv live_ tidy below counted caps file line _
  · exact ⟨h, 0, bs, mallocLoop_refused inv tooSmall file line _, .none inv live_ below bytes caps, tidy⟩

theorem Malloced.written {h' : HeapCaps n} {bs' : Fin n → List Blk} {ptr size : Nat} {caps : Word}
    (result : Malloced h h' bs bs' live ptr size caps) {m' : Memory} (given : ptr ≠ 0)
    (frame : Frame h'.memory m' ptr (ptr + size)) :
    Malloced h { h' with memory := m' } bs bs' live ptr size caps := by
  obtain ⟨num, room, member, enough⟩ := result.room given
  exact ⟨result.inv.written member (frame.mono (Nat.le_refl ptr) (by omega)), result.live.written m',
    result.min, result.room⟩

theorem heapCapsZalloc_spec (inv : HeapInv h bs) (live_ : LiveInv h bs live) (tidy : Tidy regions h bs live)
    (below : MinBelow h) {bytes : Nat} {caps : Word} (sized : Sized h bs bytes caps) (file line : Word) :
    ∃ h' ptr bs', heapCapsZalloc (wrap bytes) caps file line h = some (h', ptr) ∧
      Malloced h h' bs bs' live ptr bytes caps ∧ Tidy regions h' bs' (given live ptr bytes caps) := by
  obtain ⟨h', ptr, bs', eq, result, tidy'⟩ := heapCapsMalloc_spec inv live_ tidy below sized file line
  have le : wrap bytes ≤ bytes := Nat.mod_le _ _
  unfold heapCapsZalloc
  rw [eq]
  dsimp only
  by_cases given : ptr ≠ 0
  · rw [if_pos given]
    refine ⟨_, ptr, bs', rfl, result.written given fun x outside => fill_other _ _ ?_, tidy'.written _⟩
    omega
  · rw [if_neg given]
    exact ⟨h', ptr, bs', rfl, result, tidy'⟩

theorem reallocCopy_spec (inv : HeapInv h bs) (live_ : LiveInv h bs live) (tidy : Tidy regions h bs live) (below : MinBelow h)
    (mem : Nat) {bytes : Nat} {caps : Word} (sized : Sized h bs bytes caps) (file line : Word) :
    ∃ h' ptr bs', reallocCopy mem (wrap bytes) caps file line h = some (h', ptr) ∧
      Malloced h h' bs bs' live ptr bytes caps ∧ Tidy regions h' bs' (given live ptr bytes caps) := by
  obtain ⟨h', ptr, bs', eq, result, tidy'⟩ := heapCapsMalloc_spec inv live_ tidy below sized file line
  have le : wrap bytes ≤ bytes := Nat.mod_le _ _
  unfold reallocCopy
  rw [eq]
  dsimp only
  by_cases given : ptr ≠ 0 ∧ mem ≠ 0
  · rw [if_pos given]
    refine ⟨_, ptr, bs', rfl, result.written given.1 fun x outside => copy_other _ ?_, tidy'.written _⟩
    omega
  · rw [if_neg given]
    exact ⟨h', ptr, bs', rfl, result, tidy'⟩

theorem ptrIsTraced_eq {m : Memory} {prev a : Nat} {b : Blk} (at_ : BlkAt m prev a b)
    (small : a + b.size < 2 ^ 31) : ptrIsTraced m (a + b.head) = b.traced := by
  unfold ptrIsTraced
  cases traced : b.traced with
  | true =>
      have place : a + b.head - 4 = a + 12 := by
        rw [head_traced traced]
        omega
      rw [place, MEM_BLK_TRACE, at_.line traced]
      decide
  | false =>
      have place : a + b.head - 4 = a + 4 := by
        rw [head_untraced traced]
        omega
      rw [place, MEM_BLK_TRACE, at_.next, traced, link_and_top small]
      decide

theorem heapCapsFree_spec (inv : HeapInv h bs) (live_ : LiveInv h bs live) (tidy : Tidy regions h bs live) (below : MinBelow h)
    {ptr : Nat} (valid : ptr = 0 ∨ ptr ∈ live.map Alloc.ptr) :
    ∃ bs', HeapInv (heapCapsFree ptr h) bs' ∧
      LiveInv (heapCapsFree ptr h) bs' (live.filter fun a => a.ptr ≠ ptr) ∧ MinStep h (heapCapsFree ptr h) ∧
      Tidy regions (heapCapsFree ptr h) bs' (live.filter fun a => a.ptr ≠ ptr) := by
  by_cases null : ptr = 0
  · have nothing : heapCapsFree ptr h = h := by
      unfold heapCapsFree
      rw [if_pos null]
    have sublist : (live.filter fun a => a.ptr ≠ ptr).Sublist live := List.filter_sublist
    rw [nothing]
    refine ⟨bs, inv, ⟨fun a member => live_.given a (sublist.subset member), ?_⟩, below.refl, ?_⟩
    · exact live_.distinct.sublist (sublist.map _)
    · rw [null]
      exact tidy.nothing inv
  · have given : ptr ∈ live.map Alloc.ptr := valid.resolve_left null
    obtain ⟨a, member, same⟩ := List.mem_map.mp given
    obtain ⟨num, room, inRegion, -, -⟩ := live_.given a member
    rw [same] at inRegion
    have region := getBlkRegion_eq inv inRegion
    obtain ⟨pre, b, post, split, used, place⟩ := ptrsOf_split inRegion
    injection place with atPtr atRoom
    have inv' := inv.regions num
    rw [split] at inv'
    have limit := inv'.bounds.limit
    have high := inv'.bounds.high
    have end_ := inv'.end_
    rw [total_append, total_cons] at end_
    have blocks := inv'.linked.1
    rw [run_append] at blocks
    obtain ⟨before, block, after⟩ := blocks
    have smallPrev : lastAddr 0 (memStart (h.region num)) pre < 2 ^ 31 := by
      have := lastAddr_le (Nat.zero_le (memStart (h.region num))) pre
      omega
    have traced : ptrIsTraced h.memory ptr = b.traced := by
      rw [atPtr]
      exact ptrIsTraced_eq block (by omega)
    have blk : ptr2blk ptr b.traced = memStart (h.region num) + total pre := by
      rw [atPtr, ptr2blk]
      exact Nat.add_sub_cancel _ _
    have freed : heapCapsFree ptr h = freeIn num (memStart (h.region num) + total pre) h := by
      unfold heapCapsFree
      rw [if_neg null, region]
      dsimp only
      rw [traced, blk, memBlkIsUsed_eq block smallPrev, used, if_pos rfl]
    obtain ⟨moved, minimum, grows⟩ := freeIn_spec inv' used
    rw [freed]
    refine ⟨_, inv.moved moved, ⟨?_, ?_⟩, ?_, ?_⟩
    · intro c kept
      obtain ⟨old, other⟩ := List.mem_filter.mp kept
      obtain ⟨i, room', oldPtr, enough, capable⟩ := live_.given c old
      refine ⟨i, room', ?_, enough, by rw [(moved.sameRegion i).caps]; exact capable⟩
      by_cases here : i = num
      · subst here
        rw [PtrIn, Function.update_self, moved.same.memStart, ptrsOf_joined]
        rw [PtrIn, split, ptrsOf_append, ptrsOf_used used] at oldPtr
        rcases List.mem_append.mp oldPtr with early | late
        · exact List.mem_append_left _ early
        · rcases List.mem_cons.mp late with this_ | later
          · injection this_ with samePtr
            rw [← atPtr] at samePtr
            simp [samePtr] at other
          · exact List.mem_append_right _ later
      · rw [PtrIn, Function.update_of_ne here, (moved.sameRegion i).memStart]
        exact oldPtr
    · exact live_.distinct.sublist (List.filter_sublist.map _)
    · intro i
      by_cases here : i = num
      · have := below num
        rw [here, minimum, Nat.min_eq_left (by omega)]
      · rw [moved.others i here]
        exact below.refl i
    · rw [atPtr]
      exact tidy.joined inv split used moved

structure Minima (h : HeapCaps n) (history : List (HeapCaps n)) : Prop where
  current : h ∈ history
  reached : ∀ num, ∃ h' ∈ history, (h'.region num).freeBytes = (h.region num).minFreeBytes
  least : ∀ num, ∀ h' ∈ history, (h.region num).minFreeBytes ≤ (h'.region num).freeBytes

theorem Minima.below {history : List (HeapCaps n)} (minima : Minima h history) : MinBelow h :=
  fun num => minima.least num h minima.current

theorem Minima.step {history : List (HeapCaps n)} {h' : HeapCaps n} (minima : Minima h history)
    (step : MinStep h h') : Minima h' (h' :: history) where
  current := List.mem_cons_self
  reached num := by
    rcases Nat.le_total (h.region num).minFreeBytes (h'.region num).freeBytes with old | new
    · obtain ⟨early, member, same⟩ := minima.reached num
      exact ⟨early, List.mem_cons_of_mem _ member, by rw [step num, Nat.min_eq_left old, same]⟩
    · exact ⟨h', List.mem_cons_self, by rw [step num, Nat.min_eq_right new]⟩
  least num early member := by
    rw [step num]
    rcases List.mem_cons.mp member with rfl | old
    · exact Nat.min_le_right _ _
    · exact Nat.le_trans (Nat.min_le_left _ _) (minima.least num early old)

structure RunInv (run : HeapRun n) (bs : Fin n → List Blk) : Prop where
  heap : HeapInv run.heap bs
  live : LiveInv run.heap bs run.live
  minima : Minima run.heap run.history

structure TidyRun (regions : Fin n → HeapRegion) (run : HeapRun n) (bs : Fin n → List Blk) : Prop where
  inv : RunInv run bs
  tidy : Tidy regions run.heap bs run.live

theorem TidyRun.malloced {run : HeapRun n} {bs bs' : Fin n → List Blk} {h' : HeapCaps n} {ptr size : Nat} {caps : Word}
    (before : TidyRun regions run bs) (result : Malloced run.heap h' bs bs' run.live ptr size caps)
    (tidy : Tidy regions h' bs' (given run.live ptr size caps)) : TidyRun regions ((run.moveTo h').give ptr size caps) bs' := by
  have minima := before.inv.minima.step result.min
  have live_ := result.live
  unfold HeapRun.give
  unfold given at tidy
  by_cases given : ptr ≠ 0
  · rw [if_pos given] at live_ tidy ⊢
    exact ⟨⟨result.inv, live_, minima⟩, tidy⟩
  · rw [if_neg given] at live_ tidy ⊢
    exact ⟨⟨result.inv, live_, minima⟩, tidy⟩

theorem TidyRun.freed {run : HeapRun n} {bs : Fin n → List Blk} (before : TidyRun regions run bs) {ptr : Nat}
    (valid : ptr = 0 ∨ ptr ∈ run.live.map Alloc.ptr) :
    ∃ bs', TidyRun regions ((run.moveTo (heapCapsFree ptr run.heap)).takeBack ptr) bs' := by
  have inv := before.inv
  obtain ⟨bs', heap, live_, step, tidy⟩ := heapCapsFree_spec inv.heap inv.live before.tidy inv.minima.below valid
  exact ⟨bs', ⟨heap, live_, inv.minima.step step⟩, tidy⟩

def EventSized (run : HeapRun n) (bs : Fin n → List Blk) : HeapEvent → Prop
  | .malloc size caps _ _ => size < 2 ^ 32 ∧ Sized run.heap bs size caps
  | .zalloc size caps _ _ => size < 2 ^ 32 ∧ Sized run.heap bs size caps
  | .calloc count size caps _ _ => Sized run.heap bs (count * size) caps
  | .realloc mem newsize caps _ _ =>
      newsize < 2 ^ 32 ∧ Sized run.heap bs newsize caps ∧ (mem = 0 ∨ mem ∈ run.live.map Alloc.ptr)
  | .free ptr => HeapEvent.Allowed run (.free ptr)
  | .trace on => HeapEvent.Allowed run (.trace on)
  | .write address byte => HeapEvent.Allowed run (.write address byte)

theorem sized_of_small {bytes : Nat} (small : bytes < 2 ^ 31) (caps : Word) : Sized h bs bytes caps := by
  have head : memBlkHeadSize h.trace ≤ 16 := by
    cases h.trace <;> decide
  exact .inl (by omega)

theorem eventSized_of_allowed {run : HeapRun n} {e : HeapEvent} (allowed : HeapEvent.Allowed run e) :
    EventSized run bs e := by
  cases e with
  | malloc size => exact ⟨Nat.lt_trans allowed (by decide), sized_of_small allowed _⟩
  | zalloc size => exact ⟨Nat.lt_trans allowed (by decide), sized_of_small allowed _⟩
  | calloc count size => exact sized_of_small allowed _
  | realloc mem newsize => exact ⟨Nat.lt_trans allowed.1 (by decide), sized_of_small allowed.1 _, allowed.2⟩
  | free => exact allowed
  | trace => exact allowed
  | write => exact allowed

theorem realloc_heap (run : HeapRun n) (mem newsize : Nat) (caps file line : Word) :
    ((HeapEvent.realloc mem newsize caps file line).run run).map HeapRun.heap =
      (heapCapsRealloc mem newsize caps file line run.heap).map Prod.fst := by
  rw [HeapEvent.run, heapCapsRealloc]
  cases reallocCopy mem newsize caps file line run.heap with
  | none => rfl
  | some result =>
      obtain ⟨h, p⟩ := result
      have given : ((run.moveTo h).give p newsize caps).heap = h := by
        unfold HeapRun.give
        split <;> rfl
      by_cases moved : p ≠ 0 ∧ mem ≠ 0
      · simp only [Option.map_some, if_pos moved]
        rfl
      · simp only [Option.map_some, if_neg moved, given]

theorem heapEvent_keeps {run : HeapRun n} {bs : Fin n → List Blk} (before : TidyRun regions run bs) {e : HeapEvent}
    (sized : EventSized run bs e) : ∃ run' bs', e.run run = some run' ∧ TidyRun regions run' bs' := by
  have inv := before.inv
  have tidy := before.tidy
  have below := inv.minima.below
  cases e with
  | malloc size caps file line =>
      obtain ⟨h', ptr, bs', eq, result, tidy'⟩ :=
        heapCapsMalloc_spec inv.heap inv.live tidy below sized.2 file line
      rw [wrap, Nat.mod_eq_of_lt sized.1] at eq
      exact ⟨_, bs', by rw [HeapEvent.run, eq]; rfl, before.malloced result tidy'⟩
  | zalloc size caps file line =>
      obtain ⟨h', ptr, bs', eq, result, tidy'⟩ :=
        heapCapsZalloc_spec inv.heap inv.live tidy below sized.2 file line
      rw [wrap, Nat.mod_eq_of_lt sized.1] at eq
      exact ⟨_, bs', by rw [HeapEvent.run, eq]; rfl, before.malloced result tidy'⟩
  | calloc count size caps file line =>
      obtain ⟨h', ptr, bs', eq, result, tidy'⟩ :=
        heapCapsZalloc_spec inv.heap inv.live tidy below sized file line
      exact ⟨_, bs', by rw [HeapEvent.run, heapCapsCalloc, eq]; rfl, before.malloced result tidy'⟩
  | realloc mem newsize caps file line =>
      obtain ⟨h', ptr, bs', eq, result, tidy'⟩ :=
        reallocCopy_spec inv.heap inv.live tidy below mem sized.2.1 file line
      rw [wrap, Nat.mod_eq_of_lt sized.1] at eq
      have copied := before.malloced result tidy'
      rw [HeapEvent.run, eq]
      dsimp only [Option.map]
      by_cases given : ptr ≠ 0 ∧ mem ≠ 0
      · rw [if_pos given]
        have valid : mem = 0 ∨ mem ∈ ((run.moveTo h').give ptr newsize caps).live.map Alloc.ptr := by
          refine sized.2.2.imp id fun old => ?_
          unfold HeapRun.give
          rw [if_pos given.1]
          exact List.mem_cons_of_mem _ old
        have sameHeap : ((run.moveTo h').give ptr newsize caps).heap = h' := by
          unfold HeapRun.give
          split <;> rfl
        obtain ⟨bs'', after⟩ := copied.freed valid
        rw [sameHeap] at after
        exact ⟨_, bs'', rfl, after⟩
      · rw [if_neg given]
        exact ⟨_, bs', rfl, copied⟩
  | free ptr =>
      obtain ⟨bs', after⟩ := before.freed sized
      exact ⟨_, bs', rfl, after⟩
  | trace on =>
      exact ⟨_, bs, rfl, ⟨⟨inv.heap.regions, inv.heap.apart⟩, ⟨inv.live.given, inv.live.distinct⟩,
        inv.minima.step fun num => below.refl num⟩, tidy.place, tidy.settled, tidy.owned⟩
  | write address byte =>
      obtain ⟨a, member, low, high⟩ := sized
      obtain ⟨num, room, inRegion, enough, -⟩ := inv.live.given a member
      refine ⟨_, bs, rfl, ⟨inv.heap.written inRegion ?_, inv.live.written _, inv.minima.step fun num => below.refl num⟩,
        tidy.written _⟩
      intro x outside
      exact Function.update_of_ne (by omega) _ _

theorem runHeap_keeps {run : HeapRun n} {bs : Fin n → List Blk} (before : TidyRun regions run bs) (events : List HeapEvent)
    (allowed : AllowedRun events run) : ∃ run' bs', runHeap events run = some run' ∧ TidyRun regions run' bs' := by
  induction events generalizing run bs with
  | nil => exact ⟨run, bs, rfl, before⟩
  | cons e rest ih =>
      obtain ⟨run', bs', eq, after⟩ := heapEvent_keeps before (eventSized_of_allowed allowed.1)
      obtain ⟨run'', bs'', eq', last⟩ := ih after (allowed.2 run' eq)
      exact ⟨run'', bs'', by rw [runHeap, eq]; exact eq', last⟩

end EspFirmware.Proof.Heap
