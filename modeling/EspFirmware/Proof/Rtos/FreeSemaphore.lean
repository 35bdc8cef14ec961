import Mathlib.Data.List.Induction
import EspFirmware.Proof.Rtos.Pointers

/-!
The semaphore that stands for free space is lost when a send finds too little of it, until something is given back.
-/

namespace EspFirmware.Proof.Rtos
open EspFirmware.Lib EspFirmware.Rtos EspFirmware.Spec

section
variable {h : RingbufHandle} {item : List (BitVec 8)}

structure Asks (h : RingbufHandle) (item : List (BitVec 8)) : Prop where
  small : item.length ≤ h.rb.xMaxItemSize
  some_ : ¬ (h.rb.type = .byteBuf ∧ item = [])

theorem asks_loop (asks : Asks h item) (rounds : Nat) :
    h.xRingbufferSend rounds item = RingbufHandle.sendLoop item (rounds + 1) h := by
  have some_ : ¬ (h.rb.type = .byteBuf ∧ item.length = 0) := by
    rintro ⟨bytes, none⟩
    exact asks.some_ ⟨bytes, List.eq_nil_of_length_eq_zero none⟩
  unfold RingbufHandle.xRingbufferSend
  rw [if_neg (by have small := asks.small; omega), if_neg some_]

theorem sendLoop_noSemaphore (taken : h.xFreeSpaceSemaphore = false) (rounds : Nat) :
    RingbufHandle.sendLoop item rounds h = some (false, h) := by
  cases rounds with
  | zero => rfl
  | succ rounds =>
      unfold RingbufHandle.sendLoop
      rw [taken]
      rfl

theorem send_refused (asks : Asks h item) (refused : h.rb.xCheckItemFits item.length = some false) (rounds : Nat) :
    h.xRingbufferSend rounds item = some (false, { h with xFreeSpaceSemaphore := false }) := by
  rw [asks_loop asks]
  cases available : h.xFreeSpaceSemaphore with
  | false =>
      rw [sendLoop_noSemaphore available, ← available]
  | true =>
      unfold RingbufHandle.sendLoop
      rw [available, if_pos rfl]
      dsimp only
      rw [refused]
      exact sendLoop_noSemaphore rfl rounds

theorem send_accepted (ptrs : Pointers h.rb) (asks : Asks h item) (available : h.xFreeSpaceSemaphore = true)
    (fits : h.rb.xCheckItemFits item.length = some true) (rounds : Nat) :
    ∃ rb', h.xRingbufferSend rounds item = some (true, ⟨rb', !rb'.full, true⟩) ∧ Pointers rb' := by
  obtain ⟨rb', copied, ptrs'⟩ := ptrs.copies asks.small fits
  obtain ⟨size, known, iff⟩ := ptrs'.freeSize
  refine ⟨rb', ?_, ptrs'⟩
  rw [asks_loop asks]
  unfold RingbufHandle.sendLoop
  rw [available, if_pos rfl]
  dsimp only
  rw [fits]
  change ((h.rb.vCopyItem item).bind fun rb => rb.prvGetFreeSize.map fun xFreeSize =>
    (true, (⟨rb, 0 < xFreeSize, true⟩ : RingbufHandle))) = _
  rw [copied]
  change (rb'.prvGetFreeSize.map fun xFreeSize => (true, (⟨rb', 0 < xFreeSize, true⟩ : RingbufHandle))) = _
  rw [known]
  have given : decide (0 < size) = !rb'.full := by
    cases full : rb'.full with
    | false => exact decide_eq_true (iff.mpr full)
    | true =>
        refine decide_eq_false ?_
        intro some_
        have notFull := iff.mp some_
        rw [full] at notFull
        cases notFull
  rw [← given]
  rfl

theorem receive_free (ptrs : Pointers h.rb) {rounds : Nat} {parts : List Part} {h' : RingbufHandle}
    (received : RingbufHandle.receiveLoop rounds h = some (parts, h')) :
    Pointers h'.rb ∧ h'.rb.full = h.rb.full ∧ h'.xFreeSpaceSemaphore = h.xFreeSpaceSemaphore := by
  induction rounds generalizing h with
  | zero =>
      cases received
      exact ⟨ptrs, rfl, rfl⟩
  | succ rounds ih =>
      unfold RingbufHandle.receiveLoop at received
      split at received
      · dsimp only at received
        split at received
        · obtain ⟨⟨part, rb'⟩, got, made⟩ := Option.map_eq_some_iff.mp received
          cases made
          have kept := ptrs.gets got
          exact ⟨kept.1, kept.2, rfl⟩
        · exact ih (h := { h with xItemsBufferedSemaphore := false }) ptrs received
      · cases received
        exact ⟨ptrs, rfl, rfl⟩

end

section
variable {start h : RingbufHandle} {calls : List HandleCall}

theorem refused_snoc (run : runCalls calls start = some h) (call : HandleCall) :
    RefusedSinceReturn start (calls ++ [call]) ↔
      call.Refused h ∨ (RefusedSinceReturn start calls ∧ ∀ pvItem, call ≠ .returnItem pvItem) := by
  constructor
  · rintro ⟨before, first, after, h₁, parts, run₁, refused, kept⟩
    rcases List.eq_nil_or_concat after with none | ⟨rest, last, more⟩
    · rw [none] at parts
      obtain ⟨same, one⟩ := List.append_inj' parts rfl
      cases one
      rw [← same, run] at run₁
      cases run₁
      exact Or.inl refused
    · rw [List.concat_eq_append] at more
      rw [more, ← List.cons_append, ← List.append_assoc] at parts
      obtain ⟨same, one⟩ := List.append_inj' parts rfl
      cases one
      refine Or.inr ⟨⟨before, first, rest, h₁, same, run₁, refused, ?_⟩, ?_⟩
      · intro pvItem inside
        exact kept pvItem (by rw [more]; exact List.mem_append_left _ inside)
      · intro pvItem is
        exact kept pvItem (by rw [more, is]; exact List.mem_append_right _ (List.mem_singleton_self _))
  · rintro (refused | ⟨⟨before, first, after, h₁, parts, run₁, refused, kept⟩, other⟩)
    · exact ⟨calls, call, [], h, rfl, run, refused, fun _ => List.not_mem_nil⟩
    · refine ⟨before, first, after ++ [call], h₁, ?_, run₁, refused, ?_⟩
      · rw [parts, List.append_assoc, List.cons_append]
      · intro pvItem inside
        rcases List.mem_append.mp inside with old | new
        · exact kept pvItem old
        · exact other pvItem (List.mem_singleton.mp new).symm

structure SemaphoreKept (start : RingbufHandle) (calls : List HandleCall) (h : RingbufHandle) : Prop where
  ptrs : Pointers h.rb
  lost : RefusedSinceReturn start calls → h.xFreeSpaceSemaphore = false
  available : ¬ RefusedSinceReturn start calls → h.xFreeSpaceSemaphore = true ∨ h.rb.full = true

theorem unchanged_kept (kept : SemaphoreKept start calls h) (run : runCalls calls start = some h) {call : HandleCall}
    (passes : ¬ call.Refused h) (noReturn : ∀ pvItem, call ≠ .returnItem pvItem) {h' : RingbufHandle}
    (ptrs : Pointers h'.rb) (full : h'.rb.full = h.rb.full) (same : h'.xFreeSpaceSemaphore = h.xFreeSpaceSemaphore) :
    SemaphoreKept start (calls ++ [call]) h' := by
  have iff : RefusedSinceReturn start (calls ++ [call]) ↔ RefusedSinceReturn start calls := by
    rw [refused_snoc run]
    constructor
    · rintro (refused | ⟨before, _⟩)
      · exact absurd refused passes
      · exact before
    · intro before
      exact Or.inr ⟨before, noReturn⟩
  refine ⟨ptrs, ?_, ?_⟩
  · rw [iff, same]
    exact kept.lost
  · rw [iff, same, full]
    exact kept.available

theorem send_kept (kept : SemaphoreKept start calls h) (run : runCalls calls start = some h) {rounds : Nat}
    {item : List (BitVec 8)} {ok : Bool} {h' : RingbufHandle}
    (sent : h.xRingbufferSend rounds item = some (ok, h')) :
    SemaphoreKept start (calls ++ [.send rounds item]) h' := by
  have noReturn : ∀ pvItem, HandleCall.send rounds item ≠ .returnItem pvItem := by
    intro pvItem same
    cases same
  by_cases asks : Asks h item
  · obtain ⟨fits, checked⟩ := kept.ptrs.checks item.length
    cases fits with
    | false =>
        rw [send_refused asks checked] at sent
        cases sent
        have refused : (HandleCall.send rounds item).Refused h := ⟨asks.small, asks.some_, checked⟩
        refine ⟨kept.ptrs, fun _ => rfl, ?_⟩
        intro never
        exact absurd ((refused_snoc run _).mpr (Or.inl refused)) never
    | true =>
        have passes : ¬ (HandleCall.send rounds item).Refused h := by
          rintro ⟨_, _, refused⟩
          rw [checked] at refused
          cases refused
        cases available : h.xFreeSpaceSemaphore with
        | false =>
            rw [asks_loop asks, sendLoop_noSemaphore available] at sent
            cases sent
            exact unchanged_kept kept run passes noReturn kept.ptrs rfl rfl
        | true =>
            obtain ⟨rb', accepted, ptrs'⟩ := send_accepted kept.ptrs asks available checked rounds
            rw [accepted] at sent
            cases sent
            have never : ¬ RefusedSinceReturn start (calls ++ [.send rounds item]) := by
              rw [refused_snoc run]
              rintro (refused | ⟨before, _⟩)
              · exact passes refused
              · have lost := kept.lost before
                rw [available] at lost
                cases lost
            refine ⟨ptrs', fun refused => absurd refused never, ?_⟩
            intro _
            change (!rb'.full) = true ∨ rb'.full = true
            cases rb'.full with
            | false => exact Or.inl rfl
            | true => exact Or.inr rfl
  · have passes : ¬ (HandleCall.send rounds item).Refused h := by
      rintro ⟨small, some_, _⟩
      exact asks ⟨small, some_⟩
    have same : h' = h := by
      unfold RingbufHandle.xRingbufferSend at sent
      split at sent
      · cases sent
        rfl
      · next small =>
          split at sent
          · cases sent
            rfl
          · next some_ =>
              refine absurd ⟨by omega, ?_⟩ asks
              rintro ⟨bytes, none⟩
              exact some_ ⟨bytes, by rw [none]; rfl⟩
    rw [same]
    exact unchanged_kept kept run passes noReturn kept.ptrs rfl rfl

theorem call_kept (kept : SemaphoreKept start calls h) (run : runCalls calls start = some h) (call : HandleCall)
    {h' : RingbufHandle} (made : call.run h = some h') : SemaphoreKept start (calls ++ [call]) h' := by
  cases call with
  | send rounds item =>
      obtain ⟨⟨ok, h₁⟩, sent, rfl⟩ := Option.map_eq_some_iff.mp made
      exact send_kept kept run sent
  | receive rounds =>
      obtain ⟨⟨parts, h₁⟩, received, rfl⟩ := Option.map_eq_some_iff.mp made
      obtain ⟨ptrs, full, same⟩ := receive_free kept.ptrs received
      refine unchanged_kept kept run id ?_ ptrs full same
      intro pvItem is
      cases is
  | returnItem pvItem =>
      obtain ⟨rb', returned, rfl⟩ := Option.map_eq_some_iff.mp made
      refine ⟨kept.ptrs.returns returned, ?_, fun _ => Or.inl rfl⟩
      rw [refused_snoc run]
      rintro (refused | ⟨_, other⟩)
      · exact refused.elim
      · exact absurd rfl (other pvItem)

theorem calls_kept {type : RingbufType} (s : StorageOf type) (run : runCalls calls (.create s.create) = some h) :
    SemaphoreKept (.create s.create) calls h := by
  induction calls using List.reverseRecOn generalizing h with
  | nil =>
      cases run
      refine ⟨create_pointers s, ?_, fun _ => Or.inl rfl⟩
      rintro ⟨before, call, after, _, parts, _⟩
      exact absurd parts (by simp)
  | append_singleton calls call ih =>
      rw [runCalls, runSteps_snoc] at run
      obtain ⟨h₁, run, made⟩ := Option.bind_eq_some_iff.mp run
      exact call_kept (ih run) run call made

end

theorem noBytes_fit {rb : Ringbuffer} (ptrs : Pointers rb) (bytes : rb.type = .byteBuf) (notFull : rb.full = false) :
    rb.xCheckItemFits 0 = some true := by
  cases ptrs with
  | items ptrs => exact absurd bytes ptrs.storage.items
  | bytes ptrs =>
      have highW := ptrs.write.high
      have lowF := ptrs.free.low
      have tail := ptrs.storage.tail
      obtain ⟨fits, checked, iff⟩ := byteCheck ptrs 0
      rw [checked]
      refine congrArg some (iff.mpr ?_)
      rcases Nat.lt_trichotomy rb.pucWrite rb.pucFree with before | same | behind
      · exact Or.inr (Or.inl ⟨before, Nat.le_of_lt before⟩)
      · exact Or.inl ⟨same, notFull⟩
      · exact Or.inr (Or.inr ⟨behind, by omega⟩)

theorem send_outcome_iff {type : RingbufType} (s : StorageOf type) (calls : List HandleCall) {h : RingbufHandle}
    (run : runCalls calls (.create s.create) = some h) (rounds : Nat) {item : List (BitVec 8)}
    (small : item.length ≤ h.rb.xMaxItemSize) :
    SendsWhatFits h rounds item ↔ SendOutcomeKept (.create s.create) calls h item := by
  have kept := calls_kept s run
  obtain ⟨fits, checked⟩ := kept.ptrs.checks item.length
  unfold SendsWhatFits SendOutcomeKept
  by_cases nothing : h.rb.type = .byteBuf ∧ item = []
  · have sent : h.xRingbufferSend rounds item = some (true, h) := by
      unfold RingbufHandle.xRingbufferSend
      rw [if_neg (by omega), if_pos ⟨nothing.1, by rw [nothing.2]; rfl⟩]
    rw [if_pos nothing, sent, nothing.2]
    constructor
    · rintro ⟨ok, h', same, iff⟩
      cases same
      cases full : h.rb.full with
      | false => rfl
      | true =>
          have accepted := iff.mp rfl
          rw [kept.ptrs.refuses full] at accepted
          cases accepted
    · intro notFull
      exact ⟨true, h, rfl, iff_of_true rfl (noBytes_fit kept.ptrs nothing.1 notFull)⟩
  · have asks : Asks h item := ⟨small, nothing⟩
    rw [if_neg nothing]
    cases fits with
    | false =>
        refine iff_of_true ⟨false, _, send_refused asks checked rounds, ?_⟩ (Or.inl checked)
        rw [checked]
        decide
    | true =>
        have accepted : h.rb.xCheckItemFits item.length ≠ some false := by
          rw [checked]
          decide
        rw [or_iff_right accepted]
        constructor
        · rintro ⟨ok, h', sent, iff⟩ refused
          rw [asks_loop asks, sendLoop_noSemaphore (kept.lost refused)] at sent
          cases sent
          exact absurd (iff.mpr checked) (by decide)
        · intro never
          rcases kept.available never with available | full
          · obtain ⟨rb', accepted, _⟩ := send_accepted kept.ptrs asks available checked rounds
            exact ⟨true, _, accepted, iff_of_true rfl checked⟩
          · rw [kept.ptrs.refuses full] at checked
            cases checked

theorem bytes16_enough : 0 < 16 := by decide

theorem bytes16_aligned : 64 % 4 = 0 := by decide

theorem bytes16_positive : 0 < 64 := by decide

theorem bytes16_below : 64 + rbALIGN_SIZE 16 < 2 ^ 31 := by decide

def bytes16 : StorageOf .byteBuf := ⟨16, 64, fun _ => 0, bytes16_enough, bytes16_aligned, bytes16_positive, bytes16_below⟩

theorem not_refused_since_return (start : RingbufHandle) (calls : List HandleCall) (pvItem : Nat) :
    ¬ RefusedSinceReturn start (calls ++ [.returnItem pvItem]) := by
  rintro ⟨before, call, after, h, parts, -, refused, never⟩
  rcases List.eq_nil_or_concat after with rfl | ⟨between, last, rfl⟩
  · obtain ⟨-, same⟩ := List.append_inj' parts rfl
    cases same
    exact refused
  · rw [List.concat_eq_append, ← List.cons_append, ← List.append_assoc] at parts
    obtain ⟨-, same⟩ := List.append_inj' parts rfl
    cases same
    exact never pvItem (by simp)

def halfSentThenMore : List HandleCall := [.send 0 (List.replicate 8 7), .send 0 (List.replicate 12 7)]

/-- Four bytes fit, and are refused. -/
theorem failed_send_changes_outcome : ∃ h, runCalls halfSentThenMore (.create bytes16.create) = some h ∧
    h.rb.xCheckItemFits 4 = some true ∧ ¬ SendsWhatFits h 0 [1, 2, 3, 4] := by
  have some_ : (runCalls halfSentThenMore (.create bytes16.create)).isSome := by decide
  have fits : ((runCalls halfSentThenMore (.create bytes16.create)).get some_).rb.xCheckItemFits 4 = some true := by
    decide +revert
  have failed : (((runCalls halfSentThenMore (.create bytes16.create)).get some_).xRingbufferSend 0 [1, 2, 3, 4]).map
      Prod.fst = some false := by decide +revert
  refine ⟨_, (Option.some_get some_).symm, fits, ?_⟩
  rintro ⟨ok, h', sent, iff⟩
  rw [sent] at failed
  cases failed
  exact absurd (iff.mpr fits) (by decide)

def returnedThen : List HandleCall := halfSentThenMore ++ [.receive 0] ++ [.returnItem 64]

theorem send_outcome_returned : ∃ h, runCalls returnedThen (.create bytes16.create) = some h ∧
    ∀ rounds, SendsWhatFits h rounds [1, 2, 3, 4] := by
  have some_ : (runCalls returnedThen (.create bytes16.create)).isSome := by decide
  refine ⟨_, (Option.some_get some_).symm, fun rounds => ?_⟩
  refine (send_outcome_iff bytes16 returnedThen (Option.some_get some_).symm rounds (by decide +revert)).mpr ?_
  unfold SendOutcomeKept
  rw [if_neg (by decide +revert)]
  exact .inr (not_refused_since_return _ _ 64)

end EspFirmware.Proof.Rtos
