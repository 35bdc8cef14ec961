import EspFirmware.Spec.Airsys
import EspFirmware.Proof.Modbus.Response

/-!
A requested write reaches its register unless something comes between, and registers hold real values unless the read
task copies after a failed transaction.
-/

namespace EspFirmware.Proof
open EspFirmware.Lib EspFirmware.App EspFirmware.Spec EspFirmware.Modbus EspFirmware.Proof.Modbus

def cut : Register → BitVec 16 → BitVec 16
  | .coil _, value => (value.setWidth 8).setWidth 16
  | .holding _, value => value

theorem value_store (reg : AirSysRegister) (value : BitVec 16) (stored r : Register) :
    (reg.store value stored).value r = if r = stored then cut stored value else reg.value r := by
  cases stored with
  | coil i =>
      cases r with
      | coil j =>
          by_cases same : j = i
          · subst same
            simp [AirSysRegister.store, AirSysRegister.value, cut]
          · simp [AirSysRegister.store, AirSysRegister.value, same]
      | holding j => simp [AirSysRegister.store, AirSysRegister.value]
  | holding i =>
      cases r with
      | coil j => simp [AirSysRegister.store, AirSysRegister.value]
      | holding j =>
          by_cases same : j = i
          · subst same
            simp [AirSysRegister.store, AirSysRegister.value, cut]
          · simp [AirSysRegister.store, AirSysRegister.value, same]

theorem value_setFlag (reg : AirSysRegister) (flag : Bool) (set r : Register) :
    (reg.setFlag flag set).value r = reg.value r := by
  cases set <;> cases r <;> rfl

theorem cut_byte (r : Register) (byte : BitVec 8) : cut r (byte.setWidth 16) = byte.setWidth 16 := by
  cases r with
  | coil i =>
      have back : (byte.setWidth 16).setWidth 8 = byte := by
        apply BitVec.eq_of_toNat_eq
        simp only [BitVec.toNat_setWidth]
        omega
      rw [cut, back]
  | holding i => rfl

theorem cut_modify (call : ModifyCall) : cut call.register call.value = call.value := by
  cases call with
  | coil index value => exact cut_byte _ value
  | holding index value => exact cut_byte _ value

theorem writable_call {call : WriteCall} (one : call ∈ writeCalls) (value : BitVec 16) :
    Writable call.register value = call.rangeCheck value := by
  simp only [writeCalls, List.mem_cons, List.not_mem_nil, or_false] at one
  rcases one with rfl | rfl | rfl <;> simp [Writable, writeCalls, WriteCall.register, beq_eq_decide]

theorem owed_cons_requested (register r : Register) (value : BitVec 16) (earlier : List Happening) :
    owed register (.requested r value :: earlier) =
      if r = register ∧ Writable r value = true then some value else owed register earlier := rfl

theorem owed_cons_wrote (register r : Register) (value : BitVec 16) (earlier : List Happening) :
    owed register (.wrote r value :: earlier) =
      if r = register ∧ owed register earlier = some value then none else owed register earlier := rfl

theorem owed_writable {r : Register} {history : List Happening} {value : BitVec 16}
    (waits : owed r history = some value) : Writable r value = true := by
  induction history with
  | nil => cases waits
  | cons latest earlier ih =>
      cases latest with
      | requested r' value' =>
          rw [owed_cons_requested] at waits
          split at waits
          · rename_i asked
            cases waits
            exact asked.1 ▸ asked.2
          · exact ih waits
      | wrote r' value' =>
          rw [owed_cons_wrote] at waits
          split at waits
          · cases waits
          · exact ih waits
      | cleared r' => exact ih waits
      | returned r' value' => exact ih waits

theorem owed_wrote {r : Register} {history : List Happening} {value : BitVec 16}
    (carried : ∀ v, owed r history = some v → v = value) : owed r (.wrote r value :: history) = none := by
  rw [owed_cons_wrote]
  cases waits : owed r history with
  | none => rw [if_neg fun both => by cases both.2]
  | some v => rw [carried v waits, if_pos ⟨rfl, rfl⟩]

theorem owed_of_wrote {r r' : Register} {history : List Happening} {value v : BitVec 16}
    (waits : owed r (.wrote r' value :: history) = some v) : owed r history = some v := by
  rw [owed_cons_wrote] at waits
  split at waits
  · cases waits
  · exact waits

theorem owed_returned (r : Register) (half : ReadHalf) (values : Nat → BitVec 16) (history : List Happening)
    (places : List Nat) :
    owed r (places.map (fun i => .returned (half.register (1 + i)) (values i)) ++ history) = owed r history := by
  induction places with
  | nil => rfl
  | cons i rest ih => exact ih

theorem nothingLost_cons {latest : Happening} {history : List Happening} (before : NothingLost history)
    (settled : ∀ r, latest = .cleared r → owed r history = none) : NothingLost (latest :: history) := by
  intro r earlier suffix
  rcases List.suffix_cons_iff.mp suffix with same | inside
  · injection same with cleared rest
    rw [rest]
    exact settled r cleared.symm
  · exact before r earlier inside

theorem nothingLost_returned {half : ReadHalf} {values : Nat → BitVec 16} {history : List Happening}
    (before : NothingLost history) (places : List Nat) :
    NothingLost (places.map (fun i => .returned (half.register (1 + i)) (values i)) ++ history) := by
  induction places with
  | nil => exact before
  | cons i rest ih => exact nothingLost_cons ih fun r cleared => by cases cleared

def pendingCalls : WritePc → List WriteCall
  | .testFlag call rest | .rangeCheck call rest | .send call rest | .clearFlag call rest => call :: rest
  | .transaction call _ rest => call :: rest
  | .takeSemaphore | .takeMutex | .giveMutex => []

def Carries (history : List Happening) : WritePc → Prop
  | .transaction call value _ => ∀ v, owed call.register history = some v → v = value
  | .clearFlag call _ => owed call.register history = none
  | _ => True

structure KeepsRequests (s : AirSystem) : Prop where
  held : ∀ r v, owed r s.history = some v → s.airsysReg.value r = v
  nothingLost : NothingLost s.history
  calls : ∀ call ∈ pendingCalls s.writeTask, call ∈ writeCalls
  carries : Carries s.history s.writeTask

theorem pendingCalls_next (calls : List WriteCall) : pendingCalls (.next calls) = calls := by
  cases calls <;> rfl

theorem carries_next (history : List Happening) (calls : List WriteCall) : Carries history (.next calls) := by
  cases calls <;> trivial

theorem Carries.mono {history later : List Happening} {pc : WritePc} (carries : Carries history pc)
    (less : ∀ r v, owed r later = some v → owed r history = some v) : Carries later pc := by
  cases pc with
  | transaction call value rest => exact fun v waits => carries v (less _ v waits)
  | clearFlag call rest =>
      refine Option.eq_none_iff_forall_ne_some.mpr fun v waits => ?_
      cases carries.symm.trans (less _ v waits)
  | takeSemaphore | takeMutex | testFlag | rangeCheck | send | giveMutex => trivial

theorem modify_keepsRequests {s s' : AirSystem} {task : Nat} {call : ModifyCall} (keeps : KeepsRequests s)
    (undisturbed : Undisturbed s (.modify task call)) (made : s.modify task call = some s') : KeepsRequests s' := by
  unfold AirSystem.modify at made
  split at made
  · cases made
  split at made
  · cases made
    exact keeps
  rename_i stores
  obtain ⟨-, made⟩ := Option.ite_none_right_eq_some.mp made
  cases made
  have allowed := undisturbed (Bool.not_eq_false _ ▸ stores)
  by_cases writable : Writable call.register call.value = true
  · rw [if_pos writable] at allowed
    refine ⟨?_, nothingLost_cons keeps.nothingLost (fun r cleared => by cases cleared), keeps.calls, ?_⟩
    · intro r v waits
      dsimp only at waits ⊢
      rw [owed_cons_requested] at waits
      rw [value_store]
      by_cases same : r = call.register
      · rw [if_pos ⟨same.symm, same ▸ writable⟩] at waits
        rw [if_pos same, cut_modify]
        exact Option.some.inj waits
      · rw [if_neg fun both => same both.1.symm] at waits
        rw [if_neg same]
        exact keeps.held r v waits
    · -- the write task may carry the register, but then with this value
      have carries := keeps.carries
      dsimp only
      cases pc : s.writeTask with
      | transaction call' carried rest =>
          rw [pc] at allowed carries
          intro v waits
          rw [owed_cons_requested] at waits
          split at waits
          · rename_i asked
            cases waits
            exact (allowed asked.1.symm).symm
          · exact carries v waits
      | clearFlag call' rest =>
          rw [pc] at allowed carries
          dsimp only [Carries]
          rw [owed_cons_requested, if_neg fun both => allowed both.1.symm]
          exact carries
      | takeSemaphore | takeMutex | testFlag | rangeCheck | send | giveMutex => trivial
  · rw [if_neg writable] at allowed
    have same (r : Register) : owed r (.requested call.register call.value :: s.history) = owed r s.history := by
      rw [owed_cons_requested, if_neg]
      intro both
      exact writable (both.1 ▸ both.2)
    refine ⟨?_, nothingLost_cons keeps.nothingLost (fun r cleared => by cases cleared), keeps.calls,
      keeps.carries.mono fun r v waits => (same r).symm.trans waits⟩
    intro r v waits
    dsimp only at waits ⊢
    rw [same] at waits
    rw [value_store, if_neg]
    · exact keeps.held r v waits
    · intro own
      rw [own, allowed] at waits
      cases waits

theorem resume_keepsRequests {s s' : AirSystem} {task : Nat} (keeps : KeepsRequests s)
    (made : s.resume task = some s') : KeepsRequests s' := by
  unfold AirSystem.resume at made
  split at made
  · cases made
  · rename_i register call
    cases made
    refine ⟨fun r v waits => ?_, keeps.nothingLost, keeps.calls, keeps.carries⟩
    dsimp only
    rw [value_setFlag]
    exact keeps.held r v waits
  · cases made
    exact ⟨keeps.held, keeps.nothingLost, keeps.calls, keeps.carries⟩

theorem write_keepsRequests {s s' : AirSystem} {line : Line} (keeps : KeepsRequests s)
    (undisturbed : Undisturbed s (.write line)) (made : s.write line = some s') : KeepsRequests s' := by
  have succeeds : TransactionSucceeds line s s.writeTask := undisturbed
  have calls := keeps.calls
  have carries := keeps.carries
  unfold AirSystem.write at made
  cases pc : s.writeTask with
  | takeSemaphore =>
      rw [pc] at made
      dsimp only at made
      split at made
      · cases made
        exact ⟨keeps.held, keeps.nothingLost, fun call one => absurd one (List.not_mem_nil), trivial⟩
      · cases made
  | takeMutex =>
      rw [pc] at made
      dsimp only at made
      split at made
      · cases made
        exact ⟨keeps.held, keeps.nothingLost, fun call one => one, trivial⟩
      · cases made
  | testFlag call rest =>
      rw [pc] at made calls
      cases made
      refine ⟨keeps.held, keeps.nothingLost, ?_, ?_⟩
      · dsimp only
        split
        · exact calls
        · rw [pendingCalls_next]
          exact fun c one => calls c (List.mem_cons_of_mem _ one)
      · dsimp only
        split
        · trivial
        · exact carries_next _ _
  | rangeCheck call rest =>
      rw [pc] at made calls
      cases made
      refine ⟨keeps.held, keeps.nothingLost, ?_, ?_⟩
      · dsimp only
        split
        · exact calls
        · exact calls
      · dsimp only
        split
        · trivial
        · -- a value that is owed is in range, and is what the task has looked at
          rename_i outside
          refine Option.eq_none_iff_forall_ne_some.mpr fun v waits => outside ?_
          rw [keeps.held _ v waits, ← writable_call (calls call List.mem_cons_self)]
          exact owed_writable waits
  | send call rest =>
      rw [pc] at made calls
      cases made
      exact ⟨keeps.held, keeps.nothingLost, calls, fun v waits => (keeps.held _ v waits).symm⟩
  | transaction call value rest =>
      rw [pc] at made calls carries succeeds
      obtain ⟨t, run, rfl⟩ := Option.map_eq_some_iff.mp made
      dsimp only [TransactionSucceeds] at succeeds
      rw [run, Option.bind_some] at succeeds
      by_cases success : t.result.isSome = true
      · rw [if_pos success]
        exact ⟨fun r v waits => keeps.held r v (owed_of_wrote waits),
          nothingLost_cons keeps.nothingLost (fun r cleared => by cases cleared), calls, owed_wrote carries⟩
      · rw [if_neg success]
        exact ⟨keeps.held, keeps.nothingLost, calls, not_not.mp fun waits => success (succeeds waits)⟩
  | clearFlag call rest =>
      rw [pc] at made calls carries
      cases made
      refine ⟨fun r v waits => ?_, nothingLost_cons keeps.nothingLost fun r cleared => ?_, ?_, carries_next _ _⟩
      · dsimp only
        rw [value_setFlag]
        exact keeps.held r v waits
      · cases cleared
        exact carries
      · rw [pendingCalls_next]
        exact fun c one => calls c (List.mem_cons_of_mem _ one)
  | giveMutex =>
      rw [pc] at made
      cases made
      exact ⟨keeps.held, keeps.nothingLost, fun call one => absurd one (List.not_mem_nil), trivial⟩

theorem read_keepsRequests {s s' : AirSystem} {line : Line} {stack : Nat → BitVec 16} (keeps : KeepsRequests s)
    (undisturbed : Undisturbed s (.read line stack)) (made : s.read line stack = some s') : KeepsRequests s' := by
  have settled : CopiesSettled s.history s.readTask := undisturbed
  unfold AirSystem.read at made
  cases pc : s.readTask with
  | takeMutex half =>
      rw [pc] at made
      dsimp only at made
      split at made
      · cases made
        exact ⟨keeps.held, keeps.nothingLost, keeps.calls, keeps.carries⟩
      · cases made
  | transaction half =>
      rw [pc] at made
      obtain ⟨t, run, rfl⟩ := Option.map_eq_some_iff.mp made
      refine ⟨fun r v waits => ?_, nothingLost_returned keeps.nothingLost _, keeps.calls,
        keeps.carries.mono fun r v waits => (owed_returned r half _ _ _).symm.trans waits⟩
      exact keeps.held r v ((owed_returned r half _ _ _).symm.trans waits)
  | testFlag half temp result i =>
      rw [pc] at made
      cases made
      exact ⟨keeps.held, keeps.nothingLost, keeps.calls, keeps.carries⟩
  | copy half temp result i =>
      rw [pc] at made settled
      cases made
      refine ⟨fun r v waits => ?_, keeps.nothingLost, keeps.calls, keeps.carries⟩
      dsimp only at waits ⊢
      rw [value_store, if_neg]
      · exact keeps.held r v waits
      · intro own
        cases settled.symm.trans (own ▸ waits)
  | giveMutex half =>
      rw [pc] at made
      cases made
      exact ⟨keeps.held, keeps.nothingLost, keeps.calls, keeps.carries⟩

theorem step_keepsRequests (s : AirSystem) (e : AirEvent) (s' : AirSystem) (keeps : KeepsRequests s)
    (undisturbed : Undisturbed s e) (made : e.run s = some s') : KeepsRequests s' := by
  cases e with
  | modify task call => exact modify_keepsRequests keeps undisturbed made
  | resume task => exact resume_keepsRequests keeps made
  | write line => exact write_keepsRequests keeps undisturbed made
  | read line stack => exact read_keepsRequests keeps undisturbed made

theorem start_keepsRequests (master : ModbusMaster) : KeepsRequests (.start master) where
  held r v waits := by cases waits
  nothingLost r earlier suffix := by cases List.suffix_nil.mp suffix
  calls call one := absurd one (List.not_mem_nil)
  carries := trivial

/-- In a run that nothing disturbs, no flag is cleared while a write is owed. -/
theorem undisturbed_requests_written (master : ModbusMaster) (events : List AirEvent) (s : AirSystem)
    (run : runAirsys events (.start master) = some s)
    (undisturbed : EachStep AirEvent.run Undisturbed events (.start master)) : NothingLost s.history :=
  (runSteps_keeps step_keepsRequests (start_keepsRequests master) undisturbed run).nothingLost

def requestCoil (line : Line) : List AirEvent :=
  [.modify 0 (.coil 40 1), .resume 0, .resume 0] ++ List.replicate 7 (.write line)

def coilWritten : Line := ⟨frame [1, 5, 0, 40, 0xFF, 0], true⟩

/-- Coil 40 is written as requested. -/
theorem undisturbed_requests_written_coil : ∃ s, runAirsys (requestCoil coilWritten) (.start idleMaster) = some s ∧
    NothingLost s.history ∧ s.history = [.cleared (.coil 40), .wrote (.coil 40) 1, .requested (.coil 40) 1] := by
  have ends : (runAirsys (requestCoil coilWritten) (.start idleMaster)).map (·.history) =
      some [.cleared (.coil 40), .wrote (.coil 40) 1, .requested (.coil 40) 1] := by decide +kernel
  obtain ⟨s, run, history⟩ := Option.map_eq_some_iff.mp ends
  exact ⟨s, run, undisturbed_requests_written idleMaster (requestCoil coilWritten) s run (by decide +kernel), history⟩

/-- The write task clears the flag of coil 40 after a transaction that nothing answers. -/
theorem unanswered_write_lost : ¬ ∀ (master : ModbusMaster) (events : List AirEvent) (s : AirSystem),
    runAirsys events (.start master) = some s → NothingLost s.history := by
  intro all
  have ends : (runAirsys (requestCoil ⟨[], false⟩) (.start idleMaster)).map (·.history) =
      some [.cleared (.coil 40), .requested (.coil 40) 1] := by decide
  obtain ⟨s, run, history⟩ := Option.map_eq_some_iff.mp ends
  have settled : owed (.coil 40) [.requested (.coil 40) 1] = none := by
    apply all idleMaster (requestCoil ⟨[], false⟩) s run
    rewrite [history]
    exact List.suffix_rfl
  cases settled

theorem HasSource.later {history later : List Happening} {r : Register} {value : BitVec 16}
    (real : HasSource history r value) (grows : history ⊆ later) : HasSource later r value := by
  rcases real with initial | requested | returned
  · exact .inl initial
  · exact .inr (.inl (grows requested))
  · exact .inr (.inr (grows returned))

def HoldsReturned (history : List Happening) : ReadPc → Prop
  | .testFlag half temp result i | .copy half temp result i =>
      result = true → 1 ≤ i ∧ i ≤ half.qty ∧
        ∀ j, 1 ≤ j → j ≤ half.qty → .returned (half.register j) (cut (half.register j) (temp j)) ∈ history
  | _ => True

structure KeepsReal (s : AirSystem) : Prop where
  real : RealValues s
  returned : HoldsReturned s.history s.readTask

theorem HoldsReturned.later {history later : List Happening} {pc : ReadPc} (holds : HoldsReturned history pc)
    (grows : history ⊆ later) : HoldsReturned later pc := by
  cases pc with
  | testFlag half temp result i | copy half temp result i =>
      intro success
      obtain ⟨first, last, all⟩ := holds success
      exact ⟨first, last, fun j first last => grows (all j first last)⟩
  | takeMutex | transaction | giveMutex => trivial

theorem holdsReturned_next {history : List Happening} {half : ReadHalf} {temp : Nat → BitVec 16} {result : Bool}
    {i : Nat} (first : 1 ≤ i) (all : result = true → ∀ j, 1 ≤ j → j ≤ half.qty →
      .returned (half.register j) (cut (half.register j) (temp j)) ∈ history) :
    HoldsReturned history (.next half temp result i) := by
  unfold ReadPc.next
  split
  · exact fun success => ⟨first, by omega, all success⟩
  · trivial

theorem values_returned {half : ReadHalf} {line : Line} {m : ModbusMaster} {t : Transaction}
    (run : half.command.run line m = some t) {answer : Answer} (success : t.result = some answer) :
    (answerValues answer).length = half.qty ∧ ∀ v ∈ answerValues answer, ∀ i, cut (half.register i) v = v := by
  obtain ⟨mem, value⟩ := result_answer run success
  cases half with
  | coils =>
      rw [show answerOf (ReadHalf.coils.command) = coilsAnswer 79 from rfl, coilsAnswer_value] at value
      obtain ⟨-, same⟩ := Option.ite_none_left_eq_some.mp value
      cases same
      refine ⟨by simp [answerValues, ReadHalf.qty], fun v one i => ?_⟩
      obtain ⟨byte, -, rfl⟩ := List.mem_map.mp one
      exact cut_byte _ byte
  | holdings =>
      rw [show answerOf (ReadHalf.holdings.command) = registersAnswer 42 from rfl, registersAnswer_value] at value
      obtain ⟨-, same⟩ := Option.ite_none_left_eq_some.mp value
      cases same
      exact ⟨by simp [answerValues, ReadHalf.qty], fun v one i => rfl⟩

theorem real_store {s : AirSystem} {stored : Register} {value : BitVec 16} {later : List Happening}
    (real : RealValues s) (grows : s.history ⊆ later) (given : HasSource later stored (cut stored value)) (r : Register) :
    HasSource later r ((s.airsysReg.store value stored).value r) := by
  rw [value_store]
  split
  · rename_i same
    rw [same]
    exact given
  · exact HasSource.later (real r) grows

theorem real_setFlag {s : AirSystem} (real : RealValues s) (flag : Bool) (set r : Register) :
    HasSource s.history r ((s.airsysReg.setFlag flag set).value r) := by
  rw [value_setFlag]
  exact real r

theorem modify_keepsReal {s s' : AirSystem} {task : Nat} {call : ModifyCall} (keeps : KeepsReal s)
    (made : s.modify task call = some s') : KeepsReal s' := by
  unfold AirSystem.modify at made
  split at made
  · cases made
  split at made
  · cases made
    exact keeps
  obtain ⟨-, made⟩ := Option.ite_none_right_eq_some.mp made
  cases made
  have grows : s.history ⊆ .requested call.register call.value :: s.history := List.subset_cons_self _ _
  refine ⟨fun r => real_store keeps.real grows ?_ r, keeps.returned.later grows⟩
  rw [cut_modify]
  exact .inr (.inl List.mem_cons_self)

theorem resume_keepsReal {s s' : AirSystem} {task : Nat} (keeps : KeepsReal s) (made : s.resume task = some s') :
    KeepsReal s' := by
  unfold AirSystem.resume at made
  split at made
  · cases made
  · cases made
    exact ⟨real_setFlag keeps.real _ _, keeps.returned⟩
  · cases made
    exact ⟨keeps.real, keeps.returned⟩

theorem write_keepsReal {s s' : AirSystem} {line : Line} (keeps : KeepsReal s) (made : s.write line = some s') :
    KeepsReal s' := by
  unfold AirSystem.write at made
  split at made
  · obtain ⟨-, made⟩ := Option.ite_none_right_eq_some.mp made
    cases made
    exact ⟨keeps.real, keeps.returned⟩
  · obtain ⟨-, made⟩ := Option.ite_none_right_eq_some.mp made
    cases made
    exact ⟨keeps.real, keeps.returned⟩
  · cases made
    exact ⟨keeps.real, keeps.returned⟩
  · cases made
    exact ⟨keeps.real, keeps.returned⟩
  · cases made
    exact ⟨keeps.real, keeps.returned⟩
  · rename_i call value rest pc
    obtain ⟨t, run, rfl⟩ := Option.map_eq_some_iff.mp made
    have grows : s.history ⊆ if t.result.isSome then .wrote call.register value :: s.history else s.history := by
      split
      · exact List.subset_cons_self _ _
      · exact List.Subset.refl _
    exact ⟨fun r => HasSource.later (keeps.real r) grows, keeps.returned.later grows⟩
  · rename_i call rest pc
    cases made
    have grows := List.subset_cons_self (.cleared call.register) s.history
    exact ⟨fun r => HasSource.later (real_setFlag keeps.real _ _ r) grows, keeps.returned.later grows⟩
  · cases made
    exact ⟨keeps.real, keeps.returned⟩

theorem read_keepsReal {s s' : AirSystem} {line : Line} {stack : Nat → BitVec 16} (keeps : KeepsReal s)
    (received : ¬ CopiesFailed s.readTask) (made : s.read line stack = some s') : KeepsReal s' := by
  have returned := keeps.returned
  unfold AirSystem.read at made
  cases pc : s.readTask with
  | takeMutex half =>
      rw [pc] at made
      obtain ⟨-, made⟩ := Option.ite_none_right_eq_some.mp made
      cases made
      exact ⟨keeps.real, trivial⟩
  | transaction half =>
      rw [pc] at made
      obtain ⟨t, run, rfl⟩ := Option.map_eq_some_iff.mp made
      have grows := List.subset_append_right
        ((List.range ((t.result.map answerValues).getD []).length).map fun i =>
          Happening.returned (half.register (1 + i)) (((t.result.map answerValues).getD []).getD i 0)) s.history
      refine ⟨fun r => HasSource.later (keeps.real r) grows,
        holdsReturned_next (by decide) fun success j first last => ?_⟩
      obtain ⟨answer, result⟩ := Option.isSome_iff_exists.mp success
      obtain ⟨length, wide⟩ := values_returned run result
      rw [result, Option.map_some, Option.getD_some, if_pos first]
      have inside : j - 1 < (answerValues answer).length := by omega
      have value (other : BitVec 16) : (answerValues answer).getD (j - 1) other = (answerValues answer)[j - 1] := by
        rw [List.getD_eq_getElem?_getD, List.getElem?_eq_getElem inside, Option.getD_some]
      refine List.mem_append_left _ (List.mem_map.mpr ⟨j - 1, List.mem_range.mpr inside, ?_⟩)
      rw [value, value, wide _ (List.getElem_mem inside), Nat.add_sub_cancel' first]
  | testFlag half temp result i =>
      rw [pc] at made returned
      cases made
      refine ⟨keeps.real, ?_⟩
      dsimp only
      split
      · exact returned
      · exact holdsReturned_next (Nat.le_add_left 1 i) fun success => (returned success).2.2
  | copy half temp result i =>
      rw [pc] at made returned received
      cases made
      have success : result = true := Bool.not_eq_false _ ▸ received
      obtain ⟨first, last, all⟩ := returned success
      exact ⟨real_store keeps.real (List.Subset.refl _) (.inr (.inr (all i first last))),
        holdsReturned_next (Nat.le_add_left 1 i) fun _ => all⟩
  | giveMutex half =>
      rw [pc] at made
      cases made
      exact ⟨keeps.real, trivial⟩

theorem step_keepsReal (s : AirSystem) (e : AirEvent) (s' : AirSystem) (keeps : KeepsReal s)
    (received : CopiesReceived s e) (made : e.run s = some s') : KeepsReal s' := by
  cases e with
  | modify task call => exact modify_keepsReal keeps made
  | resume task => exact resume_keepsReal keeps made
  | write line => exact write_keepsReal keeps made
  | read line stack => exact read_keepsReal keeps (received rfl) made

theorem start_keepsReal (master : ModbusMaster) : KeepsReal (.start master) where
  real r := by
    left
    cases r <;> rfl
  returned := trivial

theorem received_copies_real (master : ModbusMaster) (events : List AirEvent) (s : AirSystem)
    (run : runAirsys events (.start master) = some s)
    (received : EachStep AirEvent.run CopiesReceived events (.start master)) :
    RealValues s ∧ EachStep AirEvent.run FailedReadKeeps events (.start master) :=
  ⟨(runSteps_keeps step_keepsReal (start_keepsReal master) received run).real,
    received.mono fun _ _ never reads failed => absurd failed (never reads)⟩

def readCoil (line : Line) : List AirEvent := List.replicate 4 (.read line fun _ => 7)

def zeroCoils : Line := ⟨frame ([1, 1, 10] ++ List.replicate 10 0), true⟩

theorem received_copies_real_coil : ∃ s, runAirsys (readCoil zeroCoils) (.start idleMaster) = some s ∧
    RealValues s ∧ EachStep AirEvent.run FailedReadKeeps (readCoil zeroCoils) (.start idleMaster) := by
  have made : (runAirsys (readCoil zeroCoils) (.start idleMaster)).isSome = true := by decide
  obtain ⟨s, run⟩ := Option.isSome_iff_exists.mp made
  exact ⟨s, run, received_copies_real idleMaster (readCoil zeroCoils) s run (by decide +kernel)⟩

/-- After a read that nothing answers, coil 1 holds what was in the local array. -/
theorem unanswered_read_copied : ¬ ∀ (master : ModbusMaster) (events : List AirEvent) (s : AirSystem),
    runAirsys events (.start master) = some s →
      RealValues s ∧ EachStep AirEvent.run FailedReadKeeps events (.start master) := by
  intro all
  have ends : (runAirsys (readCoil ⟨[], false⟩) (.start idleMaster)).map
      (fun s => (s.history, s.airsysReg.value (.coil 1))) = some ([], 7) := by decide
  obtain ⟨s, run, shown⟩ := Option.map_eq_some_iff.mp ends
  injection shown with history value
  have source := (all idleMaster (readCoil ⟨[], false⟩) s run).1 (.coil 1)
  rw [history, value] at source
  rcases source with initial | requested | returned
  · cases initial
  · cases requested
  · cases returned

end EspFirmware.Proof
