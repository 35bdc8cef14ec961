import EspFirmware.Spec.Airsys

namespace EspFirmware.Proof.App
open EspFirmware.App EspFirmware.Spec

variable {MOTOR : Nat}

structure MotorOk (MOTOR : Nat) (mtr : CsroMotor) : Prop where
  index : mtr.index < MOTOR
  timer : OnTimer mtr

section
variable {mtr : CsroMotor}

def actionTime : MotorState → Nat
  | .UP | .DOWN => 1200
  | .STOP => 0
  | .TOUP | .TODOWN => 5

theorem motorDoAction_eq (index : mtr.index < MOTOR) (action : MotorState) :
    motorDoAction MOTOR mtr action = { mtr with countDown := actionTime action, stateNow := action } := by
  have inUse : ¬ MOTOR < mtr.index + 1 := by omega
  unfold motorDoAction
  rw [if_neg inUse]
  cases action <;> rfl

theorem onTimer_action (mtr : CsroMotor) (action : MotorState) :
    OnTimer { mtr with countDown := actionTime action, stateNow := action } := by
  constructor <;> cases action <;> simp [actionTime, Driven]

def response : MotorState → MotorState → Option MotorState
  | .UP, .DOWN => some .TODOWN
  | .DOWN, .UP => some .TOUP
  | .TODOWN, .DOWN => none
  | _, command => some command

def Taken (command : MotorState) : Prop := command = .UP ∨ command = .DOWN ∨ command = .STOP

theorem motorProcessCommand_ignored {command : MotorState} (ignored : ¬ Taken command) (source : BitVec 8)
    (timeNow : BitVec 32) : motorProcessCommand MOTOR mtr command source timeNow = mtr := by
  unfold motorProcessCommand
  split
  · rfl
  · exact if_neg ignored

theorem motorProcessCommand_taken (index : mtr.index < MOTOR) {command : MotorState} (taken : Taken command)
    (source : BitVec 8) (timeNow : BitVec 32) :
    let mtr' := motorProcessCommand MOTOR mtr command source timeNow
    mtr'.index = mtr.index ∧
      match response mtr.stateNow command with
      | some action => mtr'.stateNow = action ∧ mtr'.countDown = actionTime action
      | none => mtr'.stateNow = mtr.stateNow ∧ mtr'.countDown = mtr.countDown := by
  have inUse : ¬ MOTOR < mtr.index + 1 := by omega
  have accepted : command = .UP ∨ command = .DOWN ∨ command = .STOP := taken
  unfold motorProcessCommand
  rw [if_neg inUse, if_pos accepted]
  simp only [motorDoAction_eq index]
  rcases taken with rfl | rfl | rfl <;> cases state : mtr.stateNow <;> simp [response, state]

theorem response_of_toup {command : MotorState} : response .TOUP command = some command := by
  cases command <;> rfl

theorem response_of_stop {command : MotorState} : response .STOP command = some command := by
  cases command <;> rfl

theorem motorProcessCommand_ok (ok : MotorOk MOTOR mtr) (command : MotorState) (source : BitVec 8)
    (timeNow : BitVec 32) : MotorOk MOTOR (motorProcessCommand MOTOR mtr command source timeNow) := by
  by_cases taken : Taken command
  · obtain ⟨sameIndex, effect⟩ := motorProcessCommand_taken ok.index taken source timeNow
    refine ⟨sameIndex ▸ ok.index, ?_⟩
    cases answer : response mtr.stateNow command with
    | some action =>
        rw [answer] at effect
        have timed := onTimer_action (motorProcessCommand MOTOR mtr command source timeNow) action
        rw [← effect.2, ← effect.1] at timed
        exact timed
    | none =>
        rw [answer] at effect
        have timed := ok.timer
        constructor
        · rw [effect.1, effect.2]
          exact timed.stopped
        · rw [Driven, effect.1, effect.2]
          exact timed.driven
        · rw [effect.1, effect.2]
          exact timed.reversing
  · rw [motorProcessCommand_ignored taken]
    exact ok

theorem motorTick_idle (idle : mtr.countDown = 0) : motorTick MOTOR mtr = mtr := by
  unfold motorTick
  rw [if_neg (by omega)]

theorem motorTick_running (running : 1 < mtr.countDown) :
    motorTick MOTOR mtr = { mtr with countDown := mtr.countDown - 1 } := by
  unfold motorTick
  rw [if_pos (by omega)]
  exact if_neg (by dsimp only; omega)

def whenDone : MotorState → MotorState
  | .TOUP => .UP
  | .TODOWN => .DOWN
  | _ => .STOP

theorem motorTick_last (index : mtr.index < MOTOR) (last : mtr.countDown = 1) : motorTick MOTOR mtr =
    { mtr with countDown := actionTime (whenDone mtr.stateNow), stateNow := whenDone mtr.stateNow } := by
  unfold motorTick
  rw [if_pos (by omega)]
  dsimp only
  rw [if_pos (by omega)]
  cases state : mtr.stateNow <;> simp only [motorDoAction_eq, index, whenDone]

theorem motorTick_ok (ok : MotorOk MOTOR mtr) : MotorOk MOTOR (motorTick MOTOR mtr) := by
  rcases Nat.lt_trichotomy mtr.countDown 1 with idle | last | running
  · rw [motorTick_idle (by omega)]
    exact ok
  · rw [motorTick_last ok.index last]
    exact ⟨ok.index, onTimer_action mtr _⟩
  · rw [motorTick_running running]
    refine ⟨ok.index, ⟨?_, ?_, ?_⟩⟩
    · have nonzero : mtr.stateNow ≠ .STOP := fun stopped => by
        have := ok.timer.stopped.mp stopped
        omega
      constructor
      · exact fun stopped => absurd stopped nonzero
      · intro zero
        dsimp only at zero
        omega
    · intro driven
      have := ok.timer.driven driven
      dsimp only
      omega
    · intro reversing
      have := ok.timer.reversing reversing
      dsimp only
      omega

end

theorem csroMotorInit_ok (i : Fin MOTOR) : MotorOk MOTOR (csroMotorInit i) :=
  ⟨i.isLt, by constructor <;> simp [csroMotorInit, Driven]⟩

theorem motorsEvent_ok {motor : Motors MOTOR} (ok : ∀ i, MotorOk MOTOR (motor i)) (e : MotorsEvent MOTOR) :
    ∀ i, MotorOk MOTOR (e.run motor i) := by
  intro i
  cases e with
  | command j command source timeNow =>
      by_cases same : i = j
      · rw [MotorsEvent.run, same, Function.update_self]
        exact motorProcessCommand_ok (ok j) command source timeNow
      · rw [MotorsEvent.run, Function.update_of_ne same]
        exact ok i
  | tick => exact motorTick_ok (ok i)

theorem runMotors_ok {motor : Motors MOTOR} (ok : ∀ i, MotorOk MOTOR (motor i))
    (events : List (MotorsEvent MOTOR)) : ∀ i, MotorOk MOTOR (runMotors events motor i) := by
  induction events generalizing motor with
  | nil => exact ok
  | cons e rest ih => exact ih (motorsEvent_ok ok e)

theorem driven_countDown {motor : Motors MOTOR} {i : Fin MOTOR} {e : MotorsEvent MOTOR}
    (ok : MotorOk MOTOR (motor i)) (silent : ¬ MotorsEvent.commands i e) (driven : Driven (motor i))
    (still : Driven (e.run motor i)) :
    (e.run motor i).countDown + (if MotorsEvent.isTick e then 1 else 0) = (motor i).countDown := by
  cases e with
  | command j command source timeNow =>
      have same : MotorsEvent.run (.command j command source timeNow) motor i = motor i := by
        by_cases here : i = j
        · have ignored : ¬ Taken command := fun taken => silent ⟨here.symm, taken⟩
          rw [MotorsEvent.run, ← here, Function.update_self, motorProcessCommand_ignored ignored]
        · rw [MotorsEvent.run, Function.update_of_ne here]
      rw [same]
      rfl
  | tick =>
      have range := ok.timer.driven driven
      change (motorTick MOTOR (motor i)).countDown + 1 = (motor i).countDown
      change Driven (motorTick MOTOR (motor i)) at still
      by_cases last : (motor i).countDown = 1
      · rw [motorTick_last ok.index last] at still
        rcases driven with up | down
        · simp [Driven, up, whenDone] at still
        · simp [Driven, down, whenDone] at still
      · rw [motorTick_running (by omega)]
        dsimp only
        omega

theorem drive_uses_time {i : Fin MOTOR} (events : List (MotorsEvent MOTOR)) (motor : Motors MOTOR)
    (ok : ∀ j, MotorOk MOTOR (motor j)) (silent : ∀ e ∈ events, ¬ MotorsEvent.commands i e)
    (driven : ∀ k, k ≤ events.length → Driven (runMotors (events.take k) motor i)) :
    (runMotors events motor i).countDown + events.countP MotorsEvent.isTick = (motor i).countDown := by
  induction events generalizing motor with
  | nil => rfl
  | cons e rest ih =>
      have here : Driven (motor i) := driven 0 (Nat.zero_le _)
      have next : Driven (e.run motor i) := driven 1 (by simp)
      have later := ih (e.run motor) (motorsEvent_ok ok e)
        (fun x member => silent x (List.mem_cons_of_mem e member))
        (fun k le => driven (k + 1) (by simpa using le))
      have now := driven_countDown (ok i) (silent e List.mem_cons_self) here next
      rw [List.countP_cons]
      change (runMotors rest (e.run motor) i).countDown + _ = _
      omega

theorem driven_motor_is_timed (history : List (MotorsEvent MOTOR)) (i : Fin MOTOR) :
    OnTimer (runMotors history csroMotorInit i) ∧ DriveBounded (runMotors history csroMotorInit) i := by
  have ok := runMotors_ok csroMotorInit_ok history
  refine ⟨(ok i).timer, ?_⟩
  intro events silent driven
  have time := drive_uses_time events (runMotors history csroMotorInit) ok silent driven
  have start := (ok i).timer.driven (driven 0 (Nat.zero_le _))
  have final := driven events.length (Nat.le_refl _)
  rw [List.take_length] at final
  have left := (runMotors_ok ok events i).timer.driven final
  omega

end EspFirmware.Proof.App

/-!
When a reversal pauses. A run is followed from the last moment in a driving state on: until the next
driving state the motor is stopped or in one of the two waiting states.
-/

namespace EspFirmware.Proof.App
open EspFirmware.App EspFirmware.Spec

variable {MOTOR : Nat} {mtr : CsroMotor}

theorem runMotor_cons (e : MotorEvent) (rest : List MotorEvent) (mtr : CsroMotor) :
    runMotor MOTOR (e :: rest) mtr = runMotor MOTOR rest (e.run MOTOR mtr) := rfl

theorem runMotor_append (before after : List MotorEvent) (mtr : CsroMotor) :
    runMotor MOTOR (before ++ after) mtr = runMotor MOTOR after (runMotor MOTOR before mtr) :=
  List.foldl_append

theorem motorEvent_ok (ok : MotorOk MOTOR mtr) (e : MotorEvent) : MotorOk MOTOR (e.run MOTOR mtr) := by
  cases e with
  | command command source timeNow => exact motorProcessCommand_ok ok command source timeNow
  | tick => exact motorTick_ok ok

theorem runMotor_ok (ok : MotorOk MOTOR mtr) (events : List MotorEvent) :
    MotorOk MOTOR (runMotor MOTOR events mtr) := by
  induction events generalizing mtr with
  | nil => exact ok
  | cons e rest ih => exact ih (motorEvent_ok ok e)

@[simp] theorem ticks_tick (events : List MotorEvent) : ticks (.tick :: events) = ticks events + 1 := by
  rw [ticks, List.countP_cons]
  rfl

@[simp] theorem ticks_command (c : MotorState) (source : BitVec 8) (timeNow : BitVec 32)
    (events : List MotorEvent) : ticks (.command c source timeNow :: events) = ticks events := by
  simp [ticks, MotorEvent.isTick]

theorem ticks_replicate (count : Nat) (events : List MotorEvent) :
    ticks (List.replicate count .tick ++ events) = count + ticks events := by
  induction count with
  | zero => simp
  | succ count ih => rw [List.replicate_succ, List.cons_append, ticks_tick, ih]; omega

theorem ticks_asked {wanted : MotorState} {e : MotorEvent} (asked : MotorEvent.asks wanted e) : ticks [e] = 0 := by
  cases e with
  | command c source timeNow => rfl
  | tick => exact asked.elim

def Directs (e : MotorEvent) : Prop := e = .tick ∨ MotorEvent.asks .UP e ∨ MotorEvent.asks .DOWN e

def FirstDriven (MOTOR : Nat) (mtr : CsroMotor) (events : List MotorEvent) (state : MotorState) : Prop :=
  (∀ k, k < events.length → ¬ Driven (runMotor MOTOR (events.take k) mtr)) ∧
    (runMotor MOTOR events mtr).stateNow = state

theorem firstDriven_tail {e : MotorEvent} {rest : List MotorEvent} {state : MotorState}
    (first : FirstDriven MOTOR mtr (e :: rest) state) : FirstDriven MOTOR (e.run MOTOR mtr) rest state :=
  ⟨fun k less => first.1 (k + 1) (by simpa using less), first.2⟩

theorem firstDriven_ends {e : MotorEvent} {rest : List MotorEvent} {state : MotorState}
    (first : FirstDriven MOTOR mtr (e :: rest) state) (driven : Driven (e.run MOTOR mtr)) :
    rest = [] ∧ (e.run MOTOR mtr).stateNow = state := by
  have ended : rest = [] := by
    cases rest with
    | nil => rfl
    | cons x more => exact absurd driven (first.1 1 (by simp))
  subst ended
  exact ⟨rfl, first.2⟩

theorem command_state (ok : MotorOk MOTOR mtr) {command action : MotorState} (taken : Taken command)
    (answer : response mtr.stateNow command = some action) (source : BitVec 8) (timeNow : BitVec 32) :
    (MotorEvent.run MOTOR (.command command source timeNow) mtr).stateNow = action ∧
      (MotorEvent.run MOTOR (.command command source timeNow) mtr).countDown = actionTime action := by
  have effect := (motorProcessCommand_taken ok.index taken source timeNow).2
  rw [answer] at effect
  exact effect

theorem command_unanswered (ok : MotorOk MOTOR mtr) {command : MotorState} (taken : Taken command)
    (answer : response mtr.stateNow command = none) (source : BitVec 8) (timeNow : BitVec 32) :
    (MotorEvent.run MOTOR (.command command source timeNow) mtr).stateNow = mtr.stateNow ∧
      (MotorEvent.run MOTOR (.command command source timeNow) mtr).countDown = mtr.countDown := by
  have effect := (motorProcessCommand_taken ok.index taken source timeNow).2
  rw [answer] at effect
  exact effect

theorem from_todown {events : List MotorEvent} (ok : MotorOk MOTOR mtr) (state : mtr.stateNow = .TODOWN)
    (directs : ∀ e ∈ events, Directs e) (first : FirstDriven MOTOR mtr events .DOWN) :
    mtr.countDown ≤ ticks events := by
  induction events generalizing mtr with
  | nil =>
      have same : mtr.stateNow = .DOWN := first.2
      rw [state] at same
      contradiction
  | cons e rest ih =>
      have range := ok.timer.reversing (Or.inr state)
      have later : ∀ x ∈ rest, Directs x := fun x member => directs x (List.mem_cons_of_mem e member)
      cases e with
      | tick =>
          rw [ticks_tick]
          by_cases last : mtr.countDown = 1
          · omega
          · have running : MotorEvent.run MOTOR .tick mtr = { mtr with countDown := mtr.countDown - 1 } :=
              motorTick_running (by omega)
            have more := ih (motorEvent_ok ok .tick) (by rw [running]; exact state) later (firstDriven_tail first)
            rw [running] at more
            dsimp only at more
            omega
      | command c source timeNow =>
          rw [ticks_command]
          rcases directs _ List.mem_cons_self with tick | up | down
          · cases tick
          · have effect := command_state ok (Or.inl up)
              (by rw [state, up]; rfl) source timeNow
            have ends := (firstDriven_ends first (Or.inl (effect.1.trans rfl))).2
            rw [effect.1] at ends
            contradiction
          · have effect := command_unanswered ok (Or.inr (Or.inl down))
              (by rw [state, down]; rfl) source timeNow
            have more := ih (motorEvent_ok ok _) (effect.1.trans state) later (firstDriven_tail first)
            rw [effect.2] at more
            exact more

theorem from_toup {events : List MotorEvent} (ok : MotorOk MOTOR mtr) (state : mtr.stateNow = .TOUP)
    (directs : ∀ e ∈ events, Directs e) (first : FirstDriven MOTOR mtr events .UP) :
    mtr.countDown ≤ ticks events ∨ ∃ count second, MotorEvent.asks .UP second ∧ count < mtr.countDown ∧
      events = List.replicate count .tick ++ [second] := by
  induction events generalizing mtr with
  | nil =>
      have same : mtr.stateNow = .UP := first.2
      rw [state] at same
      contradiction
  | cons e rest ih =>
      have range := ok.timer.reversing (Or.inl state)
      have later : ∀ x ∈ rest, Directs x := fun x member => directs x (List.mem_cons_of_mem e member)
      cases e with
      | tick =>
          rw [ticks_tick]
          by_cases last : mtr.countDown = 1
          · left
            omega
          · have running : MotorEvent.run MOTOR .tick mtr = { mtr with countDown := mtr.countDown - 1 } :=
              motorTick_running (by omega)
            have more := ih (motorEvent_ok ok .tick) (by rw [running]; exact state) later (firstDriven_tail first)
            rw [running] at more
            dsimp only at more
            rcases more with waited | ⟨count, second, asked, less, rfl⟩
            · left
              omega
            · exact Or.inr ⟨count + 1, second, asked, by omega, rfl⟩
      | command c source timeNow =>
          rcases directs _ List.mem_cons_self with tick | up | down
          · cases tick
          · have effect := command_state ok (Or.inl up)
              (by rw [state]; exact response_of_toup) source timeNow
            have ended := (firstDriven_ends first (Or.inl (effect.1.trans up))).1
            exact Or.inr ⟨0, _, up, by omega, by rw [ended]; rfl⟩
          · have effect := command_state ok (Or.inr (Or.inl down))
              (by rw [state]; exact response_of_toup) source timeNow
            have ends := (firstDriven_ends first (Or.inr (effect.1.trans down))).2
            rw [effect.1.trans down] at ends
            contradiction

theorem from_stop {events : List MotorEvent} {target : MotorState} (ok : MotorOk MOTOR mtr)
    (state : mtr.stateNow = .STOP) (moving : target ≠ .STOP) (directs : ∀ e ∈ events, Directs e)
    (first : FirstDriven MOTOR mtr events target) :
    ∃ count restart, MotorEvent.asks target restart ∧ events = List.replicate count .tick ++ [restart] := by
  induction events generalizing mtr with
  | nil =>
      have same : mtr.stateNow = target := first.2
      exact absurd (same.symm.trans state) moving
  | cons e rest ih =>
      have later : ∀ x ∈ rest, Directs x := fun x member => directs x (List.mem_cons_of_mem e member)
      cases e with
      | tick =>
          have idle : MotorEvent.run MOTOR .tick mtr = mtr := motorTick_idle (ok.timer.stopped.mp state)
          obtain ⟨count, restart, asked, rfl⟩ := ih (motorEvent_ok ok .tick) (by rw [idle]; exact state) later
            (firstDriven_tail first)
          exact ⟨count + 1, restart, asked, rfl⟩
      | command c source timeNow =>
          have direction : c = .UP ∨ c = .DOWN := by
            rcases directs _ List.mem_cons_self with tick | up | down
            · cases tick
            · exact Or.inl up
            · exact Or.inr down
          have taken : Taken c := direction.elim Or.inl fun down => Or.inr (Or.inl down)
          have effect := command_state ok taken
            (by rw [state]; exact response_of_stop) source timeNow
          have driven : Driven (MotorEvent.run MOTOR (.command c source timeNow) mtr) := by
            rw [Driven, effect.1]
            exact direction
          obtain ⟨ended, reached⟩ := firstDriven_ends first driven
          exact ⟨0, .command c source timeNow, effect.1.symm.trans reached, by rw [ended]; rfl⟩

theorem opposite_ne {state : MotorState} (driven : state = .UP ∨ state = .DOWN) : opposite state ≠ state := by
  rcases driven with rfl | rfl <;> decide

theorem reversal_lasts {between : List MotorEvent} (ok : MotorOk MOTOR mtr) (driven : Driven mtr)
    (directs : ∀ e ∈ between, Directs e)
    (reversed : (runMotor MOTOR between mtr).stateNow = opposite mtr.stateNow)
    (inner : ∀ k, 0 < k → k < between.length → ¬ Driven (runMotor MOTOR (between.take k) mtr))
    (notRepeated : ¬ RepeatedUp mtr between) (notRestarted : ¬ RestartedBack mtr between) :
    5 ≤ ticks between := by
  cases between with
  | nil => exact absurd reversed.symm (opposite_ne driven)
  | cons e rest =>
      have later : ∀ x ∈ rest, Directs x := fun x member => directs x (List.mem_cons_of_mem e member)
      have first : FirstDriven MOTOR (e.run MOTOR mtr) rest (opposite mtr.stateNow) :=
        ⟨fun k less => inner (k + 1) (Nat.succ_pos k) (by simpa using less), reversed⟩
      -- an event that does not change the driving state cannot be the first of a reversal
      have leaves : (e.run MOTOR mtr).stateNow ≠ mtr.stateNow := by
        intro same
        have stillDriven : Driven (e.run MOTOR mtr) := by
          rw [Driven, same]
          exact driven
        cases rest with
        | nil => exact opposite_ne driven (reversed.symm.trans same)
        | cons x more => exact inner 1 Nat.one_pos (by simp) stillDriven
      cases e with
      | tick =>
          have range := ok.timer.driven driven
          by_cases last : mtr.countDown = 1
          · have stopped : (MotorEvent.run MOTOR .tick mtr).stateNow = .STOP := by
              change (motorTick MOTOR mtr).stateNow = .STOP
              rw [motorTick_last ok.index last]
              rcases driven with up | down
              · rw [up]
                rfl
              · rw [down]
                rfl
            have moving : opposite mtr.stateNow ≠ .STOP := by
              rcases driven with up | down
              · rw [up]
                decide
              · rw [down]
                decide
            obtain ⟨count, restart, asked, rfl⟩ := from_stop (motorEvent_ok ok .tick) stopped moving later first
            rw [ticks_tick, ticks_replicate, ticks_asked asked]
            by_contra few
            exact notRestarted ⟨driven, last, count + 1, restart, asked, Nat.succ_pos count, by omega, rfl⟩
          · have running : MotorEvent.run MOTOR .tick mtr = { mtr with countDown := mtr.countDown - 1 } :=
              motorTick_running (by omega)
            exact absurd (by rw [running]) leaves
      | command c source timeNow =>
          rw [ticks_command]
          rcases directs _ List.mem_cons_self with tick | up | down
          · cases tick
          · rcases driven with goesUp | goesDown
            · have effect := command_state ok (Or.inl up) (by rw [goesUp, up]; rfl) source timeNow
              exact absurd (effect.1.trans goesUp.symm) leaves
            · have effect := command_state ok (Or.inl up) (by rw [goesDown, up]; rfl) source timeNow
              rw [goesDown] at first
              rcases from_toup (motorEvent_ok ok _) effect.1 later first with waited | ⟨count, second, asked, less, rfl⟩
              · rw [effect.2] at waited
                exact waited
              · rw [effect.2] at less
                exact absurd ⟨goesDown, _, second, count, up, asked, less, rfl⟩ notRepeated
          · rcases driven with goesUp | goesDown
            · have effect := command_state ok (Or.inr (Or.inl down)) (by rw [goesUp, down]; rfl) source timeNow
              rw [goesUp] at first
              have waited := from_todown (motorEvent_ok ok _) effect.1 later first
              rw [effect.2] at waited
              exact waited
            · have effect := command_state ok (Or.inr (Or.inl down)) (by rw [goesDown, down]; rfl) source timeNow
              exact absurd (effect.1.trans goesDown.symm) leaves

theorem waiting_ticks (MOTOR : Nat) (state : mtr.stateNow = .TOUP) (count : Nat) (less : count < mtr.countDown) :
    (runMotor MOTOR (List.replicate count .tick) mtr).stateNow = .TOUP := by
  induction count generalizing mtr with
  | zero => exact state
  | succ count ih =>
      have running : MotorEvent.run MOTOR .tick mtr = { mtr with countDown := mtr.countDown - 1 } :=
        motorTick_running (by omega)
      rw [List.replicate_succ, runMotor_cons, running]
      exact ih state (by dsimp only; omega)

theorem idle_ticks (idle : mtr.countDown = 0) (count : Nat) :
    runMotor MOTOR (List.replicate count .tick) mtr = mtr := by
  induction count with
  | zero => rfl
  | succ count ih =>
      have same : MotorEvent.run MOTOR .tick mtr = mtr := motorTick_idle idle
      rw [List.replicate_succ, runMotor_cons, same, ih]

theorem take_ticks {count k : Nat} (less : k < count + 1) (last : MotorEvent) :
    (List.replicate count MotorEvent.tick ++ [last]).take k = List.replicate k .tick := by
  rw [List.take_append_of_le_length (by rw [List.length_replicate]; omega), List.take_replicate,
    Nat.min_eq_left (by omega)]

theorem not_repeated_of_pauses {between : List MotorEvent} (ok : MotorOk MOTOR mtr)
    (pauses : (runMotor MOTOR between mtr).stateNow = opposite mtr.stateNow →
      (∀ k, 0 < k → k < between.length → ¬ Driven (runMotor MOTOR (between.take k) mtr)) →
      5 ≤ ticks between) : ¬ RepeatedUp mtr between := by
  rintro ⟨goesDown, first, second, count, firstUp, secondUp, few, rfl⟩
  cases first with
  | tick => exact firstUp
  | command c source timeNow =>
      have effect := command_state ok (Or.inl firstUp) (by rw [goesDown, firstUp]; rfl) source timeNow
      have waiting (k : Nat) (le : k ≤ count) := waiting_ticks MOTOR effect.1 k
        (by rw [effect.2, actionTime]; omega)
      have enough := pauses ?_ ?_
      · rw [List.cons_append, ticks_command, ticks_replicate, ticks_asked secondUp] at enough
        omega
      · have waitingOk := runMotor_ok (motorEvent_ok ok (.command c source timeNow)) (List.replicate count .tick)
        rw [List.cons_append, runMotor_cons, runMotor_append, goesDown]
        cases second with
        | tick => exact secondUp.elim
        | command c' source' timeNow' =>
            have ended := command_state waitingOk (Or.inl secondUp)
              (by rw [waiting count (Nat.le_refl count)]; exact response_of_toup) source' timeNow'
            exact ended.1.trans secondUp
      · intro k positive less
        obtain ⟨k, rfl⟩ := Nat.exists_eq_succ_of_ne_zero (Nat.pos_iff_ne_zero.mp positive)
        have below : k < count + 1 := by simpa using less
        rw [List.cons_append, List.take_succ_cons, take_ticks below, runMotor_cons, Driven,
          waiting k (by omega)]
        decide

theorem not_restarted_of_pauses {between : List MotorEvent} (ok : MotorOk MOTOR mtr)
    (pauses : (runMotor MOTOR between mtr).stateNow = opposite mtr.stateNow →
      (∀ k, 0 < k → k < between.length → ¬ Driven (runMotor MOTOR (between.take k) mtr)) →
      5 ≤ ticks between) : ¬ RestartedBack mtr between := by
  rintro ⟨driven, last, count, restart, asked, positive, few, rfl⟩
  have stopped (k : Nat) (started : 0 < k) :
      (runMotor MOTOR (List.replicate k .tick) mtr).stateNow = .STOP := by
    obtain ⟨k, rfl⟩ := Nat.exists_eq_succ_of_ne_zero (Nat.pos_iff_ne_zero.mp started)
    have final : MotorEvent.run MOTOR .tick mtr =
        { mtr with countDown := 0, stateNow := .STOP } := by
      change motorTick MOTOR mtr = _
      rw [motorTick_last ok.index last]
      rcases driven with up | down
      · rw [up]
        rfl
      · rw [down]
        rfl
    rw [List.replicate_succ, runMotor_cons, final, idle_ticks rfl]
  have enough := pauses ?_ ?_
  · rw [ticks_replicate, ticks_asked asked] at enough
    omega
  · have stoppedOk := runMotor_ok ok (List.replicate count .tick)
    rw [runMotor_append]
    cases restart with
    | tick => exact asked.elim
    | command c source timeNow =>
        have taken : Taken c := by
          rcases driven with up | down
          · rw [up] at asked
            exact Or.inr (Or.inl asked)
          · rw [down] at asked
            exact Or.inl asked
        have effect := command_state stoppedOk taken
          (by rw [stopped count positive]; exact response_of_stop) source timeNow
        exact effect.1.trans asked
  · intro k started less
    have below : k < count + 1 := by simpa using less
    rw [take_ticks below, Driven, stopped k started]
    decide

theorem reversal_pauses_iff (history : List (MotorsEvent MOTOR)) (i : Fin MOTOR) (events : List MotorEvent)
    (directs : ∀ e ∈ events, e = .tick ∨ MotorEvent.asks .UP e ∨ MotorEvent.asks .DOWN e) :
    Pauses MOTOR (runMotors history csroMotorInit i) events ↔
      Unhurried MOTOR (runMotors history csroMotorInit i) events := by
  have start := runMotors_ok csroMotorInit_ok history i
  constructor
  · intro pauses before between after split
    have ok := runMotor_ok start before
    have here := pauses before between after split
    simp only [runMotor_append] at here
    constructor
    · intro repeated
      exact not_repeated_of_pauses ok (here (Or.inr repeated.1)) repeated
    · intro restarted
      exact not_restarted_of_pauses ok (here restarted.1) restarted
  · intro unhurried before between after split driven reversed inner
    obtain ⟨notRepeated, notRestarted⟩ := unhurried before between after split
    have inside : ∀ e ∈ between, Directs e := by
      intro e member
      exact directs e (by rw [split]; simp [member])
    simp only [runMotor_append] at reversed inner
    exact reversal_lasts (runMotor_ok start before) driven inside reversed inner notRepeated notRestarted

theorem reversal_down_pauses_iff :
    let up : MotorEvent := .command .UP 1 0
    let down : MotorEvent := .command .DOWN 1 0
    let events := [up, down, .tick, .tick, .tick, .tick, .tick]
    (runMotor 1 events (runMotors [] (csroMotorInit : Motors 1) 0)).stateNow = .DOWN ∧
      (Pauses 1 (runMotors [] (csroMotorInit : Motors 1) 0) events ↔
        Unhurried 1 (runMotors [] (csroMotorInit : Motors 1) 0) events) := by
  refine ⟨by decide, reversal_pauses_iff [] 0 _ ?_⟩
  simp [MotorEvent.asks]

/-- Down, then up twice: the motor goes up at once. -/
theorem repeated_up_reverses_at_once :
    ¬ ∀ (history : List (MotorsEvent 1)) (i : Fin 1) (events : List MotorEvent),
      (∀ e ∈ events, e = .tick ∨ MotorEvent.asks .UP e ∨ MotorEvent.asks .DOWN e) →
      Pauses 1 (runMotors history csroMotorInit i) events := by
  intro always
  let up : MotorEvent := .command .UP 1 0
  let down : MotorEvent := .command .DOWN 1 0
  have pauses := always [] 0 [down, up, up] (by simp [MotorEvent.asks, up, down]) [down] [up, up] [] rfl
    (by decide) (by decide)
  have enough := pauses (by
    intro k positive less
    have one : k = 1 := by
      simp only [List.length_cons, List.length_nil] at less
      omega
    subst one
    decide)
  exact absurd enough (by decide)

end EspFirmware.Proof.App
