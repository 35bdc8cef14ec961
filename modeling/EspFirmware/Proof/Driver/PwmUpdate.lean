import EspFirmware.Proof.Driver.PwmTable

namespace EspFirmware.Driver
open Lib Spec

variable {convert : Nat → Nat → Nat → Nat}

namespace RunPwmSingle
variable {single : RunPwmSingle} {table : List PwmParam}

def Holds (single : RunPwmSingle) (table : List PwmParam) : Prop :=
  single.run_channel_num = table.length ∧ single.run_pwm_param.take table.length = table ∧ table ≠ []

theorem Holds.edge (holds : single.Holds table) {current : Nat} (inside : current < table.length) (mask : BitVec 32) :
    single.edge current mask = (⟨table.length, table⟩ : RunPwmSingle).edge current mask := by
  obtain ⟨number, entries, -⟩ := holds
  have entry (i : Nat) (inside : i < table.length) : single.run_pwm_param.getD i default = table.getD i default := by
    conv_rhs => rw [← entries]
    rw [List.getD_eq_getElem?_getD, List.getD_eq_getElem?_getD, List.getElem?_take_of_lt inside]
  have before : (if current = 0 then table.length - 1 else current - 1) < table.length := by
    split <;> omega
  rw [RunPwmSingle.edge, RunPwmSingle.edge, number, entry _ before, entry _ inside]

theorem Holds.next (holds : single.Holds table) (current : Nat) :
    single.next current = (⟨table.length, table⟩ : RunPwmSingle).next current := by
  rw [RunPwmSingle.next, RunPwmSingle.next, holds.1]

theorem next_lt {current : Nat} (middle : single.next current ≠ 0) : single.next current < single.run_channel_num := by
  unfold RunPwmSingle.next at middle ⊢
  split at middle
  · exact absurd rfl middle
  next more =>
      rw [if_neg more]
      exact Nat.lt_of_not_le more

theorem Holds.length_pos (holds : single.Holds table) : 0 < table.length := List.length_pos_of_ne_nil holds.2.2

end RunPwmSingle

structure Playing (o : PwmOutput) (wanted cycle : List PwmParam) : Prop where
  taken : o.update_done = false → (o.run_pwm o.single).Holds wanted ∧ o.single ≠ o.run_pwm_toggle
  ready : o.update_done = true → (o.run_pwm o.run_pwm_toggle).Holds wanted
  going : o.current_channel ≠ 0 → (o.run_pwm o.single).Holds cycle ∧ o.current_channel < cycle.length ∧
    o.single ≠ o.run_pwm_toggle

section
variable {o : PwmOutput} {wanted cycle : List PwmParam} (playing : Playing o wanted cycle)
include playing

theorem Playing.update : o.update.playing.Holds (if o.current_channel = 0 then wanted else cycle) ∧
    o.current_channel < (if o.current_channel = 0 then wanted else cycle).length ∧
    o.update.single ≠ o.update.run_pwm_toggle ∧ o.update.current_channel = o.current_channel := by
  unfold PwmOutput.update
  by_cases first : o.current_channel = 0
  · cases done : o.update_done with
    | false =>
        obtain ⟨holds, other⟩ := playing.taken done
        rw [if_pos first, if_neg fun all => absurd all.2 Bool.false_ne_true]
        exact ⟨holds, first ▸ holds.length_pos, other, rfl⟩
    | true =>
        have holds := playing.ready done
        rw [if_pos first, if_pos ⟨first, rfl⟩]
        exact ⟨holds, first ▸ holds.length_pos, (Bool.not_ne_self _).symm, rfl⟩
  · obtain ⟨holds, inside, other⟩ := playing.going first
    rw [if_neg first, if_neg fun all => first all.1]
    exact ⟨holds, inside, other, rfl⟩

theorem Playing.edge (level : BitVec 32) : Playing (o.pwm_timer_intr_handler level).2 wanted
    (if o.current_channel = 0 then wanted else cycle) := by
  obtain ⟨holds, inside, other, same⟩ := playing.update
  refine ⟨fun notDone => ?_, fun done => ?_, fun middle => ⟨holds, ?_, other⟩⟩
  · refine ⟨?_, other⟩
    by_cases first : o.current_channel = 0
    · rw [if_pos first] at holds
      exact holds
    · have kept : o.update = o := if_neg fun all => first all.1
      have before : o.update_done = false := kept ▸ notDone
      have plays : ((o.pwm_timer_intr_handler level).2.run_pwm (o.pwm_timer_intr_handler level).2.single) =
          o.run_pwm o.single := by
        change o.update.run_pwm o.update.single = _
        rw [kept]
      rw [plays]
      exact (playing.taken before).1
  · have done' : o.update.update_done = true := done
    have kept : o.update = o := by
      unfold PwmOutput.update at done' ⊢
      split at done'
      next => cases done'
      next notTaken => exact if_neg notTaken
    change (o.update.run_pwm o.update.run_pwm_toggle).Holds wanted
    rw [kept] at done' ⊢
    exact playing.ready done'
  · have next : o.update.playing.next o.update.current_channel ≠ 0 := middle
    exact holds.1 ▸ RunPwmSingle.next_lt next

end

def Begun (p : Pwm) (first : Bool) : Prop :=
  p.output.start_flag = true ∧
    if first then p.timer = false ∧ p.output.current_channel = 0 else p.timer = true ∧ p.output.update_done = false

def Calling (p : Pwm) (called : List PwmParam) : PwmPc → Prop
  | .idle => p.output.start_flag = p.timer
  | .copying param count first =>
      param = called ∧ called ≠ [] ∧ called.length ≤ 2 * p.settings.channel_num + 1 ∧ count ≤ called.length ∧
        (p.output.run_pwm p.output.run_pwm_toggle).run_pwm_param.take count = called.take count ∧ Begun p first
  | .copied first => (p.output.run_pwm p.output.run_pwm_toggle).Holds called ∧ Begun p first

structure PwmSound (r : PwmRun) : Prop where
  depth : 0 < r.p.settings.depth
  sized : ∀ k, (r.p.output.run_pwm k).run_pwm_param.length = 2 * r.p.settings.channel_num + 1
  playing : r.p.timer = true → Playing r.p.output r.wanted r.cycle
  calling : Calling r.p r.called r.p.pc

variable {r r' : PwmRun}

theorem PwmSound.wins (sound : PwmSound r) : r.LastSettingWins := by
  refine ⟨fun timer => ?_, fun timer => ?_, fun timer busy => ?_⟩
  · obtain ⟨holds, inside, -, same⟩ := (sound.playing timer).update
    rw [PwmOutput.pwm_timer_intr_handler, same]
    exact holds.edge inside r.p.level
  · obtain ⟨holds, -, -, same⟩ := (sound.playing timer).update
    simp only [PwmOutput.pwm_timer_intr_handler, same]
    exact holds.next _
  · have notDone : r.p.output.update_done = false := by
      have calling := sound.calling
      cases pc : r.p.pc with
      | idle => exact absurd pc busy
      | copying param count first =>
          rw [pc] at calling
          obtain ⟨-, -, -, -, -, -, begun⟩ := calling
          cases first with
          | true => exact absurd (timer.symm.trans begun.1) (by decide)
          | false => exact begun.2
      | copied first =>
          rw [pc] at calling
          obtain ⟨-, -, begun⟩ := calling
          cases first with
          | true => exact absurd (timer.symm.trans begun.1) (by decide)
          | false => exact begun.2
    have kept : r.p.output.update = r.p.output := if_neg fun all => absurd (notDone.symm.trans all.2) (by decide)
    change r.p.output.update.single ≠ _
    rw [kept]
    exact ((sound.playing timer).taken notDone).2

theorem apply_kept (settings : PwmSettings) (call : PwmSetting) :
    (call.apply settings).depth = settings.depth ∧ (call.apply settings).channel_num = settings.channel_num := by
  have duties (settings : PwmSettings) (values : Nat → Nat) : (settings.pwm_set_duties values).depth = settings.depth ∧
      (settings.pwm_set_duties values).channel_num = settings.channel_num := ⟨rfl, List.length_mapIdx⟩
  have period (us : Nat) : ((settings.pwm_set_period us).getD settings).depth = settings.depth ∧
      ((settings.pwm_set_period us).getD settings).channel_num = settings.channel_num := by
    unfold PwmSettings.pwm_set_period
    split <;> exact ⟨rfl, rfl⟩
  have info (channel_num : Nat) (change : PwmInfo → PwmInfo) :
      ((settings.setInfo channel_num change).getD settings).depth = settings.depth ∧
      ((settings.setInfo channel_num change).getD settings).channel_num = settings.channel_num := by
    unfold PwmSettings.setInfo
    split
    · exact ⟨rfl, List.length_modify ..⟩
    · exact ⟨rfl, rfl⟩
  cases call with
  | period us => exact period us
  | invert channel_mask =>
      simp only [PwmSetting.apply, PwmSettings.pwm_set_channel_invert]
      split <;> exact ⟨rfl, rfl⟩
  | clearInvert channel_mask =>
      simp only [PwmSetting.apply, PwmSettings.pwm_clear_channel_invert]
      split <;> exact ⟨rfl, rfl⟩
  | duty channel_num value => exact info channel_num _
  | duties values => exact duties settings values
  | periodDuties us values =>
      obtain ⟨depth, number⟩ := duties ((settings.pwm_set_period us).getD settings) values
      exact ⟨depth.trans (period us).1, number.trans (period us).2⟩
  | phase channel_num value => exact info channel_num _
  | phases values => exact ⟨rfl, List.length_mapIdx⟩

theorem setRun_toggle (p : Pwm) (single : RunPwmSingle) :
    (p.setRun single).output.run_pwm p.output.run_pwm_toggle = single := if_pos rfl

theorem setRun_other (p : Pwm) (single : RunPwmSingle) {k : Bool} (other : k ≠ p.output.run_pwm_toggle) :
    (p.setRun single).output.run_pwm k = p.output.run_pwm k := if_neg other

theorem setRun_length (p : Pwm) (single : RunPwmSingle) {size : Nat}
    (sized : ∀ k, (p.output.run_pwm k).run_pwm_param.length = size) (same : single.run_pwm_param.length = size)
    (k : Bool) : ((p.setRun single).output.run_pwm k).run_pwm_param.length = size := by
  by_cases here : k = p.output.run_pwm_toggle
  · rw [here, setRun_toggle]
    exact same
  · rw [setRun_other p single here]
    exact sized k

theorem Playing.setRun {p : Pwm} {wanted cycle : List PwmParam} (playing : Playing p.output wanted cycle)
    (single : RunPwmSingle) (notDone : p.output.update_done = false) :
    Playing (p.setRun single).output wanted cycle := by
  obtain ⟨holds, other⟩ := playing.taken notDone
  have kept : (p.setRun single).output.run_pwm p.output.single = p.output.run_pwm p.output.single :=
    setRun_other p single other
  refine ⟨fun _ => ⟨?_, other⟩, fun done => ?_, fun middle => ?_⟩
  · rw [← kept] at holds
    exact holds
  · exact absurd (notDone.symm.trans done) (by decide)
  · obtain ⟨holds, inside, other⟩ := playing.going middle
    rw [← kept] at holds
    exact ⟨holds, inside, other⟩

theorem Begun.notDone {p : Pwm} {first : Bool} (begun : Begun p first) (timer : p.timer = true) :
    p.output.update_done = false := by
  cases first with
  | true => exact absurd (timer.symm.trans begun.2.1) (by decide)
  | false => exact begun.2.2

theorem PwmSound.start (sound : PwmSound r) {left : StartMasks} (taken : TakenBefore r.p (.start left))
    (made : r.step convert (.start left) = some r') : PwmSound r' := by
  obtain ⟨p, ran, rfl⟩ := Option.map_eq_some_iff.mp made
  obtain ⟨idle, ⟨⟩⟩ := Option.ite_none_right_eq_some.mp ran
  have size := table_length convert (s := r.p.settings) left
  have some := table_ne_nil convert left sound.depth
  have calling := sound.calling
  rw [idle] at calling
  simp only [PwmRun.note]
  generalize r.p.settings.table convert left = table at size some
  cases on' : r.p.output.start_flag with
  | false =>
      have timer : r.p.timer = false := calling.symm.trans on'
      have first : r.p.pwm_start table = { r.p with
          output := { r.p.output with start_flag := true, run_pwm_toggle := false, single := false, current_channel := 0 }
          pc := .copying table 0 true } := if_pos (by rw [on']; rfl)
      rw [first]
      refine ⟨sound.depth, sound.sized, fun on' => absurd (timer.symm.trans on') (by decide), ?_⟩
      exact ⟨rfl, some, size, Nat.zero_le _, rfl, rfl, timer, rfl⟩
  | true =>
      have notDone := taken on'
      have timer : r.p.timer = true := calling.symm.trans on'
      have second : r.p.pwm_start table = { r.p with pc := .copying table 0 false } := by
        rw [Pwm.pwm_start, if_neg (by rw [on']; decide), if_pos (by rw [notDone]; rfl)]
      rw [second]
      exact ⟨sound.depth, sound.sized, sound.playing, rfl, some, size, Nat.zero_le _, rfl, on', timer, notDone⟩

theorem take_set_succ {entries table : List PwmParam} {count : Nat} (room : count < entries.length)
    (more : count < table.length) (before : entries.take count = table.take count) :
    (entries.set count (table.getD count default)).take (count + 1) = table.take (count + 1) := by
  rw [List.take_add_one, List.take_add_one, List.take_set_of_le (Nat.le_refl count), before,
    List.getElem?_set_self room, List.getD_eq_getElem?_getD, List.getElem?_eq_getElem more, Option.getD_some]

theorem PwmSound.copy (sound : PwmSound r) (made : r.step convert .copy = some r') : PwmSound r' := by
  obtain ⟨p, ran, rfl⟩ := Option.map_eq_some_iff.mp made
  have calling := sound.calling
  simp only [PwmEvent.run, Pwm.copyStep] at ran
  cases pc : r.p.pc with
  | idle =>
      rw [pc] at ran
      cases ran
  | copying param count first =>
      rw [pc] at ran calling
      obtain ⟨rfl, some, size, inside, entries, begun⟩ := calling
      simp only at ran
      split at ran
      next more =>
          cases ran
          refine ⟨sound.depth, setRun_length r.p _ sound.sized ((List.length_set ..).trans (sound.sized _)),
            fun timer => (sound.playing timer).setRun _ (begun.notDone timer), rfl, some, size, more, ?_, begun⟩
          have room : count < (r.p.output.run_pwm r.p.output.run_pwm_toggle).run_pwm_param.length := by
            rw [sound.sized]
            omega
          simp only [PwmRun.note, Pwm.copyEntry, Pwm.setRun, if_pos]
          exact take_set_succ room more entries
      next all =>
          cases ran
          obtain rfl : count = r.called.length := by omega
          refine ⟨sound.depth, setRun_length r.p _ sound.sized (sound.sized _),
            fun timer => (sound.playing timer).setRun _ (begun.notDone timer), ?_, begun⟩
          rw [List.take_length] at entries
          simp only [PwmRun.note, Pwm.setRun, if_pos]
          exact ⟨rfl, entries, some⟩
  | copied first =>
      rw [pc] at ran calling
      obtain ⟨holds, begun⟩ := calling
      cases ran
      refine ⟨sound.depth, sound.sized, fun timer => ?_, ?_⟩
      · refine ⟨fun notDone => absurd notDone.symm Bool.false_ne_true, fun _ => holds, fun middle => ?_⟩
        cases first with
        | true => exact absurd begun.2.2 middle
        | false => exact (sound.playing begun.2.1).going middle
      · cases first with
        | true => exact begun.1.trans (Bool.or_true _).symm
        | false => exact begun.1.trans (begun.2.1.symm.trans (Bool.or_false _).symm)

theorem PwmSound.edge (sound : PwmSound r) (made : r.step convert .edge = some r') : PwmSound r' := by
  obtain ⟨p, ran, rfl⟩ := Option.map_eq_some_iff.mp made
  obtain ⟨timer, ⟨⟩⟩ := Option.ite_none_right_eq_some.mp ran
  have tables : (r.p.output.pwm_timer_intr_handler r.p.level).2.run_pwm = r.p.output.run_pwm ∧
      (r.p.output.pwm_timer_intr_handler r.p.level).2.start_flag = r.p.output.start_flag := by
    simp only [PwmOutput.pwm_timer_intr_handler, PwmOutput.update]
    split <;> exact ⟨rfl, rfl⟩
  refine ⟨sound.depth, fun k => ?_, fun _ => (sound.playing timer).edge r.p.level, ?_⟩
  · exact (congrArg (fun tables => (tables k).run_pwm_param.length) tables.1).trans (sound.sized k)
  · have calling := sound.calling
    have untouched (notDone : r.p.output.update_done = false) : r.p.output.update = r.p.output :=
      if_neg fun all => absurd (notDone.symm.trans all.2) (by decide)
    have begun {first : Bool} (begun : Begun r.p first) (p : Pwm)
        (same : p.output = (r.p.output.pwm_timer_intr_handler r.p.level).2 ∧ p.timer = r.p.timer) : Begun p first := by
      have notDone := begun.notDone timer
      cases first with
      | true => exact absurd (timer.symm.trans begun.2.1) (by decide)
      | false =>
          refine ⟨?_, same.2.trans timer, ?_⟩
          · rw [same.1, tables.2]
            exact begun.1
          · rw [same.1, PwmOutput.pwm_timer_intr_handler, untouched notDone]
            exact notDone
    cases pc : r.p.pc with
    | idle =>
        rw [pc] at calling
        simp only [PwmRun.note]
        exact tables.2.trans calling
    | copying param count first =>
        rw [pc] at calling
        simp only [PwmRun.note]
        obtain ⟨same, some, size, inside, entries, begun'⟩ := calling
        refine ⟨same, some, size, inside, ?_, begun begun' _ ⟨rfl, rfl⟩⟩
        simp only [untouched (begun'.notDone timer)]
        exact entries
    | copied first =>
        rw [pc] at calling
        simp only [PwmRun.note]
        obtain ⟨holds, begun'⟩ := calling
        refine ⟨?_, begun begun' _ ⟨rfl, rfl⟩⟩
        simp only [untouched (begun'.notDone timer)]
        exact holds

theorem PwmSound.step (sound : PwmSound r) {event : PwmEvent} (taken : TakenBefore r.p event)
    (made : r.step convert event = some r') : PwmSound r' := by
  cases event with
  | start left => exact sound.start taken made
  | copy => exact sound.copy made
  | edge => exact sound.edge made
  | setting call =>
      obtain ⟨p, ran, rfl⟩ := Option.map_eq_some_iff.mp made
      obtain ⟨idle, ⟨⟩⟩ := Option.ite_none_right_eq_some.mp ran
      obtain ⟨depth, number⟩ := apply_kept r.p.settings call
      have calling := sound.calling
      rw [idle] at calling
      refine ⟨depth ▸ sound.depth, number ▸ sound.sized, sound.playing, ?_⟩
      simp only [PwmRun.note, idle]
      exact calling
  | stop stop_level_mask =>
      obtain ⟨p, ran, rfl⟩ := Option.map_eq_some_iff.mp made
      obtain ⟨idle, ⟨⟩⟩ := Option.ite_none_right_eq_some.mp ran
      refine ⟨sound.depth, sound.sized, fun timer => absurd timer Bool.false_ne_true, ?_⟩
      simp only [PwmRun.note, Pwm.pwm_stop, idle]
      rfl

theorem pwm_init_kept {period : Nat} {duties : Nat → Nat} {pin_num : List Nat} {settings : PwmSettings}
    (initialized : pwm_init period duties pin_num = some settings) :
    0 < settings.depth ∧ settings.channel_num = pin_num.length := by
  obtain ⟨⟨-, long⟩, ⟨⟩⟩ := Option.ite_none_right_eq_some.mp initialized
  have kept := apply_kept ⟨period, 0, pin_num.map fun pin => ⟨0, 0, pin % 2 ^ 8⟩, 0⟩ (.periodDuties period duties)
  refine ⟨?_, kept.2.trans (List.length_map _)⟩
  have depth : _ = period := kept.1
  exact lt_of_lt_of_eq ((Nat.succ_pos 9).trans_le long) depth.symm

/-- The table of the last call of `pwm_start` is in use if each call finds the one before it taken by the interrupt. -/
theorem last_setting_wins (convert : Nat → Nat → Nat → Nat) {period : Nat} {duties : Nat → Nat} {pin_num : List Nat}
    {settings : PwmSettings} (initialized : pwm_init period duties pin_num = some settings) {left : Bool → List PwmParam}
    (allocated : ∀ k, (left k).length = 2 * pin_num.length + 1) (level : BitVec 32) (events : List PwmEvent)
    {r : PwmRun} (run : runPwm convert events (PwmRun.start settings left level) = some r)
    (taken : EachStep (PwmRun.step convert) (fun r event => TakenBefore r.p event) events
      (PwmRun.start settings left level)) : r.LastSettingWins := by
  obtain ⟨depth, number⟩ := pwm_init_kept initialized
  have start : PwmSound (PwmRun.start settings left level) :=
    ⟨depth, fun k => number ▸ allocated k, fun timer => absurd timer Bool.false_ne_true, rfl⟩
  exact (runSteps_keeps (fun r event r' sound may made => PwmSound.step sound may made) start taken run).wins

def twoDuties (between : List PwmEvent) (copies : Nat) : List PwmEvent :=
  .start ⟨0, 0⟩ :: List.replicate 4 .copy ++ between ++ [.setting (.duty 0 200), .start ⟨0, 0⟩] ++
    List.replicate copies .copy

def oneChannel : PwmSettings := ⟨500, 0, [⟨100, 0, 4⟩], 500⟩

theorem last_setting_wins_edge : ∃ r, runPwm (fun _ duty _ => duty) (twoDuties [.edge] 4)
    (PwmRun.start oneChannel (fun _ => List.replicate 3 ⟨0, 0, 0⟩) 0) = some r ∧ r.LastSettingWins := by
  have ends : (runPwm (fun _ duty _ => duty) (twoDuties [.edge] 4)
      (PwmRun.start oneChannel (fun _ => List.replicate 3 ⟨0, 0, 0⟩) 0)).isSome := by decide
  obtain ⟨r, run⟩ := Option.isSome_iff_exists.mp ends
  have initialized : pwm_init 500 (fun _ => 100) [4] = some oneChannel := by decide
  exact ⟨r, run, last_setting_wins (fun _ duty _ => duty) initialized (fun _ => rfl) 0 (twoDuties [.edge] 4) run
    (by decide)⟩

/-- The second call finds the table of the first one not yet taken. -/
theorem second_setting_dropped : pwm_init 500 (fun _ => 100) [4] = some oneChannel ∧
    ∃ r, runPwm (fun _ duty _ => duty) (twoDuties [] 0)
      (PwmRun.start oneChannel (fun _ => List.replicate 3 ⟨0, 0, 0⟩) 0) = some r ∧
      r.p.pc = .idle ∧ ¬ r.LastSettingWins := by
  have ends : (runPwm (fun _ duty _ => duty) (twoDuties [] 0)
      (PwmRun.start oneChannel (fun _ => List.replicate 3 ⟨0, 0, 0⟩) 0)).any (fun r =>
        decide (r.p.pc = .idle ∧ r.p.timer = true ∧
          (r.p.output.pwm_timer_intr_handler r.p.level).1 ≠ r.inUse.edge r.p.output.current_channel r.p.level)) := by
    decide
  obtain ⟨r, run, shown⟩ := (Option.any_eq_true _ _).mp ends
  obtain ⟨idle, timer, other⟩ := of_decide_eq_true shown
  exact ⟨by decide, r, run, idle, fun wins => other (wins.edge timer)⟩

end EspFirmware.Driver
