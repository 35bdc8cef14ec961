import Mathlib.Data.List.Basic
import Mathlib.Algebra.Order.Ring.Int

/-!
The PWM driver (`pwm.c`). The conversion of a duty into ticks, which the source computes with a `float`, is a parameter.
-/

namespace EspFirmware.Driver

structure PwmInfo where
  duty : Nat
  phase : Int
  io_num : Nat
  deriving DecidableEq, Repr

structure PwmChannelParam where
  io_mask : BitVec 16
  post_edg_time : Nat
  neg_edg_time : Nat
  deriving DecidableEq, Repr

structure PwmParam where
  edg_time : Nat
  io_set_mask : BitVec 16
  io_clr_mask : BitVec 16
  deriving DecidableEq, Repr, Inhabited

structure PwmSettings where
  depth : Nat
  channel_invert_bitmap : BitVec 16
  pwm_info : List PwmInfo
  period : Nat
  deriving DecidableEq, Repr

namespace PwmSettings
variable (s : PwmSettings)

def channel_num : Nat := s.pwm_info.length

def pwm_set_period (period : Nat) : Option PwmSettings := if 10 ≤ period then some { s with period := period } else none

def pwm_set_channel_invert (channel_mask : BitVec 16) : Option PwmSettings :=
  if channel_mask >>> s.channel_num = 0 then some { s with channel_invert_bitmap := channel_mask } else none

def pwm_clear_channel_invert (channel_mask : BitVec 16) : Option PwmSettings :=
  if channel_mask >>> s.channel_num = 0 then
    some { s with channel_invert_bitmap := s.channel_invert_bitmap &&& ~~~channel_mask }
  else none

def setInfo (channel_num : Nat) (change : PwmInfo → PwmInfo) : Option PwmSettings :=
  if channel_num < s.channel_num then some { s with pwm_info := s.pwm_info.modify channel_num change } else none

def pwm_set_duty (channel_num duty : Nat) : Option PwmSettings :=
  s.setInfo channel_num fun info => { info with duty := duty }

def pwm_set_phase (channel_num : Nat) (phase : Int) : Option PwmSettings :=
  s.setInfo channel_num fun info => { info with phase := phase }

def pwm_set_duties (duties : Nat → Nat) : PwmSettings :=
  { s with pwm_info := s.pwm_info.mapIdx fun i info => { info with duty := duties i } }

def pwm_set_phases (phases : Nat → Int) : PwmSettings :=
  { s with pwm_info := s.pwm_info.mapIdx fun i info => { info with phase := phases i } }

def pwm_set_period_duties (period : Nat) (duties : Nat → Nat) : PwmSettings :=
  ((s.pwm_set_period period).getD s).pwm_set_duties duties

end PwmSettings

def pwm_init (period : Nat) (duties : Nat → Nat) (pin_num : List Nat) : Option PwmSettings :=
  if pin_num.length ≤ 8 ∧ 10 ≤ period then
    some (PwmSettings.pwm_set_period_duties ⟨period, 0, pin_num.map fun pin => ⟨0, 0, pin % 2 ^ 8⟩, 0⟩ period duties)
  else none

/-- The calls of `pwm_set_*`. One that fails leaves the settings as they are. -/
inductive PwmSetting where
  | period (us : Nat)
  | invert (channel_mask : BitVec 16)
  | clearInvert (channel_mask : BitVec 16)
  | duty (channel_num value : Nat)
  | duties (values : Nat → Nat)
  | periodDuties (us : Nat) (values : Nat → Nat)
  | phase (channel_num : Nat) (value : Int)
  | phases (values : Nat → Int)

def PwmSetting.apply (s : PwmSettings) : PwmSetting → PwmSettings
  | .period us => (s.pwm_set_period us).getD s
  | .invert channel_mask => (s.pwm_set_channel_invert channel_mask).getD s
  | .clearInvert channel_mask => (s.pwm_clear_channel_invert channel_mask).getD s
  | .duty channel_num value => (s.pwm_set_duty channel_num value).getD s
  | .duties values => s.pwm_set_duties values
  | .periodDuties us values => s.pwm_set_period_duties us values
  | .phase channel_num value => (s.pwm_set_phase channel_num value).getD s
  | .phases values => s.pwm_set_phases values

structure StartMasks where
  start_set_mask : BitVec 16
  start_clr_mask : BitVec 16
  deriving DecidableEq, Repr

namespace StartMasks
variable (masks : StartMasks)

def set (io_mask : BitVec 16) : StartMasks := { masks with start_set_mask := masks.start_set_mask ||| io_mask }

def clr (io_mask : BitVec 16) : StartMasks := { masks with start_clr_mask := masks.start_clr_mask ||| io_mask }

end StartMasks

def usToTicks (t : Nat) : Nat := t

namespace PwmSettings
variable (s : PwmSettings)

section
variable (convert : Nat → Nat → Nat → Nat)

/-- One channel in the first loop of `pwm_start`: `convert` is `US_TO_TICKS(period) * ((float)duty / depth)`. -/
def channelEdges (i : Nat) (info : PwmInfo) (masks : StartMasks) : StartMasks × PwmChannelParam :=
  let io_mask := BitVec.ofNat 16 (2 ^ info.io_num)
  if s.channel_invert_bitmap.getLsbD i then
    if info.duty = 0 then (masks.set io_mask, ⟨0, 0, 0⟩)
    else if info.duty = s.depth then (masks.clr io_mask, ⟨0, 0, 0⟩)
    else (masks, ⟨io_mask, convert (usToTicks s.period) info.duty s.depth, 0⟩)
  else
    if info.duty = 0 then (masks.clr io_mask, ⟨0, 0, 0⟩)
    else if info.duty = s.depth then (masks.set io_mask, ⟨0, 0, 0⟩)
    else (masks, ⟨io_mask, 0, convert (usToTicks s.period) info.duty s.depth⟩)

def channels (i : Nat) : List PwmInfo → StartMasks → StartMasks × List PwmChannelParam
  | [], masks => (masks, [])
  | info :: infos, masks =>
      let (masks, channel) := s.channelEdges convert i info masks
      let (masks, channels) := channels (i + 1) infos masks
      (masks, channel :: channels)

end

def timeDelay (phase : Int) : Int :=
  let delay := if phase < 0 then -(((-phase * s.depth) % 2 ^ 32) / 180) else ((phase * s.depth) % 2 ^ 32) / 180
  delay.bmod (2 ^ 16)

def delayed (time_delay : Int) (edg_time : Nat) : Nat := ((time_delay + edg_time + s.depth) % 2 ^ 32).toNat % s.depth

def pwm_phase_init (info : PwmInfo) (channel : PwmChannelParam) : PwmChannelParam :=
  if info.phase = 0 then channel
  else if -180 < info.phase ∧ info.phase < 180 then
    { channel with
      post_edg_time := s.delayed (s.timeDelay info.phase) channel.post_edg_time
      neg_edg_time := s.delayed (s.timeDelay info.phase) channel.neg_edg_time }
  else channel

end PwmSettings

def StartMasks.channel (masks : StartMasks) (channel : PwmChannelParam) : StartMasks :=
  if channel.post_edg_time < channel.neg_edg_time then
    if channel.post_edg_time = 0 then masks.set channel.io_mask else masks.clr channel.io_mask
  else if channel.neg_edg_time < channel.post_edg_time then
    if channel.neg_edg_time = 0 then masks.clr channel.io_mask else masks.set channel.io_mask
  else masks

def PwmChannelParam.edges (channel : PwmChannelParam) : List PwmParam :=
  [⟨channel.post_edg_time, channel.io_mask, 0⟩, ⟨channel.neg_edg_time, 0, channel.io_mask⟩]

/-- The inner loop of `pwm_insert_sort`, on the entries before the one that is inserted, last one first. -/
def insertEdge (tmp : PwmParam) : List PwmParam → List PwmParam
  | [] => [tmp]
  | param :: before =>
      if tmp.edg_time < param.edg_time then param :: insertEdge tmp before else tmp :: param :: before

def pwm_insert_sort (param : List PwmParam) : List PwmParam :=
  (param.foldl (fun before tmp => insertEdge tmp before) []).reverse

def mergeEdges : List PwmParam → List PwmParam
  | [] => []
  | param :: rest =>
      match mergeEdges rest with
      | [] => [param]
      | next :: rest =>
          if next.edg_time = param.edg_time then
            ⟨param.edg_time, param.io_set_mask ||| next.io_set_mask, param.io_clr_mask ||| next.io_clr_mask⟩ :: rest
          else param :: next :: rest

def sub32 (a b : Nat) : Nat := (a + 2 ^ 32 - b % 2 ^ 32) % 2 ^ 32

def differencesFrom (time : Nat) : List PwmParam → List PwmParam
  | [] => []
  | param :: rest => { param with edg_time := sub32 param.edg_time time } :: differencesFrom param.edg_time rest

def differences : List PwmParam → List PwmParam
  | [] => []
  | param :: rest => param :: differencesFrom param.edg_time rest

def dropFirst (masks : StartMasks) : List PwmParam → StartMasks × List PwmParam
  | [] => (masks, [])
  | first :: rest =>
      if first.edg_time = 0 then ((masks.set first.io_set_mask).clr first.io_clr_mask, rest) else (masks, first :: rest)

def withStart (masks : StartMasks) (param : List PwmParam) : List PwmParam :=
  param.modify (param.length - 1) fun last =>
    { last with io_set_mask := masks.start_set_mask, io_clr_mask := masks.start_clr_mask }

namespace PwmSettings
variable (s : PwmSettings) (convert : Nat → Nat → Nat → Nat)

/-- The table that `pwm_start` makes. The masks of the last entry of `param` are what they were before. -/
def table (left : StartMasks) : List PwmParam :=
  let (masks, channels) := s.channels convert 0 s.pwm_info ⟨0, 0⟩
  let channels := List.zipWith s.pwm_phase_init s.pwm_info channels
  let masks := channels.foldl StartMasks.channel masks
  let edges := pwm_insert_sort (channels.flatMap PwmChannelParam.edges)
  let param := mergeEdges (edges ++ [⟨s.depth, left.start_set_mask, left.start_clr_mask⟩])
  let (masks, param) := dropFirst masks (differences param)
  withStart masks param

end PwmSettings

structure RunPwmSingle where
  run_channel_num : Nat
  run_pwm_param : List PwmParam
  deriving DecidableEq, Repr

structure PwmOutput where
  start_flag : Bool
  run_pwm : Bool → RunPwmSingle
  update_done : Bool
  run_pwm_toggle : Bool
  current_channel : Nat
  single : Bool

def PwmParam.levels (param : PwmParam) (mask : BitVec 32) : BitVec 32 :=
  (mask &&& ~~~(param.io_clr_mask.zeroExtend 32)) ||| param.io_set_mask.zeroExtend 32

namespace PwmOutput
variable (o : PwmOutput)

def playing : RunPwmSingle := o.run_pwm o.single

def update : PwmOutput :=
  if o.current_channel = 0 ∧ o.update_done then
    { o with single := o.run_pwm_toggle, run_pwm_toggle := !o.run_pwm_toggle, update_done := false }
  else o

end PwmOutput

namespace RunPwmSingle
variable (single : RunPwmSingle)

def edge (current_channel : Nat) (mask : BitVec 32) : BitVec 32 × Nat :=
  let before := if current_channel = 0 then single.run_channel_num - 1 else current_channel - 1
  ((single.run_pwm_param.getD before default).levels mask, (single.run_pwm_param.getD current_channel default).edg_time)

def next (current_channel : Nat) : Nat :=
  if single.run_channel_num ≤ current_channel + 1 then 0 else current_channel + 1

end RunPwmSingle

/-- One edge in the loop of `pwm_timer_intr_handler`: the levels, the ticks to the next edge and what follows. -/
def PwmOutput.pwm_timer_intr_handler (o : PwmOutput) (mask : BitVec 32) : (BitVec 32 × Nat) × PwmOutput :=
  let o := o.update
  (o.playing.edge o.current_channel mask, { o with current_channel := o.playing.next o.current_channel })

/-- Where the task is: outside, copying the table into `run_pwm[run_pwm_toggle]`, or before `update_done`. -/
inductive PwmPc where
  | idle
  | copying (param : List PwmParam) (count : Nat) (first : Bool)
  | copied (first : Bool)
  deriving DecidableEq, Repr

structure Pwm where
  settings : PwmSettings
  output : PwmOutput
  pc : PwmPc
  timer : Bool
  level : BitVec 32

inductive PwmEvent where
  | setting (call : PwmSetting)
  | start (left : StartMasks)
  | copy
  | stop (stop_level_mask : BitVec 32)
  | edge

namespace Pwm
variable (p : Pwm)

def setRun (single : RunPwmSingle) : Pwm :=
  { p with output := { p.output with
      run_pwm := fun k => if k = p.output.run_pwm_toggle then single else p.output.run_pwm k } }

def copyEntry (i : Nat) (param : PwmParam) : Pwm :=
  let single := p.output.run_pwm p.output.run_pwm_toggle
  p.setRun { single with run_pwm_param := single.run_pwm_param.set i param }

def pwm_start (param : List PwmParam) : Pwm :=
  if !p.output.start_flag then
    { p with
      output := { p.output with start_flag := true, run_pwm_toggle := false, single := false, current_channel := 0 }
      pc := .copying param 0 true }
  else if !p.output.update_done then { p with pc := .copying param 0 false }
  else p

/-- The entries, the number of them, and then `update_done` and for the first table the timer. -/
def copyStep : Option Pwm :=
  match p.pc with
  | .idle => none
  | .copying param count first =>
      if count < param.length then
        some { p.copyEntry count (param.getD count default) with pc := .copying param (count + 1) first }
      else
        some { p.setRun { p.output.run_pwm p.output.run_pwm_toggle with run_channel_num := param.length } with
          pc := .copied first }
  | .copied first =>
      some { p with output := { p.output with update_done := true }, pc := .idle, timer := p.timer || first }

def pwm_stop (stop_level_mask : BitVec 32) : Pwm :=
  { p with
    timer := false
    level := p.settings.pwm_info.zipIdx.foldl (fun level (info, i) =>
      if stop_level_mask.getLsbD i then level ||| BitVec.ofNat 32 (2 ^ info.io_num)
      else level &&& ~~~BitVec.ofNat 32 (2 ^ info.io_num)) p.level
    output := { p.output with start_flag := false } }

end Pwm

def PwmEvent.run (convert : Nat → Nat → Nat → Nat) (p : Pwm) : PwmEvent → Option Pwm
  | .setting call => if p.pc = .idle then some { p with settings := call.apply p.settings } else none
  | .start left => if p.pc = .idle then some (p.pwm_start (p.settings.table convert left)) else none
  | .copy => p.copyStep
  | .stop stop_level_mask => if p.pc = .idle then some (p.pwm_stop stop_level_mask) else none
  | .edge =>
      if p.timer then
        let ((level, _), output) := p.output.pwm_timer_intr_handler p.level
        some { p with level := level, output := output }
      else none

end EspFirmware.Driver
