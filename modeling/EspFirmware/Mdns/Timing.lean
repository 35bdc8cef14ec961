import EspFirmware.Lib.Run
import EspFirmware.Mdns.Actions

/-!
The times of the responder (`mdns.c`), in milliseconds of 32 bits: when packets are sent, and when searches are sent again
or end. Every call that looks at the clock comes with what it reads.
-/

namespace EspFirmware.Mdns

structure TimedPacket where
  id : Nat
  send_at : BitVec 32
  deriving DecidableEq, Repr

structure TimedSearch where
  id : Nat
  state : SearchState
  started_at : BitVec 32
  sent_at : BitVec 32
  timeout : BitVec 32
  deriving DecidableEq, Repr

inductive TimerAction where
  | txHandle (packet : Nat)
  | searchSend (search : Nat)
  | searchEnd (search : Nat)
  deriving DecidableEq, Repr

structure Timing where
  tx_queue : List TimedPacket
  search_once : List TimedSearch
  log : List TimerAction
  deriving DecidableEq, Repr

def insertTimed (packet : TimedPacket) : List TimedPacket → List TimedPacket
  | [] => [packet]
  | q :: rest => if q.send_at > packet.send_at then packet :: q :: rest else q :: insertTimed packet rest

def TimedSearch.run (s : TimedSearch) (now : BitVec 32) (taken : Bool) : TimedSearch × Option TimerAction :=
  if s.state = .off then (s, none)
  else if now > s.started_at + s.timeout then
    if taken then ({ s with state := .off }, some (.searchEnd s.id)) else ({ s with state := .running }, none)
  else if s.state = .init ∨ now - s.sent_at > 1000 then
    if taken then ({ s with state := .running, sent_at := now }, some (.searchSend s.id))
    else ({ s with state := .running, sent_at := now - 1000 }, none)
  else (s, none)

namespace Timing
variable (t : Timing)

def start : Timing := ⟨[], [], []⟩

def scheduleTxPacket (packet : Nat) (ms_after now : BitVec 32) : Timing :=
  { t with tx_queue := insertTimed ⟨packet, now + ms_after⟩ t.tx_queue }

def schedulerRun (now : BitVec 32) (memory sent : Bool) : Timing :=
  match t.tx_queue with
  | [] => t
  | p :: rest =>
      if (p.send_at - now).toInt < 0 ∧ memory ∧ sent then
        { t with tx_queue := rest, log := t.log ++ [.txHandle p.id] }
      else t

def searchRun (now : BitVec 32) (taken : List Nat) : Timing :=
  let turns := t.search_once.map fun s => s.run now (s.id ∈ taken)
  { t with search_once := turns.map Prod.fst, log := t.log ++ turns.filterMap Prod.snd }

end Timing

inductive TimingEvent where
  | schedule (packet : Nat) (ms_after now : BitVec 32)
  | schedulerRun (now : BitVec 32) (memory sent : Bool)
  /-- a search that was made at `now` is added -/
  | searchAdd (search : Nat) (timeout now : BitVec 32)
  | searchRun (now : BitVec 32) (taken : List Nat)
  /-- packets are cleared, or a search is finished -/
  | clear (packets : List Nat)
  | finish (search : Nat)
  deriving DecidableEq, Repr

def TimingEvent.run (t : Timing) : TimingEvent → Option Timing
  | .schedule packet ms_after now => some (t.scheduleTxPacket packet ms_after now)
  | .schedulerRun now memory sent => some (t.schedulerRun now memory sent)
  | .searchAdd search timeout now => some { t with search_once := ⟨search, .init, now, 0, timeout⟩ :: t.search_once }
  | .searchRun now taken => some (t.searchRun now taken)
  | .clear packets => some { t with tx_queue := t.tx_queue.filter fun p => p.id ∉ packets }
  | .finish search => some { t with search_once := t.search_once.filter fun s => s.id ≠ search }

end EspFirmware.Mdns
