import EspFirmware.App.Datetime
import EspFirmware.App.Mqtt

/-!
The datagrams of `csro_udp.c`, in which a server says where the broker is and what time it is.
-/

namespace EspFirmware.App
open EspFirmware.Lib

def udpRxBuffer (datagram : List Byte) : List Byte :=
  datagram.take 511 ++ List.replicate (512 - (datagram.take 511).length) 0

def valueString : Option Json → Option (List Byte)
  | some (.string valuestring) => some (cString valuestring)
  | _ => none

def serverStrings (json : Json) : Option (List Byte × List Byte) := do
  let servIp ← valueString (cJSONGetObjectItem json "ip")
  let servMac ← valueString (cJSONGetObjectItem json "mac")
  some (servIp, servMac)

def setServer (servIp servMac : List Byte) (m : MqttStruct) : Option MqttStruct :=
  if 4 ≤ servIp.length ∧ 10 ≤ servMac.length then
    if servIp ≠ m.broker.text ∨ servMac ≠ m.topicPrefix.text then do
      let broker ← strcpy 50 servIp
      let topicPrefix ← strcpy 50 servMac
      some { m with broker := broker, topicPrefix := topicPrefix, isconnected := false }
    else some m
  else some m

def processServer (json : Json) (m : MqttStruct) : Option MqttStruct :=
  match serverStrings json with
  | some (servIp, servMac) => setServer servIp servMac m
  | none => some m

section
variable (strtod : Strtod) (lib : TimeLib)

def processTime (json : Json) (stack : Fin 6 → BitVec 32) (c : Clock) : Clock :=
  match valueString (cJSONGetObjectItem json "time") with
  | some timeStr => csroDatetimeSet lib timeStr stack c
  | none => c

def processUdpMessage (udpBuf : List Byte) (stack : Fin 6 → BitVec 32) (m : MqttStruct) (c : Clock) :
    Option (MqttStruct × Clock) :=
  match cJSONParse strtod (cString udpBuf) with
  | some json => (processServer json m).map fun m => (m, processTime lib json stack c)
  | none => some (m, c)

structure Station where
  sysinfo : SystemStruct
  mqtt : MqttStruct
  clock : Clock

inductive StationEvent where
  | datagram (bytes : List Byte) (stack : Fin 6 → BitVec 32)
  | round (net : Answers) (due : Due)

def stationStep (s : Station) : StationEvent → Option Station
  | .datagram bytes stack =>
      (processUdpMessage strtod lib (udpRxBuffer bytes) stack s.mqtt s.clock).map fun (mqtt, clock) =>
        { s with mqtt := mqtt, clock := clock }
  | .round net due =>
      (csroMqttTaskRound net due s.sysinfo s.mqtt).map fun (sysinfo, mqtt) =>
        { s with sysinfo := sysinfo, mqtt := mqtt }

end

end EspFirmware.App
