import EspFirmware.Nvs.PageManager
import EspFirmware.Spec.PageScan

/-!
The store as a list of logs: what the operations do to the logs of the pages, without entry states,
counters or hashes.
-/

namespace EspFirmware.Spec
open EspFirmware.Nvs EspFirmware.Lib

/-- What is known of a page: nothing is on it, its header was not finished, or it has a log. -/
inductive Slot where
  | blank (seq : Word)
  | junk
  | used (st : PageState) (seq : Word) (segs : List Seg)

structure Value where
  nsIndex : Byte
  datatype : ItemType
  key : List Byte
  data : List Byte

def Value.record (env : Env) (v : Value) : Record := recordFor env v.nsIndex v.datatype v.key v.data

def dropAt (pos : Nat) : Nat → List Seg → List Seg
  | _, [] => []
  | i, .item r :: rest =>
      if i = pos then List.replicate r.size .gone ++ rest else .item r :: dropAt pos (i + r.size) rest
  | i, seg :: rest => seg :: dropAt pos (i + seg.size) rest

def dropWhere (p : Record → Bool) (segs : List Seg) : List Seg :=
  segs.flatMap fun
    | .item r => if p r then List.replicate r.size .gone else [.item r]
    | seg => [seg]

namespace Slot

def segs : Slot → List Seg
  | .used _ _ segs => segs
  | _ => []

def seq : Slot → Word
  | .blank seq => seq
  | .junk => 0xFFFFFFFF
  | .used _ seq _ => seq

def inUse (slot : Slot) : Nat := size (items slot.segs)

def withSegs (segs : List Seg) : Slot → Slot
  | .used st seq _ => .used st seq segs
  | slot => slot

def withState (st : PageState) : Slot → Slot
  | .used _ seq segs => .used st seq segs
  | slot => slot

def reload (env : Env) : Slot → Slot
  | .used st seq segs => .used st seq (loaded env st segs .free)
  | slot => slot

def restart : Slot → Slot
  | .blank _ => .blank Nvs.blank
  | slot => slot

def append (env : Env) (v : Value) (seq : Word) (segs : List Seg) : Except EspErr Unit × Slot :=
  if MAX_KEY_LENGTH < (cString v.key).length then (.error .keyTooLong, .used .active seq segs)
  else if BLOB_MAX_SIZE < v.data.length then (.error .valueTooLong, .used .active seq segs)
  else if ENTRY_COUNT < size segs + Page.entriesCount v.datatype v.data.length then
    (.error .pageFull, .used .active seq segs)
  else (.ok (), .used .active seq (segs ++ [.item (v.record env)]))

def write (env : Env) (v : Value) : Slot → Except EspErr Unit × Slot
  | .blank seq => append env v seq []
  | .used .active seq segs => append env v seq segs
  | slot => (.error .pageFull, slot)

def erase (nsIndex : Byte) (datatype : ItemType) (key : Option (List Byte)) (slot : Slot) :
    Except EspErr Unit × Slot :=
  match scanFrom nsIndex datatype key 0 slot.segs with
  | .ok x => (.ok (), slot.withSegs (dropAt x.1 0 slot.segs))
  | .error e => (.error e, slot)

end Slot

structure Pages (n : Nat) where
  slots : Fin n → Slot
  list : List (Fin n)
  free : List (Fin n)
  next : Word

namespace Pages
variable {n : Nat}

def set (P : Pages n) (i : Fin n) (slot : Slot) : Pages n := { P with slots := Function.update P.slots i slot }

def live (P : Pages n) : List Record := P.list.flatMap fun i => records (P.slots i).segs

def activate (P : Pages n) (p : Fin n) (rest : List (Fin n)) : Pages n where
  slots := Function.update P.slots p (.blank P.next)
  list := P.list ++ [p]
  free := rest
  next := P.next + 1

def moved (P : Pages n) (page target : Fin n) : Slot :=
  if records (P.slots page).segs = [] then P.slots target
  else .used .active (P.slots target).seq (items (P.slots page).segs)

def recycle (P : Pages n) (page target : Fin n) : Pages n where
  slots := Function.update (Function.update P.slots target (P.moved page target)) page (.blank (P.slots page).seq)
  list := P.list.erase page
  free := P.free ++ [page]
  next := P.next

def mostUnused (P : Pages n) : Option (Fin n) :=
  (P.list.foldl (fun best page =>
    if best.2 < ENTRY_COUNT - (P.slots page).inUse then (some page, ENTRY_COUNT - (P.slots page).inUse)
    else best) (none, 0)).1

/-- A new page is put at the end of the list; the last free one only when another becomes free. -/
def requestNewPage (P : Pages n) : Except EspErr (Pages n) :=
  match P.free with
  | [] => .error .invalidState
  | [p] =>
      match P.mostUnused with
      | none => .error .notEnoughSpace
      | some page => .ok ((P.activate p []).recycle page p)
  | p :: rest => .ok (P.activate p rest)

section
variable (env : Env)

def writeLast (v : Value) (P : Pages n) (page : Fin n) : Except EspErr Unit × Pages n :=
  let (result, slot) := (P.slots page).write env v
  (result, P.set page slot)

def writeToPage (v : Value) (P : Pages n) (page : Fin n) : Except EspErr Unit × Pages n :=
  match P.writeLast env v page with
  | (.error .pageFull, P') =>
      let full := P'.set page ((P'.slots page).withState .full)
      match full.requestNewPage with
      | .error e => (.error e, full)
      | .ok fresh =>
          match fresh.list.getLast? with
          | none => (.error .invalidState, fresh)
          | some newPage =>
              match fresh.writeLast env v newPage with
              | (.error .pageFull, P'') => (.error .notEnoughSpace, P'')
              | written => written
  | written => written

end

def find (P : Pages n) (nsIndex : Byte) (datatype : ItemType) (key : Option (List Byte)) : Option (Fin n × Record) :=
  P.list.findSome? fun page =>
    match scanFrom nsIndex datatype key 0 (P.slots page).segs with
    | .ok x => some (page, x.2)
    | .error _ => none

def eraseFrom (P : Pages n) (nsIndex : Byte) (datatype : ItemType) (key : Option (List Byte)) (page : Fin n) :
    Except EspErr Unit × Pages n :=
  let (result, slot) := (P.slots page).erase nsIndex datatype key
  (result, P.set page slot)

def oldPage (P : Pages n) (v : Value) (page : Fin n) : Fin n :=
  match P.slots page with
  | .blank _ => ((P.find v.nsIndex v.datatype (some v.key)).map Prod.fst).getD page
  | _ => page

def writeItem (env : Env) (v : Value) (P : Pages n) (page : Fin n) : Except EspErr Unit × Pages n :=
  match P.writeToPage env v page with
  | (.ok _, P') =>
      match P.find v.nsIndex v.datatype (some v.key) with
      | none => (.ok (), P')
      | some (old, _) => P'.eraseFrom v.nsIndex v.datatype (some v.key) (P'.oldPage v old)
  | failed => failed

def eraseItem (P : Pages n) (nsIndex : Byte) (datatype : ItemType) (key : Option (List Byte)) :
    Except EspErr Unit × Pages n :=
  match P.find nsIndex datatype key with
  | none => (.error .notFound, P)
  | some (page, _) => P.eraseFrom nsIndex datatype key page

def inNamespace (nsIndex : Byte) (r : Record) : Bool := nsIndex == NS_ANY || r.head.nsIndex == nsIndex

def eraseNamespace (P : Pages n) (nsIndex : Byte) : Pages n :=
  { P with slots := fun i =>
      if i ∈ P.list then (P.slots i).withSegs (dropWhere (inNamespace nsIndex) (P.slots i).segs) else P.slots i }

end Pages

end EspFirmware.Spec
