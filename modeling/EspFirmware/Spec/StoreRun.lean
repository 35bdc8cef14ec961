import Mathlib.Data.List.Sigma
import EspFirmware.Nvs.Api
import EspFirmware.Spec.Pages

/-!
What a restart makes of the pages it finds: their order, the older copy of the last item, and a page that
was being freed.
-/

namespace EspFirmware.Spec
open EspFirmware.Nvs

namespace Slot

def isFreeing : Slot → Bool
  | .used .freeing _ _ => true
  | _ => false

def isActive : Slot → Bool
  | .used .active _ _ => true
  | _ => false

def isUsed : Slot → Bool
  | .used _ _ _ => true
  | _ => false

end Slot

namespace Pages
variable {n : Nat}

def insert (slots : Fin n → Slot) (i : Fin n) (list : List (Fin n)) : List (Fin n) :=
  list.takeWhile (fun j => (slots j).seq ≤ (slots i).seq) ++ i :: list.dropWhile fun j => (slots j).seq ≤ (slots i).seq

def arrangeOn (slots : Fin n → Slot) (P : Pages n) : List (Fin n) → Pages n
  | [] => P
  | i :: rest =>
      if (slots i).isUsed then arrangeOn slots { P with list := insert slots i P.list } rest
      else arrangeOn slots { P with free := P.free ++ [i] } rest

def arrange (slots : Fin n → Slot) : Pages n :=
  arrangeOn slots ⟨fun i => (slots i).restart, [], [], 0⟩ (List.finRange n)

def eraseDuplicate (P : Pages n) (item : Item) : List (Fin n) → Pages n
  | [] => P
  | page :: rest =>
      if (P.slots page).isFreeing then eraseDuplicate P item rest
      else
        match P.eraseFrom item.nsIndex item.datatype (some item.key) page with
        | (.ok _, Q) => Q
        | (.error _, _) => eraseDuplicate P item rest

def discard (P : Pages n) (page : Fin n) : Pages n where
  slots := Function.update P.slots page (.blank (P.slots page).seq)
  list := P.list.erase page
  free := P.free ++ [page]
  next := P.next

def withoutCopy (P : Pages n) (last : Fin n) : Pages n := if (P.slots last).isActive then P.discard last else P

def finishFreeing (P : Pages n) (page last : Fin n) : Except EspErr Unit × Pages n :=
  let Q := P.withoutCopy last
  match Q.free with
  | [] => (.error .notEnoughSpace, Q)
  | p :: rest => (.ok (), (Q.activate p rest).recycle page p)

def numbered (P : Pages n) (last : Fin n) : Pages n := { P with next := (P.slots last).seq + 1 }

def withoutDuplicate (P : Pages n) (last : Fin n) : Pages n :=
  match (records (P.slots last).segs).getLast? with
  | none => P
  | some r => P.eraseDuplicate r.head P.list.dropLast

def finish (P : Pages n) (last : Fin n) : Except EspErr Unit × Pages n :=
  match P.list.find? fun page => (P.slots page).isFreeing with
  | none => (if P.free = [] then .error .noFreePages else .ok (), P)
  | some page =>
      match P.finishFreeing page last with
      | (.ok _, Q) => (if Q.free = [] then .error .noFreePages else .ok (), Q)
      | failed => failed

def restart (slots : Fin n → Slot) : Except EspErr Unit × Pages n :=
  let P := arrange slots
  match P.list.getLast? with
  | none =>
      match P.free with
      | [] => (.error .notEnoughSpace, P)
      | p :: rest => (.ok (), P.activate p rest)
  | some last => ((P.numbered last).withoutDuplicate last).finish last

end Pages

end EspFirmware.Spec

/-!
Runs of the store from erased flash: calls that end, and calls during which the power goes out.
-/

namespace EspFirmware.Spec
open EspFirmware.Nvs EspFirmware.Lib Prog

inductive StoreCall where
  | init
  | writeItem (v : Value)
  | eraseItem (nsIndex : Byte) (datatype : ItemType) (key : List Byte)
  | eraseNamespace (nsIndex : Byte)
  | readItem (nsIndex : Byte) (datatype : ItemType) (key buffer : List Byte)
  | getItemDataSize (nsIndex : Byte) (datatype : ItemType) (key : List Byte)
  | createOrOpenNamespace (nsName : List Byte) (canCreate : Bool)

variable {n : Nat}

inductive Answer where
  | done
  | bytes (data : List Byte)
  | size (dataSize : Nat)
  | index (nsIndex : Byte)
  deriving DecidableEq

def StoreCall.run (env : Env) : StoreCall → Storage.StorageM n Answer
  | .init => do
      Storage.init env
      pure .done
  | .writeItem v => do
      Storage.writeItem env v.nsIndex v.datatype v.key v.data
      pure .done
  | .eraseItem nsIndex datatype key => do
      Storage.eraseItem env nsIndex datatype key
      pure .done
  | .eraseNamespace nsIndex => do
      Storage.eraseNamespace env nsIndex
      pure .done
  | .readItem nsIndex datatype key buffer => do
      let data ← Storage.readItem env nsIndex datatype key buffer
      pure (.bytes data)
  | .getItemDataSize nsIndex datatype key => do
      let dataSize ← Storage.getItemDataSize env nsIndex datatype key
      pure (.size dataSize)
  | .createOrOpenNamespace nsName canCreate => do
      let nsIndex ← Storage.createOrOpenNamespace env nsName canCreate
      pure (.index nsIndex)

/-- What the callers of `Storage` pass: a value of its type in a namespace, and a type where one is read. -/
def StoreCall.Proper : StoreCall → Prop
  | .writeItem v => v.nsIndex ≠ NS_ANY ∧ Typed v.datatype v.data
  | .readItem _ datatype _ _ => datatype ≠ ItemType.ANY
  | _ => True

inductive StoreEvent where
  | call (c : StoreCall)
  | powerCut (c : StoreCall) (count : Nat)

structure StoreState (n : Nat) where
  store : Nvs.Storage n
  flash : Flash n

def StoreState.erased (env : Env) : StoreState n := ⟨Storage.fresh env, fun _ => erasedSector⟩

def StoreState.after (env : Env) (s : StoreState n) (c : StoreCall) : StoreState n :=
  ⟨(c.run env s.store s.flash).volatile, (c.run env s.store s.flash).durable⟩

def StoreEvent.call_ : StoreEvent → StoreCall
  | .call c => c
  | .powerCut c _ => c

inductive StoreStep (env : Env) (s : StoreState n) : StoreEvent → StoreState n → Prop where
  | call (c : StoreCall) : StoreStep env s (.call c) (s.after env c)
  | powerCut {c : StoreCall} {count : Nat} {f : Flash n} (cut : cutAfter (c.run env) count s.store s.flash = some f) :
      StoreStep env s (.powerCut c count) ⟨Storage.fresh env, f⟩

inductive StoreRun (env : Env) : StoreState n → List StoreEvent → StoreState n → Prop where
  | nil (s : StoreState n) : StoreRun env s [] s
  | snoc {s t u : StoreState n} {events : List StoreEvent} {e : StoreEvent} (run : StoreRun env s events t)
      (proper : e.call_.Proper) (step : StoreStep env t e u) : StoreRun env s (events ++ [e]) u

end EspFirmware.Spec

/-!
Runs of the `nvs_*` functions from erased flash: calls that end, and calls during which the power goes out.
-/

namespace EspFirmware.Spec
open EspFirmware.Nvs EspFirmware.Lib Prog

inductive ApiCall where
  | nvsFlashInitCustom
  | nvsFlashInit
  | nvsFlashDeinit
  | nvsOpen (name : List Byte) (openMode : NvsOpenMode)
  | nvsClose (handle : Word)
  | nvsCommit (handle : Word)
  | nvsEraseKey (handle : Word) (key : List Byte)
  | nvsEraseAll (handle : Word)
  | nvsSet (t : IntType) (handle : Word) (key : List Byte) (value : BitVec (8 * t.size))
  | nvsSetStr (handle : Word) (key value : List Byte)
  | nvsSetBlob (handle : Word) (key value : List Byte)
  | nvsGet (t : IntType) (handle : Word) (key : List Byte) (outValue : BitVec (8 * t.size))
  | nvsGetStr (handle : Word) (key : List Byte) (outValue : Option (List Byte)) (length : Option Nat)
  | nvsGetBlob (handle : Word) (key : List Byte) (outValue : Option (List Byte)) (length : Option Nat)

inductive ApiAnswer where
  | done
  | handle (handle : Word)
  | bytes (data : List Byte)
  | got (result : GetResult)

variable {n : Nat}

def ApiCall.run (env : Env) : ApiCall → Api.ApiM n ApiAnswer
  | .nvsFlashInitCustom => do
      Api.nvsFlashInitCustom env
      pure .done
  | .nvsFlashInit => do
      Api.nvsFlashInit env
      pure .done
  | .nvsFlashDeinit => do
      Api.nvsFlashDeinit env
      pure .done
  | .nvsOpen name openMode => do
      let handle ← Api.nvsOpen env name openMode
      pure (.handle handle)
  | .nvsClose handle => do
      Api.nvsClose handle
      pure .done
  | .nvsCommit handle => do
      Api.nvsCommit handle
      pure .done
  | .nvsEraseKey handle key => do
      Api.nvsEraseKey env handle key
      pure .done
  | .nvsEraseAll handle => do
      Api.nvsEraseAll env handle
      pure .done
  | .nvsSet t handle key value => do
      Api.nvsSet env t handle key value
      pure .done
  | .nvsSetStr handle key value => do
      Api.nvsSetStr env handle key value
      pure .done
  | .nvsSetBlob handle key value => do
      Api.nvsSetBlob env handle key value
      pure .done
  | .nvsGet t handle key outValue => do
      let data ← Api.nvsGet env t handle key outValue
      pure (.bytes data)
  | .nvsGetStr handle key outValue length => do
      let result ← Api.nvsGetStr env handle key outValue length
      pure (.got result)
  | .nvsGetBlob handle key outValue length => do
      let result ← Api.nvsGetBlob env handle key outValue length
      pure (.got result)

inductive ApiEvent where
  | call (c : ApiCall)
  | powerCut (c : ApiCall) (count : Nat)

structure ApiState (n : Nat) where
  api : Api n
  flash : Flash n

namespace ApiState

def erased (env : Env) : ApiState n := ⟨Api.start env, fun _ => erasedSector⟩

def after (env : Env) (a : ApiState n) (c : ApiCall) : ApiState n :=
  ⟨(c.run env a.api a.flash).volatile, (c.run env a.api a.flash).durable⟩

end ApiState

inductive ApiStep (env : Env) (a : ApiState n) : ApiEvent → ApiState n → Prop where
  | call (c : ApiCall) : ApiStep env a (.call c) (a.after env c)
  | powerCut {c : ApiCall} {count : Nat} {f : Flash n} (cut : cutAfter (c.run env) count a.api a.flash = some f) :
      ApiStep env a (.powerCut c count) ⟨Api.start env, f⟩

inductive ApiRun (env : Env) : ApiState n → List ApiEvent → ApiState n → Prop where
  | nil (a : ApiState n) : ApiRun env a [] a
  | snoc {a b c : ApiState n} {events : List ApiEvent} {e : ApiEvent} (run : ApiRun env a events b)
      (step : ApiStep env b e c) : ApiRun env a (events ++ [e]) c

end EspFirmware.Spec

/-!
What is stored under each name: a namespace and a key.
-/

namespace EspFirmware.Spec
open EspFirmware.Nvs EspFirmware.Lib

variable {n : Nat}

namespace Record

def name (r : Record) : Byte × List Byte := (r.head.nsIndex, cString r.head.key)

def data (r : Record) : List Byte :=
  if r.head.datatype.isVariable then (r.body.flatMap Item.rawData).take r.head.dataSize
  else r.head.data.take (r.head.datatype &&& 0x0F).toNat

def entry (r : Record) : Σ _ : Byte × List Byte, ItemType × List Byte := ⟨r.name, r.head.datatype, r.data⟩

end Record

/-- The items of a page, as `findItem` finds them one after the other. -/
def pageRecords (env : Env) (pg : Page) (s : Sector) : List Record :=
  (foundItems env (ENTRY_COUNT + 1) 0 pg s).map fun x => ⟨Page.entryAt s x.1, entriesAt s (x.1 + 1) (x.2 - 1)⟩

namespace StoreState

def records (env : Env) (s : StoreState n) : List Record :=
  s.store.mPageManager.mPageList.flatMap fun i => pageRecords env (s.store.mPageManager.mPages i) (s.flash i)

def contents (env : Env) (s : StoreState n) : Byte × List Byte → Option (ItemType × List Byte) :=
  fun name => ((s.records env).map Record.entry).dlookup name

end StoreState

end EspFirmware.Spec

/-!
Calls that are made through read-only handles.
-/

namespace EspFirmware.Spec
open EspFirmware.Nvs

variable {n : Nat}

namespace ApiCall

def handle? : ApiCall → Option Word
  | .nvsFlashInitCustom | .nvsFlashInit | .nvsFlashDeinit | .nvsOpen _ _ => none
  | .nvsClose handle | .nvsCommit handle | .nvsEraseKey handle _ | .nvsEraseAll handle | .nvsSet _ handle _ _
  | .nvsSetStr handle _ _ | .nvsSetBlob handle _ _ | .nvsGet _ handle _ _ | .nvsGetStr handle _ _ _
  | .nvsGetBlob handle _ _ _ => some handle

def modifies : ApiCall → Bool
  | .nvsEraseKey _ _ | .nvsEraseAll _ | .nvsSet _ _ _ _ | .nvsSetStr _ _ _ | .nvsSetBlob _ _ _ => true
  | _ => false

def setsData : ApiCall → Bool
  | .nvsSetStr _ _ _ | .nvsSetBlob _ _ _ => true
  | _ => false

end ApiCall

namespace ApiState

def store (a : ApiState n) : StoreState n := ⟨a.api.storage, a.flash⟩

/-- The call is made through a handle, and that is a read-only one. -/
def IsReadOnly (a : ApiState n) (c : ApiCall) : Prop :=
  ∃ handle e, c.handle? = some handle ∧ (a.api.sNvsHandles.find? fun e => e.mHandle = handle) = some e ∧ e.mReadOnly = true

def ReadOnlyCalls (env : Env) : ApiState n → List ApiCall → Prop
  | _, [] => True
  | a, c :: calls => a.IsReadOnly c ∧ ReadOnlyCalls env (a.after env c) calls

/-- No call changes the contents, and those that would are refused. -/
def KeepsContents (env : Env) : ApiState n → List ApiCall → Prop
  | _, [] => True
  | a, c :: calls =>
      (c.modifies = true → (c.run env a.api a.flash).outcome = .err .readOnly) ∧
        (a.after env c).store.contents env = a.store.contents env ∧ KeepsContents env (a.after env c) calls

end ApiState
end EspFirmware.Spec
