import EspFirmware.Nvs.Storage

/-!
`nvs_api.cpp`, for the default partition. The list of storages has one entry or none, so that a handle need
not say which storage it is for.
-/

namespace EspFirmware.Nvs
open EspFirmware.Lib Prog

structure HandleEntry where
  mHandle : Word
  mReadOnly : Bool
  mNsIndex : Byte
  deriving DecidableEq, Repr

inductive NvsOpenMode where
  | readOnly
  | readWrite
  deriving DecidableEq, Repr

structure Api (n : Nat) where
  storage : Storage n
  inList : Bool
  sNvsHandles : List HandleEntry
  sNvsNextHandle : Word

inductive IntType where
  | i8
  | u8
  | i16
  | u16
  | i32
  | u32
  | i64
  | u64
  deriving DecidableEq, Repr

namespace IntType

def size : IntType → Nat
  | .i8 | .u8 => 1
  | .i16 | .u16 => 2
  | .i32 | .u32 => 4
  | .i64 | .u64 => 8

def isSigned : IntType → Bool
  | .i8 | .i16 | .i32 | .i64 => true
  | .u8 | .u16 | .u32 | .u64 => false

end IntType

def itemTypeOf (t : IntType) : ItemType := (if t.isSigned then 0x10 else 0x00) ||| BitVec.ofNat 8 t.size

def bytesOf (size : Nat) (value : BitVec (8 * size)) : List Byte :=
  (List.range size).map fun k => (value >>> (8 * k)).setWidth 8

structure GetResult where
  err : Except EspErr Unit
  length : Option Nat
  outValue : Option (List Byte)

namespace Api
variable {n : Nat}

abbrev ApiM (n : Nat) := Prog (Api n) (Flash n) EspErr

def start (env : Env) : Api n := ⟨Storage.fresh env, false, [], 0⟩

def onStorage {α : Type} (p : Storage.StorageM n α) : ApiM n α :=
  zoom Api.storage (fun st a => { a with storage := st }) id (fun f _ => f) p

def nvsFindNsHandle (handle : Word) : ApiM n HandleEntry := do
  let a ← get
  match a.sNvsHandles.find? fun e => e.mHandle = handle with
  | some entry => pure entry
  | none => throw .invalidHandle

def nvsClose (handle : Word) : ApiM n Unit :=
  modify fun a => { a with sNvsHandles := a.sNvsHandles.eraseP fun e => e.mHandle = handle }

def nvsCommit (handle : Word) : ApiM n Unit := do
  let _ ← nvsFindNsHandle handle

section
variable (env : Env)

def nvsFlashInitCustom : ApiM n Unit := do
  let a ← get
  if !a.inList then modify fun a => { a with storage := Storage.fresh env }
  onStorage (Storage.init env)
  modify fun a => { a with inList := true }

def nvsFlashInit : ApiM n Unit := do
  let a ← get
  if a.inList then pure () else nvsFlashInitCustom env

def nvsFlashDeinit : ApiM n Unit := do
  let a ← get
  if !a.inList then throw .notInitialized
  modify fun a => { a with storage := Storage.fresh env, inList := false, sNvsHandles := [] }

def nvsOpen (name : List Byte) (openMode : NvsOpenMode) : ApiM n Word := do
  let a ← get
  if !a.inList then throw .notInitialized
  let nsIndex ← onStorage (Storage.createOrOpenNamespace env name (openMode = .readWrite))
  let a ← get
  let handle := a.sNvsNextHandle + 1
  modify fun a =>
    { a with sNvsNextHandle := handle,
             sNvsHandles := a.sNvsHandles ++ [⟨handle, openMode = .readOnly, nsIndex⟩] }
  pure handle

def nvsEraseKey (handle : Word) (key : List Byte) : ApiM n Unit := do
  let entry ← nvsFindNsHandle handle
  if entry.mReadOnly then throw .readOnly
  onStorage (Storage.eraseItem env entry.mNsIndex ItemType.ANY key)

def nvsEraseAll (handle : Word) : ApiM n Unit := do
  let entry ← nvsFindNsHandle handle
  if entry.mReadOnly then throw .readOnly
  onStorage (Storage.eraseNamespace env entry.mNsIndex)

def nvsSet (t : IntType) (handle : Word) (key : List Byte) (value : BitVec (8 * t.size)) : ApiM n Unit := do
  let entry ← nvsFindNsHandle handle
  if entry.mReadOnly then throw .readOnly
  onStorage (Storage.writeItem env entry.mNsIndex (itemTypeOf t) key (bytesOf t.size value))

def nvsSetI8 (handle : Word) (key : List Byte) (value : BitVec 8) : ApiM n Unit := nvsSet env .i8 handle key value
def nvsSetU8 (handle : Word) (key : List Byte) (value : BitVec 8) : ApiM n Unit := nvsSet env .u8 handle key value
def nvsSetI16 (handle : Word) (key : List Byte) (value : BitVec 16) : ApiM n Unit := nvsSet env .i16 handle key value
def nvsSetU16 (handle : Word) (key : List Byte) (value : BitVec 16) : ApiM n Unit := nvsSet env .u16 handle key value
def nvsSetI32 (handle : Word) (key : List Byte) (value : BitVec 32) : ApiM n Unit := nvsSet env .i32 handle key value
def nvsSetU32 (handle : Word) (key : List Byte) (value : BitVec 32) : ApiM n Unit := nvsSet env .u32 handle key value
def nvsSetI64 (handle : Word) (key : List Byte) (value : BitVec 64) : ApiM n Unit := nvsSet env .i64 handle key value
def nvsSetU64 (handle : Word) (key : List Byte) (value : BitVec 64) : ApiM n Unit := nvsSet env .u64 handle key value

/-- The handle is not asked whether it is read-only. -/
def nvsSetStr (handle : Word) (key value : List Byte) : ApiM n Unit := do
  let entry ← nvsFindNsHandle handle
  onStorage (Storage.writeItem env entry.mNsIndex ItemType.SZ key (cString value ++ [0]))

def nvsSetBlob (handle : Word) (key value : List Byte) : ApiM n Unit := do
  let entry ← nvsFindNsHandle handle
  onStorage (Storage.writeItem env entry.mNsIndex ItemType.BLOB key value)

/-- `outValue` is what the variable holds before; its bytes afterwards are returned. -/
def nvsGet (t : IntType) (handle : Word) (key : List Byte) (outValue : BitVec (8 * t.size)) : ApiM n (List Byte) := do
  let entry ← nvsFindNsHandle handle
  onStorage (Storage.readItem env entry.mNsIndex (itemTypeOf t) key (bytesOf t.size outValue))

def nvsGetI8 (handle : Word) (key : List Byte) (outValue : BitVec 8) : ApiM n (List Byte) :=
  nvsGet env .i8 handle key outValue
def nvsGetU8 (handle : Word) (key : List Byte) (outValue : BitVec 8) : ApiM n (List Byte) :=
  nvsGet env .u8 handle key outValue
def nvsGetI16 (handle : Word) (key : List Byte) (outValue : BitVec 16) : ApiM n (List Byte) :=
  nvsGet env .i16 handle key outValue
def nvsGetU16 (handle : Word) (key : List Byte) (outValue : BitVec 16) : ApiM n (List Byte) :=
  nvsGet env .u16 handle key outValue
def nvsGetI32 (handle : Word) (key : List Byte) (outValue : BitVec 32) : ApiM n (List Byte) :=
  nvsGet env .i32 handle key outValue
def nvsGetU32 (handle : Word) (key : List Byte) (outValue : BitVec 32) : ApiM n (List Byte) :=
  nvsGet env .u32 handle key outValue
def nvsGetI64 (handle : Word) (key : List Byte) (outValue : BitVec 64) : ApiM n (List Byte) :=
  nvsGet env .i64 handle key outValue
def nvsGetU64 (handle : Word) (key : List Byte) (outValue : BitVec 64) : ApiM n (List Byte) :=
  nvsGet env .u64 handle key outValue

def nvsGetStrOrBlob (type : ItemType) (handle : Word) (key : List Byte) (outValue : Option (List Byte))
    (length : Option Nat) : ApiM n GetResult := do
  match ← attempt (nvsFindNsHandle handle) with
  | .error e => pure ⟨.error e, length, outValue⟩
  | .ok entry =>
      match ← attempt (onStorage (Storage.getItemDataSize env entry.mNsIndex type key)) with
      | .error e => pure ⟨.error e, length, outValue⟩
      | .ok dataSize =>
          match length, outValue with
          | none, _ => pure ⟨.error .invalidLength, length, outValue⟩
          | some _, none => pure ⟨.ok (), some dataSize, none⟩
          | some room, some buffer =>
              if room < dataSize then pure ⟨.error .invalidLength, some dataSize, some buffer⟩
              else do
                match ← attempt (onStorage (Storage.readItem env entry.mNsIndex type key (buffer.take dataSize))) with
                | .error e => pure ⟨.error e, some dataSize, some buffer⟩
                | .ok data => pure ⟨.ok (), some dataSize, some (data ++ buffer.drop dataSize)⟩

def nvsGetStr (handle : Word) (key : List Byte) (outValue : Option (List Byte)) (length : Option Nat) :
    ApiM n GetResult := nvsGetStrOrBlob env ItemType.SZ handle key outValue length

def nvsGetBlob (handle : Word) (key : List Byte) (outValue : Option (List Byte)) (length : Option Nat) :
    ApiM n GetResult := nvsGetStrOrBlob env ItemType.BLOB handle key outValue length

end

end Api

end EspFirmware.Nvs
