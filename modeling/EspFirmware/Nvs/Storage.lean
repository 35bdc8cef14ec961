import EspFirmware.Nvs.PageManager

/-!
`nvs_storage.cpp`. `findItem` takes every error of a page for "not on this page".
-/

namespace EspFirmware.Nvs
open EspFirmware.Lib Prog

inductive StorageState where
  | invalid
  | active
  deriving DecidableEq, Repr

structure NamespaceEntry where
  mName : List Byte
  mIndex : Byte
  deriving DecidableEq, Repr

structure Storage (n : Nat) where
  mPageManager : PageManager n
  mNamespaces : List NamespaceEntry
  mNamespaceUsage : CompressedEnumTable
  mState : StorageState

namespace Storage
variable {n : Nat}

abbrev StorageM (n : Nat) := Prog (Storage n) (Flash n) EspErr

def fresh (env : Env) : Storage n where
  mPageManager := ⟨fun _ => Page.fresh env, [], [], 0⟩
  mNamespaces := []
  mNamespaceUsage := fun _ => 0
  mState := .invalid

def onManager {α : Type} (p : PageManager.ManagerM n α) : StorageM n α :=
  zoom Storage.mPageManager (fun m st => { st with mPageManager := m }) id (fun f _ => f) p

def onPage {α : Type} (i : Fin n) (p : Page.PageM α) : StorageM n α := onManager (PageManager.onPage i p)

def requireActive : StorageM n Unit := do
  let st ← get
  if st.mState ≠ .active then throw .notInitialized

section
variable (env : Env)

def namespaceLoop (page : Fin n) : Nat → Nat → StorageM n Unit
  | 0, _ => fault
  | fuel + 1, itemIndex => do
      let found ← onPage page (Page.findItem env NS_INDEX ItemType.U8 none itemIndex Page.blankItem)
      match found.result with
      | .ok index => do
          let item := found.item
          let nsIndex := item.data.headD 0
          modify fun st =>
            { st with
              mNamespaces := st.mNamespaces ++ [⟨(cString item.key).take MAX_KEY_LENGTH, nsIndex⟩],
              mNamespaceUsage := CompressedEnumTable.set 1 st.mNamespaceUsage nsIndex.toNat 1 }
          namespaceLoop page fuel (index + item.span)
      | .error _ => pure ()

def loadNamespaces : List (Fin n) → StorageM n Unit
  | [] => pure ()
  | page :: rest => do
      namespaceLoop env page (ENTRY_COUNT + 1) 0
      loadNamespaces rest

def init : StorageM n Unit := do
  match ← attempt (onManager (PageManager.load env)) with
  | .error e => do
      modify fun st => { st with mState := .invalid }
      throw e
  | .ok _ => do
      modify fun st => { st with mNamespaces := [], mNamespaceUsage := fun _ => 0 }
      let st ← get
      loadNamespaces env st.mPageManager.mPageList
      modify fun st =>
        { st with
          mNamespaceUsage :=
            CompressedEnumTable.set 1 (CompressedEnumTable.set 1 st.mNamespaceUsage 0 1) 255 1,
          mState := .active }

def findPage (nsIndex : Byte) (datatype : ItemType) (key : Option (List Byte)) :
    List (Fin n) → StorageM n (Option (Fin n × Item))
  | [] => pure none
  | page :: rest => do
      let found ← onPage page (Page.findItem env nsIndex datatype key 0 Page.blankItem)
      match found.result with
      | .ok _ => pure (some (page, found.item))
      | .error _ => findPage nsIndex datatype key rest

def findItem (nsIndex : Byte) (datatype : ItemType) (key : Option (List Byte)) :
    StorageM n (Option (Fin n × Item)) := do
  let st ← get
  findPage env nsIndex datatype key st.mPageManager.mPageList

/-- The write to the current page, which may have to be replaced by a new one first. -/
def writeToPage (nsIndex : Byte) (datatype : ItemType) (key data : List Byte) : StorageM n Unit := do
  let page ← onManager PageManager.back
  match ← attempt (onPage page (Page.writeItem env nsIndex datatype key data)) with
  | .ok _ => pure ()
  | .error .pageFull => do
      let state ← onManager (PageManager.pageState page)
      if state ≠ .full then onPage page Page.markFull
      onManager (PageManager.requestNewPage env)
      let page ← onManager PageManager.back
      match ← attempt (onPage page (Page.writeItem env nsIndex datatype key data)) with
      | .ok _ => pure ()
      | .error .pageFull => throw .notEnoughSpace
      | .error e => throw e
  | .error e => throw e

def eraseOldCopy (nsIndex : Byte) (datatype : ItemType) (key : List Byte) (page : Fin n) : StorageM n Unit := do
  let state ← onManager (PageManager.pageState page)
  let page ←
    if state = .uninitialized ∨ state = .invalid then do
      match ← findItem env nsIndex datatype (some key) with
      | some (page, _) => pure page
      | none => fault
    else pure page
  match ← attempt (onPage page (Page.eraseItem env nsIndex datatype (some key))) with
  | .ok _ => pure ()
  | .error .flashOpFail => throw .removeFailed
  | .error e => throw e

def writeItem (nsIndex : Byte) (datatype : ItemType) (key data : List Byte) : StorageM n Unit := do
  requireActive
  let old ← findItem env nsIndex datatype (some key)
  writeToPage env nsIndex datatype key data
  match old with
  | none => pure ()
  | some (page, _) => eraseOldCopy env nsIndex datatype key page

def readItem (nsIndex : Byte) (datatype : ItemType) (key data : List Byte) : StorageM n (List Byte) := do
  requireActive
  match ← findItem env nsIndex datatype (some key) with
  | none => throw .notFound
  | some (page, _) => onPage page (Page.readItem env nsIndex datatype key data)

def eraseItem (nsIndex : Byte) (datatype : ItemType) (key : List Byte) : StorageM n Unit := do
  requireActive
  match ← findItem env nsIndex datatype (some key) with
  | none => throw .notFound
  | some (page, _) => onPage page (Page.eraseItem env nsIndex datatype (some key))

def eraseAllLoop (nsIndex : Byte) (page : Fin n) : Nat → StorageM n Unit
  | 0 => fault
  | fuel + 1 => do
      match ← attempt (onPage page (Page.eraseItem env nsIndex ItemType.ANY none)) with
      | .ok _ => eraseAllLoop nsIndex page fuel
      | .error .notFound => pure ()
      | .error e => throw e

def erasePages (nsIndex : Byte) : List (Fin n) → StorageM n Unit
  | [] => pure ()
  | page :: rest => do
      eraseAllLoop env nsIndex page (ENTRY_COUNT + 1)
      erasePages nsIndex rest

def eraseNamespace (nsIndex : Byte) : StorageM n Unit := do
  requireActive
  let st ← get
  erasePages env nsIndex st.mPageManager.mPageList

def getItemDataSize (nsIndex : Byte) (datatype : ItemType) (key : List Byte) : StorageM n Nat := do
  requireActive
  match ← findItem env nsIndex datatype (some key) with
  | none => throw .notFound
  | some (_, item) => pure item.dataSize

def freeNamespaceIndex (usage : CompressedEnumTable) : Option Nat :=
  ((List.range 255).drop 1).find? fun ns => CompressedEnumTable.get 1 usage ns = 0

def createOrOpenNamespace (nsName : List Byte) (canCreate : Bool) : StorageM n Byte := do
  requireActive
  let st ← get
  match st.mNamespaces.find? fun e => Page.strncmpEq MAX_KEY_LENGTH nsName e.mName with
  | some e => pure e.mIndex
  | none =>
      if !canCreate then throw .notFound
      else
        match freeNamespaceIndex st.mNamespaceUsage with
        | none => throw .notEnoughSpace
        | some ns => do
            writeItem env NS_INDEX ItemType.U8 nsName [BitVec.ofNat 8 ns]
            modify fun st =>
              { st with
                mNamespaceUsage := CompressedEnumTable.set 1 st.mNamespaceUsage ns 1,
                mNamespaces :=
                  st.mNamespaces ++ [⟨(cString nsName).take MAX_KEY_LENGTH, BitVec.ofNat 8 ns⟩] }
            pure (BitVec.ofNat 8 ns)

end

end Storage

end EspFirmware.Nvs
