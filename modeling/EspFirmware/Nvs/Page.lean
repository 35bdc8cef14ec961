import EspFirmware.Lib.Prog
import EspFirmware.Nvs.Types

/-!
`nvs_page.cpp`. A page is its fields in RAM and its sector. Error codes travel as errors of the
program, failed assertions as faults; a loop that makes no progress is a fault too. Reading flash
always succeeds, a word write fails when it would set bits.
-/

namespace EspFirmware.Nvs
open EspFirmware.Lib

inductive EspErr where
  | notFound
  | typeMismatch
  | invalidState
  | invalidLength
  | keyTooLong
  | valueTooLong
  | pageFull
  | notEnoughSpace
  | noFreePages
  | notInitialized
  | removeFailed
  | flashOpFail
  | readOnly
  | invalidHandle
  deriving DecidableEq, Repr

inductive PageState where
  | uninitialized
  | active
  | full
  | freeing
  | corrupt
  | invalid
  deriving DecidableEq, Repr

def PageState.toWord : PageState → Word
  | .uninitialized => 0xFFFFFFFF
  | .active => 0xFFFFFFFE
  | .full => 0xFFFFFFFC
  | .freeing => 0xFFFFFFF8
  | .corrupt => 0xFFFFFFF0
  | .invalid => 0

/-- The state a header names. `Page::load` takes every other value for a corrupt page. -/
def PageState.ofWord (w : Word) : PageState :=
  if w = 0xFFFFFFFF then .uninitialized
  else if w = 0xFFFFFFFE then .active
  else if w = 0xFFFFFFFC then .full
  else if w = 0xFFFFFFF8 then .freeing
  else .corrupt

def INVALID_ENTRY : Nat := 0xFFFFFFFF
def ENTRY_SIZE : Nat := 32
def BLOB_MAX_SIZE : Nat := ENTRY_SIZE * (ENTRY_COUNT / 2 - 1)
def NS_INDEX : Byte := 0
def NS_ANY : Byte := 255

structure Page where
  mState : PageState
  mSeqNumber : Word
  mEntryTable : CompressedEnumTable
  mNextFreeEntry : Nat
  mFirstUsedEntry : Nat
  mUsedEntryCount : Nat
  mErasedEntryCount : Nat
  mHashList : HashList

namespace Page

def fresh (env : Env) : Page where
  mState := .invalid
  mSeqNumber := 0xFFFFFFFF
  mEntryTable := env.memory
  mNextFreeEntry := INVALID_ENTRY
  mFirstUsedEntry := INVALID_ENTRY
  mUsedEntryCount := 0
  mErasedEntryCount := 0
  mHashList := []

def inc16 (n : Nat) : Nat := (n + 1) % 2 ^ 16
def dec16 (n : Nat) : Nat := (n + 2 ^ 16 - 1) % 2 ^ 16

abbrev PageM := Prog Page Sector EspErr
open Prog

def blankItem : Item := fun _ => 0

def entryAt (s : Sector) (i : Nat) : Item := fun k => s (.entry i k.val)

def spiFlashWriteWord (loc : Loc) (w : Word) : PageM Unit := do
  let s ← read
  if ~~~ (s loc) &&& w ≠ 0 then throw .flashOpFail
  else write fun s => Function.update s loc w

def spiFlashWrite : List (Loc × Word) → PageM Unit
  | [] => pure ()
  | (loc, w) :: rest => do
      spiFlashWriteWord loc w
      spiFlashWrite rest

def orInvalid {α : Type} (p : PageM α) : PageM α := do
  match ← attempt p with
  | .ok a => pure a
  | .error e => do
      modify fun pg => { pg with mState := .invalid }
      throw e

def ignoreError (p : PageM Unit) : PageM Unit := do
  let _ ← attempt p

def getState (i : Nat) : PageM EntryState := do
  assert (i < ENTRY_COUNT)
  let pg ← get
  pure (entryState pg.mEntryTable i)

def readEntry (i : Nat) : PageM Item := do
  assert (i < ENTRY_COUNT)
  let s ← read
  pure (entryAt s i)

def entryWords (i : Nat) (item : Item) : List (Loc × Word) :=
  (List.finRange 8).map fun k => (.entry i k.val, item k)

def alterEntryState (index : Nat) (state : EntryState) : PageM Unit := do
  assert (index < ENTRY_COUNT)
  modify fun pg => { pg with mEntryTable := setEntryState pg.mEntryTable index state }
  let pg ← get
  let word := CompressedEnumTable.getWordIndex 2 index
  orInvalid (spiFlashWriteWord (.table word) (pg.mEntryTable word))

/-- The loop of `alterEntryRangeState`: the last `count` entries from `begin` on are still to do, and
`wordIndex` is the word of the last of them. -/
def alterRangeLoop (begin : Nat) (state : EntryState) : Nat → Nat → PageM Unit
  | 0, _ => pure ()
  | count + 1, wordIndex => do
      modify fun pg => { pg with mEntryTable := setEntryState pg.mEntryTable (begin + count) state }
      let nextWordIndex := CompressedEnumTable.getWordIndex 2 (begin + count - 1)
      if count = 0 ∨ nextWordIndex ≠ wordIndex then do
        let pg ← get
        spiFlashWriteWord (.table wordIndex) (pg.mEntryTable wordIndex)
      alterRangeLoop begin state count nextWordIndex

def alterEntryRangeState (begin end_ : Nat) (state : EntryState) : PageM Unit := do
  assert (end_ ≤ ENTRY_COUNT)
  assert (begin < end_)
  alterRangeLoop begin state (end_ - begin) (CompressedEnumTable.getWordIndex 2 (end_ - 1))

def alterPageState (state : PageState) : PageM Unit := do
  orInvalid (spiFlashWriteWord (.header 0) state.toWord)
  modify fun pg => { pg with mState := state }

section
variable (env : Env)

def headerCrc32 (s : Sector) : Word :=
  env.crc32 ((List.range 6).flatMap fun k => wordBytes (s (.header (k + 1))))

def initializePage : PageM Unit := do
  let pg ← get
  assert (pg.mState = .uninitialized)
  modify fun pg => { pg with mState := .active }
  let rest := (List.range 5).map fun k => (Loc.header (k + 2), blank)
  let crc := env.crc32 (wordBytes pg.mSeqNumber ++ List.replicate 20 0xFF)
  orInvalid (spiFlashWrite
    ((.header 0, PageState.active.toWord) :: (.header 1, pg.mSeqNumber) :: rest ++ [(.header 7, crc)]))
  modify fun pg => { pg with mNextFreeEntry := 0, mEntryTable := fun _ => blank }

def writeEntry (item : Item) : PageM Unit := do
  let pg ← get
  let next := pg.mNextFreeEntry
  assert (next < ENTRY_COUNT)
  orInvalid (spiFlashWrite (entryWords next item))
  alterEntryState next .written
  modify fun pg =>
    { pg with mFirstUsedEntry := if pg.mFirstUsedEntry = INVALID_ENTRY then next else pg.mFirstUsedEntry,
              mUsedEntryCount := inc16 pg.mUsedEntryCount, mNextFreeEntry := next + 1 }

def dataEntries (data : List Byte) : List Item :=
  (List.range (data.length / ENTRY_SIZE)).map fun k => entryOfBytes ((data.drop (ENTRY_SIZE * k)).take ENTRY_SIZE)

def writeEntryData (data : List Byte) : PageM Unit := do
  let pg ← get
  let next := pg.mNextFreeEntry
  assert (data.length % ENTRY_SIZE = 0)
  assert (next ≠ INVALID_ENTRY)
  assert (pg.mFirstUsedEntry ≠ INVALID_ENTRY)
  assert (next < ENTRY_COUNT)
  let entries := dataEntries data
  orInvalid (spiFlashWrite (entries.zipIdx.flatMap fun e => entryWords (next + e.2) e.1))
  alterEntryRangeState next (next + entries.length) .written
  modify fun pg => { pg with mUsedEntryCount := (pg.mUsedEntryCount + entries.length) % 2 ^ 16,
                             mNextFreeEntry := next + entries.length }

/-- The entry for the bytes after the last whole piece: they overwrite a copy of the item, of which
`fill_n` has set the first eight bytes. -/
def tailEntry (item : Item) (tail : List Byte) : Item :=
  entryOfBytes (tail ++ (List.replicate 8 0xFF ++ item.rawData.drop 8).drop tail.length)

def entriesCount (datatype : ItemType) (dataSize : Nat) : Nat :=
  if datatype.isVariable then 1 + (dataSize + ENTRY_SIZE - 1) / ENTRY_SIZE else 1

def itemFor (nsIndex : Byte) (datatype : ItemType) (key data : List Byte) : Item :=
  let item := Item.make nsIndex datatype (BitVec.ofNat 8 (entriesCount datatype data.length)) (some key)
  if datatype.isVariable then env.sealItem (item.setVarLength data.length (env.crc32 data))
  else env.sealItem (item.setData data)

def writeItem (nsIndex : Byte) (datatype : ItemType) (key data : List Byte) : PageM Unit := do
  let pg ← get
  if pg.mState = .invalid then throw .invalidState
  if pg.mState = .uninitialized then initializePage env
  let pg ← get
  if pg.mState = .full then throw .pageFull
  if (cString key).length > MAX_KEY_LENGTH then throw .keyTooLong
  if data.length > BLOB_MAX_SIZE then throw .valueTooLong
  if pg.mNextFreeEntry = INVALID_ENTRY ∨
      pg.mNextFreeEntry + entriesCount datatype data.length > ENTRY_COUNT then throw .pageFull
  let item := itemFor env nsIndex datatype key data
  modify fun pg =>
    { pg with mHashList := pg.mHashList.insert (env.itemHash item) pg.mNextFreeEntry }
  if datatype.isVariable then do
    writeEntry item
    let left := data.length / ENTRY_SIZE * ENTRY_SIZE
    if left > 0 then writeEntryData (data.take left)
    if left < data.length then writeEntry (tailEntry item (data.drop left))
  else do
    assert (data.length ≤ 8)
    writeEntry item

def countErased (index : Nat) : Nat → PageM Unit
  | 0 => pure ()
  | count + 1 => do
      let state ← getState (index + count)
      modify fun pg =>
        { pg with
          mUsedEntryCount := if state = .written then dec16 pg.mUsedEntryCount else pg.mUsedEntryCount,
          mErasedEntryCount := inc16 pg.mErasedEntryCount }
      countErased index count

def updateFirstUsedEntry (index span : Nat) (pg : Page) : Page :=
  let later := (List.range (min pg.mNextFreeEntry ENTRY_COUNT)).drop (index + span)
  let first := later.find? fun i => entryState pg.mEntryTable i = .written
  { pg with mFirstUsedEntry := first.getD INVALID_ENTRY }

def afterErase (index span : Nat) (pg : Page) : Page :=
  let pg := if index = pg.mFirstUsedEntry then updateFirstUsedEntry index span pg else pg
  if index + span > pg.mNextFreeEntry then { pg with mNextFreeEntry := index + span } else pg

def eraseEntryAndSpan (index : Nat) : PageM Unit := do
  let state ← getState index
  assert (state = .written ∨ state = .empty)
  if state = .written then do
    let item ← readEntry index
    let pg ← get
    let (hashList, found) := HashList.erase index pg.mHashList
    modify fun pg => { pg with mHashList := hashList }
    if env.calculateCrc32 item ≠ item.crc32 then do
      let altered ← attempt (alterEntryState index .erased)
      modify fun pg => { pg with mUsedEntryCount := dec16 pg.mUsedEntryCount,
                                 mErasedEntryCount := inc16 pg.mErasedEntryCount }
      match altered with
      | .ok _ => modify (afterErase index 1)
      | .error e => throw e
    else do
      assert (found = true)
      countErased index item.span
      if item.span = 1 then alterEntryState index .erased
      else alterEntryRangeState index (index + item.span) .erased
      modify (afterErase index item.span)
  else do
    alterEntryState index .erased
    modify (afterErase index 1)

def strncmpEq : Nat → List Byte → List Byte → Bool
  | 0, _, _ => true
  | n + 1, a, b =>
      a.headD 0 == b.headD 0 && (a.headD 0 == 0 || strncmpEq n a.tail b.tail)

/-- What a search leaves in its out parameters: the index of the item or the error, and the item read
last. -/
structure Found where
  result : Except EspErr Nat
  item : Item

/-- The entry at `i` matches, matches with another type, or does not match. -/
def matchItem (nsIndex : Byte) (datatype : ItemType) (key : Option (List Byte)) (item : Item) :
    Option (Except EspErr Unit) :=
  if nsIndex ≠ NS_ANY ∧ item.nsIndex ≠ nsIndex then none
  else if key.any fun k => !strncmpEq MAX_KEY_LENGTH k item.key then none
  else if datatype ≠ ItemType.ANY ∧ item.datatype ≠ datatype then some (.error .typeMismatch)
  else some (.ok ())

def findLoop (nsIndex : Byte) (datatype : ItemType) (key : Option (List Byte)) (end_ : Nat) :
    Nat → Nat → Item → PageM Found
  | 0, _, _ => fault
  | fuel + 1, i, item =>
      if end_ ≤ i then pure ⟨.error .notFound, item⟩
      else do
        let state ← getState i
        if state ≠ .written then findLoop nsIndex datatype key end_ fuel (i + 1) item
        else do
          let item ← readEntry i
          if env.calculateCrc32 item ≠ item.crc32 then do
            match ← attempt (orInvalid (eraseEntryAndSpan env i)) with
            | .ok _ => findLoop nsIndex datatype key end_ fuel (i + 1) item
            | .error e => pure ⟨.error e, item⟩
          else
            let next := if item.datatype.isVariable then i + item.span else i + 1
            match matchItem nsIndex datatype key item with
            | none => findLoop nsIndex datatype key end_ fuel next item
            | some (.error e) => pure ⟨.error e, item⟩
            | some (.ok _) => pure ⟨.ok i, item⟩

/-- Where the search starts by the hash list; without a full key it starts at `start`. -/
def cachedStart (nsIndex : Byte) (datatype : ItemType) (key : Option (List Byte)) (pg : Page)
    (start : Nat) : Option Nat :=
  if nsIndex ≠ NS_ANY ∧ datatype ≠ ItemType.ANY ∧ key.isSome then
    (pg.mHashList.find start (env.itemHash (Item.make nsIndex datatype 0 key))).filter (· < ENTRY_COUNT)
  else some start

def findItem (nsIndex : Byte) (datatype : ItemType) (key : Option (List Byte)) (itemIndex : Nat)
    (item : Item) : PageM Found := do
  let pg ← get
  if pg.mState = .corrupt ∨ pg.mState = .invalid ∨ pg.mState = .uninitialized ∨ ENTRY_COUNT ≤ itemIndex then
    pure ⟨.error .notFound, item⟩
  else
    let start := if pg.mFirstUsedEntry < itemIndex then itemIndex else pg.mFirstUsedEntry
    let end_ := min pg.mNextFreeEntry ENTRY_COUNT
    match cachedStart env nsIndex datatype key pg start with
    | none => pure ⟨.error .notFound, item⟩
    | some start => findLoop env nsIndex datatype key end_ (ENTRY_COUNT + 1) start item

def findIndex (nsIndex : Byte) (datatype : ItemType) (key : Option (List Byte)) : PageM (Nat × Item) := do
  let found ← findItem env nsIndex datatype key 0 blankItem
  match found.result with
  | .ok index => pure (index, found.item)
  | .error e => throw e

def readEntries : Nat → Nat → PageM (List Item)
  | 0, _ => pure []
  | count + 1, i => do
      let item ← readEntry i
      let rest ← readEntries count (i + 1)
      pure (item :: rest)

def readItem (nsIndex : Byte) (datatype : ItemType) (key : List Byte) (data : List Byte) :
    PageM (List Byte) := do
  let pg ← get
  if pg.mState = .invalid then throw .invalidState
  let (index, item) ← findIndex env nsIndex datatype (some key)
  if datatype.isVariable then
    if data.length < item.dataSize then throw .invalidLength
    else do
      let entries ← readEntries (item.span - 1) (index + 1)
      let copied := (entries.flatMap Item.rawData).take item.dataSize
      let data := copied ++ data.drop copied.length
      if env.crc32 (data.take item.dataSize) ≠ item.dataCrc32 then do
        eraseEntryAndSpan env index
        throw .notFound
      else pure data
  else if data.length ≠ (datatype &&& 0x0F).toNat then throw .typeMismatch
  else pure (item.data.take data.length ++ data.drop 8)

def eraseItem (nsIndex : Byte) (datatype : ItemType) (key : Option (List Byte)) : PageM Unit := do
  let (index, _) ← findIndex env nsIndex datatype key
  eraseEntryAndSpan env index

def copySpan (source : Sector) : Nat → Nat → PageM Unit
  | 0, _ => pure ()
  | count + 1, i => do
      assert (i < ENTRY_COUNT)
      writeEntry (entryAt source i)
      copySpan source count (i + 1)

def copyLoop (pg : Page) (source : Sector) : Nat → Nat → PageM Unit
  | 0, _ => fault
  | fuel + 1, readEntryIndex =>
      if ENTRY_COUNT ≤ readEntryIndex then pure ()
      else if entryState pg.mEntryTable readEntryIndex ≠ .written then do
        assert (readEntryIndex ≠ pg.mFirstUsedEntry)
        copyLoop pg source fuel (readEntryIndex + 1)
      else do
        let entry := entryAt source readEntryIndex
        modify fun other =>
          { other with mHashList := other.mHashList.insert (env.itemHash entry) other.mNextFreeEntry }
        writeEntry entry
        let end_ := readEntryIndex + entry.span
        assert (end_ ≤ ENTRY_COUNT)
        copySpan source (entry.span - 1) (readEntryIndex + 1)
        copyLoop pg source fuel end_

def copyItems (pg : Page) (source : Sector) : PageM Unit := do
  if pg.mFirstUsedEntry = INVALID_ENTRY then throw .notFound
  let other ← get
  if other.mState = .uninitialized then initializePage env
  copyLoop env pg source (ENTRY_COUNT + 1) pg.mFirstUsedEntry

def countEntries (pg : Page) : Page :=
  let has (state : EntryState) (i : Nat) : Bool := entryState pg.mEntryTable i = state
  { pg with
    mUsedEntryCount := (List.range ENTRY_COUNT).countP (has .written),
    mErasedEntryCount := (List.range ENTRY_COUNT).countP (has .erased),
    mFirstUsedEntry :=
      if pg.mFirstUsedEntry = INVALID_ENTRY then
        ((List.range ENTRY_COUNT).find? (has .written)).getD INVALID_ENTRY
      else pg.mFirstUsedEntry }

def halfWrittenLoop : Nat → PageM Unit
  | 0 => fault
  | fuel + 1 => do
      let pg ← get
      let next := pg.mNextFreeEntry
      if ENTRY_COUNT ≤ next then pure ()
      else do
        let s ← read
        if s (.entry next 0) = blank then pure ()
        else do
          orInvalid (alterEntryState next .erased)
          modify fun pg' =>
            { pg' with mNextFreeEntry := next + 1,
                       mUsedEntryCount :=
                         if entryState pg.mEntryTable next = .written then dec16 pg'.mUsedEntryCount
                         else pg'.mUsedEntryCount,
                       mErasedEntryCount := inc16 pg'.mErasedEntryCount }
          halfWrittenLoop fuel

/-- All of `count` entries from `j` on are written; the loop stops at the first that is not. -/
def allWritten : Nat → Nat → PageM Bool
  | 0, _ => pure true
  | count + 1, j => do
      let state ← getState j
      if state = .written then allWritten count (j + 1) else pure false

/-- The loop over the items of an active page: from entry `i` on, with the item read last and the index
of the last item that was kept. -/
def checkLoop (end_ : Nat) : Nat → Nat → Item → Nat → PageM (Item × Nat)
  | 0, _, _, _ => fault
  | fuel + 1, i, item, lastItemIndex =>
      if end_ ≤ i then pure (item, lastItemIndex)
      else do
        let state ← getState i
        if state = .erased then checkLoop end_ fuel (i + 1) item INVALID_ENTRY
        else do
          let item ← readEntry i
          if item.crc32 ≠ env.calculateCrc32 item then do
            orInvalid (eraseEntryAndSpan env i)
            checkLoop end_ fuel (i + 1) item i
          else do
            modify fun pg => { pg with mHashList := pg.mHashList.insert (env.itemHash item) i }
            let pg ← get
            let duplicateIndex := pg.mHashList.find 0 (env.itemHash item)
            let span := if item.datatype.isVariable then item.span else 1
            let whole ← if item.datatype.isVariable then allWritten span i else pure true
            if whole then do
              match duplicateIndex with
              | some duplicate => if duplicate < i then ignoreError (eraseEntryAndSpan env duplicate)
              | none => pure ()
              checkLoop end_ fuel (i + span) item i
            else do
              ignoreError (eraseEntryAndSpan env i)
              checkLoop end_ fuel (i + span) item INVALID_ENTRY

def fullLoop : Nat → Nat → PageM Unit
  | 0, _ => fault
  | fuel + 1, i =>
      if ENTRY_COUNT ≤ i then pure ()
      else do
        let state ← getState i
        if state ≠ .written then fullLoop fuel (i + 1)
        else do
          let item ← readEntry i
          if item.crc32 ≠ env.calculateCrc32 item then do
            orInvalid (eraseEntryAndSpan env i)
            fullLoop fuel (i + 1)
          else do
            assert (0 < item.span)
            modify fun pg => { pg with mHashList := pg.mHashList.insert (env.itemHash item) i }
            let whole ← if item.datatype.isVariable then allWritten (item.span - 1) (i + 1) else pure true
            if whole then pure () else ignoreError (eraseEntryAndSpan env i)
            fullLoop fuel (i + item.span)

def loadActive : PageM Unit := do
  modify fun pg =>
    { pg with mNextFreeEntry :=
        ((List.range ENTRY_COUNT).find? fun i => entryState pg.mEntryTable i = .empty).getD pg.mNextFreeEntry }
  halfWrittenLoop (ENTRY_COUNT + 1)
  let pg ← get
  let (item, lastItemIndex) ←
    checkLoop env (min pg.mNextFreeEntry ENTRY_COUNT) (ENTRY_COUNT + 1) 0 blankItem INVALID_ENTRY
  if lastItemIndex ≠ INVALID_ENTRY then do
    let found ← findItem env item.nsIndex item.datatype (some item.key) 0 blankItem
    match found.result with
    | .ok index => if index < lastItemIndex then orInvalid (eraseEntryAndSpan env index)
    | .error _ => pure ()

def mLoadEntryTable : PageM Unit := do
  let s ← read
  modify fun pg => { pg with mEntryTable := fun k => s (.table k) }
  modify countEntries
  let pg ← get
  if pg.mState = .active then loadActive env
  else fullLoop env (ENTRY_COUNT + 1) pg.mFirstUsedEntry

/-- The first four words of every 32-byte line, which is all the check for an empty page looks at. -/
def looksEmpty (s : Sector) : Bool :=
  (List.range 4).all fun k =>
    s (.header k) = blank && s (.table k) = blank &&
      (List.range ENTRY_COUNT).all fun i => s (.entry i k) = blank

def load : PageM Unit := do
  modify fun pg => { pg with mUsedEntryCount := 0, mErasedEntryCount := 0 }
  let s ← read
  if PageState.ofWord (s (.header 0)) = .uninitialized then
    modify fun pg => { pg with mState := if looksEmpty s then .uninitialized else .corrupt }
  else if s (.header 7) = headerCrc32 env s then
    modify fun pg => { pg with mState := .ofWord (s (.header 0)), mSeqNumber := s (.header 1) }
  let pg ← get
  match pg.mState with
  | .uninitialized => pure ()
  | .full | .active | .freeing => ignoreError (mLoadEntryTable env)
  | .corrupt | .invalid => modify fun pg => { pg with mState := .corrupt }

end

def getSeqNumber (pg : Page) : Option Word :=
  if pg.mState ≠ .uninitialized ∧ pg.mState ≠ .invalid ∧ pg.mState ≠ .corrupt then some pg.mSeqNumber
  else none

/-- The error of a page that is not uninitialised is not looked at. -/
def setSeqNumber (seqNumber : Word) (pg : Page) : Page :=
  if pg.mState = .uninitialized then { pg with mSeqNumber := seqNumber } else pg

def erase : PageM Unit := do
  write fun _ => erasedSector
  modify fun pg =>
    { pg with mUsedEntryCount := 0, mErasedEntryCount := 0, mFirstUsedEntry := INVALID_ENTRY,
              mNextFreeEntry := INVALID_ENTRY, mState := .uninitialized, mHashList := [] }

def markFreeing : PageM Unit := do
  let pg ← get
  if pg.mState ≠ .full ∧ pg.mState ≠ .active then throw .invalidState
  alterPageState .freeing

def markFull : PageM Unit := do
  let pg ← get
  if pg.mState ≠ .active then throw .invalidState
  alterPageState .full

end Page

end EspFirmware.Nvs
