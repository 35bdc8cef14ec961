import EspFirmware.Nvs.Page

/-!
`nvs_pagemanager.cpp`: the pages of a partition in the order of their sequence numbers, and the pages
that are free. The lists hold the numbers of the pages.
-/

namespace EspFirmware.Nvs
open EspFirmware.Lib Prog

abbrev Flash (n : Nat) := Fin n → Sector

structure PageManager (n : Nat) where
  mPages : Fin n → Page
  mPageList : List (Fin n)
  mFreePageList : List (Fin n)
  mSeqNumber : Word

namespace PageManager
variable {n : Nat}

abbrev ManagerM (n : Nat) := Prog (PageManager n) (Flash n) EspErr

def onPage {α : Type} (i : Fin n) (p : Page.PageM α) : ManagerM n α :=
  zoom (fun m => m.mPages i) (fun pg m => { m with mPages := Function.update m.mPages i pg })
    (fun f => f i) (fun s f => Function.update f i s) p

def pageState (i : Fin n) : ManagerM n PageState := do
  let m ← get
  pure (m.mPages i).mState

def back : ManagerM n (Fin n) := do
  let m ← get
  match m.mPageList.getLast? with
  | some i => pure i
  | none => fault

section
variable (env : Env)

def activatePage : ManagerM n Unit := do
  let m ← get
  match m.mFreePageList with
  | [] => throw .notEnoughSpace
  | p :: rest => do
      if (m.mPages p).mState = .corrupt then onPage p Page.erase
      modify fun m =>
        { m with mFreePageList := rest, mPageList := m.mPageList ++ [p],
                 mPages := Function.update m.mPages p ((m.mPages p).setSeqNumber m.mSeqNumber),
                 mSeqNumber := m.mSeqNumber + 1 }

def insertPage (pages : Fin n → Page) (i : Fin n) (seqNumber : Word) (list : List (Fin n)) : List (Fin n) :=
  let lower (j : Fin n) : Bool := ((pages j).getSeqNumber).all fun other => other ≤ seqNumber
  list.takeWhile lower ++ i :: list.dropWhile lower

def loadPages : List (Fin n) → ManagerM n Unit
  | [] => pure ()
  | i :: rest => do
      onPage i (Page.load env)
      modify fun m =>
        match (m.mPages i).getSeqNumber with
        | none => { m with mFreePageList := m.mFreePageList ++ [i] }
        | some seqNumber => { m with mPageList := insertPage m.mPages i seqNumber m.mPageList }
      loadPages rest

/-- The search through all items of the last page; the item is the one read last, and there is none if
none was found. -/
def lastItemLoop (page : Fin n) : Nat → Nat → Option Item → ManagerM n (Option Item)
  | 0, _, _ => fault
  | fuel + 1, itemIndex, last => do
      let found ← onPage page
        (Page.findItem env NS_ANY ItemType.ANY none itemIndex (last.getD Page.blankItem))
      match found.result with
      | .ok index => lastItemLoop page fuel (index + found.item.span) (some found.item)
      | .error _ => pure (last.map fun _ => found.item)

def eraseDuplicate (item : Item) : List (Fin n) → ManagerM n Unit
  | [] => pure ()
  | page :: rest => do
      let state ← pageState page
      if state = .freeing then eraseDuplicate item rest
      else do
        match ← attempt (onPage page (Page.eraseItem env item.nsIndex item.datatype (some item.key))) with
        | .ok _ => pure ()
        | .error _ => eraseDuplicate item rest

/-- What is on the page moves to the last page of the list, and the page becomes free. -/
def freePage (page : Fin n) : ManagerM n Unit := do
  let newPage ← back
  let m ← get
  let f ← read
  match ← attempt (onPage newPage (Page.copyItems env (m.mPages page) (f page))) with
  | .ok _ => pure ()
  | .error .notFound => pure ()
  | .error e => throw e
  onPage page Page.erase

def moveToFree (page : Fin n) (m : PageManager n) : PageManager n :=
  { m with mPageList := m.mPageList.erase page, mFreePageList := m.mFreePageList ++ [page] }

def finishFreeing (page : Fin n) : ManagerM n Unit := do
  let newPage ← back
  let state ← pageState newPage
  if state = .active then do
    onPage newPage Page.erase
    modify (moveToFree newPage)
  activatePage
  freePage env page
  modify (moveToFree page)

def load : ManagerM n Unit := do
  modify fun _ => ⟨fun _ => Page.fresh env, [], [], 0⟩
  loadPages env (List.finRange n)
  let m ← get
  match m.mPageList.getLast? with
  | none => activatePage
  | some last => do
      modify fun m => { m with mSeqNumber := (m.mPages last).mSeqNumber + 1 }
      match ← lastItemLoop env last (ENTRY_COUNT + 1) 0 none with
      | none => pure ()
      | some item => eraseDuplicate env item m.mPageList.dropLast
      let m ← get
      match m.mPageList.find? fun page => (m.mPages page).mState = .freeing with
      | none => pure ()
      | some page => finishFreeing env page
      let m ← get
      if m.mFreePageList = [] then throw .noFreePages

/-- The first page with the highest number of entries that are not in use, unless all are. -/
def maxUnusedPage (m : PageManager n) : Option (Fin n) × Nat :=
  m.mPageList.foldl (fun best page =>
    let unused := (ENTRY_COUNT + 2 ^ 32 - (m.mPages page).mUsedEntryCount) % 2 ^ 32
    if best.2 < unused then (some page, unused) else best) (none, 0)

def requestNewPage : ManagerM n Unit := do
  let m ← get
  if m.mFreePageList = [] then throw .invalidState
  if 2 ≤ m.mFreePageList.length then activatePage
  else
    match (maxUnusedPage m).1 with
    | none => throw .notEnoughSpace
    | some erasedPage => do
        activatePage
        let m ← get
        let usedEntries := (m.mPages erasedPage).mUsedEntryCount
        onPage erasedPage Page.markFreeing
        freePage env erasedPage
        let newPage ← back
        let m ← get
        assert (usedEntries = (m.mPages newPage).mUsedEntryCount)
        modify (moveToFree erasedPage)

end

end PageManager

end EspFirmware.Nvs
