import EspFirmware.Lib.Run
import EspFirmware.Nvs.PageManager
import EspFirmware.Spec.Layout

/-!
The counters of pages and their entry tables, over runs of calls that the power can interrupt.
-/

namespace EspFirmware.Spec
open EspFirmware.Lib EspFirmware.Nvs

variable {n : Nat}

/-- The entry table, which is read or set when the page comes into use: before that it counts as empty. -/
def tableInUse (pg : Page) : CompressedEnumTable :=
  if pg.mState = .active ∨ pg.mState = .full ∨ pg.mState = .freeing then pg.mEntryTable else fun _ => blank

def entriesIn (state : EntryState) (pg : Page) : List Nat :=
  (List.range ENTRY_COUNT).filter fun i => entryState (tableInUse pg) i = state

/-- The items that `findItem` finds one after the other, each from the end of the one before: where they start
and how many entries they span. -/
def foundItems (env : Env) : Nat → Nat → Page → Sector → List (Nat × Nat)
  | 0, _, _, _ => []
  | fuel + 1, itemIndex, pg, s =>
      let ran := Page.findItem env NS_ANY ItemType.ANY none itemIndex Page.blankItem pg s
      match ran.outcome with
      | .ok ⟨.ok index, item⟩ =>
          (index, item.span) :: foundItems env fuel (index + item.span) ran.volatile ran.durable
      | _ => []

/-- The counters are those of the entry table, and the written entries are the spans of the items, one after
the other. -/
structure CountersAgree (env : Env) (pg : Page) (s : Sector) : Prop where
  used : pg.mUsedEntryCount = (entriesIn .written pg).length
  erased : pg.mErasedEntryCount = (entriesIn .erased pg).length
  first : pg.mFirstUsedEntry = (entriesIn .written pg).head?.getD INVALID_ENTRY
  spans : (foundItems env (ENTRY_COUNT + 1) 0 pg s).flatMap (fun x => List.range' x.1 x.2) = entriesIn .written pg

inductive PageCall (n : Nat) where
  | load (page : Fin n)
  | writeItem (page : Fin n) (nsIndex : Byte) (datatype : ItemType) (key data : List Byte)
  | eraseItem (page : Fin n) (nsIndex : Byte) (datatype : ItemType) (key : Option (List Byte))
  | copyItems (source other : Fin n)

structure PageRun (n : Nat) where
  pages : Fin n → Page
  flash : Fin n → Sector

def PageRun.restarted (env : Env) (flash : Fin n → Sector) : PageRun n := ⟨fun _ => Page.fresh env, flash⟩

namespace PageCall
variable (env : Env) (run : PageRun n)

def page : PageCall n → Fin n
  | .load page => page
  | .writeItem page _ _ _ _ => page
  | .eraseItem page _ _ _ => page
  | .copyItems _ other => other

def before : PageCall n → Page
  | .load _ => Page.fresh env
  | .writeItem page _ _ _ _ => run.pages page
  | .eraseItem page _ _ _ => run.pages page
  | .copyItems _ other => run.pages other

def prog : PageCall n → Page.PageM Unit
  | .load _ => Page.load env
  | .writeItem _ nsIndex datatype key data => Page.writeItem env nsIndex datatype key data
  | .eraseItem _ nsIndex datatype key => Page.eraseItem env nsIndex datatype key
  | .copyItems source _ => Page.copyItems env (run.pages source) (run.flash source)

def ran (call : PageCall n) : Ran Page Sector EspErr Unit :=
  call.prog env run (call.before env run) (run.flash call.page)

end PageCall

inductive PageEvent (n : Nat) where
  | call (call : PageCall n)
  | powerCut (call : PageCall n) (count : Nat)

def PageEvent.run (env : Env) (run : PageRun n) : PageEvent n → Option (PageRun n)
  | .call made =>
      let ran := made.ran env run
      let flash := Function.update run.flash made.page ran.durable
      some (if ran.outcome = .fault then .restarted env flash
        else ⟨Function.update run.pages made.page ran.volatile, flash⟩)
  | .powerCut made count =>
      ((run.flash made.page :: (made.ran env run).steps)[count]?).map fun s =>
        .restarted env (Function.update run.flash made.page s)

/-- An item has entries that are erased already, or its data was started: when it is given up, entries that have
been counted as erased are counted again. -/
def CountedTwice (s : Sector) (segs : List Seg) (tail : Tail) : Prop :=
  (∃ head len, .torn head len ∈ segs) ∨
    ∃ head len k, tail = .cut head len ∧ k ≤ len ∧ (stateOf s (size segs + k) = .erased ∨
      stateOf s (size segs + k) = .empty ∧ (∀ j, j < k → stateOf s (size segs + j) ≠ .empty) ∧
        s (.entry (size segs + k) 0) ≠ blank)

def CountedOnce (env : Env) (s : Sector) : Prop :=
  s (.header 0) = PageState.active.toWord → s (.header 7) = Page.headerCrc32 env s →
    ∃ segs tail, Laid env s segs tail ∧ ¬ CountedTwice s segs tail

def PageCall.LoadsOnce (env : Env) (run : PageRun n) : PageCall n → Prop
  | .load page => CountedOnce env (run.flash page)
  | _ => True

def PageCall.Promised (run : PageRun n) : PageCall n → Prop
  | .writeItem _ nsIndex datatype _ data => nsIndex ≠ NS_ANY ∧ Typed datatype data
  | .copyItems _ other => (run.pages other).mState = .uninitialized
  | _ => True

/-- The callers keep their promises, and no page is loaded on which an item would be counted twice; where the power
goes out while a page is loaded, its counters are gone anyway. -/
def PageEvent.Plain (env : Env) (run : PageRun n) : PageEvent n → Prop
  | .call made => made.Promised run ∧ made.LoadsOnce env run
  | .powerCut made _ => made.Promised run

end EspFirmware.Spec

/-!
Pages as they are in flash, word by word, and as a plain list of items: what a page is taken for when it is loaded, what
the calls that change flash may write, and what a search that looks at every item finds.
-/

namespace EspFirmware.Spec
open EspFirmware.Nvs EspFirmware.Lib

def InSector : Loc → Prop
  | .header k => k < 8
  | .table k => k < 8
  | .entry i k => i < ENTRY_COUNT ∧ k < 8

instance decidableInSector : (loc : Loc) → Decidable (InSector loc)
  | .header k => Nat.decLt k 8
  | .table k => Nat.decLt k 8
  | .entry i k => inferInstanceAs (Decidable (i < ENTRY_COUNT ∧ k < 8))

def inLine : Loc → Nat
  | .header k => k
  | .table k => k
  | .entry _ k => k

def IsEmpty (s : Sector) : Prop := ∀ loc, InSector loc → s loc = blank

def HiddenBytes (s : Sector) : Prop :=
  (∀ loc, InSector loc → inLine loc < 4 → s loc = blank) ∧ ∃ loc, InSector loc ∧ s loc ≠ blank

def loadedPage (env : Env) (s : Sector) : Page := (Page.load env (Page.fresh env) s).volatile

/-- A page is taken for empty when it is, and one that cannot be told from an empty one by its state word is erased before
it is used. -/
structure TakenRight (env : Env) (s : Sector) : Prop where
  empty : (loadedPage env s).mState = .uninitialized ↔ IsEmpty s
  corrupt : s (.header 0) = blank → ¬ IsEmpty s → (loadedPage env s).mState = .corrupt ∧
    ∀ (n : Nat) (m : PageManager n) (f : Flash n) (p : Fin n) (rest : List (Fin n)), m.mFreePageList = p :: rest →
      m.mPages p = loadedPage env s → f p = s → (PageManager.activatePage m f).durable p = erasedSector

def put (s : Sector) : List (Loc × Word) → Sector
  | [] => s
  | (loc, w) :: rest => put (Function.update s loc w) rest

def puts (s : Sector) : List (Loc × Word) → List Sector
  | [] => []
  | (loc, w) :: rest => Function.update s loc w :: puts (Function.update s loc w) rest

def entryRun (i : Nat) (items : List Item) : List (Loc × Word) :=
  items.zipIdx.flatMap fun e => Page.entryWords (i + e.2) e.1

def ClearsBits (s : Sector) (loc : Loc) (w : Word) : Prop := ~~~ (s loc) &&& w = 0

inductive SectorCall (s : Sector) : List Sector → Prop where
  | entries (i : Nat) (items : List Item) (fits : i + items.length ≤ ENTRY_COUNT)
      (unwritten : ∀ j k, i ≤ j → j < i + items.length → s (.entry j k) = blank) :
      SectorCall s (puts s (entryRun i items))
  | entryStates (k : Nat) (w : Word) (clears : ClearsBits s (.table k) w) :
      SectorCall s [Function.update s (.table k) w]
  | pageState (w : Word) (clears : ClearsBits s (.header 0) w) :
      SectorCall s [Function.update s (.header 0) w]
  | header (words : List Word) (unwritten : ∀ k, s (.header k) = blank) :
      SectorCall s (puts s (words.zipIdx.map fun e => (.header e.2, e.1)))
  | erase : SectorCall s [erasedSector]

def FlashCall {n : Nat} (f : Flash n) (steps : List (Flash n)) : Prop :=
  ∃ i sectors, SectorCall (f i) sectors ∧ steps = sectors.map fun s => Function.update f i s

/-- The first item that matches, or the error of the first that matches with another type. -/
def firstMatch (nsIndex : Byte) (datatype : ItemType) (key : Option (List Byte)) :
    List (Nat × Record) → Except EspErr (Nat × Record)
  | [] => .error .notFound
  | x :: rest =>
      match Page.matchItem nsIndex datatype key x.2.head with
      | none => firstMatch nsIndex datatype key rest
      | some (.error e) => .error e
      | some (.ok _) => .ok x

def scanFrom (nsIndex : Byte) (datatype : ItemType) (key : Option (List Byte)) (start : Nat) (segs : List Seg) :
    Except EspErr (Nat × Record) :=
  firstMatch nsIndex datatype key ((located 0 segs).filter fun x => start ≤ x.1)

def settle : Seg → List Seg
  | .torn _ len => List.replicate (len + 1) .gone
  | seg => [seg]

def settleTail : Tail → List Seg
  | .free => []
  | .half => [.gone]
  | .cut _ len => List.replicate (len + 1) .gone

def settled (segs : List Seg) : List Seg := segs.flatMap settle

def hasHash (env : Env) (hash : BitVec 24) (segs : List Seg) : Bool :=
  (records segs).any fun r => env.itemHash r.head == hash

def lastByHash (env : Env) : List Seg → List Seg
  | [] => []
  | .item r :: rest =>
      (if hasHash env (env.itemHash r.head) rest then List.replicate r.size .gone else [.item r]) ++ lastByHash env rest
  | seg :: rest => seg :: lastByHash env rest

def loaded (env : Env) (st : PageState) (segs : List Seg) (tail : Tail) : List Seg :=
  let all := settled segs ++ settleTail tail
  if st = .active then lastByHash env all else all

end EspFirmware.Spec
