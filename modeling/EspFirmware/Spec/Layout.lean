import EspFirmware.Nvs.Page

/-!
What the words of a page mean: a log of items, some of them erased, some of them cut short by a power
failure, and a free end.
-/

namespace EspFirmware.Spec
open EspFirmware.Nvs

def tableOf (s : Sector) : CompressedEnumTable := fun k => s (.table k)

def stateOf (s : Sector) (i : Nat) : EntryState := entryState (tableOf s) i

def entriesAt (s : Sector) (i count : Nat) : List Item :=
  (List.range count).map fun k => Page.entryAt s (i + k)

def Free (s : Sector) (i : Nat) : Prop :=
  ∀ j, i ≤ j → stateOf s j = .empty ∧ ∀ k, s (.entry j k) = blank

structure Record where
  head : Item
  body : List Item

def Record.size (r : Record) : Nat := r.body.length + 1

inductive Seg where
  | gone
  | item (r : Record)
  | torn (head : Item) (len : Nat)

def Seg.size : Seg → Nat
  | .gone => 1
  | .item r => r.size
  | .torn _ len => len + 1

def Seg.whole : Seg → Bool
  | .torn _ _ => false
  | _ => true

def Seg.isItem : Seg → Bool
  | .item _ => true
  | _ => false

def items (segs : List Seg) : List Seg := segs.filter Seg.isItem

def size (segs : List Seg) : Nat := (segs.map Seg.size).sum

structure Sound (env : Env) (head : Item) (len : Nat) : Prop where
  crc : env.calculateCrc32 head = head.crc32
  span : head.span = len + 1
  short : head.datatype.isVariable = false → len = 0
  key : keyField (some head.key) = head.key
  namespace_ : head.nsIndex ≠ NS_ANY

structure ItemAt (env : Env) (s : Sector) (i : Nat) (r : Record) : Prop where
  sound : Sound env r.head r.body.length
  head : Page.entryAt s i = r.head
  body : entriesAt s (i + 1) r.body.length = r.body
  written : ∀ k, k ≤ r.body.length → stateOf s (i + k) = .written

structure TornAt (env : Env) (s : Sector) (i : Nat) (head : Item) (len : Nat) : Prop where
  sound : Sound env head len
  head : Page.entryAt s i = head
  written : stateOf s i = .written
  missing : ∃ k, k ≤ len ∧ stateOf s (i + k) ≠ .written

def SegAt (env : Env) (s : Sector) (i : Nat) : Seg → Prop
  | .gone => stateOf s i = .erased
  | .item r => ItemAt env s i r
  | .torn head len => TornAt env s i head len ∧
      ∀ k, k ≤ len → stateOf s (i + k) = .written ∨ stateOf s (i + k) = .erased

def Holds (env : Env) (s : Sector) : Nat → List Seg → Prop
  | _, [] => True
  | i, seg :: rest => SegAt env s i seg ∧ Holds env s (i + seg.size) rest

def located : Nat → List Seg → List (Nat × Record)
  | _, [] => []
  | i, .gone :: rest => located (i + 1) rest
  | i, .item r :: rest => (i, r) :: located (i + r.size) rest
  | i, .torn _ len :: rest => located (i + (len + 1)) rest

def records (segs : List Seg) : List Record := (located 0 segs).map Prod.snd

inductive Tail where
  | free
  | half
  | cut (head : Item) (len : Nat)

def TailAt (env : Env) (s : Sector) (i : Nat) : Tail → Prop
  | .free => Free s i
  | .half => i < ENTRY_COUNT ∧ stateOf s i = .empty ∧ s (.entry i 0) ≠ blank ∧ Free s (i + 1)
  | .cut head len => i + len < ENTRY_COUNT ∧ TornAt env s i head len ∧ Free s (i + (len + 1))

structure Laid (env : Env) (s : Sector) (segs : List Seg) (tail : Tail) : Prop where
  holds : Holds env s 0 segs
  fits : size segs ≤ ENTRY_COUNT
  tail : TailAt env s (size segs) tail

section
variable (env : Env) (nsIndex : Byte) (datatype : ItemType) (key data : List Byte)

def filled (data : List Byte) : Nat := data.length / ENTRY_SIZE * ENTRY_SIZE

def bodyFor : List Item :=
  if datatype.isVariable then
    Page.dataEntries (data.take (filled data)) ++
      if filled data < data.length then
        [Page.tailEntry (Page.itemFor env nsIndex datatype key data) (data.drop (filled data))]
      else []
  else []

def recordFor : Record := ⟨Page.itemFor env nsIndex datatype key data, bodyFor env nsIndex datatype key data⟩

end

def Typed (datatype : ItemType) (data : List Byte) : Prop :=
  datatype.isVariable = true ∨
    (datatype ∈ [ItemType.U8, .I8, .U16, .I16, .U32, .I32, .U64, .I64] ∧ data.length = (datatype &&& 0x0F).toNat)

theorem Typed.small {datatype : ItemType} {data : List Byte} (typed : Typed datatype data)
    (fixed : datatype.isVariable = false) : data.length ≤ 8 := by
  rcases typed with variable_ | ⟨member, length⟩
  · rw [fixed] at variable_
    exact absurd variable_ (by decide)
  · have sizes : ∀ t ∈ [ItemType.U8, .I8, .U16, .I16, .U32, .I32, .U64, .I64], (t &&& 0x0F).toNat ≤ 8 := by decide
    rw [length]
    exact sizes datatype member

end EspFirmware.Spec
