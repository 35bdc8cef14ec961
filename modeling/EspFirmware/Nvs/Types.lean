import EspFirmware.Lib.CString
import Mathlib.Algebra.GroupWithZero.Nat
import Mathlib.Logic.Function.Basic

/-!
Flash memory as the NVS library sees it, and the 32-byte items it is filled with (`nvs_types.hpp`,
`compressed_enum_table.hpp`). A sector is addressed by what its words are for: the header, the entry
state table and the entries. The CRC and the 24-bit item hash are parameters.
-/

namespace EspFirmware.Nvs
open EspFirmware.Lib (cString)

abbrev Byte := BitVec 8
abbrev Word := BitVec 32

def blank : Word := 0xFFFFFFFF

def byteOf (w : Word) (k : Nat) : Byte := (w >>> (8 * k)).setWidth 8

def wordOf (b0 b1 b2 b3 : Byte) : Word := b3 ++ b2 ++ b1 ++ b0

def wordBytes (w : Word) : List Byte := [byteOf w 0, byteOf w 1, byteOf w 2, byteOf w 3]

abbrev ENTRY_COUNT : Nat := 126

inductive Loc where
  | header (k : Nat)
  | table (k : Nat)
  | entry (i k : Nat)
  deriving DecidableEq, Repr

abbrev Sector := Loc → Word

def erasedSector : Sector := fun _ => blank

abbrev CompressedEnumTable := Nat → Word

namespace CompressedEnumTable

def getWordIndex (nbits index : Nat) : Nat := index / (32 / nbits)

def wordCount (nbits nitems : Nat) : Nat := (nbits * nitems + 31) / 32

def valueMask (nbits : Nat) : Word := ((1 : Word) <<< nbits) - 1

def get (nbits : Nat) (mData : CompressedEnumTable) (index : Nat) : Word :=
  (mData (getWordIndex nbits index) >>> (index % (32 / nbits) * nbits)) &&& valueMask nbits

def set (nbits : Nat) (mData : CompressedEnumTable) (index : Nat) (val : Word) : CompressedEnumTable :=
  let offset := index % (32 / nbits) * nbits
  Function.update mData (getWordIndex nbits index)
    ((mData (getWordIndex nbits index) &&& ~~~ (valueMask nbits <<< offset)) ||| (val <<< offset))

end CompressedEnumTable

/-- The two bits of an entry; `stray` is the value that has no name in the source. -/
inductive EntryState where
  | empty
  | written
  | erased
  | stray
  deriving DecidableEq, Repr

def EntryState.toBits : EntryState → Word
  | .empty => 3
  | .written => 2
  | .erased => 0
  | .stray => 1

def EntryState.ofBits (w : Word) : EntryState :=
  if w = 3 then .empty else if w = 2 then .written else if w = 0 then .erased else .stray

def entryState (table : CompressedEnumTable) (i : Nat) : EntryState :=
  .ofBits (CompressedEnumTable.get 2 table i)

def setEntryState (table : CompressedEnumTable) (i : Nat) (s : EntryState) : CompressedEnumTable :=
  CompressedEnumTable.set 2 table i s.toBits

abbrev ItemType := Byte

namespace ItemType

def U8 : ItemType := 0x01
def I8 : ItemType := 0x11
def U16 : ItemType := 0x02
def I16 : ItemType := 0x12
def U32 : ItemType := 0x04
def I32 : ItemType := 0x14
def U64 : ItemType := 0x08
def I64 : ItemType := 0x18
def SZ : ItemType := 0x21
def BLOB : ItemType := 0x41
def ANY : ItemType := 0xFF

def isVariable (t : ItemType) : Bool := t == SZ || t == BLOB

end ItemType

abbrev Item := Fin 8 → Word

def MAX_KEY_LENGTH : Nat := 15

def entryOfBytes (bytes : List Byte) : Item := fun k =>
  wordOf (bytes.getD (4 * k.val) 0) (bytes.getD (4 * k.val + 1) 0) (bytes.getD (4 * k.val + 2) 0)
    (bytes.getD (4 * k.val + 3) 0)

def keyField : Option (List Byte) → List Byte
  | some key =>
      let copied := (cString key).take MAX_KEY_LENGTH
      copied ++ List.replicate (16 - copied.length) 0
  | none => 0 :: List.replicate 15 0xFF

namespace Item

def rawData (item : Item) : List Byte := (List.finRange 8).flatMap fun k => wordBytes (item k)

def nsIndex (item : Item) : Byte := byteOf (item 0) 0
def datatype (item : Item) : ItemType := byteOf (item 0) 1
def span (item : Item) : Nat := (byteOf (item 0) 2).toNat
def crc32 (item : Item) : Word := item 1
def key (item : Item) : List Byte :=
  wordBytes (item 2) ++ wordBytes (item 3) ++ wordBytes (item 4) ++ wordBytes (item 5)
def data (item : Item) : List Byte := wordBytes (item 6) ++ wordBytes (item 7)
def dataSize (item : Item) : Nat := ((item 6).setWidth 16).toNat
def dataCrc32 (item : Item) : Word := item 7

def make (nsIndex : Byte) (datatype : ItemType) (span : Byte) (key : Option (List Byte)) : Item :=
  entryOfBytes ([nsIndex, datatype, span, 0xFF] ++ [0, 0, 0, 0] ++ keyField key ++ List.replicate 8 0xFF)

def setData (item : Item) (data : List Byte) : Item :=
  entryOfBytes (item.rawData.take 24 ++ data ++ item.rawData.drop (24 + data.length))

def setVarLength (item : Item) (dataSize : Nat) (dataCrc32 : Word) : Item :=
  Function.update (Function.update item 6 ((0xFFFF : BitVec 16) ++ BitVec.ofNat 16 dataSize)) 7 dataCrc32

end Item

def crc32Table (b : Byte) : Word :=
  (List.range 8).foldl (fun c _ => if c.getLsbD 0 then (c >>> 1) ^^^ 0xEDB88320 else c >>> 1) (b.setWidth 32)

def crc32Le (crc : Word) (buf : List Byte) : Word :=
  ~~~ (buf.foldl (fun c b => crc32Table ((c ^^^ b.setWidth 32).setWidth 8) ^^^ (c >>> 8)) (~~~ crc))

/-- What NVS computes over bytes: `crc32` stands for `crc32_le(0xffffffff, ..)`, and a header that was
never written does not carry its own CRC. `memory` is what the entry table of a new page holds: its
constructor leaves it as it is. -/
structure Env where
  crc32 : List Byte → Word
  hash24 : Byte → List Byte → BitVec 24
  memory : CompressedEnumTable
  blankHeader : crc32 (List.replicate 24 0xFF) ≠ blank

namespace Env
variable (env : Env)

def calculateCrc32 (item : Item) : Word :=
  env.crc32 (wordBytes (item 0) ++ item.key ++ item.data)

def itemHash (item : Item) : BitVec 24 := env.hash24 item.nsIndex item.key

def sealItem (item : Item) : Item := Function.update item 1 (env.calculateCrc32 item)

def firmware : Env where
  crc32 := crc32Le 0xFFFFFFFF
  hash24 nsIndex key := (crc32Le 0xFFFFFFFF (nsIndex :: key)).setWidth 24
  memory _ := 0
  blankHeader := by decide +kernel

end Env

end EspFirmware.Nvs

/-!
`nvs_item_hash_list.cpp`: the blocks of nodes a page keeps to find its items by their hash.
-/

namespace EspFirmware.Nvs

structure HashListNode where
  mIndex : BitVec 8
  mHash : BitVec 24
  deriving DecidableEq, Repr

abbrev HashList := List (List HashListNode)

namespace HashList

def BLOCK_ENTRY_COUNT : Nat := 29

def NO_INDEX : BitVec 8 := 0xFF

def appendNode (node : HashListNode) : HashList → HashList
  | [] => [[node]]
  | [block] => if block.length < BLOCK_ENTRY_COUNT then [block ++ [node]] else [block, [node]]
  | block :: rest => block :: appendNode node rest

def insert (list : HashList) (hash : BitVec 24) (index : Nat) : HashList :=
  appendNode ⟨BitVec.ofNat 8 index, hash⟩ list

def eraseInBlock (index : Nat) : List HashListNode → Option (List HashListNode)
  | [] => none
  | node :: rest =>
      if node.mIndex.toNat = index then some ({ node with mIndex := NO_INDEX } :: rest)
      else (eraseInBlock index rest).map (node :: ·)

/-- The blocks passed over on the way are dropped when they have no node left. The flag says whether
the item was there. -/
def erase (index : Nat) : HashList → HashList × Bool
  | [] => ([], false)
  | block :: rest =>
      match eraseInBlock index block with
      | some block => (block :: rest, true)
      | none =>
          let (rest, found) := erase index rest
          (if block.any fun node => node.mIndex ≠ NO_INDEX then block :: rest else rest, found)

def find (list : HashList) (start : Nat) (hash : BitVec 24) : Option Nat :=
  (list.flatten.find? fun node =>
    decide (start ≤ node.mIndex.toNat) && node.mHash == hash && node.mIndex != NO_INDEX).map
      fun node => node.mIndex.toNat

end HashList

end EspFirmware.Nvs
