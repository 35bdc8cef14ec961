import Mathlib.Algebra.Group.Nat.Defs

/-!
The codec of `base64.c`. A table that is read outside has no entry, and what was written is kept beside what is returned.
-/

namespace EspFirmware.Util

abbrev Buffer := { bytes : List (BitVec 8) // bytes.length < 2 ^ 32 }

inductive Errno where
  | EINVAL
  | ENOBUFS
  deriving DecidableEq, Repr

def Errno.value : Errno → BitVec 32
  | .EINVAL => 22
  | .ENOBUFS => 105

inductive CodecResult where
  | assertFails
  | outside
  | returns (value : BitVec 32) (written : List (BitVec 8))
  deriving DecidableEq, Repr

def s_base64_enc_lut : Vector (BitVec 32) 16 :=
  #v[0x44434241, 0x48474645, 0x4c4b4a49, 0x504f4e4d,
    0x54535251, 0x58575655, 0x62615a59, 0x66656463,
    0x6a696867, 0x6e6d6c6b, 0x7271706f, 0x76757473,
    0x7a797877, 0x33323130, 0x37363534, 0x2f2b3938]

def s_base64_dec_lut : Vector (BitVec 32) 32 :=
  #v[0x7f7f7f7f, 0x7f7f7f7f, 0x7f7f7f7f, 0x7f7f7f7f,
    0x7f7f7f7f, 0x7f7f7f7f, 0x7f7f7f7f, 0x7f7f7f7f,
    0x7f7f7f7f, 0x7f7f7f7f, 0x3e7f7f7f, 0x3f7f7f7f,
    0x37363534, 0x3b3a3938, 0x7f7f3d3c, 0x7f7f407f,
    0x0201007f, 0x06050403, 0x0a090807, 0x0e0d0c0b,
    0x1211100f, 0x16151413, 0x7f191817, 0x7f7f7f7f,
    0x1c1b1a7f, 0x201f1e1d, 0x24232221, 0x28272625,
    0x2c2b2a29, 0x302f2e2d, 0x7f333231, 0x7f7f7f7f]

def u8d (word : BitVec 32) (off : Nat) : BitVec 8 := (word >>> (8 * off)).setWidth 8

def mapBase64EncData (index : BitVec 8) : Option (BitVec 8) :=
  (s_base64_enc_lut[index.toNat / 4]?).map fun word => u8d word (index.toNat % 4)

def mapBase64DecData (index : BitVec 8) : Option (BitVec 8) :=
  (s_base64_dec_lut[index.toNat / 4]?).map fun word => u8d word (index.toNat % 4)

def encIndex (x : BitVec 32) : BitVec 8 := (x &&& 0x3F).setWidth 8

section
variable (c1 c2 c3 : BitVec 8)

def firstIndex : BitVec 8 := encIndex (c1.setWidth 32 >>> 2)

def secondIndex : BitVec 8 := encIndex (((c1.setWidth 32 &&& 3) <<< 4) + (c2.setWidth 32 >>> 4))

def thirdIndex : BitVec 8 := encIndex (((c2.setWidth 32 &&& 15) <<< 2) + (c3.setWidth 32 >>> 6))

def fourthIndex : BitVec 8 := encIndex (c3.setWidth 32)

end

def encodeGroups : List (BitVec 8) → Option (List (BitVec 8))
  | c1 :: c2 :: c3 :: src => do
      let chars ← [firstIndex c1, secondIndex c1 c2, thirdIndex c2 c3, fourthIndex c3].mapM mapBase64EncData
      return chars ++ (← encodeGroups src)
  | [c1, c2] => do
      let chars ← [firstIndex c1, secondIndex c1 c2, encIndex ((c2.setWidth 32 &&& 15) <<< 2)].mapM mapBase64EncData
      return chars ++ [0x3D]
  | [c1] => do
      let chars ← [firstIndex c1, secondIndex c1 0].mapM mapBase64EncData
      return chars ++ [0x3D, 0x3D]
  | [] => some []

def espBase64Encode (asserts : Bool) (src : Buffer) (dlen : BitVec 32) : CodecResult :=
  let slen := BitVec.ofNat 32 src.val.length
  if asserts = true ∧ (dlen = 0 ∨ slen = 0) then .assertFails
  else
    let n := slen / 3 + (if slen % 3 ≠ 0 then 1 else 0)
    let n := n * 4
    if dlen < n + 1 then .returns (-Errno.ENOBUFS.value) []
    else match encodeGroups src.val with
      | none => .outside
      | some chars => .returns (BitVec.ofNat 32 chars.length) (chars ++ [0])

/-- The first pass: `x` spaces were skipped, `j` signs of padding and `n` characters seen. -/
def checkPass : List (BitVec 8) → BitVec 32 → BitVec 32 → BitVec 32 → Option (Except Errno (BitVec 32 × BitVec 32))
  | [], _, j, n => some (.ok (j, n))
  | c :: src, x, j, n =>
      if c = 0x20 then checkPass src (x + 1) j n
      else if c = 0x0D ∧ src.head? = some 0x0A then checkPass src 0 j n
      else if c = 0x0A then checkPass src 0 j n
      else if x ≠ 0 then some (.error .EINVAL)
      else
        let j := if c = 0x3D then j + 1 else j
        if c = 0x3D ∧ 2 < j then some (.error .EINVAL)
        else if 127 < c then some (.error .EINVAL)
        else (mapBase64DecData c).bind fun d =>
          if d = 127 then some (.error .EINVAL)
          else if d < 64 ∧ j ≠ 0 then some (.error .EINVAL)
          else checkPass src 0 j (n + 1)

def outputLength (n : BitVec 32) : BitVec 32 := 6 * (n >>> 3) + ((6 * (n &&& 0x7) + 7) >>> 3)

def emit (j x : BitVec 32) : List (BitVec 8) :=
  (if 0 < j then [(x >>> 16).setWidth 8] else []) ++ (if 1 < j then [(x >>> 8).setWidth 8] else []) ++
    (if 2 < j then [x.setWidth 8] else [])

def writePass : List (BitVec 8) → BitVec 32 → Nat → BitVec 32 → Option (List (BitVec 8))
  | [], _, _, _ => some []
  | c :: src, j, n, x =>
      if c = 0x0D ∨ c = 0x0A ∨ c = 0x20 then writePass src j n x
      else (mapBase64DecData c).bind fun d =>
        let j := j - (if d = 64 then 1 else 0)
        let x := x <<< 6 ||| (d &&& 0x3F).setWidth 32
        if n + 1 = 4 then (writePass src j 0 x).map (emit j x ++ ·)
        else writePass src j (n + 1) x

def espBase64Decode (asserts : Bool) (src : Buffer) (dlen : BitVec 32) : CodecResult :=
  if asserts = true ∧ (dlen = 0 ∨ BitVec.ofNat 32 src.val.length = 0) then .assertFails
  else match checkPass src.val 0 0 0 with
    | none => .outside
    | some (.error e) => .returns (-e.value) []
    | some (.ok (j, n)) =>
        if n = 0 then .returns (-Errno.EINVAL.value) []
        else if dlen < outputLength n - j then .returns (-Errno.ENOBUFS.value) []
        else match writePass src.val 3 0 0 with
          | none => .outside
          | some written => .returns (BitVec.ofNat 32 written.length) written

end EspFirmware.Util
