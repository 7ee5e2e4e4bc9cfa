import Jetrun.Lib.Hex
import Jetrun.Lib.LittleEndian

/-!
# Content digests

A digest is thirty-two bytes of BLAKE3, written as sixty-four lower-case hex digits. BLAKE3 is a
parameter: three functions, of which the streaming hasher depends only on the bytes fed so far.
-/

namespace Jetrun

def digestLen : ℕ := 32

def digestPrefix : String := "b3:"

/-- A BLAKE3 content digest. -/
structure Digest where
  bytes : List UInt8
  length_bytes : bytes.length = digestLen
deriving DecidableEq

inductive DigestParseError
  | badLength (expected found : ℕ)
  | notHex
deriving DecidableEq

/-- The three functions of BLAKE3 that are used. -/
structure Blake3 where
  hash : List UInt8 → Digest
  deriveKey : String → List UInt8 → Digest
  keyedHash : Digest → List UInt8 → Digest

namespace Context

/-- A file's content. -/
def blob : String := "jetrun.blob.v1"

/-- A directory manifest. -/
def tree : String := "jetrun.tree.v1"

end Context

namespace Digest

theorem ext_bytes : ∀ {d d' : Digest}, d.bytes = d'.bytes → d = d'
  | ⟨_, _⟩, ⟨_, _⟩, rfl => rfl

def keyed (b3 : Blake3) (context : String) (bytes : List UInt8) : Digest :=
  b3.keyedHash (b3.deriveKey context []) bytes

/-- The digest some bytes are, if there are thirty-two of them. -/
def fromBytes (bytes : List UInt8) : Option Digest :=
  if h : bytes.length = digestLen then some ⟨bytes, h⟩ else none

def toHex (d : Digest) : String := String.ofList (Hex.encode d.bytes)

/-- Hex with the prefix, for logs and user-facing output. -/
def toPrefixed (d : Digest) : String := digestPrefix ++ d.toHex

/-- The first byte as two hex chars. -/
def fanoutChars (d : Digest) : List UInt8 :=
  let hex : List UInt8 := "0123456789abcdef".toList.map fun c => UInt8.ofNat c.toNat
  let first := d.bytes.getD 0 0
  [hex.getD (first >>> 4).toNat 0, hex.getD (first &&& 0x0f).toNat 0]

/-- The fan-out directory of the object store: these two chars, as text. -/
def fanout (d : Digest) : String := String.ofList (d.fanoutChars.map fun b => Char.ofNat b.toNat)

/-- The first eight bytes as a number. -/
def head (d : Digest) : BitVec 64 := BitVec.ofNat 64 (LittleEndian.ofLe (d.bytes.take 8))

/-- Which shard owns the digest, where `usize` has `w` bits. No shards at all are a panic. -/
def shard {w : ℕ} (d : Digest) (nShards : BitVec w) : Option (BitVec w) :=
  if nShards = 0 then none
  else if nShards.toNat.isPowerOfTwo then some (d.head.setWidth w &&& (nShards - 1))
  else some ((d.head % nShards.setWidth 64).setWidth w)

/-- Parse from hex, with or without the prefix. -/
def parse (s : String) : Except DigestParseError Digest :=
  let hexpart := if digestPrefix.toList <+: s.toList then s.toList.drop 3 else s.toList
  let found := (String.ofList hexpart).utf8ByteSize
  if found ≠ digestLen * 2 then .error (.badLength (digestLen * 2) found)
  else match (Hex.decode hexpart).bind fromBytes with
    | some d => .ok d
    | none => .error .notHex

end Digest

/-- A keyed streaming hasher: its key and all it was fed. -/
structure Hasher where
  key : Digest
  fed : List UInt8

namespace Hasher

def keyed (b3 : Blake3) (context : String) : Hasher := ⟨b3.deriveKey context [], []⟩

def update (h : Hasher) (bytes : List UInt8) : Hasher := { h with fed := h.fed ++ bytes }

/-- Feed a length-prefixed field. -/
def updateFramed (h : Hasher) (bytes : List UInt8) : Hasher :=
  (h.update (LittleEndian.toLe 8 bytes.length)).update bytes

def finalize (b3 : Blake3) (h : Hasher) : Digest := b3.keyedHash h.key h.fed

end Hasher

end Jetrun
