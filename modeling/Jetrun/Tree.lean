import Mathlib.Data.List.Lex
import Mathlib.Order.Basic
import Jetrun.Digest
import Jetrun.Lib.SortedMap
import Jetrun.Lib.Utf8

/-!
# Directory manifests

A tree is a map from names to nodes, kept in the byte order of its names. Its digest is a keyed hash
of its canonical encoding; decoding checks every name and refuses a name that stands twice.

A reader is the bytes that are left to read.
-/

namespace Jetrun

inductive TreeError
  | emptyName
  | nameTooLong (len : ℕ)
  | dotName (name : String)
  | nameHasSeparator (name : String)
  | nameHasNul (name : String)
  | nameNotUtf8
  | duplicateName (name : String)
  | emptySymlinkTarget
  | unsupportedVersion (version : ℕ)
  | unknownTag (tag : ℕ)
  | truncated
  | trailingBytes (count : ℕ)
deriving DecidableEq

def treeFormatVersion : ℕ := 1

def tagFile : ℕ := 1

def tagDir : ℕ := 2

def tagSymlink : ℕ := 3

def flagExecutable : ℕ := 1

/-- Maximum length of a single path component in bytes. -/
def nameMax : ℕ := 255

/-- A validated single path component. -/
structure EntryName where
  text : String
  nonempty : text ≠ ""
  short : text.utf8ByteSize ≤ nameMax
  not_dot : text ≠ "." ∧ text ≠ ".."
  no_separator : '/' ∉ text.toList
  no_nul : '\x00' ∉ text.toList
deriving DecidableEq

namespace EntryName

def new (name : String) : Except TreeError EntryName :=
  if h1 : name = "" then .error .emptyName
  else if h2 : nameMax < name.utf8ByteSize then .error (.nameTooLong name.utf8ByteSize)
  else if h3 : name = "." ∨ name = ".." then .error (.dotName name)
  else if h4 : '/' ∈ name.toList then .error (.nameHasSeparator name)
  else if h5 : '\x00' ∈ name.toList then .error (.nameHasNul name)
  else .ok ⟨name, h1, not_lt.1 h2, not_or.1 h3, h4, h5⟩

theorem ext_text : ∀ {n n' : EntryName}, n.text = n'.text → n = n'
  | ⟨_, _, _, _, _, _⟩, ⟨_, _, _, _, _, _⟩, rfl => rfl

/-- Names compare by their bytes. -/
def key (n : EntryName) : List ℕ := (Utf8.encode n.text).map UInt8.toNat

theorem key_injective : Function.Injective key := fun _ _ h =>
  ext_text (Utf8.encode_inj (List.map_injective_iff.2 (fun _ _ => UInt8.toNat_inj.1) h))

instance : LinearOrder EntryName := LinearOrder.lift' key key_injective

end EntryName

/-- What an entry points at. -/
inductive Node
  | file (digest : Digest) (size : UInt64) (executable : Bool)
  | dir (digest : Digest)
  | symlink (target : String)
deriving DecidableEq

namespace Node

def tag : Node → ℕ
  | file .. => tagFile
  | dir _ => tagDir
  | symlink _ => tagSymlink

/-- What follows the name in an entry of a manifest. -/
def payload : Node → List UInt8
  | file digest size executable =>
    digest.bytes ++ LittleEndian.toLe 8 size.toNat
      ++ [UInt8.ofNat (if executable then flagExecutable else 0)]
  | dir digest => digest.bytes
  | symlink target =>
    LittleEndian.toLe 2 (Utf8.encode target).length ++ Utf8.encode target

end Node

/-- The bytes not read yet. -/
abbrev Reader := List UInt8

namespace Reader

def take (r : Reader) (n : ℕ) : Except TreeError (List UInt8 × Reader) :=
  if n ≤ r.length then .ok (List.take n r, List.drop n r) else .error .truncated

/-- A little-endian number of `width` bytes. -/
def number (r : Reader) (width : ℕ) : Except TreeError (ℕ × Reader) := do
  let (bytes, r) ← r.take width
  pure (LittleEndian.ofLe bytes, r)

def u8 (r : Reader) : Except TreeError (ℕ × Reader) := r.number 1

def u16 (r : Reader) : Except TreeError (ℕ × Reader) := r.number 2

def u32 (r : Reader) : Except TreeError (ℕ × Reader) := r.number 4

def u64 (r : Reader) : Except TreeError (ℕ × Reader) := r.number 8

def text (r : Reader) (n : ℕ) : Except TreeError (String × Reader) := do
  let (bytes, r) ← r.take n
  match Utf8.decode bytes with
  | some s => pure (s, r)
  | none => throw .nameNotUtf8

def digest (r : Reader) : Except TreeError (Digest × Reader) := do
  let (bytes, r) ← r.take digestLen
  match Digest.fromBytes bytes with
  | some d => pure (d, r)
  | none => throw .truncated

end Reader

/-- A directory manifest. -/
structure Tree where
  entries : SortedMap EntryName Node

namespace Tree

def new : Tree := ⟨.empty⟩

def insert (t : Tree) (name : EntryName) (node : Node) : Tree := ⟨t.entries.insert name node⟩

/-- Entries in the byte order of their names. -/
def iter (t : Tree) : List (EntryName × Node) := t.entries.entries

/-- Digests of every blob directly referenced by this tree. -/
def blobDigests (t : Tree) : List Digest :=
  t.entries.values.filterMap fun
    | .file digest _ _ => some digest
    | _ => none

/-- Digests of every subtree directly referenced by this tree. -/
def subtreeDigests (t : Tree) : List Digest :=
  t.entries.values.filterMap fun
    | .dir digest => some digest
    | _ => none

def encodeEntry (e : EntryName × Node) : List UInt8 :=
  UInt8.ofNat e.2.tag :: (LittleEndian.toLe 2 (Utf8.encode e.1.text).length
    ++ Utf8.encode e.1.text ++ e.2.payload)

/-- The canonical binary form. -/
def encode (t : Tree) : List UInt8 :=
  LittleEndian.toLe 2 treeFormatVersion ++ LittleEndian.toLe 4 t.iter.length
    ++ t.iter.flatMap encodeEntry

def decodeNode (tag : ℕ) (r : Reader) : Except TreeError (Node × Reader) := do
  if tag = tagFile then
    let (digest, r) ← r.digest
    let (size, r) ← r.u64
    let (flags, r) ← r.u8
    pure (.file digest (UInt64.ofNat size) (flags &&& flagExecutable ≠ 0), r)
  else if tag = tagDir then
    let (digest, r) ← r.digest
    pure (.dir digest, r)
  else if tag = tagSymlink then
    let (n, r) ← r.u16
    let (target, r) ← r.text n
    if target = "" then throw .emptySymlinkTarget
    pure (.symlink target, r)
  else throw (.unknownTag tag)

def decodeEntry (r : Reader) : Except TreeError ((EntryName × Node) × Reader) := do
  let (tag, r) ← r.u8
  let (nameLen, r) ← r.u16
  let (name, r) ← r.text nameLen
  let name ← EntryName.new name
  let (node, r) ← decodeNode tag r
  pure ((name, node), r)

/-- Read `count` entries into the map. -/
def decodeEntries : ℕ → Reader → SortedMap EntryName Node →
    Except TreeError (SortedMap EntryName Node × Reader)
  | 0, r, entries => .ok (entries, r)
  | count + 1, r, entries => do
    let ((name, node), r) ← decodeEntry r
    if name ∈ entries.keys then throw (.duplicateName name.text)
    decodeEntries count r (entries.insert name node)

/-- Decode from the canonical binary form, validating every name. -/
def decode (bytes : List UInt8) : Except TreeError Tree := do
  let r : Reader := bytes
  let (version, r) ← r.u16
  if version ≠ treeFormatVersion then throw (.unsupportedVersion version)
  let (count, r) ← r.u32
  if r.length < count then throw .truncated
  let (entries, r) ← decodeEntries count r .empty
  if r ≠ [] then throw (.trailingBytes r.length)
  pure ⟨entries⟩

/-- A keyed hash over the canonical encoding. -/
def digest (b3 : Blake3) (t : Tree) : Digest :=
  ((Hasher.keyed b3 Context.tree).update t.encode).finalize b3

end Tree

end Jetrun
