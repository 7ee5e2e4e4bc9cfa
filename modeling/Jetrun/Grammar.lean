import Jetrun.Tree

/-!
# The grammar of manifests

A manifest is the version, a count, and as many entries. Nothing here reads anything: each rule says
which bytes stand for what.
-/

namespace Jetrun

namespace Tree

/-- A length and that many bytes of UTF-8. -/
def IsText (s : String) (b : List UInt8) : Prop :=
  ∃ bytes : List UInt8, bytes.length < 2 ^ 16 ∧ Utf8.decode bytes = some s ∧
    b = LittleEndian.toLe 2 bytes.length ++ bytes

/-- What stands behind the name. Of the flags of a file, only the lowest bit means something. -/
inductive IsPayload : Node → List UInt8 → Prop
  | file (digest : Digest) (size : UInt64) (flags : UInt8) :
      IsPayload (.file digest size (flags.toNat &&& flagExecutable ≠ 0))
        (digest.bytes ++ LittleEndian.toLe 8 size.toNat ++ [flags])
  | dir (digest : Digest) : IsPayload (.dir digest) digest.bytes
  | symlink {target : String} {b : List UInt8} (text : IsText target b) (nonempty : target ≠ "") :
      IsPayload (.symlink target) b

def IsEntry (e : EntryName × Node) (b : List UInt8) : Prop :=
  ∃ name payload, IsText e.1.text name ∧ IsPayload e.2 payload ∧
    b = UInt8.ofNat e.2.tag :: (name ++ payload)

/-- Entries, one behind the other. -/
inductive AreEntries : List (EntryName × Node) → List UInt8 → Prop
  | nil : AreEntries [] []
  | cons {e : EntryName × Node} {es : List (EntryName × Node)} {b bs : List UInt8}
      (head : IsEntry e b) (tail : AreEntries es bs) : AreEntries (e :: es) (b ++ bs)

def IsManifest (entries : List (EntryName × Node)) (b : List UInt8) : Prop :=
  entries.length < 2 ^ 32 ∧ ∃ body, AreEntries entries body ∧
    b = LittleEndian.toLe 2 treeFormatVersion ++ (LittleEndian.toLe 4 entries.length ++ body)

end Tree

end Jetrun
