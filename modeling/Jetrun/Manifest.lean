import Jetrun.Store

/-!
# What a manifest says beyond its tree

The lengths in a manifest are cast to the width of their fields, and what a cast drops is not in the
bytes. The other way round the decoder takes the entries in any order, and looks at one bit of the
flags of a file.
-/

namespace Jetrun

namespace Tree

/-- What the cast to sixteen bits drops of the length of a symlink's target. -/
def overflow : Node → ℕ
  | .symlink target => (Utf8.encode target).length / 256 ^ 2
  | _ => 0

def overflows (t : Tree) : List ℕ := t.iter.map fun e => overflow e.2

/-- An entry as it stands in a manifest: the bytes of its name, and its flags if it is a file. -/
structure WireEntry where
  name : List UInt8
  flags : Option UInt8
deriving DecidableEq

/-- The entry some bytes begin with, and the bytes behind it. -/
def wireEntry (bytes : List UInt8) : WireEntry × List UInt8 :=
  let nameEnd := 3 + LittleEndian.ofLe ((bytes.drop 1).take 2)
  let name := (bytes.drop 3).take (nameEnd - 3)
  let payload := bytes.drop nameEnd
  if bytes.head? = some (UInt8.ofNat tagFile) then (⟨name, payload[40]?⟩, payload.drop 41)
  else if bytes.head? = some (UInt8.ofNat tagDir) then (⟨name, none⟩, payload.drop 32)
  else (⟨name, none⟩, payload.drop (2 + LittleEndian.ofLe (payload.take 2)))

def wireEntriesOf : ℕ → List UInt8 → List WireEntry
  | 0, _ => []
  | count + 1, bytes =>
    let (entry, bytes) := wireEntry bytes
    entry :: wireEntriesOf count bytes

/-- The entries of a manifest, after its version and its count. -/
def wireEntries (bytes : List UInt8) : List WireEntry :=
  wireEntriesOf (LittleEndian.ofLe ((bytes.drop 2).take 4)) (bytes.drop 6)

/-- The names stand in ascending order of their bytes, and no flag is set that means nothing. -/
structure Canonical (bytes : List UInt8) : Prop where
  ordered : (wireEntries bytes).Pairwise fun a b =>
    a.name.map UInt8.toNat < b.name.map UInt8.toNat
  plain : ∀ e ∈ wireEntries bytes, ∀ f, e.flags = some f → f = 0 ∨ f = 1

end Tree

end Jetrun
