import Jetrun.Durable
import Jetrun.FileTree

/-!
# Objects cut short

After a power loss a file may stand under its name without its last bytes. Nothing in a store tells
such an object from a whole one but its digest and the size that a manifest declares for it.
-/

namespace Jetrun

open Volumes

/-- What a power loss leaves of a volume, with every name kept: of a file whose bytes are waiting to
be flushed, some suffix may be gone. -/
structure PowerCut (disk : PowerLoss.Disk Path) (v v' : Volume String) : Prop where
  entries : v'.entries = v.entries
  mode : ∀ i, (v'.inode i).mode = (v.inode i).mode
  content : ∀ i, (v'.inode i).content <+: (v.inode i).content
  flushed : ∀ p i, v.find p = some (.file i) → ¬disk.bytes p →
    (v'.inode i).content = (v.inode i).content

namespace Storing

variable (st : ObjectStore)

/-- Whoever reads the object gets these bytes, unless the system fails the read. -/
def Gives (v : Volume String) (d : Digest) (bytes : List UInt8) : Prop :=
  ∀ w : Link.Session Machine, w.os.volume = v → w.os.moment.fault = none →
    (getBytes st d w).result = .ok bytes

/-- The check for the object finds none: there is none, or the system fails it. -/
def Overlooks (d : Digest) (m : Machine) : Prop :=
  m.moment.fault ≠ none ∨ m.volume.find (st.objectPath d) = none

end Storing

namespace ObjectStore

variable (b3 : Blake3) (st : ObjectStore) (v : Volume String)

/-- A manifest or one below it, at any level, has this node, and writes it out to this path. -/
inductive NodeAt : Digest → Path → Node → Prop
  | entry {d t e} : treeAt b3 st v d = .ok t → e ∈ t.iter → NodeAt d [e.1.text] e.2
  | inside {d t n sub rel node} : treeAt b3 st v d = .ok t → (n, .dir sub) ∈ t.iter →
      NodeAt sub rel node → NodeAt d (n.text :: rel) node

/-- Every file of a tree that was written out is as long as its entry declares. -/
def PlacedInFull (d : Digest) (f : FileTree) : Prop :=
  ∀ rel object size executable, NodeAt b3 st v d rel (.file object size executable) →
    ∃ content, f rel = some (.file content executable) ∧ content.length = size.toNat

/-- Every object that a file of the tree names is as long as the entry declares. -/
def HeldInFull (d : Digest) : Prop :=
  ∀ rel object size executable, NodeAt b3 st v d rel (.file object size executable) →
    ∃ content, Machine.readable v (st.objectPath object) = .ok content ∧
      content.length = size.toNat

end ObjectStore

end Jetrun
