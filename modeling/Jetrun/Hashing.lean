import Jetrun.Store

/-!
# Reading a file to hash it

The hasher and the operating system are parameters. A small file is read whole; a large one goes
through a buffer, and how much of it one read moves is up to the system.
-/

namespace Jetrun

def streamChunk : ℕ := 256 * 2 ^ 10

/-- BLAKE3 fed piece by piece: what is fed goes into a state of its own. -/
structure StreamHasher (σ : Type) where
  deriveKey : String → List UInt8 → Digest
  newKeyed : Digest → σ
  update : σ → List UInt8 → σ
  finalize : σ → Digest

namespace StreamHasher

variable {σ : Type} (H : StreamHasher σ)

def keyed (context : String) : σ := H.newKeyed (H.deriveKey context [])

def blobDigest (bytes : List UInt8) : Digest :=
  H.finalize (H.update (H.keyed Context.blob) bytes)

/-- A digest depends on all that was fed, not on the pieces it came in. -/
def Concatenates : Prop :=
  ∀ key (pieces pieces' : List (List UInt8)), pieces.flatten = pieces'.flatten →
    H.finalize (pieces.foldl H.update (H.newKeyed key))
      = H.finalize (pieces'.foldl H.update (H.newKeyed key))

end StreamHasher

/-- The hasher that keeps all it was fed. -/
def Hasher.stream (b3 : Blake3) : StreamHasher Hasher where
  deriveKey := b3.deriveKey
  newKeyed key := ⟨key, []⟩
  update := Hasher.update
  finalize := Hasher.finalize b3

/-- The calls that read a file, on a system whose state is `ω`. One read into a buffer says how many
bytes it moved and leaves the buffer with them at its front. -/
structure ReadOs (ω : Type) where
  read : Path → ω → Except IoError (List UInt8) × ω
  openFile : Path → ω → Except IoError ℕ × ω
  readInto : ℕ → List UInt8 → ω → (Except IoError ℕ × List UInt8) × ω

namespace ReadOs

variable {σ ω : Type} (os : ReadOs ω) (H : StreamHasher σ)

section Loop

variable (path : Path) (fd : ℕ)

/-- The loop that feeds the hasher. It has no result where it has not ended after so many turns, or
where more bytes than the buffer has are said to be read, and the slice panics. -/
def hashReads : ℕ → List UInt8 → σ → ω → Option (Except CasError σ) × ω
  | 0, _, _, w => (none, w)
  | turns + 1, buf, h, w =>
    match os.readInto fd buf w with
    | ((.error e, _), w) => (some (.error (.io "read for hashing" path e)), w)
    | ((.ok n, buf), w) =>
      if n = 0 then (some (.ok h), w)
      else if n ≤ buf.length then hashReads turns buf (H.update h (buf.take n)) w
      else (none, w)

end Loop

/-- Read it whole when small and in pieces when not, with a loop of so many turns. -/
def hashFile (turns : ℕ) (path : Path) (size : ℕ) (w : ω) : Option (Except CasError Digest) × ω :=
  if size ≤ smallFileLimit then
    match os.read path w with
    | (.error e, w) => (some (.error (.io "read for hashing" path e)), w)
    | (.ok bytes, w) => (some (.ok (H.blobDigest bytes)), w)
  else
    match os.openFile path w with
    | (.error e, w) => (some (.error (.io "open for hashing" path e)), w)
    | (.ok fd, w) =>
      let buf := List.replicate streamChunk 0
      let (h, w) := os.hashReads H path fd turns buf (H.keyed Context.blob) w
      (h.map fun h => h.map H.finalize, w)

/-- From this state on, the reads of an open file move these pieces one after the other and then
nothing. Behind a piece, the buffer may have anything. -/
def Splits (fd : ℕ) : List (List UInt8) → ω → Prop
  | [], w => ∀ buf, buf.length = streamChunk → (os.readInto fd buf w).1.1 = .ok 0
  | piece :: pieces, w => piece ≠ [] ∧ piece.length ≤ streamChunk ∧
    ∀ buf, buf.length = streamChunk → ∃ rest, (piece ++ rest).length = streamChunk ∧
      (os.readInto fd buf w).1 = (.ok piece.length, piece ++ rest) ∧
      Splits fd pieces (os.readInto fd buf w).2

/-- The file has this content, however it is read: at once, or split into these pieces. -/
structure Holds (path : Path) (content : List UInt8) (pieces : List (List UInt8)) (w : ω) :
    Prop where
  flatten : pieces.flatten = content
  whole : (os.read path w).1 = .ok content
  opened : ∃ fd, (os.openFile path w).1 = .ok fd ∧ os.Splits fd pieces (os.openFile path w).2

end ReadOs

/-- A system with one file, whose state is the pieces that reads have yet to move. -/
def pieceOs : ReadOs (List (List UInt8)) where
  read _ pieces := (.ok pieces.flatten, pieces)
  openFile _ pieces := (.ok 0, pieces)
  readInto
    | _, buf, [] => ((.ok 0, buf), [])
    | _, buf, piece :: pieces => ((.ok piece.length, piece ++ buf.drop piece.length), pieces)

end Jetrun
