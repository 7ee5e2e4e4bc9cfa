import Jetrun.Lib.Volumes
import Jetrun.Link
import Jetrun.Staging

/-!
# A machine with one volume

The operating system in full: what its calls do to a volume, and which of them fail. A script says
for each call whether it fails, how far it gets if it does, what time it is, in which order a
listing comes and in how many pieces a file is read. Beyond the script, two paths may lie on file
systems that know no clone or no hard link between them. Paths are resolved, and reading is allowed.
-/

namespace Jetrun

open Volumes

/-- A name in the listing of a directory: one that is UTF-8, or what is shown of one that is not. -/
inductive Listed
  | plain (name : String)
  | odd (shown : String)
deriving DecidableEq

/-- How one call is answered. -/
structure Moment where
  fault : Option IoError
  /-- How many bytes a call that fails has moved by then, if it got that far. -/
  moved : Option ℕ
  now : ℕ
  order : List Listed → List Listed
  order_perm : ∀ l, (order l).Perm l
  cut : List UInt8 → List (List UInt8)
  cut_flatten : ∀ l, (cut l).flatten = l

/-- Which files can be cloned and linked: the error there is where they cannot. -/
structure Support where
  clone : Path → Path → Option { e // Link.isUnsupported e }
  link : Path → Path → Option { e // Link.isUnlinkable e }

structure Machine where
  volume : Volume String
  script : ℕ → Moment
  /-- The number of calls made so far. -/
  clock : ℕ
  support : Support
  privileged : Bool

inductive FileType
  | file
  | dir
  | symlink
  | other
deriving DecidableEq

structure Metadata where
  fileType : FileType
  len : ℕ
  mode : ℕ
  modified : ℕ

namespace Machine

def eisdir : IoError := .other 21

def enotdir : IoError := .other 20

def moment (m : Machine) : Moment := m.script m.clock

/-- The machine when a call has left this volume. -/
def after (m : Machine) (v : Volume String) : Machine := { m with volume := v, clock := m.clock + 1 }

/-- The machine after so many calls that changed nothing. -/
def later (m : Machine) (n : ℕ) : Machine := { m with clock := m.clock + n }

variable {α : Type}

/-- A call that works on the volume, and what is left of it if it fails. -/
def ask (go : Machine → Except IoError α × Volume String) (broken : Machine → Volume String) :
    StateM Machine (Except IoError α) := fun m =>
  match m.moment.fault with
  | some e => (.error e, m.after (broken m))
  | none => ((go m).1, m.after (go m).2)

/-- A call that changes nothing. -/
def query (go : Machine → Except IoError α) : StateM Machine (Except IoError α) :=
  ask (fun m => (go m, m.volume)) volume

/-- A call that does all it is asked, or nothing. -/
def change (go : Machine → Except IoError α × Volume String) : StateM Machine (Except IoError α) :=
  ask go volume

section Volume

/-- Why nothing can be created at a path. -/
def refusal (v : Volume String) (p : Path) : IoError :=
  if (v.find p).isSome then .alreadyExists else .notFound

def fileAt (v : Volume String) (p : Path) : Except IoError ℕ :=
  match v.find p with
  | some (.file i) => .ok i
  | some _ => .error eisdir
  | none => .error .notFound

def readable (v : Volume String) (p : Path) : Except IoError (List UInt8) :=
  (fileAt v p).map fun i => (v.inode i).content

/-- Open for writing, creating the file or emptying the one that is there. -/
def openTruncate (m : Machine) (mode : ℕ) (p : Path) : Except IoError ℕ × Volume String :=
  let v := m.volume
  match v.find p with
  | some (.file i) =>
    if m.privileged || (v.inode i).mode &&& Inodes.ownerWrite ≠ 0 then
      (.ok i, v.setInode i ⟨[], (v.inode i).mode, m.moment.now⟩)
    else (.error .permissionDenied, v)
  | some _ => (.error eisdir, v)
  | none =>
    if h : v.Free p then (.ok v.next, v.create p ⟨[], mode, m.moment.now⟩ h)
    else (.error .notFound, v)

/-- Add bytes at the end of an open file. -/
def append (m : Machine) (v : Volume String) (fd : ℕ) (bytes : List UInt8) : Volume String :=
  v.setInode fd ⟨(v.inode fd).content ++ bytes, (v.inode fd).mode, m.moment.now⟩

/-- Copy a file, its mode first; all of its content or so many bytes. -/
def copyFile (m : Machine) (src dst : Path) (limit : Option ℕ) : Except IoError Unit × Volume String :=
  match fileAt m.volume src with
  | .error e => (.error e, m.volume)
  | .ok i =>
    let mode := (m.volume.inode i).mode
    match m.openTruncate mode dst with
    | (.error e, v) => (.error e, v)
    | (.ok j, v) =>
      let content := (v.inode i).content
      (.ok (), v.setInode j ⟨content.take (limit.getD content.length), mode, m.moment.now⟩)

def mkdir (v : Volume String) (p : Path) : Except IoError Unit × Volume String :=
  if h : v.Free p ∧ v.find p = none then (.ok (), v.put p (.dir []) h.1 (by simp))
  else (.error (refusal v p), v)

/-- Every directory on the way that is missing. -/
def mkdirAll (v : Volume String) : List Path → Except IoError Unit × Volume String
  | [] => (.ok (), v)
  | p :: ps =>
    if v.isDir p then mkdirAll v ps
    else match mkdir v p with
      | (.error e, v) => (.error e, v)
      | (.ok (), v) => mkdirAll v ps

def metadataOf (v : Volume String) : Entry String → Metadata
  | .file i => ⟨.file, (v.inode i).content.length, (v.inode i).mode, (v.inode i).modified⟩
  | .dir _ => ⟨.dir, 0, 0, 0⟩
  | .symlink target => ⟨.symlink, target.length, 0, 0⟩
  | .special => ⟨.other, 0, 0, 0⟩

def listing (v : Volume String) (p : Path) : List Listed :=
  (match v.find p with
    | some (.dir odd) => odd.map .odd
    | _ => []) ++ (v.children p).map .plain

end Volume

section Calls

def symlinkMetadata (p : Path) : StateM Machine (Except IoError Metadata) :=
  query fun m =>
    match m.volume.find p with
    | some e => .ok (metadataOf m.volume e)
    | none => .error .notFound

/-- As `symlinkMetadata`, of what a symlink leads to; here that is nowhere. -/
def metadata (p : Path) : StateM Machine (Except IoError Metadata) :=
  query fun m =>
    match m.volume.find p with
    | some (.symlink _) => .error .notFound
    | some e => .ok (metadataOf m.volume e)
    | none => .error .notFound

def readDir (p : Path) : StateM Machine (Except IoError (List Listed)) :=
  query fun m =>
    if m.volume.isDir p then .ok (m.moment.order (listing m.volume p))
    else .error (if (m.volume.find p).isSome then enotdir else .notFound)

/-- A call that has nothing to do here but can fail. -/
def signal : StateM Machine (Except IoError Unit) := query fun _ => .ok ()

def readLink (p : Path) : StateM Machine (Except IoError (List UInt8)) :=
  query fun m =>
    match m.volume.find p with
    | some (.symlink target) => .ok target
    | some _ => .error Link.einval
    | none => .error .notFound

def openFile (p : Path) : StateM Machine (Except IoError ℕ) := query fun m => fileAt m.volume p

/-- All that successive reads of an open file return. -/
def readChunks (fd : ℕ) : StateM Machine (Except IoError (List (List UInt8))) :=
  query fun m => .ok (m.moment.cut (m.volume.inode fd).content)

def read (p : Path) : StateM Machine (Except IoError (List UInt8)) :=
  query fun m => readable m.volume p

def openWrite (p : Path) : StateM Machine (Except IoError ℕ) :=
  change fun m => m.openTruncate createMode p

def writeAll (fd : ℕ) (bytes : List UInt8) : StateM Machine (Except IoError Unit) :=
  ask (fun m => (.ok (), m.append m.volume fd bytes))
    fun m => m.append m.volume fd (bytes.take (m.moment.moved.getD 0))

/-- Copy all of one open file to another. -/
def copyAll (src fd : ℕ) : StateM Machine (Except IoError Unit) :=
  ask (fun m => (.ok (), m.append m.volume fd (m.volume.inode src).content))
    fun m => m.append m.volume fd ((m.volume.inode src).content.take (m.moment.moved.getD 0))

def createDirAll (p : Path) : StateM Machine (Except IoError Unit) :=
  change fun m => mkdirAll m.volume p.inits

/-- Two names of one inode stay as they are. -/
def rename (p q : Path) : StateM Machine (Except IoError Unit) :=
  change fun m =>
    let v := m.volume
    match hi : v.find p with
    | some (.file i) =>
      if v.find q = some (.file i) then (.ok (), v)
      else if hp : v.isDir p = false then
        if hq : (v.erase p hp).Free q then
          (.ok (), (v.erase p hp).put q (.file i) hq fun _ h => by cases h; exact v.allocated p i hi)
        else (.error .notFound, v)
      else (.error .notFound, v)
    | some _ => (.error eisdir, v)
    | none => (.error .notFound, v)

def removeFile (p : Path) : StateM Machine (Except IoError Unit) :=
  change fun m =>
    let v := m.volume
    if h : v.isDir p = false then
      if v.find p = none then (.error .notFound, v) else (.ok (), v.erase p h)
    else (.error eisdir, v)

def createDir (p : Path) : StateM Machine (Except IoError Unit) :=
  change fun m => mkdir m.volume p

def createNew (p : Path) : StateM Machine (Except IoError Unit) :=
  change fun m =>
    let v := m.volume
    if h : v.Free p ∧ v.find p = none then
      (.ok (), v.create p ⟨[], createMode, m.moment.now⟩ h.1)
    else (.error (refusal v p), v)

def ficlone (src dst : Path) : StateM Machine (Except IoError Unit) :=
  change fun m =>
    let v := m.volume
    match fileAt v src, fileAt v dst, m.support.clone src dst with
    | .ok i, .ok j, none =>
      (.ok (), v.setInode j ⟨(v.inode i).content, (v.inode j).mode, m.moment.now⟩)
    | .ok _, .ok _, some e => (.error e, v)
    | .error e, _, _ => (.error e, v)
    | _, .error e, _ => (.error e, v)

def hardLink (src dst : Path) : StateM Machine (Except IoError Unit) :=
  change fun m =>
    let v := m.volume
    match hi : v.find src with
    | some (.file i) =>
      match m.support.link src dst with
      | none =>
        if h : v.Free dst ∧ v.find dst = none then
          (.ok (), v.put dst (.file i) h.1 fun _ h => by cases h; exact v.allocated src i hi)
        else (.error (refusal v dst), v)
      | some e => (.error (if (v.find dst).isSome then .alreadyExists else e), v)
    | some _ => (.error Link.eperm, v)
    | none => (.error .notFound, v)

def copy (src dst : Path) : StateM Machine (Except IoError Unit) :=
  ask (fun m => m.copyFile src dst none)
    fun m => if m.moment.moved.isSome then (m.copyFile src dst m.moment.moved).2 else m.volume

def symlink (target : String) (p : Path) : StateM Machine (Except IoError Unit) :=
  change fun m =>
    let v := m.volume
    if h : v.Free p ∧ v.find p = none ∧ target ≠ "" then
      (.ok (), v.put p (.symlink (Utf8.encode target)) h.1 (by simp))
    else (.error (refusal v p), v)

def setPermissions (p : Path) (mode : ℕ) : StateM Machine (Except IoError Unit) :=
  change fun m =>
    let v := m.volume
    match v.find p with
    | some (.file i) => (.ok (), v.setInode i ⟨(v.inode i).content, mode, (v.inode i).modified⟩)
    | some (.symlink _) | none => (.error .notFound, v)
    | some _ => (.ok (), v)

/-- Whether there is something; a call that fails counts as no. -/
def pathExists (p : Path) : StateM Machine Bool := do
  match ← metadata p with
  | .ok _ => pure true
  | .error _ => pure false

def forget (call : StateM Machine (Except IoError α)) : StateM Machine (Except IoError Unit) := do
  pure ((← call).map fun _ => ())

def os : Os Machine where
  lstat p := forget (symlinkMetadata p)
  stat p := forget (metadata p)
  pathExists := pathExists
  read := read
  createDir := createDir
  removeFile := removeFile
  openRead p := forget (openFile p)
  createNew := createNew
  ficlone := ficlone
  hardLink := hardLink
  copy := copy
  symlink := symlink
  setPermissions := setPermissions

end Calls

end Machine

end Jetrun
