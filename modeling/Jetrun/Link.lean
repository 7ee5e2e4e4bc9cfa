import Jetrun.Fs

/-!
# Placing a file without copying it

A file is placed by a reflink, a hard link or a copy, in this order. A hard link is a second name
for the inode of the object, so it is only used where no write can reach it. What the operating
system answers is a parameter.
-/

namespace Jetrun

/-- Whether two files may safely share an inode. -/
inductive Intent
  | overlayLower
  | privateInode
deriving DecidableEq

/-- How a materialization actually happened. -/
inductive LinkMode
  | reflink
  | hardlink
  | copy
deriving DecidableEq

/-- The operating system: how it answers each call, and what becomes of its state `ω`. -/
structure Os (ω : Type) where
  lstat : Path → StateM ω (Except IoError Unit)
  stat : Path → StateM ω (Except IoError Unit)
  pathExists : Path → StateM ω Bool
  read : Path → StateM ω (Except IoError (List UInt8))
  createDir : Path → StateM ω (Except IoError Unit)
  removeFile : Path → StateM ω (Except IoError Unit)
  openRead : Path → StateM ω (Except IoError Unit)
  createNew : Path → StateM ω (Except IoError Unit)
  ficlone : Path → Path → StateM ω (Except IoError Unit)
  hardLink : Path → Path → StateM ω (Except IoError Unit)
  copy : Path → Path → StateM ω (Except IoError Unit)
  symlink : String → Path → StateM ω (Except IoError Unit)
  setPermissions : Path → ℕ → StateM ω (Except IoError Unit)

/-- Whether reflinks are supported, as far as is known. -/
structure Capabilities where
  reflink : Option Bool
deriving DecidableEq

def Capabilities.new : Capabilities := ⟨none⟩

namespace Link

/-- `EPERM`, by its number. -/
def eperm : IoError := .other 1

def exdev : IoError := .other 18

def einval : IoError := .other 22

def enotty : IoError := .other 25

def emlink : IoError := .other 31

def enosys : IoError := .other 38

def eopnotsupp : IoError := .other 95

/-- This file system will never clone. -/
def isUnsupported (e : IoError) : Bool := e ∈ [eopnotsupp, enotty, exdev, einval, enosys]

/-- There will never be a hard link to this file here. -/
def isUnlinkable (e : IoError) : Bool := e ∈ [emlink, exdev, eperm]

variable {ω : Type}

/-- The operating system and what a store knows of it. -/
structure Session (ω : Type) where
  os : ω
  caps : Capabilities

def call {α : Type} (f : StateM ω α) : StateM (Session ω) α := fun s =>
  let (a, os) := f s.os
  (a, { s with os })

def noteReflink (supported : Bool) : StateM (Session ω) Unit :=
  modify fun s => { s with caps := ⟨some supported⟩ }

variable (os : Os ω) (src dst : Path)

/-- Attempt a single clone. A file created for it is removed again if it fails. -/
def rawReflink : StateM ω (Except IoError Unit) := do
  match ← os.openRead src with
  | .error e => pure (.error e)
  | .ok () =>
    match ← os.createNew dst with
    | .error e => pure (.error e)
    | .ok () =>
      match ← os.ficlone src dst with
      | .ok () => pure (.ok ())
      | .error e => do
        let _ ← os.removeFile dst
        pure (.error e)

def byCopy : StateM (Session ω) (Except IoError LinkMode) := do
  match ← call (os.copy src dst) with
  | .ok () => pure (.ok .copy)
  | .error e => pure (.error e)

def byHardlink (intent : Intent) : StateM (Session ω) (Except IoError LinkMode) :=
  if intent = .overlayLower then do
    match ← call (os.hardLink src dst) with
    | .ok () => pure (.ok .hardlink)
    | .error e => if isUnlinkable e then byCopy os src dst else pure (.error e)
  else byCopy os src dst

def byReflink (intent : Intent) : StateM (Session ω) (Except IoError LinkMode) := do
  if (← get).caps.reflink = some false then byHardlink os src dst intent
  else
    match ← call (rawReflink os src dst) with
    | .ok () => do
      noteReflink true
      pure (.ok .reflink)
    | .error e =>
      if isUnsupported e then do
        noteReflink false
        byHardlink os src dst intent
      else pure (.error e)

/-- Place the contents of `src` at `dst`. An existing `dst` is replaced. -/
def materialize (intent : Intent) : StateM (Session ω) (Except IoError LinkMode) := do
  match ← call (os.removeFile dst) with
  | .ok () => byReflink os src dst intent
  | .error .notFound => byReflink os src dst intent
  | .error e => pure (.error e)

end Link

end Jetrun
