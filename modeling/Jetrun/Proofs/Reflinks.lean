import Jetrun.Proofs.Ingest
import Jetrun.Reflinks

/-!
# One refusal is the end of reflinks

The flag says that the file system under the store cannot clone, but it is set by whatever file the
last clone was tried for. It is never taken back.
-/

namespace Jetrun

namespace Link

variable {ω : Type} {os : Os ω}

section Attempt

theorem pure_apply {α : Type} (a : α) (t : ω) : (StateT.pure a : StateM ω α) t = (a, t) := rfl

variable (os) (src dst : Path)

/-- A clone that is made, or else the first call that failed. -/
theorem rawReflink_cases (t : ω) :
    (∃ e, (os.openRead src t).1 = .error e ∧ (rawReflink os src dst t).1 = .error e) ∨
    (os.openRead src t).1 = .ok () ∧
      ((∃ e, (os.createNew dst (os.openRead src t).2).1 = .error e ∧
          (rawReflink os src dst t).1 = .error e) ∨
        (os.createNew dst (os.openRead src t).2).1 = .ok () ∧
          (rawReflink os src dst t).1
            = (os.ficlone src dst (os.createNew dst (os.openRead src t).2).2).1) := by
  rcases hsource : os.openRead src t with ⟨_ | _, t₁⟩
  · exact .inl ⟨_, rfl, by simp [rawReflink, StateT.bind, pure_apply, bind, pure, hsource]⟩
  refine .inr ⟨rfl, ?_⟩
  rcases hcreate : os.createNew dst t₁ with ⟨_ | _, t₂⟩
  · refine .inl ⟨_, rfl, ?_⟩
    simp [rawReflink, StateT.bind, pure_apply, bind, pure, hsource, hcreate]
  refine .inr ⟨rfl, ?_⟩
  rcases hclone : os.ficlone src dst t₂ with ⟨_ | _, t₃⟩
  · rcases hremove : os.removeFile dst t₃ with ⟨_, t₄⟩
    simp [rawReflink, StateT.bind, pure_apply, bind, pure, hsource, hcreate, hclone, hremove]
  · simp [rawReflink, StateT.bind, pure_apply, bind, pure, hsource, hcreate, hclone]

end Attempt

section Call

variable (p : Placement) {s : Session ω}

theorem attempt_ok_iff (t : ω) :
    (rawReflink os p.src p.dst (p.removeAnswer os t).2).1 = .ok () ↔
      (p.sourceAnswer os t).1 = .ok () ∧ (p.destinationAnswer os t).1 = .ok () ∧
        p.cloneAnswer os t = .ok () := by
  rcases rawReflink_cases os p.src p.dst (p.removeAnswer os t).2 with
    ⟨e, hsource, hraw⟩ | ⟨hsource, ⟨e, hcreate, hraw⟩ | ⟨hcreate, hraw⟩⟩
  · simp [Placement.sourceAnswer, hsource, hraw]
  · simp [Placement.sourceAnswer, Placement.destinationAnswer, hcreate, hraw]
  · simp [Placement.cloneAnswer, Placement.sourceAnswer, Placement.destinationAnswer, hsource,
      hcreate, hraw]

theorem attempt_unsupported_iff (t : ω) :
    Placement.Unsupported (rawReflink os p.src p.dst (p.removeAnswer os t).2).1 ↔
      Placement.Unsupported (p.sourceAnswer os t).1 ∨
        (p.sourceAnswer os t).1 = .ok () ∧ (Placement.Unsupported (p.destinationAnswer os t).1 ∨
          (p.destinationAnswer os t).1 = .ok () ∧ Placement.Unsupported (p.cloneAnswer os t)) := by
  have hok : ¬Placement.Unsupported (.ok ()) := by
    rintro ⟨_, h, -⟩
    cases h
  rcases rawReflink_cases os p.src p.dst (p.removeAnswer os t).2 with
    ⟨e, hsource, hraw⟩ | ⟨hsource, ⟨e, hcreate, hraw⟩ | ⟨hcreate, hraw⟩⟩
  · simp [Placement.sourceAnswer, hsource, hraw]
  · simp [Placement.sourceAnswer, Placement.destinationAnswer, hsource, hcreate, hraw, hok]
  · simp [Placement.cloneAnswer, Placement.sourceAnswer, Placement.destinationAnswer, hsource,
      hcreate, hraw, hok]

/-- Without a clone nothing is learnt of clones. -/
theorem byHardlink_keeps (os : Os ω) (src dst : Path) (intent : Intent) (s : Session ω) :
    (byHardlink os src dst intent s).2.caps = s.caps ∧
      (byHardlink os src dst intent s).1 ≠ .ok .reflink := by
  have hcopy : ∀ s : Session ω, (byCopy os src dst s).2.caps = s.caps ∧
      (byCopy os src dst s).1 ≠ .ok .reflink := by
    intro s
    rcases hc : os.copy src dst s.os with ⟨_ | _, t⟩ <;>
      simp [byCopy, call, StateT.bind, pure_apply, bind, pure, hc]
  unfold byHardlink
  split_ifs
  · rcases hl : os.hardLink src dst s.os with ⟨e | _, t⟩
    · by_cases hun : isUnlinkable e
      · simpa [call, StateT.bind, pure_apply, bind, pure, hl, hun] using hcopy ⟨t, s.caps⟩
      · simp [call, StateT.bind, pure_apply, bind, pure, hl, hun]
    · simp [call, StateT.bind, pure_apply, bind, pure, hl]
  · exact hcopy s

variable {p}

/-- A call whose destination cannot be cleared goes no further. -/
theorem run_uncleared (h : ¬p.Clears os s.os) :
    (p.run os s).2.caps = s.caps ∧ ∃ e, (p.run os s).1 = .error e := by
  unfold Placement.Clears Placement.removeAnswer at h
  unfold Placement.run materialize
  rcases hr : os.removeFile p.dst s.os with ⟨e | _, t⟩
  · rw [hr] at h
    cases e with
    | notFound => simp at h
    | _ => simp [call, StateT.bind, pure_apply, bind, pure, hr]
  · simp [hr] at h

theorem run_cleared (h : p.Clears os s.os) :
    p.run os s = byReflink os p.src p.dst p.intent ⟨(p.removeAnswer os s.os).2, s.caps⟩ := by
  unfold Placement.run materialize
  rcases hr : os.removeFile p.dst s.os with ⟨e | _, t⟩
  · have he : e = .notFound := by simpa [Placement.Clears, Placement.removeAnswer, hr] using h
    subst he
    simp [call, StateT.bind, bind, hr, Placement.removeAnswer]
  · simp [call, StateT.bind, bind, hr, Placement.removeAnswer]

/-- Once the flag is down it stays down, and no clone is tried. -/
theorem run_lost (h : s.caps.reflink = some false) :
    (p.run os s).2.caps = s.caps ∧ (p.run os s).1 ≠ .ok .reflink := by
  by_cases hc : p.Clears os s.os
  · rw [run_cleared hc]
    have hbranch : byReflink os p.src p.dst p.intent ⟨(p.removeAnswer os s.os).2, s.caps⟩
        = byHardlink os p.src p.dst p.intent ⟨(p.removeAnswer os s.os).2, s.caps⟩ := by
      simp [byReflink, StateT.bind, bind, get, getThe, MonadStateOf.get, StateT.get, pure, h]
    rw [hbranch]
    exact byHardlink_keeps ..
  · obtain ⟨hcaps, e, he⟩ := run_uncleared hc
    exact ⟨hcaps, by simp [he]⟩

/-- While it is not, the call is what becomes of its clone. -/
theorem run_tried (h : s.caps.reflink ≠ some false) (hc : p.Clears os s.os) :
    ((p.run os s).1 = .ok .reflink ↔
      (rawReflink os p.src p.dst (p.removeAnswer os s.os).2).1 = .ok ()) ∧
    ((p.run os s).2.caps.reflink = some false ↔
      Placement.Unsupported (rawReflink os p.src p.dst (p.removeAnswer os s.os).2).1) := by
  rw [run_cleared hc]
  rcases hr : rawReflink os p.src p.dst (p.removeAnswer os s.os).2 with ⟨e | _, t⟩
  · by_cases hun : isUnsupported e
    · have hbranch : byReflink os p.src p.dst p.intent ⟨(p.removeAnswer os s.os).2, s.caps⟩
          = byHardlink os p.src p.dst p.intent ⟨t, ⟨some false⟩⟩ := by
        simp [byReflink, call, noteReflink, StateT.bind, bind, get, getThe, MonadStateOf.get,
          StateT.get, pure, modify, modifyGet, MonadStateOf.modifyGet, StateT.modifyGet, h, hr, hun]
      obtain ⟨hcaps, hne⟩ := byHardlink_keeps os p.src p.dst p.intent ⟨t, ⟨some false⟩⟩
      rw [hbranch, hcaps]
      simp [hne, Placement.Unsupported, hun]
    · simp [byReflink, call, StateT.bind, pure_apply, bind, get, getThe, MonadStateOf.get,
        StateT.get, pure, h, hr, hun, Placement.Unsupported]
  · simp [byReflink, call, noteReflink, StateT.bind, pure_apply, bind, get, getThe,
      MonadStateOf.get, StateT.get, pure, modify, modifyGet, MonadStateOf.modifyGet,
      StateT.modifyGet, h, hr, Placement.Unsupported]

end Call

section Run

variable {s s' : Session ω} {p : Placement}

theorem run_reflink_iff (h : s.caps.reflink ≠ some false) :
    (p.run os s).1 = .ok .reflink ↔ p.Reaches os s.os ∧ p.cloneAnswer os s.os = .ok () := by
  unfold Placement.Reaches
  by_cases hc : p.Clears os s.os
  · rw [(run_tried h hc).1, attempt_ok_iff]
    simp only [hc, true_and, and_assoc]
  · obtain ⟨-, e, he⟩ := run_uncleared hc
    simp [he, hc]

theorem run_loses_iff (h : s.caps.reflink ≠ some false) :
    (p.run os s).2.caps.reflink = some false ↔ p.Refused os s.os := by
  unfold Placement.Refused
  by_cases hc : p.Clears os s.os
  · rw [(run_tried h hc).2, attempt_unsupported_iff]
    simp only [hc, true_and]
  · rw [(run_uncleared hc).1]
    simp [h, hc]

/-- A step takes the flag down if it is refused a clone, and nothing puts it up again. -/
theorem step_lost_iff {e : Event ω} (hs : step os s e = some s') :
    s'.caps.reflink = some false ↔ s.caps.reflink = some false ∨ ¬Spared os s e := by
  cases e with
  | meanwhile now =>
    cases hs
    simp [Spared]
  | place p =>
    cases hs
    by_cases h : s.caps.reflink = some false
    · simp [(run_lost h).1, h]
    · simp [run_loses_iff h, h, Spared]

/-- A call that crosses the border is refused, once it gets that far. -/
theorem crossing_refused {fs : Path → Prop} {t : ω} (h : p.Assumed os fs t) (hcross : p.Crosses fs)
    (hreach : p.Reaches os t) : p.Refused os t := by
  obtain ⟨hclears, hsource, hdestination⟩ := hreach
  have hclone := h.across hcross ⟨hclears, hsource, hdestination⟩
  exact ⟨hclears, .inr ⟨hsource, .inr ⟨hdestination, exdev, hclone, by decide⟩⟩⟩

/-- After any calls that share a flag that was up, a call within the file system is a reflink if it
can clear its destination and open its files and no call before was refused a clone, and only then.
-/
theorem reflinks_iff {fs : Path → Prop} {events : List (Event ω)} {now : ω}
    (hrun : Runs.exec (step os) ⟨now, ⟨some true⟩⟩ events = some s)
    (hassumed : p.Assumed os fs s.os) (hwithin : p.Within fs) :
    (p.run os s).1 = .ok .reflink ↔
      p.Reaches os s.os ∧ Runs.AllSteps (step os) (Spared os) ⟨now, ⟨some true⟩⟩ events := by
  have hlatched := Runs.exec_latches (P := fun s => s.caps.reflink = some false)
    (fun s e s' hs => step_lost_iff hs) hrun
  simp only [Option.some.injEq, Bool.true_eq_false, false_or] at hlatched
  by_cases hlost : s.caps.reflink = some false
  · simp [(run_lost hlost).2, hlatched.1 hlost]
  · have hspared := not_not.1 (hlatched.not.1 hlost)
    rw [run_reflink_iff hlost]
    exact ⟨fun h => ⟨h.1, hspared⟩, fun h => ⟨h.1, hassumed.within hwithin h.1⟩⟩

end Run

section Sample

open Machine Storing

/-- Whether a path is on the file system of the root, and not on the one mounted below it. -/
def OnRoot (p : Path) : Prop := ¬["/", "mnt"] <+: p

instance (p : Path) : Decidable (OnRoot p) := inferInstanceAs (Decidable ¬_)

def mountedSetup : StateM Machine Unit := do
  let _ ← createDirAll ["/", "mnt"]
  let _ ← openWrite ["/", "object"]

/-- Nothing is cloned or linked across the border of the two file systems. -/
def mounted : Machine :=
  { sampleMachine false (mountedSetup (sampleMachine false emptyVolume)).2.volume with
    support := ⟨fun src dst => if OnRoot src ↔ OnRoot dst then none else some ⟨exdev, by decide⟩,
      fun src dst => if OnRoot src ↔ OnRoot dst then none else some ⟨exdev, by decide⟩⟩ }

def placeAt (dst : Path) : Placement := ⟨["/", "object"], dst, .overlayLower⟩

def mountedSession : Session Machine := ⟨mounted, ⟨some true⟩⟩

/-- A call before the one that is looked at. -/
def afterOne (dst : Path) : Session Machine := ((placeAt dst).run Machine.os mountedSession).2

/-- One file placed on the other file system, and from then on there are only hard links. -/
theorem reflink_lost : ∃ s : Session Machine,
    Runs.exec (step Machine.os) ⟨mounted, ⟨some true⟩⟩ [.place (placeAt ["/", "mnt", "x"])]
        = some s ∧
      (placeAt ["/", "mnt", "x"]).Assumed Machine.os OnRoot mounted ∧
      (placeAt ["/", "y"]).Assumed Machine.os OnRoot s.os ∧
      (placeAt ["/", "y"]).Within OnRoot ∧ (placeAt ["/", "y"]).Reaches Machine.os s.os ∧
      ((placeAt ["/", "y"]).run Machine.os s).1 = .ok .hardlink := by
  have haway : (placeAt ["/", "mnt", "x"]).cloneAnswer Machine.os mounted = .error exdev := by
    decide +kernel
  have hhome : (placeAt ["/", "y"]).cloneAnswer Machine.os (afterOne ["/", "mnt", "x"]).os
      = .ok () := by
    decide +kernel
  have hreach : (placeAt ["/", "y"]).Reaches Machine.os (afterOne ["/", "mnt", "x"]).os := by
    unfold Placement.Reaches Placement.Clears
    decide +kernel
  have hwithin : (placeAt ["/", "y"]).Within OnRoot := ⟨by decide, by decide⟩
  refine ⟨afterOne ["/", "mnt", "x"], rfl, ⟨fun h => absurd h.2 (by decide), fun _ _ => haway⟩,
    ⟨fun _ _ => hhome, fun h => absurd (iff_of_true hwithin.1 hwithin.2) h⟩, hwithin, hreach, ?_⟩
  decide +kernel

/-- A call within the file system before, and this one is a reflink too. -/
theorem second_reflink : ((placeAt ["/", "z"]).run Machine.os (afterOne ["/", "y"])).1
    = .ok .reflink := by
  have hspared : ¬(placeAt ["/", "y"]).Refused Machine.os mounted := by
    refine (run_loses_iff (s := mountedSession) (by decide)).not.1 ?_
    decide +kernel
  have hreach : (placeAt ["/", "z"]).Reaches Machine.os (afterOne ["/", "y"]).os := by
    unfold Placement.Reaches Placement.Clears
    decide +kernel
  have hclone : (placeAt ["/", "z"]).cloneAnswer Machine.os (afterOne ["/", "y"]).os = .ok () := by
    decide +kernel
  have hwithin : (placeAt ["/", "z"]).Within OnRoot := ⟨by decide, by decide⟩
  have hrun : Runs.exec (step Machine.os) ⟨mounted, ⟨some true⟩⟩ [.place (placeAt ["/", "y"])]
      = some (afterOne ["/", "y"]) := rfl
  refine (reflinks_iff hrun ⟨fun _ _ => hclone, fun h => ?_⟩ hwithin).2 ⟨hreach, ?_, ?_⟩
  · exact absurd (iff_of_true hwithin.1 hwithin.2) h
  · rintro q ⟨rfl⟩
    exact hspared
  · exact fun _ _ => trivial

end Sample

end Link

end Jetrun
