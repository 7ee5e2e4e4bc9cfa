import Jetrun.Proofs.Machine
import Jetrun.Proofs.Staging
import Jetrun.Storing

/-!
# What a store holds, through every call that fails

A store is `Sound` if every object in it is sealed and holds what its name says, and if no staging
file shares its inode. Whatever fails in a put, the store stays sound, it loses no object, and
nothing else on the volume changes (`Underway`).
-/

namespace Jetrun

open Traced Volumes Volumes.Volume

namespace Request

/-- What the digest of a request is the digest of. -/
def hashed : Request → String × List UInt8
  | .bytes b => (Context.blob, b)
  | .tree t => (Context.tree, t.encode)

theorem content_of_hashed {r r' : Request} (h : r.hashed = r'.hashed) : r.content = r'.content := by
  have hcontent : ∀ r : Request, r.content = r.hashed.2 := fun r => by
    rcases r with b | t
    · rfl
    · rfl
  rw [hcontent, hcontent, h]

end Request

/-- No two of these requests have one digest for different content, or in different namespaces. -/
def Collisionless (b3 : Blake3) (S : Request → Prop) : Prop :=
  ∀ r r', S r → S r' → r.digest b3 = r'.digest b3 → r.hashed = r'.hashed

/-- The digests of what was put, each with what it is the digest of. -/
def StoreEvent.names (b3 : Blake3) (trace : List StoreEvent) :
    List (Digest × String × List UInt8) :=
  trace.filterMap fun
    | .put r => some (r.digest b3, r.hashed)
    | _ => none

theorem collisionless_of_names {b3 : Blake3} {trace : List StoreEvent}
    (h : ∀ x ∈ StoreEvent.names b3 trace, ∀ y ∈ StoreEvent.names b3 trace, x.1 = y.1 → x.2 = y.2) :
    Collisionless b3 fun r => .put r ∈ trace := by
  have hmem : ∀ r, .put r ∈ trace → (r.digest b3, r.hashed) ∈ StoreEvent.names b3 trace :=
    fun r hr => List.mem_filterMap.2 ⟨_, hr, rfl⟩
  exact fun r r' hr hr' hd => h _ (hmem r hr) _ (hmem r' hr') hd

namespace ObjectStore

variable (st : ObjectStore)

theorem fanoutPath_below (d : Digest) : st.fanoutPath d = st.root ++ ["objects", d.fanout] := by
  rw [fanoutPath, Path.push_plain d.fanout_plain, st.root_push_eq.1]
  simp

theorem objectPath_fanout (d : Digest) : st.objectPath d = st.fanoutPath d ++ [d.toHex] := by
  rw [objectPath_below, fanoutPath_below]
  simp

/-- The paths a put of this digest works on. -/
def Slot (d : Digest) (q : Path) : Prop :=
  q = st.stagingPath d ∨ q = st.objectPath d ∨ q = st.fanoutPath d

def Inside (q : Path) : Prop := st.root <+: q

/-- The file at this path is one inode with an object. -/
def Shares (v : Volume String) (q : Path) : Prop :=
  ∃ d i, v.find q = some (.file i) ∧ v.find (st.objectPath d) = some (.file i)

variable {st}

theorem slot_inside {d : Digest} {q : Path} (h : st.Slot d q) : st.Inside q := by
  rcases h with rfl | rfl | rfl
  · exact ⟨_, (st.stagingPath_below d).symm⟩
  · exact ⟨_, (st.objectPath_below d).symm⟩
  · exact ⟨_, (st.fanoutPath_below d).symm⟩

theorem Shares.congr {v v' : Volume String} {q : Path} (h : st.Shares v' q)
    (hq : v'.find q = v.find q)
    (hobject : ∀ d, v'.find (st.objectPath d) = v.find (st.objectPath d)) : st.Shares v q := by
  obtain ⟨d, i, hi, hd⟩ := h
  exact ⟨d, i, hq.symm.trans hi, (hobject d).symm.trans hd⟩

section Apart

variable (d d' : Digest)

theorem stagingPath_ne_fanoutPath : st.stagingPath d ≠ st.fanoutPath d' := fun h => by
  rw [stagingPath_below, fanoutPath_below] at h
  simp at h

theorem objectPath_ne_fanoutPath : st.objectPath d ≠ st.fanoutPath d' := fun h => by
  rw [objectPath_below, fanoutPath_below] at h
  simp at h

theorem stagingPath_ne_tmp : st.stagingPath d ≠ st.tmp := fun h => by
  rw [stagingPath_below, st.root_push_eq.2] at h
  simp at h

theorem stagingPath_ne_objects : st.stagingPath d ≠ st.objects := fun h => by
  rw [stagingPath_below, st.root_push_eq.1] at h
  simp at h

theorem objectPath_ne_tmp : st.objectPath d ≠ st.tmp := fun h => by
  rw [objectPath_below, st.root_push_eq.2] at h
  simp at h

theorem objectPath_ne_objects : st.objectPath d ≠ st.objects := fun h => by
  rw [objectPath_below, st.root_push_eq.1] at h
  simp at h

theorem fanoutPath_ne_tmp : st.fanoutPath d ≠ st.tmp := fun h => by
  rw [fanoutPath_below, st.root_push_eq.2] at h
  simp at h

theorem fanoutPath_ne_objects : st.fanoutPath d ≠ st.objects := fun h => by
  rw [fanoutPath_below, st.root_push_eq.1] at h
  simp at h

end Apart

end ObjectStore

namespace Storing

open ObjectStore Machine

variable {b3 : Blake3} {st : ObjectStore} {S : Request → Prop}

section Soundness

/-- Every object of a store is sealed and holds what its digest may name. -/
structure Sound (st : ObjectStore) (N : Digest → List UInt8 → Prop) (v : Volume String) : Prop where
  tmp_dir : v.isDir st.tmp = true
  objects_dir : v.isDir st.objects = true
  fanout : ∀ d e, v.find (st.fanoutPath d) = some e → ∃ odd, e = .dir odd
  object : ∀ d e, v.find (st.objectPath d) = some e → ∃ i, e = .file i ∧
    N d (v.inode i).content ∧ (v.inode i).mode = objectMode
  staged : ∀ d e, v.find (st.stagingPath d) = some e → ∃ i, e = .file i
  staged_own : ∀ d, Owned v (st.stagingPath d)

/-- Content that one of these requests was for. -/
def Named (b3 : Blake3) (S : Request → Prop) (d : Digest) (content : List UInt8) : Prop :=
  ∃ r, S r ∧ r.digest b3 = d ∧ r.content = content

variable {v v' : Volume String} {p : Path} {d : Digest} {N : Digest → List UInt8 → Prop}

theorem Sound.mono {N' : Digest → List UInt8 → Prop} (h : Sound st N v)
    (hN : ∀ d c, N d c → N' d c) : Sound st N' v where
  tmp_dir := h.tmp_dir
  objects_dir := h.objects_dir
  fanout := h.fanout
  object d e he := by
    obtain ⟨i, hi, hn, hmode⟩ := h.object d e he
    exact ⟨i, hi, hN d _ hn, hmode⟩
  staged := h.staged
  staged_own := h.staged_own

/-- A store in which nothing was ever put. -/
def Unused (st : ObjectStore) (v : Volume String) : Prop :=
  v.isDir st.tmp = true ∧ v.isDir st.objects = true ∧
    ∀ p ∈ v.entries.keys, (st.tmp <+: p → p = st.tmp) ∧ (st.objects <+: p → p = st.objects)

instance (st : ObjectStore) (v : Volume String) : Decidable (Unused st v) :=
  inferInstanceAs (Decidable (_ ∧ _))

theorem Unused.sound (h : Unused st v) : Sound st N v := by
  have hnone : ∀ {p : Path} {e : Entry String}, v.find p = some e →
      (st.tmp <+: p → p = st.tmp) ∧ (st.objects <+: p → p = st.objects) := fun he =>
    h.2.2 _ (AList.mem_keys.1 (AList.lookup_isSome.1 (Option.isSome_of_eq_some he)))
  have hfanout : ∀ d, st.objects <+: st.fanoutPath d := fun d =>
    ⟨[d.fanout], (Path.push_plain d.fanout_plain _).symm⟩
  have hobject : ∀ d, st.objects <+: st.objectPath d := fun d =>
    (hfanout d).trans ⟨[d.toHex], (st.objectPath_fanout d).symm⟩
  have hstaging : ∀ d, st.tmp <+: st.stagingPath d := fun d => ⟨_, (st.stagingPath_eq d).symm⟩
  refine ⟨h.1, h.2.1, fun d e he => ?_, fun d e he => ?_, fun d e he => ?_, fun d i hi => ?_⟩
  · exact absurd ((hnone he).2 (hfanout d)) (fanoutPath_ne_objects d)
  · exact absurd ((hnone he).2 (hobject d)) (objectPath_ne_objects d)
  · exact absurd ((hnone he).1 (hstaging d)) (stagingPath_ne_tmp d)
  · exact absurd ((hnone hi).1 (hstaging d)) (stagingPath_ne_tmp d)

theorem Sound.staging_spot (h : Sound st N v) (d : Digest) : Spot v (st.stagingPath d) := by
  have hne : st.stagingPath d ≠ [] := by
    rw [stagingPath_below]
    simp
  refine ⟨⟨hne, ?_, isDir_eq_false hne fun odd hodd => ?_⟩, h.staged d, h.staged_own d⟩
  · rw [stagingPath_eq, List.dropLast_concat]
    exact h.tmp_dir
  · obtain ⟨i, hi⟩ := h.staged d _ hodd
    cases hi

/-- The directory of an object is missing at most itself. -/
theorem Sound.fanout_parent (h : Sound st N v) (d : Digest) :
    st.fanoutPath d ≠ [] ∧ v.isDir (st.fanoutPath d).dropLast = true := by
  have hfanout : st.fanoutPath d = st.objects ++ [d.fanout] := Path.push_plain d.fanout_plain _
  rw [hfanout, List.dropLast_concat]
  exact ⟨by simp, h.objects_dir⟩

/-- In its directory an object can be put in place. -/
theorem Sound.object_free (h : Sound st N v) (hdir : v.isDir (st.fanoutPath d) = true) :
    v.Free (st.objectPath d) := by
  have hne : st.objectPath d ≠ [] := by
    rw [objectPath_below]
    simp
  refine ⟨hne, ?_, isDir_eq_false hne fun odd hodd => ?_⟩
  · rwa [objectPath_fanout, List.dropLast_concat]
  · obtain ⟨i, hi, -⟩ := h.object d _ hodd
    cases hi

/-- What stands at a path that is no object may be replaced, by a file of its own or by a name of an
object. -/
theorem Sound.beside (h : Sound st N v) (hb : Beside (· = p) v v') (htmp : p ≠ st.tmp)
    (hobjects : p ≠ st.objects) (hfanout : ∀ d, p ≠ st.fanoutPath d)
    (hobject : ∀ d, p ≠ st.objectPath d)
    (hstaged : ∀ d, p = st.stagingPath d → ∀ e, v'.find p = some e → ∃ i, e = .file i)
    (hown : Owned v' p ∨ (∀ d, p ≠ st.stagingPath d) ∧
      ∃ d, v'.find p = v.find (st.objectPath d)) : Sound st N v' where
  tmp_dir := (hb.isDir htmp.symm).trans h.tmp_dir
  objects_dir := (hb.isDir hobjects.symm).trans h.objects_dir
  fanout d e he := h.fanout d e ((hb.find (hfanout d).symm).symm.trans he)
  object d e he := by
    have he' := (hb.find (hobject d).symm).symm.trans he
    obtain ⟨i, rfl, hn, hmode⟩ := h.object d e he'
    rw [← hb.inode (hobject d).symm he'] at hn hmode
    exact ⟨i, rfl, hn, hmode⟩
  staged d e he := by
    by_cases hp : st.stagingPath d = p
    · exact hstaged d hp.symm e (hp ▸ he)
    · exact h.staged d e ((hb.find hp).symm.trans he)
  staged_own d i hi q hq := by
    by_cases hp : st.stagingPath d = p
    · rcases hown with hown | ⟨hne, -⟩
      · subst hp
        exact hown i hi q hq
      · exact absurd hp.symm (hne d)
    · have hi' := (hb.find hp).symm.trans hi
      by_cases hqp : q = p
      · subst hqp
        rcases hown with hown | ⟨-, d', hd'⟩
        · exact (hown i hq _ hi).symm
        · exact absurd (h.staged_own d i hi' _ (hd'.symm.trans hq)) (st.stagingPath_ne d d').symm
      · exact h.staged_own d i hi' q ((hb.find hqp).symm.trans hq)

theorem Sound.replacing (h : Sound st N v) (hr : Replacing v (st.stagingPath d) v') :
    Sound st N v' :=
  h.beside hr.beside (stagingPath_ne_tmp d) (stagingPath_ne_objects d)
    (stagingPath_ne_fanoutPath d) (st.stagingPath_ne d) (fun _ _ => hr.spot.file)
    (.inl hr.spot.owned)

/-- Outside the store anything may be put that is no name of a staging file. -/
theorem Sound.outside (h : Sound st N v) (hb : Beside (· = p) v v') (hp : ¬st.Inside p)
    (hown : Owned v' p ∨ ∃ d, v'.find p = v.find (st.objectPath d)) : Sound st N v' := by
  have hne : ∀ {q : Path}, st.root <+: q → p ≠ q := fun hq hpq => hp (hpq ▸ hq)
  have hstaging : ∀ d, p ≠ st.stagingPath d := fun d => hne (slot_inside (.inl rfl))
  refine h.beside hb (hne ?_) (hne ?_) (fun d => hne (slot_inside (.inr (.inr rfl))))
    (fun d => hne (slot_inside (.inr (.inl rfl)))) (fun d hd => absurd hd (hstaging d))
    (hown.imp_right fun hd => ⟨hstaging, hd⟩)
  · exact ⟨_, st.root_push_eq.2.symm⟩
  · exact ⟨_, st.root_push_eq.1.symm⟩

theorem Sound.mkdir_fanout (h : Sound st N v) (hp : v.Free (st.fanoutPath d))
    (he : ∀ i, Entry.dir [] = Entry.file i → i < v.next) :
    Sound st N (v.put (st.fanoutPath d) (.dir []) hp he) where
  tmp_dir := (isDir_put hp he (fanoutPath_ne_tmp d).symm).trans h.tmp_dir
  objects_dir := (isDir_put hp he (fanoutPath_ne_objects d).symm).trans h.objects_dir
  fanout d' e hd' := by
    rw [find_put] at hd'
    split_ifs at hd'
    · exact ⟨[], (Option.some.inj hd').symm⟩
    · exact h.fanout d' e hd'
  object d' e hd' := by
    rw [find_put, if_neg (objectPath_ne_fanoutPath d' d)] at hd'
    exact h.object d' e hd'
  staged d' e hd' := by
    rw [find_put, if_neg (stagingPath_ne_fanoutPath d' d)] at hd'
    exact h.staged d' e hd'
  staged_own d' i hi q hq := by
    rw [find_put, if_neg (stagingPath_ne_fanoutPath d' d)] at hi
    rw [find_put] at hq
    split_ifs at hq
    · cases hq
    · exact h.staged_own d' i hi q hq

/-- A sealed staging file that holds what its digest names is renamed into place. -/
theorem Sound.commit (h : Sound st N v) {i : ℕ} (hn : N d (v.inode i).content)
    (hi : v.find (st.stagingPath d) = some (.file i)) (hmode : (v.inode i).mode = objectMode)
    (hp : v.isDir (st.stagingPath d) = false)
    (hq : (v.erase (st.stagingPath d) hp).Free (st.objectPath d))
    (he : ∀ j, Entry.file i = Entry.file j → j < (v.erase (st.stagingPath d) hp).next) :
    Sound st N ((v.erase (st.stagingPath d) hp).put (st.objectPath d) (.file i) hq he) where
  tmp_dir := by
    rw [isDir_put hq he (objectPath_ne_tmp d).symm, isDir_erase hp (stagingPath_ne_tmp d).symm]
    exact h.tmp_dir
  objects_dir := by
    rw [isDir_put hq he (objectPath_ne_objects d).symm,
      isDir_erase hp (stagingPath_ne_objects d).symm]
    exact h.objects_dir
  fanout d' e hd' := by
    rw [find_put, if_neg (objectPath_ne_fanoutPath d d').symm, find_erase,
      if_neg (stagingPath_ne_fanoutPath d d').symm] at hd'
    exact h.fanout d' e hd'
  object d' e hd' := by
    rw [find_put] at hd'
    split_ifs at hd' with hsame
    · obtain rfl := st.objectPath_inj hsame
      exact ⟨i, (Option.some.inj hd').symm, hn, hmode⟩
    · rw [find_erase, if_neg (st.stagingPath_ne d d').symm] at hd'
      exact h.object d' e hd'
  staged d' e hd' := by
    rw [find_put, if_neg (st.stagingPath_ne d' d), find_erase] at hd'
    split_ifs at hd'
    exact h.staged d' e hd'
  staged_own d' j hj q hq' := by
    rw [find_put, if_neg (st.stagingPath_ne d' d), find_erase] at hj
    split_ifs at hj with hsame
    rw [find_put] at hq'
    split_ifs at hq' with hobject
    · -- the staging file of another digest has another inode
      obtain rfl : i = j := by simpa using hq'
      exact absurd (h.staged_own d i hi _ hj) hsame
    · rw [find_erase] at hq'
      split_ifs at hq'
      exact h.staged_own d' j hj q hq'

end Soundness

section Rules

variable {α β : Type} {ok : StoreEvent → Prop} {w : Link.Session Machine} {h : List StoreEvent}
  {R : Except Stop β → Link.Session Machine → List StoreEvent → Prop}

theorem leads_call_bind {f : StateM Machine α} {k : α → Storing β}
    (hf : Acts f (fun a m => Leads ok (k a) R { w with os := m } h) w.os) :
    Leads ok (call f >>= k) R w h :=
  leads_act_bind (Link.acts_call hf)

theorem leads_check {op : String} {path : Path} {result : Except IoError α}
    {R : Except Stop α → Link.Session Machine → List StoreEvent → Prop}
    (hok : ∀ a, result = .ok a → R (.ok a) w h)
    (herror : ∀ e, result = .error e → R (.error (.failed (.io op path e))) w h) :
    Leads ok (check op path result) R w h := by
  refine leads_ofExcept ?_
  rcases result with e | a
  · exact herror e rfl
  · exact hok a rfl

theorem leads_check_bind {op : String} {path : Path} {result : Except IoError α} {k : α → Storing β}
    (hok : ∀ a, result = .ok a → Leads ok (k a) R w h)
    (herror : ∀ e, result = .error e → R (.error (.failed (.io op path e))) w h) :
    Leads ok (check op path result >>= k) R w h :=
  leads_bind (leads_check hok herror)

theorem leads_emit_bind {e : StoreEvent} {k : Unit → Storing β}
    (hk : ok e → Leads ok (k ()) R w (h ++ [e])) : Leads ok (emit e >>= k) R w h :=
  Traced.leads_emit_bind hk

theorem leads_fail {e : CasError} (hQ : R (.error (.failed e)) w h) :
    Leads ok (fail e : Storing β) R w h :=
  leads_ofExcept hQ

end Rules

section Puts

/-- What a put on the way leaves alone: the store is sound, all its objects are there, and nothing
changed but in the slot of its digest. -/
structure Underway (b3 : Blake3) (st : ObjectStore) (S : Request → Prop) (m₀ : Machine) (d : Digest)
    (h : List StoreEvent) (w : Link.Session Machine) (h' : List StoreEvent) : Prop where
  continues : Continues m₀ w.os
  sound : Sound st (Named b3 S) w.os.volume
  beside : Beside (st.Slot d) m₀.volume w.os.volume
  kept : ∀ d', m₀.volume.find (st.objectPath d') ≠ none →
    w.os.volume.find (st.objectPath d') ≠ none
  shares : ∀ q, ¬st.Slot d q → st.Shares w.os.volume q → st.Shares m₀.volume q
  silent : ∀ r, .stored r ∈ h' → .stored r ∈ h

variable {m₀ : Machine} {d : Digest} {h h' : List StoreEvent} {w : Link.Session Machine}
  {ok : StoreEvent → Prop}

namespace Underway

theorem start (hs : Sound st (Named b3 S) w.os.volume) : Underway b3 st S w.os d h w h :=
  ⟨.refl _, hs, .refl _, fun _ hd => hd, fun _ _ hq => hq, fun _ hr => hr⟩

theorem same (hs : Sound st (Named b3 S) m₀.volume) (hm : Continues m₀ w.os)
    (hv : w.os.volume = m₀.volume) : Underway b3 st S m₀ d h w h where
  continues := hm
  sound := hv ▸ hs
  beside := hv ▸ .refl _
  kept _ hd := hv ▸ hd
  shares _ _ hq := hv ▸ hq
  silent _ hr := hr

theorem emit (hu : Underway b3 st S m₀ d h w h') {e : StoreEvent} (he : ∀ r, e ≠ .stored r) :
    Underway b3 st S m₀ d h w (h' ++ [e]) where
  continues := hu.continues
  sound := hu.sound
  beside := hu.beside
  kept := hu.kept
  shares := hu.shares
  silent r hr := by
    rcases List.mem_append.1 hr with hr | hr
    · exact hu.silent r hr
    · exact absurd (List.mem_singleton.1 hr).symm (he r)

/-- A call that works in the staging area. -/
theorem replacing (hu : Underway b3 st S m₀ d h w h') {m : Machine} {caps : Capabilities}
    (hm : Continues w.os m) (hr : Replacing w.os.volume (st.stagingPath d) m.volume) :
    Underway b3 st S m₀ d h ⟨m, caps⟩ h' where
  continues := hu.continues.trans hm
  sound := hu.sound.replacing hr
  beside := hu.beside.trans (hr.beside.mono fun _ hq => .inl hq)
  kept d' hd' := by
    rw [hr.find_eq (st.stagingPath_ne d d').symm]
    exact hu.kept d' hd'
  shares q hq hshares := hu.shares q hq <| hshares.congr
    (hr.find_eq fun hp => hq (.inl hp)) fun d' => hr.find_eq (st.stagingPath_ne d d').symm
  silent := hu.silent

theorem calls (hu : Underway b3 st S m₀ d h w h') :
    Underway b3 st S m₀ d h { w with os := w.os.after w.os.volume } h' :=
  ⟨hu.continues.after _, hu.sound, hu.beside, hu.kept, hu.shares, hu.silent⟩

end Underway

/-- What an insert comes to. With no fault of the system it fails where it is `blocked`, and only
there. -/
def Inserted (b3 : Blake3) (st : ObjectStore) (S : Request → Prop) (m₀ : Machine) (d : Digest)
    (h : List StoreEvent) (blocked : Prop) (r : Except Stop Unit) (w : Link.Session Machine)
    (h' : List StoreEvent) : Prop :=
  Underway b3 st S m₀ d h w h' ∧ match r with
    | .ok () => w.os.volume.find (st.objectPath d) ≠ none ∧ ¬blocked
    | .error _ => m₀.Calm → blocked

theorem leads_fsync {path : Path} {R : Except Stop (Except IoError Unit) → Link.Session Machine →
      List StoreEvent → Prop}
    (hR : ∀ result, (∀ e, result = .error e → ¬w.os.Calm) →
      R (.ok result) { w with os := w.os.after w.os.volume } (h ++ [.fsync path result])) :
    Leads ok (fsync path) R w h := by
  refine leads_call_bind (acts_query (fun e hf => ?_) ?_)
  · exact leads_emit_bind fun _ => leads_pure (hR _ fun _ _ => hf)
  · exact leads_emit_bind fun _ => leads_pure (hR _ fun _ h => by cases h)

theorem syncParent_leads {path : Path} {blocked : Prop} (hu : Underway b3 st S m₀ d h w h')
    (hthere : w.os.volume.find (st.objectPath d) ≠ none ∧ ¬blocked) :
    Leads ok (syncParent st path) (Inserted b3 st S m₀ d h blocked) w h' := by
  unfold syncParent
  split_ifs
  · refine leads_call_bind (acts_query (fun e _ => ?_) ?_)
    · exact leads_pure ⟨hu.calls, hthere⟩
    · exact leads_bind (leads_fsync fun result _ =>
        leads_pure ⟨hu.calls.calls.emit (by simp), hthere⟩)
  · exact leads_pure ⟨hu, hthere⟩

theorem Underway.calm (hu : Underway b3 st S m₀ d h w h') {blocked : Prop} (hf : ¬w.os.Calm)
    (hcalm : m₀.Calm) : blocked :=
  absurd (hu.continues.calm.2 hcalm) hf

theorem Underway.mkdir (hu : Underway b3 st S m₀ d h w h') (hp : w.os.volume.Free (st.fanoutPath d))
    (he : ∀ i, Entry.dir [] = Entry.file i → i < w.os.volume.next) :
    Underway b3 st S m₀ d h
      { w with os := w.os.after (w.os.volume.put (st.fanoutPath d) (.dir []) hp he) } h' where
  continues := hu.continues.after _
  sound := hu.sound.mkdir_fanout hp he
  beside := hu.beside.trans (beside_put hp he (.inr (.inr rfl)))
  kept d' hd' := by
    show Volume.find (Volume.put _ _ _ hp he) _ ≠ none
    rw [find_put, if_neg (objectPath_ne_fanoutPath d' d)]
    exact hu.kept d' hd'
  shares q hq hshares := by
    refine hu.shares q hq (hshares.congr ?_ fun d' => ?_)
    · exact (find_put hp he).trans (if_neg fun hp => hq (.inr (.inr hp)))
    · exact (find_put hp he).trans (if_neg (objectPath_ne_fanoutPath d' d))
  silent := hu.silent

/-- The last step of a put, after which the object is there. -/
theorem rename_leads (hu : Underway b3 st S m₀ d h w h') {i : ℕ} {r : Request} (hr : S r)
    (hd : r.digest b3 = d) (hi : w.os.volume.find (st.stagingPath d) = some (.file i))
    (hcontent : (w.os.volume.inode i).content = r.content)
    (hmode : (w.os.volume.inode i).mode = objectMode)
    (hdir : w.os.volume.isDir (st.fanoutPath d) = true) {blocked : Prop} (hnot : ¬blocked) :
    Acts (Machine.rename (st.stagingPath d) (st.objectPath d)) (fun r m =>
      Underway b3 st S m₀ d h { w with os := m } h' ∧ match r with
        | .ok () => m.volume.find (st.objectPath d) ≠ none ∧ ¬blocked
        | .error _ => m₀.Calm → blocked) w.os := by
  refine acts_rename hi (hu.sound.staging_spot d) (st.stagingPath_ne d d).symm
    (hu.sound.object_free hdir) (fun e hf => ⟨hu.calls, hu.calm hf⟩) fun hp hq he => ?_
  have hfind : ∀ q, (Volume.put _ _ _ hq he).find q = if q = st.objectPath d then some (.file i)
      else if q = st.stagingPath d then none else w.os.volume.find q := fun q => by
    rw [find_put, find_erase]
  refine ⟨⟨hu.continues.after _, hu.sound.commit ⟨r, hr, hd, hcontent.symm⟩ hi hmode hp hq he,
    hu.beside.trans ((beside_erase hp (.inl rfl)).trans (beside_put hq he (.inr (.inl rfl)))),
    fun d' hd' => ?_, fun q hslot hshares => hu.shares q hslot ?_, hu.silent⟩, ?_, hnot⟩
  · show Volume.find (Volume.put _ _ _ hq he) _ ≠ none
    rw [hfind]
    split_ifs with h1 h2
    · simp
    · exact absurd h2 (st.stagingPath_ne d d').symm
    · exact hu.kept d' hd'
  · obtain ⟨d', j, hj, hobject⟩ := hshares
    have hj' : w.os.volume.find q = some (.file j) := by
      have hfound : (Volume.put _ _ _ hq he).find q = some (.file j) := hj
      rwa [hfind, if_neg fun h => hslot (.inr (.inl h)), if_neg fun h => hslot (.inl h)] at hfound
    have hobject' : (Volume.put _ _ _ hq he).find (st.objectPath d') = some (.file j) := hobject
    rw [hfind] at hobject'
    split_ifs at hobject' with h1 h2
    · -- nothing but the staging path names the inode that becomes the object
      obtain rfl : i = j := by simpa using hobject'
      exact absurd (.inl (hu.sound.staged_own d i hi q hj')) hslot
    · exact ⟨d', j, hj', hobject'⟩
  · show Volume.find (Volume.put _ _ _ hq he) _ ≠ none
    rw [hfind, if_pos rfl]
    simp

theorem commit_leads {m : Machine} {result : Except IoError Unit} {e : StoreEvent} {blocked : Prop}
    {final parent : Path} (he : ∀ r, e ≠ .stored r)
    (hend : Underway b3 st S m₀ d h { w with os := m } h' ∧ match result with
      | .ok () => m.volume.find (st.objectPath d) ≠ none ∧ ¬blocked
      | .error _ => m₀.Calm → blocked) :
    Leads ok (match result with
      | .ok () => syncParent st parent
      | .error e => do
        let _ ← call (Machine.removeFile (st.stagingPath d))
        fail (.io "commit object" final e)) (Inserted b3 st S m₀ d h blocked)
      { w with os := m } (h' ++ [e]) := by
  rcases result with e' | u
  · have hu := hend.1.emit he
    refine leads_call_bind (acts_removeFile (fun _ _ => ?_) fun hp => ?_)
    · exact leads_fail ⟨hu.calls, hend.2⟩
    · exact leads_fail ⟨hu.replacing ((Continues.refl _).after _)
        ((hu.sound.staging_spot d).replacing.erase hp), hend.2⟩
  · exact syncParent_leads (hend.1.emit he) hend.2

/-- A staging file that holds the content its digest names becomes the object. -/
theorem sealAndCommit_leads (hu : Underway b3 st S m₀ d h w h') {i : ℕ} {r : Request} (hr : S r)
    (hd : r.digest b3 = d) (hi : w.os.volume.find (st.stagingPath d) = some (.file i))
    (hcontent : (w.os.volume.inode i).content = r.content) {blocked : Prop} (hnot : ¬blocked) :
    Leads ok (sealAndCommit st d (st.stagingPath d)) (Inserted b3 st S m₀ d h blocked) w h' := by
  unfold sealAndCommit
  refine leads_call_bind (acts_query (fun e hf => ?_) ?_)
  · exact leads_check_bind (fun _ h => by cases h) fun _ _ => ⟨hu.calls, hu.calm hf⟩
  rw [hi]
  refine leads_check_bind (fun _ _ => ?_) fun _ h => by cases h
  refine leads_call_bind (acts_setPermissions (hu.sound.staging_spot d).replacing hi
    (fun e hf => ?_) fun v hrep hi' hcontent' hmode => ?_)
  · exact leads_check_bind (fun _ h => by cases h) fun _ _ => ⟨hu.calls.calls, hu.calls.calm hf⟩
  refine leads_check_bind (fun _ _ => ?_) fun _ h => by cases h
  have hu₁ : Underway b3 st S m₀ d h ⟨(w.os.after w.os.volume).after v, w.caps⟩ h' :=
    hu.replacing (((Continues.refl _).after _).after v) hrep
  obtain ⟨hne, hparent⟩ := hu₁.sound.fanout_parent d
  refine leads_call_bind (acts_createDirAll hparent hne (hu₁.sound.fanout d)
    (fun e hf => ?_) (fun hdir => ?_) fun hp he _ => ?_)
  · exact leads_check_bind (fun _ h => by cases h) fun _ _ => ⟨hu₁.calls, hu₁.calm hf⟩
  · refine leads_check_bind (fun _ _ => ?_) fun _ h => by cases h
    exact leads_call_bind ((rename_leads hu₁.calls hr hd hi' (hcontent'.trans hcontent) hmode hdir
      hnot).mono fun result m hend => leads_emit_bind fun _ =>
        commit_leads (by simp) hend)
  · refine leads_check_bind (fun _ _ => ?_) fun _ h => by cases h
    have hdir : (Volume.put _ _ _ hp he).isDir (st.fanoutPath d) = true :=
      isDir_of_find ((find_put hp he).trans (if_pos rfl))
    have hi'' : (Volume.put _ _ _ hp he).find (st.stagingPath d) = some (.file i) := by
      rw [find_put, if_neg (stagingPath_ne_fanoutPath d d)]
      exact hi'
    exact leads_call_bind ((rename_leads (hu₁.mkdir hp he) hr hd hi'' (hcontent'.trans hcontent)
      hmode hdir hnot).mono fun result m hend => leads_emit_bind fun _ =>
        commit_leads (by simp) hend)

/-- A write to a staging file that was just opened. -/
def Fills (b3 : Blake3) (st : ObjectStore) (r : Request)
    (write : ℕ → StateM Machine (Except IoError Unit)) (v₀ : Volume String) : Prop :=
  ∀ j m, Opened v₀ (st.stagingPath (r.digest b3)) j m.volume →
    Acts (write j) (fun result m' => Continues m m' ∧
      Replacing v₀ (st.stagingPath (r.digest b3)) m'.volume ∧ match result with
        | .ok () => m'.volume.find (st.stagingPath (r.digest b3)) = some (.file j) ∧
          (m'.volume.inode j).content = r.content
        | .error _ => ¬m.Calm) m

theorem fills_writeAll (r : Request) (v₀ : Volume String) :
    Fills b3 st r (fun fd => Machine.writeAll fd r.content) v₀ := by
  intro j m hopen
  refine acts_ask (fun e hf => ?_) ?_
  · exact ⟨(Continues.refl m).after _, (opened_append hopen _).1, hf⟩
  · exact ⟨(Continues.refl m).after _, opened_append hopen _⟩

theorem insertStaged_leads {r : Request} (hu : Underway b3 st S m₀ (r.digest b3) h w h') (hr : S r)
    {write : ℕ → StateM Machine (Except IoError Unit)} (hwrite : Fills b3 st r write w.os.volume)
    {blocked : Prop} (hnot : w.os.Writable (st.stagingPath (r.digest b3)) → ¬blocked)
    (hblocked : m₀.Calm → ¬w.os.Writable (st.stagingPath (r.digest b3)) → blocked) :
    Leads ok (insertStaged st (r.digest b3) write) (Inserted b3 st S m₀ (r.digest b3) h blocked)
      w h' := by
  unfold insertStaged
  refine leads_call_bind (acts_openWrite (hu.sound.staging_spot _).replacing (fun e hf => ?_)
    fun j v hopen hw => ?_)
  · exact leads_check_bind (fun _ h => by cases h) fun _ _ =>
      ⟨hu.calls, fun hcalm => hblocked hcalm (hf (hu.continues.calm.2 hcalm))⟩
  refine leads_check_bind (fun fd hfd => ?_) fun _ h => by cases h
  obtain rfl : j = fd := by simpa using hfd
  refine leads_call_bind ((hwrite j (w.os.after v) hopen).mono ?_)
  rintro result m ⟨hcont, hrep, hresult⟩
  have hu₁ : Underway b3 st S m₀ (r.digest b3) h ⟨m, w.caps⟩ h' :=
    hu.replacing (((Continues.refl w.os).after v).trans hcont) hrep
  refine leads_emit_bind fun _ => ?_
  have hu₂ := hu₁.emit (e := .write (st.stagingPath (r.digest b3)) result) (by simp)
  rcases result with e | u
  · exact leads_check_bind (fun _ h => by cases h) fun _ _ =>
      ⟨hu₂, fun hcalm => absurd (hu.continues.calm.2 hcalm) hresult⟩
  refine leads_check_bind (fun _ _ => ?_) fun _ h => by cases h
  refine leads_bind ?_
  unfold syncStaged
  split_ifs
  · refine leads_bind (leads_fsync fun result hf => ?_)
    have hu₃ := hu₂.calls.emit (e := .fsync (st.stagingPath (r.digest b3)) result) (by simp)
    refine leads_check (fun _ _ => ?_) fun e he => ⟨hu₃, hu₁.calm (hf e he)⟩
    exact sealAndCommit_leads hu₃ hr rfl hresult.1 hresult.2 (hnot hw)
  · exact leads_pure (sealAndCommit_leads hu₂ hr rfl hresult.1 hresult.2 (hnot hw))

end Puts

section Served

/-- What an operation leaves behind that only adds to the store: outside of `own` nothing changed,
and what a put answered for is there. -/
structure Served (b3 : Blake3) (st : ObjectStore) (S : Request → Prop) (own : Path → Prop)
    (m₀ : Machine) (h : List StoreEvent) (w : Link.Session Machine) (h' : List StoreEvent) :
    Prop where
  continues : Continues m₀ w.os
  sound : Sound st (Named b3 S) w.os.volume
  beside : Beside own m₀.volume w.os.volume
  kept : ∀ d, m₀.volume.find (st.objectPath d) ≠ none → w.os.volume.find (st.objectPath d) ≠ none
  shares : ∀ q, ¬own q → st.Shares w.os.volume q → st.Shares m₀.volume q
  stored : ∀ r, .stored r ∈ h' → .stored r ∈ h ∨
    S r ∧ w.os.volume.find (st.objectPath (r.digest b3)) ≠ none

variable {m₀ m₁ : Machine} {d : Digest} {h h' h'' : List StoreEvent} {w w' : Link.Session Machine}
  {ok : StoreEvent → Prop} {own : Path → Prop}

namespace Served

theorem start (hs : Sound st (Named b3 S) w.os.volume) : Served b3 st S own w.os h w h :=
  ⟨.refl _, hs, .refl _, fun _ hd => hd, fun _ _ hq => hq, fun _ hr => .inl hr⟩

theorem trans (hs : Served b3 st S own m₀ h w h') (hs' : Served b3 st S own w.os h' w' h'') :
    Served b3 st S own m₀ h w' h'' where
  continues := hs.continues.trans hs'.continues
  sound := hs'.sound
  beside := hs.beside.trans hs'.beside
  kept d hd := hs'.kept d (hs.kept d hd)
  shares q hq hshares := hs.shares q hq (hs'.shares q hq hshares)
  stored r hr := by
    rcases hs'.stored r hr with hr' | hr'
    · exact (hs.stored r hr').imp_right (.imp_right (hs'.kept _))
    · exact .inr hr'

theorem mono {own' : Path → Prop} (hs : Served b3 st S own m₀ h w h')
    (hown : ∀ q, own q → own' q) : Served b3 st S own' m₀ h w h' :=
  ⟨hs.continues, hs.sound, hs.beside.mono hown, hs.kept,
    fun q hq => hs.shares q fun ho => hq (hown q ho), hs.stored⟩

theorem of_underway (hu : Underway b3 st S m₀ d h w h') : Served b3 st S (st.Slot d) m₀ h w h' :=
  ⟨hu.continues, hu.sound, hu.beside, hu.kept, hu.shares, fun r hr => .inl (hu.silent r hr)⟩

/-- An event that says nothing is stored but what is there. -/
theorem emit (hs : Served b3 st S own m₀ h w h') {e : StoreEvent}
    (he : ∀ r, e = .stored r → S r ∧ w.os.volume.find (st.objectPath (r.digest b3)) ≠ none) :
    Served b3 st S own m₀ h w (h' ++ [e]) where
  continues := hs.continues
  sound := hs.sound
  beside := hs.beside
  kept := hs.kept
  shares := hs.shares
  stored r hr := by
    rcases List.mem_append.1 hr with hr | hr
    · exact hs.stored r hr
    · exact .inr (he r (List.mem_singleton.1 hr).symm)

theorem calls (hs : Served b3 st S own m₀ h w h') :
    Served b3 st S own m₀ h { w with os := w.os.after w.os.volume } h' :=
  ⟨hs.continues.after _, hs.sound, hs.beside, hs.kept, hs.shares, hs.stored⟩

theorem calm (hs : Served b3 st S own m₀ h w h') {P : Prop} (hf : ¬w.os.Calm) (hcalm : m₀.Calm) :
    P :=
  absurd (hs.continues.calm.2 hcalm) hf

end Served

/-- Where a put of this digest goes through: its object is there, or its staging file may be
written. -/
def Ready (st : ObjectStore) (m : Machine) (d : Digest) : Prop :=
  m.volume.find (st.objectPath d) ≠ none ∨ m.Writable (st.stagingPath d)

/-- The check for an object, which can only find too little. -/
theorem leads_has_bind {β : Type} {k : Bool → Storing β}
    {R : Except Stop β → Link.Session Machine → List StoreEvent → Prop}
    (hs : Sound st (Named b3 S) w.os.volume)
    (hk : ∀ b, (b = true → w.os.volume.find (st.objectPath d) ≠ none) →
      (w.os.Calm → b = false → w.os.volume.find (st.objectPath d) = none) →
      Leads ok (k b) R { w with os := w.os.after w.os.volume } h) :
    Leads ok (has st d >>= k) R w h := by
  refine leads_call_bind (acts_pathExists fun b hb hcalm => hk b hb fun hc hfalse => ?_)
  by_contra hne
  obtain ⟨e, he⟩ := Option.ne_none_iff_exists'.1 hne
  obtain ⟨i, rfl, -⟩ := hs.object d e he
  rw [hcalm hc i he] at hfalse
  cases hfalse

/-- `put_bytes` and `put_tree`. -/
theorem putContent_leads (hs : Sound st (Named b3 S) w.os.volume) {r : Request}
    (hok : ok (.put r) → S r) :
    Leads ok (putContent b3 st r) (fun res w' h' =>
      Served b3 st S (st.Slot (r.digest b3)) w.os h w' h' ∧ match res with
        | .ok d => d = r.digest b3 ∧ S r ∧ w'.os.volume.find (st.objectPath d) ≠ none ∧
          Ready st w.os d ∧ .stored r ∈ h'
        | .error _ => w.os.Calm → ¬Ready st w.os (r.digest b3)) w h := by
  unfold putContent
  refine leads_emit_bind fun hput => leads_has_bind hs fun b hb hnone => ?_
  have hr := hok hput
  have hu : Underway b3 st S w.os (r.digest b3) h { w with os := w.os.after w.os.volume }
      (h ++ [.put r]) := (Underway.start hs).calls.emit (by simp)
  rcases b with _ | _
  · rw [if_neg (by simp)]
    refine leads_bind ((insertStaged_leads hu hr (fills_writeAll r _) (fun hw hn => hn hw)
      (fun _ (hn : ¬w.os.Writable (st.stagingPath (r.digest b3))) => hn)).mono ?_)
    rintro (e | u) w' h' ⟨hu', hres⟩
    · refine ⟨.of_underway hu', fun hcalm hready => ?_⟩
      rcases hready with hthere | hw
      · exact hthere (hnone hcalm rfl)
      · exact hres hcalm hw
    · refine leads_emit_bind fun _ => leads_pure ⟨(Served.of_underway hu').emit ?_, rfl, hr,
        hres.1, .inr (not_not.1 hres.2), List.mem_append_right _ (List.mem_singleton_self _)⟩
      rintro _ ⟨rfl⟩
      exact ⟨hr, hres.1⟩
  · rw [if_pos rfl]
    refine leads_emit_bind fun _ => leads_pure ⟨(Served.of_underway hu).emit ?_, rfl, hr, hb rfl,
      .inl (hb rfl), List.mem_append_right _ (List.mem_singleton_self _)⟩
    rintro _ ⟨rfl⟩
    exact ⟨hr, hb rfl⟩

/-- However a put ends, it leaves a store. -/
theorem Sound.after_put (hs : Sound st (Named b3 S) w.os.volume) {r : Request} (hr : S r) :
    Sound st (Named b3 S) (putContent b3 st r w).world.os.volume := by
  have hleads : Leads (fun _ => True) (putContent b3 st r) _ w [] := putContent_leads hs fun _ => hr
  exact hleads.outcome.1.sound

section Files

variable {path : Path} {i : ℕ}

theorem leads_openFile_bind {β : Type} {op : String} {k : ℕ → Storing β}
    {R : Except Stop β → Link.Session Machine → List StoreEvent → Prop}
    (hi : w.os.volume.find path = some (.file i))
    (hok : Leads ok (k i) R { w with os := w.os.after w.os.volume } h)
    (herror : ∀ e, ¬w.os.Calm → R (.error e) { w with os := w.os.after w.os.volume } h) :
    Leads ok (call (Machine.openFile path) >>= fun r => check op path r >>= k) R w h := by
  refine leads_call_bind (acts_query (fun e hf => ?_) ?_)
  · exact leads_check_bind (fun _ h => by cases h) fun _ _ => herror _ hf
  · rw [fileAt_eq_ok hi]
    refine leads_check_bind (fun fd hfd => ?_) fun _ h => by cases h
    obtain rfl : i = fd := by simpa using hfd
    exact hok

/-- What is hashed is the content of the file. -/
theorem hashFile_leads (hi : w.os.volume.find path = some (.file i)) (size : ℕ)
    {R : Except Stop Hasher → Link.Session Machine → List StoreEvent → Prop}
    (hR : ∀ r n, (match r with
      | .ok hasher => n = hashCalls size ∧ hasher.fed = (w.os.volume.inode i).content ∧
        hasher.finalize b3 = blobDigest b3 (w.os.volume.inode i).content
      | .error _ => ¬w.os.Calm) → R r { w with os := w.os.later n } h) :
    Leads ok (hashFile b3 path size) R w h := by
  unfold hashFile
  split_ifs with hsmall
  · have hcalls : 1 = hashCalls size := (if_pos hsmall).symm
    refine leads_call_bind (acts_query (fun e hf => ?_) ?_)
    · exact leads_check_bind (fun _ h => by cases h) fun _ _ => hR _ 1 hf
    · refine leads_check_bind (fun bytes hbytes => ?_) fun e he => ?_
      · rw [readable, fileAt_eq_ok hi] at hbytes
        cases hbytes
        exact leads_pure (hR _ 1 ⟨hcalls, List.nil_append _, rfl⟩)
      · rw [readable, fileAt_eq_ok hi] at he
        cases he
  · have hcalls : 2 = hashCalls size := (if_neg hsmall).symm
    refine leads_openFile_bind hi ?_ fun e hf => hR _ 1 hf
    refine leads_call_bind (acts_query (fun e hf => ?_) ?_)
    · exact leads_check_bind (fun _ h => by cases h) fun _ _ => hR _ 2 hf
    · refine leads_check_bind (fun chunks hchunks => ?_) fun e he => by cases he
      have hflat : chunks.flatten = (w.os.volume.inode i).content := by
        rw [← Except.ok.inj hchunks]
        exact Moment.cut_flatten _ _
      refine leads_pure (hR _ 2 ⟨hcalls, ?_⟩)
      rw [Hasher.foldl_update, hflat]
      exact ⟨List.nil_append _, rfl⟩

theorem fills_copyAll {r : Request} {v₀ : Volume String} (hi : v₀.find path = some (.file i))
    (hr : (v₀.inode i).content = r.content) (hne : path ≠ st.stagingPath (r.digest b3)) :
    Fills b3 st r (Machine.copyAll i) v₀ := by
  intro j m hopen
  have hsrc : (m.volume.inode i).content = r.content := by
    rw [hopen.replacing.inode_eq hne hi, hr]
  refine acts_ask (fun e hf => ?_) ?_
  · exact ⟨(Continues.refl m).after _, (opened_append hopen _).1, hf⟩
  · rw [hsrc]
    exact ⟨(Continues.refl m).after _, opened_append hopen _⟩

/-- Whichever way the content of a file takes to its object, it gets there or a call fails. -/
theorem placeContent_leads {r : Request} (hu : Underway b3 st S m₀ (r.digest b3) h w h') (hr : S r)
    (hi : w.os.volume.find path = some (.file i)) (hcontent : (w.os.volume.inode i).content = r.content)
    (hpath : ¬st.Inside path) :
    Leads ok (placeContent st path (r.digest b3)) (Inserted b3 st S m₀ (r.digest b3) h False)
      w h' := by
  have hne : path ≠ st.stagingPath (r.digest b3) := fun hp =>
    hpath (hp ▸ slot_inside (.inl rfl))
  unfold placeContent
  refine leads_act_bind ((Link.materialize_ends hi hne (hu.sound.staging_spot _) rfl).mono ?_)
  rintro (e | mode) w₁ ⟨hcont, hres⟩
  · have hu₁ : Underway b3 st S m₀ (r.digest b3) h w₁ h' := hu.replacing hcont hres.1
    have hfault : ∀ {P : Prop}, m₀.Calm → P := fun hcalm =>
      absurd (hu.continues.calm.2 hcalm) hres.2
    refine leads_emit_bind fun _ => ?_
    have hu₂ := hu₁.emit (e := .place (st.stagingPath (r.digest b3)) (.error e)) (by simp)
    have hfall : ∀ v, Replacing w.os.volume (st.stagingPath (r.digest b3)) v → Leads ok (do
        let src ← check "open for ingest" path (← call (Machine.openFile path))
        insertStaged st (r.digest b3) (Machine.copyAll src))
        (Inserted b3 st S m₀ (r.digest b3) h False) { w₁ with os := w₁.os.after v }
        (h' ++ [.place (st.stagingPath (r.digest b3)) (.error e)]) := by
      intro v hrep
      have hu₃ : Underway b3 st S m₀ (r.digest b3) h { w₁ with os := w₁.os.after v }
          (h' ++ [.place (st.stagingPath (r.digest b3)) (.error e)]) :=
        (hu.emit (by simp)).replacing (hcont.after v) hrep
      have hi₃ : v.find path = some (.file i) := (hrep.find_eq hne).trans hi
      have hcontent₃ : (v.inode i).content = r.content := by
        rw [hrep.inode_eq hne hi, hcontent]
      refine leads_openFile_bind hi₃ ?_ fun _ _ => ⟨hu₃.calls, hfault⟩
      exact insertStaged_leads hu₃.calls hr (fills_copyAll hi₃ hcontent₃ hne) (fun _ h => h)
        fun hcalm _ => hfault hcalm
    refine leads_call_bind (acts_removeFile (fun _ _ => ?_) fun hp => ?_)
    · exact hfall _ hres.1
    · exact hfall _ (hres.1.erase hp)
  · obtain ⟨j, hj, hcontent', -⟩ := hres.file
    have hmode : mode ≠ .hardlink := fun hmode => by cases hres.shared hmode
    have hu₁ : Underway b3 st S m₀ (r.digest b3) h w₁ h' :=
      hu.replacing hcont ⟨hres.beside, hres.own hmode⟩
    refine leads_emit_bind fun _ => ?_
    exact sealAndCommit_leads (hu₁.emit (by simp)) hr rfl hj (hcontent'.trans hcontent) id

/-- What `put_file` comes to. It fails without a fault only where there is no file. -/
def PutFileEnds (b3 : Blake3) (st : ObjectStore) (S : Request → Prop) (path : Path)
    (w : Link.Session Machine) (h : List StoreEvent) (r : Except Stop (Digest × ℕ))
    (w' : Link.Session Machine) (h' : List StoreEvent) : Prop :=
  ∃ d, Served b3 st S (st.Slot d) w.os h w' h' ∧ match r with
    | .ok (d', size) => d' = d ∧ w'.os.volume.find (st.objectPath d) ≠ none ∧
      ∃ i, w.os.volume.find path = some (.file i) ∧ S (.bytes (w.os.volume.inode i).content) ∧
        d = blobDigest b3 (w.os.volume.inode i).content ∧
        size = (w.os.volume.inode i).content.length ∧
        .stored (.bytes (w.os.volume.inode i).content) ∈ h'
    | .error _ => w.os.Calm → ∀ i, w.os.volume.find path ≠ some (.file i)

/-- `put_file` of a path outside of the store. -/
theorem putFile_leads (hs : Sound st (Named b3 S) w.os.volume) (hok : ∀ r, ok (.put r) → S r)
    (hpath : ¬st.Inside path) :
    Leads ok (putFile b3 st path) (PutFileEnds b3 st S path w h) w h := by
  unfold putFile
  have hcont := (Continues.refl w.os).after w.os.volume
  have hno : ∀ m e, Continues w.os m → m.volume = w.os.volume →
      (w.os.Calm → ∀ i, w.os.volume.find path ≠ some (.file i)) →
      PutFileEnds b3 st S path w h (.error e) { w with os := m } h := fun m e hm hv hf =>
    ⟨blobDigest b3 [], .of_underway (Underway.same hs hm hv), hf⟩
  refine leads_call_bind (acts_query (fun e hf => ?_) ?_)
  · exact leads_check_bind (fun _ h => by cases h) fun _ _ =>
      hno _ _ hcont rfl fun hcalm => absurd hcalm hf
  rcases hfind : w.os.volume.find path with _ | e
  · exact leads_check_bind (fun _ h => by cases h) fun _ _ => hno _ _ hcont rfl fun _ i hi => by
      rw [hfind] at hi
      cases hi
  refine leads_check_bind (fun stat hstat => ?_) fun _ h => by cases h
  obtain rfl := Except.ok.inj hstat
  split_ifs with hfile
  · refine leads_fail (hno _ _ hcont rfl fun _ i hi => hfile ?_)
    obtain rfl := Option.some.inj (hfind.symm.trans hi)
    rfl
  obtain ⟨i, rfl⟩ : ∃ i, e = .file i := by
    rcases e with i | _ | _ | _
    · exact ⟨i, rfl⟩
    all_goals exact absurd hfile (by simp [metadataOf])
  refine leads_bind (hashFile_leads (w := { w with os := w.os.after w.os.volume }) hfind _ ?_)
  intro r n hres
  have hcont' : Continues w.os ((w.os.after w.os.volume).later n) := ⟨rfl, rfl⟩
  have hv : ((w.os.after w.os.volume).later n).volume = w.os.volume := rfl
  generalize (w.os.after w.os.volume).later n = m at hcont' hv ⊢
  rcases r with e | hasher
  · exact hno _ _ hcont' hv fun hcalm => absurd hcalm hres
  replace hres := hres.2
  have hfed : hasher.fed = (w.os.volume.inode i).content := hres.1
  have hdigest : hasher.finalize b3 = blobDigest b3 (w.os.volume.inode i).content := hres.2
  refine leads_emit_bind fun hput => ?_
  have hr : S (.bytes (w.os.volume.inode i).content) := by
    rw [← hfed]
    exact hok _ hput
  have hd : hasher.finalize b3 = (Request.bytes hasher.fed).digest b3 := by
    rw [hdigest, hfed]
    rfl
  have hu : Underway b3 st S w.os (hasher.finalize b3) h { w with os := m }
      (h ++ [.put (.bytes hasher.fed)]) :=
    (Underway.same hs hcont' hv).emit (by simp)
  have hdone : ∀ {w' h'}, Underway b3 st S w.os (hasher.finalize b3) h w' h' →
      w'.os.volume.find (st.objectPath (hasher.finalize b3)) ≠ none →
      Leads ok (do
        emit (.stored (.bytes hasher.fed))
        pure (hasher.finalize b3, (metadataOf w.os.volume (.file i)).len))
        (PutFileEnds b3 st S path w h) w' h' := by
    intro w' h' hu' hthere
    have hstored : StoreEvent.stored (.bytes (w.os.volume.inode i).content) ∈
        h' ++ [.stored (.bytes hasher.fed)] := by
      rw [← hfed]
      exact List.mem_append_right _ (List.mem_singleton_self _)
    refine leads_emit_bind fun _ => leads_pure ⟨_, (Served.of_underway hu').emit ?_, rfl, hthere, i,
      hfind, hr, hdigest, rfl, hstored⟩
    rintro _ ⟨rfl⟩
    rw [← hd]
    exact ⟨hfed ▸ hr, hthere⟩
  refine leads_has_bind (w := { w with os := m }) hu.sound fun b hb _ => ?_
  rcases b with _ | _
  · rw [if_neg (by simp)]
    have hi : m.volume.find path = some (.file i) := by rw [hv, hfind]
    have hcontent : (m.volume.inode i).content = (Request.bytes hasher.fed).content := by
      rw [hv]
      exact hfed.symm
    rw [hd] at hu ⊢
    refine leads_bind ((placeContent_leads hu.calls (by rwa [hfed]) hi hcontent hpath).mono ?_)
    rintro (e | u) w' h' ⟨hu', hres⟩
    · exact ⟨_, .of_underway hu', fun hcalm => (hres hcalm).elim⟩
    · rw [← hd] at hu' hres ⊢
      exact hdone hu' hres.1
  · rw [if_pos rfl]
    exact hdone hu.calls (hb rfl)

end Files

end Served

end Storing

end Jetrun
