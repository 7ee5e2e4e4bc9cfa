import Jetrun.Manifest
import Jetrun.Proofs.Tree

/-!
# Trees and their bytes are not one to one

Two trees with the same bytes are the same tree if the casts dropped the same of both. Bytes that
decode are the bytes of the tree they decode to if they are canonical. Neither is checked.
-/

namespace Jetrun

namespace Reader

theorem take_ok {r r' bytes : List UInt8} {n : ℕ} (h : take r n = .ok (bytes, r')) :
    r = bytes ++ r' ∧ bytes.length = n := by
  unfold take at h
  split_ifs at h with hn
  cases h
  exact ⟨(List.take_append_drop n r).symm, List.length_take_of_le hn⟩

theorem number_ok {r r' : Reader} {width n : ℕ} (h : number r width = .ok (n, r')) :
    r = LittleEndian.toLe width n ++ r' ∧ n < 256 ^ width := by
  unfold number at h
  rcases ht : take r width with e | ⟨bytes, r''⟩
  · rw [ht] at h
    cases h
  · rw [ht] at h
    cases h
    obtain ⟨hr, rfl⟩ := take_ok ht
    exact ⟨by rw [LittleEndian.toLe_ofLe, hr], LittleEndian.ofLe_lt bytes⟩

theorem text_ok {r r' : Reader} {n : ℕ} {s : String} (h : text r n = .ok (s, r')) :
    r = Utf8.encode s ++ r' ∧ (Utf8.encode s).length = n := by
  unfold text at h
  rcases ht : take r n with e | ⟨bytes, r''⟩
  · rw [ht] at h
    cases h
  · rw [ht] at h
    simp only [bind, Except.bind] at h
    split at h
    · next hs =>
      cases h
      obtain ⟨hr, hn⟩ := take_ok ht
      rw [Utf8.encode_of_decode hs]
      exact ⟨hr, hn⟩
    · cases h

theorem digest_ok {r r' : Reader} {d : Digest} (h : digest r = .ok (d, r')) :
    r = d.bytes ++ r' := by
  unfold digest at h
  rcases ht : take r digestLen with e | ⟨bytes, r''⟩
  · rw [ht] at h
    cases h
  · rw [ht] at h
    simp only [bind, Except.bind, Digest.fromBytes, dif_pos (take_ok ht).2] at h
    cases h
    exact (take_ok ht).1

end Reader

namespace Tree

section Injective

/-- Text behind its length, among texts of whose length the cast drops the same. -/
theorem text_delimits : Delimiting.Delimits
    (fun s s' => (Utf8.encode s).length / 256 ^ 2 = (Utf8.encode s').length / 256 ^ 2)
    (Delimiting.prefixed (LittleEndian.toLe 2) ∘ Utf8.encode) :=
  (LittleEndian.toLe_delimits 2).prefixed.comp Utf8.encode fun _ _ => Utf8.encode_inj

theorem flag_inj {x x' : Bool}
    (h : UInt8.ofNat (if x then flagExecutable else 0) = UInt8.ofNat (if x' then flagExecutable else 0)) :
    x = x' := by
  revert h
  cases x <;> cases x' <;> decide

theorem payload_append_inj {n n' : Node} {r r' : List UInt8} (htag : n.tag = n'.tag)
    (hover : overflow n = overflow n') (h : n.payload ++ r = n'.payload ++ r') :
    n = n' ∧ r = r' := by
  cases n with
  | file d size x =>
    cases n' with
    | file d' size' x' =>
      unfold Node.payload at h
      simp only [List.append_assoc] at h
      obtain ⟨hd, h⟩ := List.append_inj h (d.length_bytes.trans d'.length_bytes.symm)
      obtain ⟨hsize, h⟩ := List.append_inj h (by simp)
      obtain ⟨hflag, hr⟩ := List.append_inj h rfl
      have hnat := LittleEndian.toLe_inj size.toNat_lt size'.toNat_lt hsize
      rw [Digest.ext_bytes hd, UInt64.toNat_inj.1 hnat, flag_inj (List.singleton_inj.1 hflag)]
      exact ⟨rfl, hr⟩
    | dir => exact absurd htag (show tagFile ≠ tagDir by decide)
    | symlink => exact absurd htag (show tagFile ≠ tagSymlink by decide)
  | dir d =>
    cases n' with
    | file => exact absurd htag (show tagDir ≠ tagFile by decide)
    | dir d' =>
      obtain ⟨hd, hr⟩ := List.append_inj h (d.length_bytes.trans d'.length_bytes.symm)
      rw [Digest.ext_bytes hd]
      exact ⟨rfl, hr⟩
    | symlink => exact absurd htag (show tagDir ≠ tagSymlink by decide)
  | symlink target =>
    cases n' with
    | file => exact absurd htag (show tagSymlink ≠ tagFile by decide)
    | dir => exact absurd htag (show tagSymlink ≠ tagDir by decide)
    | symlink target' =>
      obtain ⟨rfl, hr⟩ := text_delimits _ _ _ _ hover h
      exact ⟨rfl, hr⟩

theorem encodeEntry_delimits :
    Delimiting.Delimits (fun e e' => overflow e.2 = overflow e'.2) encodeEntry := by
  intro e e' r r' hover h
  unfold encodeEntry at h
  rw [List.cons_append, List.cons_append, List.cons.injEq, List.append_assoc _ e.2.payload,
    List.append_assoc _ e'.2.payload] at h
  obtain ⟨htag, h⟩ := h
  have hname : ∀ n : EntryName, (Utf8.encode n.text).length / 256 ^ 2 = 0 := fun n =>
    Nat.div_eq_of_lt (lt_of_le_of_lt n.short (by decide))
  obtain ⟨hn, h⟩ := text_delimits _ _ _ _ ((hname e.1).trans (hname e'.1).symm) h
  have htag' : e.2.tag = e'.2.tag := by
    have := congrArg UInt8.toNat htag
    simpa [Nat.mod_eq_of_lt (tag_lt _)] using this
  obtain ⟨hnode, hr⟩ := payload_append_inj htag' hover h
  exact ⟨Prod.ext (EntryName.ext_text hn) hnode, hr⟩

theorem ext_iter {t t' : Tree} (h : t.iter = t'.iter) : t = t' := by
  obtain ⟨⟨es, hs⟩⟩ := t
  obtain ⟨⟨es', hs'⟩⟩ := t'
  obtain rfl : es = es' := h
  rfl

theorem encode_eq (t : Tree) : t.encode = LittleEndian.toLe 2 treeFormatVersion
    ++ (LittleEndian.toLe 4 t.iter.length ++ t.iter.flatMap encodeEntry) :=
  List.append_assoc _ _ _

/-- Trees with the same bytes are equal if the casts dropped the same of both, and only then. -/
theorem encode_inj_iff {t t' : Tree} (h : t.encode = t'.encode) :
    t = t' ↔ t.overflows = t'.overflows := by
  constructor
  · rintro rfl
    rfl
  · intro hover
    rw [encode_eq, encode_eq] at h
    have hentries := List.append_inj_right (List.append_inj_right h rfl) (by simp)
    have hne : ∀ e, encodeEntry e ≠ [] := fun _ => List.cons_ne_nil _ _
    exact ext_iter (encodeEntry_delimits.flatMap_inj hne
      (Delimiting.forall_zip_of_map_eq hover) hentries)

end Injective

section Canonical

/-- What follows the name in an entry of a manifest, with `flags` for those of a file. -/
def payloadWith (flags : UInt8) : Node → List UInt8
  | .file digest size _ => digest.bytes ++ LittleEndian.toLe 8 size.toNat ++ [flags]
  | node => node.payload

/-- An entry of a manifest, with `flags` for those of a file. -/
def entryWith (flags : UInt8) (e : EntryName × Node) : List UInt8 :=
  UInt8.ofNat e.2.tag :: (LittleEndian.toLe 2 (Utf8.encode e.1.text).length
    ++ Utf8.encode e.1.text ++ payloadWith flags e.2)

/-- The flags a node reads from a byte. -/
def Reads (flags : UInt8) : Node → Prop
  | .file _ _ executable => executable = decide (flags.toNat &&& flagExecutable ≠ 0)
  | _ => True

theorem decodeNode_ok {tag : ℕ} {r r' : Reader} {node : Node}
    (h : decodeNode tag r = .ok (node, r')) :
    ∃ flags, tag = node.tag ∧ r = payloadWith flags node ++ r' ∧ NodeFits node ∧ Reads flags node := by
  unfold decodeNode at h
  split_ifs at h with h1 h2 h3
  · obtain ⟨⟨d, r1⟩, hd, h⟩ := Except.eq_ok_of_bind h
    obtain ⟨⟨size, r2⟩, hsize, h⟩ := Except.eq_ok_of_bind h
    obtain ⟨⟨flags, r3⟩, hflags, h⟩ := Except.eq_ok_of_bind h
    cases h
    obtain ⟨rfl, hlt⟩ := Reader.number_ok hsize
    obtain ⟨rfl, hf⟩ := Reader.number_ok hflags
    have hn : (UInt64.ofNat size).toNat = size := Nat.mod_eq_of_lt hlt
    have hflag : (UInt8.ofNat flags).toNat = flags := Nat.mod_eq_of_lt hf
    refine ⟨UInt8.ofNat flags, h1, ?_, trivial, ?_⟩
    · rw [Reader.digest_ok hd, payloadWith, hn]
      simp [LittleEndian.toLe, Nat.mod_eq_of_lt (show flags < 256 from hf)]
    · unfold Reads
      rw [hflag]
  · obtain ⟨⟨d, r1⟩, hd, h⟩ := Except.eq_ok_of_bind h
    cases h
    exact ⟨0, h2, Reader.digest_ok hd, trivial, trivial⟩
  · obtain ⟨⟨n, r1⟩, hn, hrest⟩ := Except.eq_ok_of_bind h
    obtain ⟨⟨target, r2⟩, htarget, hnode⟩ := Except.eq_ok_of_bind hrest
    have hempty : target ≠ "" := by
      rintro rfl
      cases hnode
    simp only [if_neg hempty] at hnode
    cases hnode
    obtain ⟨rfl, hlt⟩ := Reader.number_ok hn
    obtain ⟨rfl, rfl⟩ := Reader.text_ok htarget
    exact ⟨0, h3, by simp [payloadWith, Node.payload], ⟨hempty, hlt⟩, trivial⟩

/-- The bytes an entry is read from. -/
theorem decodeEntry_ok {r r' : Reader} {e : EntryName × Node} (h : decodeEntry r = .ok (e, r')) :
    ∃ flags, r = entryWith flags e ++ r' ∧ NodeFits e.2 ∧ Reads flags e.2 := by
  unfold decodeEntry at h
  obtain ⟨⟨tag, r1⟩, htag, h⟩ := Except.eq_ok_of_bind h
  obtain ⟨⟨len, r2⟩, hlen, h⟩ := Except.eq_ok_of_bind h
  obtain ⟨⟨text, r3⟩, htext, h⟩ := Except.eq_ok_of_bind h
  obtain ⟨name, hname, h⟩ := Except.eq_ok_of_bind h
  obtain ⟨⟨node, r4⟩, hnode, h⟩ := Except.eq_ok_of_bind h
  cases h
  obtain ⟨flags, rfl, rfl, hfits, hreads⟩ := decodeNode_ok hnode
  obtain ⟨rfl, hlt⟩ := Reader.number_ok htag
  obtain ⟨rfl, -⟩ := Reader.number_ok hlen
  obtain ⟨rfl, rfl⟩ := Reader.text_ok htext
  refine ⟨flags, ?_, hfits, hreads⟩
  simp [entryWith, EntryName.text_of_new hname, LittleEndian.toLe, Nat.mod_eq_of_lt (tag_lt node)]

/-- The entries a manifest is read from, each with its flags. They stand as they are read, and
distinct ones that come in order stay in this order. -/
theorem decodeEntries_ok : ∀ {count : ℕ} {r r' : Reader} {m m' : SortedMap EntryName Node},
    decodeEntries count r m = .ok (m', r') → ∃ es : List (UInt8 × (EntryName × Node)),
      es.length = count ∧ r = es.flatMap (fun e => entryWith e.1 e.2) ++ r'
        ∧ (∀ e ∈ es, NodeFits e.2.2 ∧ Reads e.1 e.2.2)
        ∧ m'.entries.length = m.entries.length + count
        ∧ (∀ e ∈ m'.entries, e ∈ m.entries ∨ e ∈ es.map Prod.snd)
        ∧ ((m.entries ++ es.map Prod.snd).Pairwise (fun a b => a.1 < b.1) →
            m'.entries = m.entries ++ es.map Prod.snd)
  | 0, r, r', m, m', h => by
    cases h
    exact ⟨[], rfl, rfl, by simp, rfl, fun _ he => .inl he, fun _ => by simp⟩
  | count + 1, r, r', m, m', h => by
    unfold decodeEntries at h
    obtain ⟨⟨⟨name, node⟩, r1⟩, hentry, hrest⟩ := Except.eq_ok_of_bind h
    simp only [bind, Except.bind] at hrest
    split_ifs at hrest with hnew
    obtain ⟨flags, rfl, hfits, hreads⟩ := decodeEntry_ok hentry
    obtain ⟨es, hlen, rfl, hes, hcount, hmem, hsorted⟩ := decodeEntries_ok hrest
    have hinsert : (m.insert name node).entries.length = m.entries.length + 1 :=
      SortedMap.length_insertEntry hnew
    refine ⟨(flags, name, node) :: es, by rw [List.length_cons, hlen], by simp, ?_, ?_, ?_,
      fun hs => ?_⟩
    · rintro e he
      rcases List.mem_cons.1 he with rfl | he
      · exact ⟨hfits, hreads⟩
      · exact hes e he
    · rw [hcount, hinsert]
      omega
    · intro e he
      rcases hmem e he with he | he
      · rcases SortedMap.mem_insertEntry he with rfl | he
        · exact .inr List.mem_cons_self
        · exact .inl he
      · exact .inr (List.mem_cons_of_mem _ he)
    · have hlast : ∀ a ∈ m.entries, a.1 < name := fun a ha =>
        (List.pairwise_append.1 hs).2.2 a ha (name, node) List.mem_cons_self
      have hins := SortedMap.entries_insert_last (v := node) hlast
      rw [hins, List.append_assoc] at hsorted
      exact hsorted hs

/-- What the decoder did not look at: the order of the entries, and all but a bit of each flags. -/
theorem decode_ok {b : List UInt8} {t : Tree} (h : decode b = .ok t) :
    ∃ es : List (UInt8 × (EntryName × Node)), es.length < 256 ^ 4
      ∧ b = LittleEndian.toLe 2 treeFormatVersion
        ++ (LittleEndian.toLe 4 es.length ++ es.flatMap fun e => entryWith e.1 e.2)
      ∧ (∀ e ∈ es, NodeFits e.2.2 ∧ Reads e.1 e.2.2) ∧ t.iter.length = es.length
      ∧ (∀ e ∈ t.iter, e ∈ es.map Prod.snd)
      ∧ ((es.map Prod.snd).Pairwise (fun a b => a.1 < b.1) → t.iter = es.map Prod.snd) := by
  unfold decode at h
  obtain ⟨⟨version, r1⟩, hversion, hv⟩ := Except.eq_ok_of_bind h
  have hone : version = treeFormatVersion := by
    by_contra hne
    simp only [if_pos hne] at hv
    cases hv
  simp only [hone, ne_eq, not_true_eq_false, if_false] at hv
  obtain ⟨⟨count, r2⟩, hcount, hc⟩ := Except.eq_ok_of_bind hv
  simp only [] at hc
  split_ifs at hc with hshort
  · cases hc
  obtain ⟨⟨m, r3⟩, hentries, hm⟩ := Except.eq_ok_of_bind hc
  have hend : r3 = [] := by
    by_contra hne
    simp only [if_pos hne] at hm
    cases hm
  simp only [hend, not_true_eq_false, if_false] at hm
  cases hm
  subst hone hend
  obtain ⟨rfl, -⟩ := Reader.number_ok hversion
  obtain ⟨rfl, hlt⟩ := Reader.number_ok hcount
  obtain ⟨es, rfl, rfl, hes, hlen, hmem, hsorted⟩ := decodeEntries_ok hentries
  refine ⟨es, hlt, by rw [List.append_nil], hes, by simpa [SortedMap.empty, iter] using hlen,
    fun e he => ?_, hsorted⟩
  exact (hmem e he).resolve_left (List.not_mem_nil)

/-- What decodes fits. -/
theorem fits_of_decode {b : List UInt8} {t : Tree} (h : decode b = .ok t) : t.Fits := by
  obtain ⟨es, hcount, -, hes, hlen, hmem, -⟩ := decode_ok h
  refine ⟨hlen ▸ hcount, fun e he => ?_⟩
  obtain ⟨e', he', rfl⟩ := List.mem_map.1 (hmem e he)
  exact (hes e' he').1

/-- The flags of an entry, if it is a file. -/
def flagsOf (flags : UInt8) : Node → Option UInt8
  | .file .. => some flags
  | _ => none

theorem wireEntry_entryWith {flags : UInt8} {e : EntryName × Node} (h : NodeFits e.2)
    (r : List UInt8) : wireEntry (entryWith flags e ++ r)
      = (⟨Utf8.encode e.1.text, flagsOf flags e.2⟩, r) := by
  have hsplit : ∀ (tag : UInt8) (l n p : List UInt8), l.length = 2 →
      ((tag :: (l ++ n ++ p) ++ r).drop 1).take 2 = l
        ∧ ((tag :: (l ++ n ++ p) ++ r).drop 3).take n.length = n
        ∧ (tag :: (l ++ n ++ p) ++ r).drop (3 + n.length) = p ++ r := by
    intro tag l n p hl
    obtain ⟨x, y, rfl⟩ := List.length_eq_two.1 hl
    refine ⟨rfl, by simp, ?_⟩
    rw [Nat.add_comm]
    simp
  obtain ⟨name, node⟩ := e
  have hname : (Utf8.encode name.text).length < 256 ^ 2 := lt_of_le_of_lt name.short (by decide)
  obtain ⟨hlen, htext, hpayload⟩ := hsplit (UInt8.ofNat node.tag)
    (LittleEndian.toLe 2 (Utf8.encode name.text).length) (Utf8.encode name.text)
    (payloadWith flags node) (by simp)
  unfold wireEntry entryWith
  simp only [hlen, LittleEndian.ofLe_toLe hname, Nat.add_sub_cancel_left, htext, hpayload]
  cases node with
  | file d size x =>
    have hbytes : (d.bytes ++ LittleEndian.toLe 8 size.toNat).length = 40 := by
      simp [d.length_bytes, digestLen]
    refine (if_pos rfl).trans ?_
    rw [payloadWith, List.append_assoc _ [flags]]
    refine Prod.ext (congrArg (WireEntry.mk _) ?_) ?_
    · rw [List.getElem?_append_right (by rw [hbytes])]
      simp [hbytes, flagsOf]
    · rw [List.drop_append, List.drop_of_length_le (by rw [hbytes]; decide), hbytes]
      rfl
  | dir d =>
    have hfile : ¬some (UInt8.ofNat tagDir) = some (UInt8.ofNat tagFile) := by decide
    refine (if_neg hfile).trans ((if_pos rfl).trans ?_)
    exact Prod.ext rfl (List.drop_left' d.length_bytes)
  | symlink target =>
    have hfile : ¬some (UInt8.ofNat tagSymlink) = some (UInt8.ofNat tagFile) := by decide
    have hdir : ¬some (UInt8.ofNat tagSymlink) = some (UInt8.ofNat tagDir) := by decide
    refine (if_neg hfile).trans ((if_neg hdir).trans (Prod.ext rfl ?_))
    have hlen : ((LittleEndian.toLe 2 (Utf8.encode target).length ++ Utf8.encode target) ++ r).take 2
        = LittleEndian.toLe 2 (Utf8.encode target).length := by
      rw [List.append_assoc, List.take_left' (by simp)]
    show List.drop (2 + LittleEndian.ofLe (List.take 2 _)) (payloadWith flags (.symlink target) ++ r) = r
    rw [show payloadWith flags (.symlink target)
      = LittleEndian.toLe 2 (Utf8.encode target).length ++ Utf8.encode target from rfl, hlen,
      LittleEndian.ofLe_toLe h.2]
    exact List.drop_left' (by simp)

theorem wireEntriesOf_flatMap : ∀ {es : List (UInt8 × (EntryName × Node))} (r : List UInt8),
    (∀ e ∈ es, NodeFits e.2.2) →
      wireEntriesOf es.length (es.flatMap (fun e => entryWith e.1 e.2) ++ r)
        = es.map fun e => ⟨Utf8.encode e.2.1.text, flagsOf e.1 e.2.2⟩
  | [], _, _ => rfl
  | e :: es, r, h => by
    rw [List.flatMap_cons, List.append_assoc, List.length_cons, wireEntriesOf,
      wireEntry_entryWith (h e List.mem_cons_self), List.map_cons]
    simp only [wireEntriesOf_flatMap r fun a ha => h a (List.mem_cons_of_mem _ ha)]

theorem wireEntries_entryWith {es : List (UInt8 × (EntryName × Node))}
    (hcount : es.length < 256 ^ 4) (hes : ∀ e ∈ es, NodeFits e.2.2) :
    wireEntries (LittleEndian.toLe 2 treeFormatVersion
      ++ (LittleEndian.toLe 4 es.length ++ es.flatMap fun e => entryWith e.1 e.2))
      = es.map fun e => ⟨Utf8.encode e.2.1.text, flagsOf e.1 e.2.2⟩ := by
  unfold wireEntries
  rw [List.drop_left' (LittleEndian.length_toLe 2 _), List.take_left' (LittleEndian.length_toLe 4 _),
    LittleEndian.ofLe_toLe hcount, ← List.append_assoc, List.drop_left' (by simp),
    ← List.append_nil (es.flatMap _), wireEntriesOf_flatMap [] hes]

/-- The flags the encoder writes. -/
def writtenFlags : Node → UInt8
  | .file _ _ executable => UInt8.ofNat (if executable then flagExecutable else 0)
  | _ => 0

theorem entryWith_writtenFlags (e : EntryName × Node) :
    entryWith (writtenFlags e.2) e = encodeEntry e := by
  obtain ⟨name, node⟩ := e
  cases node <;> rfl

theorem writtenFlags_of_reads {flags : UInt8} {node : Node} (h : Reads flags node)
    (hplain : ∀ f, flagsOf flags node = some f → f = 0 ∨ f = 1) (name : EntryName) :
    entryWith flags (name, node) = encodeEntry (name, node) := by
  cases node with
  | file d size x =>
    have hx : x = decide (flags.toNat &&& flagExecutable ≠ 0) := h
    rcases hplain flags rfl with rfl | rfl
    · rw [hx]; rfl
    · rw [hx]; rfl
  | dir d => rfl
  | symlink target => rfl

/-- The order of two names is that of their bytes in a manifest. -/
theorem pairwise_wire {es : List (UInt8 × (EntryName × Node))} :
    (es.map fun e => (⟨Utf8.encode e.2.1.text, flagsOf e.1 e.2.2⟩ : WireEntry)).Pairwise
        (fun a b => a.name.map UInt8.toNat < b.name.map UInt8.toNat)
      ↔ (es.map Prod.snd).Pairwise fun a b => a.1 < b.1 := by
  rw [List.pairwise_map, List.pairwise_map]
  rfl

/-- The encoder writes canonical bytes. -/
theorem canonical_encode {t : Tree} (h : t.Fits) : Canonical t.encode := by
  have hes : t.encode = LittleEndian.toLe 2 treeFormatVersion
      ++ (LittleEndian.toLe 4 (t.iter.map fun e => (writtenFlags e.2, e)).length
        ++ (t.iter.map fun e => (writtenFlags e.2, e)).flatMap fun e => entryWith e.1 e.2) := by
    rw [encode_eq, List.length_map, List.flatMap_map]
    simp only [entryWith_writtenFlags]
  have hfits : ∀ e ∈ t.iter.map fun e => (writtenFlags e.2, e), NodeFits e.2.2 := by
    intro e he
    obtain ⟨a, ha, rfl⟩ := List.mem_map.1 he
    exact h.2 a ha
  have hwire := wireEntries_entryWith (by simpa using h.1) hfits
  rw [← hes] at hwire
  constructor
  · rw [hwire, pairwise_wire]
    simpa [Function.comp_def, iter] using t.entries.sorted
  · rw [hwire]
    intro e he f hf
    obtain ⟨a, ha, rfl⟩ := List.mem_map.1 he
    obtain ⟨⟨name, node⟩, -, rfl⟩ := List.mem_map.1 ha
    cases node with
    | file d size x =>
      cases x
      · exact .inl (Option.some.inj hf).symm
      · exact .inr (Option.some.inj hf).symm
    | dir d => cases hf
    | symlink target => cases hf

/-- Bytes that decode are the bytes of their tree if they are canonical, and only then. -/
theorem encode_eq_iff_canonical {b : List UInt8} {t : Tree} (h : decode b = .ok t) :
    t.encode = b ↔ Canonical b := by
  constructor
  · rintro rfl
    exact canonical_encode (fits_of_decode h)
  · intro hc
    obtain ⟨es, hcount, rfl, hes, -, -, hsorted⟩ := decode_ok h
    have hwire := wireEntries_entryWith hcount fun e he => (hes e he).1
    have hiter : t.iter = es.map Prod.snd := by
      refine hsorted (pairwise_wire.1 ?_)
      rw [← hwire]
      exact hc.ordered
    have hentry : ∀ e ∈ es, encodeEntry e.2 = entryWith e.1 e.2 := by
      intro e he
      refine (writtenFlags_of_reads (hes e he).2 (fun f hf => ?_) e.2.1).symm
      have hmem : (⟨Utf8.encode e.2.1.text, flagsOf e.1 e.2.2⟩ : WireEntry) ∈ _ :=
        hwire ▸ List.mem_map_of_mem he
      exact hc.plain _ hmem f hf
    rw [encode_eq, hiter, List.length_map, List.flatMap_map]
    simp only [List.flatMap_congr hentry]

end Canonical

section Sample

def nameP : EntryName := ⟨"p", by decide, by decide, by decide, by decide, by decide⟩

def nameQ : EntryName := ⟨"q", by decide, by decide, by decide, by decide, by decide⟩

def nameR : EntryName := ⟨"r", by decide, by decide, by decide, by decide, by decide⟩

/-- A tree of two symlinks. -/
def twoLinks (m n : EntryName) (s t : String) : Tree :=
  (new.insert m (.symlink s)).insert n (.symlink t)

theorem iter_twoLinks {m n : EntryName} (h : m < n) (s t : String) :
    (twoLinks m n s t).iter = [(m, .symlink s), (n, .symlink t)] := by
  refine SortedMap.entries_insert_last (m := (new.insert m (.symlink s)).entries) fun e he => ?_
  obtain rfl := List.mem_singleton.1 he
  exact h

def padding (n : ℕ) : String := String.ofList (List.replicate n 'z')

theorem sample_bytes : Utf8.encode (String.ofList ['z']) = [122] ∧
    Utf8.encode "x\x03\x01\x00q\x01\x00" = [120, 3, 1, 0, 113, 1, 0] ∧
    Utf8.encode "\x03\x01\x00r\x01\x00y" = [3, 1, 0, 114, 1, 0, 121] ∧
    nameP < nameQ ∧ nameQ < nameR := by decide +kernel

theorem encode_padding (n : ℕ) : Utf8.encode (padding n) = List.replicate n 122 := by
  rw [padding, Utf8.encode_replicate, sample_bytes.1, List.flatten_replicate_singleton]

/-- The target of `p` holds what looks like the head of an entry `q`. -/
def wideTree (n : ℕ) : Tree :=
  twoLinks nameP nameR ("x\x03\x01\x00q\x01\x00" ++ padding n) "y"

/-- The target of `q` holds what looks like an entry `r`. -/
def shiftedTree (n : ℕ) : Tree :=
  twoLinks nameP nameQ "x" (padding n ++ "\x03\x01\x00r\x01\x00y")

theorem iter_wideTree (n : ℕ) : (wideTree n).iter
    = [(nameP, .symlink ("x\x03\x01\x00q\x01\x00" ++ padding n)), (nameR, .symlink "y")] :=
  iter_twoLinks (sample_bytes.2.2.2.1.trans sample_bytes.2.2.2.2) _ _

theorem iter_shiftedTree (n : ℕ) : (shiftedTree n).iter
    = [(nameP, .symlink "x"), (nameQ, .symlink (padding n ++ "\x03\x01\x00r\x01\x00y"))] :=
  iter_twoLinks sample_bytes.2.2.2.1 _ _

/-- The bytes realign where the cast makes a long target look one byte long. -/
theorem encode_wideTree {n : ℕ} (hn : LittleEndian.toLe 2 (n + 7) = [1, 0]) :
    (wideTree n).encode = (shiftedTree n).encode := by
  have hl : Utf8.encode ("x\x03\x01\x00q\x01\x00" ++ padding n)
      = [120, 3, 1, 0, 113, 1, 0] ++ List.replicate n 122 := by
    rw [Utf8.encode_append, encode_padding, sample_bytes.2.1]
  have hr : Utf8.encode (padding n ++ "\x03\x01\x00r\x01\x00y")
      = List.replicate n 122 ++ [3, 1, 0, 114, 1, 0, 121] := by
    rw [Utf8.encode_append, encode_padding, sample_bytes.2.2.1]
  have hll : (Utf8.encode ("x\x03\x01\x00q\x01\x00" ++ padding n)).length = n + 7 := by
    rw [hl, List.length_append, List.length_replicate]
    exact Nat.add_comm 7 n
  have hrl : (Utf8.encode (padding n ++ "\x03\x01\x00r\x01\x00y")).length = n + 7 := by
    rw [hr, List.length_append, List.length_replicate]
    rfl
  unfold encode
  rw [iter_wideTree, iter_shiftedTree]
  simp only [List.flatMap_cons, List.flatMap_nil, encodeEntry, Node.payload, hll, hrl, hn]
  simp only [hl, hr, List.append_assoc, List.cons_append, List.nil_append]
  rfl

theorem wideTree_ne (n : ℕ) : wideTree n ≠ shiftedTree n := by
  intro h
  have hiter : (wideTree n).iter.map Prod.fst = (shiftedTree n).iter.map Prod.fst := by rw [h]
  rw [iter_wideTree, iter_shiftedTree] at hiter
  simp only [List.map_cons, List.map_nil, List.cons.injEq, and_true, true_and] at hiter
  exact absurd hiter sample_bytes.2.2.2.2.ne'

theorem toLe_65537 : LittleEndian.toLe 2 (65530 + 7) = [1, 0] := by decide

/-- Two trees with one encoding, so with one digest. -/
theorem encode_collides :
    (wideTree 65530).encode = (shiftedTree 65530).encode ∧ wideTree 65530 ≠ shiftedTree 65530 :=
  ⟨encode_wideTree toLe_65537, wideTree_ne 65530⟩

theorem wideTree_overflows : (wideTree 65530).overflows ≠ (shiftedTree 65530).overflows := fun h =>
  wideTree_ne 65530 ((encode_inj_iff (encode_wideTree toLe_65537)).2 h)

end Sample

end Tree

namespace ObjectStore

variable (b3 : Blake3) (st : ObjectStore) (disk : Disk)

theorem treeOf_ok {d : Digest} {reply : Except IoError (List UInt8)} {t : Tree}
    (h : st.treeOf b3 d reply = .ok t) :
    ∃ bytes, reply = .ok bytes ∧ Tree.decode bytes = .ok t ∧ t.digest b3 = d := by
  unfold treeOf at h
  obtain ⟨bytes, hbytes, hrest⟩ := Except.eq_ok_of_bind h
  obtain ⟨tree, htree, hlast⟩ := Except.eq_ok_of_bind hrest
  have hreply : reply = .ok bytes := by
    unfold bytesOf at hbytes
    split at hbytes <;> cases hbytes
    rfl
  have hdecode : Tree.decode bytes = .ok tree := by
    rcases hd : Tree.decode bytes with e | t'
    · rw [hd] at htree
      cases htree
    · rw [hd] at htree
      cases htree
      rfl
  have hdigest : tree.digest b3 = d := by
    by_contra hne
    simp only [if_pos hne] at hlast
    cases hlast
  simp only [hdigest, ne_eq, not_true_eq_false, if_false] at hlast
  cases hlast
  exact ⟨bytes, hreply, hdecode, hdigest⟩

theorem getTree_ok {d : Digest} {t : Tree} (h : st.getTree b3 disk d = .ok t) :
    ∃ o, disk.lookup (st.objectPath d) = some o ∧ Tree.decode o.content = .ok t
      ∧ t.digest b3 = d := by
  obtain ⟨bytes, hread, hdecode, hdigest⟩ := st.treeOf_ok b3 h
  unfold readFile at hread
  rcases ho : disk.lookup (st.objectPath d) with _ | o
  · rw [ho] at hread
    cases hread
  · rw [ho] at hread
    cases hread
    exact ⟨o, rfl, hdecode, hdigest⟩

/-- The bytes that decode to a tree are the bytes it encodes to if they are canonical, and only
then. So it is with the object a tree is read from, since the digest is not taken of its bytes. -/
theorem canonical_iff :
    (∀ b t, Tree.decode b = .ok t → (t.encode = b ↔ Tree.Canonical b))
      ∧ ∀ d t, st.getTree b3 disk d = .ok t → ∃ o, disk.lookup (st.objectPath d) = some o
        ∧ t.digest b3 = d ∧ (t.encode = o.content ↔ Tree.Canonical o.content) := by
  refine ⟨fun b t h => Tree.encode_eq_iff_canonical h, fun d t h => ?_⟩
  obtain ⟨o, ho, hdecode, hdigest⟩ := st.getTree_ok b3 disk h
  exact ⟨o, ho, hdigest, Tree.encode_eq_iff_canonical hdecode⟩

section Sample

/-- A tree of one empty file. -/
def oneFile : Tree := Tree.new.insert Tree.nameP (.file (sampleDigest [] 0) 0 false)

/-- The manifest of that tree, with a flag set that means nothing. -/
def strayFlag : List UInt8 := oneFile.encode.dropLast ++ [2]

/-- A store that holds these bytes in place of the manifest. -/
def strayDisk : Disk :=
  AList.insert ((openWith ["/", "cas"] .synced).objectPath (oneFile.digest sampleBlake3))
    ⟨strayFlag, 0⟩ ∅

theorem strayFlag_bytes : (Tree.decode strayFlag).toOption.map Tree.iter = some oneFile.iter ∧
    oneFile.encode ≠ strayFlag := by decide +kernel

theorem decode_strayFlag : Tree.decode strayFlag = .ok oneFile := by
  have h := strayFlag_bytes.1
  rcases hd : Tree.decode strayFlag with e | t
  · rw [hd] at h
    cases h
  · rw [hd] at h
    rw [Tree.ext_iter (Option.some.inj h)]

theorem getTree_strayDisk : (openWith ["/", "cas"] .synced).getTree sampleBlake3 strayDisk
    (oneFile.digest sampleBlake3) = .ok oneFile := by
  have hlook : strayDisk.lookup ((openWith ["/", "cas"] .synced).objectPath
      (oneFile.digest sampleBlake3)) = some ⟨strayFlag, 0⟩ := AList.lookup_insert _
  simp [getTree, treeOf, bytesOf, readFile, hlook, decode_strayFlag, bind, Except.bind, pure,
    Except.pure, Except.mapError]

/-- A second manifest of one tree, and a store in which it passes for the first. -/
theorem strayFlag_accepted : Tree.decode strayFlag = .ok oneFile ∧ oneFile.encode ≠ strayFlag
    ∧ (openWith ["/", "cas"] .synced).getTree sampleBlake3 strayDisk
      (oneFile.digest sampleBlake3) = .ok oneFile :=
  ⟨decode_strayFlag, strayFlag_bytes.2, getTree_strayDisk⟩

theorem strayFlag_not_canonical : ¬Tree.Canonical strayFlag := fun h => by
  have := ((canonical_iff sampleBlake3 (openWith ["/", "cas"] .synced) strayDisk).1 strayFlag
    oneFile decode_strayFlag).2 h
  exact absurd this strayFlag_bytes.2

end Sample

end ObjectStore

end Jetrun
