import Jetrun.Grammar
import Jetrun.Proofs.Manifest

/-!
# The decoder accepts the grammar

For each rule of the grammar, the reader of that part succeeds exactly on the bytes of the rule with
anything behind them. So a manifest is accepted exactly if it is one and no name stands twice
(`decode_iff_grammar`); and as a reader does not look behind what it reads, no accepted manifest
goes on to a longer one.
-/

namespace Jetrun

namespace Tree

section Entries

theorem isText_iff {s : String} {b : List UInt8} :
    IsText s b ↔ (Utf8.encode s).length < 2 ^ 16 ∧
      b = LittleEndian.toLe 2 (Utf8.encode s).length ++ Utf8.encode s := by
  constructor
  · rintro ⟨bytes, hlen, hdecode, rfl⟩
    obtain rfl := Utf8.encode_of_decode hdecode
    exact ⟨hlen, rfl⟩
  · rintro ⟨hlen, rfl⟩
    exact ⟨_, hlen, Utf8.decode_encode s, rfl⟩

theorem isPayload_iff {node : Node} {b : List UInt8} :
    IsPayload node b ↔ ∃ flags, b = payloadWith flags node ∧ NodeFits node ∧ Reads flags node := by
  constructor
  · rintro (⟨digest, size, flags⟩ | digest | ⟨htext, hne⟩)
    · exact ⟨flags, rfl, trivial, by simp [Reads]⟩
    · exact ⟨0, rfl, trivial, trivial⟩
    · obtain ⟨hlen, rfl⟩ := isText_iff.1 htext
      exact ⟨0, rfl, ⟨hne, hlen⟩, trivial⟩
  · rintro ⟨flags, rfl, hfits, hreads⟩
    cases node with
    | file digest size executable =>
      obtain rfl : executable = decide (flags.toNat &&& flagExecutable ≠ 0) := hreads
      exact .file digest size flags
    | dir digest => exact .dir digest
    | symlink target => exact .symlink (isText_iff.2 ⟨hfits.2, rfl⟩) hfits.1

theorem isEntry_iff {e : EntryName × Node} {b : List UInt8} :
    IsEntry e b ↔ ∃ flags, b = entryWith flags e ∧ NodeFits e.2 ∧ Reads flags e.2 := by
  have hname : (Utf8.encode e.1.text).length < 2 ^ 16 := lt_of_le_of_lt e.1.short (by decide)
  constructor
  · rintro ⟨name, payload, htext, hpayload, rfl⟩
    obtain ⟨-, rfl⟩ := isText_iff.1 htext
    obtain ⟨flags, rfl, hfits, hreads⟩ := isPayload_iff.1 hpayload
    exact ⟨flags, rfl, hfits, hreads⟩
  · rintro ⟨flags, rfl, hfits, hreads⟩
    exact ⟨_, _, isText_iff.2 ⟨hname, rfl⟩, isPayload_iff.2 ⟨flags, rfl, hfits, hreads⟩, rfl⟩

theorem decodeNode_payloadWith {flags : UInt8} {node : Node} (h : NodeFits node)
    (hreads : Reads flags node) (r : Reader) :
    decodeNode node.tag (payloadWith flags node ++ r) = .ok (node, r) := by
  cases node with
  | file d size executable =>
    obtain rfl : executable = decide (flags.toNat &&& flagExecutable ≠ 0) := hreads
    have hsize : size.toNat < 256 ^ 8 := size.toNat_lt
    have hflags : Reader.u8 (flags :: r) = .ok (flags.toNat, r) := by
      have hread := Reader.u8_cons flags.toNat_lt r
      rwa [UInt8.ofNat_toNat] at hread
    simp only [decodeNode, Node.tag, payloadWith, if_true, List.append_assoc,
      List.singleton_append, Reader.u64, Reader.digest_bytes, Reader.number_toLe _ hsize, hflags,
      bind, Except.bind, pure, Except.pure, UInt64.ofNat_toNat]
  | dir d => exact decodeNode_payload h r
  | symlink target => exact decodeNode_payload h r

/-- An entry is read off exactly the bytes of an entry. -/
theorem decodeEntry_iff {e : EntryName × Node} {r r' : Reader} :
    decodeEntry r = .ok (e, r') ↔ ∃ b, IsEntry e b ∧ r = b ++ r' := by
  constructor
  · intro h
    obtain ⟨flags, rfl, hfits, hreads⟩ := decodeEntry_ok h
    exact ⟨_, isEntry_iff.2 ⟨flags, rfl, hfits, hreads⟩, rfl⟩
  · rintro ⟨b, hentry, rfl⟩
    obtain ⟨flags, rfl, hfits, hreads⟩ := isEntry_iff.1 hentry
    have hname : (Utf8.encode e.1.text).length < 256 ^ 2 := lt_of_le_of_lt e.1.short (by decide)
    simp [decodeEntry, entryWith, Reader.u16, Reader.u8_cons (tag_lt e.2),
      Reader.number_toLe _ hname, Reader.text_encode, EntryName.new_text,
      decodeNode_payloadWith hfits hreads, bind, Except.bind, pure, Except.pure]

/-- An entry takes some room. -/
theorem AreEntries.length_le {es : List (EntryName × Node)} {b : List UInt8}
    (h : AreEntries es b) : es.length ≤ b.length := by
  induction h with
  | nil => exact le_rfl
  | cons head tail ih =>
    obtain ⟨name, payload, -, -, rfl⟩ := head
    simp only [List.length_cons, List.length_append]
    omega

end Entries

section Maps

variable {m : SortedMap EntryName Node}

theorem mem_keys_insert {e : EntryName × Node} (h : e.1 ∉ m.keys) {k : EntryName} :
    k ∈ (m.insert e.1 e.2).keys ↔ k = e.1 ∨ k ∈ m.keys := by
  unfold SortedMap.keys
  simp only [List.mem_map, SortedMap.mem_insert h]
  constructor
  · rintro ⟨a, rfl | ha, rfl⟩
    · exact .inl rfl
    · exact .inr ⟨a, ha, rfl⟩
  · rintro (rfl | ⟨a, ha, rfl⟩)
    · exact ⟨e, .inl rfl, rfl⟩
    · exact ⟨a, .inr ha, rfl⟩

/-- Of entries under new names, those behind the first are new still. -/
theorem notMem_keys_insert {e : EntryName × Node} {es : List (EntryName × Node)}
    (hnodup : ((e :: es).map Prod.fst).Nodup) (hnew : ∀ a ∈ e :: es, a.1 ∉ m.keys) :
    ∀ a ∈ es, a.1 ∉ (m.insert e.1 e.2).keys := by
  rw [List.map_cons, List.nodup_cons] at hnodup
  intro a ha hmem
  rcases (mem_keys_insert (hnew e List.mem_cons_self)).1 hmem with hsame | hmem
  · exact hnodup.1 (List.mem_map.2 ⟨a, ha, hsame⟩)
  · exact hnew a (List.mem_cons_of_mem _ ha) hmem

/-- Entries under new names are added to a map. -/
theorem mem_foldl_insert : ∀ {es : List (EntryName × Node)} {m : SortedMap EntryName Node},
    (es.map Prod.fst).Nodup → (∀ e ∈ es, e.1 ∉ m.keys) →
      ∀ a, a ∈ (es.foldl (fun m e => m.insert e.1 e.2) m).entries ↔ a ∈ m.entries ∨ a ∈ es
  | [], _, _, _, a => by simp
  | e :: es, m, hnodup, hnew, a => by
    have hhead : e.1 ∉ m.keys := hnew e List.mem_cons_self
    have htail := notMem_keys_insert hnodup hnew
    rw [List.map_cons, List.nodup_cons] at hnodup
    rw [List.foldl_cons, mem_foldl_insert hnodup.2 htail, SortedMap.mem_insert hhead,
      List.mem_cons]
    tauto

/-- Entries are read off exactly the bytes of as many entries under new names. -/
theorem decodeEntries_iff : ∀ {count : ℕ} {r r' : Reader} {m m' : SortedMap EntryName Node},
    decodeEntries count r m = .ok (m', r') ↔ ∃ es b, es.length = count ∧ AreEntries es b ∧
      r = b ++ r' ∧ (es.map Prod.fst).Nodup ∧ (∀ e ∈ es, e.1 ∉ m.keys) ∧
      m' = es.foldl (fun m e => m.insert e.1 e.2) m
  | 0, r, r', m, m' => by
    constructor
    · intro h
      cases h
      exact ⟨[], [], rfl, .nil, rfl, .nil, by simp, rfl⟩
    · rintro ⟨es, b, hlen, hes, rfl, -, -, rfl⟩
      obtain rfl := List.length_eq_zero_iff.1 hlen
      cases hes
      rfl
  | count + 1, r, r', m, m' => by
    constructor
    · intro h
      unfold decodeEntries at h
      obtain ⟨⟨e, r1⟩, hentry, hrest⟩ := Except.eq_ok_of_bind h
      simp only [bind, Except.bind] at hrest
      split_ifs at hrest with hhead
      obtain ⟨b, hb, rfl⟩ := decodeEntry_iff.1 hentry
      obtain ⟨es, bs, rfl, hes, rfl, hnodup, hnew, rfl⟩ := decodeEntries_iff.1 hrest
      refine ⟨e :: es, b ++ bs, rfl, .cons hb hes, by rw [List.append_assoc], ?_, ?_, rfl⟩
      · rw [List.map_cons, List.nodup_cons]
        refine ⟨fun hmem => ?_, hnodup⟩
        obtain ⟨e', he', hsame⟩ := List.mem_map.1 hmem
        exact hnew e' he' ((mem_keys_insert hhead).2 (.inl hsame))
      · intro e' he'
        rcases List.mem_cons.1 he' with rfl | he'
        · exact hhead
        · exact fun hmem => hnew e' he' ((mem_keys_insert hhead).2 (.inr hmem))
    · rintro ⟨es, b, hlen, hes, rfl, hnodup, hnew, rfl⟩
      cases hes with
      | nil => cases hlen
      | @cons e es b bs hb hes =>
        have hhead : e.1 ∉ m.keys := hnew e List.mem_cons_self
        have htail := notMem_keys_insert hnodup hnew
        rw [List.map_cons, List.nodup_cons] at hnodup
        have hentry : decodeEntry (b ++ bs ++ r') = .ok (e, bs ++ r') :=
          decodeEntry_iff.2 ⟨b, hb, by rw [List.append_assoc]⟩
        have hrest : decodeEntries count (bs ++ r') (m.insert e.1 e.2)
            = .ok (es.foldl (fun m e => m.insert e.1 e.2) (m.insert e.1 e.2), r') :=
          decodeEntries_iff.2
            ⟨es, bs, Nat.succ.inj hlen, hes, rfl, hnodup.2, htail, rfl⟩
        simp only [decodeEntries, hentry, bind, Except.bind, if_neg hhead, List.foldl_cons]
        exact hrest

end Maps

section Manifests

/-- What the decoder reads, and what it checks of it. -/
theorem decode_eq_ok_iff {b : List UInt8} {t : Tree} :
    decode b = .ok t ↔ ∃ count r, count < 256 ^ 4 ∧
      b = LittleEndian.toLe 2 treeFormatVersion ++ (LittleEndian.toLe 4 count ++ r) ∧
      count ≤ r.length ∧ decodeEntries count r .empty = .ok (t.entries, []) := by
  constructor
  · intro h
    unfold decode at h
    obtain ⟨⟨version, r1⟩, hversion, h⟩ := Except.eq_ok_of_bind h
    simp only [] at h
    split_ifs at h with hone
    · cases h
    obtain ⟨⟨count, r2⟩, hcount, h⟩ := Except.eq_ok_of_bind h
    simp only [] at h
    split_ifs at h with hshort
    · cases h
    obtain ⟨⟨m, r3⟩, hentries, h⟩ := Except.eq_ok_of_bind h
    simp only [] at h
    split_ifs at h with hend
    · cases h
    cases h
    obtain ⟨rfl, -⟩ := Reader.number_ok hversion
    obtain ⟨rfl, hlt⟩ := Reader.number_ok hcount
    rw [not_not] at hone hend
    subst hone hend
    exact ⟨count, r2, hlt, rfl, not_lt.1 hshort, hentries⟩
  · rintro ⟨count, r, hlt, rfl, hroom, hentries⟩
    simp [decode, Reader.u16, Reader.u32, Reader.number_toLe _ hlt,
      Reader.number_toLe _ (show treeFormatVersion < 256 ^ 2 by decide), hroom.not_gt, hentries,
      bind, Except.bind, pure, Except.pure]

/-- What is read is read the same with anything behind it. -/
theorem decodeEntries_append {count : ℕ} {r r' : Reader} {m m' : SortedMap EntryName Node}
    (h : decodeEntries count r m = .ok (m', r')) (s : List UInt8) :
    decodeEntries count (r ++ s) m = .ok (m', r' ++ s) := by
  obtain ⟨es, b, hlen, hes, rfl, hnodup, hnew, hm⟩ := decodeEntries_iff.1 h
  exact decodeEntries_iff.2 ⟨es, b, hlen, hes, List.append_assoc _ _ _, hnodup, hnew, hm⟩

/-- An accepted manifest does not go on. -/
theorem eq_nil_of_decode_append {b s : List UInt8} {t t' : Tree} (h : decode b = .ok t)
    (h' : decode (b ++ s) = .ok t') : s = [] := by
  obtain ⟨count, r, hlt, rfl, -, hentries⟩ := decode_eq_ok_iff.1 h
  obtain ⟨count', r', hlt', hsame, -, hentries'⟩ := decode_eq_ok_iff.1 h'
  simp only [List.append_assoc] at hsame
  obtain ⟨hcount, rfl⟩ := List.append_inj (List.append_inj_right hsame rfl) (by simp)
  obtain rfl := LittleEndian.toLe_inj hlt hlt' hcount
  rw [decodeEntries_append hentries s] at hentries'
  exact (Prod.mk.inj (Except.ok.inj hentries')).2

theorem decode_iff {b : List UInt8} {t : Tree} :
    decode b = .ok t ↔ ∃ entries, IsManifest entries b ∧ (entries.map Prod.fst).Nodup ∧
      ∀ e, e ∈ t.iter ↔ e ∈ entries := by
  have hempty : ∀ (es : List (EntryName × Node)) (e : EntryName × Node), (es.map Prod.fst).Nodup →
      (e ∈ (es.foldl (fun m e => m.insert e.1 e.2) SortedMap.empty).entries ↔ e ∈ es) :=
    fun es e hnodup => (mem_foldl_insert hnodup (by simp [SortedMap.empty, SortedMap.keys]) e).trans
      (by simp [SortedMap.empty])
  rw [decode_eq_ok_iff]
  constructor
  · rintro ⟨count, r, hlt, rfl, -, hentries⟩
    obtain ⟨es, b, rfl, hes, rfl, hnodup, -, hm⟩ := decodeEntries_iff.1 hentries
    refine ⟨es, ⟨hlt, b, hes, by rw [List.append_nil]⟩, hnodup, fun e => ?_⟩
    rw [iter, hm, hempty es e hnodup]
  · rintro ⟨es, ⟨hlt, b, hes, rfl⟩, hnodup, hiter⟩
    refine ⟨es.length, b, hlt, rfl, hes.length_le, decodeEntries_iff.2
      ⟨es, b, rfl, hes, by rw [List.append_nil], hnodup, by simp [SortedMap.empty, SortedMap.keys],
        SortedMap.ext_mem fun e => ?_⟩⟩
    rw [hempty es e hnodup]
    exact hiter e

/-- The decoder accepts the manifests in which no name stands twice, and maps each name to its node.
The count it checks first is never too large in a manifest, and no accepted manifest is the
beginning of a longer one. -/
theorem decode_iff_grammar :
    (∀ b t, decode b = .ok t ↔ ∃ entries, IsManifest entries b ∧ (entries.map Prod.fst).Nodup ∧
      ∀ e, e ∈ t.iter ↔ e ∈ entries) ∧
    (∀ b entries, IsManifest entries b → entries.length ≤ (b.drop 6).length) ∧
    ∀ b s t t', decode b = .ok t → decode (b ++ s) = .ok t' → s = [] := by
  refine ⟨fun b t => decode_iff, ?_, fun b s t t' => eq_nil_of_decode_append⟩
  rintro b entries ⟨-, body, hentries, rfl⟩
  rw [← List.append_assoc, List.drop_left' (by simp)]
  exact hentries.length_le

/-- Whatever was put into a tree, with names and targets that have a length, comes out again. -/
theorem decode_undoes_encode {t : Tree} (hcount : t.iter.length < 2 ^ 32)
    (htargets : ∀ name target, (name, .symlink target) ∈ t.iter →
      target ≠ "" ∧ target.utf8ByteSize ≤ 65535) : decode t.encode = .ok t := by
  refine decode_encode_of_fits ⟨hcount, fun e he => ?_⟩
  obtain ⟨name, node⟩ := e
  cases node with
  | file => trivial
  | dir => trivial
  | symlink target =>
    obtain ⟨hne, hlen⟩ := htargets name target he
    exact ⟨hne, Nat.lt_succ_of_le hlen⟩

end Manifests

section Sample

/-- A file, a directory and a symlink, put in against the order of their names. -/
def mixedTree : Tree :=
  ((new.insert nameR (.symlink "p")).insert nameQ (.dir (sampleDigest [] 1))).insert nameP
    (.file (sampleDigest [] 0) 5 true)

theorem iter_mixedTree : mixedTree.iter = [(nameP, .file (sampleDigest [] 0) 5 true),
    (nameQ, .dir (sampleDigest [] 1)), (nameR, .symlink "p")] := by decide +kernel

theorem mixedTree_decoded : decode mixedTree.encode = .ok mixedTree := by
  refine decode_undoes_encode (by decide +kernel) fun name target h => ?_
  rw [iter_mixedTree] at h
  simp only [List.mem_cons, Prod.mk.injEq, reduceCtorEq, and_false, false_or, List.not_mem_nil,
    or_false, Node.symlink.injEq] at h
  obtain ⟨-, rfl⟩ := h
  decide +kernel

/-- The same entries in another order, and with all flags set. -/
theorem mixedTree_accepted :
    decode (LittleEndian.toLe 2 treeFormatVersion ++ (LittleEndian.toLe 4 3 ++
      (entryWith 0 (nameR, .symlink "p") ++ (entryWith 255 (nameP, .file (sampleDigest [] 0) 5 true)
        ++ (entryWith 0 (nameQ, .dir (sampleDigest [] 1)) ++ []))))) = .ok mixedTree := by
  refine (decode_iff_grammar.1 _ _).2 ⟨[(nameR, .symlink "p"),
    (nameP, .file (sampleDigest [] 0) 5 true), (nameQ, .dir (sampleDigest [] 1))],
    ⟨by decide, _, .cons ?_ (.cons ?_ (.cons ?_ .nil)), rfl⟩, by decide +kernel, fun e => ?_⟩
  · exact isEntry_iff.2 ⟨0, rfl, by decide +kernel, trivial⟩
  · exact isEntry_iff.2 ⟨255, rfl, trivial, rfl⟩
  · exact isEntry_iff.2 ⟨0, rfl, trivial, trivial⟩
  · rw [iter_mixedTree]
    simp only [List.mem_cons, List.not_mem_nil, or_false]
    tauto

end Sample

end Tree

end Jetrun
