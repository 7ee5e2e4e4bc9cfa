import Jetrun.Proofs.Digest
import Jetrun.Tree

/-!
# A manifest decodes to the tree it was encoded from

Each reader operation gives back what the writer put in front of the rest, and from there on the
proof follows the format: a node, an entry, the list of entries. The entries come in the order of
their names, so each goes last in the map that is built, and none of them is found there.
-/

namespace Except

variable {ε α β : Type}

/-- A computation that succeeds succeeded in both its parts. -/
theorem eq_ok_of_bind {x : Except ε α} {f : α → Except ε β} {b : β} (h : x >>= f = .ok b) :
    ∃ a, x = .ok a ∧ f a = .ok b := by
  rcases x with e | a
  · cases h
  · exact ⟨a, rfl, h⟩

theorem eq_ok_of_mapError {ε' : Type} {x : Except ε α} {f : ε → ε'} {a : α}
    (h : x.mapError f = .ok a) : x = .ok a := by
  rcases x with e | b
  · cases h
  · cases h
    rfl

end Except

namespace Jetrun

namespace EntryName

theorem new_text (n : EntryName) : new n.text = .ok n := by
  obtain ⟨text, h1, h2, h3, h4, h5⟩ := n
  simp [new, h1, not_lt.2 h2, h3.1, h3.2, h4, h5]

theorem text_of_new {s : String} {n : EntryName} (h : new s = .ok n) : n.text = s := by
  unfold new at h
  split_ifs at h
  cases h
  rfl

theorem plain (n : EntryName) : Path.Plain n.text := ⟨n.nonempty, n.not_dot.1, n.no_separator⟩

end EntryName

namespace Reader

theorem take_append {bytes : List UInt8} {n : ℕ} (h : bytes.length = n) (r : Reader) :
    take (bytes ++ r) n = .ok (bytes, r) := by
  subst h
  simp [take]

theorem number_toLe_mod (width n : ℕ) (r : Reader) :
    number (LittleEndian.toLe width n ++ r) width = .ok (n % 256 ^ width, r) := by
  simp [number, take_append (LittleEndian.length_toLe width n), LittleEndian.ofLe_toLe_mod, bind,
    Except.bind, pure, Except.pure]

theorem number_toLe {n : ℕ} (width : ℕ) (h : n < 256 ^ width) (r : Reader) :
    number (LittleEndian.toLe width n ++ r) width = .ok (n, r) := by
  rw [number_toLe_mod, Nat.mod_eq_of_lt h]

theorem u8_cons {n : ℕ} (h : n < 256) (r : Reader) : u8 (UInt8.ofNat n :: r) = .ok (n, r) := by
  have hn := number_toLe 1 (by simpa using h) r
  simp only [LittleEndian.toLe, Nat.mod_eq_of_lt h, List.singleton_append] at hn
  exact hn

theorem text_encode (s : String) (r : Reader) :
    text (Utf8.encode s ++ r) (Utf8.encode s).length = .ok (s, r) := by
  simp [text, take_append rfl, Utf8.decode_encode, bind, Except.bind, pure, Except.pure]

theorem digest_bytes (d : Digest) (r : Reader) : digest (d.bytes ++ r) = .ok (d, r) := by
  simp [digest, take_append d.length_bytes, Digest.fromBytes, d.length_bytes, bind, Except.bind,
    pure, Except.pure]

end Reader

namespace Tree

/-- The lengths of a symlink's target that the format has room for. -/
def NodeFits : Node → Prop
  | .symlink target => target ≠ "" ∧ (Utf8.encode target).length < 256 ^ 2
  | _ => True

/-- The trees that the format has room for. -/
def Fits (t : Tree) : Prop := t.iter.length < 256 ^ 4 ∧ ∀ e ∈ t.iter, NodeFits e.2

instance : DecidablePred NodeFits
  | .symlink _ => inferInstanceAs (Decidable (_ ∧ _))
  | .file .. => .isTrue trivial
  | .dir _ => .isTrue trivial

instance (t : Tree) : Decidable t.Fits := inferInstanceAs (Decidable (_ ∧ _))

theorem decodeNode_payload {node : Node} (h : NodeFits node) (r : Reader) :
    decodeNode node.tag (node.payload ++ r) = .ok (node, r) := by
  cases node with
  | file d size executable =>
    have hsize : size.toNat < 256 ^ 8 := size.toNat_lt
    have hflags : (if executable then flagExecutable else 0) < 256 := by split <;> decide
    simp only [decodeNode, Node.tag, Node.payload, if_true, List.append_assoc,
      List.singleton_append, Reader.u64, Reader.digest_bytes, Reader.number_toLe _ hsize,
      Reader.u8_cons hflags, bind, Except.bind, pure, Except.pure, UInt64.ofNat_toNat]
    cases executable <;> rfl
  | dir d =>
    simp [decodeNode, Node.tag, Node.payload, Reader.digest_bytes, tagDir, tagFile, bind,
      Except.bind, pure, Except.pure]
  | symlink target =>
    simp [decodeNode, Node.tag, Node.payload, Reader.u16, Reader.number_toLe _ h.2,
      Reader.text_encode, h.1, tagSymlink, tagDir, tagFile, bind, Except.bind, pure, Except.pure]

theorem tag_lt (node : Node) : node.tag < 256 := by
  cases node <;> simp [Node.tag, tagFile, tagDir, tagSymlink]

theorem decodeEntry_encodeEntry {e : EntryName × Node} (h : NodeFits e.2) (r : Reader) :
    decodeEntry (encodeEntry e ++ r) = .ok (e, r) := by
  have hname : (Utf8.encode e.1.text).length < 256 ^ 2 :=
    lt_of_le_of_lt e.1.short (by decide)
  simp [decodeEntry, encodeEntry, Reader.u16, Reader.u8_cons (tag_lt e.2),
    Reader.number_toLe _ hname, Reader.text_encode, EntryName.new_text, decodeNode_payload h, bind,
    Except.bind, pure, Except.pure]

theorem decodeEntries_flatMap : ∀ (es : List (EntryName × Node)) (r : Reader)
    (m : SortedMap EntryName Node), (m.entries ++ es).Pairwise (fun a b => a.1 < b.1) →
      (∀ e ∈ es, NodeFits e.2) →
      ∃ m', decodeEntries es.length (es.flatMap encodeEntry ++ r) m = .ok (m', r)
        ∧ m'.entries = m.entries ++ es
  | [], r, m, _, _ => ⟨m, rfl, by simp⟩
  | e :: es, r, m, hs, hf => by
    have hlast : ∀ a ∈ m.entries, a.1 < e.1 := fun a ha =>
      (List.pairwise_append.1 hs).2.2 a ha e List.mem_cons_self
    have hnew : e.1 ∉ m.keys := fun hk => by
      obtain ⟨a, ha, hae⟩ := List.mem_map.1 hk
      exact (ne_of_lt (hlast a ha)) hae
    have hins := SortedMap.entries_insert_last (v := e.2) hlast
    obtain ⟨m', h1, h2⟩ := decodeEntries_flatMap es r (m.insert e.1 e.2)
      (by rw [hins]; simpa using hs) fun a ha => hf a (List.mem_cons_of_mem _ ha)
    refine ⟨m', ?_, by rw [h2, hins]; simp⟩
    simp only [List.flatMap_cons, List.append_assoc, List.length_cons, decodeEntries,
      decodeEntry_encodeEntry (hf e List.mem_cons_self), bind, Except.bind, if_neg hnew]
    exact h1

theorem length_entries_le (es : List (EntryName × Node)) :
    es.length ≤ (es.flatMap encodeEntry).length := by
  induction es with
  | nil => simp
  | cons e es ih =>
    simp only [List.flatMap_cons, List.length_append, List.length_cons]
    have : 1 ≤ (encodeEntry e).length := by simp [encodeEntry]
    omega

/-- Of a tree with too many entries for its count field, the decoder finds some left over. -/
theorem length_lt_of_decode {t t' : Tree} (hnodes : ∀ e ∈ t.iter, NodeFits e.2)
    (h : decode t.encode = .ok t') : t.iter.length < 256 ^ 4 := by
  by_contra hcount
  rw [not_lt] at hcount
  obtain ⟨k, hk⟩ : ∃ k, k = t.iter.length % 256 ^ 4 := ⟨_, rfl⟩
  have hlt : k < t.iter.length := by
    have := Nat.mod_lt t.iter.length (show 0 < 256 ^ 4 by decide)
    omega
  have hsplit : t.iter.flatMap encodeEntry
      = (t.iter.take k).flatMap encodeEntry ++ (t.iter.drop k).flatMap encodeEntry := by
    rw [← List.flatMap_append, List.take_append_drop]
  obtain ⟨m, h1, -⟩ := decodeEntries_flatMap (t.iter.take k) ((t.iter.drop k).flatMap encodeEntry)
    .empty (by simpa [SortedMap.empty, iter] using t.entries.sorted.sublist (List.take_sublist k _))
    fun e he => hnodes e (List.mem_of_mem_take he)
  rw [List.length_take_of_le hlt.le] at h1
  have hrest : (t.iter.drop k).flatMap encodeEntry ≠ [] := by
    intro hnil
    have hle := length_entries_le (t.iter.drop k)
    rw [hnil, List.length_drop, List.length_nil] at hle
    omega
  have hlen : ¬(t.iter.flatMap encodeEntry).length < k := by
    have hle := length_entries_le t.iter
    omega
  rw [← hsplit] at h1
  have herror : decode t.encode
      = .error (.trailingBytes ((t.iter.drop k).flatMap encodeEntry).length) := by
    rw [encode, List.append_assoc, decode]
    simp only [Reader.u16, Reader.number_toLe _ (show treeFormatVersion < 256 ^ 2 by decide),
      Reader.u32, Reader.number_toLe_mod, ← hk, h1, bind, Except.bind, if_neg hlen, if_pos hrest,
      ne_eq, not_true_eq_false, if_false]
    rfl
  rw [herror] at h
  cases h

/-- A tree the format has room for survives the round trip. -/
theorem decode_encode_of_fits {t : Tree} (h : t.Fits) : decode t.encode = .ok t := by
  obtain ⟨hcount, hnodes⟩ := h
  obtain ⟨m, h1, h2⟩ := decodeEntries_flatMap t.iter [] .empty
    (by simpa [SortedMap.empty, iter] using t.entries.sorted) hnodes
  have hm : (⟨m⟩ : Tree) = t := by
    rw [show m = t.entries from SortedMap.ext_entries (by simpa [SortedMap.empty, iter] using h2)]
  have hlen : t.iter.length ≤ (t.iter.map fun e => (encodeEntry e).length).sum := by
    simpa using length_entries_le t.iter
  simp only [List.append_nil] at h1
  simp [decode, encode, Reader.u16, Reader.u32, Reader.number_toLe _ hcount,
    Reader.number_toLe _ (show treeFormatVersion < 256 ^ 2 by decide), hlen.not_gt, h1, hm, bind,
    Except.bind, pure, Except.pure]

theorem mem_blobDigests {t : Tree} {d : Digest} :
    d ∈ t.blobDigests ↔ ∃ e ∈ t.iter, ∃ size x, e.2 = .file d size x := by
  unfold blobDigests SortedMap.values iter
  rw [List.filterMap_map, List.mem_filterMap]
  refine exists_congr fun e => and_congr_right fun _ => ?_
  rcases e with ⟨n, ⟨d', size, x⟩ | d' | target⟩ <;> simp [eq_comm]

theorem mem_subtreeDigests {t : Tree} {d : Digest} :
    d ∈ t.subtreeDigests ↔ ∃ e ∈ t.iter, e.2 = .dir d := by
  unfold subtreeDigests SortedMap.values iter
  rw [List.filterMap_map, List.mem_filterMap]
  refine exists_congr fun e => and_congr_right fun _ => ?_
  rcases e with ⟨n, ⟨d', size, x⟩ | d' | target⟩ <;> simp

end Tree

end Jetrun
