import Jetrun.FileTree
import Jetrun.Proofs.Manifest

/-!
# One tree, one manifest

A tree has one manifest that describes it, however deep it may be at most. If the objects it is made
of can be read, its digest expands to its entries, each of them once.
-/

namespace Jetrun

open Volumes Volumes.Volume

namespace FileTree

variable {f : FileTree} {n : String}

theorem Rooted.sub (h : f.Rooted) (n : String) : (f.sub n).Rooted := fun rel m hne =>
  h (n :: rel) m hne

/-- Below what is no directory there is nothing. -/
theorem Rooted.below (h : f.Rooted) (hroot : ∀ odd, f [] ≠ some (.dir odd)) :
    ∀ rel : Path, rel ≠ [] → f rel = none := by
  intro rel
  induction rel using List.reverseRecOn with
  | nil => exact fun hnil => absurd rfl hnil
  | append_singleton rel n ih =>
    intro _
    by_contra hne
    obtain ⟨odd, hodd⟩ := h rel n hne
    by_cases hrel : rel = []
    · subst hrel
      exact hroot odd hodd
    · rw [ih hrel] at hodd
      cases hodd

theorem Rooted.head (h : f.Rooted) {rel : Path} (hne : f (n :: rel) ≠ none) : f [n] ≠ none := by
  intro hnone
  have hbelow := (h.sub n).below (fun odd hodd => by
    rw [show f.sub n [] = none from hnone] at hodd
    cases hodd)
  by_cases hrel : rel = []
  · exact hne (hrel ▸ hnone)
  · exact hne (hbelow rel hrel)

theorem Portable.sub (h : f.Portable) (n : String) : (f.sub n).Portable where
  depth rel odd hodd := Nat.le_of_succ_le (h.depth (n :: rel) odd hodd)
  target rel := h.target (n :: rel)
  entries rel := h.entries (n :: rel)

theorem Linkable.sub (h : f.Linkable) (n : String) : (f.sub n).Linkable := fun rel => h (n :: rel)

end FileTree

section Views

variable {v v' : Volume String} {dir q : Path} {own : Path → Prop}

theorem view_sub (v : Volume String) (dir : Path) (n : String) :
    (view v dir).sub n = view v (dir ++ [n]) := by
  funext rel
  simp [FileTree.sub, view]

theorem view_rooted (h : dir ≠ []) : (view v dir).Rooted := by
  intro rel n hne
  unfold view at hne ⊢
  rw [← List.append_assoc] at hne
  obtain ⟨e, he⟩ : ∃ e, v.find (dir ++ rel ++ [n]) = some e :=
    Option.ne_none_iff_exists'.1 fun hnone => hne (by rw [hnone]; rfl)
  rcases isDir_iff.1 (isDir_of_child he) with hnil | ⟨odd, hodd⟩
  · exact absurd (List.append_eq_nil_iff.1 hnil).1 h
  · exact ⟨odd, by rw [hodd]; rfl⟩

/-- What is off the paths that changed looks the same. -/
theorem seen_beside (h : Beside own v v') (hq : ¬own q) :
    (v'.find q).map (seenAs v') = (v.find q).map (seenAs v) := by
  rw [h.find hq]
  rcases hf : v.find q with _ | (i | _ | _ | _)
  · rfl
  · simp only [Option.map_some, seenAs, h.inode hq hf]
  · rfl
  · rfl
  · rfl

theorem view_beside (h : Beside own v v') (hdir : ∀ rel, ¬own (dir ++ rel)) :
    view v' dir = view v dir :=
  funext fun rel => seen_beside h (hdir rel)

end Views

section Manifests

variable {b3 : Blake3} {f : FileTree} {k k' : ℕ} {t t' : Tree} {r : Request}

theorem Describes.root : ∀ {k}, Describes b3 k f t → f [] = some (.dir [])
  | _ + 1, h => h.1

section Nodes

/-- A node is of the kind of what is seen. -/
structure Node.Kind (node : Node) (s : Seen) : Prop where
  file : s.isFile = node.isFile
  dir : s.isDir = node.isDir
  symlink : s.isSymlink = node.isSymlink

/-- A node and what is seen of it, as far as they are counted. -/
structure Node.Counts (node : Node) (s : Seen) : Prop where
  file : s.isFile = node.isFile
  dir : s.isDir = node.isDir
  symlink : s.isSymlink = node.isSymlink
  size : node.declaredSize = UInt64.ofNat s.size

variable {P P' : FileTree → Tree → Prop} {node node' : Node}

theorem Node.Counts.kind {s : Seen} (h : node.Counts s) : node.Kind s := ⟨h.file, h.dir, h.symlink⟩

theorem NodeFor.mono (h : NodeFor b3 P f node) (hP : ∀ t, P f t → P' f t) :
    NodeFor b3 P' f node := by
  rcases node with ⟨d, size, x⟩ | d | target
  · exact h
  · obtain ⟨t, ht, hd⟩ := h
    exact ⟨t, hP t ht, hd⟩
  · exact h

/-- A node is of the kind of what it stands for. -/
theorem NodeFor.seen (hroot : ∀ t, P f t → f [] = some (.dir [])) (h : NodeFor b3 P f node) :
    ∃ s, f [] = some s ∧ node.Counts s := by
  rcases node with ⟨d, size, x⟩ | d | target
  · obtain ⟨content, hcontent, -, hsize⟩ := h
    exact ⟨_, hcontent, rfl, rfl, rfl, hsize⟩
  · obtain ⟨t, ht, -⟩ := h
    exact ⟨_, hroot t ht, rfl, rfl, rfl, rfl⟩
  · exact ⟨_, h, rfl, rfl, rfl, rfl⟩

theorem NodeFor.of_dir {odd : List String} (h : NodeFor b3 P f node)
    (hdir : f [] = some (.dir odd)) : ∃ t, P f t := by
  rcases node with ⟨d, size, x⟩ | d | target
  · obtain ⟨content, hcontent, -⟩ := h
    cases hdir.symm.trans hcontent
  · obtain ⟨t, ht, -⟩ := h
    exact ⟨t, ht⟩
  · cases hdir.symm.trans (show f [] = some (.symlink (Utf8.encode target)) from h)

theorem NodeFor.unique (h : ∀ t t', P f t → P' f t' → t = t')
    (hroot : ∀ t, P f t → f [] = some (.dir [])) (hroot' : ∀ t, P' f t → f [] = some (.dir []))
    (hn : NodeFor b3 P f node) (hn' : NodeFor b3 P' f node') : node = node' := by
  obtain ⟨s, hs, hcounts⟩ := hn.seen hroot
  obtain ⟨s', hs', hcounts'⟩ := hn'.seen hroot'
  obtain rfl : s = s' := Option.some.inj (hs.symm.trans hs')
  have hfile := hcounts.file.symm.trans hcounts'.file
  have hdir := hcounts.dir.symm.trans hcounts'.dir
  rcases node with ⟨d, size, x⟩ | d | target <;> rcases node' with ⟨d', size', x'⟩ | d' | target'
  · obtain ⟨content, hc, rfl, rfl⟩ := hn
    obtain ⟨content', hc', rfl, rfl⟩ := hn'
    rw [hc, Option.some.injEq, Seen.file.injEq] at hc'
    obtain ⟨rfl, rfl⟩ := hc'
    rfl
  · cases hfile
  · cases hfile
  · cases hfile
  · obtain ⟨t, ht, rfl⟩ := hn
    obtain ⟨t', ht', rfl⟩ := hn'
    rw [h t t' ht ht']
  · cases hdir
  · cases hfile
  · cases hdir
  · have hlink : f [] = some (.symlink (Utf8.encode target)) := hn
    have hlink' : f [] = some (.symlink (Utf8.encode target')) := hn'
    rw [hlink, Option.some.injEq, Seen.symlink.injEq] at hlink'
    rw [Utf8.encode_inj hlink']

end Nodes

theorem Describes.seen {node : Node} (h : NodeFor b3 (Describes b3 k) f node) :
    ∃ s, f [] = some s ∧ node.Counts s :=
  h.seen fun _ => Describes.root

/-- A tree has one manifest. -/
theorem Describes.unique : ∀ {k k' : ℕ} {f : FileTree} {t t' : Tree},
    Describes b3 k f t → Describes b3 k' f t' → t = t'
  | k + 1, k' + 1, f, t, t', h, h' => by
    have hsub : ∀ {k k' : ℕ} {t t' : Tree}, (∀ {f : FileTree} {t t' : Tree}, Describes b3 k f t →
        Describes b3 k' f t' → t = t') → Describes b3 (k + 1) f t → Describes b3 (k' + 1) f t' →
        ∀ e ∈ t.iter, e ∈ t'.iter := by
      intro k k' t t' ih h h' e he
      have hnode := h.2.2 e he
      obtain ⟨s, hs, -⟩ := Describes.seen hnode
      obtain ⟨e', he', hname⟩ := h'.2.1 e.1.text (Option.ne_none_iff_exists'.2 ⟨s, hs⟩)
      have hnode' := h'.2.2 e' he'
      rw [hname] at hnode'
      have hsame : e' = e := Prod.ext (EntryName.ext_text hname)
        (hnode.unique (fun _ _ => ih) (fun _ => Describes.root) (fun _ => Describes.root)
          hnode').symm
      exact hsame ▸ he'
    have hmem : ∀ e, e ∈ t.entries.entries ↔ e ∈ t'.entries.entries := fun e =>
      ⟨hsub Describes.unique h h' e, hsub (fun ht ht' => (Describes.unique ht' ht).symm) h' h e⟩
    exact Tree.ext_iter (congrArg SortedMap.entries (SortedMap.ext_mem hmem))

end Manifests

section Parts

variable {b3 : Blake3} {f : FileTree} {k : ℕ} {t : Tree} {r : Request}

theorem Part.of_sub {n : String} : Part b3 (f.sub n) r → Part b3 f r := fun ⟨rel, h⟩ => ⟨n :: rel, h⟩

/-- What is no directory has at most its own content for a part. -/
theorem part_leaf (hf : f.Rooted) (hroot : ∀ odd, f [] ≠ some (.dir odd)) (h : Part b3 f r) :
    ∃ content x, f [] = some (.file content x) ∧ r = .bytes content := by
  obtain ⟨rel, h⟩ := h
  rcases rel with _ | ⟨n, rel⟩
  · rcases h with h | ⟨k, t, ht, -⟩
    · exact h
    · exact absurd ht.root (hroot _)
  · have hnone := hf.below hroot (n :: rel) (by simp)
    rcases h with ⟨content, x, hfile, -⟩ | ⟨k, t, ht, -⟩
    · rw [hnone] at hfile
      cases hfile
    · have hdir := ht.root
      rw [List.append_nil, hnone] at hdir
      cases hdir

/-- The parts of a directory are its manifest and the parts of its entries. -/
theorem Describes.part_iff (hf : f.Rooted) (h : Describes b3 k f t) :
    Part b3 f r ↔ r = .tree t ∨ ∃ e ∈ t.iter, Part b3 (f.sub e.1.text) r := by
  constructor
  · rintro ⟨rel, hrel⟩
    rcases rel with _ | ⟨n, rel⟩
    · rcases hrel with ⟨content, x, hfile, -⟩ | ⟨k', t', ht', rfl⟩
      · cases h.root.symm.trans hfile
      · exact .inl (congrArg Request.tree (ht'.unique h))
    · refine .inr ?_
      have hne : f (n :: rel) ≠ none := by
        rcases hrel with ⟨content, x, hfile, -⟩ | ⟨k', t', ht', -⟩
        · simp [hfile]
        · have hroot := ht'.root
          rw [List.append_nil] at hroot
          simp [hroot]
      obtain ⟨levels, rfl⟩ : ∃ levels, k = levels + 1 := by
        rcases k with _ | levels
        · exact h.elim
        · exact ⟨levels, rfl⟩
      obtain ⟨e, he, rfl⟩ := h.2.1 n (hf.head hne)
      exact ⟨e, he, rel, hrel⟩
  · rintro (rfl | ⟨e, -, he⟩)
    · exact ⟨[], .inr ⟨k, t, h, rfl⟩⟩
    · exact he.of_sub

theorem Describes.node_fits (h : Describes b3 k f t) (hlinks : f.Linkable) :
    ∀ e ∈ t.iter, Tree.NodeFits e.2 := by
  intro e he
  rcases k with _ | levels
  · exact h.elim
  have hnode := h.2.2 e he
  rcases e with ⟨n, ⟨d, size, x⟩ | d | target⟩
  · trivial
  · trivial
  · obtain ⟨hne, hlen⟩ := hlinks [n.text] (Utf8.encode target) hnode
    exact ⟨fun hempty => hne (by rw [hempty]; rfl), hlen⟩

end Parts

namespace ObjectStore

section Expansion

variable {b3 : Blake3} {st : ObjectStore} {v : Volume String}
  {into : Digest → Except CasError (List (Path × Node))}

theorem treeAt_of_readable {t : Tree} (hfits : t.Fits)
    (h : Machine.readable v (st.objectPath (t.digest b3)) = .ok t.encode) :
    treeAt b3 st v (t.digest b3) = .ok t := by
  simp [treeAt, treeOf, bytesOf, h, Tree.decode_encode_of_fits hfits, Except.mapError, bind,
    Except.bind, pure, Except.pure]

/-- An entry comes first in its own expansion, before what is below it. -/
theorem mem_expandEntry {e : EntryName × Node} {l : List (Path × Node)}
    (h : expandEntry st v into e = .ok l) {x : Path × Node} :
    x ∈ l ↔ x = ([e.1.text], e.2) ∨
      ∃ d l', e.2 = .dir d ∧ into d = .ok l' ∧ ∃ y ∈ l', x = (e.1.text :: y.1, y.2) := by
  unfold expandEntry at h
  rcases e with ⟨n, ⟨d, size, executable⟩ | d | target⟩
  · simp only [] at h
    split_ifs at h
    cases h
    simp
  · simp only [] at h
    rcases hd : into d with e | l'
    · rw [hd] at h
      cases h
    · rw [hd] at h
      cases h
      simp [hd, eq_comm]
  · cases h
    simp

theorem into_of_expandEntry {n : EntryName} {d : Digest} {l : List (Path × Node)}
    (h : expandEntry st v into (n, .dir d) = .ok l) : ∃ l', into d = .ok l' := by
  change (into d).map _ = _ at h
  rcases hd : into d with e | l'
  · rw [hd] at h
    cases h
  · exact ⟨l', rfl⟩

theorem expandEntries_cons {e : EntryName × Node} {es : List (EntryName × Node)}
    {ls : List (Path × Node)} (h : expandEntries st v into (e :: es) = .ok ls) :
    ∃ l l', expandEntry st v into e = .ok l ∧ expandEntries st v into es = .ok l' ∧
      ls = l ++ l' := by
  obtain ⟨l, hl, hrest⟩ := Except.eq_ok_of_bind h
  obtain ⟨l', hl', hlast⟩ := Except.eq_ok_of_bind hrest
  cases hlast
  exact ⟨l, l', hl, hl', rfl⟩

theorem expandEntries_entry {e : EntryName × Node} : ∀ {es : List (EntryName × Node)}
    {ls : List (Path × Node)}, expandEntries st v into es = .ok ls → e ∈ es →
    ∃ l, expandEntry st v into e = .ok l
  | e' :: es, ls, h, he => by
    obtain ⟨l, l', hl, hl', -⟩ := expandEntries_cons h
    rcases List.mem_cons.1 he with rfl | he
    · exact ⟨l, hl⟩
    · exact expandEntries_entry hl' he

theorem mem_expandEntries : ∀ {es : List (EntryName × Node)} {ls : List (Path × Node)},
    expandEntries st v into es = .ok ls → ∀ x, x ∈ ls ↔ ∃ e ∈ es, ∃ l,
      expandEntry st v into e = .ok l ∧ x ∈ l
  | [], ls, h, x => by
    cases h
    simp
  | e :: es, ls, h, x => by
    obtain ⟨l, l', hl, hl', rfl⟩ := expandEntries_cons h
    rw [List.mem_append, mem_expandEntries hl' x]
    simp [hl]

theorem expandEntries_append : ∀ {es es' : List (EntryName × Node)} {l : List (Path × Node)},
    expandEntries st v into es = .ok l →
      expandEntries st v into (es ++ es') = (expandEntries st v into es').map (l ++ ·)
  | [], es', l, h => by
    cases h
    rw [List.nil_append]
    rcases expandEntries st v into es' with e | l
    · rfl
    · rfl
  | e :: es, es', ls, h => by
    obtain ⟨l, l', hl, hl', rfl⟩ := expandEntries_cons h
    rw [List.cons_append, expandEntries, hl, expandEntries_append hl']
    rcases expandEntries st v into es' with e | l''
    · rfl
    · exact congrArg Except.ok (List.append_assoc l l' l'').symm

/-- Two volumes with the same objects. -/
structure SameObjects (st : ObjectStore) (v v' : Volume String) : Prop where
  find : ∀ d, v'.find (st.objectPath d) = v.find (st.objectPath d)
  read : ∀ d, Machine.readable v' (st.objectPath d) = Machine.readable v (st.objectPath d)

theorem readable_beside {v' : Volume String} {own : Path → Prop} {p : Path} (h : Beside own v v')
    (hp : ¬own p) : Machine.readable v' p = Machine.readable v p := by
  unfold Machine.readable Machine.fileAt
  rw [h.find hp]
  rcases hf : v.find p with _ | (i | _ | _ | _)
  · rfl
  · exact congrArg Except.ok (congrArg Inode.content (h.inode hp hf))
  · rfl
  · rfl
  · rfl

theorem sameObjects_beside {v' : Volume String} {own : Path → Prop} (h : Beside own v v')
    (hown : ∀ d, ¬own (st.objectPath d)) : SameObjects st v v' :=
  ⟨fun d => h.find (hown d), fun d => readable_beside h (hown d)⟩

/-- Paths that are listed once, none of them the root. -/
structure Once (l : List (Path × Node)) : Prop where
  nodup : (l.map Prod.fst).Nodup
  ne_nil : ∀ x ∈ l, x.1 ≠ []

theorem expandEntry_once (hinto : ∀ d l, into d = .ok l → Once l) {e : EntryName × Node}
    {l : List (Path × Node)} (h : expandEntry st v into e = .ok l) :
    (l.map Prod.fst).Nodup ∧ ∀ x ∈ l, x.1.head? = some e.1.text := by
  refine ⟨?_, fun x hx => ?_⟩
  · unfold expandEntry at h
    rcases e with ⟨n, ⟨d, size, executable⟩ | d | target⟩
    · simp only [] at h
      split_ifs at h
      cases h
      exact List.nodup_singleton _
    · simp only [] at h
      rcases hd : into d with e | l'
      · rw [hd] at h
        cases h
      · rw [hd] at h
        cases h
        have honce := hinto d l' hd
        rw [List.map_cons, List.map_map, List.nodup_cons]
        refine ⟨fun hmem => ?_, ?_⟩
        · obtain ⟨y, hy, heq⟩ := List.mem_map.1 hmem
          exact honce.ne_nil y hy (List.cons.inj heq).2
        · have hnodup := honce.nodup.map fun p q (h : n.text :: p = n.text :: q) => (List.cons.inj h).2
          rwa [List.map_map] at hnodup
    · cases h
      exact List.nodup_singleton _
  · rcases (mem_expandEntry h).1 hx with rfl | ⟨d, l', -, -, y, -, rfl⟩
    · rfl
    · rfl

theorem expandEntries_once (hinto : ∀ d l, into d = .ok l → Once l) :
    ∀ {es : List (EntryName × Node)} {ls : List (Path × Node)}, (es.map Prod.fst).Nodup →
      expandEntries st v into es = .ok ls → Once ls
  | [], ls, _, h => by
    cases h
    exact ⟨List.nodup_nil, by simp⟩
  | e :: es, ls, hes, h => by
    obtain ⟨l, l', hl, hl', rfl⟩ := expandEntries_cons h
    rw [List.map_cons, List.nodup_cons] at hes
    have hrest := expandEntries_once hinto hes.2 hl'
    obtain ⟨hnodup, hhead⟩ := expandEntry_once hinto hl
    refine ⟨?_, fun x hx => ?_⟩
    · rw [List.map_append, List.nodup_append]
      refine ⟨hnodup, hrest.nodup, fun p hp q hq hpq => hes.1 ?_⟩
      obtain ⟨x, hx, rfl⟩ := List.mem_map.1 hp
      obtain ⟨y, hy, rfl⟩ := List.mem_map.1 hq
      obtain ⟨e', he', l₂, hl₂, hy'⟩ := (mem_expandEntries hl' y).1 hy
      -- the first component tells which entry a path belongs to
      have hname := (expandEntry_once hinto hl₂).2 y hy'
      rw [← hpq, hhead x hx, Option.some.injEq] at hname
      exact List.mem_map.2 ⟨e', he', EntryName.ext_text hname.symm⟩
    · rcases List.mem_append.1 hx with hx | hx
      · intro hnil
        have hsome := hhead x hx
        rw [hnil] at hsome
        cases hsome
      · exact hrest.ne_nil x hx

theorem expand_succ {levels : ℕ} {d : Digest} {l : List (Path × Node)}
    (h : expand b3 st v (levels + 1) d = .ok l) :
    ∃ t, treeAt b3 st v d = .ok t ∧ expandEntries st v (expand b3 st v levels) t.iter = .ok l :=
  Except.eq_ok_of_bind h

theorem expand_once : ∀ (levels : ℕ) (d : Digest) (l : List (Path × Node)),
    expand b3 st v levels d = .ok l → Once l
  | 0, _, _, h => by cases h
  | levels + 1, d, l, h => by
    obtain ⟨t, -, hl⟩ := expand_succ h
    exact expandEntries_once (expand_once levels) t.entries.keys_nodup hl

end Expansion

section Described

variable {b3 : Blake3} {st : ObjectStore} {v : Volume String}
  {into : Digest → Except CasError (List (Path × Node))} {f : FileTree}

/-- A tree reflects these entries, and their counts are its own. -/
structure Mirrors (st : ObjectStore) (v : Volume String) (l : List (Path × Node)) (f : FileTree) :
    Prop where
  reflects : Reflects st v l f
  counts : ∀ x ∈ l, ∃ s, f x.1 = some s ∧ x.2.Counts s

/-- These are the entries at a name and below it. -/
structure ReflectsAt (st : ObjectStore) (v : Volume String) (n : String) (l : List (Path × Node))
    (f : FileTree) : Prop where
  entry : ∀ x ∈ l, ∃ rest, x.1 = n :: rest ∧ f rest = shown st v x.2
  only : ∀ rel, f rel ≠ none → n :: rel ∈ l.map Prod.fst

/-- What has nothing below it stands for itself. -/
theorem reflectsAt_leaf {n : String} {node : Node} (hbelow : ∀ rel : Path, rel ≠ [] → f rel = none)
    (hshown : f [] = shown st v node) : ReflectsAt st v n [([n], node)] f where
  entry x hx := by
    obtain rfl := List.mem_singleton.1 hx
    exact ⟨[], rfl, hshown⟩
  only rel hrel := by
    have hnil : rel = [] := by
      by_contra hne
      exact hrel (hbelow rel hne)
    simp [hnil]

theorem Reflects.at_name {n : String} {d : Digest} {l : List (Path × Node)}
    (h : Reflects st v l f) :
    ReflectsAt st v n (([n], .dir d) :: l.map fun x => (n :: x.1, x.2)) f where
  entry x hx := by
    rcases List.mem_cons.1 hx with rfl | hx
    · exact ⟨[], rfl, h.root⟩
    · obtain ⟨y, hy, rfl⟩ := List.mem_map.1 hx
      exact ⟨y.1, rfl, h.entry y hy⟩
  only rel hrel := by
    rcases h.only rel hrel with rfl | hmem
    · exact List.mem_cons_self
    · obtain ⟨y, hy, rfl⟩ := List.mem_map.1 hmem
      exact List.mem_cons_of_mem _ (List.mem_map.2 ⟨_, List.mem_map.2 ⟨y, hy, rfl⟩, rfl⟩)

theorem expandEntry_dir {n : EntryName} {d : Digest} {l : List (Path × Node)}
    (h : into d = .ok l) : expandEntry st v into (n, .dir d)
      = .ok (([n.text], .dir d) :: l.map fun x => (n.text :: x.1, x.2)) := by
  show (into d).map _ = _
  rw [h]
  rfl

theorem treeAt_eq_ok {d : Digest} {t : Tree} (h : treeAt b3 st v d = .ok t) :
    ∃ bytes, Machine.readable v (st.objectPath d) = .ok bytes ∧ Tree.decode bytes = .ok t := by
  obtain ⟨bytes, hbytes, hdecode, -⟩ := st.treeOf_ok b3 h
  exact ⟨bytes, hbytes, hdecode⟩

/-- Where the manifest of a tree stands, only that tree is decoded. -/
theorem treeAt_unique {t t' : Tree} (hnodes : ∀ e ∈ t.iter, Tree.NodeFits e.2)
    (hread : Machine.readable v (st.objectPath (t.digest b3)) = .ok t.encode)
    (h : treeAt b3 st v (t.digest b3) = .ok t') : t.Fits ∧ t' = t := by
  obtain ⟨bytes, hbytes, hdecode⟩ := treeAt_eq_ok h
  cases hread.symm.trans hbytes
  have hfits : t.Fits := ⟨Tree.length_lt_of_decode hnodes hdecode, hnodes⟩
  exact ⟨hfits, Except.ok.inj (hdecode.symm.trans (Tree.decode_encode_of_fits hfits))⟩

/-- Only one tree is made of these entries. -/
theorem Reflects.unique {v' : Volume String} {l : List (Path × Node)} {f f' : FileTree}
    (h : Reflects st v l f) (h' : Reflects st v' l f')
    (hshown : ∀ x ∈ l, shown st v x.2 = shown st v' x.2) : f = f' := by
  funext rel
  by_cases hrel : rel = []
  · rw [hrel, h.root, h'.root]
  · by_cases hmem : rel ∈ l.map Prod.fst
    · obtain ⟨x, hx, rfl⟩ := List.mem_map.1 hmem
      rw [h.entry x hx, h'.entry x hx, hshown x hx]
    · have hnone : f rel = none := by
        by_contra hne
        exact (h.only rel hne).elim hrel hmem
      have hnone' : f' rel = none := by
        by_contra hne
        exact (h'.only rel hne).elim hrel hmem
      rw [hnone, hnone']

/-- The paths of a tree are those of its entries, and its root. -/
theorem Reflects.paths {l : List (Path × Node)} (h : Reflects st v l f) (honce : Once l)
    (hsome : ∀ x ∈ l, f x.1 ≠ none) :
    ([] :: l.map Prod.fst).Nodup ∧ ∀ rel, rel ∈ [] :: l.map Prod.fst ↔ f rel ≠ none := by
  refine ⟨List.nodup_cons.2 ⟨fun hmem => ?_, honce.nodup⟩, fun rel => ⟨fun hrel => ?_, fun hrel => ?_⟩⟩
  · obtain ⟨x, hx, hnil⟩ := List.mem_map.1 hmem
    exact honce.ne_nil x hx hnil
  · rcases List.mem_cons.1 hrel with rfl | hrel
    · simp [h.root]
    · obtain ⟨x, hx, rfl⟩ := List.mem_map.1 hrel
      exact hsome x hx
  · rcases h.only rel hrel with rfl | hmem
    · exact List.mem_cons_self
    · exact List.mem_cons_of_mem _ hmem

/-- What is counted at these paths is what is counted of the nodes. -/
theorem counts_seen {f : FileTree} : ∀ {l : List (Path × Node)},
    (∀ x ∈ l, ∃ s, f x.1 = some s ∧ x.2.Kind s) → ∃ seen,
      (l.map Prod.fst).filterMap f = seen ∧
      seen.countP Seen.isFile = (l.map Prod.snd).countP Node.isFile ∧
      seen.countP Seen.isDir = (l.map Prod.snd).countP Node.isDir ∧
      seen.countP Seen.isSymlink = (l.map Prod.snd).countP Node.isSymlink
  | [], _ => ⟨[], rfl, rfl, rfl, rfl⟩
  | x :: l, h => by
    obtain ⟨s, hs, hkind⟩ := h x List.mem_cons_self
    obtain ⟨seen, hseen, hfile, hdir, hlink⟩ :=
      counts_seen fun y hy => h y (List.mem_cons_of_mem _ hy)
    refine ⟨s :: seen, ?_, ?_, ?_, ?_⟩
    · rw [List.map_cons, List.filterMap_cons_some hs, hseen]
    · rw [List.countP_cons, hfile, hkind.file, List.map_cons, List.countP_cons]
    · rw [List.countP_cons, hdir, hkind.dir, List.map_cons, List.countP_cons]
    · rw [List.countP_cons, hlink, hkind.symlink, List.map_cons, List.countP_cons]

/-- The counters of a tree that was written out from nothing. -/
theorem Reflects.counted {l : List (Path × Node)} (h : Reflects st v l f)
    (hkinds : ∀ x ∈ l, ∃ s, f x.1 = some s ∧ x.2.Kind s) {s : MaterializeStats}
    (hs : Counted { MaterializeStats.zero with dirs := 1 } (l.map Prod.snd) s) :
    s.files = UInt64.ofNat ((([] :: l.map Prod.fst).filterMap f).countP Seen.isFile) ∧
      s.dirs = UInt64.ofNat ((([] :: l.map Prod.fst).filterMap f).countP Seen.isDir) ∧
      s.symlinks = UInt64.ofNat ((([] :: l.map Prod.fst).filterMap f).countP Seen.isSymlink) := by
  obtain ⟨seen, hseen, hfile, hdir, hlink⟩ := counts_seen hkinds
  rw [List.filterMap_cons_some h.root, hseen]
  refine ⟨?_, ?_, ?_⟩
  · rw [hs.files, List.countP_cons_of_neg (by simp [Seen.isFile]), hfile]
    exact UInt64.zero_add _
  · rw [hs.dirs, List.countP_cons_of_pos rfl, hdir, UInt64.ofNat_add]
    exact UInt64.add_comm _ _
  · rw [hs.symlinks, List.countP_cons_of_neg (by simp [Seen.isSymlink]), hlink]
    exact UInt64.zero_add _

end Described

end ObjectStore

end Jetrun
