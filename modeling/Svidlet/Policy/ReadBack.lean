import Svidlet.Lib.Pieces
import Svidlet.Policy.Unpack

/-!
# Reading a version back

`collect` walks a version's directory and turns every file it meets into a document. `Found t dir
keep docs` is what such a walk has to come to: the documents are the files of the tree whose path
`keep` picks, each of them once. The walk is put together from this relation as the program is from
its parts: one name of a directory, all names of it, and the directory.

In a directory that holds a bundle the paths are those of the bundle's entries, and the name of a
document is the path of its entry again. So what `read` returns are the entries, the last one of
each path (`read_unpacked`).
-/

namespace Svidlet.Policy

open Lib Lib.FileTree

/-! ## 1. Paths and their segments -/

/-- Splitting a path and writing it again. -/
theorem joinSlash_segments (path : String) : joinSlash (segments path) = path := by
  apply String.toList_inj.mp
  have hmap : ((segments path).map String.toList) = splitChar '/' path.toList := by
    simp [segments, Function.comp_def]
  rw [joinSlash, String.toList_intercalate, hmap]
  exact intercalate_splitChar '/' path.toList

theorem segments_injective {path path' : String} (h : segments path = segments path') :
    path = path' := by
  rw [← joinSlash_segments path, h, joinSlash_segments]

/-! ## 2. What a walk has found -/

/-- The document of a file. -/
def toDocument (file : Path × Bytes) : PolicyDocument := ⟨joinSlash file.1, file.2⟩

/-- The documents are the files under `dir` that `keep` picks, each once. -/
def Found (t : FileTree Bytes) (dir : Path) (keep : Path → Prop) (docs : List PolicyDocument) :
    Prop :=
  ∃ found : List (Path × Bytes), docs = found.map toDocument ∧ (found.map Prod.fst).Nodup ∧
    ∀ p content, (p, content) ∈ found ↔ keep p ∧ t.HoldsFile (dir ++ p) content

section

variable {t : FileTree Bytes} {dir : Path} {keep keep' : Path → Prop}

theorem found_none (h : ∀ p, ¬ keep p) : Found t dir keep [] := by
  refine ⟨[], rfl, List.nodup_nil, ?_⟩
  intro p content
  constructor
  · intro hmem
    cases hmem
  · intro hp
    exact absurd hp.1 (h p)

variable {docs : List PolicyDocument}

theorem Found.congr (h : Found t dir keep docs)
    (heq : ∀ p content, t.HoldsFile (dir ++ p) content → (keep p ↔ keep' p)) :
    Found t dir keep' docs := by
  obtain ⟨found, hdocs, hnodup, hmem⟩ := h
  refine ⟨found, hdocs, hnodup, ?_⟩
  intro p content
  rw [hmem]
  constructor
  · intro hp
    exact ⟨(heq p content hp.2).mp hp.1, hp.2⟩
  · intro hp
    exact ⟨(heq p content hp.2).mpr hp.1, hp.2⟩

/-- Two walks over different files, one after the other. -/
theorem Found.append {docs' : List PolicyDocument} (h : Found t dir keep docs)
    (h' : Found t dir keep' docs') (hapart : ∀ p, keep p → ¬ keep' p) :
    Found t dir (fun p => keep p ∨ keep' p) (docs ++ docs') := by
  obtain ⟨found, rfl, hnodup, hmem⟩ := h
  obtain ⟨found', rfl, hnodup', hmem'⟩ := h'
  refine ⟨found ++ found', by rw [List.map_append], ?_, ?_⟩
  · rw [List.map_append, List.nodup_append]
    refine ⟨hnodup, hnodup', ?_⟩
    intro p hp p' hp' heq
    subst heq
    obtain ⟨⟨q, c⟩, hin, rfl⟩ := List.mem_map.mp hp
    obtain ⟨⟨q', c'⟩, hin', hq⟩ := List.mem_map.mp hp'
    obtain rfl : q' = q := hq
    exact hapart q' ((hmem q' c).mp hin).1 ((hmem' q' c').mp hin').1
  · intro p content
    rw [List.mem_append, hmem, hmem']
    tauto

variable {p : Path} {content : Bytes}

theorem holdsFile_unique {content' : Bytes} (h : t.HoldsFile p content)
    (h' : t.HoldsFile p content') : content = content' := by
  obtain ⟨ino, h⟩ := h
  obtain ⟨ino', h'⟩ := h'
  rw [h] at h'
  cases h'
  rfl

theorem not_isDir_of_holdsFile (h : t.HoldsFile p content) : ¬ t.IsDir p := by
  intro hd
  obtain ⟨ino, h⟩ := h
  rw [view_eq_dir.mpr hd] at h
  cases h

/-- A file is all there is at its path and below. -/
theorem found_file (hwf : t.WellFormed) {path : Path} (hfile : t.HoldsFile (dir ++ path) content) :
    Found t dir (path <+: ·) [⟨joinSlash path, content⟩] := by
  refine ⟨[(path, content)], rfl, List.nodup_singleton _, ?_⟩
  intro p content'
  rw [List.mem_singleton, Prod.mk.injEq]
  constructor
  · intro h
    obtain ⟨rfl, rfl⟩ := h
    exact ⟨List.prefix_refl _, hfile⟩
  · intro h
    obtain ⟨hpre, hholds⟩ := h
    have hp : p = path := by
      by_contra hne
      have hdir : t.IsDir (dir ++ path) :=
        hwf.above (ne_none_of_holdsFile hholds) ((List.prefix_append_right_inj dir).mpr hpre)
          fun heq => hne (List.append_cancel_left heq).symm
      exact not_isDir_of_holdsFile hfile hdir
    subst hp
    exact ⟨rfl, holdsFile_unique hholds hfile⟩

/-- A file below a directory is at one of the names the directory lists, or below it. -/
theorem under_a_name (hwf : t.WellFormed) {sub : Path} {names : List String}
    (hdir : t.IsDir (dir ++ sub)) (hnames : (t.names (dir ++ sub)).Perm names)
    (hholds : t.HoldsFile (dir ++ p) content) :
    (∃ name ∈ names, sub ++ [name] <+: p) ↔ sub <+: p := by
  constructor
  · intro h
    obtain ⟨name, _, hpre⟩ := h
    exact (List.prefix_append sub [name]).trans hpre
  · intro h
    obtain ⟨rest, rfl⟩ := h
    cases rest with
    | nil =>
      rw [List.append_nil] at hholds
      exact absurd hdir (not_isDir_of_holdsFile hholds)
    | cons name rest =>
      refine ⟨name, hnames.mem_iff.mp ?_, ⟨rest, by simp⟩⟩
      rw [mem_names, Option.isSome_iff_ne_none]
      -- the name is the file itself, or a directory above it
      by_cases hrest : rest = []
      · have hnone := ne_none_of_holdsFile hholds
        rw [hrest, ← List.append_assoc] at hnone
        exact hnone
      refine (hwf.above (ne_none_of_holdsFile hholds) ⟨rest, by simp⟩ ?_).ne_none
      intro heq
      simp at heq
      exact hrest heq

end

/-! ## 3. The walk -/

/-- Nothing changed. -/
def Unchanged (t t' : FileTree Bytes) : Prop := t' = t

/-- A walk changes nothing, and if it gets to its end it has found what it is to find. -/
def WalkEnds (t : FileTree Bytes) (dir : Path) (keep : Path → Prop)
    (r : Except Error (List PolicyDocument)) (t' : FileTree Bytes) : Prop :=
  t' = t ∧ ∀ docs, r = .ok docs → Found t dir keep docs

section

variable {may : FsOp Bytes → Prop} {t : FileTree Bytes} {store : Store} {name : String}
  {deeper : Path → Disk (List PolicyDocument)}

theorem WalkEnds.error {dir : Path} {keep keep' : Path → Prop} {e e' : Error}
    {t' : FileTree Bytes} (h : WalkEnds t dir keep (.error e) t') :
    WalkEnds t dir keep' (.error e') t' :=
  ⟨h.1, nofun⟩

theorem collectAt_watch {path : Path} (h : Layout t)
    (hdeeper : Watch (Faulty may) Unchanged (WalkEnds t [versions, name] (path <+: ·))
      (deeper path).run t) :
    Watch (Faulty may) Unchanged (WalkEnds t [versions, name] (path <+: ·))
      (store.collectAt deeper [versions, name] path).run t := by
  unfold Store.collectAt
  refine .lift_bind (P := fun _ t' => t' = t) (watch_call fun ans t' hw => ?_) ?_
  · exact ⟨hw.isDir_same, hw.isDir_same⟩
  intro isDir t1 ht
  subst ht
  cases isDir with
  | true => exact hdeeper
  | false =>
    refine .run_bind (P := fun r t' => t' = t1 ∧
      ∀ content, r = .ok content → t1.HoldsFile ([versions, name] ++ path) content) ?_ ?_ ?_
    · refine watch_orIo (P := fun r t' => t' = t1 ∧
        ∀ content, r = .ok content → t1.HoldsFile ([versions, name] ++ path) content)
        (watch_call fun ans t' hw => ⟨hw.readFile_same, hw.readFile_same, ?_⟩) ?_ ?_
      · intro content hans
        subst hans
        exact hw.readFile_ok (h.linkless_in name path)
      · intro content t' hread
        exact ⟨hread.1, fun c hc => hread.2 c (by rw [Except.ok.inj hc])⟩
      · intro e e' t' hread
        exact ⟨hread.1, nofun⟩
    · intro content t2 hread
      refine .of_pure ⟨hread.1, ?_⟩
      intro docs hdocs
      obtain rfl := Except.ok.inj hdocs
      exact found_file h.wellFormed (hread.2 content rfl)
    · intro e t2 hread
      exact ⟨hread.1, nofun⟩

theorem collectEach_watch {sub : Path} {names : List String} (h : Layout t) (hnodup : names.Nodup)
    (hdeeper : ∀ path, Watch (Faulty may) Unchanged (WalkEnds t [versions, name] (path <+: ·))
      (deeper path).run t) :
    Watch (Faulty may) Unchanged
      (WalkEnds t [versions, name] fun p => ∃ x ∈ names, sub ++ [x] <+: p)
      (store.collectEach deeper [versions, name] sub names).run t := by
  induction names with
  | nil =>
    refine .of_pure ⟨rfl, ?_⟩
    intro docs hdocs
    obtain rfl := Except.ok.inj hdocs
    refine found_none ?_
    intro p hp
    obtain ⟨x, hx, _⟩ := hp
    cases hx
  | cons x rest ih =>
    obtain ⟨hx, hrest⟩ := List.nodup_cons.mp hnodup
    unfold Store.collectEach
    refine .run_bind (collectAt_watch h (hdeeper (sub ++ [x]))) ?_ fun e t' he => he.error
    intro here t1 hhere
    obtain ⟨ht, hhere⟩ := hhere
    subst ht
    refine .run_bind (ih hrest) ?_ fun e t' he => he.error
    intro others t2 hothers
    obtain ⟨ht, hothers⟩ := hothers
    refine .of_pure ⟨ht, ?_⟩
    intro docs hdocs
    obtain rfl := Except.ok.inj hdocs
    have hboth := (hhere here rfl).append (hothers others rfl) ?_
    · refine hboth.congr fun p content _ => ?_
      simp only [List.mem_cons, exists_eq_or_imp]
    -- a path goes through one name of a directory only
    intro p hp hp'
    obtain ⟨y, hy, hpy⟩ := hp'
    have heq : sub ++ [x] = sub ++ [y] := by
      rcases List.prefix_or_prefix_of_prefix hp hpy with hxy | hxy
      · exact hxy.eq_of_length (by simp)
      · exact (hxy.eq_of_length (by simp)).symm
    obtain rfl := List.singleton_inj.mp (List.append_cancel_left heq)
    exact hx hy

/-- A walk of a directory. -/
theorem collect_watch {depth : Nat} {sub : Path} (h : Layout t) : Watch (Faulty may) Unchanged
      (fun r t' => WalkEnds t [versions, name] (sub <+: ·) r t' ∧
        ∀ docs, r = .ok docs → t.IsDir ([versions, name] ++ sub))
      (store.collect [versions, name] depth sub).run t := by
  induction depth generalizing sub with
  | zero => exact .of_pure ⟨⟨rfl, nofun⟩, nofun⟩
  | succ depth ih =>
    unfold Store.collect
    refine .run_bind (P := fun r t' => t' = t ∧ ∀ names, r = .ok names →
      t.IsDir ([versions, name] ++ sub) ∧ (t.names ([versions, name] ++ sub)).Perm names) ?_ ?_ ?_
    · refine watch_orIo (P := fun r t' => t' = t ∧ ∀ names, r = .ok names →
        t.IsDir ([versions, name] ++ sub) ∧ (t.names ([versions, name] ++ sub)).Perm names)
        (watch_call fun ans t' hw => ⟨hw.readDir_same, hw.readDir_same, ?_⟩) ?_ ?_
      · intro names hans
        subst hans
        exact hw.readDir_ok (h.linkless_in name sub)
      · intro names t' hread
        exact ⟨hread.1, fun ns hns => hread.2 ns (by rw [Except.ok.inj hns])⟩
      · intro e e' t' hread
        exact ⟨hread.1, nofun⟩
    · intro names t1 hread
      obtain ⟨ht, hread⟩ := hread
      subst ht
      obtain ⟨hdir, hperm⟩ := hread names rfl
      have hnodup : names.Nodup := hperm.nodup_iff.mp (t1.nodup_names _)
      have hdeeper : ∀ path, Watch (Faulty may) Unchanged
          (WalkEnds t1 [versions, name] (path <+: ·))
          (store.collect [versions, name] depth path).run t1 :=
        fun _ => .mono (fun _ _ hr => hr.1) ih
      refine .mono ?_ (collectEach_watch h hnodup hdeeper)
      intro r t' hr
      refine ⟨⟨hr.1, fun docs hdocs => (hr.2 docs hdocs).congr ?_⟩, fun _ _ => hdir⟩
      intro p content hholds
      exact under_a_name h.wellFormed hdir hperm hholds
    · intro e t1 hread
      exact ⟨⟨hread.1, nofun⟩, nofun⟩

end

/-! ## 4. The documents of a bundle -/

/-- The content of the last entry of a path. -/
def lastContent (entries : List Entry) (path : String) : Option Bytes :=
  ((entries.filter (·.path = path)).getLast?).map Entry.content

/-- The documents are the entries, the last one of each path. -/
structure DocumentsOf (entries : List Entry) (docs : List PolicyDocument) : Prop where
  once : (docs.map PolicyDocument.name).Nodup
  exact : ∀ name content, ⟨name, content⟩ ∈ docs ↔ lastContent entries name = some content

theorem lastContent_eq (entries : List Entry) (path : String) :
    lastContent entries path = fileAt entries (segments path) := by
  unfold lastContent fileAt
  have hsame : (fun e : Entry => decide (e.path = path))
      = fun e => decide (segments e.path = segments path) := by
    funext e
    refine decide_eq_decide.mpr ⟨?_, segments_injective⟩
    intro he
    rw [he]
  rw [hsame]

theorem Unpacked.documents {t : FileTree Bytes} {dir : Path} {entries : List Entry}
    {docs : List PolicyDocument} (h : Unpacked t dir entries)
    (hfound : Found t dir ([] <+: ·) docs) : DocumentsOf entries docs := by
  obtain ⟨found, rfl, hnodup, hmem⟩ := hfound
  have hfile : ∀ p content, (p, content) ∈ found ↔ fileAt entries p = some content := by
    intro p content
    rw [hmem, ← h.files]
    simp
  -- every path found is the one of an entry, so its name gives it back
  have hpath : ∀ p ∈ found.map Prod.fst, ∃ path, p = segments path := by
    intro p hp
    obtain ⟨⟨q, content⟩, hin, rfl⟩ := List.mem_map.mp hp
    obtain ⟨e, _, he⟩ := exists_of_fileAt ((hfile q content).mp hin)
    exact ⟨e.path, he.symm⟩
  refine ⟨?_, ?_⟩
  · have hnames : (found.map toDocument).map PolicyDocument.name
        = (found.map Prod.fst).map joinSlash := by
      simp [toDocument, Function.comp_def]
    rw [hnames]
    refine hnodup.map_on ?_
    intro p hp q hq heq
    obtain ⟨path, rfl⟩ := hpath p hp
    obtain ⟨path', rfl⟩ := hpath q hq
    rw [joinSlash_segments, joinSlash_segments] at heq
    rw [heq]
  · intro name content
    rw [lastContent_eq, ← hfile, List.mem_map]
    constructor
    · intro hin
      obtain ⟨⟨p, c⟩, hp, hdoc⟩ := hin
      obtain ⟨rfl, rfl⟩ := PolicyDocument.mk.inj hdoc
      obtain ⟨path, rfl⟩ := hpath p (List.mem_map_of_mem hp)
      rw [joinSlash_segments]
      exact hp
    · intro hin
      exact ⟨_, hin, by simp [toDocument, joinSlash_segments]⟩

theorem DocumentsOf.perm {entries : List Entry} {docs docs' : List PolicyDocument}
    (h : DocumentsOf entries docs) (hperm : docs'.Perm docs) : DocumentsOf entries docs' := by
  refine ⟨(hperm.map _).nodup_iff.mpr h.once, ?_⟩
  intro name content
  rw [hperm.mem_iff]
  exact h.exact name content

/-- What is read from a directory are its files, in some order. -/
structure Reads (t : FileTree Bytes) (digest : String) (bundle : PolicyBundle) : Prop where
  revision : bundle.revision = digest
  isDir : t.IsDir (versionDir digest)
  found : ∃ docs, docs ≠ [] ∧ Found t (versionDir digest) ([] <+: ·) docs ∧
    bundle.documents.Perm docs

theorem Reads.documents {t : FileTree Bytes} {digest : String} {bundle : PolicyBundle}
    {entries : List Entry} (h : Reads t digest bundle) (hun : Unpacked t (versionDir digest) entries) :
    DocumentsOf entries bundle.documents := by
  obtain ⟨docs, -, hfound, hperm⟩ := h.found
  exact (hun.documents hfound).perm hperm

section

variable {may : FsOp Bytes → Prop} {t : FileTree Bytes} {store : Store} {digest : String}

theorem read_reads (h : Layout t) :
    Watch (Faulty may) Unchanged (fun r t' => t' = t ∧ ∀ bundle, r = .ok bundle → Reads t digest bundle)
      (store.read digest).run t := by
  unfold Store.read
  refine .run_bind (collect_watch h) ?_ fun e t' he => ⟨he.1.1, nofun⟩
  intro docs t1 hwalk
  obtain ⟨⟨ht, hfound⟩, hdir⟩ := hwalk
  by_cases hnone : docs = []
  · rw [if_pos hnone]
    exact .of_pure ⟨ht, nofun⟩
  rw [if_neg hnone]
  refine .of_pure ⟨ht, ?_⟩
  intro bundle hbundle
  obtain rfl := Except.ok.inj hbundle
  refine ⟨rfl, by simpa [versionDir] using hdir docs rfl, docs, hnone, hfound docs rfl, ?_⟩
  exact List.perm_insertionSort _ _

/-- **Reading back.** What is read from a directory that holds a bundle are the bundle's files. -/
theorem read_watch (h : Layout t) : Watch (Faulty may) Unchanged
      (fun r t' => t' = t ∧ ∀ bundle, r = .ok bundle → bundle.revision = digest ∧
        t.get (versionDir digest) ≠ none ∧
        ∀ entries, Unpacked t (versionDir digest) entries → DocumentsOf entries bundle.documents)
      (store.read digest).run t := by
  refine .mono ?_ (read_reads h)
  intro r t' hr
  refine ⟨hr.1, fun bundle hbundle => ?_⟩
  have hreads := hr.2 bundle hbundle
  exact ⟨hreads.revision, hreads.isDir.ne_none, fun entries => hreads.documents⟩

end

end Svidlet.Policy
