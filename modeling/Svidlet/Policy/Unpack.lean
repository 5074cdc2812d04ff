import Svidlet.Lib.FsLinkless
import Svidlet.Policy.Store

/-!
# What unpacking leaves on disk

The abstract view of a bundle is a map: a path has the content of the *last* entry of that path, and
the directories are the proper prefixes of the paths (`fileAt`, `Folder`). `Unpacked t dir entries`
says that the tree under `dir` is that map, with nothing missing and nothing besides.

`writeVersion` is watched call by call. All the way to the rename it changes only what is under its
staging directory, and once the rename has happened the version's directory is the map of the
entries:

> error  ⇒  only the staging directory changed
> ok     ⇒  the version was there, or no file was in it and now it holds the entries

Any call may fail at any point. One failure has a price: an old staging directory that could not be
removed is not written over, so what is in the version afterwards is the map of the entries **and nothing
else** only if removals do not fail. The lemmas carry this as a condition, `clean` (`Staged`).
-/

namespace Svidlet.Policy

open Lib Lib.FileTree

/-! ## 1. The map a list of entries stands for -/

/-- The content of the last entry with these segments. -/
def fileAt (entries : List Entry) (rest : Path) : Option Bytes :=
  ((entries.filter fun e => segments e.path = rest).getLast?).map Entry.content

/-- A directory that some entry needs. -/
def Folder (entries : List Entry) (rest : Path) : Prop :=
  rest = [] ∨ ∃ e ∈ entries, rest <+: segments e.path ∧ rest ≠ segments e.path

@[simp] theorem fileAt_nil (rest : Path) : fileAt [] rest = none := rfl

theorem fileAt_snoc (entries : List Entry) (e : Entry) (rest : Path) : fileAt (entries ++ [e]) rest
      = if segments e.path = rest then some e.content else fileAt entries rest := by
  unfold fileAt
  rw [List.filter_append]
  split
  · rename_i h
    simp [h]
  · rename_i h
    simp [h]

variable {entries : List Entry} {rest : Path} {content : Bytes}

theorem exists_of_fileAt (h : fileAt entries rest = some content) :
    ∃ e ∈ entries, segments e.path = rest := by
  obtain ⟨e, he, _⟩ := Option.map_eq_some_iff.mp h
  have hmem := List.mem_filter.mp (List.mem_of_getLast? he)
  exact ⟨e, hmem.1, by simpa using hmem.2⟩

theorem segments_ne_nil (path : String) : segments path ≠ [] := by
  simp [segments, splitChar_ne_nil]

theorem isPrefix_dropLast {segs : Path} (h : segs ≠ []) :
    rest <+: segs.dropLast ↔ rest <+: segs ∧ rest ≠ segs := by
  obtain ⟨init, last, rfl⟩ : ∃ init last, segs = init ++ [last] :=
    ⟨segs.dropLast, segs.getLast h, (List.dropLast_append_getLast h).symm⟩
  rw [List.dropLast_concat, List.prefix_concat_iff]
  constructor
  · intro hpre
    refine ⟨.inr hpre, ?_⟩
    rintro rfl
    exact absurd hpre.length_le (by simp)
  · rintro ⟨heq | hpre, hne⟩
    · exact absurd heq hne
    · exact hpre

theorem folder_snoc (entries : List Entry) (e : Entry) (rest : Path) : Folder (entries ++ [e]) rest
      ↔ Folder entries rest ∨ rest <+: (segments e.path).dropLast := by
  rw [isPrefix_dropLast (segments_ne_nil e.path)]
  unfold Folder
  constructor
  · rintro (hnil | ⟨e', he', hpre⟩)
    · exact .inl (.inl hnil)
    rcases List.mem_append.mp he' with he' | he'
    · exact .inl (.inr ⟨e', he', hpre⟩)
    · obtain rfl := List.mem_singleton.mp he'
      exact .inr hpre
  · rintro ((hnil | ⟨e', he', hpre⟩) | hpre)
    · exact .inl hnil
    · exact .inr ⟨e', List.mem_append_left _ he', hpre⟩
    · exact .inr ⟨e, by simp, hpre⟩

/-! ## 2. The map on disk -/

/-- Under `dir` stands exactly what the entries say. -/
structure Unpacked (t : FileTree Bytes) (dir : Path) (entries : List Entry) : Prop where
  files : ∀ rest content, t.HoldsFile (dir ++ rest) content ↔ fileAt entries rest = some content
  folders : ∀ rest, t.IsDir (dir ++ rest) ↔ Folder entries rest

variable {t t' : FileTree Bytes} {dir : Path}

theorem Unpacked.congr {dir' : Path} (h : Unpacked t dir entries)
    (hv : ∀ rest, t'.view (dir' ++ rest) = t.view (dir ++ rest)) :
    Unpacked t' dir' entries := by
  refine ⟨?_, ?_⟩
  · intro rest content
    rw [← h.files]
    show (∃ ino, t'.view _ = _) ↔ ∃ ino, t.view _ = _
    rw [hv]
  · intro rest
    rw [← h.folders, ← view_eq_dir, ← view_eq_dir, hv]

/-- What unpacking leaves under `dir`: the files of the entries and, if it found nothing there, nothing
    else. -/
structure Staged (clean : Prop) (t : FileTree Bytes) (dir : Path) (entries : List Entry) : Prop where
  files : ∀ rest content, fileAt entries rest = some content → t.HoldsFile (dir ++ rest) content
  exact : clean → Unpacked t dir entries

theorem Staged.congr {clean : Prop} {dir' : Path} (h : Staged clean t dir entries)
    (hv : ∀ rest, t'.view (dir' ++ rest) = t.view (dir ++ rest)) : Staged clean t' dir' entries := by
  refine ⟨?_, fun hclean => (h.exact hclean).congr hv⟩
  intro rest content hfile
  obtain ⟨ino, hino⟩ := h.files rest content hfile
  exact ⟨ino, (hv rest).trans hino⟩

/-- What the tree must be like for the store to work in it. -/
structure Layout (t : FileTree Bytes) : Prop where
  wellFormed : t.WellFormed
  noLinks : ∀ rest dest, t.get (versions :: rest) ≠ some (.symlink dest)

/-- An empty directory will do. -/
theorem Layout.of_empty (hroot : t.IsDir []) (hnone : ∀ p, p ≠ [] → t.get p = none) : Layout t := by
  refine ⟨.of_empty hroot hnone, ?_⟩
  intro rest dest hlink
  rw [hnone _ (by simp)] at hlink
  cases hlink

theorem layout_fresh (mode next : Nat) : Layout ⟨[([], .dir mode)], next⟩ :=
  .of_empty ⟨mode, rfl⟩ fun _ => get_fresh

theorem Layout.linkless (h : Layout t) (rest : Path) : t.Linkless (versions :: rest) := by
  intro a ha dest hlink
  cases a with
  | nil =>
    obtain ⟨mode, hroot⟩ := h.wellFormed.root
    rw [hroot] at hlink
    cases hlink
  | cons c a =>
    obtain ⟨rfl, _⟩ := List.cons_prefix_cons.mp ha
    exact h.noLinks a dest hlink

theorem Layout.linkless_in (h : Layout t) (name : String) (rest : Path) :
    t.Linkless ([versions, name] ++ rest) := h.linkless (name :: rest)

/-- A part of the tree that holds nothing under `versions` changed. -/
theorem Layout.of_frame (h : Layout t) (hwf : t'.WellFormed)
    (hv : ∀ rest, t'.get (versions :: rest) = t.get (versions :: rest)) : Layout t' := by
  refine ⟨hwf, ?_⟩
  intro rest dest
  rw [hv]
  exact h.noLinks rest dest

/-- In a version's directory, or the directory of all of them. -/
def InVersion (name : String) (q : Path) : Prop := [versions, name] <+: q ∨ q = [versions]

theorem not_inVersion {name name' : String} (h : name' ≠ name) (rest : Path) :
    ¬ InVersion name ([versions, name'] ++ rest) := by
  rintro (hpre | heq)
  · rw [List.cons_append, List.cons_append, List.cons_prefix_cons, List.cons_prefix_cons] at hpre
    exact h hpre.2.1.symm
  · simp at heq

/-! ## 3. The calls of unpacking -/

section

variable {may : FsOp Bytes → Prop} {t t' : FileTree Bytes} {name : String} {rest : Path}

variable {ans : Except IoError Unit}

theorem createDirAll_layout (h : Layout t)
    (hw : Faulty may (.createDirAll (versions :: rest)) t ans t') : Layout t' :=
  ⟨hw.wellFormed h.wellFormed nofun,
    fun _ dest hlink => h.noLinks _ dest (hw.createDirAll_links hlink)⟩

/-- Missing directories of a path inside the version's are made, and nothing else. -/
theorem createDirAll_only (h : Layout t)
    (hw : Faulty may (.createDirAll ([versions, name] ++ rest)) t ans t') :
    Only (InVersion name) t t' := by
  intro q hq
  rcases hw.createDirAll_filledIn h.wellFormed (h.linkless _) q with hsame | ⟨_, hpre, hdir⟩
  · exact view_of_get hsame
  rcases List.prefix_or_prefix_of_prefix hpre (List.prefix_append [versions, name] rest)
    with hup | hin
  · -- the root is there, so what was made is the directory of all versions or the version's
    rcases List.prefix_cons_iff.mp hup with rfl | ⟨q', rfl, hq'⟩
    · refine view_of_get ?_
      rcases hw.createDirAll_filledIn h.wellFormed (h.linkless _) [] with hs | ⟨hnone, _⟩
      · exact hs
      · exact absurd hnone h.wellFormed.root.ne_none
    rcases List.prefix_cons_iff.mp hq' with rfl | ⟨q'', rfl, hq''⟩
    · exact absurd (.inr rfl) hq
    · rw [List.prefix_nil.mp hq''] at hq
      exact absurd (.inl (List.prefix_refl _)) hq
  · exact absurd (.inl hin) hq

/-- A removal takes away from the version's directory, and from nowhere else. -/
theorem removeDirAll_layout (h : Layout t)
    (hw : Faulty may (.removeDirAll [versions, name]) t ans t') :
    Layout t' ∧ ∀ q, t'.get q = t.get q ∨ [versions, name] <+: q ∧ t'.get q = none := by
  have hroot : ∀ p, FsOp.removeDirAll (C := Bytes) [versions, name] = .removeDirAll p →
      t.resolve false p ≠ .ok [] := by
    rintro p ⟨⟩ hr
    exact absurd (resolve_linkless (h.linkless [name]) hr) (by simp)
  have hwf := hw.wellFormed h.wellFormed hroot
  have hget : ∀ q, t'.get q = t.get q ∨ [versions, name] <+: q ∧ t'.get q = none :=
    hw.removeDirAll_get (h.linkless [name])
  refine ⟨⟨hwf, ?_⟩, hget⟩
  intro rest dest hlink
  rcases hget (versions :: rest) with hsame | ⟨_, hnone⟩
  · rw [hsame] at hlink
    exact h.noLinks rest dest hlink
  · rw [hnone] at hlink
    cases hlink

theorem removeDirAll_only (h : Layout t)
    (hw : Faulty may (.removeDirAll [versions, name]) t ans t') : Only (InVersion name) t t' := by
  intro q hq
  rcases (removeDirAll_layout h hw).2 q with hsame | ⟨hpre, _⟩
  · exact view_of_get hsame
  · exact absurd (.inl hpre) hq

/-- A removal that cannot fail where there is something leaves no directory. -/
theorem removeDirAll_gone (h : Layout t)
    (hmay : t.IsDir [versions, name] → ¬ may (.removeDirAll [versions, name]))
    (hw : Faulty may (.removeDirAll [versions, name]) t ans t') : ¬ t'.IsDir [versions, name] := by
  by_cases hdir : t.IsDir [versions, name]
  · refine hw.removeDirAll_gone (hmay hdir) (h.linkless [name]) fun _ => ?_
    have hparent : t.IsDir [versions] := h.wellFormed.above hdir.ne_none ⟨[name], rfl⟩ (by simp)
    exact ⟨_, t.resolve_of_dirs h.wellFormed.root (by simp [walkLimit]) ⟨hparent, trivial⟩
      (by simp)⟩
  rintro ⟨mode, hget⟩
  rcases (removeDirAll_layout h hw).2 [versions, name] with hsame | ⟨_, hnone⟩
  · exact hdir ⟨mode, hsame ▸ hget⟩
  · rw [hnone] at hget
    cases hget

end

/-! ## 4. Writing a file -/

/-- The one change is a file with this content, where no directory was. -/
structure Wrote (t t' : FileTree Bytes) (path : Path) (content : Bytes) : Prop where
  wasNoDir : ¬ t.IsDir path
  holds : t'.HoldsFile path content
  others : ∀ q, q ≠ path → t'.view q = t.view q

section

variable {may : FsOp Bytes → Prop} {t : FileTree Bytes} {name : String}

/-- A file has been opened at `path`: it is empty, and has the inode. -/
structure Opened (t t' : FileTree Bytes) (path : Path) (ino : Nat) : Prop where
  wasNoDir : ¬ t.IsDir path
  fileAt : t'.FileAt path ino
  others : ∀ q, q ≠ path → t'.view q = t.view q

variable {t' : FileTree Bytes} {ino : Nat} {rest : Path}

theorem openTruncate_opened {mode : Nat} (h : Layout t)
    (hw : Faulty may (.openTruncate ([versions, name] ++ rest) mode) t (.ok ino) t') :
    Layout t' ∧ Opened t t' ([versions, name] ++ rest) ino := by
  obtain ⟨q, hr, hwas, m, g, hfile⟩ := hw.openTruncate_ok
  obtain rfl := resolve_linkless (h.linkless_in name rest) hr
  refine ⟨⟨hw.wellFormed h.wellFormed nofun,
    fun _ dest hlink => h.noLinks _ dest (hw.openTruncate_links hlink)⟩, ?_, ⟨_, m, g, hfile⟩, ?_⟩
  · rintro ⟨mode', hdir⟩
    rcases hwas with ⟨c, m', g', hold⟩ | ⟨hnone, _⟩
    · rw [hdir] at hold
      cases hold
    · rw [hdir] at hnone
      cases hnone
  · intro q hq
    refine view_of_get (hw.frame ?_)
    intro htouch
    exact hq (Except.ok.inj (hr.symm.trans htouch)).symm

variable {content : Bytes} {ans : Except IoError Unit}

theorem writeAll_layout (h : Layout t) (hw : Faulty may (.writeAll ino content) t ans t') :
    Layout t' :=
  ⟨hw.wellFormed h.wellFormed nofun,
    fun _ dest hlink => h.noLinks _ dest (hw.writeAll_links hlink)⟩

/-- No inode has two names, so the write shows nowhere else. -/
theorem writeAll_others {path : Path} (h : Layout t) (hfile : t.FileAt path ino)
    (hw : Faulty may (.writeAll ino content) t ans t') :
    ∀ q, q ≠ path → t'.view q = t.view q := by
  intro q hq
  refine view_of_get (hw.frame ?_)
  intro htouch
  exact hq (h.wellFormed.oneName q path ino htouch hfile)

theorem writeFile_watch (h : Layout t) : Watch (Faulty may) (Only (InVersion name))
      (fun r t' => Layout t' ∧ ∀ u, r = .ok u → Wrote t t' ([versions, name] ++ rest) content)
      (Store.writeFile ([versions, name] ++ rest) content).run t := by
  have hin : ∀ q, ¬ InVersion name q → q ≠ [versions, name] ++ rest := by
    rintro q hq rfl
    exact hq (.inl (List.prefix_append _ _))
  unfold Store.writeFile
  refine .run_bind (P := fun r t' => Layout t' ∧
    ∀ ino, r = .ok ino → Opened t t' ([versions, name] ++ rest) ino) ?_ ?_ ?_
  · refine watch_call fun ans t' hw => ?_
    cases ans with
    | error e =>
      rw [hw.openTruncate_error]
      exact ⟨Only.refl _ t, h, nofun⟩
    | ok ino =>
      obtain ⟨hlay, hopen⟩ := openTruncate_opened h hw
      refine ⟨fun q hq => hopen.others q (hin q hq), hlay, ?_⟩
      rintro _ ⟨⟩
      exact hopen
  · rintro ino t1 ⟨h1, hopen⟩
    have hopen := hopen ino rfl
    refine watch_call fun ans t' hw => ?_
    have hothers := writeAll_others h1 hopen.fileAt hw
    refine ⟨fun q hq => hothers q (hin q hq), writeAll_layout h1 hw, ?_⟩
    rintro _ rfl
    refine ⟨hopen.wasNoDir, ?_, fun q hq => (hothers q hq).trans (hopen.others q hq)⟩
    rw [hw.writeAll_ok]
    exact hopen.fileAt.holds_fill content
  · rintro e t1 ⟨h1, _⟩
    exact ⟨h1, nofun⟩

end

/-! ## 5. One entry after the other -/

variable {p q : Path}

theorem HoldsFile.of_filledIn (h : FilledIn t t' p) :
    t'.HoldsFile q content ↔ t.HoldsFile q content := by
  have hnone : ∀ {u : FileTree Bytes}, u.get q = none → ¬ u.HoldsFile q content := by
    rintro u hu ⟨ino, hino⟩
    rw [view_eq_none.mpr hu] at hino
    cases hino
  rcases h q with hsame | ⟨hwas, _, hdir⟩
  · unfold HoldsFile
    rw [view_of_get hsame]
  constructor
  · rintro ⟨ino, hino⟩
    rw [view_eq_dir.mpr hdir] at hino
    cases hino
  · exact fun hf => absurd hf (hnone hwas)

theorem IsDir.of_filledIn (h : FilledIn t t' p) (hwf : t'.WellFormed) (hp : t'.IsDir p) :
    t'.IsDir q ↔ t.IsDir q ∨ q <+: p := by
  constructor
  · intro hq
    rcases h q with hsame | ⟨_, hpre, _⟩
    · refine .inl ?_
      obtain ⟨mode, hq⟩ := hq
      exact ⟨mode, hsame.symm.trans hq⟩
    · exact .inr hpre
  · rintro (⟨mode, hq⟩ | hpre)
    · rcases h q with hsame | ⟨hnone, _⟩
      · exact ⟨mode, hsame.trans hq⟩
      · rw [hq] at hnone
        cases hnone
    by_cases hqp : q = p
    · rw [hqp]
      exact hp
    · exact hwf.above hp.ne_none hpre hqp

/-- **The step of unpacking**: directories filled in and one file written put one more entry into
    the map. -/
theorem Unpacked.entry {t1 t2 : FileTree Bytes} {done : List Entry} {e : Entry}
    (h : Unpacked t dir done) (hwf : t1.WellFormed)
    (hfill : FilledIn t t1 (dir ++ (segments e.path).dropLast))
    (hparent : t1.IsDir (dir ++ (segments e.path).dropLast))
    (hwrote : Wrote t1 t2 (dir ++ segments e.path) e.content) : Unpacked t2 dir (done ++ [e]) := by
  have hdirs : ∀ q, t1.IsDir q ↔ t.IsDir q ∨ q <+: dir ++ (segments e.path).dropLast :=
    fun q => IsDir.of_filledIn hfill hwf hparent
  have hview : ∀ rest, rest ≠ segments e.path → t2.view (dir ++ rest) = t1.view (dir ++ rest) :=
    fun rest hne => hwrote.others _ fun heq => hne (List.append_cancel_left heq)
  refine ⟨?_, ?_⟩
  · intro rest content
    rw [fileAt_snoc]
    by_cases hrest : segments e.path = rest
    · subst hrest
      rw [if_pos rfl, Option.some.injEq]
      obtain ⟨ino, hino⟩ := hwrote.holds
      constructor
      · rintro ⟨ino', hino'⟩
        rw [hino] at hino'
        cases hino'
        rfl
      · rintro rfl
        exact ⟨ino, hino⟩
    · rw [if_neg hrest, ← h.files, ← HoldsFile.of_filledIn hfill]
      show (∃ ino, t2.view _ = _) ↔ ∃ ino, t1.view _ = _
      rw [hview rest (Ne.symm hrest)]
  · intro rest
    rw [folder_snoc, ← h.folders]
    have hpre : dir ++ rest <+: dir ++ (segments e.path).dropLast
        ↔ rest <+: (segments e.path).dropLast := List.prefix_append_right_inj dir
    rw [← hpre, ← hdirs]
    by_cases hrest : rest = segments e.path
    · subst hrest
      obtain ⟨ino, hino⟩ := hwrote.holds
      constructor
      · intro hd
        rw [← view_eq_dir, hino] at hd
        cases hd
      · exact fun hd => absurd hd hwrote.wasNoDir
    · rw [← view_eq_dir, ← view_eq_dir, hview rest hrest]

/-- The same where something else may be in the directory. -/
theorem Staged.entry {clean : Prop} {t1 t2 : FileTree Bytes} {done : List Entry} {e : Entry}
    (h : Staged clean t dir done) (hwf : t1.WellFormed)
    (hfill : FilledIn t t1 (dir ++ (segments e.path).dropLast))
    (hparent : t1.IsDir (dir ++ (segments e.path).dropLast))
    (hwrote : Wrote t1 t2 (dir ++ segments e.path) e.content) : Staged clean t2 dir (done ++ [e]) := by
  refine ⟨?_, fun hclean => (h.exact hclean).entry hwf hfill hparent hwrote⟩
  intro rest content hfile
  rw [fileAt_snoc] at hfile
  by_cases hrest : segments e.path = rest
  · subst hrest
    rw [if_pos rfl, Option.some.injEq] at hfile
    exact hfile ▸ hwrote.holds
  · rw [if_neg hrest] at hfile
    obtain ⟨ino, hino⟩ := (HoldsFile.of_filledIn hfill).mpr (h.files rest content hfile)
    have hother : dir ++ rest ≠ dir ++ segments e.path := by simpa using Ne.symm hrest
    exact ⟨ino, (hwrote.others _ hother).trans hino⟩

section

variable {may : FsOp Bytes → Prop} {t : FileTree Bytes} {name : String} {clean : Prop}

variable {G : FileTree Bytes → FileTree Bytes → Prop} {message : String}

theorem watch_orIo {α : Type} {x : Fallible (FsSig Bytes) IoError α}
    {P : Except IoError α → FileTree Bytes → Prop} {Q : Except Error α → FileTree Bytes → Prop}
    (hx : Watch (Faulty may) G P x.run t) (hok : ∀ a t', P (.ok a) t' → Q (.ok a) t')
    (herr : ∀ e e' t', P (.error e) t' → Q (.error e') t') :
    Watch (Faulty may) G Q (orIo message x).run t := by
  refine .bind hx ?_
  intro r t' hr
  cases r with
  | ok a => exact .of_pure (hok a t' hr)
  | error e => exact .of_pure (herr e _ t' hr)

theorem watch_ignoring {x : Fallible (FsSig Bytes) IoError Unit} {P : FileTree Bytes → Prop}
    (hx : Watch (Faulty may) G (fun _ => P) x.run t) :
    Watch (Faulty may) G (fun r t' => P t' ∧ ∀ e, r ≠ .error e) (ignoring x).run t := by
  refine .bind hx ?_
  intro r t' hr
  exact .of_pure ⟨hr, nofun⟩

/-- The directories of a path inside the version's, made. -/
theorem createDirAll_watch (rest : Path) (h : Layout t) :
    Watch (Faulty may) (Only (InVersion name)) (fun r t' => Layout t' ∧ ∀ u, r = .ok u →
        FilledIn t t' ([versions, name] ++ rest) ∧ t'.IsDir ([versions, name] ++ rest))
      (orIo message (Fs.createDirAll ([versions, name] ++ rest))).run t := by
  refine watch_orIo (P := fun r t' => Layout t' ∧ ∀ u, r = .ok u →
    FilledIn t t' ([versions, name] ++ rest) ∧ t'.IsDir ([versions, name] ++ rest)) ?_ ?_ ?_
  · refine watch_call fun ans t' hw => ⟨createDirAll_only h hw, createDirAll_layout h hw, ?_⟩
    rintro _ rfl
    exact ⟨hw.createDirAll_filledIn h.wellFormed (h.linkless_in name rest),
      hw.createDirAll_ok h.wellFormed (h.linkless_in name rest)⟩
  · rintro _ t' ⟨hl, hr⟩
    exact ⟨hl, fun u _ => hr u rfl⟩
  · rintro e e' t' ⟨hl, _⟩
    exact ⟨hl, nofun⟩

variable {store : Store} {done : List Entry}

theorem writeEntry_watch {e : Entry} (h : Layout t)
    (hdone : Staged clean t [versions, name] done) :
    Watch (Faulty may) (Only (InVersion name)) (fun r t' => Layout t' ∧
        ∀ u, r = .ok u → Staged clean t' [versions, name] (done ++ [e]))
      (store.writeEntry [versions, name] e).run t := by
  have hdrop : ([versions, name] ++ segments e.path).dropLast
      = [versions, name] ++ (segments e.path).dropLast :=
    List.dropLast_append_of_ne_nil (segments_ne_nil e.path)
  unfold Store.writeEntry
  rw [if_pos (List.prefix_append _ _), hdrop]
  refine .run_bind (createDirAll_watch _ h) ?_ ?_
  · rintro _ t1 ⟨h1, hmade⟩
    obtain ⟨hfill, hparent⟩ := hmade () rfl
    refine watch_orIo (writeFile_watch h1) ?_ ?_
    · rintro _ t2 ⟨h2, hwrote⟩
      exact ⟨h2, fun u _ => hdone.entry h1.wellFormed hfill hparent (hwrote () rfl)⟩
    · rintro _ _ t2 ⟨h2, _⟩
      exact ⟨h2, nofun⟩
  · rintro _ t1 ⟨h1, _⟩
    exact ⟨h1, nofun⟩

variable {entries : List Entry}

theorem writeEntries_watch (h : Layout t) (hdone : Staged clean t [versions, name] done) :
    Watch (Faulty may) (Only (InVersion name)) (fun r t' => Layout t' ∧
        ∀ u, r = .ok u → Staged clean t' [versions, name] (done ++ entries))
      (store.writeEntries [versions, name] entries).run t := by
  induction entries generalizing t done with
  | nil => exact .of_pure ⟨h, fun _ _ => by rwa [List.append_nil]⟩
  | cons e rest ih =>
    unfold Store.writeEntries
    refine .run_bind (writeEntry_watch h hdone) ?_ ?_
    · rintro _ t1 ⟨h1, hone⟩
      have hrest := ih h1 (hone () rfl)
      rw [List.append_assoc] at hrest
      exact hrest
    · rintro _ t1 ⟨h1, _⟩
      exact ⟨h1, nofun⟩

/-- A directory made where none was holds nothing. -/
theorem unpacked_fresh {t1 : FileTree Bytes} (hwf : t.WellFormed) (hno : ¬ t.IsDir [versions, name])
    (hfill : FilledIn t t1 [versions, name]) (hdir : t1.IsDir [versions, name]) :
    Unpacked t1 [versions, name] [] := by
  have hempty : ∀ rest, rest ≠ [] → t1.get ([versions, name] ++ rest) = none := by
    intro rest hrest
    rcases hfill ([versions, name] ++ rest) with hsame | ⟨_, hpre, _⟩
    · rw [hsame]
      exact hwf.none_under hno (List.prefix_append _ _) (by simpa using Ne.symm hrest)
    · have hlen := hpre.length_le
      simp only [List.length_append] at hlen
      exact absurd (List.length_eq_zero_iff.mp (by omega)) hrest
  refine ⟨?_, ?_⟩
  · intro rest content
    rw [fileAt_nil]
    refine ⟨?_, nofun⟩
    rintro ⟨ino, hino⟩
    by_cases hrest : rest = []
    · rw [hrest, List.append_nil, view_eq_dir.mpr hdir] at hino
      cases hino
    · rw [view_eq_none.mpr (hempty rest hrest)] at hino
      cases hino
  · intro rest
    by_cases hrest : rest = []
    · rw [hrest, List.append_nil]
      exact ⟨fun _ => .inl rfl, fun _ => hdir⟩
    constructor
    · exact fun hd => absurd (hempty rest hrest) hd.ne_none
    · rintro (hnil | ⟨e, he, _⟩)
      · exact absurd hnil hrest
      · cases he

/-- The staging directory, filled. -/
theorem stage_watch (h : Layout t)
    (hmay : clean → t.IsDir [versions, name] → ¬ may (.removeDirAll [versions, name])) :
    Watch (Faulty may) (Only (InVersion name))
      (fun r t' => Layout t' ∧ ∀ u, r = .ok u → Staged clean t' [versions, name] entries)
      (store.stage [versions, name] entries).run t := by
  unfold Store.stage
  refine .run_bind (watch_ignoring
    (P := fun t' => Layout t' ∧ (clean → ¬ t'.IsDir [versions, name]))
    (watch_call fun ans t' hw => ?_)) ?_ ?_
  · exact ⟨removeDirAll_only h hw, (removeDirAll_layout h hw).1,
      fun hclean => removeDirAll_gone h (hmay hclean) hw⟩
  · rintro _ t1 ⟨⟨h1, hgone⟩, _⟩
    refine .run_bind (createDirAll_watch [] h1) ?_ ?_
    · rintro _ t2 ⟨h2, hmade⟩
      obtain ⟨hfill, hdir⟩ := hmade () rfl
      exact writeEntries_watch h2
        ⟨by simp, fun hclean => unpacked_fresh h1.wellFormed (hgone hclean) hfill hdir⟩
    · rintro _ t2 ⟨h2, _⟩
      exact ⟨h2, nofun⟩
  · rintro e t1 ⟨_, hno⟩
    exact absurd rfl (hno e)

variable {final : String}

theorem ne_none_of_holdsFile {content : Bytes} (h : t.HoldsFile p content) : t.get p ≠ none := by
  intro hn
  obtain ⟨ino, h⟩ := h
  rw [view_eq_none.mpr hn] at h
  cases h

/-- There is a file in the version. -/
def HasFile (t : FileTree Bytes) (name : String) : Prop :=
  ∃ rest content, rest ≠ [] ∧ t.HoldsFile ([versions, name] ++ rest) content

theorem HasFile.of_view (h : HasFile t name)
    (hview : ∀ rest, t'.view ([versions, final] ++ rest) = t.view ([versions, name] ++ rest)) :
    HasFile t' final := by
  obtain ⟨rest, content, hne, ino, hfile⟩ := h
  exact ⟨rest, content, hne, ino, (hview rest).trans hfile⟩

theorem HasFile.isDir (h : HasFile t name) (hlayout : Layout t) : t.IsDir [versions, name] := by
  obtain ⟨rest, content, hne, hfile⟩ := h
  refine hlayout.wellFormed.above (ne_none_of_holdsFile hfile) (List.prefix_append _ rest) ?_
  simpa using Ne.symm hne

theorem HasFile.names (h : HasFile t name) (hlayout : Layout t) : t.names [versions, name] ≠ [] := by
  obtain ⟨rest, content, hne, hfile⟩ := h
  obtain ⟨x, sub, rfl⟩ := List.exists_cons_of_ne_nil hne
  have hthere := ne_none_of_holdsFile hfile
  have hx : t.get ([versions, name] ++ [x]) ≠ none := by
    by_cases hsub : sub = []
    · rw [hsub] at hthere
      exact hthere
    · refine (hlayout.wellFormed.above hthere ⟨sub, by simp⟩ ?_).ne_none
      simpa using Ne.symm hsub
  have hmem := (t.mem_names [versions, name] x).mpr (Option.isSome_iff_ne_none.mpr hx)
  exact List.ne_nil_of_mem hmem

/-- A version's directory under another name. -/
theorem move_versions (h : Layout t) (hne : name ≠ final)
    (hwf : (t.move [versions, name] [versions, final]).WellFormed) :
    Layout (t.move [versions, name] [versions, final]) ∧
      ∀ rest, (t.move [versions, name] [versions, final]).view ([versions, final] ++ rest) =
        t.view ([versions, name] ++ rest) := by
  have hsd : ¬ [versions, name] <+: [versions, final] := by simpa using hne
  have hds : ¬ [versions, final] <+: [versions, name] := by simpa using Ne.symm hne
  refine ⟨⟨hwf, ?_⟩, ?_⟩
  · intro rest dest hlink
    rcases get_move_some hsd hds hlink with ⟨rest', _, hfrom⟩ | ⟨_, _, hfrom⟩
    · exact h.noLinks (name :: rest') dest hfrom
    · exact h.noLinks rest dest hfrom
  · intro rest
    show Option.map plain _ = Option.map plain _
    rw [t.get_move_dst hsd hds]

/-- What unpacking changes at all. -/
def InEither (staging final : String) (q : Path) : Prop := InVersion staging q ∨ InVersion final q

/-- A version with a file in it is not replaced. -/
theorem moveIntoPlace_watch (h : Layout t) (hne : name ≠ final)
    (hun : Staged clean t [versions, name] entries) :
    Watch (Faulty may) (Only (InEither name final)) (fun r t' => Layout t' ∧
        (∀ u, r = .ok u → ¬ HasFile t final ∧ Staged clean t' [versions, final] entries) ∧
        ∀ e, r = .error e → Only (InVersion name) t t')
      (store.moveIntoPlace [versions, name] [versions, final]).run t := by
  unfold Store.moveIntoPlace
  refine .bind (P := fun r t' =>
    (∀ u, r = .ok u → Layout t' ∧ ¬ HasFile t final ∧ Staged clean t' [versions, final] entries) ∧
      ∀ e, r = .error e → t' = t) (watch_call fun ans t' hw => ?_) ?_
  · cases ans with
    | error e =>
      rw [hw.rename_error]
      exact ⟨Only.refl _ t, by simp, fun _ _ => rfl⟩
    | ok u =>
      obtain ⟨a, b, ha, hb, hmove⟩ := hw.rename_ok
      obtain rfl := resolve_linkless (h.linkless [name]) ha
      obtain rfl := resolve_linkless (h.linkless [final]) hb
      rcases hmove with ⟨heq, _⟩ | ⟨hab, rfl⟩
      · exact absurd (by simpa using heq) hne
      obtain ⟨hlay, hmoved⟩ := move_versions h hne (hw.wellFormed h.wellFormed (by simp))
      have hfree : ¬ HasFile t final :=
        fun hfile => hfile.names h (hw.rename_empty ha hb hab (hfile.isDir h))
      refine ⟨?_, fun _ _ => ⟨hlay, hfree, hun.congr hmoved⟩, by simp⟩
      intro q hq
      refine view_of_get (t.get_move_other ?_ ?_)
      · exact fun hpre => hq (.inl (.inl hpre))
      · exact fun hpre => hq (.inr (.inl hpre))
  · intro r t1 hr
    cases r with
    | ok u =>
      obtain ⟨h1, hun1⟩ := hr.1 u rfl
      exact .of_pure ⟨h1, fun _ _ => hun1, by simp⟩
    | error e =>
      obtain rfl : t1 = t := hr.2 e rfl
      refine .bind (P := fun _ t' => Layout t' ∧ Only (InVersion name) t1 t')
        (watch_call fun ans t' hw => ?_) ?_
      · have honly := removeDirAll_only h hw
        exact ⟨honly.mono fun _ hq => .inl hq, (removeDirAll_layout h hw).1, honly⟩
      · intro _ t2 h2
        exact .of_pure ⟨h2.1, by simp, fun _ _ => h2.2⟩

theorem writeVersion_watch {digest : String} (h : Layout t)
    (hmay : clean → t.IsDir (stagingDir digest) → ¬ may (.removeDirAll (stagingDir digest)))
    (hne : stagingPrefix ++ dirName digest ≠ dirName digest) :
    Watch (Faulty may) (Only (InEither (stagingPrefix ++ dirName digest) (dirName digest)))
      (fun r t' => Layout t' ∧ (∀ u, r = .ok u → (t' = t ∧ t.get (versionDir digest) ≠ none) ∨
          ¬ HasFile t (dirName digest) ∧ Staged clean t' (versionDir digest) entries) ∧
        ∀ e, r = .error e → Only (InVersion (stagingPrefix ++ dirName digest)) t t')
      (store.writeVersion digest entries).run t := by
  unfold Store.writeVersion
  refine .lift_bind (P := fun there t' => t' = t ∧
    (there = true → t.get (versionDir digest) ≠ none)) (watch_call fun ans t' hw => ?_) ?_
  · have ht := hw.pathExists_same
    subst ht
    refine ⟨Only.refl _ _, rfl, ?_⟩
    intro hans
    subst hans
    exact hw.pathExists_true (h.linkless [dirName digest])
  intro there t1 ⟨ht, hthere⟩
  subst ht
  cases there with
  | true => exact .of_pure ⟨h, fun _ _ => .inl ⟨rfl, hthere rfl⟩, nofun⟩
  | false =>
    refine .run_bind (Watch.widen (fun _ hq => .inl hq)
      (Watch.only (stage_watch h hmay))) ?_ ?_
    · rintro _ t2 ⟨⟨h2, hun⟩, hstaged⟩
      refine .mono ?_ (moveIntoPlace_watch h2 hne (hun () rfl))
      rintro r t3 ⟨h3, hok, herr⟩
      refine ⟨h3, fun u hu => .inr ⟨fun hfile => (hok u hu).1 (hfile.of_view fun rest => ?_),
        (hok u hu).2⟩, fun e he => hstaged.trans (herr e he)⟩
      exact hstaged _ (not_inVersion (Ne.symm hne) rest)
    · rintro _ t2 ⟨⟨h2, _⟩, hstaged⟩
      exact ⟨h2, nofun, fun _ _ => hstaged⟩

end

end Svidlet.Policy
