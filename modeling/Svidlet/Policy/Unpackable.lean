import Svidlet.Policy.Readable

/-!
# Which bundles can be unpacked

A bundle is a list of paths with contents, and nothing in the reader of archives keeps two of its paths from
being in each other's way: with a file `a` and a file `a/b`, whichever comes later cannot be written. This is
the only thing that can go wrong without a fault:

> `writeVersion` succeeds  ⇔  no path of an entry is a directory of another's (`Compatible`)

One direction needs no look at the program. What a success leaves is the map of the entries
(`writeVersion_watch`), and in a tree no path is a file and a directory. The other follows the loop: with the map
of the entries so far under the staging directory, the directories of the next entry have no file in their way, and
its own path is not a directory.

What is read back afterwards is the map again, sorted by name (`read_ok`).
-/

namespace Svidlet.Policy

open Lib Lib.FileTree

/-! ## 1. Paths in each other's way -/

/-- The path of one entry is a directory of the other's. -/
def IsAbove (e e' : Entry) : Prop := segments e.path <+: segments e'.path ∧ e.path ≠ e'.path

def Compatible (entries : List Entry) : Prop := ∀ e ∈ entries, ∀ e' ∈ entries, ¬ IsAbove e e'

instance (e e' : Entry) : Decidable (IsAbove e e') := inferInstanceAs (Decidable (_ ∧ _))

variable {done : List Entry}

theorem Compatible.of_append {rest : List Entry} (h : Compatible (done ++ rest)) :
    Compatible done :=
  fun e he e' he' => h e (List.mem_append_left _ he) e' (List.mem_append_left _ he')

variable {e : Entry}

theorem fileAt_of_mem {entries : List Entry} (h : e ∈ entries) :
    ∃ content, fileAt entries (segments e.path) = some content := by
  rw [← lastContent_eq]
  refine Option.ne_none_iff_exists'.mp ?_
  simpa [lastContent] using ⟨e, h, rfl⟩

/-- In a tree nothing is a file and a directory. -/
theorem Unpacked.compatible {t : FileTree Bytes} {dir : Path} {entries : List Entry}
    (h : Unpacked t dir entries) : Compatible entries := by
  intro e he e' he' habove
  obtain ⟨hpre, hne⟩ := habove
  obtain ⟨content, hcontent⟩ := fileAt_of_mem he
  have hfile := (h.files _ content).mpr hcontent
  have hdir : t.IsDir (dir ++ segments e.path) :=
    (h.folders _).mpr (.inr ⟨e', he', hpre, fun heq => hne (segments_injective heq)⟩)
  exact not_isDir_of_holdsFile hfile hdir

/-- A directory of the next entry is not a file so far. -/
theorem Compatible.no_file (h : Compatible (done ++ [e])) {rest : Path}
    (hrest : rest <+: (segments e.path).dropLast) : fileAt done rest = none := by
  obtain ⟨hpre, hne⟩ := (isPrefix_dropLast (segments_ne_nil e.path)).mp hrest
  cases hfile : fileAt done rest with
  | none => rfl
  | some content =>
    obtain ⟨e', he', rfl⟩ := exists_of_fileAt hfile
    refine absurd ⟨hpre, ?_⟩ (h e' (List.mem_append_left _ he') e (by simp))
    intro heq
    exact hne (by rw [heq])

/-- The path of the next entry is not a directory so far. -/
theorem Compatible.no_folder (h : Compatible (done ++ [e])) : ¬ Folder done (segments e.path) := by
  intro hfolder
  rcases hfolder with hnil | ⟨e', he', hpre, hne⟩
  · exact segments_ne_nil e.path hnil
  · refine h e (by simp) e' (List.mem_append_left _ he') ⟨hpre, ?_⟩
    intro heq
    exact hne (by rw [heq])

/-! ## 2. Unpacking succeeds -/

section

variable {may : FsOp Bytes → Prop} {t : FileTree Bytes} {name : String} {store : Store}

/-- Directories are made where no file is in the way. -/
theorem createDirAll_sure {message : String} {path : Path} (hno : ∀ op, ¬ may op) (h : Layout t)
    (hlen : path.length ≤ walkLimit)
    (hway : ∀ r, r <+: path → r ≠ [] → t.get r = none ∨ t.IsDir r) :
    Watch (Faulty may) (fun _ _ => True) (fun r _ => ∃ u, r = .ok u)
      (orIo message (Fs.createDirAll path)).run t := by
  refine watch_orIo (P := fun r _ => ∃ u, r = .ok u) (watch_call fun ans t' hw => ⟨trivial, (), ?_⟩)
    (fun a t' _ => ⟨a, rfl⟩) (fun e e' t' hr => nomatch hr)
  have hans : (t.exec (.createDirAll path)).1 = ans := (hw.sure (hno _)).1
  rw [← hans, exec_createDirAll h.wellFormed]
  exact makeDirs_sure h.wellFormed [] path h.wellFormed.root hlen hway

/-- A file is written where its directory is, and no directory is. -/
theorem writeFile_sure {dir : Path} {x : String} {content : Bytes} (hno : ∀ op, ¬ may op)
    (hwf : t.WellFormed) (hlen : dir.length + 1 ≤ walkLimit) (hparent : t.IsDir dir)
    (hlink : ∀ dest, t.get (dir ++ [x]) ≠ some (.symlink dest)) (hdir : ¬ t.IsDir (dir ++ [x])) :
    Watch (Faulty may) (fun _ _ => True) (fun r _ => ∃ u, r = .ok u)
      (Store.writeFile (dir ++ [x]) content).run t := by
  have hr : t.resolve true (dir ++ [x]) = .ok (dir ++ [x]) := hwf.resolve_child hparent hlen hlink
  unfold Store.writeFile
  refine .run_bind (P := fun r _ => ∃ ino, r = .ok ino) (watch_call fun ans t' hw => ⟨trivial, ?_⟩)
    ?_ (fun e t' he => nomatch he)
  · have hans : (t.exec (.openTruncate (dir ++ [x]) Store.newFileMode)).1 = ans := (hw.sure (hno _)).1
    rw [← hans]
    simp only [exec, act, hr]
    cases hget : t.get (dir ++ [x]) with
    | none => exact ⟨_, rfl⟩
    | some node =>
      cases node with
      | dir mode => exact absurd ⟨mode, hget⟩ hdir
      | symlink dest => exact absurd hget (hlink dest)
      | file ino c m g => exact ⟨_, rfl⟩
  · intro ino t1 _
    refine watch_call fun ans t' hw => ⟨trivial, (), ?_⟩
    exact ((hw.sure (hno _)).1 : Except.ok () = ans).symm

variable {done : List Entry}

/-- The directories of the next entry have nothing in their way. -/
theorem Unpacked.staged {t : FileTree Bytes} {dir : Path} {entries : List Entry}
    (h : Unpacked t dir entries) : Staged True t dir entries :=
  ⟨fun rest content => (h.files rest content).mpr, fun _ => h⟩

theorem Unpacked.way {e : Entry} (h : Layout t) (hun : Unpacked t [versions, name] done)
    (hcomp : Compatible (done ++ [e])) {r : Path}
    (hr : r <+: [versions, name] ++ (segments e.path).dropLast) : t.get r = none ∨ t.IsDir r := by
  have htop : t.IsDir [versions, name] := (hun.folders []).mpr (.inl rfl)
  rcases List.prefix_or_prefix_of_prefix hr (List.prefix_append [versions, name] _) with hup | ⟨rest, rfl⟩
  · -- above the staging directory, or the directory itself
    by_cases heq : r = [versions, name]
    · rw [heq]
      exact .inr htop
    · exact .inr (h.wellFormed.above htop.ne_none hup heq)
  by_cases hthere : t.get ([versions, name] ++ rest) = none
  · exact .inl hthere
  rcases h.dir_or_file hthere with hdir | ⟨content, hfile⟩
  · exact .inr hdir
  · have hnone := hcomp.no_file ((List.prefix_append_right_inj _).mp hr)
    rw [(hun.files rest content).mp hfile] at hnone
    cases hnone

theorem writeEntry_sure {e : Entry} (hno : ∀ op, ¬ may op) (h : Layout t)
    (hun : Unpacked t [versions, name] done) (hcomp : Compatible (done ++ [e]))
    (hshort : (segments e.path).length ≤ maxDepth) :
    Watch (Faulty may) (fun _ _ => True) (fun r _ => ∃ u, r = .ok u)
      (store.writeEntry [versions, name] e).run t := by
  have hne := segments_ne_nil e.path
  have hdrop : ([versions, name] ++ segments e.path).dropLast
      = [versions, name] ++ (segments e.path).dropLast := List.dropLast_append_of_ne_nil hne
  have hsplit : [versions, name] ++ segments e.path
      = [versions, name] ++ (segments e.path).dropLast ++ [(segments e.path).getLast hne] := by
    rw [List.append_assoc, List.dropLast_append_getLast]
  have hlen : ([versions, name] ++ (segments e.path).dropLast).length + 1 ≤ walkLimit := by
    rw [List.length_append, List.length_dropLast]
    unfold maxDepth at hshort
    unfold walkLimit
    simp only [List.length_cons, List.length_nil]
    omega
  unfold Store.writeEntry
  rw [if_pos (List.prefix_append _ _), hdrop]
  refine .run_bind (Watch.and (createDirAll_watch _ h)
    (createDirAll_sure hno h (by omega) fun r hr _ => hun.way h hcomp hr)) ?_ ?_
  · intro _ t1 ⟨⟨h1, hmade⟩, _⟩
    obtain ⟨hfill, hparent⟩ := hmade () rfl
    -- no directory was made at the path of the entry
    have hdir : ¬ t1.IsDir ([versions, name] ++ segments e.path) := by
      rw [IsDir.of_filledIn hfill h1.wellFormed hparent]
      intro hd
      rcases hd with hd | hd
      · exact hcomp.no_folder ((hun.folders _).mp hd)
      · exact ((isPrefix_dropLast hne).mp ((List.prefix_append_right_inj _).mp hd)).2 rfl
    have hlink := h1.noLinks (name :: segments e.path)
    change ∀ dest, t1.get ([versions, name] ++ segments e.path) ≠ _ at hlink
    rw [hsplit] at hdir hlink ⊢
    exact watch_orIo (writeFile_sure hno h1.wellFormed hlen hparent hlink hdir) (fun _ _ _ => ⟨_, rfl⟩)
      (fun _ _ _ he => nomatch he)
  · intro e t1 ⟨_, he⟩
    exact nomatch he

variable {entries : List Entry}

/-- Entries that are not in each other's way are all written. -/
theorem writeEntries_sure (hno : ∀ op, ¬ may op) (h : Layout t)
    (hun : Unpacked t [versions, name] done) (hcomp : Compatible (done ++ entries))
    (hshort : ∀ e ∈ entries, (segments e.path).length ≤ maxDepth) :
    Watch (Faulty may) (fun _ _ => True) (fun r _ => ∃ u, r = .ok u)
      (store.writeEntries [versions, name] entries).run t := by
  induction entries generalizing t done with
  | nil => exact .of_pure ⟨(), rfl⟩
  | cons e rest ih =>
    have hassoc : done ++ e :: rest = done ++ [e] ++ rest := by simp
    rw [hassoc] at hcomp
    unfold Store.writeEntries
    refine .run_bind (Watch.and (writeEntry_watch h hun.staged)
      (writeEntry_sure hno h hun hcomp.of_append (hshort e (.head _)))) ?_ ?_
    · rintro _ t1 ⟨⟨h1, hone⟩, _⟩
      exact ih h1 ((hone () rfl).exact trivial) hcomp fun e' he' => hshort e' (.tail _ he')
    · rintro e t1 ⟨_, _, he⟩
      cases he

/-- Nothing but a directory stands here. -/
def NoFile (t : FileTree Bytes) (p : Path) : Prop := t.get p = none ∨ t.IsDir p

theorem stage_sure (hno : ∀ op, ¬ may op) (h : Layout t) (hversions : NoFile t versionsDir)
    (hstaging : NoFile t [versions, name]) (hcomp : Compatible entries)
    (hshort : ∀ e ∈ entries, (segments e.path).length ≤ maxDepth) :
    Watch (Faulty may) (fun _ _ => True) (fun r _ => ∃ u, r = .ok u)
      (store.stage [versions, name] entries).run t := by
  unfold Store.stage
  refine .run_bind (watch_ignoring (P := fun t' => Layout t' ∧ NoFile t' versionsDir ∧
    t'.get [versions, name] = none) (watch_call fun ans t' hw => ?_)) ?_ ?_
  · obtain ⟨hlayout, hless⟩ := removeDirAll_layout h hw
    have hgone := removeDirAll_gone h (fun _ => hno _) hw
    refine ⟨trivial, hlayout, ?_, ?_⟩
    · rcases hless versionsDir with hsame | ⟨hpre, _⟩
      · unfold NoFile IsDir at hversions ⊢
        rwa [hsame]
      · exact absurd hpre.length_le (by simp [versionsDir])
    rcases hless [versions, name] with hsame | ⟨_, hnone⟩
    · rcases hstaging with hnone | ⟨mode, hdir⟩
      · rw [hsame, hnone]
      · exact absurd ⟨mode, hsame.trans hdir⟩ hgone
    · exact hnone
  · rintro _ t1 ⟨⟨h1, hversions1, hnone⟩, _⟩
    have hway : ∀ r, r <+: [versions, name] ++ [] → r ≠ [] → t1.get r = none ∨ t1.IsDir r := by
      intro r hr hne
      rcases prefix_snoc (p := [versions]) hr with hr | rfl
      · rcases prefix_snoc (p := []) hr with hr | rfl
        · exact absurd (List.prefix_nil.mp hr) hne
        · exact hversions1
      · exact .inl hnone
    refine .run_bind (Watch.and (createDirAll_watch [] h1)
      (createDirAll_sure hno h1 (by simp [walkLimit]) hway)) ?_ ?_
    · rintro _ t2 ⟨⟨h2, hmade⟩, _⟩
      obtain ⟨hfill, hdir⟩ := hmade () rfl
      exact writeEntries_sure hno h2 (unpacked_fresh h1.wellFormed (not_isDir_of_none hnone) hfill hdir)
        hcomp hshort
    · rintro e t2 ⟨_, _, he⟩
      cases he
  · rintro e t1 ⟨_, he⟩
    exact absurd rfl (he e)

theorem moveIntoPlace_sure {final : String} (hno : ∀ op, ¬ may op) (h : Layout t)
    (hdir : t.IsDir [versions, name]) (hnone : t.get [versions, final] = none) :
    Watch (Faulty may) (fun _ _ => True) (fun r _ => ∃ u, r = .ok u)
      (store.moveIntoPlace [versions, name] [versions, final]).run t := by
  have hversions : t.IsDir [versions] := h.wellFormed.above hdir.ne_none ⟨[name], rfl⟩ (by simp)
  have hresolve : ∀ x, t.resolve false ([versions] ++ [x]) = .ok ([versions] ++ [x]) :=
    fun x => h.wellFormed.resolve_child hversions (by simp [walkLimit]) (h.noLinks [x])
  have hne : [versions, name] ≠ [versions, final] := by
    intro heq
    rw [heq] at hdir
    exact hdir.ne_none hnone
  unfold Store.moveIntoPlace
  refine .bind (P := fun r _ => r = .ok ()) (watch_call fun ans t' hw => ⟨trivial, ?_⟩) ?_
  · have hans : (t.exec (.rename [versions, name] [versions, final])).1 = ans := (hw.sure (hno _)).1
    obtain ⟨mode, hget⟩ := hdir
    rw [← hans]
    have hfrom : t.resolve false [versions, name] = .ok [versions, name] := hresolve name
    have hto : t.resolve false [versions, final] = .ok [versions, final] := hresolve final
    have hpre : ¬ [versions, name] <+: [versions, final] := fun hpre => hne (hpre.eq_of_length rfl)
    simp only [exec, act, hfrom, hto, renameAt, if_neg hne, hget, hnone, if_neg hpre]
  · intro r t1 hr
    subst hr
    exact .of_pure ⟨(), rfl⟩

theorem writeVersion_sure {digest : String} (hno : ∀ op, ¬ may op) (h : Layout t)
    (hversions : NoFile t versionsDir) (hstaging : NoFile t (stagingDir digest))
    (hnone : t.get (versionDir digest) = none)
    (hne : stagingPrefix ++ dirName digest ≠ dirName digest) (hcomp : Compatible entries)
    (hshort : ∀ e ∈ entries, (segments e.path).length ≤ maxDepth) :
    Watch (Faulty may) (fun _ _ => True) (fun r _ => ∃ u, r = .ok u)
      (store.writeVersion digest entries).run t := by
  unfold Store.writeVersion
  refine .lift_bind (P := fun _ t' => t' = t) (watch_call fun ans t' hw =>
    ⟨trivial, hw.pathExists_same⟩) ?_
  intro there t1 ht
  subst ht
  cases there with
  | true => exact .of_pure ⟨(), rfl⟩
  | false =>
    refine .run_bind (Watch.and (Watch.only (stage_watch h fun (_ : True) _ => hno _))
      (stage_sure hno h hversions hstaging hcomp hshort)) ?_ ?_
    · intro _ t2 ⟨⟨⟨h2, hun⟩, honly⟩, _⟩
      have hdir : t2.IsDir (stagingDir digest) := (((hun () rfl).exact trivial).folders []).mpr (.inl rfl)
      have hfree : t2.get (versionDir digest) = none := by
        have hview := honly (versionDir digest) (not_inVersion (Ne.symm hne) [])
        rwa [view_eq_none.mpr hnone, view_eq_none] at hview
      exact moveIntoPlace_sure hno h2 hdir hfree
    · intro e t2 ⟨_, he⟩
      exact nomatch he

end

/-! ## 3. Written and read back -/

theorem sortByName_sorted (documents : List PolicyDocument) :
    (Store.sortByName documents).Pairwise fun a b => a.name ≤ b.name := by
  have htotal : Std.Total fun a b : PolicyDocument => a.name ≤ b.name :=
    ⟨fun a b => String.le_total a.name b.name⟩
  have htrans : IsTrans PolicyDocument fun a b => a.name ≤ b.name :=
    ⟨fun _ _ _ hab hbc => String.le_trans hab hbc⟩
  exact List.pairwise_insertionSort _ documents

theorem read_sorted {may : FsOp Bytes → Prop} {t : FileTree Bytes} {store : Store} {digest : String} :
    Watch (Faulty may) (fun _ _ => True)
      (fun r _ => ∀ bundle, r = .ok bundle → bundle.documents.Pairwise fun a b => a.name ≤ b.name)
      (store.read digest).run t := by
  unfold Store.read
  refine .run_bind (P := fun _ _ => True) (Sat.of_nothing fun _ _ => trivial) ?_ fun e t' _ => nofun
  intro docs t1 _
  by_cases hnone : docs = []
  · rw [if_pos hnone]
    exact .of_pure nofun
  rw [if_neg hnone]
  refine .of_pure ?_
  intro bundle hbundle
  rw [← Except.ok.inj hbundle]
  exact sortByName_sorted docs

/-- **Unpacking and reading back**, with no fault on disk and no directory of the version yet. It succeeds
    exactly when no path of an entry is a directory of another's, and then the documents that are read are
    the contents of the last entries of the paths, sorted by name. Besides directories there may be nothing
    where the versions and the staging directory are to be: an earlier staging directory may. -/
theorem write_version_then_read {archive : Bytes} {maxTotal : Nat} {entries : List Entry}
    (hextract : extract archive maxTotal = .ok entries) (store : Store) (digest : String)
    {t : FileTree Bytes} (h : Layout t) (hversions : NoFile t versionsDir)
    (hstaging : NoFile t (stagingDir digest)) (hnone : t.get (versionDir digest) = none) :
    (∃ tr r t', Exec Exact (store.writeVersion digest entries).run t tr r t') ∧
      ∀ tr r t', Exec Exact (store.writeVersion digest entries).run t tr r t' →
        (r = .ok () ↔ Compatible entries) ∧
        (r = .ok () → (∃ tr₁ r₁ t₁, Exec Exact (store.read digest).run t' tr₁ r₁ t₁) ∧
          ∀ tr₁ r₁ t₁, Exec Exact (store.read digest).run t' tr₁ r₁ t₁ →
            ∃ bundle, r₁ = .ok bundle ∧ bundle.revision = digest ∧
              bundle.documents.Pairwise (fun a b => a.name ≤ b.name) ∧
              DocumentsOf entries bundle.documents) := by
  obtain ⟨hsome, hshort⟩ := extract_short hextract
  have hruns : ∀ {α : Type} (p : Prog (FsSig Bytes) α) (t₀ : FileTree Bytes),
      ∃ tr a t₁, Exec Exact p t₀ tr a t₁ := by
    intro α p t₀
    exact ⟨_, _, _, Prog.play_exec (fun op u => ⟨SameAnswer.refl op _, rfl⟩) p t₀⟩
  have hno : ∀ op : FsOp Bytes, ¬ (fun _ : FsOp Bytes => False) op := fun _ hf => hf
  have hexact : ∀ op u ans u', Exact op u ans u' → Faulty (fun _ : FsOp Bytes => False) op u ans u' :=
    fun _ _ _ _ hw => .inl hw
  have hne := staging_ne (dirName digest)
  refine ⟨hruns _ t, ?_⟩
  intro tr r t' hrun
  obtain ⟨h', hleft, -⟩ := Watch.post (Sat.mono_world hexact
    (writeVersion_watch h (fun (_ : True) _ => hno (.removeDirAll (stagingDir digest))) hne)) hrun
  have hunpacked : r = .ok () → Unpacked t' (versionDir digest) entries := by
    intro hr
    rcases hleft () hr with ⟨-, hthere⟩ | ⟨-, hun⟩
    · exact absurd hnone hthere
    · exact hun.exact trivial
  refine ⟨⟨fun hr => (hunpacked hr).compatible, ?_⟩, ?_⟩
  · intro hcomp
    obtain ⟨u, hu⟩ := Watch.post (Sat.mono_world hexact
      (writeVersion_sure hno h hversions hstaging hnone hne hcomp hshort)) hrun
    exact hu
  intro hr
  refine ⟨hruns _ t', ?_⟩
  intro tr₁ r₁ t₁ hread
  obtain ⟨-, bundle, hbundle, hrevision, hdocs⟩ := Watch.post (Sat.mono_world hexact
    (read_ok h' hno (hunpacked hr) hsome hshort)) hread
  have hsorted := Watch.post (Sat.mono_world hexact read_sorted) hread
  exact ⟨bundle, hbundle, hrevision, hsorted bundle hbundle, hdocs⟩

/-- A bundle of three files, one of them twice and in a directory, unpacked where nothing is and read
    back. -/
theorem write_version_then_read_tiny : ∃ entries, extract tinyArchive 6 = .ok entries ∧
    entries.map Entry.path = ["d/a", "b", "d/a"] ∧
    ∀ tr r t', Exec Exact ((Store.new "/b" 1).writeVersion "sha256:a" entries).run
      ⟨[([], .dir 0o755)], 0⟩ tr r t' → r = .ok () ∧
      ∀ tr₁ r₁ t₁, Exec Exact ((Store.new "/b" 1).read "sha256:a").run t' tr₁ r₁ t₁ →
        ∃ bundle, r₁ = .ok bundle ∧ bundle.documents.Pairwise (fun a b => a.name ≤ b.name) ∧
          DocumentsOf entries bundle.documents := by
  have hread : (extract tinyArchive 6).toOption.map (·.map Entry.path) = some ["d/a", "b", "d/a"] := by
    decide +kernel
  cases h : extract tinyArchive 6 with
  | error e =>
    rw [h] at hread
    cases hread
  | ok entries =>
    rw [h] at hread
    have hpaths : entries.map Entry.path = ["d/a", "b", "d/a"] := Option.some.inj hread
    have hcomp : Compatible entries := by
      have hapart : ∀ p ∈ entries.map Entry.path, ∀ q ∈ entries.map Entry.path,
          ¬ (segments p <+: segments q ∧ p ≠ q) := by
        rw [hpaths]
        decide
      exact fun e he e' he' => hapart _ (List.mem_map_of_mem he) _ (List.mem_map_of_mem he')
    refine ⟨entries, rfl, hpaths, ?_⟩
    intro tr r t' hrun
    obtain ⟨hok, hback⟩ := (write_version_then_read h (Store.new "/b" 1) "sha256:a"
      (layout_fresh 0o755 0) (.inl (get_fresh (by decide))) (.inl (get_fresh (by decide)))
      (get_fresh (by decide))).2 tr r t' hrun
    refine ⟨hok.mpr hcomp, ?_⟩
    intro tr₁ r₁ t₁ hrun₁
    obtain ⟨bundle, hr, -, hsorted, hdocs⟩ := (hback (hok.mpr hcomp)).2 tr₁ r₁ t₁ hrun₁
    exact ⟨bundle, hr, hsorted, hdocs⟩

end Svidlet.Policy
