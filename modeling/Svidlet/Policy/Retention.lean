import Svidlet.Policy.Readable
import Svidlet.Policy.Etag

/-!
# What is kept unpacked

A node that cannot reach the registry goes on with the bundle it has, and a rollback is to need no
download. Both rest on what `prune` leaves on disk. When nothing fails from outside, a call that
leaves a digest in memory leaves three things with it:

> the digest's version, the link `current` to it, and a version that can be read.

`InUse` is the first two; `Retained` is the invariant of a session. A swap that stops halfway moves
nothing, since the link moves in one call and only a version that was unpacked in full has its name.
A swap that goes through hands `prune` two digests, the new one and the one before it, and **these
are all that is left** (`Swapped.done_versions`). So the bundle in use is never pruned, and of the
superseded ones exactly one stays, however many the configuration asks for.
-/

namespace Svidlet.Policy

open Lib Lib.FileTree

/-! ## 1. The store, when nothing fails -/

section

variable {may : FsOp Bytes → Prop} {t t' : FileTree Bytes} {store : Store} {digest : String}

/-- `has` tells the truth. -/
theorem has_exact (h : Layout t) (hno : ∀ op, ¬ may op) :
    Watch (Faulty may) Unchanged (fun b t' => t' = t ∧ (b = true ↔ t.IsDir (versionDir digest)))
      (Store.has digest) t := by
  refine watch_call fun ans t' hw => ⟨hw.isDir_same, hw.isDir_same, ?_⟩
  constructor
  · intro hans
    subst hans
    exact hw.isDir_true (h.linkless [dirName digest])
  · intro hdir
    have hr : t.resolve true (versionDir digest) = .ok (versionDir digest) :=
      h.wellFormed.resolve_there hdir.ne_none (by simp [versionDir, walkLimit])
        (h.noLinks [dirName digest])
    obtain ⟨mode, hget⟩ := hdir
    have hans := (hw.exact (fun _ : True => hno) trivial).1
    simp only [exec, hr, hget] at hans
    exact hans.symm

theorem get_current_of_tmp {op : FsOp Bytes} {ans : op.Ans} (hw : Faulty may op t ans t')
    (htouch : ∀ q, t.Touches op q → q = [currentTmp]) : t'.get [current] = t.get [current] :=
  hw.frame fun ht => absurd (htouch _ ht) (by decide)

/-- **The link moves or it does not.** It moves to a version that is there. -/
theorem setCurrent_linked (h : Layout t) : Watch (Faulty may) (fun _ _ => True)
      (fun r t' => (∀ u, r = .ok u → t.IsDir (versionDir digest) ∧
          t'.get [current] = some (.symlink (versionDir digest))) ∧
        ∀ e, r = .error e → t'.get [current] = t.get [current])
      (store.setCurrent digest).run t := by
  unfold Store.setCurrent
  refine .lift_bind (P := fun there t' => t' = t ∧
    (there = true → t.IsDir (versionDir digest))) (watch_call fun ans t' hw => ?_) ?_
  · refine ⟨trivial, hw.isDir_same, ?_⟩
    intro hans
    subst hans
    exact hw.isDir_true (h.linkless [dirName digest])
  intro there t1 ⟨ht, hthere⟩
  subst ht
  cases there with
  | false => exact .of_pure ⟨nofun, fun _ _ => rfl⟩
  | true =>
    refine .run_bind (watch_ignoring (P := fun t' => t'.get [current] = t1.get [current])
      (watch_call fun ans t' hw => ⟨trivial, get_current_of_tmp hw fun q hq => ?_⟩)) ?_
      fun e t' he => absurd rfl (he.2 e)
    · exact t1.resolve_single hq
    intro _ t2 h2
    refine .run_bind (P := fun r t' => t'.get [current] = t1.get [current] ∧
      ∀ u, r = .ok u → t'.get [currentTmp] = some (.symlink (versionDir digest))) ?_ ?_ ?_
    · refine watch_orIo (P := fun r t' => t'.get [current] = t1.get [current] ∧
        ∀ u, r = .ok u → t'.get [currentTmp] = some (.symlink (versionDir digest)))
        (watch_call fun ans t' hw => ⟨trivial, ?_, ?_⟩) (fun _ _ hp => ⟨hp.1, fun u _ => hp.2 u rfl⟩)
        (fun _ _ _ hp => ⟨hp.1, nofun⟩)
      · exact (get_current_of_tmp hw fun q hq => t2.resolve_single hq).trans h2.1
      intro u hu
      subst hu
      obtain ⟨q, hq, hget⟩ := hw.symlink_ok
      rwa [t2.resolve_single hq] at hget
    · intro _ t3 h3
      refine watch_orIo (P := fun r t' =>
        (∀ u, r = .ok u → t'.get [current] = some (.symlink (versionDir digest))) ∧
          ∀ e, r = .error e → t'.get [current] = t1.get [current])
        (watch_call fun ans t' hw => ⟨trivial, ?_, ?_⟩)
        (fun _ _ hp => ⟨fun u _ => ⟨hthere rfl, hp.1 u rfl⟩, nofun⟩)
        (fun e _ _ hp => ⟨nofun, fun _ _ => hp.2 e rfl⟩)
      · intro u hu
        subst hu
        obtain ⟨a, b, ha, hb, hmove⟩ := hw.rename_ok
        rw [t3.resolve_single ha, t3.resolve_single hb] at hmove
        rcases hmove with ⟨heq, -⟩ | ⟨-, rfl⟩
        · exact absurd heq (by decide)
        · have hdst : (t3.move [currentTmp] [current]).get ([current] ++ []) =
              t3.get ([currentTmp] ++ []) := t3.get_move_dst (by decide) (by decide) []
          exact hdst.trans (h3.2 () rfl)
      · intro e he
        subst he
        rw [hw.rename_error]
        exact h3.1
    · intro e t' he
      exact ⟨nofun, fun _ _ => he.1⟩

/-- What pruning leaves of the names it has been through. -/
structure Pruned (kept names : List String) (t t' : FileTree Bytes) : Prop where
  layout : Layout t'
  others : ∀ q, ¬ [versions] <+: q → t'.get q = t.get q
  stays : ∀ v, startsWith v stagingPrefix = false → v ∈ kept ∨ v ∉ names →
    ∀ rest, t'.get ([versions, v] ++ rest) = t.get ([versions, v] ++ rest)
  goes : ∀ v, startsWith v stagingPrefix = false → v ∈ names → v ∉ kept → ¬ t'.IsDir [versions, v]

variable {kept : List String}

theorem Pruned.refl (h : Layout t) : Pruned kept [] t t :=
  ⟨h, fun _ _ => rfl, fun _ _ _ _ => rfl, nofun⟩

variable {names : List String} {name : String}

/-- A name that was left alone. -/
theorem Pruned.skip (h : Pruned kept names t t') (hname : name ∈ kept) :
    Pruned kept (name :: names) t t' := by
  refine ⟨h.layout, h.others, ?_, ?_⟩
  · intro v hv hstays
    refine h.stays v hv ?_
    rcases hstays with hkept | hother
    · exact .inl hkept
    · exact .inr fun hmem => hother (.tail _ hmem)
  · intro v hv hmem hgone
    rcases List.mem_cons.mp hmem with rfl | hmem
    · exact absurd hname hgone
    · exact h.goes v hv hmem hgone

/-- A name that was removed, before the others. -/
theorem Pruned.remove {t1 : FileTree Bytes} {ans : Except IoError Unit} (h : Layout t)
    (hno : ∀ op, ¬ may op) (hw : Faulty may (.removeDirAll [versions, name]) t ans t1)
    (hname : startsWith name stagingPrefix = true ∨ name ∉ kept) (hrest : Pruned kept names t1 t') :
    Pruned kept (name :: names) t t' := by
  have hget := hw.removeDirAll_get (h.linkless [name])
  have hsame : ∀ v, v ≠ name → ∀ rest, t1.get ([versions, v] ++ rest) = t.get ([versions, v] ++ rest) := by
    intro v hv rest
    rcases hget ([versions, v] ++ rest) with hsame | ⟨hpre, -⟩
    · exact hsame
    · exact absurd (.inl hpre) (not_inVersion hv rest)
  refine ⟨hrest.layout, ?_, ?_, ?_⟩
  · intro q hq
    rw [hrest.others q hq]
    rcases hget q with hsame | ⟨hpre, -⟩
    · exact hsame
    · exact absurd (List.IsPrefix.trans (by simp) hpre) hq
  · intro v hv hstays rest
    have hne : v ≠ name := by
      intro heq
      subst heq
      rcases hstays with hkept | hother
      · rcases hname with hstaging | hgone
        · rw [hv] at hstaging
          cases hstaging
        · exact hgone hkept
      · exact hother (.head _)
    have hlater : v ∈ kept ∨ v ∉ names :=
      hstays.imp id fun hother hmem => hother (.tail _ hmem)
    rw [hrest.stays v hv hlater, hsame v hne]
  · intro v hv hmem hgone
    by_cases hlater : v ∈ names
    · exact hrest.goes v hv hlater hgone
    -- only the removal saw this name, and nothing came back
    obtain rfl : v = name := (List.mem_cons.mp hmem).resolve_right hlater
    have hthere := hrest.stays v hv (.inr hlater) []
    rw [List.append_nil] at hthere
    intro ⟨mode, hdir⟩
    exact removeDirAll_gone h (fun _ => hno _) hw ⟨mode, hthere ▸ hdir⟩

theorem pruneEach_pruned {removed : Nat} (h : Layout t) (hno : ∀ op, ¬ may op) :
    Watch (Faulty may) (fun _ _ => True) (fun _ t' => Pruned kept names t t')
      (Store.pruneEach kept names removed) t := by
  induction names generalizing t removed with
  | nil => exact .of_pure (Pruned.refl h)
  | cons name rest ih =>
    -- the rest of the round, once the name has been removed
    have hlater : ∀ {t1 : FileTree Bytes} {n : Nat} {ans : Except IoError Unit},
        startsWith name stagingPrefix = true ∨ name ∉ kept →
        Faulty may (.removeDirAll [versions, name]) t ans t1 →
        Watch (Faulty may) (fun _ _ => True) (fun _ t' => Pruned kept (name :: rest) t t')
          (Store.pruneEach kept rest n) t1 := by
      intro t1 n ans hname hw
      exact .mono (fun _ _ hrest => Pruned.remove h hno hw hname hrest)
        (ih (removeDirAll_layout h hw).1)
    have hremove : Watch (Faulty may) (fun _ _ => True)
        (fun r t1 => Faulty may (.removeDirAll [versions, name]) t r t1)
        (Fs.removeDirAll [versions, name]).run t :=
      watch_call fun _ _ hw => ⟨trivial, hw⟩
    unfold Store.pruneEach
    split
    · rename_i hstaging
      exact .bind hremove fun _ t1 hw => hlater (.inl hstaging) hw
    split
    · rename_i hkept
      exact .mono (fun _ _ hrest => hrest.skip hkept) (ih h)
    rename_i hgone
    refine .bind hremove ?_
    intro r t1 hw
    cases r with
    | ok _ => exact hlater (.inr hgone) hw
    | error _ => exact hlater (.inr hgone) hw

/-- **What is left is what was to be kept**, of what was there. -/
structure LeftOnly (kept : List String) (t t' : FileTree Bytes) : Prop where
  others : ∀ q, ¬ [versions] <+: q → t'.get q = t.get q
  versions : ∀ v, startsWith v stagingPrefix = false →
    (t'.IsDir [versions, v] ↔ v ∈ kept ∧ t.IsDir [versions, v])

theorem prune_leftOnly {keepDigests : List String} (h : Layout t) (hno : ∀ op, ¬ may op) :
    Watch (Faulty may) (fun _ _ => True) (fun _ t' => LeftOnly (store.kept keepDigests) t t')
      (store.prune keepDigests) t := by
  unfold Store.prune
  refine .bind (P := fun r t' => t' = t ∧
      ∀ v, t.IsDir [versions, v] → v ∈ r.toOption.getD []) (watch_call fun ans t' hw => ⟨trivial, hw.readDir_same, ?_⟩) ?_
  · cases ans with
    | ok names =>
      intro v hv
      obtain ⟨-, hperm⟩ := hw.readDir_ok (h.linkless [])
      refine hperm.mem_iff.mp ((t.mem_names _ _).mpr ?_)
      exact Option.isSome_iff_ne_none.mpr hv.ne_none
    | error e =>
      -- the listing of a directory that is there does not fail
      intro v hv
      have hdir : t.IsDir [versions] := h.wellFormed.above hv.ne_none ⟨[v], rfl⟩ (by simp)
      have hr : t.resolve true [versions] = .ok [versions] :=
        h.wellFormed.resolve_there hdir.ne_none (by simp [walkLimit]) (h.noLinks [])
      obtain ⟨mode, hget⟩ := hdir
      have hans := (hw.exact (fun _ : True => hno) trivial).1
      simp only [versionsDir, exec, act, hr, hget] at hans
      cases hans
  · rintro r t1 ⟨ht, hnames⟩
    subst ht
    cases r with
    | error e => exact .of_pure ⟨fun _ _ => rfl, fun v _ =>
        ⟨fun hv => absurd (hnames v hv) List.not_mem_nil, fun hv => hv.2⟩⟩
    | ok names =>
      refine .mono ?_ (pruneEach_pruned h hno)
      intro _ t' hpruned
      refine ⟨hpruned.others, ?_⟩
      intro v hv
      have hsame : v ∈ store.kept keepDigests ∨ v ∉ names →
          (t'.IsDir [versions, v] ↔ t1.IsDir [versions, v]) := by
        intro hstays
        have hget := hpruned.stays v hv hstays []
        rw [List.append_nil] at hget
        unfold IsDir
        rw [hget]
      by_cases hkept : v ∈ store.kept keepDigests
      · rw [hsame (.inl hkept)]
        exact ⟨fun hdir => ⟨hkept, hdir⟩, fun hdir => hdir.2⟩
      refine ⟨fun hdir => ?_, fun hdir => absurd hdir.1 hkept⟩
      by_cases hmem : v ∈ names
      · exact absurd hdir (hpruned.goes v hv hmem hkept)
      · exact absurd (hnames v ((hsame (.inr hmem)).mp hdir)) hmem

theorem DigestForm.not_empty (h : DigestForm digest) : digest.isEmpty = false := by
  obtain ⟨hex, hlist, _⟩ := h.toList
  cases hempty : digest.isEmpty with
  | false => rfl
  | true =>
    rw [String.isEmpty_iff.mp hempty] at hlist
    cases hlist

/-- A store keeps at least one superseded version, so both digests a swap names are kept. -/
theorem kept_pair (store : Store) {new previous : String} (hnew : new.isEmpty = false) (v : String) :
    v ∈ store.kept ([new, previous].filter (!·.isEmpty)) ↔
      v = dirName new ∨ previous.isEmpty = false ∧ v = dirName previous := by
  have hlength : ([new, previous].filter (!·.isEmpty)).length ≤ store.keep + 1 :=
    (List.length_filter_le _ _).trans (Nat.succ_le_succ store.keepsOne)
  unfold Store.kept
  rw [List.take_of_length_le hlength]
  cases hprevious : previous.isEmpty with
  | true => simp [hnew, hprevious]
  | false => simp [hnew, hprevious]

/-- Preparing the directory takes nothing away. -/
theorem prepare_keeps (h : Layout t) :
    Watch (Faulty may) (fun _ _ => True) (fun _ t' => ∀ q, t.get q ≠ none → t'.get q = t.get q)
      store.prepare.run t := by
  refine watch_orIo (P := fun _ t' => ∀ q, t.get q ≠ none → t'.get q = t.get q)
    (watch_call fun ans t' hw => ⟨trivial, ?_⟩) (fun _ _ hp => hp) (fun _ _ _ hp => hp)
  intro q hq
  rcases hw.createDirAll_filledIn h.wellFormed (h.linkless _) q with hsame | ⟨hnone, _⟩
  · exact hsame
  · exact absurd hnone hq

end

/-! ## 2. A swap, when nothing fails -/

/-- The version is there, and `current` is a link to it. -/
structure InUse (t : FileTree Bytes) (digest : String) : Prop where
  there : t.IsDir (versionDir digest)
  linked : t.get [current] = some (.symlink (versionDir digest))

/-- Blobs with this digest unpack to these entries. -/
def Extracted (source : Source) (digest : String) (entries : List Entry) : Prop :=
  ∃ blob, source.crates.sha256Digest blob = digest ∧ extract blob source.maxBytes = .ok entries

theorem trusts_extracted (source : Source) (digest : String) :
    TrustsDigest source (Extracted source) digest :=
  fun blob _ hsha hextract => ⟨blob, hsha, hextract⟩

theorem noFaults_fs (op : FsOp Bytes) : ¬ noFaults.fs op := id

section

variable {source : Source} {s s' : PollState} {tr : List (Event PollSig)} {digest : String}

theorem has_noFaults {b : Bool} (h : Layout s.tree)
    (hrun : Exec (pollWorld noFaults) (onFs (Store.has digest)) s tr b s') :
    s' = s ∧ (b = true ↔ s.tree.IsDir (versionDir digest)) := by
  obtain ⟨t, ⟨ht, hb⟩, hs⟩ := onFs_post (has_exact h noFaults_fs) hrun
  rw [hs, ht]
  exact ⟨rfl, hb⟩

variable {r : Except Stop Unit}

/-- For a version that is there, looking for it is all that is done. -/
theorem ensureUnpacked_there (h : Layout s.tree) (hthere : s.tree.IsDir (versionDir digest))
    (hrun : Exec (pollWorld noFaults) (source.ensureUnpacked digest).run s tr r s') :
    s' = s ∧ Exec (pollWorld noFaults) (onFs (Store.has digest)) s tr true s := by
  unfold Source.ensureUnpacked at hrun
  obtain ⟨_, _, there, s1, htr, hhas, hrest⟩ := Exec.lift_bind_inv hrun
  obtain ⟨hs1, hb⟩ := has_noFaults h hhas
  rw [hb.mpr hthere] at hrest hhas
  rw [hs1] at hrest hhas
  cases hrest
  rw [htr, List.append_nil]
  exact ⟨rfl, hhas⟩

/-- Unpacking a bundle takes no version away, and leaves the link. -/
theorem ensureUnpacked_keeps {d : String} (h : Layout s.tree) (hform : DigestForm digest)
    (hd : DigestForm d) (huse : InUse s.tree d)
    (hrun : Exec (pollWorld noFaults) (source.ensureUnpacked digest).run s tr r s') :
    InUse s'.tree d := by
  by_cases hsame : d = digest
  · rw [(ensureUnpacked_there h (hsame ▸ huse.there) hrun).1]
    exact huse
  rcases ensureUnpacked_run hrun with ⟨hs, -⟩ | ⟨blob, entries, tr', _, _, _, _, hwrite⟩
  · rw [hs]
    exact huse
  obtain ⟨_, t, _, ⟨_, honly⟩, hs⟩ := onDisk_post (Watch.only (writeVersion_watch h
    (fun (_ : True) _ => noFaults_fs _) (staging_ne _))) hwrite
  rw [hs]
  have hother : ¬ InEither (stagingPrefix ++ dirName digest) (dirName digest) (versionDir d) := by
    intro hin
    rcases hin with hin | hin
    · exact not_inStaging (digest_not_staging hd) _ [] hin
    · exact not_inVersion (fun heq => hsame (hd.dirName_inj hform heq)) [] hin
  have hcurrent : ¬ InEither (stagingPrefix ++ dirName digest) (dirName digest) [current] := by
    simp [InEither, InVersion, current, versions]
  refine ⟨honly.isDir hother huse.there, ?_⟩
  rw [← view_eq_symlink]
  exact (honly _ hcurrent).trans (view_eq_symlink.mpr huse.linked)

/-- The link is moved to a version that is there, or is not moved. -/
theorem setCurrent_inUse (h : Layout s.tree)
    (hrun : Exec (pollWorld noFaults) (onDisk (source.store.setCurrent digest)).run s tr r s') :
    (∀ d, s.tree.IsDir (versionDir d) ↔ s'.tree.IsDir (versionDir d)) ∧
      (∀ u, r = .ok u → InUse s'.tree digest) ∧
      ∀ e, r = .error e → s'.tree.get [current] = s.tree.get [current] := by
  obtain ⟨r0, t, hr, ⟨hlinked, _, honly⟩, hs⟩ := onDisk_post
    (Watch.and (setCurrent_linked h) (Watch.only (setCurrent_watch h))) hrun
  rw [hs]
  have hdir : ∀ d, s.tree.IsDir (versionDir d) ↔ t.IsDir (versionDir d) := by
    intro d
    have hview := honly (versionDir d) (not_atCurrent [dirName d])
    rw [← view_eq_dir, ← view_eq_dir, hview]
  refine ⟨hdir, ?_, ?_⟩
  · intro u hu
    rw [hu] at hr
    obtain ⟨hthere, hlink⟩ := hlinked.1 u (mapError_ok.mp hr.symm)
    exact ⟨(hdir digest).mp hthere, hlink⟩
  intro e he
  rw [he] at hr
  cases r0 with
  | ok u => cases hr
  | error e0 => exact hlinked.2 e0 rfl

/-- A version of a digest is what a blob with the digest unpacked to. -/
theorem Sound.unpacked (h : Sound True (Extracted source) s.tree) (hform : DigestForm digest)
    (hthere : s.tree.IsDir (versionDir digest)) :
    ∃ entries, Extracted source digest entries ∧ Unpacked s.tree (versionDir digest) entries := by
  rcases h.verified trivial _ (digest_not_staging hform) with
    hnone | ⟨digest', entries, hdir, hform', htrusted, hun⟩
  · exact absurd hnone hthere.ne_none
  · obtain rfl := hform'.dirName_inj hform hdir
    exact ⟨entries, htrusted, hun⟩

/-- **What is there can be read.** -/
theorem read_noFaults {r : Except Error PolicyBundle} (h : Sound True (Extracted source) s.tree)
    (hform : DigestForm digest) (hthere : s.tree.IsDir (versionDir digest))
    (hrun : Exec (pollWorld noFaults) (onFs (source.store.read digest).run) s tr r s') :
    s' = s ∧ ∃ bundle, r = .ok bundle ∧ bundle.revision = digest ∧
      Delivers (Extracted source) digest bundle := by
  obtain ⟨entries, hextracted, hun⟩ := h.unpacked hform hthere
  obtain ⟨blob, _, hextract⟩ := id hextracted
  obtain ⟨hne, hshort⟩ := extract_short hextract
  obtain ⟨t, ⟨ht, bundle, hr, hrevision, hdocs⟩, hs⟩ :=
    onFs_post (read_ok h.layout noFaults_fs hun hne hshort) hrun
  rw [hs, ht]
  exact ⟨rfl, bundle, hr, hrevision, entries, hextracted, hdocs⟩

variable {ring : Ring} {previous : String} {etag : Option String}

/-- A swap that stops leaves the bundle in use. -/
theorem Swapped.failed_inUse {e : Stop} (h : Sound True (Extracted source) s.tree)
    (hform : DigestForm ring.bundle) (hprevious : DigestForm previous)
    (huse : InUse s.tree previous)
    (hswap : Swapped noFaults source ring previous etag s s' (.error e)) :
    InUse s'.tree previous := by
  have hclean : True → noFaults.Clean := fun _ _ => noFaults_fs _
  cases hswap with
  | notUnpacked hun => exact ensureUnpacked_keeps h.layout hform hprevious huse hun
  | notLinked hun hlink =>
    have h1 := ensureUnpacked_sound hclean h hform (trusts_extracted source _) hun
    have huse1 := ensureUnpacked_keeps h.layout hform hprevious huse hun
    obtain ⟨hdirs, _, hsame⟩ := setCurrent_inUse h1.layout hlink
    exact ⟨(hdirs _).mp huse1.there, (hsame e rfl).trans huse1.linked⟩
  | notRead hun hlink hread =>
    -- reading what was just linked cannot fail
    have h1 := ensureUnpacked_sound hclean h hform (trusts_extracted source _) hun
    have h2 := setCurrent_sound h1 hlink
    obtain ⟨_, hlinked, _⟩ := setCurrent_inUse h1.layout hlink
    obtain ⟨r0, hr, hread⟩ := onDisk_run hread
    obtain ⟨_, bundle, hok, _⟩ := read_noFaults h2 hform (hlinked () rfl).there hread
    rw [hok] at hr
    cases hr

/-- A swap that goes through puts its bundle in use, and leaves the version of the one before it
    and no other. -/
theorem Swapped.done_inUse {bundle : PolicyBundle} (h : Sound True (Extracted source) s.tree)
    (hform : DigestForm ring.bundle) (hprevious : previous.isEmpty = false → DigestForm previous)
    (huse : previous.isEmpty = false → InUse s.tree previous)
    (hswap : Swapped noFaults source ring previous etag s s' (.ok bundle)) :
    bundle.revision = ring.bundle ∧ s'.mem.digest = ring.bundle ∧ InUse s'.tree ring.bundle ∧
      ∀ d, DigestForm d → (s'.tree.IsDir (versionDir d) ↔
        d = ring.bundle ∨ previous.isEmpty = false ∧ d = previous) := by
  have hclean : True → noFaults.Clean := fun _ _ => noFaults_fs _
  cases hswap with
  | done hun hlink hread hset hprune hetag =>
    have h1 := ensureUnpacked_sound hclean h hform (trusts_extracted source _) hun
    have h2 := setCurrent_sound h1 hlink
    obtain ⟨hdirs, hlinked, _⟩ := setCurrent_inUse h1.layout hlink
    have huse2 := hlinked () rfl
    obtain ⟨r0, hr, hread⟩ := onDisk_run hread
    obtain ⟨hs3, bundle', hok, hrevision, _⟩ := read_noFaults h2 hform huse2.there hread
    rw [hok] at hr
    obtain rfl := Except.ok.inj hr
    obtain ⟨_, hset⟩ := setCurrent_run hset
    have htree := hset.tree
    rw [hs3] at htree
    obtain ⟨t, hleft, hs5⟩ := onFs_post (prune_leftOnly (htree ▸ h2.layout) noFaults_fs) hprune
    rw [htree] at hleft
    have hetag := rememberEtag_run hetag
    have hmem : s'.mem.digest = ring.bundle := by
      rw [hetag.mem, hs5]
      simp [PollState.withTree, hset.mem]
    have hnew := hform.not_empty
    rw [hetag.tree, hs5]
    have hversions : ∀ d, DigestForm d → (t.IsDir (versionDir d) ↔
        d = ring.bundle ∨ previous.isEmpty = false ∧ d = previous) := by
      intro d hd
      refine (hleft.versions _ (digest_not_staging hd)).trans ?_
      rw [kept_pair source.store hnew]
      constructor
      · intro ⟨hkept, _⟩
        refine hkept.imp (hd.dirName_inj hform) ?_
        intro ⟨hne, heq⟩
        exact ⟨hne, hd.dirName_inj (hprevious hne) heq⟩
      · intro hd'
        rcases hd' with heq | ⟨hne, heq⟩
        · rw [heq]
          exact ⟨.inl rfl, huse2.there⟩
        · rw [heq]
          have huse1 := ensureUnpacked_keeps h.layout hform (hprevious hne) (huse hne) hun
          exact ⟨.inr ⟨hne, rfl⟩, (hdirs _).mp huse1.there⟩
    refine ⟨hrevision, hmem, ⟨(hversions _ hform).mpr (.inl rfl), ?_⟩, hversions⟩
    exact (hleft.others [current] (by decide)).trans huse2.linked

end

/-! ## 3. Calls and sessions -/

/-- The bundle a poll swapped to. -/
def Answer.rolledOut : Answer → Option PolicyBundle
  | .polled outcome => outcome.result.toOption.join
  | _ => none

/-- What a call does to the bundle in use: nothing, or it is another one from then on and the one
    before it is the only other version. -/
inductive Turned (previous : String) (s' : PollState) : Option PolicyBundle → Prop where
  | stayed : s'.mem.digest = previous →
      (previous.isEmpty = false → InUse s'.tree previous) → Turned previous s' none
  | swapped {bundle : PolicyBundle} : DigestForm bundle.revision →
      previous ≠ bundle.revision → s'.mem.digest = bundle.revision →
      InUse s'.tree bundle.revision →
      (∀ d, DigestForm d → (s'.tree.IsDir (versionDir d) ↔
        d = bundle.revision ∨ previous.isEmpty = false ∧ d = previous)) →
      Turned previous s' (some bundle)

variable {previous : String}

theorem Turned.inUse {s' : PollState} {bundle : Option PolicyBundle}
    (h : Turned previous s' bundle) (hdigest : s'.mem.digest.isEmpty = false) :
    InUse s'.tree s'.mem.digest := by
  cases h with
  | stayed hsame huse =>
    rw [hsame] at hdigest ⊢
    exact huse hdigest
  | swapped _ _ hnow huse _ =>
    rw [hnow]
    exact huse

/-- What holds between the calls of a session. -/
structure Retained (source : Source) (s : PollState) : Prop where
  sound : Sound True (Extracted source) s.tree
  digests : s.GoodDigests
  consistent : s.Consistent
  inUse : s.mem.digest.isEmpty = false → InUse s.tree s.mem.digest

section

variable {source : Source} {s s' : PollState} {tr : List (Event PollSig)}

theorem Retained.digestForm (h : Retained source s) (hdigest : s.mem.digest.isEmpty = false) :
    DigestForm s.mem.digest := by
  rcases h.digests.1 with hempty | hform
  · rw [hdigest] at hempty
    cases hempty
  · exact hform

theorem Remembered.turned {m : State} (h : Remembered noFaults s s' m)
    (hm : m.digest = s.mem.digest) (huse : s.mem.digest.isEmpty = false → InUse s.tree s.mem.digest) :
    Turned s.mem.digest s' none :=
  .stayed (by rw [h.mem, hm]) (by rw [h.tree]; exact huse)

theorem Followed.turned {accepted : Accepted} {r : Except Stop (Option PolicyBundle)}
    (h : Retained source s) (hform : ∀ ring, accepted.rollout.target source.crates source.cluster
      source.node = some (some ring) → DigestForm ring.bundle)
    (hfollow : Followed noFaults source accepted s s' r) :
    Turned s.mem.digest s' r.toOption.join := by
  cases hfollow with
  | frozen _ hetag => exact (rememberEtag_run hetag).turned rfl h.inUse
  | panicked _ _ hs =>
    rw [hs]
    exact .stayed rfl h.inUse
  | noRing _ _ hetag => exact (rememberEtag_run hetag).turned rfl h.inUse
  | upToDate _ _ hdigest hetag hset =>
    have hetag := rememberEtag_run hetag
    have hkeep : s'.mem.digest = s.mem.digest ∧ s'.tree = s.tree := by
      rcases hset with hs | ⟨_, hset⟩
      · rw [hs, hetag.mem, hetag.tree]
        exact ⟨rfl, rfl⟩
      · obtain ⟨_, hset⟩ := setCurrent_run hset
        rw [hset.mem, hset.tree, hetag.tree]
        exact ⟨hdigest.symm, rfl⟩
    exact .stayed hkeep.1 (by rw [hkeep.2]; exact h.inUse)
  | @swapped ring r hfreeze htarget hmissing hswap =>
    have hring := hform ring htarget
    cases r with
    | error e =>
      obtain ⟨m, hrecorded, hsettled⟩ := hswap.settled hfreeze htarget
      cases hsettled
      refine .stayed (by rw [hrecorded.mem]) ?_
      intro hdigest
      exact hswap.failed_inUse h.sound hring (h.digestForm hdigest) (h.inUse hdigest)
    | ok bundle =>
      obtain ⟨hrevision, hmem, huse, hversions⟩ :=
        hswap.done_inUse h.sound hring h.digestForm h.inUse
      rw [← hrevision] at hring hmem huse hversions
      refine .swapped hring ?_ hmem huse hversions
      -- the version of the digest in memory is there, so it would have been found up to date
      intro hsame
      obtain ⟨_, hhas⟩ := hmissing (hsame.trans hrevision)
      obtain ⟨_, hb⟩ := has_noFaults h.sound.layout hhas
      have hthere := (h.inUse (hsame ▸ hring.not_empty)).there
      rw [hsame, hrevision] at hthere
      exact absurd (hb.mpr hthere) Bool.false_ne_true

variable {c : Call} {answer : Answer}

theorem Served.turned (h : Retained source s) (hserved : Served noFaults source tr s s' c answer) :
    Turned s.mem.digest s' answer.rolledOut := by
  cases hserved with
  | poll hpoll =>
    cases hpoll with
    | failed hs =>
      rw [hs]
      exact .stayed rfl h.inUse
    | unchanged _ _ _ hrecord =>
      exact .stayed (by rw [hrecord.mem]) (by rw [hrecord.tree]; exact h.inUse)
    | accepted hgenuine _ _ _ _ _ hrecord hfollow =>
      have hdigest := congrArg State.digest hrecord.mem
      have hs1 : Retained source _ :=
        ⟨hrecord.tree ▸ h.sound, hrecord.toRecorded.goodDigests h.digests h.digests.1,
          hrecord.saved id h.consistent, by rw [hdigest, hrecord.tree]; exact h.inUse⟩
      have hturned := hfollow.turned hs1 fun ring htarget =>
        target_digestForm hgenuine.parsed htarget
      rwa [hdigest] at hturned
  | recordError hrecord => exact hrecord.turned rfl h.inUse
  | loadNone hs =>
    rw [hs]
    exact .stayed rfl h.inUse
  | loadCurrent _ hread =>
    rw [(read_sound h.sound hread).1]
    exact .stayed rfl h.inUse
  | restart hprepare hstate =>
    obtain ⟨t, hkeeps, hs1⟩ := onFs_post (prepare_keeps h.sound.layout) hprepare
    have hsame := onFs_sameBut hprepare
    obtain ⟨hmem, _, htree⟩ := restart_mem id (hsame.consistent h.consistent) hstate
    have hdigest : s'.mem.digest = s.mem.digest := by rw [hmem, hsame.mem]
    refine .stayed hdigest ?_
    intro hne
    have huse := h.inUse hne
    rw [htree, hs1]
    obtain ⟨mode, hdir⟩ := huse.there
    refine ⟨⟨mode, (hkeeps _ (by rw [hdir]; nofun)).trans hdir⟩, ?_⟩
    exact (hkeeps _ (by rw [huse.linked]; nofun)).trans huse.linked

theorem serve_retained (h : Retained source s)
    (hrun : Exec (pollWorld noFaults) (source.serve c) s tr answer s') :
    Turned s.mem.digest s' answer.rolledOut ∧ Retained source s' := by
  have hserved := serve_run hrun
  have hturned := hserved.turned h
  obtain ⟨hsound, _⟩ := hserved.sound (fun _ _ => noFaults_fs _) h.sound
    fun _ ring _ _ => trusts_extracted source ring.bundle
  exact ⟨hturned, hsound, hserved.goodDigests h.digests,
    (hserved.mark id id h.consistent).consistent, hturned.inUse⟩

theorem retained_boot {t : FileTree Bytes} (hempty : EmptyDir t) : Retained source (.boot t none) :=
  ⟨hempty.sound, ⟨.inl rfl, nofun⟩, rfl, fun hdigest => absurd hdigest (show ¬ "".isEmpty = false by decide)⟩

theorem session_retained {ds : List (Done PollSig Call Answer)} (h : Retained source s)
    (hsession : Session (pollWorld noFaults) source.serve s ds s') : Retained source s' := by
  refine (Session.all (I := Retained source) (A := fun _ => True) (P := fun _ => True) ?_ hsession
    (fun _ _ => trivial) h).2
  intro c s tr b s' _ hI hrun
  exact ⟨trivial, (serve_retained hI hrun).2⟩

/-- What is in use is what `loadCurrent` returns. -/
theorem Retained.loadCurrent (h : Retained source s) (hdigest : s.mem.digest.isEmpty = false)
    {b : Option PolicyBundle} (hrun : Exec (pollWorld noFaults) source.loadCurrent s tr b s') :
    ∃ bundle, b = some bundle ∧ bundle.revision = s.mem.digest ∧
      Delivers (Extracted source) s.mem.digest bundle := by
  unfold Source.loadCurrent at hrun
  obtain ⟨_, _, state, s1, _, hread, hrest⟩ := Exec.bind_inv hrun
  obtain ⟨_, hstate, hs1⟩ := ask_run hread
  rw [hs1, hstate, if_neg (by rw [hdigest]; exact Bool.false_ne_true)] at hrest
  obtain ⟨_, _, there, s2, _, hhas, hrest⟩ := Exec.bind_inv hrest
  have huse := h.inUse hdigest
  obtain ⟨hs2, hb⟩ := has_noFaults h.sound.layout hhas
  rw [hs2, hb.mpr huse.there] at hrest
  obtain ⟨_, _, r, s3, _, hbundle, hend⟩ := Exec.bind_inv hrest
  cases hend
  obtain ⟨_, bundle, hr, hrevision, hdelivers⟩ :=
    read_noFaults h.sound (h.digestForm hdigest) huse.there hbundle
  exact ⟨bundle, by rw [hr]; rfl, hrevision, hdelivers⟩

theorem loadCurrent_ends (source : Source) (s : PollState) :
    ∃ tr b s', Exec (pollWorld noFaults) source.loadCurrent s tr b s' :=
  ⟨_, _, _, Prog.play_exec (firstTable.answer_world noFaults) _ s⟩

end

/-! ## 4. Superseded bundles -/

/-- The digests polls swapped to, in order. -/
def rollouts (ds : List (Done PollSig Call Answer)) : List String :=
  ds.filterMap fun d => d.answer.rolledOut.map PolicyBundle.revision

/-- The digests before the last one, each once, and the one that was last in use first. -/
def superseded (history : List String) : List String :=
  match history.getLast? with
  | none => []
  | some now => ((history.dropLast.filter (· ≠ now)).dedup).reverse

theorem superseded_single (now : String) : superseded [now] = [] := by
  simp [superseded]

/-- The one before the last leads. -/
theorem superseded_leads (old : List String) {now : String} (hne : previous ≠ now) :
    ∃ others, superseded (old ++ [previous] ++ [now]) = previous :: others ∧
      previous ∉ others ∧ ∀ x ∈ others, x ∈ old ∧ x ≠ now := by
  have heq : superseded (old ++ [previous] ++ [now])
      = ((old.filter (· ≠ now) ++ [previous]).dedup).reverse := by
    simp [superseded, hne]
  have hsuffix : [previous] <:+ (old.filter (· ≠ now) ++ [previous]).dedup := by
    rw [List.dedup_append]
    exact List.suffix_union_right _ _
  obtain ⟨others, hothers⟩ := hsuffix
  have hnodup : (others ++ [previous]).Nodup := hothers ▸ List.nodup_dedup _
  refine ⟨others.reverse, ?_, ?_, ?_⟩
  · rw [heq, ← hothers, List.reverse_append, List.reverse_singleton, List.singleton_append]
  · intro hmem
    have hdisjoint := List.disjoint_of_nodup_append hnodup
    exact hdisjoint (List.mem_reverse.mp hmem) (List.mem_singleton_self _)
  intro x hx
  have hmem : x ∈ (old.filter (· ≠ now) ++ [previous]).dedup :=
    hothers ▸ List.mem_append_left _ (List.mem_reverse.mp hx)
  rcases List.mem_append.mp (List.mem_dedup.mp hmem) with hold | hlast
  · obtain ⟨hold, hnow⟩ := List.mem_filter.mp hold
    exact ⟨hold, by simpa using hnow⟩
  · have hdisjoint := List.disjoint_of_nodup_append hnodup
    exact absurd hlast fun hlast => hdisjoint (List.mem_reverse.mp hx) hlast

/-- A fetch of a blob, from wherever. -/
def FetchesBlob (tr : List (Event PollSig)) : Prop :=
  ∃ url ans, (⟨.getBlob url, ans⟩ : Event PollSig) ∈ tr

/-- The version is there, and swapping to it fetches nothing. -/
def StillUnpacked (source : Source) (s : PollState) (digest : String) : Prop :=
  s.tree.IsDir (versionDir digest) ∧ ∀ ring previous etag tr r s', ring.bundle = digest →
    Exec (pollWorld noFaults) (source.swap ring previous etag).run s tr r s' → ¬ FetchesBlob tr

section

variable {source : Source} {s s' : PollState} {tr : List (Event PollSig)}

/-- Not a request for a blob. -/
def KeepsOffline (op : PollOp) : Prop := ∀ url, op ≠ .getBlob url

variable {α : Type}

theorem onFs_offline (p : Prog (FsSig Bytes) α) : (onFs p).Makes KeepsOffline := by
  induction p with
  | pure a => exact trivial
  | call op k ih => exact ⟨nofun, ih⟩

theorem onDisk_offline (x : Disk α) : (onDisk x).run.Makes KeepsOffline :=
  .bind (onFs_offline _) fun _ => trivial

theorem changeState_offline (f : State → State) : (changeState f).Makes KeepsOffline := by
  unfold changeState
  exact .bind ⟨nofun, fun _ => trivial⟩ fun _ =>
    .bind ⟨nofun, fun _ => trivial⟩ fun _ => trivial

theorem rememberEtag_offline (etag : Option String) : (rememberEtag etag).Makes KeepsOffline := by
  cases etag with
  | none => exact trivial
  | some etag => exact changeState_offline _

theorem setCurrent_offline (ring digest : String) :
    (Policy.setCurrent ring digest).Makes KeepsOffline :=
  .bind ⟨nofun, fun _ => trivial⟩ fun _ => changeState_offline _

theorem Offline.no_fetch (h : ∀ e ∈ tr, KeepsOffline e.op) : ¬ FetchesBlob tr := by
  intro ⟨url, ans, hmem⟩
  exact h _ hmem url rfl

/-- **A version that is there is not fetched again.** -/
theorem stillUnpacked_of_there {digest : String} (h : Layout s.tree)
    (hthere : s.tree.IsDir (versionDir digest)) : StillUnpacked source s digest := by
  refine ⟨hthere, ?_⟩
  intro ring previous etag tr r s' hring hrun
  subst hring
  refine Offline.no_fetch ?_
  unfold Source.swap at hrun
  rcases Exec.run_bind_inv hrun with ⟨e, _, hun⟩ | ⟨tr1, tr2, _, s1, htr, hun, hrest⟩
  · exact Exec.makes_trace (onFs_offline _) (ensureUnpacked_there h hthere hun).2
  have hfirst : ∀ e ∈ tr1, KeepsOffline e.op :=
    Exec.makes_trace (onFs_offline _) (ensureUnpacked_there h hthere hun).2
  have hthen : ∀ e ∈ tr2, KeepsOffline e.op := by
    refine Exec.makes_trace (φ := KeepsOffline) ?_ hrest
    refine .run_bind (onDisk_offline _) fun _ => ?_
    refine .run_bind (onDisk_offline _) fun bundle => ?_
    refine .lift_bind (setCurrent_offline _ _) fun _ => ?_
    refine .lift_bind (onFs_offline _) fun _ => ?_
    exact .lift_bind (rememberEtag_offline _) fun _ => trivial
  intro e he
  rw [htr] at he
  exact (List.mem_append.mp he).elim (hfirst e) (hthen e)

theorem rollouts_snoc (ds : List (Done PollSig Call Answer)) (d : Done PollSig Call Answer) :
    rollouts (ds ++ [d]) =
      rollouts ds ++ (d.answer.rolledOut.map PolicyBundle.revision).toList := by
  cases hd : d.answer.rolledOut with
  | none => simp [rollouts, hd]
  | some bundle => simp [rollouts, hd]

/-- What holds between calls, once `before` is done: the digest in memory is the last that was
    rolled out. -/
structure History (source : Source) (before : List (Done PollSig Call Answer)) (s : PollState) :
    Prop where
  retained : Retained source s
  last : s.mem.digest = (rollouts before).getLast?.getD ""
  forms : ∀ x ∈ rollouts before, DigestForm x

theorem serve_history (before : List (Done PollSig Call Answer)) {c : Call} {answer : Answer}
    (h : History source before s)
    (hrun : Exec (pollWorld noFaults) (source.serve c) s tr answer s') :
    History source (before ++ [⟨c, tr, answer⟩]) s' := by
  obtain ⟨hturned, hretained⟩ := serve_retained h.retained hrun
  have hsnoc := rollouts_snoc before ⟨c, tr, answer⟩
  refine ⟨hretained, ?_, ?_⟩
  · rw [hsnoc]
    cases hb : answer.rolledOut with
    | none =>
      rw [hb] at hturned
      cases hturned with
      | stayed hsame _ => simp [hsame, h.last]
    | some bundle =>
      rw [hb] at hturned
      cases hturned with
      | swapped _ _ hnow _ _ => simp [hnow]
  · intro x hx
    rw [hsnoc] at hx
    rcases List.mem_append.mp hx with hold | hnew
    · exact h.forms x hold
    cases hb : answer.rolledOut with
    | none => simp [hb] at hnew
    | some bundle =>
      rw [hb] at hturned
      cases hturned with
      | swapped hform _ _ _ _ =>
        simp only [hb, Option.map_some, Option.toList_some, List.mem_singleton] at hnew
        rw [hnew]
        exact hform

variable {t : FileTree Bytes} {ds : List (Done PollSig Call Answer)}

theorem session_history (hempty : EmptyDir t)
    (h : Session (pollWorld noFaults) source.serve (.boot t none) ds s) : History source ds s := by
  have hstart : History source [] (.boot t none) := ⟨retained_boot hempty, rfl, nofun⟩
  exact (Session.trail (I := History source) (A := fun _ => True) (P := fun _ _ => True)
    (fun before c s tr b s' _ hI hrun => ⟨trivial, serve_history before hI hrun⟩) h
    (fun _ _ => trivial) [] hstart).2

/-- After a rollout one superseded version is left, if there was one. -/
theorem superseded_left {d : Done PollSig Call Answer} {bundle : PolicyBundle}
    (hempty : EmptyDir t)
    (h : Session (pollWorld noFaults) source.serve (.boot t none) (ds ++ [d]) s)
    (hd : d.answer.rolledOut = some bundle) :
    superseded (rollouts (ds ++ [d])) = [] ∨
      ∃ previous others, superseded (rollouts (ds ++ [d])) = previous :: others ∧
        s.tree.IsDir (versionDir previous) ∧ ∀ x ∈ others, ¬ s.tree.IsDir (versionDir x) := by
  obtain ⟨s1, hbefore, hlast⟩ := h.snoc_inv
  have hhistory := session_history hempty hbefore
  obtain ⟨hturned, _⟩ := serve_retained hhistory.retained hlast
  rw [hd] at hturned
  have hsnoc : rollouts (ds ++ [d]) = rollouts ds ++ [bundle.revision] := by
    rw [rollouts_snoc, hd]
    rfl
  rw [hsnoc]
  cases hturned with
  | swapped hform hne _ _ hversions =>
    rcases List.eq_nil_or_concat (rollouts ds) with hnil | ⟨old, previous, hold⟩
    · rw [hnil]
      exact .inl (superseded_single _)
    rw [List.concat_eq_append] at hold
    have hprevious : s1.mem.digest = previous := by
      rw [hhistory.last, hold]
      simp
    have hforms := hhistory.forms
    rw [hold] at hforms ⊢
    rw [hprevious] at hne hversions
    have hform' := hforms previous (by simp)
    obtain ⟨others, heq, hnot, hmem⟩ := superseded_leads old hne
    refine .inr ⟨previous, others, heq, (hversions _ hform').mpr (.inr ⟨hform'.not_empty, rfl⟩), ?_⟩
    intro x hx hdir
    obtain ⟨hx', hnow⟩ := hmem x hx
    rcases (hversions x (hforms x (by simp [hx']))).mp hdir with heq | ⟨_, heq⟩
    · exact hnow heq
    · exact hnot (heq ▸ hx)

end

/-! ## 5. Three releases, two to be kept

    The default of `keep_versions` is two. -/

/-- `schema=1` and two empty lines -/
def thirdBundle : Bytes := tarball 11 (bundleText ++ [10, 10])

def thirdDigest : String :=
  "sha256:2929b03f24348c765179d929fe3b425e9a8885c8b389ed15087aa946ac537464"

def thirdRelease : Release where
  toml := utf8Bytes ("schema=1\n[[ring]]\nname=\"a\"\nbundle=\"" ++ thirdDigest ++ "\"\n")
  signature := bigEndian 64
    0x517b6045357e9fb148eeb0aa2a5d4fdda13ed0fb32e88a1488f38e91ef13f525568bb066a1bae82a94443a44002622484ae9827fa4ffb18d98dcfcca23c6aa0e
  parsed := ⟨1, "ed25519", "c2NoZW1hPTEKW1tyaW5nXV0KbmFtZT0iYSIKYnVuZGxlPSJzaGEyNTY6MjkyOWIwM2YyNDM0OGM3NjUxNzlkOTI5ZmUzYjQyNWU5YTg4ODVjOGIzODllZDE1MDg3YWE5NDZhYzUzNzQ2NCIK",
    "UXtgRTV+n7FI7rCqKl1P3aE+0Psy6IoUiPOOke8T9SVWi7BmobroKpREOkQAJiJISumCf6T/sY2Y3PzKI8aqDg=="⟩
  digest := bigEndian 32 0x3c41d847f3404387bcd97e0ad405078047257dd237abd2550f963e37d91d037d
  rollout := ⟨1, false, none, none, [⟨"a", ⟨[], none, []⟩, thirdDigest⟩]⟩

def threeSource : Source := { sampleSource [firstRelease, secondRelease, thirdRelease]
      [(firstBundle, bigEndian 32 0x46be3b261b2182d31b090f0c3b8621f96973239ef8a957738e955a510820ab98),
        (secondBundle, bigEndian 32 0x89f3d1941182590bbf2f8fad504c289fc5e37983ee4b9c879500a70ad1ea4114),
        (thirdBundle, bigEndian 32 0x2929b03f24348c765179d929fe3b425e9a8885c8b389ed15087aa946ac537464)]
    with store := Store.new "/b" 2 }

/-- One release after the other. -/
def threeTable : Table where
  manifest poll _ := .ok (if poll = 1 then firstRelease.response none
    else if poll = 2 then secondRelease.response none else thirdRelease.response none)
  blob := blobOf threeSource [firstRelease, secondRelease, thirdRelease]
    [(firstDigest, firstBundle), (secondDigest, secondBundle), (thirdDigest, thirdBundle)]
  now := 0

def firstRollout : List (Done PollSig Call Answer) × PollState :=
  threeTable.play threeSource [.restart, .poll] (.boot emptyTree none)

def nextRollout (s : PollState) : List (Event PollSig) × Answer × PollState :=
  (threeSource.serve .poll).play threeTable.answer s

def secondRollout : List (Event PollSig) × Answer × PollState := nextRollout firstRollout.2

def thirdRollout : List (Event PollSig) × Answer × PollState := nextRollout secondRollout.2.2

def secondDone : Done PollSig Call Answer := ⟨.poll, secondRollout.1, secondRollout.2.1⟩

def thirdDone : Done PollSig Call Answer := ⟨.poll, thirdRollout.1, thirdRollout.2.1⟩

theorem nextRollout_exec (s : PollState) : Exec (pollWorld noFaults) (threeSource.serve .poll) s
    (nextRollout s).1 (nextRollout s).2.1 (nextRollout s).2.2 := by
  unfold nextRollout
  exact Prog.play_exec (threeTable.answer_world noFaults) _ _

theorem secondRollout_exec : Exec (pollWorld noFaults) (threeSource.serve .poll) firstRollout.2
    secondRollout.1 secondRollout.2.1 secondRollout.2.2 := by
  unfold secondRollout
  exact nextRollout_exec _

theorem thirdRollout_exec : Exec (pollWorld noFaults) (threeSource.serve .poll) secondRollout.2.2
    thirdRollout.1 thirdRollout.2.1 thirdRollout.2.2 := by
  unfold thirdRollout
  exact nextRollout_exec _

theorem firstRollout_session : Session (pollWorld noFaults) threeSource.serve
    (.boot emptyTree none) firstRollout.1 firstRollout.2 := by
  unfold firstRollout
  exact threeTable.play_session noFaults _ _ _

theorem secondDone_session : Session (pollWorld noFaults) threeSource.serve
    (.boot emptyTree none) (firstRollout.1 ++ [secondDone]) secondRollout.2.2 :=
  firstRollout_session.snoc secondRollout_exec

theorem thirdDone_session : Session (pollWorld noFaults) threeSource.serve
    (.boot emptyTree none) (firstRollout.1 ++ [secondDone] ++ [thirdDone]) thirdRollout.2.2 :=
  secondDone_session.snoc thirdRollout_exec

theorem rolled_out : rollouts firstRollout.1 = [firstDigest] ∧
    secondDone.answer.rolledOut.map PolicyBundle.revision = some secondDigest ∧
    thirdDone.answer.rolledOut.map PolicyBundle.revision = some thirdDigest := by
  decide +kernel

theorem rollouts_second :
    rollouts (firstRollout.1 ++ [secondDone]) = [firstDigest, secondDigest] := by
  rw [rollouts_snoc, rolled_out.1, rolled_out.2.1]
  rfl

theorem rollouts_third : rollouts (firstRollout.1 ++ [secondDone] ++ [thirdDone])
    = [firstDigest, secondDigest, thirdDigest] := by
  rw [rollouts_snoc, rollouts_second, rolled_out.2.2]
  rfl

theorem thirdRollout_digest : thirdRollout.2.2.mem.digest = thirdDigest := by
  rw [(session_history emptyTree_emptyDir thirdDone_session).last, rollouts_third]
  rfl

theorem superseded_second : superseded [firstDigest, secondDigest] = [firstDigest] := by
  decide

theorem superseded_third :
    superseded [firstDigest, secondDigest, thirdDigest] = [secondDigest, firstDigest] := by
  decide

/-! ## 6. What stays and what does not -/

section

variable {source : Source} {s : PollState}

/-- **The bundle in use stays.** After any calls from an empty directory, whatever the registry
    answered, the version of the digest in memory is there, the link points to it, and loading it
    ends with its bundle. -/
theorem bundle_in_use_is_kept {t : FileTree Bytes} {ds : List (Done PollSig Call Answer)}
    (hempty : EmptyDir t)
    (h : Session (pollWorld noFaults) source.serve (.boot t none) ds s)
    (hdigest : s.mem.digest.isEmpty = false) :
    s.tree.IsDir (versionDir s.mem.digest) ∧
      s.tree.get [current] = some (.symlink (versionDir s.mem.digest)) ∧
      (∃ tr b s', Exec (pollWorld noFaults) source.loadCurrent s tr b s') ∧
      ∀ tr b s', Exec (pollWorld noFaults) source.loadCurrent s tr b s' →
        ∃ bundle, b = some bundle ∧ bundle.revision = s.mem.digest ∧
          Delivers (Extracted source) s.mem.digest bundle := by
  have hretained := session_retained (retained_boot hempty) h
  have huse := hretained.inUse hdigest
  exact ⟨huse.there, huse.linked, loadCurrent_ends source s,
    fun _ _ _ => hretained.loadCurrent hdigest⟩

theorem bundle_in_use_is_kept_third :
    thirdRollout.2.2.tree.IsDir (versionDir thirdRollout.2.2.mem.digest) ∧
      thirdRollout.2.2.tree.get [current]
        = some (.symlink (versionDir thirdRollout.2.2.mem.digest)) ∧
      (∃ tr b s', Exec (pollWorld noFaults) threeSource.loadCurrent thirdRollout.2.2 tr b s') ∧
      ∀ tr b s', Exec (pollWorld noFaults) threeSource.loadCurrent thirdRollout.2.2 tr b s' →
        ∃ bundle, b = some bundle ∧ bundle.revision = thirdRollout.2.2.mem.digest ∧
          Delivers (Extracted threeSource) thirdRollout.2.2.mem.digest bundle := by
  refine bundle_in_use_is_kept emptyTree_emptyDir thirdDone_session ?_
  rw [thirdRollout_digest]
  decide

/-- **What is kept for a rollback.** After a rollout, the bundles superseded most recently are
    still unpacked, as many as the configuration says, if and only if it says one or there is no
    second one. -/
theorem superseded_stay_unpacked_iff {t : FileTree Bytes} {ds : List (Done PollSig Call Answer)}
    {d : Done PollSig Call Answer} {bundle : PolicyBundle} (hempty : EmptyDir t)
    (h : Session (pollWorld noFaults) source.serve (.boot t none) (ds ++ [d]) s)
    (hd : d.answer.rolledOut = some bundle) :
    (∀ x ∈ (superseded (rollouts (ds ++ [d]))).take source.store.keep, StillUnpacked source s x) ↔
      source.store.keep = 1 ∨ (superseded (rollouts (ds ++ [d]))).length ≤ 1 := by
  have hlayout := (session_history hempty h).retained.sound.layout
  obtain ⟨keep, hkeep⟩ : ∃ keep, source.store.keep = keep + 1 :=
    ⟨source.store.keep - 1, (Nat.sub_add_cancel source.store.keepsOne).symm⟩
  rw [hkeep]
  rcases superseded_left hempty h hd with hnil | ⟨previous, others, heq, hthere, hgone⟩
  · simp [hnil]
  rw [heq, List.take_succ_cons]
  constructor
  · intro hall
    cases keep with
    | zero => exact .inl rfl
    | succ keep =>
      cases others with
      | nil => exact .inr (by simp)
      | cons x others => exact absurd (hall x (by simp)).1 (hgone x (by simp))
  · intro hfew x hx
    have hlast : x = previous := by
      rcases hfew with hone | hlength
      · obtain rfl : keep = 0 := by omega
        simpa using hx
      · have hnone : others = [] := by simpa using hlength
        simpa [hnone] using hx
    rw [hlast]
    exact stillUnpacked_of_there hlayout hthere

/-- After the second rollout the first bundle is still there. -/
theorem superseded_stay_unpacked_second :
    superseded (rollouts (firstRollout.1 ++ [secondDone])) = [firstDigest] ∧
      StillUnpacked threeSource secondRollout.2.2 firstDigest := by
  have hone : superseded (rollouts (firstRollout.1 ++ [secondDone])) = [firstDigest] := by
    rw [rollouts_second, superseded_second]
  obtain ⟨bundle, hbundle, _⟩ := Option.map_eq_some_iff.mp rolled_out.2.1
  have hall := (superseded_stay_unpacked_iff emptyTree_emptyDir secondDone_session hbundle).mpr
    (.inr (by rw [hone]; exact Nat.le_refl 1))
  exact ⟨hone, hall firstDigest (by rw [hone]; exact .head _)⟩

/-- After the third, two are to be kept and the first is gone. -/
theorem second_superseded_is_pruned : threeSource.store.keep = 2 ∧
      superseded (rollouts (firstRollout.1 ++ [secondDone] ++ [thirdDone]))
        = [secondDigest, firstDigest] ∧
      ¬ StillUnpacked threeSource thirdRollout.2.2 firstDigest := by
  have hlist : superseded (rollouts (firstRollout.1 ++ [secondDone] ++ [thirdDone]))
      = [secondDigest, firstDigest] := by
    rw [rollouts_third, superseded_third]
  refine ⟨rfl, hlist, ?_⟩
  obtain ⟨bundle, hbundle, _⟩ := Option.map_eq_some_iff.mp rolled_out.2.2
  rcases superseded_left emptyTree_emptyDir thirdDone_session hbundle with
    hnil | ⟨previous, others, heq, _, hgone⟩
  · rw [hlist] at hnil
    cases hnil
  · rw [hlist] at heq
    obtain ⟨_, rfl⟩ := List.cons.inj heq
    exact fun hstill => hgone _ (List.mem_singleton_self _) hstill.1

end

end Svidlet.Policy
