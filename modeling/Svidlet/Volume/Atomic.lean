import Svidlet.Lib.FsFrame
import Svidlet.Volume.Publish

/-!
# A publish is atomic

What `..data` shows is one whole identity, before, during and after a publish that runs alone, and
whatever goes wrong on the way. The argument is a footprint argument in three phases.

> **Filling.** Until the rename, a publish writes only under the directory it has just created,
> to the three visible links and to the temporary link. The generation on show is none of
> these (`only_filling_shows`).
>
> **The rename.** One step; after it `..data` points at a directory that is complete.
>
> **Collecting.** What is removed afterwards has another version number (`only_stale_shows`).

The world is the faulty one, in which every call may fail. `publishIdentity_watch` is the result;
what the volume shows when a call stops part way and what it shows under a lock are both read off
it.
-/

namespace Svidlet.Volume

open Lib Lib.FileTree

/-- The tree below one target path. -/
abbrev VolTree := FileTree ByteArray

/-! ## 1. What a volume shows -/

/-- `dir` holds the key, the chain and the CA of `identity`. -/
structure Complete (t : VolTree) (dir : Path) (identity : Identity) : Prop where
  key : t.HoldsFile (dir ++ [keyFile]) identity.keyPem.toUTF8
  cert : t.HoldsFile (dir ++ [certFile]) identity.certChainPem.toUTF8
  ca : t.HoldsFile (dir ++ [caFile]) identity.caPem.toUTF8

/-- `..data` resolves to an existing directory that holds the whole of `identity`. -/
def Shows (t : VolTree) (identity : Identity) : Prop :=
  ∃ dir, t.resolve true [dataLink] = .ok dir ∧ t.IsDir dir ∧ Complete t dir identity

/-- `..data` is a link to `dest`. -/
def LinksTo (t : VolTree) (dest : Path) : Prop := t.view [dataLink] = some (.symlink dest)

def IsVersion (name : String) : Prop := (versionOf name versionPrefix).isSome

/-- If `..data` is a link at all, it points at a generation that is there. -/
def Sound (t : VolTree) : Prop :=
  ∀ dest, LinksTo t dest → ∃ d, dest = [d] ∧ IsVersion d ∧ t.IsDir [d]

/-- The generation `d` is on show and is that of `identity`. -/
structure PublishedAt (t : VolTree) (d : String) (identity : Identity) : Prop where
  root : t.IsDir []
  link : LinksTo t [d]
  version : IsVersion d
  isDir : t.IsDir [d]
  complete : Complete t [d] identity

def Published (t : VolTree) (identity : Identity) : Prop := ∃ d, PublishedAt t d identity

variable {t : VolTree} {identity : Identity}

/-- What readers resolve through `..data` is what is published. -/
theorem Published.shows (h : Published t identity) : Shows t identity := by
  obtain ⟨d, h⟩ := h
  refine ⟨[d], ?_, h.isDir, h.complete⟩
  obtain ⟨rootMode, hroot⟩ := h.root
  obtain ⟨mode, hd⟩ := h.isDir
  have hlink : t.get [dataLink] = some (.symlink [d]) := view_eq_symlink.mp h.link
  unfold resolve
  rw [hroot]
  simp [walkLimit, walk, hlink, hd]

variable {t' : VolTree} {F : Path → Prop}

/-- A publish that has changed nothing of the generation on show shows it still. -/
theorem PublishedAt.of_only {d : String} (h : PublishedAt t d identity) (ho : Only F t t')
    (hroot : ¬ F []) (hlink : ¬ F [dataLink]) (hd : ∀ rest, ¬ F (d :: rest)) :
    PublishedAt t' d identity where
  root := ho.isDir hroot h.root
  link := (ho _ hlink).trans h.link
  version := h.version
  isDir := ho.isDir (hd []) h.isDir
  complete :=
    { key := ho.holdsFile (hd _) h.complete.key
      cert := ho.holdsFile (hd _) h.complete.cert
      ca := ho.holdsFile (hd _) h.complete.ca }

theorem Sound.of_only (h : Sound t) (ho : Only F t t') (hlink : ¬ F [dataLink])
    (hd : ∀ d, LinksTo t [d] → IsVersion d → ¬ F [d]) : Sound t' := by
  intro dest hdest
  have hdest' : LinksTo t dest := (ho _ hlink).symm.trans hdest
  obtain ⟨d, rfl, hv, hdir⟩ := h dest hdest'
  exact ⟨d, rfl, hv, ho.isDir (hd d hdest' hv) hdir⟩

/-! ## 2. Names -/

theorem versionOf_versionName {pre : String} {v : Nat} (h : v < 2 ^ 64) :
    versionOf (versionName pre v) pre = some v := by
  simp only [versionOf, versionName, stripPrefix_append, Option.bind_some]
  exact parseU64_toString h

theorem versionAfter_lt (names : List String) (pre : String) : versionAfter names pre < 2 ^ 64 :=
  Nat.mod_lt _ (by decide)

theorem isVersion_versionName {v : Nat} (h : v < 2 ^ 64) :
    IsVersion (versionName versionPrefix v) := by
  unfold IsVersion
  rw [versionOf_versionName h]
  rfl

/-- None of the other names in a volume is that of a version. -/
theorem not_isVersion {name : String}
    (h : name ∈ [dataLink, tmpName dataLink, keyFile, certFile, caFile]) : ¬ IsVersion name := by
  unfold IsVersion
  revert name
  decide

/-! ## 3. Filling the new generation -/

section

variable {may : FsOp ByteArray → Prop} {t : VolTree} {p : Path} {contents : ByteArray} {mode : Nat}

/-- A file written to a free place in a directory; the place is all that changes. -/
theorem writeFile_watch (hres : t.resolve true p = .ok p) (hfree : t.get p = none) :
    Watch (Faulty may) (Only (· = p)) (fun r t' => r = .ok () → t'.HoldsFile p contents)
      (writeFile p contents mode).run t := by
  unfold writeFile
  -- the inode is a new one, so no other path is bound to it
  refine .run_bind (P := fun r t' => ∀ ino, r = .ok ino →
    (∃ c m g, t'.get p = some (.file ino c m g)) ∧
      ∀ q c m g, t'.get q = some (.file ino c m g) → q = p) ?_ ?_ ?_
  · refine watch_call fun ans t' hw => ⟨hw.only fun q hq => ?_, ?_⟩
    · rw [show t.resolve true p = .ok q from hq] at hres
      exact Except.ok.inj hres
    intro ino hans
    subst hans
    obtain ⟨q, hq, hino, m, g, hget⟩ := hw.openTruncate_ok
    obtain rfl : p = q := Except.ok.inj (hres.symm.trans hq)
    refine ⟨⟨_, m, g, hget⟩, ?_⟩
    intro q c m' g' hq'
    by_contra hne
    have hsame : t'.get q = t.get q := hw.frame fun ht => by
      rw [show t.resolve true p = .ok q from ht] at hres
      exact hne (Except.ok.inj hres)
    rw [hsame] at hq'
    rcases hino with ⟨_, _, _, hold⟩ | ⟨_, rfl⟩
    · rw [hfree] at hold
      cases hold
    · exact Nat.lt_irrefl _ (t.ino_lt_freshIno hq')
  · intro ino t1 h1
    obtain ⟨⟨c, m, g, hget⟩, honly⟩ := h1 ino rfl
    refine .run_bind (P := fun r t' => r = .ok () → t'.HoldsFile p contents) ?_ ?_ ?_
    · refine watch_call fun ans t' hw => ⟨hw.only fun q hq => ?_, ?_⟩
      · obtain ⟨c', m', g', hq⟩ := hq
        exact honly q c' m' g' hq
      intro hans
      subst hans
      rw [hw.writeAll_ok]
      exact ⟨ino, by simp [view, hget, FileTree.fill, plain]⟩
    · intro _ t2 h2
      refine .run_bind (P := fun _ t' => t'.HoldsFile p contents) ?_ ?_ ?_
      · refine watch_call fun ans t' hw => ?_
        have hnone : Only (fun _ => False) t2 t' := hw.only fun q hq => hq
        exact ⟨hnone.mono fun _ hf => hf.elim, hnone.holdsFile (fun hf => hf) (h2 rfl)⟩
      · intro _ t3 h3
        refine watch_call fun ans t' hw => ?_
        have hnone : Only (fun _ => False) t3 t' := hw.setPermissions_only
        exact ⟨hnone.mono fun _ hf => hf.elim,
          fun _ => hnone.holdsFile (fun hf => hf) h3⟩
      · intro e t3 _ he
        cases he
    · intro e t2 _ he
      cases he
  · intro e t1 _ he
    cases he

/-- The directory `v` is there, and nothing in it has the name `f` yet. -/
structure Ready (t : VolTree) (v f : String) : Prop where
  root : t.IsDir []
  isDir : t.IsDir [v]
  free : t.get [v, f] = none

variable {t' : VolTree} {F : Path → Prop} {v : String} {f : String}

theorem Ready.of_only (h : Ready t v f) (ho : Only F t t') (hroot : ¬ F []) (hv : ¬ F [v])
    (hf : ¬ F [v, f]) : Ready t' v f where
  root := ho.isDir hroot h.root
  isDir := ho.isDir hv h.isDir
  free := view_eq_none.mp ((ho _ hf).trans (view_eq_none.mpr h.free))

/-- The files directly in the directory `v`. -/
def FilesOf (v : String) (q : Path) : Prop := ∃ f, q = [v, f]

theorem Ready.writeFile (h : Ready t v f) :
    Watch (Faulty may) (Only (FilesOf v))
      (fun r t' => (r = .ok () → t'.HoldsFile [v, f] contents) ∧ Only (· = [v, f]) t t')
      (writeFile [v, f] contents mode).run t := by
  have hres : t.resolve true [v, f] = .ok [v, f] := by
    refine t.resolve_of_dirs h.root (by simp [walkLimit]) ⟨h.isDir, trivial⟩ ?_
    intro _ dest hdest
    rw [h.free] at hdest
    cases hdest
  exact Watch.widen (fun q hq => ⟨f, hq⟩) (Watch.only (writeFile_watch hres h.free))

/-- Changing modes and syncing changes nothing a reader sees. -/
theorem chgrpKey_watch {gid : Option Nat} :
    Watch (Faulty may) (Only F) (fun _ t' => Only (fun _ => False) t t') (chgrpKey p gid).run t := by
  cases gid with
  | none => exact .of_pure (Only.refl _ t)
  | some gid =>
    refine watch_call fun ans t' hw => ?_
    exact ⟨hw.chgrp_only, hw.chgrp_only⟩

variable {identity : Identity} {modes : Modes}

theorem fillVersion_watch (hkey : Ready t v keyFile) (hcert : Ready t v certFile)
    (hca : Ready t v caFile) :
    Watch (Faulty may) (Only (FilesOf v)) (fun r t' => r = .ok () → Complete t' [v] identity)
      (fillVersion v identity modes).run t := by
  unfold fillVersion
  have hne : ∀ {f g : String}, f ≠ g → ¬ ([v, f] : Path) = [v, g] := by
    intro f g hfg he
    simp only [List.cons.injEq, and_true, true_and] at he
    exact hfg he
  refine .run_bind (P := fun _ t' => Only (fun _ => False) t t') ?_ ?_ (by simp)
  · refine watch_call fun ans t' hw => ?_
    exact ⟨hw.setPermissions_only, hw.setPermissions_only⟩
  intro _ t1 h1
  have hkey : Ready t1 v keyFile := hkey.of_only h1 id id id
  have hcert : Ready t1 v certFile := hcert.of_only h1 id id id
  have hca : Ready t1 v caFile := hca.of_only h1 id id id
  refine .run_bind hkey.writeFile ?_ (by simp)
  intro _ t2 ⟨hkey, h2⟩
  have hkey := hkey rfl
  have hcert : Ready t2 v certFile := hcert.of_only h2 (by simp) (by simp) (hne (by decide))
  have hca : Ready t2 v caFile := hca.of_only h2 (by simp) (by simp) (hne (by decide))
  refine .run_bind chgrpKey_watch ?_ (by simp)
  intro _ t3 h3
  have hkey := h3.holdsFile id hkey
  have hcert : Ready t3 v certFile := hcert.of_only h3 id id id
  have hca : Ready t3 v caFile := hca.of_only h3 id id id
  refine .run_bind hcert.writeFile ?_ (by simp)
  intro _ t4 ⟨hcert, h4⟩
  have hcert := hcert rfl
  have hkey := h4.holdsFile (hne (by decide)) hkey
  have hca : Ready t4 v caFile := hca.of_only h4 (by simp) (by simp) (hne (by decide))
  refine .run_bind hca.writeFile ?_ (by simp)
  intro _ t5 ⟨hca, h5⟩
  have hca := hca rfl
  have hkey := h5.holdsFile (hne (by decide)) hkey
  have hcert := h5.holdsFile (hne (by decide)) hcert
  refine watch_call fun ans t6 hw => ?_
  have h6 : Only (fun _ => False) t5 t6 := hw.only fun q hq => hq
  refine ⟨h6.mono fun _ hf => hf.elim, fun _ => ?_⟩
  exact ⟨h6.holdsFile id hkey, h6.holdsFile id hcert, h6.holdsFile id hca⟩

/-! ## 4. The links -/

theorem link_watch {name : String} {pointsTo : Path} :
    Watch (Faulty may) (Only (· = [name])) (fun _ _ => True) (link name pointsTo).run t := by
  unfold link
  refine .lift_bind (P := fun _ _ => True) ?_ ?_
  · refine watch_call fun ans t' hw => ⟨hw.only fun q hq => hq.elim, trivial⟩
  intro r t1 _
  cases r with
  | ok _ => exact .of_pure trivial
  | error e =>
    refine watch_call fun ans t' hw => ⟨hw.only fun q hq => ?_, trivial⟩
    exact t1.resolve_single hq

variable {names : List String}

theorem linkEach_watch {linkName : String} :
    Watch (Faulty may) (Only (fun q => ∃ name ∈ names, q = [name])) (fun _ _ => True)
      (linkEach linkName names).run t := by
  induction names generalizing t with
  | nil => exact Watch.of_pure trivial
  | cons name rest ih =>
    unfold linkEach
    refine Watch.run_bind (P := fun _ _ => True) ?_ ?_ (fun _ _ _ => trivial)
    · exact Watch.widen (fun q hq => ⟨name, .head _, hq⟩) link_watch
    intro _ t1 _
    refine Watch.widen ?_ (ih (t := t1))
    rintro q ⟨n, hn, hq⟩
    exact ⟨n, .tail _ hn, hq⟩

/-! ## 5. Collecting -/

/-- Paths in a generation that `remove_stale_versions` deletes. -/
def InStale (keep : Nat) (q : Path) : Prop :=
  ∃ name rest, q = name :: rest ∧ isStale versionPrefix keep name = true

variable {keep : Nat}

theorem removeEach_watch (h : ∀ name ∈ names, isStale versionPrefix keep name = true) :
    Watch (Faulty may) (Only (InStale keep)) (fun _ _ => True) (removeEach names).run t := by
  induction names generalizing t with
  | nil => exact .of_pure trivial
  | cons name rest ih =>
    unfold removeEach
    refine .lift_bind (P := fun _ _ => True) ?_ ?_
    · refine watch_call fun ans t' hw => ⟨hw.only fun q hq => ?_, trivial⟩
      obtain ⟨a, ha, hpre⟩ := hq
      rw [t.resolve_single ha] at hpre
      obtain ⟨u, rfl⟩ := hpre
      exact ⟨name, u, rfl, h name (.head _)⟩
    · intro _ t1 _
      exact ih fun n hn => h n (.tail _ hn)

theorem removeStaleVersions_watch :
    Watch (Faulty may) (Only (InStale keep)) (fun _ _ => True)
      (removeStaleVersions versionPrefix keep).run t := by
  unfold removeStaleVersions
  refine .run_bind (P := fun _ _ => True) ?_ ?_ (fun _ _ _ => trivial)
  · refine watch_call fun ans t' hw => ⟨hw.only fun q hq => hq.elim, trivial⟩
  · intro entries t1 _
    exact removeEach_watch fun name hn => (List.mem_filter.mp hn).2

/-! ## 6. The whole publish -/

/-- What each step of a publish of `identity` promises: a sound volume stays sound, and it shows
    what it showed before or the whole of `identity`. -/
def Guar (identity : Identity) (t t' : VolTree) : Prop := Sound t → Sound t' ∧
    ∀ shown, Published t shown → Published t' shown ∨ Published t' identity

/-- The visible links and the temporary one. -/
def InLinks (q : Path) : Prop := ∃ name ∈ [tmpName dataLink, keyFile, certFile, caFile], q = [name]

/-- Where a publish writes before its rename. -/
def InFilling (v : String) (q : Path) : Prop := (∃ rest, q = v :: rest) ∨ InLinks q

theorem dataLink_not_inFilling (hv : IsVersion v) : ¬ InFilling v [dataLink] := by
  rintro (⟨rest, he⟩ | ⟨name, hname, he⟩)
  · simp only [List.cons.injEq] at he
    exact not_isVersion (.head _) (he.1 ▸ hv)
  · obtain rfl : dataLink = name := by simpa using he
    revert hname
    decide

theorem version_not_inFilling {d : String} {rest : Path} (hd : IsVersion d) (hdv : d ≠ v) :
    ¬ InFilling v (d :: rest) := by
  rintro (⟨rest', he⟩ | ⟨name, hname, he⟩)
  · simp only [List.cons.injEq] at he
    exact hdv he.1
  · simp only [List.cons.injEq] at he
    exact not_isVersion (.tail _ hname) (he.1 ▸ hd)

variable {a b : VolTree}

/-- Filling a generation that is not on show leaves what is on show alone. -/
theorem only_filling_guar (hv : IsVersion v) (hsound : Sound a) (hclear : ¬ LinksTo a [v])
    (ho : Only (InFilling v) a b) :
    Guar identity a b ∧ Sound b ∧ ¬ LinksTo b [v] := by
  have hlink := dataLink_not_inFilling hv
  have hkeep : ∀ d rest, LinksTo a [d] → IsVersion d → ¬ InFilling v (d :: rest) := by
    intro d rest hd hver
    refine version_not_inFilling hver ?_
    rintro rfl
    exact hclear hd
  have hsound' : Sound b := hsound.of_only ho hlink fun d hd hver => hkeep d [] hd hver
  refine ⟨fun _ => ⟨hsound', ?_⟩, hsound', ?_⟩
  · rintro shown ⟨d, hd⟩
    refine .inl ⟨d, hd.of_only ho ?_ hlink fun rest => hkeep d rest hd.link hd.version⟩
    rintro (⟨rest, he⟩ | ⟨name, _, he⟩)
    · cases he
    · cases he
  · intro hb
    exact hclear ((ho _ hlink).symm.trans hb)

variable {t : VolTree}

/-- A step that ends with `identity` on show needs no more. -/
theorem PublishedAt.guar (h : PublishedAt t' v identity) : Guar identity t t' := by
  intro _
  refine ⟨?_, fun _ _ => .inr ⟨v, h⟩⟩
  intro dest hdest
  have he : dest = [v] := by
    have := h.link.symm.trans hdest
    simpa using this.symm
  exact ⟨v, he, h.version, h.isDir⟩

theorem Guar.refl (identity : Identity) (t : VolTree) : Guar identity t t :=
  fun h => ⟨h, fun _ hs => .inl hs⟩

/-- A generation is filled and not yet on show. -/
structure Filled (t : VolTree) (v : String) (identity : Identity) : Prop where
  root : t.IsDir []
  version : IsVersion v
  isDir : t.IsDir [v]
  complete : Complete t [v] identity
  sound : Sound t
  clear : ¬ LinksTo t [v]

/-- Making links keeps a filled generation. -/
theorem Filled.of_only (h : Filled t v identity) (ho : Only InLinks t t') :
    Guar identity t t' ∧ Filled t' v identity := by
  obtain ⟨hguar, hsound, hclear⟩ : Guar identity t t' ∧ Sound t' ∧ ¬ LinksTo t' [v] :=
    only_filling_guar h.version h.sound h.clear (ho.mono fun q hq => .inr hq)
  have hv : ∀ rest, ¬ InLinks (v :: rest) := by
    rintro rest ⟨name, hname, he⟩
    simp only [List.cons.injEq] at he
    exact not_isVersion (.tail _ hname) (he.1 ▸ h.version)
  have hroot : ¬ InLinks [] := by
    rintro ⟨name, _, he⟩
    cases he
  exact ⟨hguar, ho.isDir hroot h.root, h.version, ho.isDir (hv []) h.isDir,
    ⟨ho.holdsFile (hv _) h.complete.key, ho.holdsFile (hv _) h.complete.cert,
      ho.holdsFile (hv _) h.complete.ca⟩, hsound, hclear⟩

/-- What a watched program that only makes links keeps, a publish keeps. -/
theorem Filled.watch {α : Type} {Q : α → VolTree → Prop} {p : Prog (FsSig ByteArray) α}
    (h : Filled t v identity) (hF : ∀ q, F q → InLinks q) (hp : Watch (Faulty may) (Only F) Q p t) :
    Watch (Faulty may) (Guar identity) (fun a t' => Q a t' ∧ Filled t' v identity) p t := by
  refine .strengthen ?_ hp h
  intro a b ha hab
  exact ha.of_only (hab.mono hF)

/-- The rename puts a filled generation on show. -/
theorem rename_published (h : Filled t v identity)
    (htmp : t.view [tmpName dataLink] = some (.symlink [v]))
    (hw : Faulty may (.rename [tmpName dataLink] [dataLink]) t (.ok ()) t') :
    PublishedAt t' v identity := by
  obtain ⟨a, b, ha, hb, hmove⟩ := hw.rename_ok
  obtain rfl := t.resolve_single ha
  obtain rfl := t.resolve_single hb
  have hne : ([tmpName dataLink] : Path) ≠ [dataLink] := by decide
  have hmove : t' = t.move [tmpName dataLink] [dataLink] := by
    rcases hmove with ⟨he, _⟩ | ⟨_, hmove⟩
    · exact absurd he hne
    · exact hmove
  have hother : ∀ rest, t'.view (v :: rest) = t.view (v :: rest) := by
    intro rest
    refine view_of_get ?_
    rw [hmove]
    refine t.get_move_other ?_ ?_
    · intro hp
      have he := (List.cons_prefix_cons.mp hp).1
      exact not_isVersion (by simp) (he ▸ h.version)
    · intro hp
      have he := (List.cons_prefix_cons.mp hp).1
      exact not_isVersion (by simp) (he ▸ h.version)
  have hroot : t'.view [] = t.view [] := by
    refine view_of_get ?_
    rw [hmove]
    exact t.get_move_other (by simp) (by simp)
  have hlink : t'.get [dataLink] = t.get [tmpName dataLink] := by
    rw [hmove]
    exact t.get_move_dst (by decide) (by decide) []
  have hsame : Only (fun q => q ≠ [] ∧ ∀ rest, q ≠ v :: rest) t t' := by
    intro q hq
    by_cases hnil : q = []
    · rw [hnil]
      exact hroot
    obtain ⟨rest, rfl⟩ : ∃ rest, q = v :: rest := by
      by_contra hno
      exact hq ⟨hnil, fun rest he => hno ⟨rest, he⟩⟩
    exact hother rest
  exact {
    root := hsame.isDir (by simp) h.root
    link := view_eq_symlink.mpr (hlink.trans (view_eq_symlink.mp htmp))
    version := h.version
    isDir := hsame.isDir (by simp) h.isDir
    complete :=
      { key := hsame.holdsFile (by simp) h.complete.key
        cert := hsame.holdsFile (by simp) h.complete.cert
        ca := hsame.holdsFile (by simp) h.complete.ca } }

theorem inLinks_tmp {q : Path} (h : q = [tmpName dataLink]) : InLinks q :=
  ⟨_, .head _, h⟩

variable {version : Nat}

theorem swap_watch (h : Filled t (versionName versionPrefix version) identity) :
    Watch (Faulty may) (Guar identity)
      (fun r t' => r = .ok () → PublishedAt t' (versionName versionPrefix version) identity)
      (swap dataLink versionPrefix version).run t := by
  unfold swap
  refine .lift_bind (h.watch (fun _ => inLinks_tmp) (Q := fun _ _ => True) ?_) ?_
  · refine watch_call fun ans t' hw => ⟨hw.only fun q hq => ?_, trivial⟩
    exact t.resolve_single hq
  intro _ t1 ⟨_, h1⟩
  refine .run_bind (h1.watch (fun _ => inLinks_tmp) (Q := fun r t' => r = .ok () →
    t'.view [tmpName dataLink] = some (.symlink [versionName versionPrefix version])) ?_) ?_ (by simp)
  · refine watch_call fun ans t' hw => ⟨hw.only fun q hq => t1.resolve_single hq, ?_⟩
    intro hans
    subst hans
    obtain ⟨q, hq, hget⟩ := hw.symlink_ok
    rw [t1.resolve_single hq] at hget
    exact view_eq_symlink.mpr hget
  intro _ t2 ⟨htmp, h2⟩
  -- the one step that shows
  refine .of_op fun ans t' hw => ?_
  cases ans with
  | ok u =>
    have hpub := rename_published h2 (htmp rfl) hw
    exact ⟨hpub.guar, fun _ => hpub⟩
  | error e =>
    refine ⟨?_, by simp⟩
    have hsame := Faulty.rename_error hw
    subst hsame
    exact Guar.refl identity t'

/-- Collecting never reaches the generation on show. -/
theorem PublishedAt.of_stale (hlt : version < 2 ^ 64)
    (h : PublishedAt a (versionName versionPrefix version) identity)
    (ho : Only (InStale version) a b) :
    PublishedAt b (versionName versionPrefix version) identity := by
  refine h.of_only ho ?_ ?_ ?_
  · rintro ⟨name, rest, he, _⟩
    cases he
  · rintro ⟨name, rest, he, hstale⟩
    obtain ⟨rfl, -⟩ : dataLink = name ∧ [] = rest := by simpa using he
    have hnone : versionOf dataLink versionPrefix = none := by decide
    simp [isStale, hnone] at hstale
  · rintro rest ⟨name, rest', he, hstale⟩
    obtain ⟨rfl, -⟩ := List.cons.inj he
    simp [isStale, versionOf_versionName hlt] at hstale

/-- The first call that changes something: a fresh directory, not the one on show. -/
theorem createDir_watch (hv : IsVersion v) (hsound : Sound t) : Watch (Faulty may) (Guar identity)
      (fun r t' => r = .ok () → Sound t' ∧ ¬ LinksTo t' [v] ∧ ∀ f, Ready t' v f)
      (Fs.createDir [v]).run t := by
  refine .of_op fun ans t' hw => ?_
  cases ans with
  | error e =>
    obtain rfl := Faulty.createDir_error hw
    exact ⟨Guar.refl identity t', by simp⟩
  | ok u =>
    obtain ⟨q, hq, hfree, rfl⟩ := Faulty.createDir_ok hw
    obtain rfl := t.resolve_single hq
    have hroot := t.isDir_root_of_resolve hq
    have hclear : ¬ LinksTo t [v] := by
      intro hl
      obtain ⟨d, hd, _, mode, hdir⟩ := hsound _ hl
      obtain rfl : v = d := by simpa using hd
      rw [hfree] at hdir
      cases hdir
    have ho : Only (InFilling v) t (t.addDir [v] newDirMode) := by
      intro q hq
      refine view_of_get (t.addDir_frame ?_)
      rintro ⟨rest, rfl⟩
      exact hq (.inl ⟨rest, rfl⟩)
    obtain ⟨hguar, hsound', hclear'⟩ : Guar identity t _ ∧ Sound _ ∧ ¬ LinksTo _ [v] :=
      only_filling_guar hv hsound hclear ho
    refine ⟨hguar, fun _ => ⟨hsound', hclear', fun f => ⟨?_, ?_, ?_⟩⟩⟩
    · obtain ⟨mode, hroot⟩ := hroot
      exact ⟨mode, by simpa using hroot⟩
    · exact ⟨newDirMode, by simp⟩
    · simp

/-- A publish that runs alone: at every step a sound volume shows what it showed before or the new
    identity, whole; if it succeeds it shows the new one. -/
theorem publishIdentity_watch (hsound : Sound t) :
    Watch (Faulty may) (Guar identity) (fun r t' => r = .ok () → Published t' identity)
      (publishIdentity identity modes).run t := by
  unfold publishIdentity
  refine .run_bind (P := fun r t' => Sound t' ∧ ∀ v, r = .ok v → v < 2 ^ 64) ?_ ?_ (by simp)
  · unfold nextVersion
    refine .lift_bind (P := fun _ t' => Sound t') ?_ ?_
    · refine .of_op fun ans t' hw => ?_
      obtain rfl := Faulty.readDir_same hw
      exact ⟨Guar.refl identity _, hsound⟩
    intro entries t' hs
    cases entries with
    | ok names => exact .of_pure ⟨hs, fun v hv => by cases hv; exact versionAfter_lt _ _⟩
    | error e => exact .of_pure ⟨hs, fun v hv => by cases hv; exact versionAfter_lt _ _⟩
  intro version t1 ⟨hsound, hlt⟩
  have hlt := hlt version rfl
  have hver := isVersion_versionName hlt
  refine .run_bind (createDir_watch hver hsound) ?_ (by simp)
  intro _ t2 h2
  obtain ⟨hsound, hclear, hready⟩ := h2 rfl
  -- filling: the guarantee comes from the footprint
  refine .run_bind (P := fun r t' => r = .ok () →
    Filled t' (versionName versionPrefix version) identity) ?_ ?_ (by simp)
  · have hfill : Watch (Faulty may) (Only (FilesOf (versionName versionPrefix version))) _
        (fillVersion (versionName versionPrefix version) identity modes).run t2 :=
      Watch.only (fillVersion_watch (hready keyFile) (hready certFile) (hready caFile))
    have hstep : ∀ a b : VolTree, (Sound a ∧ ¬ LinksTo a [versionName versionPrefix version]) →
        Only (FilesOf (versionName versionPrefix version)) a b →
        Guar identity a b ∧ Sound b ∧ ¬ LinksTo b [versionName versionPrefix version] := by
      intro a b ⟨hs, hc⟩ hab
      refine only_filling_guar hver hs hc (hab.mono ?_)
      rintro q ⟨f, rfl⟩
      exact .inl ⟨_, rfl⟩
    refine .mono ?_ (Watch.strengthen hstep hfill ⟨hsound, hclear⟩)
    intro r t' ⟨⟨hcomplete, honly⟩, hsound, hclear⟩ hr
    have hno : ∀ q : Path, q.length ≠ 2 → ¬ FilesOf (versionName versionPrefix version) q := by
      rintro q hq ⟨f, rfl⟩
      exact hq rfl
    exact ⟨honly.isDir (hno [] (by simp)) (hready keyFile).root, hver,
      honly.isDir (hno _ (by simp)) (hready keyFile).isDir, hcomplete hr, hsound, hclear⟩
  intro _ t3 h3
  refine .run_bind ((h3 rfl).watch ?_ linkEach_watch) ?_ (by simp)
  · rintro q ⟨name, hname, hq⟩
    exact ⟨name, .tail _ hname, hq⟩
  intro _ t4 ⟨_, h4⟩
  refine .run_bind (swap_watch h4) ?_ (by simp)
  intro _ t5 h5
  have hpub := h5 rfl
  -- from here on the identity stays on show
  have hkeep : ∀ a b : VolTree, PublishedAt a (versionName versionPrefix version) identity →
      Only (InStale version) a b →
      Guar identity a b ∧ PublishedAt b (versionName versionPrefix version) identity := by
    intro a b ha hab
    have hb := ha.of_stale hlt hab
    exact ⟨hb.guar, hb⟩
  have hrest : Watch (Faulty may) (Only (InStale version)) (fun _ _ => True)
      (do Fs.fsyncDir []; removeStaleVersions versionPrefix version : Vol Unit).run t5 := by
    refine .run_bind (P := fun _ _ => True) ?_ ?_ (fun _ _ _ => trivial)
    · exact watch_call fun ans t' hw => ⟨hw.only fun q hq => hq.elim, trivial⟩
    · intro _ t6 _
      exact removeStaleVersions_watch
  refine .mono ?_ (Watch.strengthen hkeep hrest hpub)
  intro r t' ⟨_, h⟩ _
  exact ⟨_, h⟩

end

end Svidlet.Volume
