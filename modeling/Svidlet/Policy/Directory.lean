import Svidlet.Policy.ReadBack
import Svidlet.Policy.World

/-!
# The bundle directory over whole calls

Two things about the directory survive everything a source does to it.

**The layout.** The tree stays well formed and no symlink gets under `versions`, whatever fails.

**The versions.** `set_current` works beside the versions, `prune` and `prepare` only take whole
versions away or make the directory of all of them, and `write_version` puts in one version that
was not there. So a fact that holds of each version by itself, like

> `Verified trusted t`  every version holds the files of some trusted list of entries

is kept by the first three, and by the last when what it unpacks is trusted. A staging directory is
not a version, which is why digests must not be mistaken for one (`digest_not_staging`).
-/

namespace Svidlet.Policy

open Lib Lib.FileTree

/-! ## 1. Names of versions -/

/-- A digest of the form a manifest may name. -/
def DigestForm (digest : String) : Prop :=
  ∃ hex, stripPrefix digest "sha256:" = some hex ∧ hex.toList.all isHexDigit = true

variable {digest : String}

theorem digestForm_of_check {ring : String} {u : Unit} (h : checkDigestForm digest ring = .ok u) :
    DigestForm digest := by
  unfold checkDigestForm at h
  split at h
  · cases h
  · rename_i hex hstrip
    have hboth := not_or.mp (refuseIf_ok.mp h)
    exact ⟨hex, hstrip, by simpa using hboth.2⟩

/-- The ring a manifest that was read has for a node names a digest of that form. -/
theorem target_digestForm {K : Crates} {toml : Bytes} {rollout : Rollout} {cluster node : String}
    {ring : Ring} (hparse : Rollout.parse K toml = .ok rollout)
    (htarget : rollout.target K cluster node = some (some ring)) : DigestForm ring.bundle :=
  digestForm_of_check (Rollout.parse_ok hparse ring (firstRing_mem htarget))

theorem hex_no_colon {chars : List Char} (h : chars.all isHexDigit = true) :
    chars.map (fun c => if c = ':' then '-' else c) = chars := by
  refine (List.map_congr_left ?_).trans (List.map_id chars)
  intro c hc
  have hhex := List.all_eq_true.mp h c hc
  rw [if_neg ?_]
  · rfl
  · rintro rfl
    exact absurd hhex (by decide)

theorem DigestForm.toList (h : DigestForm digest) :
    ∃ hex : List Char, digest.toList = "sha256:".toList ++ hex ∧
      (dirName digest).toList = "sha256-".toList ++ hex := by
  obtain ⟨hex, hstrip, hall⟩ := h
  have hlist := toList_of_stripPrefix hstrip
  refine ⟨hex.toList, hlist, ?_⟩
  unfold dirName
  rw [String.toList_ofList, hlist, List.map_append, hex_no_colon hall]
  rfl

/-- Two digests with one directory are one digest. -/
theorem DigestForm.dirName_inj {digest' : String} (h : DigestForm digest) (h' : DigestForm digest')
    (heq : dirName digest = dirName digest') : digest = digest' := by
  obtain ⟨hex, hlist, hdir⟩ := h.toList
  obtain ⟨hex', hlist', hdir'⟩ := h'.toList
  have hhex : hex = hex' := by
    rw [heq, hdir'] at hdir
    exact (List.append_cancel_left hdir).symm
  exact String.toList_injective (by rw [hlist, hlist', hhex])

theorem digest_not_staging (h : DigestForm digest) :
    startsWith (dirName digest) stagingPrefix = false := by
  obtain ⟨hex, _, hdir⟩ := h.toList
  unfold startsWith
  rw [hdir]
  rfl

theorem staging_starts (name : String) : startsWith (stagingPrefix ++ name) stagingPrefix = true := by
  simp [startsWith]

theorem staging_ne (name : String) : stagingPrefix ++ name ≠ name := by
  intro h
  have hlen := congrArg String.length h
  rw [String.length_append] at hlen
  have hstaging : stagingPrefix.length = 9 := by decide
  omega

/-! ## 2. Calls that leave the versions alone -/

section

variable {may : FsOp Bytes → Prop} {t t' : FileTree Bytes}

/-- Away from `versions` nothing changed, and unless removals may fail each version is as it was or
    is gone. -/
structure Thinned (clean : Prop) (t t' : FileTree Bytes) : Prop where
  versions : clean → ∀ v, (∀ rest, t'.get ([versions, v] ++ rest) = t.get ([versions, v] ++ rest)) ∨
      t'.get [versions, v] = none
  others : ∀ q, ¬ [Policy.versions] <+: q → t'.get q = t.get q

variable {clean : Prop}

theorem Thinned.refl (t : FileTree Bytes) : Thinned clean t t :=
  ⟨fun _ _ => .inl fun _ => rfl, fun _ _ => rfl⟩

theorem Thinned.trans {t1 t2 t3 : FileTree Bytes} (h : Thinned clean t1 t2)
    (h' : Thinned clean t2 t3) : Thinned clean t1 t3 := by
  refine ⟨?_, fun q hq => (h'.others q hq).trans (h.others q hq)⟩
  intro hclean v
  rcases h'.versions hclean v with hsame' | hgone'
  · rcases h.versions hclean v with hsame | hgone
    · exact .inl fun rest => (hsame' rest).trans (hsame rest)
    · exact .inr ((hsame' []).trans hgone)
  · exact .inr hgone'

/-- Removing a version thins. -/
theorem removeDirAll_thinned {name : String} {ans : Except IoError Unit} (h : Layout t)
    (hmay : clean → ∀ p, ¬ may (.removeDirAll p))
    (hw : Faulty may (.removeDirAll [versions, name]) t ans t') : Thinned clean t t' := by
  refine ⟨?_, ?_⟩
  · intro hclean v
    rcases hw.removeDirAll_cases (hmay hclean _) (h.linkless [name]) with rfl | rfl
    · exact .inl fun _ => rfl
    by_cases hv : name = v
    · right
      simp [hv]
    · left
      intro rest
      simp [hv]
  · intro q hq
    rcases hw.removeDirAll_get (h.linkless [name]) q with hsame | ⟨hpre, _⟩
    · exact hsame
    · exact absurd (List.IsPrefix.trans (by simp) hpre) hq

/-- Where `current` and the link that becomes it are. -/
def AtCurrent (q : Path) : Prop := [currentTmp] <+: q ∨ [current] <+: q

theorem not_atCurrent (rest : Path) : ¬ AtCurrent (versions :: rest) := by
  have htmp : currentTmp ≠ versions := by decide
  have hcur : current ≠ versions := by decide
  intro h
  rcases h with h | h
  · exact htmp (List.cons_prefix_cons.mp h).1
  · exact hcur (List.cons_prefix_cons.mp h).1

theorem atCurrent_call {op : FsOp Bytes} {ans : op.Ans} (h : Layout t)
    (hw : Faulty may op t ans t') (hop : ∀ p, op ≠ .removeDirAll p)
    (htouch : ∀ q, t.Touches op q → AtCurrent q) : Only AtCurrent t t' ∧ Layout t' := by
  refine ⟨hw.only htouch, h.of_frame (hw.wellFormed h.wellFormed fun p hp => absurd hp (hop p)) ?_⟩
  intro rest
  exact hw.frame fun ht => not_atCurrent rest (htouch _ ht)

variable {q : Path}

theorem touches_removeFile (h : t.Touches (.removeFile [currentTmp]) q) : AtCurrent q := by
  rw [t.resolve_single h]
  exact .inl (List.prefix_refl _)

theorem touches_symlink {dest : Path} (h : t.Touches (.symlink dest [currentTmp]) q) :
    AtCurrent q := by
  rw [t.resolve_single h]
  exact .inl (List.prefix_refl _)

theorem touches_rename (h : t.Touches (.rename [currentTmp] [current]) q) : AtCurrent q := by
  obtain ⟨a, ha, hpre⟩ := h
  rcases ha with ha | ha
  · exact .inl (t.resolve_single ha ▸ hpre)
  · exact .inr (t.resolve_single ha ▸ hpre)

end

/-! ## 3. The other operations of the store -/

section

variable {may : FsOp Bytes → Prop} {t : FileTree Bytes} {store : Store} {clean : Prop}

theorem setCurrent_watch {digest : String} (h : Layout t) :
    Watch (Faulty may) (Only AtCurrent) (fun _ t' => Layout t') (store.setCurrent digest).run t := by
  unfold Store.setCurrent
  refine .lift_bind (P := fun _ t' => t' = t) (watch_call fun ans t' hw => ?_) ?_
  · rw [hw.isDir_same]
    exact ⟨Only.refl _ t, rfl⟩
  intro there t1 ht
  subst ht
  cases there with
  | false => exact .of_pure h
  | true =>
    refine .run_bind (watch_ignoring (P := Layout) (watch_call fun ans t' hw =>
      atCurrent_call h hw nofun fun q => touches_removeFile)) ?_ fun e t' he => he.1
    intro _ t2 h2
    refine .run_bind (watch_orIo (P := fun _ => Layout) (Q := fun _ => Layout)
      (watch_call fun ans t' hw => atCurrent_call h2.1 hw nofun fun q => touches_symlink)
      (fun _ _ hl => hl) (fun _ _ _ hl => hl)) ?_ fun e t' he => he
    intro _ t3 h3
    exact watch_orIo (P := fun _ => Layout)
      (watch_call fun ans t' hw => atCurrent_call h3 hw nofun fun q => touches_rename)
      (fun _ _ hl => hl) (fun _ _ _ hl => hl)

/-- What the calls of a thinning operation do, and what is left of it. -/
def ThinEnds (clean : Prop) (t t' : FileTree Bytes) : Prop := Layout t' ∧ Thinned clean t t'

theorem removeDirAll_watch {name : String} (h : Layout t)
    (hmay : clean → ∀ p, ¬ may (.removeDirAll p)) :
    Watch (Faulty may) (fun _ _ => True) (fun _ t' => ThinEnds clean t t')
      (Fs.removeDirAll [versions, name]).run t :=
  watch_call fun _ _ hw => ⟨trivial, (removeDirAll_layout h hw).1, removeDirAll_thinned h hmay hw⟩

theorem pruneEach_watch {kept names : List String} {removed : Nat} (h : Layout t)
    (hmay : clean → ∀ p, ¬ may (.removeDirAll p)) :
    Watch (Faulty may) (fun _ _ => True) (fun _ t' => ThinEnds clean t t')
      (Store.pruneEach kept names removed) t := by
  induction names generalizing t removed with
  | nil => exact .of_pure ⟨h, Thinned.refl t⟩
  | cons name rest ih =>
    have hlater : ∀ {t1 : FileTree Bytes} {n : Nat}, ThinEnds clean t t1 →
        Watch (Faulty may) (fun _ _ => True) (fun _ t' => ThinEnds clean t t')
          (Store.pruneEach kept rest n) t1 := by
      intro t1 n h1
      exact .mono (fun _ _ hend => ⟨hend.1, h1.2.trans hend.2⟩) (ih h1.1)
    unfold Store.pruneEach
    split
    · exact .bind (removeDirAll_watch h hmay) fun _ t1 h1 => hlater h1
    split
    · exact ih h
    refine .bind (removeDirAll_watch h hmay) ?_
    intro r t1 h1
    cases r with
    | ok _ => exact hlater h1
    | error _ => exact hlater h1

theorem prune_watch {keepDigests : List String} (h : Layout t)
    (hmay : clean → ∀ p, ¬ may (.removeDirAll p)) :
    Watch (Faulty may) (fun _ _ => True) (fun _ t' => ThinEnds clean t t')
      (store.prune keepDigests) t := by
  unfold Store.prune
  refine .bind (P := fun _ t' => t' = t)
    (watch_call fun ans t' hw => ⟨trivial, hw.readDir_same⟩) ?_
  intro r t1 ht
  subst ht
  cases r with
  | ok names => exact pruneEach_watch h hmay
  | error e => exact .of_pure ⟨h, Thinned.refl _⟩

theorem prepare_watch (h : Layout t) :
    Watch (Faulty may) (fun _ _ => True) (fun _ t' => ThinEnds clean t t') store.prepare.run t := by
  refine watch_orIo (P := fun _ t' => ThinEnds clean t t') (watch_call fun ans t' hw => ?_)
    (fun _ _ hp => hp) (fun _ _ _ hp => hp)
  refine ⟨trivial, createDirAll_layout h hw, ?_, ?_⟩
  · intro _ v
    refine .inl fun rest => ?_
    rcases hw.createDirAll_filledIn h.wellFormed (h.linkless _) ([versions, v] ++ rest)
      with hsame | ⟨_, hpre, _⟩
    · exact hsame
    · exact absurd hpre.length_le (by simp [versionsDir])
  intro q hq
  rcases hw.createDirAll_filledIn h.wellFormed (h.linkless _) q with hsame | ⟨hnone, hpre, _⟩
  · exact hsame
  -- above `versions` there is only the root, and that was there
  rcases List.prefix_cons_iff.mp hpre with rfl | ⟨q', rfl, hq'⟩
  · exact absurd hnone h.wellFormed.root.ne_none
  · rw [List.prefix_nil.mp hq'] at hq
    exact absurd (List.prefix_refl _) hq

end

/-! ## 4. Versions that can be trusted -/

/-- Every version holds the files of a list of entries that is trusted for its digest. -/
def Verified (trusted : String → List Entry → Prop) (t : FileTree Bytes) : Prop :=
  ∀ v, startsWith v stagingPrefix = false → t.get [versions, v] = none ∨
    ∃ digest entries, dirName digest = v ∧ DigestForm digest ∧ trusted digest entries ∧
      Unpacked t [versions, v] entries

/-- The layout, and unless removals may fail the trust in every version. -/
structure Sound (clean : Prop) (trusted : String → List Entry → Prop) (t : FileTree Bytes) :
    Prop where
  layout : Layout t
  verified : clean → Verified trusted t

/-- A bundle with the files of a list of entries that is trusted for its digest. -/
def Delivers (trusted : String → List Entry → Prop) (digest : String) (bundle : PolicyBundle) :
    Prop :=
  ∃ entries, trusted digest entries ∧ DocumentsOf entries bundle.documents

section

variable {clean : Prop} {trusted trusted' : String → List Entry → Prop} {t t' : FileTree Bytes}

theorem Verified.mono (h : Verified trusted t)
    (hsub : ∀ digest entries, trusted digest entries → trusted' digest entries) :
    Verified trusted' t := by
  intro v hv
  rcases h v hv with hnone | ⟨digest, entries, hdir, hform, htrusted, hun⟩
  · exact .inl hnone
  · exact .inr ⟨digest, entries, hdir, hform, hsub _ _ htrusted, hun⟩

theorem Sound.mono (h : Sound clean trusted t)
    (hsub : ∀ digest entries, trusted digest entries → trusted' digest entries) :
    Sound clean trusted' t := ⟨h.layout, fun hclean => (h.verified hclean).mono hsub⟩

/-- A version that looks as before is as good as before. -/
theorem Verified.of_view (h : Verified trusted t) {v : String}
    (hv : startsWith v stagingPrefix = false)
    (hview : ∀ rest, t'.view ([versions, v] ++ rest) = t.view ([versions, v] ++ rest)) :
    t'.get [versions, v] = none ∨ ∃ digest entries, dirName digest = v ∧ DigestForm digest ∧
      trusted digest entries ∧ Unpacked t' [versions, v] entries := by
  rcases h v hv with hnone | ⟨digest, entries, hdir, hform, htrusted, hun⟩
  · exact .inl (view_eq_none.mp ((hview []).trans (view_eq_none.mpr hnone)))
  · exact .inr ⟨digest, entries, hdir, hform, htrusted, hun.congr hview⟩

theorem Sound.thinned (h : Sound clean trusted t) (hends : ThinEnds clean t t') :
    Sound clean trusted t' := by
  obtain ⟨hlayout, hthin⟩ := hends
  refine ⟨hlayout, ?_⟩
  intro hclean v hv
  rcases hthin.versions hclean v with hsame | hgone
  · exact (h.verified hclean).of_view hv fun rest => view_of_get (hsame rest)
  · exact .inl hgone

theorem Sound.atCurrent (h : Sound clean trusted t) (hlayout : Layout t')
    (honly : Only AtCurrent t t') : Sound clean trusted t' := by
  refine ⟨hlayout, ?_⟩
  intro hclean v hv
  exact (h.verified hclean).of_view hv fun rest => honly _ (not_atCurrent (v :: rest))

theorem not_inStaging {v : String} (hv : startsWith v stagingPrefix = false) (name : String)
    (rest : Path) : ¬ InVersion (stagingPrefix ++ name) ([versions, v] ++ rest) := by
  refine not_inVersion ?_ rest
  intro heq
  rw [heq, staging_starts] at hv
  cases hv

/-- **Unpacking a trusted list of entries keeps trust**, also when it ends halfway. -/
theorem Sound.writeVersion {may : FsOp Bytes → Prop} {store : Store} {digest : String}
    {entries : List Entry} (h : Sound clean trusted t) (hmay : clean → ∀ p, ¬ may (.removeDirAll p))
    (hform : DigestForm digest) (htrusted : trusted digest entries) :
    Watch (Faulty may) (Only (InEither (stagingPrefix ++ dirName digest) (dirName digest)))
      (fun _ t' => Sound clean trusted t') (store.writeVersion digest entries).run t := by
  refine .mono ?_ (Watch.only (writeVersion_watch h.layout
    (fun hclean _ => hmay hclean _) (staging_ne _)))
  intro r t' hends
  obtain ⟨⟨hlayout, hok, herror⟩, honly⟩ := hends
  refine ⟨hlayout, ?_⟩
  intro hclean v hv
  have hold := h.verified hclean
  cases r with
  | error e =>
    exact hold.of_view hv fun rest => herror e rfl _ (not_inStaging hv _ rest)
  | ok u =>
    rcases hok u rfl with ⟨hsame, -⟩ | ⟨-, hun⟩
    · rw [hsame]
      exact hold v hv
    by_cases hvd : v = dirName digest
    · rw [hvd]
      exact .inr ⟨digest, entries, rfl, hform, htrusted, hun.exact hclean⟩
    refine hold.of_view hv fun rest => honly _ ?_
    intro hin
    rcases hin with hin | hin
    · exact not_inStaging hv _ rest hin
    · exact not_inVersion hvd rest hin

/-- What is read from a trusted version can be trusted. -/
theorem Sound.read {may : FsOp Bytes → Prop} {store : Store} {digest : String}
    (h : Sound clean trusted t) :
    Watch (Faulty may) Unchanged
      (fun r t' => t' = t ∧ ∀ bundle, r = .ok bundle → bundle.revision = digest ∧
        (DigestForm digest → clean → Delivers trusted digest bundle)) (store.read digest).run t := by
  refine .mono ?_ (read_watch h.layout)
  intro r t' hread
  refine ⟨hread.1, ?_⟩
  intro bundle hbundle
  obtain ⟨hrevision, hthere, hdocs⟩ := hread.2 bundle hbundle
  refine ⟨hrevision, ?_⟩
  intro hform hclean
  rcases h.verified hclean _ (digest_not_staging hform) with
    hnone | ⟨digest', entries, hdir, hform', htrusted, hun⟩
  · exact absurd hnone hthere
  · obtain rfl := hform'.dirName_inj hform hdir
    exact ⟨entries, htrusted, hdocs entries hun⟩

end

end Svidlet.Policy
