import Svidlet.Lib.FsCalls

/-!
# What filesystem calls leave alone, and what they achieve

Every call names the places it may change (`Touches`), and `exec_frame` is the one proof that it
changes nothing else; what a program does to the rest of the tree is then read off its calls.

Readers see less than the tree holds: which paths are directories, where links point, what files
contain. `view` is that, and `Only F a b` says that a step changed the view at no path outside
`F`. A change of mode or owner is no change at all in this sense, and the guarantees of the
publishing programs are stated in it.

The last section inverts the calls that succeed. A call that answered `Ok` did what `exec` says,
in the faulty world too.
-/

namespace Svidlet.Lib

namespace FileTree

variable {C α : Type}

/-! ## 1. What readers see -/

/-- A node without its mode and its group. -/
def plain : Node C → Node C
  | .dir _ => .dir 0
  | .file ino content _ _ => .file ino content 0 none
  | .symlink dest => .symlink dest

/-- What a reader sees at a path. -/
def view (t : FileTree C) (p : Path) : Option (Node C) := (t.get p).map plain

/-- The step changed what readers see at no path outside `F`. -/
def Only (F : Path → Prop) (a b : FileTree C) : Prop := ∀ q, ¬ F q → b.view q = a.view q

/-- There is a file with this content at `p`. -/
def HoldsFile (t : FileTree C) (p : Path) (content : C) : Prop :=
  ∃ ino, t.view p = some (.file ino content 0 none)

variable {t : FileTree C} {p : Path}

theorem view_eq_dir : t.view p = some (.dir 0) ↔ t.IsDir p := by
  unfold view IsDir
  cases h : t.get p with
  | none => simp
  | some node => cases node <;> simp [plain]

variable {dest : Path}

theorem view_eq_symlink :
    t.view p = some (.symlink dest) ↔ t.get p = some (.symlink dest) := by
  unfold view
  cases h : t.get p with
  | none => simp
  | some node => cases node <;> simp [plain]

theorem view_eq_none : t.view p = none ↔ t.get p = none := by
  simp [view]

variable {t' : FileTree C}

theorem view_of_get (h : t'.get p = t.get p) : t'.view p = t.view p := by
  simp [view, h]

theorem Only.refl (F : Path → Prop) (t : FileTree C) : Only F t t := fun _ _ => rfl

variable {a b : FileTree C} {F : Path → Prop}

theorem Only.trans {c : FileTree C} (hab : Only F a b) (hbc : Only F b c) :
    Only F a c := fun q hq => (hbc q hq).trans (hab q hq)

variable {F' : Path → Prop}

theorem Only.mono (h : Only F a b) (hF : ∀ q, F q → F' q) :
    Only F' a b := fun q hq => h q fun hf => hq (hF q hf)

theorem Only.isDir (h : Only F a b) (hp : ¬ F p) (hd : a.IsDir p) :
    b.IsDir p := by
  rw [← view_eq_dir, h p hp]
  exact view_eq_dir.mpr hd

variable {content : C}

theorem Only.holdsFile (h : Only F a b) (hp : ¬ F p) (hf : a.HoldsFile p content) :
    b.HoldsFile p content := by
  obtain ⟨ino, hf⟩ := hf
  exact ⟨ino, (h p hp).trans hf⟩

/-! ## 2. What a call leaves alone -/

/-- The places a call may change. -/
def Touches (t : FileTree C) : FsOp C → Path → Prop
  | .createDir p, q => ∃ a, t.resolve false p = .ok a ∧ a <+: q
  | .createDirAll _, q => ∃ a, a <+: q ∧ t.get a = none
  | .setPermissions p _, q => t.resolve true p = .ok q
  | .openTruncate p _, q => t.resolve true p = .ok q
  | .writeAll ino _, q => ∃ content mode gid, t.get q = some (.file ino content mode gid)
  | .chgrp p _, q => t.resolve true p = .ok q
  | .symlink _ p, q => t.resolve false p = .ok q
  | .rename p p', q => ∃ a, (t.resolve false p = .ok a ∨ t.resolve false p' = .ok a) ∧ a <+: q
  | .removeFile p, q => t.resolve false p = .ok q
  | .removeDirAll p, q => ∃ a, t.resolve false p = .ok a ∧ a <+: q
  | _, _ => False

variable {follow : Bool} {q : Path} {f : Path → Option (Node C) → Except IoError α × FileTree C}

/-- Acting at one resolved place changes what that action changes. -/
theorem act_frame (t : FileTree C)
    (h : ∀ a, t.resolve follow p = .ok a → ((f a (t.get a)).2).get q = t.get q) :
    ((t.act follow p f).2).get q = t.get q := by
  unfold act
  cases hr : t.resolve follow p with
  | error e => rfl
  | ok a => exact h a hr

variable {mode : Nat}

theorem addDir_frame (t : FileTree C) (h : ¬ p <+: q) :
    (t.addDir p mode).get q = t.get q := by
  have hne : p ≠ q := by
    rintro rfl
    exact h (List.prefix_refl p)
  simp [hne, h]

theorem act_same (h : ∀ a, (f a (t.get a)).2 = t) :
    (t.act follow p f).2 = t := by
  unfold act
  cases hr : t.resolve follow p with
  | error e => rfl
  | ok a => exact h a

theorem act_view (h : ∀ a, t.resolve follow p = .ok a → ((f a (t.get a)).2).view q = t.view q) :
    ((t.act follow p f).2).view q = t.view q := by
  unfold act
  cases hr : t.resolve follow p with
  | error e => rfl
  | ok a => exact h a hr

/-- Replacing a node by one that looks the same. -/
theorem set_view {old new : Node C} (hp : t.get p = some old) (hnew : plain new = plain old) :
    (t.set p new).view q = t.view q := by
  by_cases hpq : p = q
  · subst hpq
    simp [view, hp, hnew]
  · simp [view, hpq]

/-- Making missing directories changes nothing at a path that is there with all its parents. -/
theorem makeDirs_frame (t : FileTree C) {base rest : Path} (h : ∀ a, a <+: q → t.get a ≠ none) :
    ((t.makeDirs base rest).2).get q = t.get q := by
  induction rest generalizing t base with
  | nil => rfl
  | cons c rest ih =>
    unfold makeDirs
    cases hr : t.resolve true (base ++ [c]) with
    | error e => rfl
    | ok a =>
      cases ha : t.get a with
      | some node =>
        cases node with
        | dir mode => simpa only [ha] using ih t h
        | file ino content mode gid => simp only [ha]
        | symlink dest => simp only [ha]
      | none =>
        have hkeep : ∀ b, b <+: q → (t.addDir a newDirMode).get b = t.get b := by
          intro b hb
          exact t.addDir_frame fun hab => h a (hab.trans hb) ha
        simp only [ha]
        rw [ih _ (fun b hb => by rw [hkeep b hb]; exact h b hb), hkeep q (List.prefix_refl q)]

/-- All a rename can do. -/
theorem renameAt_cases (t : FileTree C) (p p' : Path) : p = p' ∧ t.renameAt p p' = (.ok (), t) ∨
      p ≠ p' ∧ t.renameAt p p' = (.ok (), t.move p p') ∨
      ∃ e, t.renameAt p p' = (.error e, t) := by
  unfold renameAt
  split
  · rename_i hp
    exact .inl ⟨hp, rfl⟩
  rename_i hp
  refine .inr ?_
  split
  · exact .inr ⟨_, rfl⟩
  · split
    · exact .inr ⟨_, rfl⟩
    · exact .inl ⟨hp, rfl⟩
  · split
    · exact .inr ⟨_, rfl⟩
    · split
      · exact .inl ⟨hp, rfl⟩
      · exact .inr ⟨_, rfl⟩
  · exact .inr ⟨_, rfl⟩
  · exact .inr ⟨_, rfl⟩
  · exact .inl ⟨hp, rfl⟩

variable {p' : Path}

theorem renameAt_frame (t : FileTree C) (hp : ¬ p <+: q) (hp' : ¬ p' <+: q) :
    ((t.renameAt p p').2).get q = t.get q := by
  rcases t.renameAt_cases p p' with ⟨_, h⟩ | ⟨_, h⟩ | ⟨e, h⟩
  · rw [h]
  · rw [h]
    exact t.get_move_other hp hp'
  · rw [h]

variable {ino : Nat}

theorem fill_frame (t : FileTree C)
    (h : ¬ ∃ old mode gid, t.get q = some (.file ino old mode gid)) :
    (t.mapNodes (fill ino content)).get q = t.get q := by
  rw [get_mapNodes]
  cases hq : t.get q with
  | none => rfl
  | some node =>
    cases node with
    | dir mode => rfl
    | symlink dest => rfl
    | file i old mode gid =>
      have hi : i ≠ ino := by
        rintro rfl
        exact h ⟨old, mode, gid, hq⟩
      simp [fill, hi]

variable [Inhabited C] {op : FsOp C}

/-- A call changes only what it touches. -/
theorem exec_frame (t : FileTree C) (h : ¬ t.Touches op q) : ((t.exec op).2).get q = t.get q := by
  cases op with
  | readDir p =>
    refine t.act_frame fun a _ => ?_
    split <;> rfl
  | createDir p =>
    refine t.act_frame fun a ha => ?_
    split
    · rfl
    · exact t.addDir_frame fun hp => h ⟨a, ha, hp⟩
  | createDirAll p =>
    have hq : ∀ a, a <+: q → t.get a ≠ none := fun a ha hn => h ⟨a, ha, hn⟩
    cases hroot : t.get [] with
    | some node =>
      simp only [exec, hroot]
      exact t.makeDirs_frame hq
    | none => exact absurd hroot (hq [] List.nil_prefix)
  | setPermissions p mode =>
    refine t.act_frame fun a ha => ?_
    have hne : a ≠ q := fun he => h (he ▸ ha)
    split
    · simp [hne]
    · rfl
  | openTruncate p mode =>
    refine t.act_frame fun a ha => ?_
    have hne : a ≠ q := fun he => h (he ▸ ha)
    split
    · simp [hne]
    · rfl
    · show ((t.set a _).get q) = _
      simp [hne]
  | writeAll ino content => exact t.fill_frame h
  | syncAll ino => rfl
  | chgrp p gid =>
    refine t.act_frame fun a ha => ?_
    have hne : a ≠ q := fun he => h (he ▸ ha)
    split
    · simp [hne]
    · rfl
  | fsyncDir p =>
    refine t.act_frame fun a _ => ?_
    split <;> rfl
  | symlink dest p =>
    refine t.act_frame fun a ha => ?_
    have hne : a ≠ q := fun he => h (he ▸ ha)
    split
    · rfl
    · simp [hne]
  | rename p p' =>
    refine t.act_frame fun a ha => t.act_frame fun b hb => ?_
    refine t.renameAt_frame (fun hp => ?_) (fun hp => ?_)
    · exact h ⟨a, .inl ha, hp⟩
    · exact h ⟨b, .inr hb, hp⟩
  | removeFile p =>
    refine t.act_frame fun a ha => ?_
    have hne : q ≠ a := fun he => h (he ▸ ha)
    split
    · rfl
    · simp [hne]
    · rfl
  | removeDirAll p =>
    refine t.act_frame fun a ha => ?_
    have hne : ¬ a <+: q := fun hp => h ⟨a, ha, hp⟩
    split
    · rfl
    · simp [hne]
    · rfl
  | symlinkMetadata p =>
    refine t.act_frame fun a _ => ?_
    split <;> rfl
  | readLink p =>
    refine t.act_frame fun a _ => ?_
    split <;> rfl
  | readFile p =>
    refine t.act_frame fun a _ => ?_
    split <;> rfl
  | pathExists p => rfl
  | isDir p => rfl

variable {ans : op.Ans}

/-- Nor does a call that fails. -/
theorem Fails.frame (hf : t.Fails op ans t') (h : ¬ t.Touches op q) : t'.get q = t.get q := by
  cases op with
  | createDirAll p =>
    obtain ⟨_, p', _, rfl⟩ := hf
    have hp : ¬ t.Touches (.createDirAll p') q := h
    exact t.exec_frame hp
  | writeAll ino content =>
    obtain ⟨_, part, rfl⟩ := hf
    exact t.fill_frame h
  | removeDirAll p =>
    obtain ⟨_, gone, rfl, hgone⟩ := hf
    rw [get_drop, if_neg fun hq => h (hgone q hq).1]
  | _ => rw [hf.2]

variable {may : FsOp C → Prop}

theorem Faulty.frame (hw : Faulty may op t ans t') (h : ¬ t.Touches op q) : t'.get q = t.get q := by
  rcases hw with ⟨_, rfl⟩ | ⟨_, hf⟩
  · exact t.exec_frame h
  · exact hf.frame h

/-- A call changes the view only where it touches the tree. -/
theorem Faulty.only (hw : Faulty may op t ans t') (hF : ∀ q, t.Touches op q → F q) :
    Only F t t' :=
  fun q hq => view_of_get (hw.frame fun ht => hq (hF q ht))

variable {ans : Except IoError Unit}

/-- Neither a mode nor a group shows. -/
theorem Faulty.setPermissions_only (hw : Faulty may (.setPermissions p mode) t ans t') :
    Only F t t' := by
  rcases hw with ⟨_, rfl⟩ | ⟨_, _, rfl⟩
  · intro q _
    refine act_view fun a ha => ?_
    cases hget : t.get a with
    | none => rfl
    | some node => exact set_view hget (by cases node <;> rfl)
  · exact Only.refl F _

theorem Faulty.chgrp_only {gid : Nat} (hw : Faulty may (.chgrp p gid) t ans t') : Only F t t' := by
  rcases hw with ⟨_, rfl⟩ | ⟨_, _, rfl⟩
  · intro q _
    refine act_view fun a ha => ?_
    cases hget : t.get a with
    | none => rfl
    | some node => exact set_view hget (by cases node <;> rfl)
  · exact Only.refl F _

/-! ## 3. Calls that succeed -/

omit [Inhabited C] in
theorem act_ok {a : α} (h : (t.act follow p f).1 = .ok a) :
    ∃ q, t.resolve follow p = .ok q ∧ (f q (t.get q)).1 = .ok a ∧
      (t.act follow p f).2 = (f q (t.get q)).2 := by
  unfold act at h ⊢
  cases hr : t.resolve follow p with
  | error e =>
    rw [hr] at h
    cases h
  | ok q =>
    rw [hr] at h
    exact ⟨q, rfl, h, rfl⟩

variable {may : FsOp C → Prop} {t t' : FileTree C} {p : Path}

/-- A listing changes nothing. -/
theorem Faulty.readDir_same {ans : Except IoError (List String)}
    (hw : Faulty may (.readDir p) t ans t') : t' = t := by
  rcases hw with ⟨_, rfl⟩ | ⟨_, _, rfl⟩
  · refine act_same fun q => ?_
    split <;> rfl
  · rfl

variable {e : IoError}

/-- A directory that could not be made changed nothing. -/
theorem Faulty.createDir_error (hw : Faulty may (.createDir p) t (.error e) t') :
    t' = t := by
  rcases hw with ⟨ha, rfl⟩ | ⟨_, _, rfl⟩
  · have ha : (t.exec (.createDir p)).1 = .error e := ha
    simp only [exec, act] at ha ⊢
    split at ha
    · rfl
    · split at ha
      · rfl
      · cases ha
  · rfl

/-- A rename that fails changes nothing. -/
theorem Faulty.rename_error (hw : Faulty may (.rename p p') t (.error e) t') :
    t' = t := by
  rcases hw with ⟨ha, rfl⟩ | ⟨_, _, rfl⟩
  · have ha : (t.exec (.rename p p')).1 = .error e := ha
    simp only [exec, act] at ha ⊢
    split at ha
    · rfl
    rename_i a _
    split at ha
    · rfl
    rename_i b _
    rcases t.renameAt_cases a b with ⟨_, h⟩ | ⟨_, h⟩ | ⟨e, h⟩
    · rw [h]
    · rw [h] at ha
      cases ha
    · rw [h]
  · rfl

theorem Faulty.createDir_ok (hw : Faulty may (.createDir p) t (.ok ()) t') :
    ∃ q, t.resolve false p = .ok q ∧ t.get q = none ∧ t' = t.addDir q newDirMode := by
  rcases hw with ⟨ha, rfl⟩ | ⟨_, ⟨e, he⟩, _⟩
  · obtain ⟨q, hq, hok, heq⟩ := act_ok ha
    cases hget : t.get q with
    | some node =>
      rw [hget] at hok
      cases hok
    | none =>
      rw [hget] at heq
      exact ⟨q, hq, hget, heq⟩
  · cases he

theorem Faulty.openTruncate_ok (hw : Faulty may (.openTruncate p mode) t (.ok ino) t') :
    ∃ q, t.resolve true p = .ok q ∧
      ((∃ content mode' gid, t.get q = some (.file ino content mode' gid)) ∨
        t.get q = none ∧ ino = t.freshIno) ∧
      ∃ mode' gid, t'.get q = some (.file ino default mode' gid) := by
  rcases hw with ⟨ha, rfl⟩ | ⟨_, ⟨e, he⟩, _⟩
  · obtain ⟨q, hq, hok, heq⟩ := act_ok ha
    refine ⟨q, hq, ?_⟩
    have heq : ((t.exec (.openTruncate p mode)).2) = _ := heq
    rw [heq]
    cases hget : t.get q with
    | none =>
      rw [hget] at hok
      have hino : t.freshIno = ino := by simpa using hok
      refine ⟨.inr ⟨rfl, hino.symm⟩, mode, none, ?_⟩
      show (t.set q _).get q = _
      simp [hino]
    | some node =>
      rw [hget] at hok
      cases node with
      | dir m => cases hok
      | symlink dest => cases hok
      | file i content m gid =>
        have hino : i = ino := by simpa using hok
        subst hino
        exact ⟨.inl ⟨content, m, gid, rfl⟩, m, gid, by simp⟩
  · cases he

theorem Faulty.writeAll_ok (hw : Faulty may (.writeAll ino content) t (.ok ()) t') :
    t' = t.mapNodes (fill ino content) := by
  rcases hw with ⟨_, rfl⟩ | ⟨_, ⟨e, he⟩, _⟩
  · rfl
  · cases he

theorem Faulty.symlink_ok (hw : Faulty may (.symlink dest p) t (.ok ()) t') :
    ∃ q, t.resolve false p = .ok q ∧ t'.get q = some (.symlink dest) := by
  rcases hw with ⟨ha, rfl⟩ | ⟨_, ⟨e, he⟩, _⟩
  · obtain ⟨q, hq, hok, heq⟩ := act_ok ha
    cases hget : t.get q with
    | some node =>
      rw [hget] at hok
      cases hok
    | none =>
      rw [hget] at heq
      have heq : ((t.exec (.symlink dest p)).2) = t.set q (.symlink dest) := heq
      exact ⟨q, hq, by rw [heq]; simp⟩
  · cases he

/-- A rename that succeeds was a move, unless source and destination are one. -/
theorem Faulty.rename_ok (hw : Faulty may (.rename p p') t (.ok ()) t') :
    ∃ a b, t.resolve false p = .ok a ∧ t.resolve false p' = .ok b ∧
      (a = b ∧ t' = t ∨ a ≠ b ∧ t' = t.move a b) := by
  rcases hw with ⟨ha, rfl⟩ | ⟨_, ⟨e, he⟩, _⟩
  · obtain ⟨a, hra, hok, heq⟩ := act_ok ha
    obtain ⟨b, hrb, hok, heq'⟩ := act_ok hok
    refine ⟨a, b, hra, hrb, ?_⟩
    have heq : ((t.exec (.rename p p')).2) = (t.renameAt a b).2 := heq.trans heq'
    rw [heq]
    rcases t.renameAt_cases a b with ⟨hab, h⟩ | ⟨hab, h⟩ | ⟨e, h⟩
    · exact .inl ⟨hab, by rw [h]⟩
    · exact .inr ⟨hab, by rw [h]⟩
    · rw [h] at hok
      cases hok
  · cases he

/-- A rename replaces no directory that has something in it. -/
theorem Faulty.rename_empty {a b : Path} (hw : Faulty may (.rename p p') t (.ok ()) t')
    (ha : t.resolve false p = .ok a) (hb : t.resolve false p' = .ok b) (hne : a ≠ b)
    (hdir : t.IsDir b) : t.names b = [] := by
  rcases hw with ⟨hans, _⟩ | ⟨_, ⟨e, he⟩, _⟩
  · obtain ⟨mode, hget⟩ := hdir
    have hans : (t.exec (.rename p p')).1 = .ok () := hans
    simp only [exec, act, ha, hb, renameAt, if_neg hne, hget] at hans
    cases hsource : t.get a with
    | none =>
      rw [hsource] at hans
      cases hans
    | some node =>
      rw [hsource] at hans
      cases node with
      | dir m =>
        dsimp only at hans
        by_cases hinside : a <+: b
        · rw [if_pos hinside] at hans
          cases hans
        rw [if_neg hinside] at hans
        by_contra hsome
        rw [if_neg hsome] at hans
        cases hans
      | file ino content m g => cases hans
      | symlink dest => cases hans
  · cases he

/-! ## 4. Programs watched over a tree -/

variable {F : Path → Prop}

theorem watch_call {G : FileTree C → FileTree C → Prop} {o : FsOp C} {Q : o.Ans → FileTree C → Prop}
    (h : ∀ ans t', Faulty may o t ans t' → G t t' ∧ Q ans t') :
    Watch (Faulty may) G Q (Fs.call o) t :=
  .of_op h

variable {Q : α → FileTree C → Prop} {p : Prog (FsSig C) α}

/-- What a watched program changed in all is what its calls changed. -/
theorem Watch.only (h : Watch (Faulty may) (Only F) Q p t) :
    Watch (Faulty may) (Only F) (fun a t' => Q a t' ∧ Only F t t') p t := by
  refine .strengthen ?_ h (Only.refl F t)
  intro a b hta hab
  exact ⟨hab, hta.trans hab⟩

theorem Watch.widen (hF : ∀ q, F q → F' q) (h : Watch (Faulty may) (Only F) Q p t) :
    Watch (Faulty may) (Only F') Q p t := by
  have hw : Watch (Faulty may) (Only F') (fun a t' => Q a t' ∧ True) p t :=
    Watch.strengthen (fun a b _ hab => ⟨hab.mono hF, trivial⟩) h trivial
  exact .mono (fun _ _ hq => hq.1) hw

end FileTree

end Svidlet.Lib
