import Svidlet.Lib.FsTree

/-!
# Where no link is on the way

A path is resolved by following links. Most programs work in a part of the tree that has none, and
there a call on a path acts at that path or nowhere (`resolve_linkless`). The lemmas below are what
the calls do in such a part of a well-formed tree: how `create_dir_all` fills in directories, what a
recursive removal leaves, what a listing and a read return.
-/

namespace Svidlet.Lib

namespace FileTree

variable {C : Type}

/-! ## 1. Resolving -/

/-- There is no link at `p` or above it. -/
def Linkless (t : FileTree C) (p : Path) : Prop :=
  ∀ a, a <+: p → ∀ dest, t.get a ≠ some (.symlink dest)

variable {q : Path} {t : FileTree C} {p : Path}

theorem Linkless.of_le (h : t.Linkless p) (hq : q <+: p) :
    t.Linkless q := fun a ha => h a (ha.trans hq)

variable {follow : Bool}

theorem walk_linkless (t : FileTree C) {n : Nat} (base rest : Path) (h : t.Linkless (base ++ rest))
    (hw : t.walk follow n base rest = .ok q) :
    q = base ++ rest := by
  induction rest generalizing n base with
  | nil =>
    have hq : base = q := by cases n <;> simpa [walk] using hw
    rw [← hq, List.append_nil]
  | cons c rest ih =>
    have hpre : base ++ [c] <+: base ++ c :: rest := ⟨rest, by simp⟩
    have hnext : base ++ c :: rest = base ++ [c] ++ rest := by simp
    cases n with
    | zero => cases hw
    | succ n =>
      unfold walk at hw
      cases hget : t.get (base ++ [c]) with
      | none =>
        rw [hget] at hw
        by_cases hrest : rest = []
        · subst hrest
          simpa using hw.symm
        · simp [hrest] at hw
      | some node =>
        cases node with
        | symlink dest => exact absurd hget (h _ hpre dest)
        | dir mode =>
          rw [hget] at hw
          rw [hnext]
          exact ih _ (by rwa [← hnext]) hw
        | file ino content mode gid =>
          rw [hget] at hw
          by_cases hrest : rest = []
          · subst hrest
            simpa using hw.symm
          · simp [hrest] at hw

/-- With no link on the way, a call on a path acts at that path. -/
theorem resolve_linkless (h : t.Linkless p) (hr : t.resolve follow p = .ok q) : q = p := by
  unfold resolve at hr
  split at hr
  · exact t.walk_linkless [] p h hr
  split at hr
  · rename_i hp
    rw [hp]
    simpa using hr.symm
  · cases hr

/-! ## 2. Making directories -/

/-- All that changes is that missing directories on the way are there. -/
def FilledIn (t t' : FileTree C) (p : Path) : Prop :=
  ∀ q, t'.get q = t.get q ∨ t.get q = none ∧ q <+: p ∧ t'.IsDir q

variable {mode : Nat}

theorem Linkless.addDir (h : t.WellFormed) {a : Path} (hl : t.Linkless p) (ha : t.get a = none) :
    (t.addDir a mode).Linkless p := by
  intro b hb dest hlink
  rw [h.get_addDir_missing ha] at hlink
  split at hlink
  · cases hlink
  · exact hl b hb dest hlink

theorem makeDirs_linkless (h : t.WellFormed) (base rest : Path) (hl : t.Linkless (base ++ rest)) :
    FilledIn t (t.makeDirs base rest).2 (base ++ rest) := by
  induction rest generalizing t base with
  | nil => exact fun q => .inl rfl
  | cons c rest ih =>
    have hnext : base ++ c :: rest = base ++ [c] ++ rest := by simp
    have hpre : base ++ [c] <+: base ++ c :: rest := ⟨rest, by simp⟩
    unfold makeDirs
    cases hr : t.resolve true (base ++ [c]) with
    | error e => exact fun q => .inl rfl
    | ok a =>
      obtain rfl := resolve_linkless (hl.of_le hpre) hr
      rw [hnext] at hl ⊢
      cases ha : t.get (base ++ [c]) with
      | some node =>
        cases node with
        | dir mode =>
          simp only [ha]
          exact ih h _ hl
        | file ino content mode gid =>
          simp only [ha]
          exact fun q => .inl rfl
        | symlink dest =>
          simp only [ha]
          exact fun q => .inl rfl
      | none =>
        simp only [ha]
        have hwf : (t.addDir (base ++ [c]) newDirMode).WellFormed := h.addDir ha (h.resolve_slot hr)
        have hrest := ih hwf _ (hl.addDir h ha)
        intro q
        by_cases hq : base ++ [c] = q
        · -- the directory just made: the rest of the walk leaves it
          subst hq
          refine .inr ⟨ha, List.prefix_append _ _, ?_⟩
          rcases hrest (base ++ [c]) with hsame | ⟨hnone, _⟩
          · exact ⟨newDirMode, by rw [hsame]; simp⟩
          · simp at hnone
        · have hsame : (t.addDir (base ++ [c]) newDirMode).get q = t.get q := by
            rw [h.get_addDir_missing ha, if_neg hq]
          rw [← hsame]
          exact hrest q

theorem makeDirs_ok (h : t.WellFormed) (base rest : Path) {u : Unit}
    (hl : t.Linkless (base ++ rest)) (hbase : t.IsDir base)
    (hok : (t.makeDirs base rest).1 = .ok u) : ((t.makeDirs base rest).2).IsDir (base ++ rest) := by
  induction rest generalizing t base with
  | nil => simpa [makeDirs] using hbase
  | cons c rest ih =>
    have hnext : base ++ c :: rest = base ++ [c] ++ rest := by simp
    have hpre : base ++ [c] <+: base ++ c :: rest := ⟨rest, by simp⟩
    unfold makeDirs at hok ⊢
    cases hr : t.resolve true (base ++ [c]) with
    | error e =>
      rw [hr] at hok
      cases hok
    | ok a =>
      obtain rfl := resolve_linkless (hl.of_le hpre) hr
      rw [hnext] at hl ⊢
      cases ha : t.get (base ++ [c]) with
      | some node =>
        simp only [hr, ha] at hok
        cases node with
        | dir mode =>
          simp only [ha]
          exact ih h _ hl ⟨mode, ha⟩ hok
        | file ino content mode gid => cases hok
        | symlink dest => cases hok
      | none =>
        simp only [hr, ha] at hok
        simp only [ha]
        have hwf : (t.addDir (base ++ [c]) newDirMode).WellFormed := h.addDir ha (h.resolve_slot hr)
        exact ih hwf _ (hl.addDir h ha) ⟨newDirMode, by simp⟩ hok

theorem FilledIn.mono {t' : FileTree C} {p' : Path} (h : FilledIn t t' p) (hp : p <+: p') :
    FilledIn t t' p' := by
  intro q
  rcases h q with hsame | ⟨hnone, hq, hdir⟩
  · exact .inl hsame
  · exact .inr ⟨hnone, hq.trans hp, hdir⟩

/-! ## 3. Calls -/

variable [Inhabited C] {may : FsOp C → Prop} {t t' : FileTree C} {p : Path}

theorem exec_createDirAll (h : t.WellFormed) (p : Path) :
    t.exec (.createDirAll p) = t.makeDirs [] p := by
  obtain ⟨mode, hroot⟩ := h.root
  simp only [exec, hroot]

variable {ans : Except IoError Unit}

theorem Faulty.createDirAll_filledIn (hw : Faulty may (.createDirAll p) t ans t') (h : t.WellFormed)
    (hl : t.Linkless p) :
    FilledIn t t' p := by
  rcases hw with ⟨_, rfl⟩ | ⟨_, _, q, hq, rfl⟩
  · rw [exec_createDirAll h]
    exact makeDirs_linkless h [] p hl
  · rw [exec_createDirAll h]
    exact (makeDirs_linkless h [] q (hl.of_le hq)).mono hq

theorem Faulty.createDirAll_ok (hw : Faulty may (.createDirAll p) t (.ok ()) t')
    (h : t.WellFormed) (hl : t.Linkless p) : t'.IsDir p := by
  rcases hw with ⟨ha, rfl⟩ | ⟨_, ⟨e, he⟩, _⟩
  · have ha : (t.exec (.createDirAll p)).1 = .ok () := ha
    rw [exec_createDirAll h] at ha ⊢
    exact makeDirs_ok h [] p hl h.root ha
  · cases he

theorem Faulty.openTruncate_error {e : IoError}
    (hw : Faulty may (.openTruncate p mode) t (.error e) t') : t' = t := by
  rcases hw with ⟨ha, rfl⟩ | ⟨_, _, rfl⟩
  · have ha : (t.exec (.openTruncate p mode)).1 = .error e := ha
    simp only [exec, act] at ha ⊢
    split at ha
    · rfl
    split at ha
    · cases ha
    · rfl
    · cases ha
  · rfl

/-- A recursive removal that cannot fail removes everything or nothing. -/
theorem Faulty.removeDirAll_cases (hw : Faulty may (.removeDirAll p) t ans t')
    (hmay : ¬ may (.removeDirAll p)) (hl : t.Linkless p) :
    t' = t ∨ t' = t.drop fun r => decide (p <+: r) := by
  rcases hw with ⟨_, rfl⟩ | ⟨hm, _⟩
  · simp only [exec, act]
    split
    · exact .inl rfl
    rename_i q hr
    obtain rfl := resolve_linkless hl hr
    split
    · exact .inl rfl
    · exact .inr rfl
    · exact .inl rfl
  · exact absurd hm hmay

/-- A recursive removal, however it ends, changes nothing but that some of what is at the path or
    under it is gone. -/
theorem Faulty.removeDirAll_get (hw : Faulty may (.removeDirAll p) t ans t') (hl : t.Linkless p)
    (q : Path) :
    t'.get q = t.get q ∨ p <+: q ∧ t'.get q = none := by
  rcases hw with hexact | ⟨_, _, gone, rfl, hgone⟩
  · have hsure : Faulty (fun _ => False) (.removeDirAll p) t ans t' := .inl hexact
    rcases hsure.removeDirAll_cases (fun hm => hm) hl with rfl | rfl
    · exact .inl rfl
    rw [get_drop]
    by_cases hq : p <+: q
    · exact .inr ⟨hq, by simp [hq]⟩
    · exact .inl (by simp [hq])
  · rw [get_drop]
    by_cases hq : gone q = true
    · obtain ⟨a, ha, hpre⟩ := (hgone q hq).1
      rw [resolve_linkless hl ha] at hpre
      exact .inr ⟨hpre, by simp [hq]⟩
    · exact .inl (by simp [hq])

/-- A recursive removal takes away. -/
theorem Faulty.removeDirAll_drop (hw : Faulty may (.removeDirAll p) t ans t') :
    t' = t ∨ ∃ gone, t' = t.drop gone := by
  rcases hw with ⟨_, rfl⟩ | ⟨_, _, gone, rfl, _⟩
  · simp only [exec, act]
    split
    · exact .inl rfl
    rename_i q _
    split
    · exact .inl rfl
    · exact .inr ⟨fun r => decide (q <+: r), rfl⟩
    · exact .inl rfl
  · exact .inr ⟨gone, rfl⟩

/-- A recursive removal adds nothing. -/
theorem Faulty.removeDirAll_less (hw : Faulty may (.removeDirAll p) t ans t')
    (hq : t'.get q ≠ none) :
    t.get q ≠ none := by
  rcases hw.removeDirAll_drop with rfl | ⟨gone, rfl⟩
  · exact hq
  · intro hnone
    simp [hnone] at hq

/-- If it cannot fail, no directory is left. -/
theorem Faulty.removeDirAll_gone (hw : Faulty may (.removeDirAll p) t ans t')
    (hmay : ¬ may (.removeDirAll p)) (hl : t.Linkless p)
    (hreach : t.IsDir p → ∃ q, t.resolve false p = .ok q) : ¬ t'.IsDir p := by
  rcases hw with ⟨_, rfl⟩ | ⟨hm, _⟩
  · by_cases hd : t.IsDir p
    · obtain ⟨q, hr⟩ := hreach hd
      obtain rfl := resolve_linkless hl hr
      obtain ⟨mode, hq⟩ := hd
      simp only [exec, act, hr, hq]
      rintro ⟨m, hm⟩
      simp at hm
    have hexact : Faulty may (.removeDirAll p) t (t.exec (.removeDirAll p)).1
        (t.exec (.removeDirAll p)).2 := .inl ⟨rfl, rfl⟩
    rcases hexact.removeDirAll_cases hmay hl with he | he
    · rw [he]
      exact hd
    · rw [he]
      rintro ⟨m, hm⟩
      simp at hm
  · exact absurd hm hmay

theorem Faulty.readDir_ok {names : List String} (hw : Faulty may (.readDir p) t (.ok names) t')
    (hl : t.Linkless p) : t.IsDir p ∧ (t.names p).Perm names := by
  rcases hw with ⟨ha, _⟩ | ⟨_, ⟨e, he⟩, _⟩
  · simp only [exec, act] at ha
    split at ha
    · cases ha
    rename_i q hr
    obtain rfl := resolve_linkless hl hr
    split at ha
    · rename_i mode hget
      exact ⟨⟨mode, hget⟩, ha⟩
    · cases ha
    · cases ha
  · cases he

variable {content : C}

theorem Faulty.readFile_at (hw : Faulty may (.readFile p) t (.ok content) t') :
    ∃ q, t.resolve true p = .ok q ∧ t.HoldsFile q content := by
  rcases hw with ⟨ha, _⟩ | ⟨_, ⟨e, he⟩, _⟩
  · have ha : (t.exec (.readFile p)).1 = .ok content := ha
    obtain ⟨q, hr, hok, _⟩ := act_ok ha
    refine ⟨q, hr, ?_⟩
    cases hget : t.get q with
    | none =>
      rw [hget] at hok
      cases hok
    | some node =>
      rw [hget] at hok
      cases node with
      | dir mode => cases hok
      | symlink dest => cases hok
      | file ino c mode gid =>
        obtain rfl := Except.ok.inj hok
        exact ⟨ino, by simp [view, hget, plain]⟩
  · cases he

theorem Faulty.readFile_ok (hw : Faulty may (.readFile p) t (.ok content) t') (hl : t.Linkless p) :
    t.HoldsFile p content := by
  obtain ⟨q, hr, hfile⟩ := hw.readFile_at
  exact resolve_linkless hl hr ▸ hfile

theorem Faulty.readFile_same {ans : Except IoError C} (hw : Faulty may (.readFile p) t ans t') :
    t' = t := by
  rcases hw with ⟨_, rfl⟩ | ⟨_, _, rfl⟩
  · refine act_same fun q => ?_
    split <;> rfl
  · rfl

variable {ans : Bool}

theorem Faulty.isDir_same (hw : Faulty may (.isDir p) t ans t') : t' = t := by
  rcases hw with ⟨_, rfl⟩ | ⟨_, _, rfl⟩
  · rfl
  · rfl

theorem Faulty.pathExists_same (hw : Faulty may (.pathExists p) t ans t') :
    t' = t := by
  rcases hw with ⟨_, rfl⟩ | ⟨_, _, rfl⟩
  · rfl
  · rfl

theorem Faulty.isDir_true (hw : Faulty may (.isDir p) t true t') (hl : t.Linkless p) :
    t.IsDir p := by
  rcases hw with ⟨ha, _⟩ | ⟨_, he, _⟩
  · have ha : (t.exec (.isDir p)).1 = true := ha
    simp only [exec] at ha
    split at ha
    · rename_i q hr
      obtain rfl := resolve_linkless hl hr
      split at ha
      · rename_i mode hget
        exact ⟨mode, hget⟩
      · cases ha
    · cases ha
  · cases he

theorem Faulty.pathExists_true (hw : Faulty may (.pathExists p) t true t') (hl : t.Linkless p) :
    t.get p ≠ none := by
  rcases hw with ⟨ha, _⟩ | ⟨_, he, _⟩
  · have ha : (t.exec (.pathExists p)).1 = true := ha
    simp only [exec] at ha
    split at ha
    · rename_i q hr
      obtain rfl := resolve_linkless hl hr
      exact Option.isSome_iff_ne_none.mp ha
    · cases ha
  · cases he

end FileTree

end Svidlet.Lib
