import Svidlet.Lib.FsFrame

/-!
# Well-formed trees

A `FileTree` is a list of bindings, and a list can say things no disk says: a file inside a file, a
directory without a parent, one inode under two names. `WellFormed` rules these out, and
`Faulty.wellFormed` is the one proof that no call brings them in.

It pays twice. Under a path that is missing there is nothing, so a directory made there is empty,
and a rename goes between two places neither of which is inside the other. And since no inode has
two names (nothing here makes hard links), a write through an open file shows at one path only.
-/

namespace Svidlet.Lib

namespace FileTree

variable {C : Type}

/-- The inode of a node and where it is bound. -/
def FileAt (t : FileTree C) (p : Path) (ino : Nat) : Prop :=
  ∃ content mode gid, t.get p = some (.file ino content mode gid)

variable {t : FileTree C} {p : Path} {ino : Nat}

theorem FileAt.holds_fill (h : t.FileAt p ino) (content : C) :
    (t.mapNodes (fill ino content)).HoldsFile p content := by
  obtain ⟨c, m, g, hget⟩ := h
  exact ⟨ino, by simp [view, hget, fill, plain]⟩

structure WellFormed (t : FileTree C) : Prop where
  root : t.IsDir []
  parents : ∀ p x, t.get (p ++ [x]) ≠ none → t.IsDir p
  oneName : ∀ p q ino, t.FileAt p ino → t.FileAt q ino → p = q

/-- A tree of a root alone. -/
theorem WellFormed.of_empty (hroot : t.IsDir []) (hnone : ∀ p, p ≠ [] → t.get p = none) :
    t.WellFormed := by
  have hnil : ∀ p ino, t.FileAt p ino → p = [] := by
    intro p ino hfile
    obtain ⟨_, _, _, hfile⟩ := hfile
    by_contra hne
    rw [hnone p hne] at hfile
    cases hfile
  refine ⟨hroot, ?_, ?_⟩
  · intro p x hp
    exact absurd (hnone _ (by simp)) hp
  · intro p q ino hp hq
    rw [hnil p ino hp, hnil q ino hq]

variable {mode : Nat} {q : Path}

theorem get_fresh {next : Nat} (hq : q ≠ []) :
    (⟨[([], .dir mode)], next⟩ : FileTree C).get q = none := by
  simp [FileTree.get, find, Ne.symm hq]

theorem wellFormed_fresh (mode next : Nat) : (⟨[([], .dir mode)], next⟩ : FileTree C).WellFormed :=
  .of_empty ⟨mode, rfl⟩ fun _ => get_fresh

/-- A place where a node can be. -/
def Slot (t : FileTree C) (q : Path) : Prop := q = [] ∨ ∃ p x, q = p ++ [x] ∧ t.IsDir p

/-! ## 1. Above and below -/

theorem IsDir.ne_none (h : t.IsDir p) : t.get p ≠ none := by
  obtain ⟨mode, h⟩ := h
  simp [h]

theorem prefix_snoc {a : Path} {x : String} (h : a <+: p ++ [x]) : a <+: p ∨ a = p ++ [x] := by
  rcases List.prefix_concat_iff.mp h with h | h
  · exact .inr h
  · exact .inl h

namespace WellFormed

variable {t : FileTree C} {a : Path}

/-- Everything above a node is a directory. -/
theorem above (h : t.WellFormed) {p : Path} (hp : t.get p ≠ none) (ha : a <+: p) (hne : a ≠ p) :
    t.IsDir a := by
  induction p using List.reverseRecOn with
  | nil => exact absurd (List.prefix_nil.mp ha) hne
  | append_singleton p x ih =>
    have hdir : t.IsDir p := h.parents p x hp
    rcases prefix_snoc ha with ha | ha
    · by_cases hap : a = p
      · rw [hap]
        exact hdir
      · exact ih hdir.ne_none ha hap
    · exact absurd ha hne

variable {q : Path}

/-- Under a path that is no directory there is nothing. -/
theorem none_under (h : t.WellFormed) (ha : ¬ t.IsDir a) (hq : a <+: q) (hne : a ≠ q) :
    t.get q = none := by
  by_contra hsome
  exact ha (h.above hsome hq hne)

theorem none_of_none (h : t.WellFormed) (ha : t.get a = none) (hq : a <+: q) : t.get q = none := by
  by_cases hne : a = q
  · rw [← hne]
    exact ha
  · exact h.none_under (fun hd => hd.ne_none ha) hq hne

theorem slot_of_some (h : t.WellFormed) (hq : t.get q ≠ none) : t.Slot q := by
  rcases List.eq_nil_or_concat q with rfl | ⟨p, x, rfl⟩
  · exact .inl rfl
  · rw [List.concat_eq_append] at hq ⊢
    exact .inr ⟨p, x, rfl, h.parents p x hq⟩

theorem above_slot (h : t.WellFormed) (hs : t.Slot q) (ha : a <+: q) (hne : a ≠ q) : t.IsDir a := by
  rcases hs with rfl | ⟨p, x, rfl, hp⟩
  · exact absurd (List.prefix_nil.mp ha) hne
  rcases prefix_snoc ha with ha | ha
  · by_cases hap : a = p
    · rw [hap]
      exact hp
    · exact h.above hp.ne_none ha hap
  · exact absurd ha hne

end WellFormed

/-! ## 2. Resolving ends at a slot -/

variable {follow : Bool} {base rest : Path}

theorem walk_slot (h : t.WellFormed) {n : Nat} (hbase : t.IsDir base)
    (hw : t.walk follow n base rest = .ok q) : t.Slot q := by
  induction n generalizing base rest with
  | zero =>
    cases rest with
    | nil =>
      obtain rfl : base = q := by simpa [walk] using hw
      exact h.slot_of_some hbase.ne_none
    | cons c rest => cases hw
  | succ n ih =>
    cases rest with
    | nil =>
      obtain rfl : base = q := by simpa [walk] using hw
      exact h.slot_of_some hbase.ne_none
    | cons c rest =>
      have here : t.Slot (base ++ [c]) := .inr ⟨base, c, rfl, hbase⟩
      unfold walk at hw
      cases hget : t.get (base ++ [c]) with
      | none =>
        rw [hget] at hw
        by_cases hrest : rest = []
        · simp only [hrest, if_true, Except.ok.injEq] at hw
          exact hw ▸ here
        · simp [hrest] at hw
      | some node =>
        rw [hget] at hw
        cases node with
        | dir mode => exact ih ⟨mode, hget⟩ hw
        | file ino content mode gid =>
          by_cases hrest : rest = []
          · simp only [hrest, if_true, Except.ok.injEq] at hw
            exact hw ▸ here
          · simp [hrest] at hw
        | symlink dest =>
          simp only at hw
          split at hw
          · exact Except.ok.inj hw ▸ here
          · exact ih hbase hw

theorem WellFormed.resolve_slot (h : t.WellFormed) (hr : t.resolve follow p = .ok q) :
    t.Slot q := by
  unfold resolve at hr
  split at hr
  · exact walk_slot h h.root hr
  · split at hr
    · exact .inl (Except.ok.inj hr).symm
    · cases hr

/-! ## 3. The ways a tree is changed -/

variable {t' : FileTree C} {node : Node C}

/-- One node put at a slot: a directory, or something where no directory was. -/
theorem WellFormed.put (h : t.WellFormed)
    (hget : ∀ r, t'.get r = if q = r then some node else t.get r) (hslot : t.Slot q)
    (hkind : (∃ mode, node = .dir mode) ∨ ¬ t.IsDir q)
    (hino : ∀ ino content mode gid, node = .file ino content mode gid →
      ∀ r, t.FileAt r ino → r = q) : t'.WellFormed := by
  have hother : ∀ r, q ≠ r → t'.get r = t.get r := fun r hr => by rw [hget, if_neg hr]
  have hself : t'.get q = some node := by rw [hget, if_pos rfl]
  have hdir : ∀ r, t.IsDir r → t'.IsDir r := by
    rintro r ⟨mode, hr⟩
    by_cases hqr : q = r
    · subst hqr
      rcases hkind with ⟨m, rfl⟩ | hno
      · exact ⟨m, hself⟩
      · exact absurd ⟨mode, hr⟩ hno
    · exact ⟨mode, (hother r hqr).trans hr⟩
  refine ⟨hdir [] h.root, ?_, ?_⟩
  · intro p x hp
    refine hdir p ?_
    by_cases hq : q = p ++ [x]
    · rcases hslot with rfl | ⟨p', x', hq', hp'⟩
      · simp at hq
      · obtain ⟨rfl, _⟩ := List.append_inj' (hq.symm.trans hq') rfl
        exact hp'
    · rw [hother _ hq] at hp
      exact h.parents p x hp
  · -- a file of the new tree is the one put, or an old one at its old place
    have hold : ∀ r ino, t'.FileAt r ino → r ≠ q → t.FileAt r ino := by
      rintro r ino ⟨content, mode, gid, hr⟩ hne
      exact ⟨content, mode, gid, (hother r hne.symm).symm.trans hr⟩
    have hnew : ∀ r ino, t'.FileAt q ino → t.FileAt r ino → r = q := by
      rintro r ino ⟨content, mode, gid, hq⟩ hr
      exact hino ino content mode gid (Option.some.inj (hself.symm.trans hq)) r hr
    intro p r ino hp hr
    by_cases hpq : p = q
    · subst hpq
      by_cases hrq : r = p
      · exact hrq.symm
      · exact (hnew r ino hp (hold r ino hr hrq)).symm
    by_cases hrq : r = q
    · subst hrq
      exact hnew p ino hr (hold p ino hp hpq)
    · exact h.oneName p r ino (hold p ino hp hpq) (hold r ino hr hrq)

/-- Whole subtrees cut off. -/
theorem WellFormed.cut (h : t.WellFormed) (gone : Path → Prop) [DecidablePred gone]
    (hget : ∀ r, t'.get r = if gone r then none else t.get r) (hroot : ¬ gone [])
    (hdown : ∀ p x, gone p → t.get (p ++ [x]) ≠ none → gone (p ++ [x])) :
    t'.WellFormed := by
  have hkeep : ∀ r, t'.get r ≠ none → ¬ gone r ∧ t.get r ≠ none := by
    intro r hr
    rw [hget] at hr
    split at hr
    · exact absurd rfl hr
    · rename_i hgone
      exact ⟨hgone, hr⟩
  have hold : ∀ r, ¬ gone r → t'.get r = t.get r := fun r hr => by rw [hget, if_neg hr]
  have hfile : ∀ r ino, t'.FileAt r ino → t.FileAt r ino := by
    rintro r ino ⟨content, mode, gid, hr⟩
    have hgone := (hkeep r (by simp [hr])).1
    exact ⟨content, mode, gid, (hold r hgone).symm.trans hr⟩
  refine ⟨?_, ?_, fun p q ino hp hq => h.oneName p q ino (hfile p ino hp) (hfile q ino hq)⟩
  · obtain ⟨mode, hr⟩ := h.root
    exact ⟨mode, (hold [] hroot).trans hr⟩
  intro p x hp
  obtain ⟨hgone, hsome⟩ := hkeep _ hp
  obtain ⟨mode, hdir⟩ := h.parents p x hsome
  have hp' : ¬ gone p := fun hg => hgone (hdown p x hg hsome)
  exact ⟨mode, (hold p hp').trans hdir⟩

/-- A file's content changed, wherever it is bound. -/
theorem WellFormed.fill (h : t.WellFormed) (ino : Nat) (content : C) :
    (t.mapNodes (fill ino content)).WellFormed := by
  have hdir : ∀ r, t.IsDir r → (t.mapNodes (FileTree.fill ino content)).IsDir r := by
    rintro r ⟨mode, hr⟩
    exact ⟨mode, by simp [hr, FileTree.fill]⟩
  have hfile : ∀ r i, (t.mapNodes (FileTree.fill ino content)).FileAt r i → t.FileAt r i := by
    rintro r i ⟨c, m, g, hr⟩
    rw [get_mapNodes] at hr
    obtain ⟨node, hnode, heq⟩ := Option.map_eq_some_iff.mp hr
    cases node with
    | dir mode => cases heq
    | symlink dest => cases heq
    | file j c' m' g' =>
      simp only [FileTree.fill] at heq
      split at heq
      · cases heq
        exact ⟨c', _, _, hnode⟩
      · cases heq
        exact ⟨_, _, _, hnode⟩
  refine ⟨hdir [] h.root, ?_, fun p q i hp hq => h.oneName p q i (hfile p i hp) (hfile q i hq)⟩
  intro p x hp
  refine hdir p (h.parents p x ?_)
  intro hnone
  exact hp (by simp [hnone])

/-- Where a node of a moved tree came from. -/
theorem get_move_some {src dst : Path} (hsd : ¬ src <+: dst) (hds : ¬ dst <+: src)
    (h : (t.move src dst).get q = some node) :
    (∃ rest, q = dst ++ rest ∧ t.get (src ++ rest) = some node) ∨
      ¬ dst <+: q ∧ ¬ src <+: q ∧ t.get q = some node := by
  by_cases hd : dst <+: q
  · obtain ⟨rest, rfl⟩ := hd
    rw [t.get_move_dst hsd hds] at h
    exact .inl ⟨rest, rfl, h⟩
  by_cases hs : src <+: q
  · obtain ⟨rest, rfl⟩ := hs
    rw [t.get_move_src hsd hds] at h
    cases h
  · rw [t.get_move_other hs hd] at h
    exact .inr ⟨hd, hs, h⟩

/-- A subtree moved to a slot, neither end inside the other. -/
theorem WellFormed.move (h : t.WellFormed) {src dst : Path} (hslot : t.Slot dst)
    (hsd : ¬ src <+: dst) (hds : ¬ dst <+: src) : (t.move src dst).WellFormed := by
  have hother : ∀ p, ¬ src <+: p → ¬ dst <+: p → t.IsDir p → (t.move src dst).IsDir p := by
    rintro p hs hd ⟨mode, hp⟩
    exact ⟨mode, (t.get_move_other hs hd).trans hp⟩
  refine ⟨hother [] ?_ ?_ h.root, ?_, ?_⟩
  · intro hs
    exact hsd (hs.trans List.nil_prefix)
  · intro hd
    exact hds (hd.trans List.nil_prefix)
  · intro p x hp
    obtain ⟨node, hnode⟩ := Option.ne_none_iff_exists'.mp hp
    rcases get_move_some hsd hds hnode with ⟨rest, hq, hfrom⟩ | ⟨hd, hs, hfrom⟩
    · rcases List.eq_nil_or_concat rest with rfl | ⟨rest, y, rfl⟩
      · -- the moved root itself: its parent is the slot's
        rw [List.append_nil] at hq
        rcases hslot with rfl | ⟨p', x', rfl, hp'⟩
        · simp at hq
        obtain ⟨rfl, hx⟩ := List.append_inj' hq rfl
        obtain rfl := List.singleton_inj.mp hx
        refine hother p ?_ ?_ hp'
        · intro hs
          exact hsd (hs.trans (List.prefix_append p [x]))
        · intro hd
          exact absurd hd.length_le (by simp)
      · rw [List.concat_eq_append] at hq hfrom
        rw [← List.append_assoc] at hq hfrom
        obtain ⟨rfl, hx⟩ := List.append_inj' hq rfl
        obtain rfl := List.singleton_inj.mp hx
        have hsome : t.get (src ++ rest ++ [x]) ≠ none := by
          rw [hfrom]
          exact Option.some_ne_none node
        obtain ⟨mode, hdir⟩ := h.parents (src ++ rest) x hsome
        exact ⟨mode, (t.get_move_dst hsd hds rest).trans hdir⟩
    · refine hother p ?_ ?_ (h.parents p x (by simp [hfrom]))
      · intro hs'
        exact hs (hs'.trans (List.prefix_append p [x]))
      · intro hd'
        exact hd (hd'.trans (List.prefix_append p [x]))
  · rintro p q ino ⟨c, m, g, hp⟩ ⟨c', m', g', hq⟩
    rcases get_move_some hsd hds hp with ⟨rest, rfl, hp'⟩ | ⟨_, hsp, hp'⟩
    · rcases get_move_some hsd hds hq with ⟨rest', rfl, hq'⟩ | ⟨_, hsq, hq'⟩
      · have := h.oneName _ _ ino ⟨c, m, g, hp'⟩ ⟨c', m', g', hq'⟩
        rw [List.append_cancel_left this]
      · have := h.oneName _ _ ino ⟨c, m, g, hp'⟩ ⟨c', m', g', hq'⟩
        exact absurd (this ▸ List.prefix_append src rest) hsq
    · rcases get_move_some hsd hds hq with ⟨rest', rfl, hq'⟩ | ⟨_, _, hq'⟩
      · have := h.oneName _ _ ino ⟨c, m, g, hp'⟩ ⟨c', m', g', hq'⟩
        exact absurd (this ▸ List.prefix_append src rest') hsp
      · exact h.oneName _ _ ino ⟨c, m, g, hp'⟩ ⟨c', m', g', hq'⟩

/-- A directory made where nothing was, is empty. -/
theorem WellFormed.get_addDir_missing (h : t.WellFormed) (hp : t.get p = none) (q : Path) :
    (t.addDir p mode).get q = if p = q then some (.dir mode) else t.get q := by
  rw [get_addDir]
  split
  · rfl
  split
  · rename_i hpre
    exact (h.none_of_none hp hpre).symm
  · rfl

theorem WellFormed.addDir (h : t.WellFormed) (hp : t.get p = none) (hslot : t.Slot p) :
    (t.addDir p mode).WellFormed :=
  h.put (h.get_addDir_missing hp) hslot (.inl ⟨mode, rfl⟩) nofun

/-! ## 4. Every call keeps a tree well formed -/

theorem WellFormed.makeDirs (h : t.WellFormed) : ((t.makeDirs base rest).2).WellFormed := by
  induction rest generalizing t base with
  | nil => exact h
  | cons c rest ih =>
    unfold FileTree.makeDirs
    cases hr : t.resolve true (base ++ [c]) with
    | error e => exact h
    | ok q =>
      cases hq : t.get q with
      | none =>
        simp only [hq]
        exact ih (h.addDir hq (h.resolve_slot hr))
      | some node =>
        cases node with
        | dir mode =>
          simp only [hq]
          exact ih h
        | file ino content mode gid =>
          simp only [hq]
          exact h
        | symlink dest =>
          simp only [hq]
          exact h

/-- A rename that happens goes between two places neither of which is inside the other. -/
theorem WellFormed.renameAt_apart (h : t.WellFormed) (hslot : t.Slot q) (hne : p ≠ q)
    (hok : t.renameAt p q = (.ok (), t.move p q)) :
    ¬ p <+: q ∧ ¬ q <+: p := by
  unfold renameAt at hok
  rw [if_neg hne] at hok
  cases hp : t.get p with
  | none =>
    simp [hp] at hok
  | some node =>
    have hsome : t.get p ≠ none := by simp [hp]
    have hup : ¬ q <+: p := by
      intro hqp
      obtain ⟨mode, hq⟩ := h.above hsome hqp (Ne.symm hne)
      -- the directory on the way to `p` is not empty
      have hnames : t.names q ≠ [] := by
        obtain ⟨rest, rfl⟩ := hqp
        cases rest with
        | nil => simp at hne
        | cons x rest =>
          have hx : x ∈ t.names q := by
            rw [mem_names, Option.isSome_iff_ne_none]
            by_cases hrest : rest = []
            · rw [hrest] at hsome
              exact hsome
            · refine (h.above hsome ⟨rest, by simp⟩ ?_).ne_none
              simpa using Ne.symm hrest
          exact List.ne_nil_of_mem hx
      cases node with
      | dir m =>
        simp only [hp, hq, hnames, if_false] at hok
        split at hok <;> cases hok
      | file ino content m g => simp [hp, hq] at hok
      | symlink dest => simp [hp, hq] at hok
    refine ⟨?_, hup⟩
    intro hpq
    obtain ⟨mode, hdir⟩ := h.above_slot hslot hpq hne
    rw [hp] at hdir
    obtain rfl := Option.some.inj hdir
    cases hq : t.get q with
    | none => simp [hp, hq, hpq] at hok
    | some node => cases node <;> simp [hp, hq, hpq] at hok

theorem WellFormed.renameAt (h : t.WellFormed) (hslot : t.Slot q) :
    ((t.renameAt p q).2).WellFormed := by
  rcases t.renameAt_cases p q with ⟨_, he⟩ | ⟨hne, he⟩ | ⟨e, he⟩
  · rw [he]
    exact h
  · obtain ⟨hpq, hqp⟩ := h.renameAt_apart hslot hne he
    rw [he]
    exact h.move hslot hpq hqp
  · rw [he]
    exact h

theorem WellFormed.act {α : Type} (h : t.WellFormed)
    {f : Path → Option (Node C) → Except IoError α × FileTree C}
    (hf : ∀ q, t.resolve follow p = .ok q → ((f q (t.get q)).2).WellFormed) :
    ((t.act follow p f).2).WellFormed := by
  unfold FileTree.act
  cases hr : t.resolve follow p with
  | error e => exact h
  | ok q => exact hf q hr

/-- A node replaced by one of the same kind and inode. -/
theorem WellFormed.replace (h : t.WellFormed) {old new : Node C} (hq : t.get q = some old)
    (hplain : ∀ mode, old = .dir mode → ∃ mode', new = .dir mode')
    (hfile : ∀ ino content mode gid, new = .file ino content mode gid →
      ∃ content' mode' gid', old = .file ino content' mode' gid') : (t.set q new).WellFormed := by
  refine h.put (fun r => t.get_set q r new) (h.slot_of_some (by simp [hq])) ?_ ?_
  · cases old with
    | dir mode => exact .inl (hplain mode rfl)
    | file ino content mode gid =>
      refine .inr ?_
      rintro ⟨m, hm⟩
      rw [hq] at hm
      cases hm
    | symlink dest =>
      refine .inr ?_
      rintro ⟨m, hm⟩
      rw [hq] at hm
      cases hm
  · intro ino content mode gid hnew r hr
    obtain ⟨c, m, g, rfl⟩ := hfile ino content mode gid hnew
    exact h.oneName r q ino hr ⟨c, m, g, hq⟩

theorem WellFormed.setMode (h : t.WellFormed) (hq : t.get q = some node) :
    (t.set q (setMode mode node)).WellFormed := by
  refine h.replace hq ?_ ?_
  · rintro m rfl
    exact ⟨mode, rfl⟩
  intro ino content m gid hnew
  cases node with
  | dir m => cases hnew
  | symlink dest => cases hnew
  | file i c m' g =>
    cases hnew
    exact ⟨_, _, _, rfl⟩

theorem WellFormed.setGroup (h : t.WellFormed) {gid : Nat} (hq : t.get q = some node) :
    (t.set q (setGroup gid node)).WellFormed := by
  refine h.replace hq ?_ ?_
  · rintro m rfl
    exact ⟨m, rfl⟩
  intro ino content m g hnew
  cases node with
  | dir m => cases hnew
  | symlink dest => cases hnew
  | file i c m' g' =>
    cases hnew
    exact ⟨_, _, _, rfl⟩

theorem not_isDir_of_none (h : t.get q = none) : ¬ t.IsDir q :=
  fun hd => hd.ne_none h

variable [Inhabited C]

/-- **Every call keeps a tree well formed**, short of removing its root. -/
theorem WellFormed.exec (h : t.WellFormed) (op : FsOp C)
    (hop : ∀ p, op = .removeDirAll p → t.resolve false p ≠ .ok []) :
    ((t.exec op).2).WellFormed := by
  cases op with
  | readDir p =>
    refine h.act fun q _ => ?_
    split <;> exact h
  | createDir p =>
    refine h.act fun q hr => ?_
    cases hq : t.get q with
    | some node => exact h
    | none => exact h.addDir hq (h.resolve_slot hr)
  | createDirAll p =>
    obtain ⟨mode, hroot⟩ := h.root
    simp only [FileTree.exec, hroot]
    exact h.makeDirs
  | setPermissions p mode =>
    refine h.act fun q _ => ?_
    cases hq : t.get q with
    | some node => exact h.setMode hq
    | none => exact h
  | openTruncate p mode =>
    refine h.act fun q hr => ?_
    cases hq : t.get q with
    | none =>
      -- the inode is a new one, so no path has it
      refine h.put (fun r => t.get_set q r (.file t.freshIno default mode none))
        (h.resolve_slot hr) (.inr (not_isDir_of_none hq)) ?_
      rintro ino content m g hnew r ⟨c, m', g', hfile⟩
      cases hnew
      exact absurd (t.ino_lt_freshIno hfile) (Nat.lt_irrefl _)
    | some node =>
      cases node with
      | dir m => exact h
      | symlink dest => exact h
      | file ino content m gid =>
        refine h.replace hq (by simp) ?_
        intro i c m' g hnew
        cases hnew
        exact ⟨_, _, _, rfl⟩
  | writeAll ino content => exact h.fill ino content
  | syncAll ino => exact h
  | chgrp p gid =>
    refine h.act fun q _ => ?_
    cases hq : t.get q with
    | some node => exact h.setGroup hq
    | none => exact h
  | fsyncDir p =>
    refine h.act fun q _ => ?_
    split <;> exact h
  | symlink dest p =>
    refine h.act fun q hr => ?_
    cases hq : t.get q with
    | some node => exact h
    | none =>
      exact h.put (fun r => t.get_set q r (.symlink dest)) (h.resolve_slot hr)
        (.inr (not_isDir_of_none hq)) (by simp)
  | rename p p' => exact h.act fun q _ => h.act fun q' hr => h.renameAt (h.resolve_slot hr)
  | removeFile p =>
    refine h.act fun q hr => ?_
    cases hq : t.get q with
    | none => exact h
    | some node =>
      have hcut : (∀ mode, node ≠ .dir mode) → (t.drop fun r => decide (r = q)).WellFormed := by
        intro hnode
        have hno : ¬ t.IsDir q := by
          rintro ⟨m, hm⟩
          exact hnode m (Option.some.inj (hq.symm.trans hm))
        refine h.cut (· = q) (fun r => by simp) ?_ ?_
        · rintro rfl
          exact hno h.root
        · rintro p x rfl hsome
          exact absurd (h.none_under hno (List.prefix_append p [x]) (by simp)) hsome
      cases node with
      | dir m => exact h
      | file ino content m gid => exact hcut (by simp)
      | symlink dest => exact hcut (by simp)
  | removeDirAll p =>
    refine h.act fun q hr => ?_
    have hcut : (t.drop fun r => decide (q <+: r)).WellFormed := by
      refine h.cut (q <+: ·) (fun r => by simp) ?_ ?_
      · intro hq
        rw [List.prefix_nil.mp hq] at hr
        exact hop p rfl hr
      · intro p x hq _
        exact hq.trans (List.prefix_append p [x])
    split
    · exact h
    · exact hcut
    · exact h
  | symlinkMetadata p =>
    refine h.act fun q _ => ?_
    split <;> exact h
  | readLink p =>
    refine h.act fun q _ => ?_
    split <;> exact h
  | readFile p =>
    refine h.act fun q _ => ?_
    split <;> exact h
  | pathExists p => exact h
  | isDir p => exact h

variable {may : FsOp C → Prop}

theorem Faulty.wellFormed {op : FsOp C} {ans : op.Ans} (hw : Faulty may op t ans t')
    (h : t.WellFormed) (hop : ∀ p, op = .removeDirAll p → t.resolve false p ≠ .ok []) :
    t'.WellFormed := by
  rcases hw with ⟨_, rfl⟩ | ⟨_, hf⟩
  · exact h.exec op hop
  cases op with
  | createDirAll p =>
    obtain ⟨_, q, _, rfl⟩ := hf
    exact h.exec _ nofun
  | writeAll ino content =>
    obtain ⟨_, part, rfl⟩ := hf
    exact h.fill ino part
  | removeDirAll p =>
    obtain ⟨_, gone, rfl, hgone⟩ := hf
    refine h.cut (gone · = true) (fun r => by simp) ?_ ?_
    · intro hroot
      obtain ⟨a, ha, hpre⟩ := (hgone [] hroot).1
      rw [List.prefix_nil.mp hpre] at ha
      exact hop p rfl ha
    · intro q x hq _
      exact (hgone q hq).2 x
  | _ =>
    rw [hf.2]
    exact h

/-! ## 5. Where links come from -/

variable {dest : Path}

omit [Inhabited C] in
theorem makeDirs_links (h : ((t.makeDirs base rest).2).get q = some (.symlink dest)) :
    t.get q = some (.symlink dest) := by
  induction rest generalizing t base with
  | nil => exact h
  | cons c rest ih =>
    unfold makeDirs at h
    cases hr : t.resolve true (base ++ [c]) with
    | error e =>
      rw [hr] at h
      exact h
    | ok a =>
      cases ha : t.get a with
      | none =>
        simp only [hr, ha] at h
        have hadd := ih h
        rw [get_addDir] at hadd
        split at hadd
        · cases hadd
        · split at hadd
          · cases hadd
          · exact hadd
      | some node =>
        cases node with
        | dir mode =>
          simp only [hr, ha] at h
          exact ih h
        | file ino content mode gid =>
          simp only [hr, ha] at h
          exact h
        | symlink dest' =>
          simp only [hr, ha] at h
          exact h

omit [Inhabited C] in
theorem fill_links {content : C}
    (h : (t.mapNodes (FileTree.fill ino content)).get q = some (.symlink dest)) :
    t.get q = some (.symlink dest) := by
  rw [get_mapNodes] at h
  obtain ⟨node, hnode, heq⟩ := Option.map_eq_some_iff.mp h
  cases node with
  | dir mode => cases heq
  | symlink dest' =>
    cases heq
    exact hnode
  | file i c m g =>
    simp only [FileTree.fill] at heq
    split at heq <;> cases heq

theorem exec_createDirAll_links (h : ((t.exec (.createDirAll p)).2).get q = some (.symlink dest)) :
    t.get q = some (.symlink dest) := by
  simp only [FileTree.exec] at h
  split at h
  · exact makeDirs_links h
  have hadd := makeDirs_links h
  rw [get_addDir] at hadd
  split at hadd
  · cases hadd
  · split at hadd
    · cases hadd
    · exact hadd

/-- Making directories makes no link. -/
theorem Faulty.createDirAll_links {ans : Except IoError Unit}
    (hw : Faulty may (.createDirAll p) t ans t') (h : t'.get q = some (.symlink dest)) :
    t.get q = some (.symlink dest) := by
  rcases hw with ⟨_, rfl⟩ | ⟨_, _, p', _, rfl⟩
  · exact exec_createDirAll_links h
  · exact exec_createDirAll_links h

/-- Nor does writing to a file. -/
theorem Faulty.writeAll_links {content : C} {ans : Except IoError Unit}
    (hw : Faulty may (.writeAll ino content) t ans t') (h : t'.get q = some (.symlink dest)) :
    t.get q = some (.symlink dest) := by
  rcases hw with ⟨_, rfl⟩ | ⟨_, _, part, rfl⟩
  · exact fill_links h
  · exact fill_links h

/-- A file that was opened is no link afterwards, and nothing else has changed. -/
theorem Faulty.openTruncate_links (hw : Faulty may (.openTruncate p mode) t (.ok ino) t')
    (h : t'.get q = some (.symlink dest)) : t.get q = some (.symlink dest) := by
  obtain ⟨a, hr, _, m, g, ha⟩ := hw.openTruncate_ok
  have hne : ¬ t.Touches (.openTruncate p mode) q := by
    intro hq
    obtain rfl : a = q := Except.ok.inj (hr.symm.trans hq)
    rw [ha] at h
    cases h
  rw [← hw.frame hne]
  exact h

end FileTree

end Svidlet.Lib
