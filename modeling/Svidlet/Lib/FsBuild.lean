import Svidlet.Lib.FsLinkless

/-!
# A directory with exactly these files

A program that publishes fills a directory of its own and then shows it. `Holds t base dirs files`
says what such a directory is in the end: under `base` stand the directories `dirs`, with all their
parents, and the files `files`, the newest content of each, **and nothing else**. `Built` adds that
the tree is well formed and `base` is there.

The calls that fill a directory each come with one lemma that says what they leave of `Built` when
others move in between. `Elsewhere` is what others do, `Inside` what we do:

> `Elsewhere mine`  what is ours is as it was
> `Inside base`     what is not under `base` is as it was

and both keep trees well formed. The lemmas also say when a call is sure to succeed, if nothing can
go wrong outside the tree.
-/

namespace Svidlet.Lib

namespace FileTree

variable {C : Type}

/-! ## 1. What a directory holds -/

/-- The content a path was given last; the newest is first. -/
def contentOf : List (Path × C) → Path → Option C
  | [], _ => none
  | (p, content) :: older, q => if p = q then some content else contentOf older q

/-- One of the directories, or above one. -/
def InDirs (dirs : List Path) (rest : Path) : Prop := ∃ d ∈ dirs, rest <+: d

instance (dirs : List Path) (rest : Path) : Decidable (InDirs dirs rest) :=
  inferInstanceAs (Decidable (∃ d ∈ dirs, rest <+: d))

theorem inDirs_cons {dirs : List Path} {d rest : Path} :
    InDirs (d :: dirs) rest ↔ rest <+: d ∨ InDirs dirs rest := by
  simp [InDirs]

/-- Under `base` stand these directories and these files, and nothing else. -/
structure Holds (t : FileTree C) (base : Path) (dirs : List Path) (files : List (Path × C)) :
    Prop where
  files : ∀ rest content, t.HoldsFile (base ++ rest) content ↔ contentOf files rest = some content
  folders : ∀ rest, t.IsDir (base ++ rest) ↔ InDirs dirs rest
  noLinks : ∀ rest dest, t.get (base ++ rest) ≠ some (.symlink dest)

/-- The same, in a tree with `base` in it. -/
structure Built (t : FileTree C) (base : Path) (dirs : List Path) (files : List (Path × C)) :
    Prop where
  wellFormed : t.WellFormed
  top : t.IsDir base
  holds : Holds t base dirs files

section

variable {t t' : FileTree C} {base : Path} {dirs : List Path} {files : List (Path × C)} {p : Path}

theorem holdsFile_iff_get {content : C} :
    t.HoldsFile p content ↔ ∃ ino mode gid, t.get p = some (.file ino content mode gid) := by
  unfold HoldsFile view
  cases h : t.get p with
  | none => simp
  | some node => cases node <;> simp [plain]

theorem Holds.congr (h : Holds t base dirs files)
    (hview : ∀ rest, t'.view (base ++ rest) = t.view (base ++ rest)) : Holds t' base dirs files := by
  refine ⟨?_, ?_, ?_⟩
  · intro rest content
    rw [← h.files]
    unfold HoldsFile
    rw [hview]
  · intro rest
    rw [← h.folders, ← view_eq_dir, ← view_eq_dir, hview]
  · intro rest dest hlink
    rw [← view_eq_symlink, hview, view_eq_symlink] at hlink
    exact h.noLinks rest dest hlink

variable {rest : Path}

theorem Holds.get_none (h : Holds t base dirs files) (hfile : contentOf files rest = none)
    (hdir : ¬ InDirs dirs rest) :
    t.get (base ++ rest) = none := by
  cases hget : t.get (base ++ rest) with
  | none => rfl
  | some node =>
    cases node with
    | dir mode => exact absurd ((h.folders rest).mp ⟨mode, hget⟩) hdir
    | symlink dest => exact absurd hget (h.noLinks rest dest)
    | file ino content mode gid =>
      have hold := (h.files rest content).mp (holdsFile_iff_get.mpr ⟨ino, mode, gid, hget⟩)
      rw [hfile] at hold
      cases hold

/-- There is no link on the way to anything under `base`. -/
theorem Built.linkless (h : Built t base dirs files) (rest : Path) : t.Linkless (base ++ rest) := by
  intro a ha dest hlink
  rcases List.prefix_or_prefix_of_prefix ha (List.prefix_append base rest) with hup | ⟨u, rfl⟩
  · have hdir : t.IsDir a := by
      by_cases hne : a = base
      · rw [hne]
        exact h.top
      · exact h.wellFormed.above h.top.ne_none hup hne
    obtain ⟨mode, hmode⟩ := hdir
    rw [hmode] at hlink
    cases hlink
  · exact h.holds.noLinks u dest hlink

theorem Built.congr (h : Built t base dirs files) (hwf : t'.WellFormed)
    (hview : ∀ rest, t'.view (base ++ rest) = t.view (base ++ rest)) : Built t' base dirs files where
  wellFormed := hwf
  top := by
    have htop := hview []
    rw [List.append_nil] at htop
    rw [← view_eq_dir, htop]
    exact view_eq_dir.mpr h.top
  holds := h.holds.congr hview

variable {follow : Bool}

/-- A place in a directory is reached, unless a link stands there. -/
theorem WellFormed.resolve_child (h : t.WellFormed) {x : String} (hdir : t.IsDir p)
    (hlen : p.length + 1 ≤ walkLimit) (hlink : ∀ dest, t.get (p ++ [x]) ≠ some (.symlink dest)) :
    t.resolve follow (p ++ [x]) = .ok (p ++ [x]) := by
  refine t.resolve_of_dirs h.root (by simpa using hlen) ?_ fun _ dest => hlink dest
  have hdirs : ∀ (tail front : Path), t.IsDir (front ++ tail) → t.Dirs front (tail ++ [x]) := by
    intro tail
    induction tail with
    | nil => exact fun _ _ => trivial
    | cons c tail ih =>
      intro front hd
      have hd' : t.IsDir (front ++ [c] ++ tail) := by simpa using hd
      have hc : t.IsDir (front ++ [c]) := by
        by_cases he : tail = []
        · simpa [he] using hd'
        · exact h.above hd'.ne_none (List.prefix_append _ _) (by simpa using he)
      cases tail with
      | nil => exact ⟨hc, trivial⟩
      | cons d tail => exact ⟨hc, ih _ hd'⟩
  exact hdirs p [] hdir

theorem Built.resolve (h : Built t base dirs files) (hparent : InDirs dirs rest.dropLast)
    (hne : rest ≠ []) (hlen : (base ++ rest).length ≤ walkLimit) :
    t.resolve follow (base ++ rest) = .ok (base ++ rest) := by
  have hsplit : base ++ rest = (base ++ rest.dropLast) ++ [rest.getLast hne] := by
    rw [List.append_assoc, List.dropLast_append_getLast]
  have hlink : ∀ dest, t.get (base ++ rest) ≠ some (.symlink dest) := h.holds.noLinks rest
  rw [hsplit] at hlen hlink ⊢
  rw [List.length_append, List.length_singleton] at hlen
  exact h.wellFormed.resolve_child ((h.holds.folders _).mpr hparent) hlen hlink

/-- Above what is there, there are directories. -/
theorem WellFormed.dirs_above (h : t.WellFormed) (front : Path)
    (hp : t.get (front ++ rest) ≠ none) : t.Dirs front rest := by
  induction rest generalizing front with
  | nil => trivial
  | cons c rest ih =>
    cases rest with
    | nil => trivial
    | cons d rest =>
      refine ⟨h.above hp ⟨d :: rest, by simp⟩ (by simp), ih (front ++ [c]) ?_⟩
      simpa using hp

/-- What is there is reached, unless it is a link. -/
theorem WellFormed.resolve_there (h : t.WellFormed) (hp : t.get p ≠ none)
    (hlen : p.length ≤ walkLimit) (hlink : ∀ dest, t.get p ≠ some (.symlink dest)) :
    t.resolve follow p = .ok p :=
  t.resolve_of_dirs h.root hlen (h.dirs_above [] hp) fun _ dest => hlink dest

/-- Making directories succeeds where nothing but directories is in the way. -/
theorem makeDirs_sure (h : t.WellFormed) (front rest : Path) (hdir : t.IsDir front)
    (hlen : (front ++ rest).length ≤ walkLimit)
    (hway : ∀ r, r <+: rest → r ≠ [] → t.get (front ++ r) = none ∨ t.IsDir (front ++ r)) :
    (t.makeDirs front rest).1 = .ok () := by
  induction rest generalizing t front with
  | nil => rfl
  | cons c rest ih =>
    have hfirst := hway [c] ⟨rest, rfl⟩ (by simp)
    have hr : t.resolve true (front ++ [c]) = .ok (front ++ [c]) := by
      refine h.resolve_child hdir ?_ ?_
      · simp only [List.length_append, List.length_cons] at hlen
        omega
      intro dest hlink
      rcases hfirst with hnone | ⟨mode, hmode⟩
      · rw [hnone] at hlink
        cases hlink
      · rw [hmode] at hlink
        cases hlink
    have hlen' : (front ++ [c] ++ rest).length ≤ walkLimit := by simpa using hlen
    unfold makeDirs
    rcases hfirst with hnone | ⟨mode, hmode⟩
    · simp only [hr, hnone]
      refine ih (h.addDir hnone (h.resolve_slot hr)) _ ⟨newDirMode, by simp⟩ hlen' ?_
      intro r _ hne
      refine .inl ?_
      rw [h.get_addDir_missing hnone, if_neg (by simpa using hne)]
      exact h.none_of_none hnone (List.prefix_append _ r)
    · simp only [hr, hmode]
      refine ih h _ ⟨mode, hmode⟩ hlen' ?_
      intro r hpre _
      have hin := hway (c :: r) (List.cons_prefix_cons.mpr ⟨rfl, hpre⟩) (by simp)
      simpa using hin

end

/-! ## 2. What a call leaves of it -/

variable [Inhabited C] {may : FsOp C → Prop} {t t' : FileTree C} {base rest : Path}
  {dirs : List Path} {files : List (Path × C)}

/-- A new directory is empty. -/
theorem Faulty.createDir_built (hw : Faulty may (.createDir base) t (.ok ()) t')
    (h : t.WellFormed) (hl : t.Linkless base) : Built t' base [[]] [] := by
  have hwf := hw.wellFormed h nofun
  obtain ⟨q, hr, hnone, rfl⟩ := hw.createDir_ok
  obtain rfl := resolve_linkless hl hr
  have hget : ∀ rest, (t.addDir q newDirMode).get (q ++ rest)
      = if rest = [] then some (.dir newDirMode) else none := by
    intro rest
    rw [h.get_addDir_missing hnone]
    by_cases hrest : rest = []
    · simp [hrest]
    · rw [if_neg (by simpa using hrest), if_neg hrest]
      exact h.none_of_none hnone (List.prefix_append q rest)
  refine ⟨hwf, ⟨newDirMode, by simp⟩, ?_, ?_, ?_⟩
  · intro rest content
    rw [holdsFile_iff_get, hget]
    by_cases hrest : rest = [] <;> simp [hrest, contentOf]
  · intro rest
    show (∃ mode, (t.addDir q newDirMode).get (q ++ rest) = some (.dir mode)) ↔ _
    rw [hget]
    by_cases hrest : rest = [] <;> simp [hrest, InDirs]
  · intro rest dest
    rw [hget]
    by_cases hrest : rest = [] <;> simp [hrest]

omit [Inhabited C] in
/-- Directories that were missing on the way to `rest` are there now, and nothing else has changed
    under `base`. -/
theorem Built.filled (h : Built t base dirs files) (hwf : t'.WellFormed)
    (hdir : t'.IsDir (base ++ rest))
    (hget : ∀ r, t'.get (base ++ r) = t.get (base ++ r) ∨
      t.get (base ++ r) = none ∧ r <+: rest ∧ t'.IsDir (base ++ r)) :
    Built t' base (rest :: dirs) files := by
  have hkeep : ∀ r node, t.get (base ++ r) = some node → t'.get (base ++ r) = some node := by
    intro r node hold
    rcases hget r with hsame | ⟨hnone, _⟩
    · rw [hsame, hold]
    · rw [hnone] at hold
      cases hold
  obtain ⟨mode, htop⟩ := h.top
  have htop' : t'.get base = some (.dir mode) := by
    simpa using hkeep [] (.dir mode) (by simpa using htop)
  refine ⟨hwf, ⟨mode, htop'⟩, ?_, ?_, ?_⟩
  · intro r content
    rw [← h.holds.files r content]
    constructor
    · intro hfile
      obtain ⟨ino, m, g, hfile⟩ := holdsFile_iff_get.mp hfile
      rcases hget r with hsame | ⟨_, _, ⟨m', hdir'⟩⟩
      · exact holdsFile_iff_get.mpr ⟨ino, m, g, hsame ▸ hfile⟩
      · rw [hdir'] at hfile
        cases hfile
    · intro hfile
      obtain ⟨ino, m, g, hfile⟩ := holdsFile_iff_get.mp hfile
      exact holdsFile_iff_get.mpr ⟨ino, m, g, hkeep r _ hfile⟩
  · intro r
    rw [inDirs_cons, ← h.holds.folders r]
    constructor
    · intro hr
      obtain ⟨m, hr⟩ := hr
      rcases hget r with hsame | ⟨_, hpre, _⟩
      · exact .inr ⟨m, hsame ▸ hr⟩
      · exact .inl hpre
    · intro hr
      rcases hr with hpre | ⟨m, hold⟩
      · by_cases hne : base ++ r = base ++ rest
        · rw [hne]
          exact hdir
        · exact hwf.above hdir.ne_none ((List.prefix_append_right_inj base).mpr hpre) hne
      · exact ⟨m, hkeep r _ hold⟩
  · intro r dest hlink
    rcases hget r with hsame | ⟨_, _, ⟨m, hdir'⟩⟩
    · exact h.holds.noLinks r dest (hsame ▸ hlink)
    · rw [hdir'] at hlink
      cases hlink

theorem Faulty.createDir_fills (hw : Faulty may (.createDir (base ++ rest)) t (.ok ()) t')
    (h : Built t base dirs files) : Built t' base (rest :: dirs) files := by
  have hwf := hw.wellFormed h.wellFormed nofun
  obtain ⟨q, hr, hnone, rfl⟩ := hw.createDir_ok
  obtain rfl := resolve_linkless (h.linkless rest) hr
  refine h.filled hwf ⟨newDirMode, by simp⟩ fun r => ?_
  rw [h.wellFormed.get_addDir_missing hnone]
  by_cases he : base ++ rest = base ++ r
  · obtain rfl := List.append_cancel_left he
    exact .inr ⟨hnone, List.prefix_refl _, ⟨newDirMode, by simp⟩⟩
  · exact .inl (by rw [if_neg he])

theorem Faulty.createDirAll_fills (hw : Faulty may (.createDirAll (base ++ rest)) t (.ok ()) t')
    (h : Built t base dirs files) : Built t' base (rest :: dirs) files := by
  refine h.filled (hw.wellFormed h.wellFormed nofun)
    (hw.createDirAll_ok h.wellFormed (h.linkless rest)) fun r => ?_
  rcases hw.createDirAll_filledIn h.wellFormed (h.linkless rest) (base ++ r) with
    hsame | ⟨hnone, hpre, hdir⟩
  · exact .inl hsame
  · exact .inr ⟨hnone, (List.prefix_append_right_inj base).mp hpre, hdir⟩

variable {ino : Nat} {mode : Nat} {content : C}

omit [Inhabited C] in
/-- A file was put at one path, where no directory was. -/
theorem Built.put (h : Built t base dirs files) (hwf : t'.WellFormed) {gid : Option Nat}
    (hput : t'.get (base ++ rest) = some (.file ino content mode gid))
    (hdir : ¬ t.IsDir (base ++ rest))
    (hother : ∀ r, r ≠ rest → t'.view (base ++ r) = t.view (base ++ r)) :
    Built t' base dirs ((rest, content) :: files) := by
  have hne : rest ≠ [] := by
    intro he
    rw [he, List.append_nil] at hdir
    exact hdir h.top
  refine ⟨hwf, ?_, ?_, ?_, ?_⟩
  · have htop := hother [] hne.symm
    rw [List.append_nil] at htop
    rw [← view_eq_dir, htop]
    exact view_eq_dir.mpr h.top
  · intro r content'
    unfold contentOf
    by_cases hr : rest = r
    · subst hr
      rw [if_pos rfl, holdsFile_iff_get, hput]
      simp
    · rw [if_neg hr, ← h.holds.files]
      unfold HoldsFile
      rw [hother r (Ne.symm hr)]
  · intro r
    rw [← h.holds.folders]
    by_cases hr : rest = r
    · subst hr
      refine iff_of_false ?_ hdir
      intro hd
      obtain ⟨m, hd⟩ := hd
      rw [hput] at hd
      cases hd
    · rw [← view_eq_dir, ← view_eq_dir, hother r (Ne.symm hr)]
  · intro r dest hlink
    by_cases hr : rest = r
    · subst hr
      rw [hput] at hlink
      cases hlink
    · rw [← view_eq_symlink, hother r (Ne.symm hr), view_eq_symlink] at hlink
      exact h.holds.noLinks r dest hlink

theorem Faulty.openTruncate_builds
    (hw : Faulty may (.openTruncate (base ++ rest) mode) t (.ok ino) t')
    (h : Built t base dirs files) :
    Built t' base dirs ((rest, default) :: files) ∧ t'.FileAt (base ++ rest) ino := by
  obtain ⟨q, hr, hwas, m, g, hfile⟩ := hw.openTruncate_ok
  obtain rfl := resolve_linkless (h.linkless rest) hr
  refine ⟨h.put (hw.wellFormed h.wellFormed nofun) hfile ?_ ?_, ⟨_, m, g, hfile⟩⟩
  · intro hdir
    obtain ⟨m', hdir⟩ := hdir
    rcases hwas with ⟨c, m'', g', hold⟩ | ⟨hnone, _⟩
    · rw [hdir] at hold
      cases hold
    · rw [hdir] at hnone
      cases hnone
  · intro r hne
    refine view_of_get (hw.frame fun htouch => hne ?_)
    have he : base ++ rest = base ++ r := Except.ok.inj (hr.symm.trans htouch)
    exact (List.append_cancel_left he).symm

theorem Faulty.writeAll_builds {old : C} (hw : Faulty may (.writeAll ino content) t (.ok ()) t')
    (h : Built t base dirs ((rest, old) :: files)) (hfile : t.FileAt (base ++ rest) ino) :
    Built t' base dirs ((rest, content) :: files) := by
  have hwf := hw.wellFormed h.wellFormed nofun
  have hother : ∀ q, q ≠ base ++ rest → t'.get q = t.get q := fun q hq =>
    hw.frame fun htouch => hq (h.wellFormed.oneName _ _ ino htouch hfile)
  obtain ⟨c, m, g, hget⟩ := hfile
  have hput : t'.get (base ++ rest) = some (.file ino content m g) := by
    rw [hw.writeAll_ok]
    simp [hget, fill]
  have hbuilt := h.put hwf hput (fun hd => by
    obtain ⟨m', hd⟩ := hd
    rw [hget] at hd
    cases hd) fun r hr => view_of_get (hother _ fun he => hr (List.append_cancel_left he))
  -- the older content of the path is hidden by the new one
  refine ⟨hwf, hbuilt.top, ?_, hbuilt.holds.folders, hbuilt.holds.noLinks⟩
  intro r content'
  rw [hbuilt.holds.files]
  by_cases hr : rest = r <;> simp [contentOf, hr]

/-! ## 3. Ours and theirs -/

/-- What others do: a tree stays well formed, and what is ours is as it was. -/
def Elsewhere (mine : Path → Prop) (a b : FileTree C) : Prop :=
  (a.WellFormed → b.WellFormed) ∧ ∀ q, mine q → b.get q = a.get q

/-- What we do: a tree stays well formed, and outside `F` all is as it was. -/
def Within (F : Path → Prop) (a b : FileTree C) : Prop :=
  (a.WellFormed → b.WellFormed) ∧ ∀ q, ¬ F q → b.get q = a.get q

omit [Inhabited C] in
theorem Elsewhere.refl (mine : Path → Prop) (t : FileTree C) : Elsewhere mine t t :=
  ⟨fun h => h, fun _ _ => rfl⟩

variable {mine : Path → Prop} {a b : FileTree C} {c : FileTree C}

omit [Inhabited C] in
theorem Elsewhere.trans (h : Elsewhere mine a b) (h' : Elsewhere mine b c) :
    Elsewhere mine a c :=
  ⟨fun ha => h'.1 (h.1 ha), fun q hq => (h'.2 q hq).trans (h.2 q hq)⟩

omit [Inhabited C] in
theorem Within.refl (F : Path → Prop) (t : FileTree C) : Within F t t :=
  ⟨fun h => h, fun _ _ => rfl⟩

variable {F : Path → Prop}

omit [Inhabited C] in
theorem Within.trans (h : Within F a b) (h' : Within F b c) : Within F a c :=
  ⟨fun ha => h'.1 (h.1 ha), fun q hq => (h'.2 q hq).trans (h.2 q hq)⟩

omit [Inhabited C] in
theorem Within.mono {F' : Path → Prop} (h : Within F a b) (hF : ∀ q, F q → F' q) : Within F' a b :=
  ⟨h.1, fun q hq => h.2 q fun hf => hq (hF q hf)⟩

omit [Inhabited C] in
/-- What is said of a well-formed tree, and of our paths in it only, others cannot falsify. -/
theorem stable_of_get {A : FileTree C → Prop} (hwf : ∀ a, A a → a.WellFormed)
    (hA : ∀ a b, b.WellFormed → (∀ q, mine q → b.get q = a.get q) → A a → A b) :
    Stable (Elsewhere mine) A :=
  fun a b hR ha => hA a b (hR.1 (hwf a ha)) hR.2 ha

omit [Inhabited C] in
/-- What we do is elsewhere for those to whom nothing of it belongs. -/
theorem Within.elsewhere (h : Within F a b) (hF : ∀ q, mine q → ¬ F q) : Elsewhere mine a b :=
  ⟨h.1, fun q hq => h.2 q (hF q hq)⟩

variable {op : FsOp C} {ans : op.Ans}

/-- A call that touches the tree in `F` only. -/
theorem Faulty.within (hw : Faulty may op t ans t') (hF : ∀ q, t.Touches op q → F q)
    (hop : ∀ p, op = .removeDirAll p → t.resolve false p ≠ .ok []) : Within F t t' :=
  ⟨fun h => hw.wellFormed h hop, fun _ hq => hw.frame fun ht => hq (hF _ ht)⟩

section

variable {mine : Path → Prop} {sure : Prop}

omit [Inhabited C] in
theorem built_stable (hmine : ∀ q, base <+: q → mine q) :
    Stable (Elsewhere mine) fun t => Built t base dirs files :=
  stable_of_get (fun _ h => h.wellFormed) fun _ _ hwf hget h =>
    h.congr hwf fun rest => view_of_get (hget _ (hmine _ (List.prefix_append base rest)))

/-- One call on a directory that is being filled. -/
theorem built_call {o : FsOp C} {Q : o.Ans → FileTree C → Prop} (hmine : ∀ q, base <+: q → mine q)
    (h : Built t base dirs files) (hQ : ∀ ans, Stable (Elsewhere mine) (Q ans))
    (hcall : ∀ t1 ans t2, Built t1 base dirs files → Faulty may o t1 ans t2 →
      Within (base <+: ·) t1 t2 ∧ Q ans t2) :
    Sat (Faulty may) (Elsewhere mine) (Within (base <+: ·)) Q (Fs.call o) t :=
  .of_op (built_stable hmine) hQ h hcall

variable (hmine : ∀ q, base <+: q → mine q) (hsure : sure → ∀ op, ¬ may op)

variable {op : FsOp C} {ans : op.Ans}

include hsure in
/-- In a world without faults a call answers what it computes. -/
theorem Faulty.exact (hw : Faulty may op t ans t') (hs : sure) :
    Exact op t ans t' := by
  rcases hw with hexact | ⟨hm, _⟩
  · exact hexact
  · exact absurd hm (hsure hs op)

include hsure in
theorem Faulty.answer (hw : Faulty may op t ans t') (hs : sure) (hop : ∀ p, op ≠ .readDir p) :
    ans = (t.exec op).1 := by
  have h := (hw.exact hsure hs).1
  cases op with
  | readDir p => exact absurd rfl (hop p)
  | _ => exact h.symm

/-- A place for a new directory. -/
structure Free (dirs : List Path) (files : List (Path × C)) (base rest : Path) : Prop where
  parent : InDirs dirs rest.dropLast
  ne_nil : rest ≠ []
  length : (base ++ rest).length ≤ walkLimit
  noFile : contentOf files rest = none
  noDir : ¬ InDirs dirs rest

variable (rest) in
include hmine hsure in
theorem createDir_sat (h : Built t base dirs files) (hfree : sure → Free dirs files base rest) :
    Sat (Faulty may) (Elsewhere mine) (Within (base <+: ·))
      (fun r t' => Ends sure r fun _ => Built t' base (rest :: dirs) files)
      (Fs.createDir (base ++ rest)).run t := by
  refine built_call hmine h (fun r => ends_stable (fun _ => built_stable hmine) r) ?_
  intro t1 ans t2 h1 hw
  refine ⟨hw.within ?_ nofun, ?_, ?_⟩
  · rintro q ⟨a, ha, hpre⟩
    rw [resolve_linkless (h1.linkless rest) ha] at hpre
    exact (List.prefix_append base rest).trans hpre
  · intro u hans
    subst hans
    exact Faulty.createDir_fills hw h1
  intro hs
  have hf := hfree hs
  rw [hw.answer hsure hs nofun]
  simp only [exec, act, h1.resolve hf.parent hf.ne_nil hf.length,
    h1.holds.get_none hf.noFile hf.noDir]
  exact ⟨(), trivial⟩

variable (rest) in
include hmine hsure in
theorem createDirAll_sat (h : Built t base dirs files)
    (hfree : sure → (base ++ rest).length ≤ walkLimit ∧ ∀ r, r <+: rest → contentOf files r = none) :
    Sat (Faulty may) (Elsewhere mine) (Within (base <+: ·))
      (fun r t' => Ends sure r fun _ => Built t' base (rest :: dirs) files)
      (Fs.createDirAll (base ++ rest)).run t := by
  refine built_call hmine h (fun r => ends_stable (fun _ => built_stable hmine) r) ?_
  intro t1 ans t2 h1 hw
  refine ⟨⟨fun hwf => hw.wellFormed hwf nofun, ?_⟩, ?_, ?_⟩
  · intro q hq
    rcases hw.createDirAll_filledIn h1.wellFormed (h1.linkless rest) q with
      hsame | ⟨hnone, hpre, _⟩
    · exact hsame
    -- above `base` nothing was missing
    rcases List.prefix_or_prefix_of_prefix hpre (List.prefix_append base rest) with hup | hin
    · by_cases he : q = base
      · exact absurd (he ▸ List.prefix_refl _) hq
      · exact absurd hnone (h1.wellFormed.above h1.top.ne_none hup he).ne_none
    · exact absurd hin hq
  · intro u hans
    subst hans
    exact Faulty.createDirAll_fills hw h1
  · intro hs
    obtain ⟨hlen, hno⟩ := hfree hs
    refine ⟨(), ?_⟩
    rw [hw.answer hsure hs nofun, exec_createDirAll h1.wellFormed]
    refine makeDirs_sure h1.wellFormed [] _ h1.wellFormed.root hlen ?_
    intro r hpre _
    rw [List.nil_append]
    rcases List.prefix_or_prefix_of_prefix hpre (List.prefix_append base rest) with hup | ⟨u, rfl⟩
    · by_cases he : r = base
      · exact .inr (he ▸ h1.top)
      · exact .inr (h1.wellFormed.above h1.top.ne_none hup he)
    · by_cases hd : InDirs dirs u
      · exact .inr ((h1.holds.folders u).mpr hd)
      · exact .inl (h1.holds.get_none (hno u ((List.prefix_append_right_inj base).mp hpre)) hd)

/-- What stands at a path that is a directory or a file of ours. -/
def Stands (dirs : List Path) (files : List (Path × C)) (rest : Path) : Prop :=
  InDirs dirs rest ∨ contentOf files rest ≠ none

omit [Inhabited C] in
theorem Built.there (h : Built t base dirs files) (hrest : Stands dirs files rest) :
    t.get (base ++ rest) ≠ none := by
  rcases hrest with hdir | hfile
  · exact ((h.holds.folders rest).mpr hdir).ne_none
  obtain ⟨content, hcontent⟩ := Option.ne_none_iff_exists'.mp hfile
  obtain ⟨ino, mode, gid, hget⟩ := holdsFile_iff_get.mp ((h.holds.files rest content).mpr hcontent)
  rw [hget]
  exact Option.some_ne_none _

omit [Inhabited C] in
theorem Built.resolve_stands (h : Built t base dirs files) (hrest : Stands dirs files rest)
    (hlen : (base ++ rest).length ≤ walkLimit) (follow : Bool) :
    ∃ node, t.get (base ++ rest) = some node ∧ t.resolve follow (base ++ rest) = .ok (base ++ rest) := by
  obtain ⟨node, hnode⟩ := Option.ne_none_iff_exists'.mp (h.there hrest)
  refine ⟨node, hnode, ?_⟩
  exact h.wellFormed.resolve_there (h.there hrest) hlen (h.holds.noLinks rest)

omit [Inhabited C] in
/-- A call that resolves its path touches our directory only. -/
theorem Built.resolved (h : Built t base dirs files) {follow : Bool} {q : Path}
    (hr : t.resolve follow (base ++ rest) = .ok q) : base <+: q := by
  rw [resolve_linkless (h.linkless rest) hr]
  exact List.prefix_append base rest

/-- A call that changes nothing that can be seen. -/
theorem Built.unseen (h : Built t base dirs files) (hw : Faulty may op t ans t')
    (htouch : ∀ q, t.Touches op q → base <+: q)
    (hop : ∀ p, op = .removeDirAll p → t.resolve false p ≠ .ok [])
    (hview : ∀ r, t'.view (base ++ r) = t.view (base ++ r)) :
    Within (base <+: ·) t t' ∧ Built t' base dirs files :=
  ⟨hw.within htouch hop, h.congr (hw.wellFormed h.wellFormed hop) hview⟩

variable {mode : Nat}

variable (rest) in
include hmine hsure in
theorem setPermissions_sat (h : Built t base dirs files)
    (hthere : sure → Stands dirs files rest ∧ (base ++ rest).length ≤ walkLimit) :
    Sat (Faulty may) (Elsewhere mine) (Within (base <+: ·))
      (fun r t' => Ends sure r fun _ => Built t' base dirs files)
      (Fs.setPermissions (base ++ rest) mode).run t := by
  refine built_call hmine h (fun r => ends_stable (fun _ => built_stable hmine) r) ?_
  intro t1 ans t2 h1 hw
  obtain ⟨hin, hbuilt⟩ := h1.unseen hw (fun q hq => h1.resolved hq) nofun fun r =>
    hw.setPermissions_only (F := fun _ => False) _ fun h => h
  refine ⟨hin, fun _ _ => hbuilt, fun hs => ⟨(), ?_⟩⟩
  obtain ⟨node, hnode, hr⟩ := h1.resolve_stands (hthere hs).1 (hthere hs).2 true
  rw [hw.answer hsure hs nofun]
  simp only [exec, act, hr, hnode]

variable (rest) in
include hmine hsure in
theorem chgrp_sat {gid : Nat} (h : Built t base dirs files)
    (hthere : sure → Stands dirs files rest ∧ (base ++ rest).length ≤ walkLimit) :
    Sat (Faulty may) (Elsewhere mine) (Within (base <+: ·))
      (fun r t' => Ends sure r fun _ => Built t' base dirs files)
      (Fs.chgrp (base ++ rest) gid).run t := by
  refine built_call hmine h (fun r => ends_stable (fun _ => built_stable hmine) r) ?_
  intro t1 ans t2 h1 hw
  obtain ⟨hin, hbuilt⟩ := h1.unseen hw (fun q hq => h1.resolved hq) nofun fun r =>
    hw.chgrp_only (F := fun _ => False) _ fun h => h
  refine ⟨hin, fun _ _ => hbuilt, fun hs => ⟨(), ?_⟩⟩
  obtain ⟨node, hnode, hr⟩ := h1.resolve_stands (hthere hs).1 (hthere hs).2 true
  rw [hw.answer hsure hs nofun]
  simp only [exec, act, hr, hnode]

variable (rest) in
include hmine hsure in
theorem fsyncDir_sat (h : Built t base dirs files)
    (hthere : sure → Stands dirs files rest ∧ (base ++ rest).length ≤ walkLimit) :
    Sat (Faulty may) (Elsewhere mine) (Within (base <+: ·))
      (fun r t' => Ends sure r fun _ => Built t' base dirs files)
      (Fs.fsyncDir (base ++ rest)).run t := by
  refine built_call hmine h (fun r => ends_stable (fun _ => built_stable hmine) r) ?_
  intro t1 ans t2 h1 hw
  obtain ⟨hin, hbuilt⟩ := h1.unseen hw (fun q hq => hq.elim) nofun fun r =>
    view_of_get (hw.frame fun hq => hq)
  refine ⟨hin, fun _ _ => hbuilt, fun hs => ⟨(), ?_⟩⟩
  obtain ⟨node, hnode, hr⟩ := h1.resolve_stands (hthere hs).1 (hthere hs).2 true
  rw [hw.answer hsure hs nofun]
  simp only [exec, act, hr, hnode]

/-- A place where a file can be written. -/
structure Writable (dirs : List Path) (base rest : Path) : Prop where
  parent : InDirs dirs rest.dropLast
  ne_nil : rest ≠ []
  length : (base ++ rest).length ≤ walkLimit
  noDir : ¬ InDirs dirs rest

variable {ino : Nat}

omit [Inhabited C] in
/-- A file of ours is open. -/
theorem open_stable (hmine : ∀ q, base <+: q → mine q) :
    Stable (Elsewhere mine) fun t => Built t base dirs files ∧ t.FileAt (base ++ rest) ino := by
  refine stable_of_get (fun _ h => h.1.wellFormed) fun a b hwf hget h => ?_
  refine ⟨h.1.congr hwf fun r => view_of_get (hget _ (hmine _ (List.prefix_append base r))), ?_⟩
  obtain ⟨c, m, g, hfile⟩ := h.2
  exact ⟨c, m, g, (hget _ (hmine _ (List.prefix_append base rest))).trans hfile⟩

variable (rest) in
include hmine hsure in
theorem openTruncate_sat (h : Built t base dirs files) (hplace : sure → Writable dirs base rest) :
    Sat (Faulty may) (Elsewhere mine) (Within (base <+: ·)) (fun r t' => Ends sure r fun ino =>
        Built t' base dirs ((rest, default) :: files) ∧ t'.FileAt (base ++ rest) ino)
      (Fs.openTruncate (base ++ rest) mode).run t := by
  refine built_call hmine h (fun r => ends_stable (fun _ => open_stable hmine) r) ?_
  intro t1 ans t2 h1 hw
  refine ⟨hw.within (fun q hq => h1.resolved hq) nofun, ?_, ?_⟩
  · intro ino hans
    subst hans
    exact Faulty.openTruncate_builds hw h1
  intro hs
  have hp := hplace hs
  rw [hw.answer hsure hs nofun]
  simp only [exec, act, h1.resolve hp.parent hp.ne_nil hp.length]
  cases hget : t1.get (base ++ rest) with
  | none => exact ⟨_, rfl⟩
  | some node =>
    cases node with
    | dir m => exact absurd ((h1.holds.folders rest).mp ⟨m, hget⟩) hp.noDir
    | symlink dest => exact absurd hget (h1.holds.noLinks rest dest)
    | file ino c m g => exact ⟨_, rfl⟩

include hmine hsure in
theorem writeAll_sat {content old : C}
    (h : Built t base dirs ((rest, old) :: files) ∧ t.FileAt (base ++ rest) ino) :
    Sat (Faulty may) (Elsewhere mine) (Within (base <+: ·))
      (fun r t' => Ends sure r fun _ => Built t' base dirs ((rest, content) :: files))
      (Fs.writeAll ino content).run t := by
  refine .of_op (open_stable hmine) (fun r => ends_stable (fun _ => built_stable hmine) r) h ?_
  intro t1 ans t2 h1 hw
  refine ⟨hw.within ?_ nofun, ?_, ?_⟩
  · intro q hq
    rw [h1.1.wellFormed.oneName _ _ ino hq h1.2]
    exact List.prefix_append base rest
  · intro u hans
    subst hans
    exact Faulty.writeAll_builds hw h1.1 h1.2
  · intro hs
    exact ⟨(), hw.answer hsure hs nofun⟩

include hmine hsure in
theorem syncAll_sat (h : Built t base dirs files) :
    Sat (Faulty may) (Elsewhere mine) (Within (base <+: ·))
      (fun r t' => Ends sure r fun _ => Built t' base dirs files) (Fs.syncAll ino).run t := by
  refine built_call hmine h (fun r => ends_stable (fun _ => built_stable hmine) r) ?_
  intro t1 ans t2 h1 hw
  obtain ⟨hin, hbuilt⟩ := h1.unseen hw (fun q hq => hq.elim) nofun fun r =>
    view_of_get (hw.frame fun hq => hq)
  exact ⟨hin, fun _ _ => hbuilt, fun hs => ⟨(), hw.answer hsure hs nofun⟩⟩

end

end FileTree

end Svidlet.Lib
