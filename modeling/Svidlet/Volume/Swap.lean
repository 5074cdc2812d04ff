import Svidlet.Lib.FsBuild
import Svidlet.Volume.Atomic
import Svidlet.Volume.Chains

/-!
# A chain shows one generation, whole

`Volume/Atomic` is about the identity chain, alone. Here is the same argument for `publishWith`, so for
any chain and any way to fill a generation, **and while others work in the same volume**. What a
chain owns are its link, its temporary link, its visible names and its generations:

> rely       what others do leaves what the chain owns as it was (`Elsewhere c.Mine`)
> guarantee  each call touches what the chain owns only, and what is behind the link is as it was
>            before the call or is the new generation, with exactly its files (`Chain.Step`)

A publish is sure to succeed if no call fails from outside, the number it has picked is free and
its content can be filled in. How a generation is filled is a parameter, with `Fills` as its
specification.
-/

namespace Svidlet.Volume

open Lib Lib.FileTree

/-! ## 1. What belongs to a chain -/

namespace Chain

def IsVersion (c : Chain) (name : String) : Prop := (versionOf name c.pre).isSome

instance (c : Chain) (name : String) : Decidable (c.IsVersion name) :=
  inferInstanceAs (Decidable ((versionOf name c.pre).isSome = true))

def Owns (c : Chain) (name : String) : Prop :=
  name ∈ c.link :: tmpName c.link :: c.visible ∨ c.IsVersion name

/-- The paths that are the chain's. -/
def Mine (c : Chain) (q : Path) : Prop := ∃ name rest, q = name :: rest ∧ c.Owns name

section

variable {c : Chain}

theorem mine_link : c.Mine [c.link] := ⟨_, _, rfl, .inl (by simp)⟩

theorem mine_tmp : c.Mine [tmpName c.link] := ⟨_, _, rfl, .inl (by simp)⟩

theorem mine_visible {x : String} (hx : x ∈ c.visible) : c.Mine [x] :=
  ⟨_, _, rfl, .inl (by simp [hx])⟩

variable {v : String}

theorem mine_version (hv : c.IsVersion v) (rest : Path) : c.Mine (v :: rest) := ⟨_, _, rfl, .inr hv⟩

theorem mine_under (hv : c.IsVersion v) : ∀ q, [v] <+: q → c.Mine q := by
  rintro q ⟨rest, rfl⟩
  exact mine_version hv rest

theorem ne_version {x : String} (hx : x ∈ c.link :: tmpName c.link :: c.visible)
    (hv : c.IsVersion v) : x ≠ v := by
  rintro rfl
  unfold IsVersion at hv
  rw [c.notVersions x hx] at hv
  cases hv

theorem isVersion_versionName {n : Nat} (h : n < 2 ^ 64) : c.IsVersion (versionName c.pre n) := by
  unfold IsVersion
  rw [versionOf_versionName h]
  rfl

end

/-! ## 2. What a chain shows -/

/-- The state of a chain's names between any two calls. -/
structure Sound (c : Chain) (t : VolTree) : Prop where
  wellFormed : t.WellFormed
  link : ∀ node, t.get [c.link] = some node → ∃ d, node = .symlink [d] ∧ c.IsVersion d ∧ t.IsDir [d]
  tmp : ∀ node, t.get [tmpName c.link] = some node → ∃ dest, node = .symlink dest
  visible : ∀ x ∈ c.visible, ∀ node, t.get [x] = some node → node = .symlink [c.link, x]

/-- The generation `v` is on show, with these directories and files and no others. -/
structure Shows (c : Chain) (t : VolTree) (v : String) (dirs : List Path)
    (files : List (Path × ByteArray)) : Prop where
  link : t.get [c.link] = some (.symlink [v])
  version : c.IsVersion v
  built : Built t [v] dirs files
  visible : ∀ x ∈ c.visible, t.get [x] = some (.symlink [c.link, x])

/-- What is on show is as it was. -/
structure Same (c : Chain) (t t' : VolTree) : Prop where
  link : t'.get [c.link] = t.get [c.link]
  behind : ∀ d, t.get [c.link] = some (.symlink [d]) → ∀ rest, t'.get (d :: rest) = t.get (d :: rest)
  visible : ∀ x ∈ c.visible, t.get [x] ≠ none → t'.get [x] = t.get [x]

/-- What a call of a publish to the generation `v` does. -/
structure Step (c : Chain) (v : String) (dirs : List Path) (files : List (Path × ByteArray))
    (t t' : VolTree) : Prop where
  within : Within c.Mine t t'
  sound : c.Sound t'
  versions : ∀ name, c.IsVersion name → t'.get [name] ≠ none → name = v ∨ t.get [name] ≠ none
  shows : c.Same t t' ∨ t.get [c.link] ≠ some (.symlink [v]) ∧ c.Shows t' v dirs files

section

variable {c : Chain} {v : String} {dirs : List Path} {files : List (Path × ByteArray)}
  {t t' : VolTree}

theorem Sound.stable : Stable (Elsewhere c.Mine) c.Sound := by
  refine stable_of_get (fun _ h => h.wellFormed) ?_
  intro a b hwf hget h
  refine ⟨hwf, ?_, ?_, ?_⟩
  · intro node hnode
    rw [hget _ mine_link] at hnode
    obtain ⟨d, hd, hv, mode, hdir⟩ := h.link node hnode
    exact ⟨d, hd, hv, mode, (hget _ (mine_version hv [])).trans hdir⟩
  · intro node hnode
    rw [hget _ mine_tmp] at hnode
    exact h.tmp node hnode
  · intro x hx node hnode
    rw [hget _ (mine_visible hx)] at hnode
    exact h.visible x hx node hnode

theorem Shows.stable : Stable (Elsewhere c.Mine) fun t => c.Shows t v dirs files := by
  refine stable_of_get (fun _ h => h.built.wellFormed) ?_
  intro a b hwf hget h
  refine ⟨(hget _ mine_link).trans h.link, h.version, ?_, ?_⟩
  · exact h.built.congr hwf fun rest => view_of_get (hget _ (mine_version h.version rest))
  · intro x hx
    exact (hget _ (mine_visible hx)).trans (h.visible x hx)

theorem Same.refl (c : Chain) (t : VolTree) : c.Same t t :=
  ⟨rfl, fun _ _ _ => rfl, fun _ _ _ => rfl⟩

theorem Same.trans {t'' : VolTree} (h : c.Same t t') (h' : c.Same t' t'') : c.Same t t'' where
  link := h'.link.trans h.link
  behind d hd rest := (h'.behind d (h.link.trans hd) rest).trans (h.behind d hd rest)
  visible x hx hne := by
    have hsame := h.visible x hx hne
    exact (h'.visible x hx (hsame ▸ hne)).trans hsame

theorem Shows.of_same (h : c.Shows t v dirs files) (hs : c.Same t t') (hwf : t'.WellFormed) :
    c.Shows t' v dirs files where
  link := hs.link.trans h.link
  version := h.version
  built := h.built.congr hwf fun rest => view_of_get (hs.behind v h.link rest)
  visible x hx := (hs.visible x hx (by rw [h.visible x hx]; simp)).trans (h.visible x hx)

theorem Step.refl (h : c.Sound t) : c.Step v dirs files t t :=
  ⟨Within.refl _ t, h, fun _ _ hne => .inr hne, .inl (Same.refl c t)⟩

/-- The calls of a publish add up. -/
theorem Step.trans {t'' : VolTree} (h : c.Step v dirs files t t') (h' : c.Step v dirs files t' t'') :
    c.Step v dirs files t t'' where
  within := h.within.trans h'.within
  sound := h'.sound
  versions name hname hne := by
    rcases h'.versions name hname hne with he | hne'
    · exact .inl he
    · exact h.versions name hname hne'
  shows := by
    rcases h.shows with hsame | ⟨hhidden, hshows⟩
    · rcases h'.shows with hsame' | ⟨hhidden', hshows'⟩
      · exact .inl (hsame.trans hsame')
      · exact .inr ⟨hsame.link ▸ hhidden', hshows'⟩
    · rcases h'.shows with hsame' | ⟨-, hshows'⟩
      · exact .inr ⟨hhidden, hshows.of_same hsame' h'.sound.wellFormed⟩
      · exact .inr ⟨hhidden, hshows'⟩

end

end Chain

/-! ## 3. Filling a generation -/

/-- A generation is being filled: the chain is sound, and the generation is not on show. -/
structure Filling (c : Chain) (v : String) (t : VolTree) : Prop where
  sound : c.Sound t
  hidden : t.get [c.link] ≠ some (.symlink [v])

/-- Whoever fills a new, empty generation works inside it and leaves these directories and files. -/
def Fills (may : FsOp ByteArray → Prop) (c : Chain) (sure : Prop) (fill : String → Vol Unit)
    (dirs : List Path) (files : List (Path × ByteArray)) : Prop :=
  ∀ v t, c.IsVersion v → Built t [v] [[]] [] →
    Sat (Faulty may) (Elsewhere c.Mine) (Within ([v] <+: ·))
      (fun r t' => Ends sure r fun _ => Built t' [v] dirs files) (fill v).run t

section

variable {may : FsOp ByteArray → Prop} {c : Chain} {sure : Prop} {v : String} {dirs : List Path}
  {files : List (Path × ByteArray)} {t : VolTree}

theorem Filling.stable : Stable (Elsewhere c.Mine) (Filling c v) := by
  intro a b hR h
  refine ⟨Chain.Sound.stable a b hR h.sound, ?_⟩
  rw [hR.2 _ Chain.mine_link]
  exact h.hidden

variable {a b : VolTree}

/-- Whatever happens in a generation that is not on show, it is not seen. -/
theorem Filling.within (hv : c.IsVersion v) (h : Filling c v a) (hin : Within ([v] <+: ·) a b) :
    c.Step v dirs files a b ∧ Filling c v b := by
  have hname : ∀ x, x ≠ v → ∀ rest, b.get (x :: rest) = a.get (x :: rest) := by
    intro x hx rest
    refine hin.2 _ ?_
    intro hpre
    exact hx (List.cons_prefix_cons.mp hpre).1.symm
  have hother : ∀ x ∈ c.link :: tmpName c.link :: c.visible, b.get [x] = a.get [x] :=
    fun x hx => hname x (Chain.ne_version hx hv) []
  have hlink := hother c.link (by simp)
  have hshown : ∀ d, a.get [c.link] = some (.symlink [d]) → d ≠ v := by
    rintro d hd rfl
    exact h.hidden hd
  have hsound : c.Sound b := by
    refine ⟨hin.1 h.sound.wellFormed, ?_, ?_, ?_⟩
    · intro node hnode
      rw [hlink] at hnode
      obtain ⟨d, rfl, hd, mode, hdir⟩ := h.sound.link node hnode
      exact ⟨d, rfl, hd, mode, (hname d (hshown d hnode) []).trans hdir⟩
    · intro node hnode
      rw [hother _ (by simp)] at hnode
      exact h.sound.tmp node hnode
    · intro x hx node hnode
      rw [hother x (by simp [hx])] at hnode
      exact h.sound.visible x hx node hnode
  refine ⟨⟨hin.mono (Chain.mine_under hv), hsound, ?_, .inl ⟨hlink, ?_, ?_⟩⟩, hsound, ?_⟩
  · intro name _ hne
    by_cases he : name = v
    · exact .inl he
    · exact .inr (hname name he [] ▸ hne)
  · intro d hd rest
    exact hname d (hshown d hd) rest
  · intro x hx _
    exact hother x (by simp [hx])
  · rw [hlink]
    exact h.hidden

/-- A generation is filled, and not yet on show. -/
def Ripe (c : Chain) (v : String) (dirs : List Path) (files : List (Path × ByteArray))
    (t : VolTree) : Prop :=
  Filling c v t ∧ Built t [v] dirs files

theorem Ripe.stable (hv : c.IsVersion v) : Stable (Elsewhere c.Mine) (Ripe c v dirs files) :=
  Filling.stable.and (built_stable (Chain.mine_under hv))

/-- The first call that changes something: a fresh directory, not the one on show. -/
theorem createVersion_sat (hsure : sure → ∀ op, ¬ may op) (hv : c.IsVersion v) (h : c.Sound t)
    (hfree : sure → t.get [v] = none) :
    Sat (Faulty may) (Elsewhere c.Mine) (c.Step v dirs files)
      (fun r t' => Ends sure r fun _ => Ripe c v [[]] [] t') (Fs.createDir [v]).run t := by
  have hstable : Stable (Elsewhere c.Mine) fun t => c.Sound t ∧ (sure → t.get [v] = none) := by
    refine Chain.Sound.stable.and ?_
    intro a b hR hnone hs
    rw [hR.2 _ (Chain.mine_version hv [])]
    exact hnone hs
  refine .of_op hstable (fun r => ends_stable (fun _ => Ripe.stable hv) r) ⟨h, hfree⟩ ?_
  intro t1 ans t2 h1 hw
  cases ans with
  | error e =>
    obtain rfl := Faulty.createDir_error hw
    refine ⟨.refl h1.1, .error ?_⟩
    intro hs
    have hexact : (t2.exec (.createDir [v])).1 = .error e := (hw.exact hsure hs).1
    have hroot : t2.resolve false [v] = .ok [v] :=
      h1.1.wellFormed.resolve_child (p := []) h1.1.wellFormed.root (by decide) fun dest hlink => by
        rw [List.nil_append, h1.2 hs] at hlink
        cases hlink
    simp only [exec, act, hroot, h1.2 hs] at hexact
    cases hexact
  | ok u =>
    obtain ⟨q, hr, hnone, -⟩ := Faulty.createDir_ok hw
    obtain rfl := t1.resolve_single hr
    have hl : t1.Linkless [v] := by
      intro a ha dest hlink
      rcases List.prefix_cons_iff.mp ha with rfl | ⟨rest, rfl, hrest⟩
      · obtain ⟨mode, hroot⟩ := h1.1.wellFormed.root
        rw [hroot] at hlink
        cases hlink
      · obtain rfl := List.prefix_nil.mp hrest
        rw [hnone] at hlink
        cases hlink
    have hhidden : t1.get [c.link] ≠ some (.symlink [v]) := by
      intro hlink
      obtain ⟨d, hd, -, mode, hdir⟩ := h1.1.link _ hlink
      obtain rfl : v = d := by simpa using hd
      rw [hnone] at hdir
      cases hdir
    have hin : Within ([v] <+: ·) t1 t2 := by
      refine hw.within ?_ (by simp)
      rintro q ⟨a, ha, hpre⟩
      rw [t1.resolve_single ha] at hpre
      exact hpre
    obtain ⟨hstep, hfilling⟩ := Filling.within hv ⟨h1.1, hhidden⟩ hin
    exact ⟨hstep, .ok ⟨hfilling, Faulty.createDir_built hw h1.1.wellFormed hl⟩⟩

/-- Filling is not seen. -/
theorem Fills.sat {fill : String → Vol Unit} (hfill : Fills may c sure fill dirs files)
    (hv : c.IsVersion v) (h : Ripe c v [[]] [] t) :
    Sat (Faulty may) (Elsewhere c.Mine) (c.Step v dirs files)
      (fun r t' => Ends sure r fun _ => Ripe c v dirs files t') (fill v).run t := by
  refine .mono ?_ (Sat.strengthen Filling.stable (fun a b ha hab => ha.within hv hab)
    (hfill v t hv h.2) h.1)
  intro r t' ⟨hends, hfilling⟩
  exact hends.mono fun _ hbuilt => ⟨hfilling, hbuilt⟩

/-! ## 4. The links -/

/-- The links in `names` are made. -/
def Linked (c : Chain) (names : List String) (t : VolTree) : Prop :=
  ∀ x ∈ names, t.get [x] = some (.symlink [c.link, x])

/-- A filled generation, with some of the visible links. -/
def Linking (c : Chain) (v : String) (dirs : List Path) (files : List (Path × ByteArray))
    (names : List String) (t : VolTree) : Prop :=
  Ripe c v dirs files t ∧ Linked c names t

variable {names : List String}

theorem Linking.stable (hv : c.IsVersion v) (hnames : ∀ x ∈ names, x ∈ c.visible) :
    Stable (Elsewhere c.Mine) (Linking c v dirs files names) := by
  refine (Ripe.stable hv).and ?_
  intro a b hR h x hx
  rw [hR.2 _ (Chain.mine_visible (hnames x hx))]
  exact h x hx

/-- A step at the temporary link or at visible names that were free. -/
theorem Linking.aside (hv : c.IsVersion v) (h : Linking c v dirs files names a)
    (hin : Within (fun q => ∃ x ∈ tmpName c.link :: c.visible, q = [x]) a b)
    (htmp : ∀ node, b.get [tmpName c.link] = some node → ∃ dest, node = .symlink dest)
    (hvis : ∀ x ∈ c.visible, b.get [x] = a.get [x] ∨
      a.get [x] = none ∧ b.get [x] = some (.symlink [c.link, x]))
    (hnames : ∀ x ∈ names, x ∈ c.visible) :
    c.Step v dirs files a b ∧ Linking c v dirs files names b := by
  have hversion : ∀ d, c.IsVersion d → ∀ rest, b.get (d :: rest) = a.get (d :: rest) := by
    intro d hd rest
    refine hin.2 _ ?_
    rintro ⟨x, hx, he⟩
    exact Chain.ne_version (.tail _ hx) hd (List.cons.inj he).1.symm
  have hlink : b.get [c.link] = a.get [c.link] := by
    refine hin.2 _ ?_
    rintro ⟨x, hx, he⟩
    obtain rfl : c.link = x := by simpa using he
    rcases List.mem_cons.mp hx with he | hx
    · exact c.apart.2.2 he.symm
    · exact c.apart.1 hx
  have hkept : ∀ x ∈ c.visible, a.get [x] ≠ none → b.get [x] = a.get [x] := by
    intro x hx hne
    rcases hvis x hx with hsame | ⟨hnone, _⟩
    · exact hsame
    · exact absurd hnone hne
  have hsound : c.Sound b := by
    refine ⟨hin.1 h.1.1.sound.wellFormed, ?_, htmp, ?_⟩
    · intro node hnode
      rw [hlink] at hnode
      obtain ⟨d, rfl, hd, mode, hdir⟩ := h.1.1.sound.link node hnode
      exact ⟨d, rfl, hd, mode, (hversion d hd []).trans hdir⟩
    intro x hx node hnode
    rcases hvis x hx with hsame | ⟨_, hnew⟩
    · exact h.1.1.sound.visible x hx node (hsame ▸ hnode)
    · rw [hnew] at hnode
      exact (Option.some.inj hnode).symm
  refine ⟨⟨hin.mono ?_, hsound, ?_, .inl ⟨hlink, ?_, hkept⟩⟩, ⟨⟨hsound, ?_⟩, ?_⟩, ?_⟩
  · rintro q ⟨x, hx, rfl⟩
    exact ⟨x, [], rfl, .inl (.tail _ hx)⟩
  · intro name hname hne
    exact .inr (hversion name hname [] ▸ hne)
  · intro d hd rest
    obtain ⟨d', hd', hver, _⟩ := h.1.1.sound.link _ hd
    obtain rfl : d = d' := by simpa using hd'
    exact hversion d hver rest
  · rw [hlink]
    exact h.1.1.hidden
  · exact h.1.2.congr hsound.wellFormed fun rest => view_of_get (hversion v hv rest)
  · intro x hx
    rw [hkept x (hnames x hx) (by rw [h.2 x hx]; simp)]
    exact h.2 x hx

/-- A call that touches nothing. -/
theorem Linking.still {op : FsOp ByteArray} {ans : op.Ans} (h : Linking c v dirs files names a)
    (hw : Faulty may op a ans b) (hnone : ∀ q, ¬ a.Touches op q) (hop : ∀ p, op ≠ .removeDirAll p)
    (hv : c.IsVersion v) (hnames : ∀ x ∈ names, x ∈ c.visible) :
    c.Step v dirs files a b ∧ Linking c v dirs files names b := by
  have hget : ∀ q, b.get q = a.get q := fun q => hw.frame (hnone q)
  refine h.aside hv ?_ ?_ (fun x _ => .inl (hget [x])) hnames
  · exact hw.within (fun q hq => absurd hq (hnone q)) fun p he => absurd he (hop p)
  · intro node hnode
    exact h.1.1.sound.tmp node ((hget _).symm.trans hnode)

theorem link_sat {x : String} (hsure : sure → ∀ op, ¬ may op) (hv : c.IsVersion v)
    (hnames : ∀ y ∈ x :: names, y ∈ c.visible) (h : Linking c v dirs files names t) :
    Sat (Faulty may) (Elsewhere c.Mine) (c.Step v dirs files)
      (fun r t' => Ends sure r fun _ => Linking c v dirs files (x :: names) t')
      (link x [c.link, x]).run t := by
  have hx : x ∈ c.visible := hnames x (.head _)
  have hrest : ∀ y ∈ names, y ∈ c.visible := fun y hy => hnames y (.tail _ hy)
  have hmade : ∀ a : VolTree, Linking c v dirs files names a →
      a.get [x] = some (.symlink [c.link, x]) → Linking c v dirs files (x :: names) a := by
    intro a ha hget
    exact ⟨ha.1, fun y hy => (List.mem_cons.mp hy).elim (fun he => he ▸ hget) (ha.2 y)⟩
  -- a plain name is reached whatever stands there
  have hreach : ∀ a : VolTree, a.WellFormed → a.resolve false [x] = .ok [x] := by
    intro a ha
    exact a.resolve_of_dirs ha.root (by simp [walkLimit]) trivial (by simp)
  have htmp : tmpName c.link ≠ x := by
    rintro rfl
    exact c.apart.2.1 hx
  have hfree : Stable (Elsewhere c.Mine) fun a =>
      Linking c v dirs files names a ∧ (sure → a.get [x] = none) := by
    refine (Linking.stable hv hrest).and ?_
    intro a b hR hnone hs
    rw [hR.2 _ (Chain.mine_visible hx)]
    exact hnone hs
  unfold link
  refine .lift_bind (Elsewhere.refl _) (P := fun r a => Linking c v dirs files names a ∧
    (r = .ok () → a.get [x] = some (.symlink [c.link, x])) ∧
      (∀ e, r = .error e → sure → a.get [x] = none)) ?_ ?_
  · refine .of_op (Linking.stable hv hrest) ?_ h ?_
    · rintro r a b hR ⟨ha, hok, herr⟩
      refine ⟨Linking.stable hv hrest a b hR ha, ?_, ?_⟩
      · rw [hR.2 _ (Chain.mine_visible hx)]
        exact hok
      · rw [hR.2 _ (Chain.mine_visible hx)]
        exact herr
    intro t1 ans t2 h1 hw
    obtain ⟨hstep, h2⟩ := h1.still hw (fun q hq => hq) (by simp) hv hrest
    have hget : t2.get [x] = t1.get [x] := hw.frame fun hq => hq
    refine ⟨hstep, h2, ?_, ?_⟩
    · rintro rfl
      rcases hw with ⟨hans, -⟩ | ⟨-, ⟨e, he⟩, -⟩
      · have hans : (t1.exec (.symlinkMetadata [x])).1 = .ok () := hans
        simp only [exec, act, hreach t1 h1.1.1.sound.wellFormed] at hans
        cases hnode : t1.get [x] with
        | none =>
          rw [hnode] at hans
          cases hans
        | some node =>
          rw [hget, hnode, h1.1.1.sound.visible x hx node hnode]
      · cases he
    · rintro e rfl hs
      have hans : (t1.exec (.symlinkMetadata [x])).1 = .error e := (hw.exact hsure hs).1
      simp only [exec, act, hreach t1 h1.1.1.sound.wellFormed] at hans
      rw [hget]
      cases hnode : t1.get [x] with
      | none => rfl
      | some node =>
        rw [hnode] at hans
        cases hans
  · rintro r t1 ⟨h1, hok, herr⟩
    cases r with
    | ok u =>
      exact .of_pure (ends_stable (fun _ => Linking.stable hv hnames) _)
        (.ok (hmade t1 h1 (hok rfl)))
    | error e =>
      refine .of_op hfree (fun r => ends_stable (fun _ => Linking.stable hv hnames) r)
        ⟨h1, herr e rfl⟩ ?_
      rintro t2 ans t3 ⟨h2, hnone⟩ hw
      have hwf := h2.1.1.sound.wellFormed
      have hout : ∀ y, y ≠ x → t3.get [y] = t2.get [y] := by
        intro y hy
        refine hw.frame fun hq => hy ?_
        simpa using t2.resolve_single hq
      have hcase : t3.get [x] = t2.get [x] ∨
          t2.get [x] = none ∧ t3.get [x] = some (.symlink [c.link, x]) := by
        rcases hw with ⟨-, rfl⟩ | ⟨-, -, rfl⟩
        · simp only [exec, act, hreach t2 hwf]
          cases hnode : t2.get [x] with
          | none => exact .inr ⟨rfl, by simp⟩
          | some node => exact .inl hnode
        · exact .inl rfl
      obtain ⟨hstep, h3⟩ := h2.aside hv
        (hw.within (fun q hq => ⟨x, by simp [hx], t2.resolve_single hq⟩) (by simp))
        (fun node hnode => h2.1.1.sound.tmp node ((hout _ htmp).symm.trans hnode))
        (fun y _ => by
          by_cases hy : y = x
          · exact hy ▸ hcase
          · exact .inl (hout y hy)) hrest
      refine ⟨hstep, ?_, ?_⟩
      · rintro u rfl
        obtain ⟨q, hq, hget⟩ := hw.symlink_ok
        rw [t2.resolve_single hq] at hget
        exact hmade t3 h3 hget
      intro hs
      have hans : (t2.exec (.symlink [c.link, x] [x])).1 = ans := (hw.exact hsure hs).1
      simp only [exec, act, hreach t2 hwf, hnone hs] at hans
      exact ⟨(), hans.symm⟩

theorem linkEach_sat (hsure : sure → ∀ op, ¬ may op) (hv : c.IsVersion v) (todo : List String)
    (done : List String) (hdone : ∀ x ∈ done, x ∈ c.visible) (htodo : ∀ x ∈ todo, x ∈ c.visible)
    (h : Linking c v dirs files done t) :
    Sat (Faulty may) (Elsewhere c.Mine) (c.Step v dirs files)
      (fun r t' => Ends sure r fun _ => Linking c v dirs files todo t')
      (linkEach c.link todo).run t := by
  -- the links that are made accumulate in front of those made before
  have hall : ∀ (todo done : List String) (t : VolTree), (∀ x ∈ done, x ∈ c.visible) →
      (∀ x ∈ todo, x ∈ c.visible) → Linking c v dirs files done t →
      Sat (Faulty may) (Elsewhere c.Mine) (c.Step v dirs files)
        (fun r t' => Ends sure r fun _ => Linking c v dirs files (todo.reverse ++ done) t')
        (linkEach c.link todo).run t := by
    intro todo
    induction todo with
    | nil =>
      intro done t hdone _ h
      exact .of_pure (ends_stable (fun _ => Linking.stable hv hdone) _) (.ok h)
    | cons x todo ih =>
      intro done t hdone htodo h
      have hcons : ∀ y ∈ x :: done, y ∈ c.visible :=
        List.forall_mem_cons.mpr ⟨htodo x (.head _), hdone⟩
      unfold linkEach
      refine .ends_bind (Elsewhere.refl _) (link_sat hsure hv hcons h) ?_
      intro _ t1 h1
      have hrest := ih (x :: done) t1 hcons (fun y hy => htodo y (.tail _ hy)) h1
      simpa using hrest
  refine .mono ?_ (hall todo done t hdone htodo h)
  intro r t' hends
  exact hends.mono fun _ h' => ⟨h'.1, fun x hx => h'.2 x (by simp [hx])⟩

/-! ## 5. The swap -/

/-- A step at the temporary link. -/
theorem Linking.at_tmp (hv : c.IsVersion v) (h : Linking c v dirs files names a)
    (hin : Within (· = [tmpName c.link]) a b)
    (htmp : ∀ node, b.get [tmpName c.link] = some node → ∃ dest, node = .symlink dest)
    (hnames : ∀ x ∈ names, x ∈ c.visible) :
    c.Step v dirs files a b ∧ Linking c v dirs files names b := by
  refine h.aside hv (hin.mono fun q hq => ⟨_, .head _, hq⟩) htmp ?_ hnames
  intro x hx
  refine .inl (hin.2 _ ?_)
  intro he
  obtain rfl : x = tmpName c.link := by simpa using he
  exact c.apart.2.1 hx

/-- The rename puts a filled generation on show. -/
theorem rename_shows (hv : c.IsVersion v) (h : Linking c v dirs files c.visible a)
    (htmp : a.get [tmpName c.link] = some (.symlink [v]))
    (hw : Faulty may (.rename [tmpName c.link] [c.link]) a (.ok ()) b) :
    c.Step v dirs files a b ∧ c.Shows b v dirs files := by
  have hne : ¬ ([tmpName c.link] : Path) <+: [c.link] := by simpa using c.apart.2.2
  have hne' : ¬ ([c.link] : Path) <+: [tmpName c.link] := by simpa using c.apart.2.2.symm
  obtain ⟨p, q, hp, hq, hmove⟩ := hw.rename_ok
  obtain rfl := a.resolve_single hp
  obtain rfl := a.resolve_single hq
  have hmove : b = a.move [tmpName c.link] [c.link] := by
    rcases hmove with ⟨he, _⟩ | ⟨_, hmove⟩
    · exact absurd (he ▸ List.prefix_refl _) hne
    · exact hmove
  have hother : ∀ x, x ≠ tmpName c.link → x ≠ c.link → ∀ rest,
      b.get (x :: rest) = a.get (x :: rest) := by
    intro x hx hx' rest
    rw [hmove]
    refine a.get_move_other ?_ ?_
    · intro hpre
      exact hx (List.cons_prefix_cons.mp hpre).1.symm
    · intro hpre
      exact hx' (List.cons_prefix_cons.mp hpre).1.symm
  have hversion : ∀ d, c.IsVersion d → ∀ rest, b.get (d :: rest) = a.get (d :: rest) :=
    fun d hd => hother d (Chain.ne_version (by simp) hd).symm (Chain.ne_version (by simp) hd).symm
  have hlink : b.get [c.link] = some (.symlink [v]) := by
    rw [hmove]
    exact (a.get_move_dst hne hne' []).trans htmp
  have hvisible : Linked c c.visible b := by
    intro x hx
    refine (hother x ?_ ?_ []).trans (h.2 x hx)
    · rintro rfl
      exact c.apart.2.1 hx
    · rintro rfl
      exact c.apart.1 hx
  have hin : Within c.Mine a b := by
    refine hw.within ?_ nofun
    rintro q ⟨p, hp, hpre⟩
    have hpq : p = [tmpName c.link] ∨ p = [c.link] :=
      hp.imp (fun hr => a.resolve_single hr) fun hr => a.resolve_single hr
    obtain ⟨rest, rfl⟩ := hpre
    rcases hpq with rfl | rfl
    · exact ⟨_, rest, rfl, .inl (by simp)⟩
    · exact ⟨_, rest, rfl, .inl (by simp)⟩
  have hwf := hin.1 h.1.1.sound.wellFormed
  have hshows : c.Shows b v dirs files :=
    ⟨hlink, hv, h.1.2.congr hwf fun rest => view_of_get (hversion v hv rest), hvisible⟩
  refine ⟨⟨hin, ⟨hwf, ?_, ?_, ?_⟩, ?_, .inr ⟨h.1.1.hidden, hshows⟩⟩, hshows⟩
  · intro node hnode
    rw [hlink] at hnode
    exact ⟨v, (Option.some.inj hnode).symm, hv, hshows.built.top⟩
  · intro node hnode
    have hgone : b.get [tmpName c.link] = none := by
      rw [hmove]
      exact a.get_move_src hne hne' []
    rw [hgone] at hnode
    cases hnode
  · intro x hx node hnode
    rw [hvisible x hx] at hnode
    exact (Option.some.inj hnode).symm
  · intro name hname hne
    exact .inr (hversion name hname [] ▸ hne)

/-- The new generation is on show. -/
def Shown (c : Chain) (v : String) (dirs : List Path) (files : List (Path × ByteArray))
    (t : VolTree) : Prop :=
  c.Sound t ∧ c.Shows t v dirs files

theorem Shown.stable : Stable (Elsewhere c.Mine) (Shown c v dirs files) :=
  Chain.Sound.stable.and Chain.Shows.stable

variable {version : Nat}

theorem swap_sat (hsure : sure → ∀ op, ¬ may op) (hv : c.IsVersion (versionName c.pre version))
    (h : Linking c (versionName c.pre version) dirs files c.visible t) :
    Sat (Faulty may) (Elsewhere c.Mine) (c.Step (versionName c.pre version) dirs files)
      (fun r t' => Ends sure r fun _ => Shown c (versionName c.pre version) dirs files t')
      (swap c.link c.pre version).run t := by
  have hvis : ∀ x ∈ c.visible, x ∈ c.visible := fun _ hx => hx
  have hstable : Stable (Elsewhere c.Mine)
      (Linking c (versionName c.pre version) dirs files c.visible) := Linking.stable hv hvis
  have hreach : ∀ (a : VolTree) (x : String), a.WellFormed → a.resolve false [x] = .ok [x] := by
    intro a x ha
    exact a.resolve_of_dirs ha.root (by simp [walkLimit]) trivial (by simp)
  have hat : ∀ A : Option (Node ByteArray) → Prop,
      Stable (Elsewhere c.Mine) fun a => A (a.get [tmpName c.link]) := by
    intro A a b hR ha
    rw [hR.2 _ Chain.mine_tmp]
    exact ha
  unfold swap
  refine .lift_bind (Elsewhere.refl _) (P := fun _ a =>
    Linking c (versionName c.pre version) dirs files c.visible a ∧
      (sure → a.get [tmpName c.link] = none)) ?_ ?_
  · refine .of_op hstable (fun _ => hstable.and (hat fun node => sure → node = none)) h ?_
    intro t1 ans t2 h1 hw
    have hwf := h1.1.1.sound.wellFormed
    have hcase : t2.get [tmpName c.link] = t1.get [tmpName c.link] ∨
        t2.get [tmpName c.link] = none := by
      rcases hw with ⟨-, rfl⟩ | ⟨-, -, rfl⟩
      · simp only [exec, act, hreach t1 _ hwf]
        cases hnode : t1.get [tmpName c.link] with
        | none => exact .inr hnode
        | some node =>
          obtain ⟨dest, rfl⟩ := h1.1.1.sound.tmp node hnode
          exact .inr (by simp)
      · exact .inl rfl
    obtain ⟨hstep, h2⟩ := h1.at_tmp hv (hw.within (fun q hq => t1.resolve_single hq) (by simp))
      (fun node hnode => by
        rcases hcase with hsame | hnone
        · exact h1.1.1.sound.tmp node (hsame ▸ hnode)
        · rw [hnone] at hnode
          cases hnode) hvis
    refine ⟨hstep, h2, ?_⟩
    intro hs
    have heq := (hw.exact hsure hs).2
    rw [heq]
    simp only [exec, act, hreach t1 _ hwf]
    cases hnode : t1.get [tmpName c.link] with
    | none => exact hnode
    | some node =>
      obtain ⟨dest, rfl⟩ := h1.1.1.sound.tmp node hnode
      simp
  intro _ t1 h1
  refine .ends_bind (Elsewhere.refl _) (P := fun _ a =>
    Linking c (versionName c.pre version) dirs files c.visible a ∧
      a.get [tmpName c.link] = some (.symlink [versionName c.pre version])) ?_ ?_
  · refine .of_op (hstable.and (hat fun node => sure → node = none))
      (fun r => ends_stable (fun _ => hstable.and (hat fun node => node = _)) r) h1 ?_
    rintro t2 ans t3 ⟨h2, hnone⟩ hw
    have hwf := h2.1.1.sound.wellFormed
    obtain ⟨hstep, h3⟩ := h2.at_tmp hv (hw.within (fun q hq => t2.resolve_single hq) (by simp))
      (fun node hnode => by
        rcases hw with ⟨-, rfl⟩ | ⟨-, -, rfl⟩
        · simp only [exec, act, hreach t2 _ hwf] at hnode
          cases hold : t2.get [tmpName c.link] with
          | none =>
            rw [hold] at hnode
            exact ⟨_, by simpa using hnode.symm⟩
          | some old =>
            rw [hold] at hnode
            exact h2.1.1.sound.tmp node hnode
        · exact h2.1.1.sound.tmp node hnode) hvis
    refine ⟨hstep, ?_, ?_⟩
    · rintro u rfl
      obtain ⟨q, hq, hget⟩ := hw.symlink_ok
      rw [t2.resolve_single hq] at hget
      exact ⟨h3, hget⟩
    intro hs
    have hans : (t2.exec (.symlink _ [tmpName c.link])).1 = ans := (hw.exact hsure hs).1
    simp only [exec, act, hreach t2 _ hwf, hnone hs] at hans
    exact ⟨(), hans.symm⟩
  -- the one step that shows
  intro _ t2 h2
  refine .of_op (hstable.and (hat fun node => node = _))
    (fun r => ends_stable (fun _ => Shown.stable) r) h2 ?_
  rintro t3 ans t4 ⟨h3, htmp⟩ hw
  cases ans with
  | ok u =>
    obtain ⟨hstep, hshows⟩ := rename_shows hv h3 htmp hw
    exact ⟨hstep, .ok ⟨hstep.sound, hshows⟩⟩
  | error e =>
    have hsame := Faulty.rename_error hw
    subst hsame
    refine ⟨.refl h3.1.1.sound, .error ?_⟩
    intro hs
    have hwf := h3.1.1.sound.wellFormed
    have hans : (t4.exec (.rename [tmpName c.link] [c.link])).1 = .error e := (hw.exact hsure hs).1
    have hne : ([tmpName c.link] : Path) ≠ [c.link] := by simpa using c.apart.2.2
    simp only [exec, act, hreach t4 _ hwf, renameAt, if_neg hne, htmp] at hans
    cases hlink : t4.get [c.link] with
    | none =>
      rw [hlink] at hans
      cases hans
    | some node =>
      obtain ⟨d, rfl, -⟩ := h3.1.1.sound.link node hlink
      rw [hlink] at hans
      cases hans

/-! ## 6. Collecting -/

/-- What is removed afterwards is not on show. -/
theorem Shown.within (h : Shown c v dirs files a)
    (hin : Within (fun q => ∃ name rest, q = name :: rest ∧ c.IsVersion name ∧ name ≠ v) a b)
    (hless : ∀ q, b.get q ≠ none → a.get q ≠ none) :
    c.Step v dirs files a b ∧ Shown c v dirs files b := by
  have hwf := hin.1 h.1.wellFormed
  have hname : ∀ x ∈ c.link :: tmpName c.link :: c.visible, b.get [x] = a.get [x] := by
    intro x hx
    refine hin.2 _ ?_
    rintro ⟨name, rest, he, hver, -⟩
    exact Chain.ne_version hx hver (List.cons.inj he).1
  have hshown : ∀ rest, b.get (v :: rest) = a.get (v :: rest) := by
    intro rest
    refine hin.2 _ ?_
    rintro ⟨name, rest', he, -, hne⟩
    exact hne (List.cons.inj he).1.symm
  have hsame : c.Same a b := by
    refine ⟨hname _ (by simp), ?_, fun x hx _ => hname x (by simp [hx])⟩
    intro d hd
    obtain rfl : v = d := by
      have := h.2.link.symm.trans hd
      simpa using this
    exact hshown
  have hshows := h.2.of_same hsame hwf
  have hsound : c.Sound b := by
    refine ⟨hwf, ?_, ?_, ?_⟩
    · intro node hnode
      rw [hshows.link] at hnode
      exact ⟨v, (Option.some.inj hnode).symm, h.2.version, hshows.built.top⟩
    · intro node hnode
      rw [hname _ (by simp)] at hnode
      exact h.1.tmp node hnode
    · intro x hx node hnode
      rw [hname x (by simp [hx])] at hnode
      exact h.1.visible x hx node hnode
  refine ⟨⟨hin.mono ?_, hsound, fun name _ hne => .inr (hless [name] hne), .inl hsame⟩,
    hsound, hshows⟩
  rintro q ⟨name, rest, rfl, hver, -⟩
  exact Chain.mine_version hver rest

theorem removeEach_sat (hnames : ∀ name ∈ names, c.IsVersion name ∧ name ≠ v)
    (h : Shown c v dirs files t) :
    Sat (Faulty may) (Elsewhere c.Mine) (c.Step v dirs files)
      (fun r t' => Ends sure r fun _ => Shown c v dirs files t') (removeEach names).run t := by
  induction names generalizing t with
  | nil => exact .of_pure (ends_stable (fun _ => Shown.stable) _) (.ok h)
  | cons name names ih =>
    obtain ⟨hver, hne⟩ := hnames name (.head _)
    unfold removeEach
    refine .lift_bind (Elsewhere.refl _) (P := fun _ a => Shown c v dirs files a) ?_ ?_
    · refine .of_op Shown.stable (fun _ => Shown.stable) h ?_
      intro t1 ans t2 h1 hw
      refine h1.within (hw.within ?_ ?_) ?_
      · rintro q ⟨a, ha, hpre⟩
        rw [t1.resolve_single ha] at hpre
        obtain ⟨rest, rfl⟩ := hpre
        exact ⟨name, rest, rfl, hver, hne⟩
      · intro p he hr
        obtain rfl : [name] = p := FsOp.removeDirAll.inj he
        cases t1.resolve_single hr
      · exact fun q => hw.removeDirAll_less
    · intro _ t1 h1
      exact ih (fun n hn => hnames n (.tail _ hn)) h1

/-- A call that touches nothing, once the new generation is on show. -/
theorem Shown.still {op : FsOp ByteArray} {ans : op.Ans} (h : Shown c v dirs files a)
    (hw : Faulty may op a ans b) (hnone : ∀ q, ¬ a.Touches op q) (hop : ∀ p, op ≠ .removeDirAll p) :
    c.Step v dirs files a b ∧ Shown c v dirs files b :=
  h.within (hw.within (fun q hq => absurd hq (hnone q)) fun p he => absurd he (hop p))
    fun q hq => hw.frame (hnone q) ▸ hq

theorem resolve_root (h : a.WellFormed) (follow : Bool) : a.resolve follow [] = .ok [] :=
  a.resolve_of_dirs h.root (by simp) trivial fun _ dest hlink => by
    obtain ⟨mode, hroot⟩ := h.root
    rw [hroot] at hlink
    cases hlink

theorem removeStaleVersions_sat (hsure : sure → ∀ op, ¬ may op) (hlt : version < 2 ^ 64)
    (h : Shown c (versionName c.pre version) dirs files t) :
    Sat (Faulty may) (Elsewhere c.Mine) (c.Step (versionName c.pre version) dirs files)
      (fun r t' => Ends sure r fun _ => Shown c (versionName c.pre version) dirs files t')
      (removeStaleVersions c.pre version).run t := by
  unfold removeStaleVersions
  refine .ends_bind (Elsewhere.refl _)
    (P := fun _ a => Shown c (versionName c.pre version) dirs files a) ?_ ?_
  · refine .of_op Shown.stable (fun r => ends_stable (fun _ => Shown.stable) r) h ?_
    intro t1 ans t2 h1 hw
    obtain ⟨hstep, h2⟩ := h1.still hw (fun q hq => hq) nofun
    refine ⟨hstep, fun _ _ => h2, ?_⟩
    intro hs
    obtain ⟨mode, hroot⟩ := h1.1.wellFormed.root
    have hans := (hw.exact hsure hs).1
    simp only [exec, act, resolve_root h1.1.wellFormed, hroot] at hans
    cases ans with
    | ok names => exact ⟨names, rfl⟩
    | error e => cases hans
  · intro names t1 h1
    refine removeEach_sat ?_ h1
    intro name hname
    have hstale := (List.mem_filter.mp hname).2
    unfold isStale at hstale
    unfold Chain.IsVersion
    cases hver : versionOf name c.pre with
    | none =>
      rw [hver] at hstale
      cases hstale
    | some n =>
      rw [hver] at hstale
      refine ⟨rfl, ?_⟩
      rintro rfl
      rw [versionOf_versionName hlt] at hver
      simp [Option.some.inj hver] at hstale

/-! ## 7. The whole publish -/

/-- A publish, once its number is chosen. -/
def publishFrom (c : Chain) (fill : String → Vol Unit) (version : Nat) : Vol Unit := do
  Fs.createDir [versionName c.pre version]
  fill (versionName c.pre version)
  linkEach c.link c.visible
  swap c.link c.pre version
  Fs.fsyncDir []
  removeStaleVersions c.pre version

theorem publishWith_eq (c : Chain) (fill : String → Vol Unit) :
    publishWith c fill = nextVersion c.pre >>= publishFrom c fill := rfl

/-- The second half of a publish: its generation goes on show, and old ones are collected. -/
def showGeneration (c : Chain) (version : Nat) : Vol Unit := do
  linkEach c.link c.visible
  swap c.link c.pre version
  Fs.fsyncDir []
  removeStaleVersions c.pre version

theorem publishFrom_eq (c : Chain) (fill : String → Vol Unit) (version : Nat) :
    publishFrom c fill version = (do
      Fs.createDir [versionName c.pre version]
      fill (versionName c.pre version)
      showGeneration c version) := rfl

theorem showGeneration_sat (hsure : sure → ∀ op, ¬ may op) (hlt : version < 2 ^ 64)
    (h : Ripe c (versionName c.pre version) dirs files t) :
    Sat (Faulty may) (Elsewhere c.Mine) (c.Step (versionName c.pre version) dirs files)
      (fun r t' => Ends sure r fun _ => Shown c (versionName c.pre version) dirs files t')
      (showGeneration c version).run t := by
  have hv : c.IsVersion (versionName c.pre version) := Chain.isVersion_versionName hlt
  have hrefl := Elsewhere.refl (C := ByteArray) c.Mine
  unfold showGeneration
  refine .ends_bind hrefl (linkEach_sat hsure hv c.visible [] (by simp)
    (fun _ hx => hx) ⟨h, by simp [Linked]⟩) ?_
  intro _ t3 h3
  refine .ends_bind hrefl (swap_sat hsure hv h3) ?_
  intro _ t4 h4
  refine .ends_bind hrefl
    (P := fun _ a => Shown c (versionName c.pre version) dirs files a) ?_ ?_
  · refine .of_op Shown.stable (fun r => ends_stable (fun _ => Shown.stable) r) h4 ?_
    intro t5 ans t6 h5 hw
    obtain ⟨hstep, h6⟩ := h5.still hw (fun q hq => hq) nofun
    refine ⟨hstep, fun _ _ => h6, ?_⟩
    intro hs
    obtain ⟨mode, hroot⟩ := h5.1.wellFormed.root
    have hans : (t5.exec (.fsyncDir [])).1 = ans := (hw.exact hsure hs).1
    simp only [exec, act, resolve_root h5.1.wellFormed, hroot] at hans
    exact ⟨(), hans.symm⟩
  · intro _ t5 h5
    exact removeStaleVersions_sat hsure hlt h5

theorem publishFrom_sat {fill : String → Vol Unit} (hsure : sure → ∀ op, ¬ may op)
    (hfill : Fills may c sure fill dirs files) (hlt : version < 2 ^ 64) (h : c.Sound t)
    (hfree : sure → t.get [versionName c.pre version] = none) :
    Sat (Faulty may) (Elsewhere c.Mine) (c.Step (versionName c.pre version) dirs files)
      (fun r t' => Ends sure r fun _ => Shown c (versionName c.pre version) dirs files t')
      (publishFrom c fill version).run t := by
  have hv : c.IsVersion (versionName c.pre version) := Chain.isVersion_versionName hlt
  have hrefl := Elsewhere.refl (C := ByteArray) c.Mine
  rw [publishFrom_eq]
  refine .ends_bind hrefl (createVersion_sat hsure hv h hfree) ?_
  intro _ t1 h1
  refine .ends_bind hrefl (hfill.sat hv h1) ?_
  intro _ t2 h2
  exact showGeneration_sat hsure hlt h2

end

end Svidlet.Volume
