import Svidlet.Volume.Stopped

/-!
# Which generations stay

A publish leaves the generation it has made and collects the others, *keeping the current one and the one
before it*. It tells them apart by number: it keeps its own and the one below. A publish that fails
has used up a number, and its directory stays behind with it; the number below the next publish's own is
then the failed one's, and what was on show just before is collected.

> **What a publish can do to a generation other than its own** is to leave it alone or, if its number is
> stale, to remove it (`GenStep`).
>
> **What a publish that succeeds has done**: every stale one is gone, and there are two numbers that are not
> stale (`publishFrom_done`).
>
> **So the generation that was on show stays** just when no other had a higher number
> (`publish_keeps_previous_iff`).
-/

namespace Svidlet.Volume

open Lib Lib.FileTree Policy

/-! ## 1. What a call does to other generations -/

/-- What is in another generation is left alone or, if its number is stale, removed. -/
def GenStep (c : Chain) (version : Nat) (a b : VolTree) : Prop :=
  ∀ d, c.IsVersion d → d ≠ versionName c.pre version → ∀ rest,
    b.get (d :: rest) = a.get (d :: rest) ∨
      (isStale c.pre version d = true ∧ b.get (d :: rest) = none)

theorem GenStep.refl (c : Chain) (version : Nat) (a : VolTree) : GenStep c version a a :=
  fun _ _ _ _ => .inl rfl

theorem GenStep.trans {c : Chain} {version : Nat} {a b e : VolTree} (h : GenStep c version a b)
    (h' : GenStep c version b e) : GenStep c version a e := by
  intro d hd hne rest
  rcases h' d hd hne rest with hsame | hgone
  · rw [hsame]
    exact h d hd hne rest
  · exact .inr hgone

/-- The calls that put a generation on show and collect others. -/
def TailCall (c : Chain) (version : Nat) : FsOp ByteArray → Prop
  | .symlinkMetadata _ => True
  | .symlink _ p => ∃ x ∈ tmpName c.link :: c.visible, p = [x]
  | .removeFile p => p = [tmpName c.link]
  | .rename p q => p = [tmpName c.link] ∧ q = [c.link]
  | .fsyncDir _ => True
  | .readDir _ => True
  | .removeDirAll p => ∃ x, p = [x] ∧ isStale c.pre version x = true
  | _ => False

section

variable {may : FsOp ByteArray → Prop} {c : Chain} {version : Nat} {t t' : VolTree}

theorem tailCall_genStep {op : FsOp ByteArray} {ans : op.Ans} (hop : TailCall c version op)
    (hw : Faulty may op t ans t') : GenStep c version t t' := by
  intro d hd hne
  have hname : ∀ {x : String}, x ∈ c.link :: tmpName c.link :: c.visible → ∀ rest, d :: rest ≠ [x] := by
    intro x hx rest heq
    exact Chain.ne_version hx hd (List.cons.inj heq).1.symm
  have hframe : (∀ rest, ¬ t.Touches op (d :: rest)) → ∀ rest,
      t'.get (d :: rest) = t.get (d :: rest) ∨
        (isStale c.pre version d = true ∧ t'.get (d :: rest) = none) :=
    fun hno rest => .inl (hw.frame (hno rest))
  cases op with
  | symlinkMetadata p => exact hframe fun _ hq => hq
  | fsyncDir p => exact hframe fun _ hq => hq
  | readDir p => exact hframe fun _ hq => hq
  | symlink dest p =>
    obtain ⟨x, hx, rfl⟩ := hop
    exact hframe fun rest hq => hname (.tail _ hx) rest (t.resolve_single hq)
  | removeFile p =>
    obtain rfl : p = [tmpName c.link] := hop
    refine hframe fun rest hq => hname ?_ rest (t.resolve_single hq)
    exact .tail _ (.head _)
  | rename p p' =>
    obtain ⟨rfl, rfl⟩ := hop
    refine hframe fun rest hq => ?_
    obtain ⟨a, ha, hpre⟩ := hq
    have hx : ∃ x ∈ c.link :: tmpName c.link :: c.visible, a = [x] := by
      rcases ha with ha | ha
      · exact ⟨_, .tail _ (.head _), t.resolve_single ha⟩
      · exact ⟨_, .head _, t.resolve_single ha⟩
    obtain ⟨x, hx, rfl⟩ := hx
    exact Chain.ne_version hx hd (List.cons_prefix_cons.mp hpre).1
  | removeDirAll p =>
    obtain ⟨x, rfl, hstale⟩ := hop
    by_cases hxd : x = d
    · subst hxd
      intro rest
      rcases hw.removeDirAll_drop with rfl | ⟨gone, rfl⟩
      · exact .inl rfl
      rw [get_drop]
      split
      · exact .inr ⟨hstale, rfl⟩
      · exact .inl rfl
    · refine hframe fun rest hq => ?_
      obtain ⟨a, ha, hpre⟩ := hq
      rw [t.resolve_single ha] at hpre
      exact hxd (List.cons_prefix_cons.mp hpre).1
  | _ => exact hop.elim

theorem showGeneration_makes (c : Chain) (version : Nat) :
    (showGeneration c version).run.Makes (TailCall c version) := by
  have hlinks : ∀ names, (∀ x ∈ names, x ∈ c.visible) →
      (linkEach c.link names).run.Makes (TailCall c version) := by
    intro names hnames
    induction names with
    | nil => trivial
    | cons name names ih =>
      refine .run_bind ?_ fun _ => ih fun x hx => hnames x (.tail _ hx)
      refine .lift_bind (.of_op trivial) ?_
      intro r
      cases r with
      | ok u => trivial
      | error e =>
        exact .of_op ⟨name, .tail _ (hnames name (.head _)), rfl⟩
  have hremove : ∀ names, (∀ x ∈ names, isStale c.pre version x = true) →
      (removeEach names).run.Makes (TailCall c version) := by
    intro names hnames
    induction names with
    | nil => trivial
    | cons name names ih =>
      refine .lift_bind
        (.of_op ⟨name, rfl, hnames name (.head _)⟩) fun _ => ?_
      exact ih fun x hx => hnames x (.tail _ hx)
  unfold showGeneration
  refine .run_bind (hlinks _ fun _ hx => hx) fun _ => ?_
  refine .run_bind ?_ fun _ => ?_
  · refine .lift_bind (.of_op rfl) fun _ => ?_
    refine .run_bind (.of_op ⟨_, .head _, rfl⟩) fun _ => ?_
    exact .of_op ⟨rfl, rfl⟩
  · refine .run_bind (.of_op trivial) fun _ => ?_
    refine .run_bind (.of_op trivial) fun names => ?_
    exact hremove _ fun x hx => (List.mem_filter.mp hx).2

/-- What happens inside a generation is not in another. -/
theorem GenStep.of_within (h : Within ([versionName c.pre version] <+: ·) t t') :
    GenStep c version t t' := by
  intro d _ hne rest
  refine .inl (h.2 _ fun hpre => ?_)
  exact hne (List.cons_prefix_cons.mp hpre).1.symm

/-- Every call of a publish leaves other generations alone or collects a stale one. -/
theorem publishFrom_genStep {fill : String → Vol Unit} {dirs : List Path}
    {files : List (Path × ByteArray)} {sure : Prop}
    (hfill : Fills may c sure fill dirs files) (hlt : version < 2 ^ 64) (h : c.Sound t) :
    Sat (Faulty may) (Elsewhere c.Mine)
      (fun a b => c.Step (versionName c.pre version) dirs files a b ∧ GenStep c version a b)
      (fun r t' => Ends False r fun _ => Shown c (versionName c.pre version) dirs files t')
      (publishFrom c fill version).run t := by
  have hv : c.IsVersion (versionName c.pre version) := Chain.isVersion_versionName hlt
  have hrefl := Elsewhere.refl (C := ByteArray) c.Mine
  rw [publishFrom_eq]
  refine .ends_bind hrefl (P := fun _ => Ripe c (versionName c.pre version) [[]] []) ?_ ?_
  · have hcreate : Sat (Faulty may) (Elsewhere c.Mine) (c.Step (versionName c.pre version) dirs files)
        (fun r t' => Ends False r fun _ => Ripe c (versionName c.pre version) [[]] [] t')
        (Fs.createDir [versionName c.pre version]).run t :=
      createVersion_sat False.elim hv h False.elim
    refine .mono (fun _ _ hends => hends.1) (Sat.strengthen_makes (S := FsSig ByteArray)
      (φ := (· = .createDir [versionName c.pre version])) (I := c.Sound) Chain.Sound.stable
      (.of_op rfl) ?_ hcreate h)
    rintro op a ans b rfl hw ha hstep
    refine ⟨⟨hstep, .of_within (hw.within ?_ nofun)⟩, hstep.sound⟩
    rintro q ⟨p, hp, hpre⟩
    rw [a.resolve_single hp] at hpre
    exact hpre
  intro _ t1 h1
  refine .ends_bind hrefl (P := fun _ => Ripe c (versionName c.pre version) dirs files) ?_ ?_
  · refine .mono ?_ (Sat.strengthen Filling.stable (fun a b ha hab => ?_)
      (hfill _ t1 hv h1.2) h1.1)
    · intro r t' hr
      exact ⟨fun a ha => ⟨hr.2, hr.1.1 a ha⟩, False.elim⟩
    · obtain ⟨hstep, hfilling⟩ := ha.within hv hab
      exact ⟨⟨hstep, .of_within hab⟩, hfilling⟩
  intro _ t2 h2
  refine .mono (fun _ _ hends => hends.1) (Sat.strengthen_makes (I := c.Sound) Chain.Sound.stable
    (showGeneration_makes c version) ?_ (showGeneration_sat False.elim hlt h2) h2.1.sound)
  intro op a ans b hop hw ha hstep
  exact ⟨⟨hstep, tailCall_genStep hop hw⟩, hstep.sound⟩

end

/-! ## 2. What a publish has collected -/

/-- A generation of the chain: a directory with a number. -/
def Chain.Generation (c : Chain) (t : VolTree) (d : String) : Prop := c.IsVersion d ∧ t.IsDir [d]

section

variable {may : FsOp ByteArray → Prop} {c : Chain} {t t' : VolTree}
  {tr : List (Event (FsSig ByteArray))}

/-- A recursive removal that does not fail from outside: a directory goes, with all that is in it. -/
theorem removeDirAll_name {x : String} {ans : Except IoError Unit} (hwf : t.WellFormed)
    (hmay : ¬ may (.removeDirAll [x])) (hw : Faulty may (.removeDirAll [x]) t ans t') :
    (t' = t ∧ ¬ t.IsDir [x]) ∨ t' = t.drop fun r => decide ([x] <+: r) := by
  rcases hw with ⟨-, rfl⟩ | ⟨hm, -⟩
  · simp only [exec, act]
    cases hr : t.resolve false [x] with
    | error e =>
      refine .inl ⟨rfl, ?_⟩
      rintro ⟨mode, hdir⟩
      have hok : t.resolve false [x] = .ok [x] :=
        hwf.resolve_child (p := []) hwf.root (by decide) fun dest hlink => by
          rw [List.nil_append, hdir] at hlink
          cases hlink
      rw [hok] at hr
      cases hr
    | ok q =>
      obtain rfl := t.resolve_single hr
      dsimp only
      split
      next hnode =>
        refine .inl ⟨rfl, ?_⟩
        rintro ⟨mode, hdir⟩
        rw [hnode] at hdir
        cases hdir
      next => exact .inr rfl
      next hnode =>
        refine .inl ⟨rfl, ?_⟩
        rintro ⟨mode, hdir⟩
        rw [hnode] at hdir
        cases hdir
  · exact absurd hm hmay

theorem removeEach_done {names : List String} {r : Except IoError Unit} (hwf : t.WellFormed)
    (hmay : ∀ p, ¬ may (.removeDirAll p))
    (hrun : Exec (Faulty may) (removeEach names).run t tr r t') :
    ∀ d, t'.IsDir [d] → t.IsDir [d] ∧ d ∉ names := by
  induction names generalizing t tr with
  | nil =>
    cases hrun
    exact fun d hd => ⟨hd, by simp⟩
  | cons name names ih =>
    obtain ⟨tr1, tr2, ans, t1, -, hop, hrest⟩ := hrun.lift_bind_inv
    obtain ⟨-, hw⟩ := hop.op_inv
    have hwf1 : t1.WellFormed := by
      refine hw.wellFormed hwf ?_
      intro p he hr
      obtain rfl : [name] = p := FsOp.removeDirAll.inj he
      cases t.resolve_single hr
    intro d hd
    obtain ⟨hd1, hnot⟩ := ih hwf1 hrest d hd
    have hfirst : t.IsDir [d] ∧ d ≠ name := by
      rcases removeDirAll_name hwf (hmay _) hw with ⟨rfl, hfile⟩ | rfl
      · exact ⟨hd1, fun he => hfile (he ▸ hd1)⟩
      obtain ⟨mode, hdir⟩ := hd1
      rw [get_drop] at hdir
      split at hdir
      · cases hdir
      next hout =>
        refine ⟨⟨mode, hdir⟩, ?_⟩
        intro he
        simp [he] at hout
    exact ⟨hfirst.1, by simp [hfirst.2, hnot]⟩

/-- No stale generation is left. -/
theorem removeStaleVersions_done {version : Nat} (hwf : t.WellFormed)
    (hmay : ∀ p, ¬ may (.removeDirAll p))
    (hrun : Exec (Faulty may) (removeStaleVersions c.pre version).run t tr (.ok ()) t') :
    ∀ d, t'.IsDir [d] → isStale c.pre version d = false := by
  obtain ⟨tr1, tr2, names, t1, -, hop, hrest⟩ := hrun.run_bind_ok
  obtain ⟨-, hw⟩ := hop.op_inv
  have hnames := readDir_root hwf hw
  obtain rfl := Faulty.readDir_same hw
  intro d hd
  obtain ⟨⟨mode, hdir⟩, hnot⟩ := removeEach_done hwf hmay hrest d hd
  have hmem : d ∈ names := (hnames d).mpr (by simp [hdir])
  simpa [hmem] using hnot

/-- The number a publish picks, if the volume can be listed. -/
theorem nextVersion_watch (hwf : t.WellFormed) (hmay : ¬ may (.readDir [])) :
    Watch (Faulty may) (fun a b => b = a)
      (fun r t' => t' = t ∧ ∃ names, (∀ x, x ∈ names ↔ t.get [x] ≠ none) ∧
        r = .ok (versionAfter names c.pre)) (nextVersion c.pre).run t := by
  unfold nextVersion
  refine .lift_bind (P := fun r t' => t' = t ∧ ∃ names, (∀ x, x ∈ names ↔ t.get [x] ≠ none) ∧
    r = .ok names) ?_ ?_
  · refine .of_op ?_
    intro ans t' hw
    obtain rfl := Faulty.readDir_same hw
    refine ⟨rfl, rfl, ?_⟩
    cases ans with
    | ok names => exact ⟨names, readDir_root hwf hw, rfl⟩
    | error e =>
      rcases hw with ⟨hans, -⟩ | ⟨hm, -⟩
      · obtain ⟨mode, hroot⟩ := hwf.root
        simp only [exec, act, resolve_root hwf, hroot] at hans
        cases hans
      · exact absurd hm hmay
  · rintro r t' ⟨he, names, hnames, hr⟩
    subst he hr
    exact .of_pure ⟨rfl, names, hnames, rfl⟩

/-- What a publish that succeeds has made of other generations. -/
structure Collected (c : Chain) (version : Nat) (t t' : VolTree) : Prop where
  free : t.get [versionName c.pre version] = none
  others : GenStep c version t t'
  stale : ∀ d, t'.IsDir [d] → isStale c.pre version d = false

theorem publishFrom_done {fill : String → Vol Unit} {dirs : List Path}
    {files : List (Path × ByteArray)} {sure : Prop} {version : Nat}
    (hmay : ∀ p, ¬ may (.removeDirAll p)) (hfill : Fills may c sure fill dirs files) (hlt : version < 2 ^ 64) (h : c.Sound t)
    (hrun : Exec (Faulty may) (publishFrom c fill version).run t tr (.ok ()) t') :
    Collected c version t t' := by
  refine ⟨?_, ?_, ?_⟩
  · obtain ⟨tr1, tr2, _, t1, -, hop, -⟩ := hrun.run_bind_ok
    obtain ⟨-, hw⟩ := hop.op_inv
    obtain ⟨q, hr, hnone, -⟩ := Faulty.createDir_ok hw
    rwa [t.resolve_single hr] at hnone
  · exact hrun.stops.keeps (I := GenStep c version t) (publishFrom_genStep hfill hlt h)
      (Elsewhere.refl _) (fun _ _ ha hab => ha.trans hab.2) (.refl _ _ _)
  rw [publishFrom_eq] at hrun
  obtain ⟨_, _, _, t1, -, hcreate, hrun⟩ := hrun.run_bind_ok
  obtain ⟨_, _, _, t2, -, hfilled, hrun⟩ := hrun.run_bind_ok
  obtain ⟨_, _, _, t3, -, hlinks, hrun⟩ := hrun.run_bind_ok
  obtain ⟨_, _, _, t4, -, hswap, hrun⟩ := hrun.run_bind_ok
  obtain ⟨_, _, _, t5, -, hsync, hrun⟩ := hrun.run_bind_ok
  have hstop : Stops (Faulty may) (publishFrom c fill version).run t t5 :=
    hcreate.run_bind_stops (hfilled.run_bind_stops (hlinks.run_bind_stops
      (hswap.run_bind_stops (hsync.run_bind_stops .here))))
  have hwf := hstop.keeps (I := WellFormed) (publishFrom_genStep hfill hlt h)
    (Elsewhere.refl _) (fun _ _ _ hab => hab.1.sound.wellFormed) h.wellFormed
  exact removeStaleVersions_done hwf hmay hrun

end

/-! ## 3. Whole runs -/

/-- The volumes that publishes leave, one after another, each however it has ended. -/
inductive Tried : VolTree → Prop where
  | fresh (mode : Nat) : Tried ⟨[([], .dir mode)], 0⟩
  | stop {p : Publication} {t t' : VolTree} : Tried t →
      Stops (Faulty fun _ => True) p.run.run t t' → Tried t'

namespace Chain

/-- Names with a number are written as a publish writes them. -/
def Numbered (c : Chain) (t : VolTree) : Prop :=
  ∀ name n, t.get [name] ≠ none → versionOf name c.pre = some n → name = versionName c.pre n

/-- No other entry has a higher number. -/
def Top (c : Chain) (t : VolTree) (d : String) : Prop :=
  ∀ name n m, t.get [name] ≠ none → versionOf name c.pre = some n → versionOf d c.pre = some m → n ≤ m

variable {c : Chain} {t : VolTree}

theorem Numbered.stable : Stable (Elsewhere c.Mine) c.Numbered := by
  intro a b hR h name n hne hname
  rw [get_version hR hname] at hne
  exact h name n hne hname

theorem Numbered.step {a b : VolTree} {n : Nat} {dirs : List Path} {files : List (Path × ByteArray)}
    (hlt : n < 2 ^ 64) (h : c.Numbered a) (hstep : c.Step (versionName c.pre n) dirs files a b) :
    c.Numbered b := by
  intro name m hne hname
  rcases hstep.versions name (by simp [IsVersion, hname]) hne with rfl | hold
  · rw [versionOf_versionName hlt] at hname
    rw [Option.some.inj hname]
  · exact h name m hold hname

end Chain

theorem Tried.inv {t : VolTree} (h : Tried t) : ∀ c ∈ chains, c.Sound t ∧ c.Numbered t := by
  induction h with
  | fresh mode =>
    intro c hc
    refine ⟨((Left.fresh mode).inv c hc).1, ?_⟩
    intro name n hne
    exact absurd (get_fresh (by simp)) hne
  | @stop p t t' _ hstop ih =>
    have hmem := p.chain_mem
    obtain ⟨hsound, hnumbered⟩ := ih p.chain hmem
    obtain ⟨n, hlt, -, hstep⟩ := p.stops hsound hstop
    intro c hc
    by_cases hpc : p.chain = c
    · subst hpc
      exact ⟨hstep.sound, hnumbered.step hlt hstep⟩
    · have hR := elsewhere_of_within hmem hc hpc hstep.within
      exact ⟨Chain.Sound.stable t t' hR (ih c hc).1, Chain.Numbered.stable t t' hR (ih c hc).2⟩

section

variable {c : Chain} {t t' : VolTree}

theorem isStale_iff {pre d : String} {version m : Nat} (hd : versionOf d pre = some m) :
    isStale pre version d = false ↔ m = version ∨ (m + 1) % 2 ^ 64 = version := by
  simp only [isStale, hd]
  rw [decide_eq_false_iff_not]
  omega

/-- A publish keeps the highest number before its own. -/
theorem isStale_iff_top {names : List String} {d : String} {m : Nat}
    (hnames : ∀ x, x ∈ names ↔ t.get [x] ≠ none) (hd : versionOf d c.pre = some m)
    (hpresent : t.get [d] ≠ none) (hne : m ≠ versionAfter names c.pre) :
    isStale c.pre (versionAfter names c.pre) d = false ↔ c.Top t d := by
  have hle := le_highest ((hnames d).mpr hpresent) hd
  have hlt := highest_lt_word names c.pre
  rw [isStale_iff hd]
  constructor
  · intro hkeep name n m' hname hn hm'
    obtain rfl : m = m' := Option.some.inj (hd.symm.trans hm')
    have hn := le_highest ((hnames name).mpr hname) hn
    have hkeep := hkeep.resolve_left hne
    rw [versionAfter_eq] at hkeep
    omega
  · intro htop
    have hmax : highest names c.pre < m + 1 := by
      refine highest_lt (by omega) fun name hname n hn => ?_
      have hle' := htop name n m ((hnames name).mp hname) hn hd
      omega
    right
    rw [versionAfter_eq]
    congr 2
    omega

/-- In every run of publishes, of which any may fail or stop at any step, a publish that succeeds and
    can list and collect leaves at most two generations of its chain; and it leaves the one that was on
    show as it was just when none had a higher number, so when none had been tried in vain since. -/
theorem publish_keeps_previous_iff (p : Publication) {may : FsOp ByteArray → Prop}
    (hlist : ¬ may (.readDir [])) (hremove : ∀ q, ¬ may (.removeDirAll q)) (hrun : Tried t)
    {tr : List (Event (FsSig ByteArray))} (hok : Exec (Faulty may) p.run.run t tr (.ok ()) t') :
    (∃ a b, ∀ d, p.chain.Generation t' d → d = a ∨ d = b) ∧
      ∀ d, t.get [p.chain.link] = some (.symlink [d]) →
        ((∀ rest, t'.get (d :: rest) = t.get (d :: rest)) ↔ p.chain.Top t d) := by
  obtain ⟨hsound, hnumbered⟩ := hrun.inv p.chain p.chain_mem
  have hnumbered' : p.chain.Numbered t' := by
    obtain ⟨n, hlt, -, hstep⟩ := p.stops hsound hok.stops
    exact hnumbered.step hlt hstep
  rcases p.run_cases with hp | ⟨-, e, hp⟩
  swap
  · rw [hp] at hok
    cases hok
  rw [hp, publishWith_eq] at hok
  obtain ⟨tr₁, tr₂, version, t₁, -, hnumber, hrest⟩ := hok.run_bind_ok
  obtain ⟨rfl, names, hnames, he⟩ := (nextVersion_watch hsound.wellFormed hlist).post hnumber
  obtain rfl := Except.ok.inj he
  have hfills : Fills may p.chain (p.Sure may t₁) p.fill p.dirs p.files := p.fills
  have hdone := publishFrom_done hremove hfills (versionAfter_lt _ _) hsound hrest
  generalize hversion : versionAfter names p.chain.pre = version at hdone
  have hlt : version < 2 ^ 64 := hversion ▸ versionAfter_lt _ _
  refine ⟨⟨versionName p.chain.pre version,
    versionName p.chain.pre ((version + (2 ^ 64 - 1)) % 2 ^ 64), ?_⟩, ?_⟩
  · intro d ⟨hver, hdir⟩
    obtain ⟨m, hm⟩ := Option.isSome_iff_exists.mp hver
    have hpresent : t'.get [d] ≠ none := by
      obtain ⟨mode, hdir⟩ := hdir
      simp [hdir]
    have hmlt := versionOf_lt hm
    obtain rfl := hnumbered' d m hpresent hm
    rcases (isStale_iff hm).mp (hdone.stale _ hdir) with he | he
    · exact .inl (he ▸ rfl)
    · refine .inr (congrArg _ ?_)
      omega
  · intro d hlink
    obtain ⟨d', hd', hver, mode, hdir⟩ := hsound.link _ hlink
    obtain rfl : d = d' := by simpa using hd'
    obtain ⟨m, hm⟩ := Option.isSome_iff_exists.mp hver
    have hpresent : t₁.get [d] ≠ none := by simp [hdir]
    have hname := hnumbered d m hpresent hm
    have hne : d ≠ versionName p.chain.pre version := by
      intro he
      exact hpresent (he ▸ hdone.free)
    have hmne : m ≠ version := fun he => hne (he ▸ hname)
    rw [← isStale_iff_top hnames hm hpresent (hversion ▸ hmne), hversion]
    constructor
    · intro hsame
      exact hdone.stale d ⟨mode, (hsame []).trans hdir⟩
    · intro hkept rest
      rcases hdone.others d hver hne rest with hsame | ⟨hstale, -⟩
      · exact hsame
      · rw [hkept] at hstale
        cases hstale

end

/-- Two publishes, of which none fails. -/
def afterNext : VolTree := (nextIdentity.run.run.play (fun op t => t.exec op) afterFirst).2.2

/-- The same, with a publish between them that has failed. -/
def afterRetry : VolTree := (nextIdentity.run.run.play (fun op t => t.exec op) afterFull).2.2

theorem afterFirst_tried : Tried afterFirst :=
  .stop (.fresh 0o755) (Prog.play_exec (fun op t => .inl (exact_answers op t)) _ _).stops

/-- The second of two publishes keeps the generation of the first. -/
theorem publish_keeps_previous_iff_next :
    (∃ a b, ∀ d, identityChain.Generation afterNext d → d = a ∨ d = b) ∧
      ∀ d, afterFirst.get [dataLink] = some (.symlink [d]) →
        ((∀ rest, afterNext.get (d :: rest) = afterFirst.get (d :: rest)) ↔
          identityChain.Top afterFirst d) := by
  have hok : (nextIdentity.run.run.play (fun op t => t.exec op) afterFirst).2.1 = .ok () := by
    decide
  have hrun := Prog.play_exec (W := Faulty fun _ => False) (fun op t => .inl (exact_answers op t))
    nextIdentity.run.run afterFirst
  rw [hok] at hrun
  exact publish_keeps_previous_iff nextIdentity id (fun _ => id) afterFirst_tried hrun

/-- A publish, one that fails for want of room, and one that succeeds: the generation of the first was
    on show until then, and is gone. -/
theorem failed_publish_loses_previous :
    Tried afterFull ∧ afterFull.get [dataLink] = some (.symlink ["..svidlet.1"]) ∧
      afterFull.IsDir ["..svidlet.1"] ∧
      (∃ tr, Exec Exact nextIdentity.run.run afterFull tr (.ok ()) afterRetry) ∧
      afterRetry.get ["..svidlet.1"] = none := by
  have hok : (nextIdentity.run.run.play (fun op t => t.exec op) afterFull).2.1 = .ok () := by
    decide
  have hrun := Prog.play_exec exact_answers nextIdentity.run.run afterFull
  rw [hok] at hrun
  refine ⟨afterFirst_tried.stop (Prog.play_exec noRoom_faulty _ _).stops, by decide,
    ⟨0o755, by decide⟩, ⟨_, hrun⟩, by decide⟩

/-! ## 5. The last number

The group that reads the policy may write into the volume, and the numbers are read off the names there. -/

end Svidlet.Volume
