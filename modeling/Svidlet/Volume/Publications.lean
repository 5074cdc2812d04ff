import Svidlet.Policy.Unpack
import Svidlet.Volume.Swap

/-!
# What the three publishes publish

`Volume/Swap` takes the filling of a generation as a parameter. Here are the three ways the source
fills one, each with the directories and the files it leaves, and the number a publish picks.
`Publication` is a call of one of the three with its content, and `Publication.sat` is the
specification of all of them at once.

Of a policy document it is a part of the type that its name is a plain path; that every bundle that
comes to a publish is of this kind is proved where bundles are made. A map of tokens has each
alias once.
-/

namespace Svidlet.Volume

open Lib Lib.FileTree Policy

/-! ## 1. The three ways to fill a generation -/

section

variable {may : FsOp ByteArray → Prop} {mine : Path → Prop} {sure : Prop} {base rest : Path}
  {dirs : List Path} {files : List (Path × ByteArray)} {t : VolTree}
  (hmine : ∀ q, base <+: q → mine q) (hsure : sure → ∀ op, ¬ may op)

variable (rest) in
include hmine hsure in
theorem writeFile_sat {contents : ByteArray} {mode : Nat} (h : Built t base dirs files)
    (hplace : sure → Writable dirs base rest) :
    Sat (Faulty may) (Elsewhere mine) (Within (base <+: ·))
      (fun r t' => Ends sure r fun _ => Built t' base dirs ((rest, contents) :: files))
      (writeFile (base ++ rest) contents mode).run t := by
  have hrefl := Elsewhere.refl (C := ByteArray) mine
  unfold writeFile
  refine .ends_bind hrefl (openTruncate_sat _ hmine hsure h hplace) ?_
  intro ino t1 h1
  refine .ends_bind hrefl (writeAll_sat hmine hsure h1) ?_
  intro _ t2 h2
  refine .ends_bind hrefl (syncAll_sat hmine hsure h2) ?_
  intro _ t3 h3
  refine setPermissions_sat _ hmine hsure h3 ?_
  intro hs
  exact ⟨.inr (by simp [contentOf]), (hplace hs).length⟩

variable (rest) in
include hmine hsure in
theorem chgrpKey_sat {gid : Option Nat} (h : Built t base dirs files)
    (hthere : sure → Stands dirs files rest ∧ (base ++ rest).length ≤ walkLimit) :
    Sat (Faulty may) (Elsewhere mine) (Within (base <+: ·))
      (fun r t' => Ends sure r fun _ => Built t' base dirs files)
      (chgrpKey (base ++ rest) gid).run t := by
  cases gid with
  | none => exact .of_pure (ends_stable (fun _ => built_stable hmine) _) (.ok h)
  | some gid => exact chgrp_sat _ hmine hsure h hthere

end

section

variable {may : FsOp ByteArray → Prop} {c : Chain} {sure : Prop} (hsure : sure → ∀ op, ¬ may op)

def identityFiles (identity : Identity) : List (Path × ByteArray) :=
  [([caFile], identity.caPem.toUTF8), ([certFile], identity.certChainPem.toUTF8),
    ([keyFile], identity.keyPem.toUTF8)]

include hsure in
theorem fillVersion_fills (identity : Identity) (modes : Modes) :
    Fills may c sure (fillVersion · identity modes) [[]] (identityFiles identity) := by
  intro v t hv h
  have hmine := Chain.mine_under hv
  have hrefl := Elsewhere.refl (C := ByteArray) c.Mine
  have hplace : ∀ f : String, sure → Writable [[]] [v] [f] := by
    intro f _
    exact ⟨by simp [InDirs], by simp, by simp [walkLimit], by simp [InDirs]⟩
  unfold fillVersion
  refine .ends_bind hrefl (setPermissions_sat [] hmine hsure h
    fun _ => ⟨.inl (by simp [InDirs]), by simp [walkLimit]⟩) ?_
  intro _ t1 h1
  refine .ends_bind hrefl (writeFile_sat _ hmine hsure h1 (hplace keyFile)) ?_
  intro _ t2 h2
  refine .ends_bind hrefl (chgrpKey_sat [keyFile] hmine hsure h2
    fun _ => ⟨.inr (by simp [contentOf]), by simp [walkLimit]⟩) ?_
  intro _ t3 h3
  refine .ends_bind hrefl (writeFile_sat _ hmine hsure h3 (hplace certFile)) ?_
  intro _ t4 h4
  refine .ends_bind hrefl (writeFile_sat _ hmine hsure h4 (hplace caFile)) ?_
  intro _ t5 h5
  exact fsyncDir_sat [] hmine hsure h5
    fun _ => ⟨.inl (by simp [InDirs]), by simp [walkLimit]⟩

/-- Where a document stands in its generation. -/
def documentPath (document : PolicyDocument) : Path := policyDir :: segments document.name

def documentFile (document : PolicyDocument) : Path × ByteArray :=
  (documentPath document, ⟨document.content.toArray⟩)

/-- A plain name stays below the path it is joined to. -/
theorem join_plain {dir : Path} {name : String} (h : PlainPath name) :
    join dir name = dir ++ segments name := by
  unfold join
  split
  · rename_i hslash
    -- the first segment of such a name would be empty
    obtain ⟨rest, hrest⟩ := List.isPrefixOf_iff_prefix.mp hslash
    have hempty : [] ∈ splitChar '/' name.toList := by
      rw [← hrest, show "/".toList ++ rest = [] ++ '/' :: rest from rfl,
        splitChar_append List.not_mem_nil]
      exact .head _
    exact absurd rfl (h [] hempty).1
  · rfl

/-- Where the documents can go: no path of one leads through another. -/
def Placed (v : String) (dirs : List Path) (files : List (Path × ByteArray))
    (documents : List PolicyDocument) : Prop :=
  ∀ d ∈ documents, ([v] ++ documentPath d).length ≤ walkLimit ∧
    (∀ r, r <+: documentPath d → contentOf files r = none) ∧ ¬ InDirs dirs (documentPath d)

/-- No document is where another one needs a directory. -/
def Unnested (documents : List PolicyDocument) : Prop := documents.Pairwise fun a b =>
    ¬ documentPath a <+: documentPath b ∧ ¬ documentPath b <+: documentPath a

variable {v : String} {mode : Nat} {files : List (Path × ByteArray)} {t : VolTree}

include hsure in
theorem writeDocuments_sat (hv : c.IsVersion v) (documents : List PolicyDocument)
    (hplain : ∀ d ∈ documents, PlainPath d.name) {dirs : List Path} (h : Built t [v] dirs files)
    (hroom : sure → Placed v dirs files documents ∧ Unnested documents) :
    Sat (Faulty may) (Elsewhere c.Mine) (Within ([v] <+: ·))
      (fun r t' => Ends sure r fun _ => Built t' [v]
        ((documents.map fun d => (documentPath d).dropLast).reverse ++ dirs)
        ((documents.map documentFile).reverse ++ files))
      (writeDocuments [v, policyDir] mode documents).run t := by
  have hmine := Chain.mine_under hv
  induction documents generalizing t dirs files with
  | nil => exact .of_pure (ends_stable (fun _ => built_stable hmine) _) (.ok h)
  | cons d documents ih =>
    have hjoin : join [v, policyDir] d.name = [v] ++ documentPath d :=
      join_plain (hplain d (.head _))
    have hparent : (join [v, policyDir] d.name).dropLast = [v] ++ (documentPath d).dropLast := by
      rw [hjoin, List.dropLast_append_of_ne_nil (by simp [documentPath])]
    unfold writeDocuments
    rw [hparent, hjoin]
    refine .ends_bind (Elsewhere.refl _) (createDirAll_sat _ hmine hsure h ?_) ?_
    · intro hs
      obtain ⟨hlen, hfree, -⟩ := (hroom hs).1 d (.head _)
      refine ⟨?_, fun r hr => hfree r (hr.trans (List.dropLast_prefix _))⟩
      simp only [List.length_append, List.length_dropLast] at hlen ⊢
      omega
    intro _ t1 h1
    refine .ends_bind (Elsewhere.refl _) (writeFile_sat _ hmine hsure h1 ?_) ?_
    · intro hs
      obtain ⟨hlen, -, hdir⟩ := (hroom hs).1 d (.head _)
      refine ⟨⟨_, .head _, List.prefix_refl _⟩, by simp [documentPath], hlen, ?_⟩
      rw [inDirs_cons]
      rintro (hpre | hin)
      · have hle := hpre.length_le
        simp only [documentPath, List.length_dropLast, List.length_cons] at hle
        omega
      · exact hdir hin
    intro _ t2 h2
    have hrest := ih (fun d' hd' => hplain d' (.tail _ hd')) h2 ?_
    · simpa [documentFile] using hrest
    intro hs
    obtain ⟨hplaced, hunnested⟩ := hroom hs
    obtain ⟨hfirst, hothers⟩ := List.pairwise_cons.mp hunnested
    refine ⟨fun d' hd' => ?_, hothers⟩
    obtain ⟨hlen, hfree, hdir⟩ := hplaced d' (.tail _ hd')
    obtain ⟨hno, hno'⟩ := hfirst d' hd'
    refine ⟨hlen, ?_, ?_⟩
    · intro r hr
      have hne : documentPath d ≠ r := fun he => hno (he ▸ hr)
      simp [contentOf, hne, hfree r hr]
    rw [inDirs_cons]
    rintro (hpre | hin)
    · exact hno' (hpre.trans (List.dropLast_prefix _))
    · exact hdir hin

def policyDirs (bundle : PolicyBundle) : List Path :=
  (bundle.documents.map fun d => (documentPath d).dropLast).reverse ++ [[policyDir], []]

def policyFiles (bundle : PolicyBundle) : List (Path × ByteArray) :=
  ([revisionFile], (bundle.revision ++ "\n").toUTF8) :: (bundle.documents.map documentFile).reverse

/-- A bundle whose documents can all be files: none is a directory of another, no path is too
    long, and no name has a NUL, with which no path can be passed to the kernel. -/
structure Fits (bundle : PolicyBundle) : Prop where
  unnested : Unnested bundle.documents
  length : ∀ d ∈ bundle.documents, (documentPath d).length < walkLimit
  noNul : ∀ d ∈ bundle.documents, '\x00' ∉ d.name.toList

include hsure in
theorem fillPolicy_fills {bundle : PolicyBundle}
    (hplain : ∀ d ∈ bundle.documents, PlainPath d.name) (hfits : sure → Fits bundle) :
    Fills may c sure (fillPolicy · bundle mode) (policyDirs bundle) (policyFiles bundle) := by
  intro v t hv h
  have hmine := Chain.mine_under hv
  have hrefl := Elsewhere.refl (C := ByteArray) c.Mine
  unfold fillPolicy
  refine .ends_bind hrefl (setPermissions_sat [] hmine hsure h
    fun _ => ⟨.inl (by simp [InDirs]), by simp [walkLimit]⟩) ?_
  intro _ t1 h1
  refine .ends_bind hrefl (createDir_sat [policyDir] hmine hsure h1
    fun _ => ⟨by simp [InDirs], by simp, by simp [walkLimit], rfl, by simp [InDirs]⟩) ?_
  intro _ t2 h2
  refine .ends_bind hrefl (setPermissions_sat [policyDir] hmine hsure h2
    fun _ => ⟨.inl (by simp [InDirs]), by simp [walkLimit]⟩) ?_
  intro _ t3 h3
  refine .ends_bind hrefl (writeDocuments_sat hsure hv bundle.documents hplain h3 ?_) ?_
  · intro hs
    refine ⟨fun d hd => ⟨?_, fun _ _ => rfl, ?_⟩, (hfits hs).unnested⟩
    · have hlen := (hfits hs).length d hd
      simp only [List.length_append, List.length_singleton]
      omega
    · simp [InDirs, documentPath, segments_ne_nil]
  intro _ t4 h4
  rw [List.append_nil] at h4
  refine .ends_bind hrefl (writeFile_sat [revisionFile] hmine hsure h4 ?_) ?_
  · intro _
    refine ⟨⟨[], by simp, by simp⟩, by simp, by simp [walkLimit], ?_⟩
    -- every directory of the generation is `policy` or below it
    rintro ⟨d, hd, hpre⟩
    have hd : d = [] ∨ ∃ rest, d = policyDir :: rest := by
      rcases List.mem_append.mp hd with hd | hd
      · obtain ⟨doc, -, rfl⟩ := List.mem_map.mp (List.mem_reverse.mp hd)
        refine .inr ⟨(segments doc.name).dropLast, ?_⟩
        exact List.dropLast_cons_of_ne_nil (segments_ne_nil doc.name)
      · rcases List.mem_cons.mp hd with rfl | hd
        · exact .inr ⟨[], rfl⟩
        · exact .inl (by simpa using hd)
    rcases hd with rfl | ⟨rest, rfl⟩
    · simp at hpre
    · exact absurd (List.cons_prefix_cons.mp hpre).1 (by decide)
  intro _ t5 h5
  exact fsyncDir_sat [] hmine hsure h5
    fun _ => ⟨.inl ⟨[], by simp [policyDirs], by simp⟩, by simp [walkLimit]⟩

def tokenFile (entry : String × String) : Path × ByteArray := ([jwtDir, entry.1], entry.2.toUTF8)

include hsure in
theorem writeTokens_sat {modes : Modes} (hv : c.IsVersion v) (tokens : List (String × String))
    (h : Built t [v] [[jwtDir], []] files) :
    Sat (Faulty may) (Elsewhere c.Mine) (Within ([v] <+: ·)) (fun r t' => Ends sure r fun _ =>
        Built t' [v] [[jwtDir], []] ((tokens.map tokenFile).reverse ++ files))
      (writeTokens [v, jwtDir] modes tokens).run t := by
  have hmine := Chain.mine_under hv
  have hrefl := Elsewhere.refl (C := ByteArray) c.Mine
  induction tokens generalizing t files with
  | nil => exact .of_pure (ends_stable (fun _ => built_stable hmine) _) (.ok h)
  | cons entry tokens ih =>
    obtain ⟨name, token⟩ := entry
    unfold writeTokens
    refine .ends_bind hrefl (writeFile_sat [jwtDir, name] hmine hsure h fun _ =>
      ⟨by simp [InDirs], by simp, by simp [walkLimit], by simp [InDirs]⟩) ?_
    intro _ t1 h1
    refine .ends_bind hrefl (chgrpKey_sat [jwtDir, name] hmine hsure h1
      fun _ => ⟨.inr (by simp [contentOf]), by simp [walkLimit]⟩) ?_
    intro _ t2 h2
    simpa [tokenFile] using ih h2

def tokenFiles (tokens : List (String × String)) : List (Path × ByteArray) :=
  (tokens.map tokenFile).reverse

include hsure in
theorem fillTokens_fills (tokens : List (String × String)) (modes : Modes) :
    Fills may c sure (fillTokens · tokens modes) [[jwtDir], []] (tokenFiles tokens) := by
  intro v t hv h
  have hmine := Chain.mine_under hv
  have hrefl := Elsewhere.refl (C := ByteArray) c.Mine
  unfold fillTokens
  refine .ends_bind hrefl (setPermissions_sat [] hmine hsure h
    fun _ => ⟨.inl (by simp [InDirs]), by simp [walkLimit]⟩) ?_
  intro _ t1 h1
  refine .ends_bind hrefl (createDir_sat [jwtDir] hmine hsure h1
    fun _ => ⟨by simp [InDirs], by simp, by simp [walkLimit], rfl, by simp [InDirs]⟩) ?_
  intro _ t2 h2
  refine .ends_bind hrefl (setPermissions_sat [jwtDir] hmine hsure h2
    fun _ => ⟨.inl (by simp [InDirs]), by simp [walkLimit]⟩) ?_
  intro _ t3 h3
  refine .ends_bind hrefl (writeTokens_sat hsure hv tokens h3) ?_
  intro _ t4 h4
  rw [List.append_nil] at h4
  refine .ends_bind hrefl (fsyncDir_sat [jwtDir] hmine hsure h4
    fun _ => ⟨.inl (by simp [InDirs]), by simp [walkLimit]⟩) ?_
  intro _ t5 h5
  exact fsyncDir_sat [] hmine hsure h5
    fun _ => ⟨.inl (by simp [InDirs]), by simp [walkLimit]⟩

end

/-! ## 2. The number of a generation -/

namespace Chain

/-- No generation has the number 0. A count that has wrapped around picks it. -/
def Positive (c : Chain) (t : VolTree) : Prop :=
  ∀ name, t.get [name] ≠ none → versionOf name c.pre ≠ some 0

/-- No generation has the last number there is. -/
def Below (c : Chain) (t : VolTree) : Prop :=
  ∀ name n, t.get [name] ≠ none → versionOf name c.pre = some n → n < 2 ^ 64 - 1

variable {c : Chain} {t : VolTree}

theorem get_version {a b : VolTree} (hR : Elsewhere c.Mine a b) {name : String} {n : Nat}
    (h : versionOf name c.pre = some n) : b.get [name] = a.get [name] :=
  hR.2 _ (mine_version (by rw [IsVersion, h]; rfl) [])

theorem Positive.stable : Stable (Elsewhere c.Mine) c.Positive := by
  intro a b hR h name hne hzero
  rw [get_version hR hzero] at hne
  exact h name hne hzero

end Chain

variable {xs : List Nat}

theorem le_foldl_max {x : Nat} (m : Nat) (h : x ∈ xs ∨ x ≤ m) :
    x ≤ xs.foldl max m := by
  induction xs generalizing m with
  | nil => simpa using h
  | cons y xs ih =>
    refine ih (max m y) ?_
    rcases h with h | h
    · rcases List.mem_cons.mp h with rfl | h
      · exact .inr (Nat.le_max_right m x)
      · exact .inl h
    · exact .inr (h.trans (Nat.le_max_left m y))

variable {bound : Nat}

theorem foldl_max_lt (m : Nat) (hm : m < bound) (h : ∀ x ∈ xs, x < bound) :
    xs.foldl max m < bound := by
  induction xs generalizing m with
  | nil => exact hm
  | cons y xs ih =>
    have hy := h y (.head _)
    exact ih (max m y) (by omega) fun x hx => h x (.tail _ hx)

variable {name pre : String}

theorem versionOf_lt {n : Nat} (h : versionOf name pre = some n) : n < 2 ^ 64 := by
  obtain ⟨rest, -, hparse⟩ := Option.bind_eq_some_iff.mp h
  exact parseU64_lt hparse

/-- The highest version among the names of a directory, or 0. -/
def highest (names : List String) (pre : String) : Nat :=
  (names.filterMap (versionOf · pre)).foldl max 0

theorem versionAfter_eq (names : List String) (pre : String) :
    versionAfter names pre = (highest names pre + 1) % 2 ^ 64 := rfl

variable {names : List String}

theorem le_highest {n : Nat} (hmem : name ∈ names) (h : versionOf name pre = some n) :
    n ≤ highest names pre :=
  le_foldl_max 0 (.inl (List.mem_filterMap.mpr ⟨name, hmem, h⟩))

theorem highest_lt (hpos : 0 < bound)
    (h : ∀ name ∈ names, ∀ n, versionOf name pre = some n → n < bound) :
    highest names pre < bound := by
  refine foldl_max_lt 0 hpos fun n hn => ?_
  obtain ⟨name, hmem, hname⟩ := List.mem_filterMap.mp hn
  exact h name hmem n hname

theorem highest_lt_word (names : List String) (pre : String) : highest names pre < 2 ^ 64 :=
  highest_lt (by decide) fun _ _ _ => versionOf_lt

section

variable {c : Chain} {t : VolTree} {names : List String}

/-- The number after the highest is free; if there is none after it, then 0 is. -/
theorem versionAfter_free (hnames : ∀ x, x ∈ names ↔ t.get [x] ≠ none) (h : c.Positive t) :
    t.get [versionName c.pre (versionAfter names c.pre)] = none := by
  by_contra hne
  have hver : versionOf (versionName c.pre (versionAfter names c.pre)) c.pre
      = some (versionAfter names c.pre) := versionOf_versionName (versionAfter_lt names c.pre)
  have hpos := h _ hne
  rw [hver] at hpos
  have hpos : versionAfter names c.pre ≠ 0 := fun h0 => hpos (congrArg some h0)
  have hle := le_highest ((hnames _).mpr hne) hver
  have hlt := highest_lt_word names c.pre
  rw [versionAfter_eq] at hpos hle
  omega

theorem versionAfter_pos (hnames : ∀ x ∈ names, t.get [x] ≠ none) (h : c.Below t) :
    versionAfter names c.pre ≠ 0 := by
  have hlt : highest names c.pre < 2 ^ 64 - 1 :=
    highest_lt (by decide) fun name hmem n => h name n (hnames name hmem)
  rw [versionAfter_eq]
  omega

variable {may : FsOp ByteArray → Prop}

/-- The names of a listing are the names there are. -/
theorem readDir_root {t' : VolTree} (hwf : t.WellFormed)
    (hw : Faulty may (.readDir []) t (.ok names) t') : ∀ x, x ∈ names ↔ t.get [x] ≠ none := by
  obtain ⟨-, hmem⟩ := hw.readDir_ok (by
    intro a ha dest hlink
    obtain rfl := List.prefix_nil.mp ha
    obtain ⟨mode, hroot⟩ := hwf.root
    rw [hroot] at hlink
    cases hlink)
  intro x
  rw [← hmem.mem_iff, t.mem_names, List.nil_append, Option.isSome_iff_ne_none]

/-- What is known of the number a publish has picked. -/
structure Picked (c : Chain) (sure : Prop) (n : Nat) (t : VolTree) : Prop where
  lt : n < 2 ^ 64
  sound : c.Sound t
  pos : c.Below t → n ≠ 0
  free : sure → t.get [versionName c.pre n] = none

theorem Picked.stable {sure : Prop} {n : Nat} : Stable (Elsewhere c.Mine) (Picked c sure n) := by
  intro a b hR h
  refine ⟨h.lt, Chain.Sound.stable a b hR h.sound, ?_, ?_⟩
  · intro hbelow
    refine h.pos fun name m hne hname => hbelow name m ?_ hname
    rw [Chain.get_version hR hname]
    exact hne
  · intro hs
    rw [Chain.get_version hR (versionOf_versionName h.lt)]
    exact h.free hs

theorem nextVersion_sat (sure : Prop) (hsure : sure → ∀ op, ¬ may op) (h : c.Sound t)
    (hpos : sure → c.Positive t) :
    Sat (Faulty may) (Elsewhere c.Mine) (fun a b => c.Sound a ∧ b = a)
      (fun r t' => Ends sure r fun n => Picked c sure n t') (nextVersion c.pre).run t := by
  have hstable : Stable (Elsewhere c.Mine) fun a => c.Sound a ∧ (sure → c.Positive a) :=
    Chain.Sound.stable.and fun a b hR ha hs => Chain.Positive.stable a b hR (ha hs)
  have hone : ∀ a, c.Sound a → ¬ sure → Picked c sure (versionAfter [] c.pre) a := fun a ha hs =>
    ⟨versionAfter_lt _ _, ha, fun hb => versionAfter_pos (t := a) (by simp) hb,
      fun h => absurd h hs⟩
  unfold nextVersion
  refine .lift_bind (Elsewhere.refl _) (P := fun r a =>
    Picked c sure (versionAfter (r.toOption.getD []) c.pre) a) ?_ ?_
  · refine .of_op hstable ?_ ⟨h, hpos⟩ ?_
    · exact fun r => Picked.stable
    rintro t1 ans t2 ⟨h1, hpos1⟩ hw
    obtain rfl := Faulty.readDir_same hw
    refine ⟨⟨h1, rfl⟩, ?_⟩
    cases ans with
    | error e =>
      refine hone _ h1 fun hs => ?_
      obtain ⟨mode, hroot⟩ := h1.wellFormed.root
      have hans := (hw.exact hsure hs).1
      simp only [exec, act, resolve_root h1.wellFormed, hroot] at hans
      cases hans
    | ok names =>
      have hmem := readDir_root h1.wellFormed hw
      exact ⟨versionAfter_lt _ _, h1, fun hb => versionAfter_pos (fun x hx => (hmem x).mp hx) hb,
        fun hs => versionAfter_free hmem (hpos1 hs)⟩
  · intro r t1 hr
    cases r with
    | ok names => exact .of_pure (ends_stable (fun _ => Picked.stable) _) (.ok hr)
    | error e => exact .of_pure (ends_stable (fun _ => Picked.stable) _) (.ok hr)

end

/-! ## 3. Publications -/

/-- A call of one of the three functions, with what it publishes. -/
inductive Publication where
  | identity (content : Identity) (modes : Modes)
  | policy (bundle : PolicyBundle) (plain : ∀ d ∈ bundle.documents, PlainPath d.name) (mode : Nat)
  | tokens (entries : List (String × String)) (once : (entries.map Prod.fst).Nodup) (modes : Modes)
  deriving DecidableEq

namespace Publication

def chain : Publication → Chain
  | .identity _ _ => identityChain
  | .policy _ _ _ => policyChain
  | .tokens _ _ _ => tokenChain

def run : Publication → Vol Unit
  | .identity content modes => publishIdentity content modes
  | .policy bundle _ mode => publishPolicy bundle mode
  | .tokens entries _ modes => publishTokens entries modes

def fill : Publication → String → Vol Unit
  | .identity content modes, dir => fillVersion dir content modes
  | .policy bundle _ mode, dir => fillPolicy dir bundle mode
  | .tokens entries _ modes, dir => fillTokens dir entries modes

/-- The directories of the generation it makes. -/
def dirs : Publication → List Path
  | .identity _ _ => [[]]
  | .policy bundle _ _ => policyDirs bundle
  | .tokens _ _ _ => [[jwtDir], []]

/-- The files of the generation it makes. -/
def files : Publication → List (Path × ByteArray)
  | .identity content _ => identityFiles content
  | .policy bundle _ _ => policyFiles bundle
  | .tokens entries _ _ => tokenFiles entries

/-- Content that can be published. -/
def Valid : Publication → Prop
  | .identity _ _ => True
  | .policy bundle _ _ => Fits bundle
  | .tokens entries _ _ => ∀ entry ∈ entries, notAlias entry.1 = false ∧ '\x00' ∉ entry.1.toList

/-- A publish goes through the steps of its chain, or its aliases are refused before the first. -/
theorem run_cases (p : Publication) :
    p.run = publishWith p.chain p.fill ∨ ¬ p.Valid ∧ ∃ e, p.run = throw e := by
  cases p with
  | identity content modes => exact .inl rfl
  | policy bundle plain mode => exact .inl rfl
  | tokens entries once modes =>
    show publishTokens entries modes = _ ∨ _ ∧ ∃ e, publishTokens entries modes = _
    unfold publishTokens
    cases hfind : (entries.map Prod.fst).find? notAlias with
    | none => exact .inl rfl
    | some name =>
      refine .inr ⟨?_, _, rfl⟩
      intro hvalid
      obtain ⟨entry, hentry, rfl⟩ := List.mem_map.mp (List.mem_of_find?_eq_some hfind)
      have hbad := List.find?_some hfind
      rw [(hvalid entry hentry).1] at hbad
      cases hbad

/-- A publish is sure to succeed: no call fails from outside, its content can be published, and
    there is a number left for it. -/
structure Sure (p : Publication) (may : FsOp ByteArray → Prop) (t : VolTree) : Prop where
  exact : ∀ op, ¬ may op
  valid : p.Valid
  room : p.chain.Positive t

variable {may : FsOp ByteArray → Prop} {t t' : VolTree}

theorem fills (p : Publication) : Fills may p.chain (p.Sure may t) p.fill p.dirs p.files := by
  have hsure : p.Sure may t → ∀ op, ¬ may op := fun hs => hs.exact
  cases p with
  | identity content modes => exact fillVersion_fills hsure content modes
  | policy bundle plain mode => exact fillPolicy_fills hsure plain fun hs => hs.valid
  | tokens entries once modes => exact fillTokens_fills hsure entries modes

/-- What a call of the publish does. -/
def Step (p : Publication) (a b : VolTree) : Prop := ∃ v, p.chain.Step v p.dirs p.files a b

/-- What the publish has put on show. -/
def IsShown (p : Publication) (t : VolTree) : Prop := ∃ v, Shown p.chain v p.dirs p.files t

theorem isShown_stable (p : Publication) : Stable (Elsewhere p.chain.Mine) p.IsShown := by
  intro a b hR h
  obtain ⟨v, h⟩ := h
  exact ⟨v, Shown.stable a b hR h⟩

theorem sat (p : Publication) (h : p.chain.Sound t) :
    Sat (Faulty may) (Elsewhere p.chain.Mine) p.Step
      (fun r t' => Ends (p.Sure may t) r fun _ => p.IsShown t') p.run.run t := by
  rcases p.run_cases with hrun | ⟨hinvalid, e, hrun⟩
  · rw [hrun, publishWith_eq]
    have hnumber := nextVersion_sat (p.Sure may t) (fun hs => hs.exact) h fun hs => hs.room
    refine .ends_bind (Elsewhere.refl _) (Sat.weaken (fun _ _ hR => hR) ?_ hnumber) ?_
    · intro a b hstep
      obtain ⟨ha, rfl⟩ := hstep
      exact ⟨"", .refl ha⟩
    intro n t1 hn
    have hrest := publishFrom_sat (fun hs => hs.exact) p.fills hn.lt hn.sound hn.free
    refine .mono ?_ (Sat.weaken (fun _ _ hR => hR) (fun _ _ hstep => ⟨_, hstep⟩) hrest)
    intro r t' hends
    exact hends.mono fun _ hshown => ⟨_, hshown⟩
  · rw [hrun]
    exact .of_pure (ends_stable (fun _ => p.isShown_stable) _)
      (.error fun hs => hinvalid hs.valid)

/-- Wherever a publish stops, what it has done so far is as one step to the generation it makes. -/
theorem stops (p : Publication) (h : p.chain.Sound t) (hstop : Stops (Faulty may) p.run.run t t') :
    ∃ n, n < 2 ^ 64 ∧ (p.chain.Below t → n ≠ 0) ∧
      p.chain.Step (versionName p.chain.pre n) p.dirs p.files t t' := by
  have hnothing : ∃ n, n < 2 ^ 64 ∧ (p.chain.Below t → n ≠ 0) ∧
      p.chain.Step (versionName p.chain.pre n) p.dirs p.files t t :=
    ⟨1, by decide, fun _ => by decide, .refl h⟩
  rcases p.run_cases with hrun | ⟨-, e, hrun⟩
  · rw [hrun, publishWith_eq, ExceptT.run_bind] at hstop
    have hnumber := nextVersion_sat (p.Sure may t) (fun hs => hs.exact) h fun hs => hs.room
    have hsame : ∀ b, Stops (Faulty may) (nextVersion p.chain.pre).run t b → b = t := fun b hb =>
      hb.keeps (I := fun s => s = t) hnumber (Elsewhere.refl _)
        (fun _ _ ha hab => hab.2.trans ha) rfl
    rcases hstop.bind_inv with hin | ⟨tr, r, t1, hexec, hrest⟩
    · rw [hsame t' hin]
      exact hnothing
    obtain rfl := hsame t1 hexec.stops
    have hends := hnumber.post (Elsewhere.refl _) hexec
    cases r with
    | error e =>
      cases hrest
      exact hnothing
    | ok n =>
      have hn := hends.1 n rfl
      refine ⟨n, hn.lt, hn.pos, ?_⟩
      exact hrest.keeps (publishFrom_sat (fun hs => hs.exact) p.fills hn.lt hn.sound hn.free)
        (Elsewhere.refl _) (fun _ _ ha hab => ha.trans hab) (.refl h)
  · rw [hrun] at hstop
    cases hstop
    exact hnothing

end Publication

end Svidlet.Volume
