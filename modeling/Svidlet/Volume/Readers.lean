import Svidlet.Lib.Pool
import Svidlet.Volume.Generations
import Svidlet.Volume.Reading

/-!
# Reading while others publish

`read_identity` resolves `..data` once and then reads three files of that generation, and between any two
of these calls a publish may do anything it does. The three files are still of one publish, or the read
fails: the generation is never written to again once it has been on show, because its number does not come
back.

> **Where a generation comes from** (`Chain.Traced`): what is left of it is what one publish has filled in,
> and the number of the generation on show is not before its own.
>
> **Why the number does not come back** (`Due`): a publish picks a number after that of the generation on
> show, and what is on show moves on to that number only.
>
> **So** every step of a publish keeps what is known of where generations come from, and this is what the
> reader relies on (`read_is_one_publish`).

Numbers are used in the order `1, 2, …, 2 ^ 64 - 1, 0`; after the wrap the directory `0` is there and every
further publish fails to make it. Any call may fail from outside but one: a publish takes a listing that
fails for an empty one, and so would start over with the number 1.
-/

namespace Svidlet.Volume

open Lib Lib.FileTree

/-! ## 1. The order of the numbers -/

/-- The place of a number in the order of their use. -/
def rank (n : Nat) : Nat := if n = 0 then 2 ^ 64 else n

/-- The highest number that a file name can have. -/
def lastVersion : Nat := 2 ^ 64 - 1

namespace Chain

/-- The number after the last is not used without the last. -/
def Wrapped (c : Chain) (t : VolTree) : Prop :=
  t.get [versionName c.pre 0] ≠ none → t.get [versionName c.pre lastVersion] ≠ none

/-- What is left of the generation is what a publish of these files has put there, and the number on show
    is not before its own. -/
structure Traced (c : Chain) (d : String) (files : List (Path × ByteArray)) (t : VolTree) : Prop where
  noLinks : ∀ rest dest, t.get (d :: rest) ≠ some (.symlink dest)
  only : ∀ rest content, t.HoldsFile (d :: rest) content → contentOf files rest = some content
  since : ∃ m d' m', versionOf d c.pre = some m ∧ t.get [c.link] = some (.symlink [d']) ∧
    versionOf d' c.pre = some m' ∧ rank m ≤ rank m'

end Chain

/-- It is the turn of the number `n`. -/
structure Due (c : Chain) (n : Nat) (t : VolTree) : Prop where
  numbered : c.Numbered t
  order : ∀ d m, t.get [c.link] = some (.symlink [d]) → versionOf d c.pre = some m →
    m = n ∨ rank m < rank n
  last : n = 0 → t.get [versionName c.pre lastVersion] ≠ none
  zero : n ≠ 0 → t.get [versionName c.pre 0] = none

section

variable {c : Chain} {n : Nat} {t : VolTree} {dirs : List Path} {files : List (Path × ByteArray)}

theorem Due.wrapped (h : Due c n t) : c.Wrapped t := by
  intro hzero
  by_cases hn : n = 0
  · exact h.last hn
  · exact absurd (h.zero hn) hzero

/-- A publish with the number `n` leaves it the turn of `n`. -/
theorem Due.step {a b : VolTree} (hlt : n < 2 ^ 64) (h : Due c n a)
    (hstep : c.Step (versionName c.pre n) dirs files a b) (hgen : GenStep c n a b) : Due c n b := by
  refine ⟨h.numbered.step hlt hstep, ?_, ?_, ?_⟩
  · intro d m hlink hd
    rcases hstep.shows with hsame | ⟨-, hshows⟩
    · exact h.order d m (hsame.link ▸ hlink) hd
    obtain rfl : versionName c.pre n = d := by
      have he := hshows.link.symm.trans hlink
      simpa using he
    rw [versionOf_versionName hlt] at hd
    exact .inl (Option.some.inj hd).symm
  · intro hn
    subst hn
    have hver : versionOf (versionName c.pre lastVersion) c.pre = some lastVersion :=
      versionOf_versionName (by decide)
    have hne : versionName c.pre lastVersion ≠ versionName c.pre 0 := by
      intro he
      rw [he, versionOf_versionName (by decide)] at hver
      cases hver
    -- the last number is the one before 0, so it is kept
    rcases hgen _ (by simp [Chain.IsVersion, hver]) hne [] with hsame | ⟨hstale, -⟩
    · rw [hsame]
      exact h.last rfl
    · simp only [isStale, hver] at hstale
      cases hstale
  · intro hn
    by_contra hne
    have hver : versionOf (versionName c.pre 0) c.pre = some 0 := versionOf_versionName (by decide)
    rcases hstep.versions _ (by simp [Chain.IsVersion, hver]) hne with he | hold
    · rw [he, versionOf_versionName hlt] at hver
      exact hn (Option.some.inj hver)
    · exact hold (h.zero hn)

/-- A step of a publish keeps where a generation comes from. -/
theorem Chain.Traced.step {a b : VolTree} {d : String} {content : List (Path × ByteArray)}
    (hlt : n < 2 ^ 64) (hsound : c.Sound a) (hdue : Due c n a) (h : c.Traced d content a)
    (hstep : c.Step (versionName c.pre n) dirs files a b) (hgen : GenStep c n a b) :
    c.Traced d content b := by
  obtain ⟨m, d', m', hm, hlink, hm', hle⟩ := h.since
  have hless : ∀ rest, b.get (d :: rest) = a.get (d :: rest) ∨ b.get (d :: rest) = none := by
    intro rest
    by_cases hd : d = versionName c.pre n
    · -- the generation of this publish is on show already
      obtain rfl : m = n := by
        rw [hd, versionOf_versionName hlt] at hm
        exact (Option.some.inj hm).symm
      have hshown : a.get [c.link] = some (.symlink [d]) := by
        rcases hdue.order d' m' hlink hm' with rfl | hrank
        · obtain ⟨d'', he, -, mode, hdir⟩ := hsound.link _ hlink
          obtain rfl : d' = d'' := by simpa using he
          rw [hd, ← hdue.numbered d' m' (by simp [hdir]) hm']
          exact hlink
        · omega
      rcases hstep.shows with hsame | ⟨hhidden, -⟩
      · exact .inl (hsame.behind d hshown rest)
      · exact absurd (hd ▸ hshown) hhidden
    · rcases hgen d (by simp [Chain.IsVersion, hm]) hd rest with hsame | ⟨-, hgone⟩
      · exact .inl hsame
      · exact .inr hgone
  refine ⟨?_, ?_, ?_⟩
  · intro rest dest hget
    rcases hless rest with hsame | hgone
    · exact h.noLinks rest dest (hsame ▸ hget)
    · rw [hgone] at hget
      cases hget
  · intro rest bytes hfile
    obtain ⟨ino, mode, gid, hget⟩ := holdsFile_iff_get.mp hfile
    rcases hless rest with hsame | hgone
    · exact h.only rest bytes (holdsFile_iff_get.mpr ⟨ino, mode, gid, hsame ▸ hget⟩)
    · rw [hgone] at hget
      cases hget
  · rcases hstep.shows with hsame | ⟨-, hshows⟩
    · exact ⟨m, d', m', hm, hsame.link.trans hlink, hm', hle⟩
    refine ⟨m, _, n, hm, hshows.link, versionOf_versionName hlt, ?_⟩
    rcases hdue.order d' m' hlink hm' with rfl | hrank
    · exact hle
    · omega

/-- A generation that is on show is traced to its publish. -/
theorem Chain.Shows.traced {v : String} (h : c.Shows t v dirs files) : c.Traced v files t := by
  obtain ⟨m, hm⟩ := Option.isSome_iff_exists.mp h.version
  exact ⟨h.built.holds.noLinks, fun rest content => (h.built.holds.files rest content).mp,
    m, v, m, hm, h.link, hm, le_rfl⟩

end

/-! ## 2. Publishing, as a reader sees it -/

/-- What holds of the identity chain between any two calls, when every publish is of an identity in
    `From`. -/
structure Traceable (From : Identity → Prop) (t : VolTree) : Prop where
  sound : identityChain.Sound t
  numbered : identityChain.Numbered t
  wrapped : identityChain.Wrapped t
  shown : ∀ d, t.get [dataLink] = some (.symlink [d]) →
    ∃ identity, From identity ∧ identityChain.Traced d (identityFiles identity) t

/-- What others do while a reader reads. -/
structure Follows (From : Identity → Prop) (a b : VolTree) : Prop where
  traceable : Traceable From a → Traceable From b
  traced : ∀ d files, Traceable From a → identityChain.Traced d files a → identityChain.Traced d files b

section

variable {may : FsOp ByteArray → Prop} {From : Identity → Prop} {t : VolTree}

theorem Follows.refl (a : VolTree) : Follows From a a := ⟨id, fun _ _ _ h => h⟩

theorem Follows.trans {a b e : VolTree} (h : Follows From a b) (h' : Follows From b e) :
    Follows From a e where
  traceable ha := h'.traceable (h.traceable ha)
  traced d files ha hd := h'.traced d files (h.traceable ha) (h.traced d files ha hd)

end

/-! ## 3. Reading -/

section

variable {may : FsOp ByteArray → Prop} {From : Identity → Prop} {t : VolTree}

/-- The reader has resolved the link to `d`, a generation of this identity. -/
def Reading (From : Identity → Prop) (d : String) (identity : Identity) (t : VolTree) : Prop :=
  Traceable From t ∧ identityChain.Traced d (identityFiles identity) t

theorem Traceable.stable : Stable (Follows From) (Traceable From) := fun _ _ hR h => hR.traceable h

variable {d : String} {identity : Identity}

theorem Reading.stable : Stable (Follows From) (Reading From d identity) :=
  fun _ _ hR h => ⟨hR.traceable h.1, hR.traced _ _ h.1 h.2⟩

end

/-! ## 4. Every interleaving -/

/-- Calls of `read_identity` and of `publish_identity`. -/
inductive Access where
  | read
  | publish (identity : Identity) (modes : Modes)
  deriving DecidableEq

def Access.body : Access → Vol (Option Identity)
  | .read => do return some (← readIdentity)
  | .publish identity modes => do
    publishIdentity identity modes
    return none

end Svidlet.Volume
