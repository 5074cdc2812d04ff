import Svidlet.Lib.Pool
import Svidlet.Volume.Reading

/-!
# Three writers, one volume

`svidlet` writes the identity and the tokens of a volume, `svidlet-policy` its policy, and they do not
coordinate: "each writer only ever creates its own versioned directories and renames its own
symlink". Here all three run at once, their filesystem calls in any order, any of which may fail.

Each writer is one at a time with itself, and that is the whole discipline (`OneWriter`). The rest is
`Publication.sat`: a writer relies on the others leaving what is its own alone, and promises to touch
what is its own only; names of different chains differ, so the promise of one is the reliance of the
others.
-/

namespace Svidlet.Volume

open Lib Lib.FileTree Policy

/-! ## 1. The system -/

/-- Publishes into one volume. -/
def writersSystem : System (FsSig ByteArray) VolTree Publication (Except IoError Unit) where
  world := Faulty fun _ => True
  body p := p.run.run
  restart _ _ := False

abbrev WritersPool := Pool (FsSig ByteArray) VolTree Publication (Except IoError Unit)

/-- Each chain has one writer: it starts a publish when the one before has ended. -/
def OneWriter (P : WritersPool) : Move (FsSig ByteArray) Publication (Except IoError Unit) → Prop
  | .start _ p => P.Idle fun q => q.chain = p.chain
  | _ => True

/-- The publish of a chain that ended last, and how. -/
def lastOf (c : Chain) (returned : List (Publication × Except IoError Unit)) :
    Option (Publication × Except IoError Unit) :=
  returned.find? fun e => decide (e.1.chain = c)

/-- Reading the chain returns what was published: the three files, each document and the revision
    line, the map from alias to token. -/
def Publication.ReadsBack : Publication → VolTree → Prop
  | .identity content _, t => Returns readIdentity.run t (· = .ok content)
  | .policy bundle _ _, t => ∀ rest, (policyLink :: rest).length < walkLimit →
      Returns (Fs.readFile (policyLink :: rest)).run t fun r =>
        ∀ content, r = .ok content ↔ contentOf (policyFiles bundle) rest = some content
  | .tokens entries _ _, t => Returns readTokens t (List.Perm · entries)

theorem Publication.IsShown.readsBack {p : Publication} {t : VolTree} (h : p.IsShown t) :
    p.ReadsBack t := by
  obtain ⟨v, -, hshows⟩ := h
  cases p with
  | identity content modes => exact readIdentity_returns hshows
  | policy bundle plain mode => exact fun rest hlen => readFile_returns hshows hlen
  | tokens entries once modes => exact readTokens_returns once hshows

/-! ## 2. Every run -/

def writersContract : Contract VolTree Publication (Except IoError Unit) where
  rely p := Elsewhere p.chain.Mine
  guar p := p.Step
  post p r t := r = .ok () → p.IsShown t
  rely_refl _ t := Elsewhere.refl _ t
  rely_trans _ _ _ _ h h' := h.trans h'

structure WritersInv (P : WritersPool) : Prop where
  sound : ∀ c ∈ chains, c.Sound P.state
  exclusive : P.Exclusive fun p => some p.chain
  /-- What a chain's last publish has put on show is there until the next one starts. -/
  shown : ∀ p, (P.Idle fun q => q.chain = p.chain) → lastOf p.chain P.returned = some (p, .ok ()) →
    p.IsShown P.state

/-- A publish is another writer's business. -/
theorem Publication.Step.elsewhere {p : Publication} {a b : VolTree} (h : p.Step a b) {c : Chain}
    (hc : c ∈ chains) (hne : p.chain ≠ c) : Elsewhere c.Mine a b := by
  obtain ⟨v, hstep⟩ := h
  exact elsewhere_of_within p.chain_mem hc hne hstep.within

theorem writersContract_sound : writersContract.Sound writersSystem OneWriter WritersInv where
  start := by
    intro P i p hI _ hidle hfree
    refine ⟨⟨hI.sound, hI.exclusive.start ?_, ?_⟩, ?_⟩
    · intro c hc j q prog hj he
      exact hidle j q prog hj (Option.some.inj (he.trans hc.symm))
    · intro q hq hlast
      exact hI.shown q (hq.before (by simp [hfree])) hlast
    · refine .mono ?_ (p.sat (hI.sound p.chain p.chain_mem))
      intro r t' hends hr
      exact hends.1 () hr
  call := by
    intro P i p op k ans t' hI _ _ hi _ hguar
    have hother : ∀ c ∈ chains, p.chain ≠ c → Elsewhere c.Mine P.state t' :=
      fun c hc hne => hguar.elsewhere hc hne
    refine ⟨⟨?_, hI.exclusive.call hi, ?_⟩, ?_⟩
    · intro c hc
      by_cases hpc : p.chain = c
      · obtain ⟨v, hstep⟩ := hguar
        exact hpc ▸ hstep.sound
      · exact Chain.Sound.stable _ _ (hother c hc hpc) (hI.sound c hc)
    · intro q hq hlast
      -- the writer of this chain is idle, so the call was made by another
      have hpq : p.chain ≠ q.chain := fun he => hq i p (k ans) (P.setThread_same i _) he
      exact q.isShown_stable _ _ (hother q.chain q.chain_mem hpq)
        (hI.shown q (Pool.Idle.before_call hq hi) hlast)
    · intro j q prog hji hj
      refine hother q.chain q.chain_mem fun he => hji ?_
      exact hI.exclusive j i q p prog _ p.chain hj hi (by rw [he]) rfl
  finish := by
    intro P i p r hI _ _ hi hpost
    refine ⟨hI.sound, hI.exclusive.finish, ?_⟩
    intro q hq hlast
    by_cases hpq : p.chain = q.chain
    · have he : (p, r) = (q, .ok ()) := by simpa [lastOf, hpq] using hlast
      obtain ⟨rfl, rfl⟩ := Prod.mk.inj he
      exact hpost rfl
    have hlast : lastOf q.chain P.returned = some (q, .ok ()) := by
      simpa [lastOf, hpq] using hlast
    exact hI.shown q (Pool.Idle.before hq (by simp [hi, hpq])) hlast
  restart := by
    intro P t' _ _ hr
    exact hr.elim

/-- Whatever the three writers do, in any order: from the end of a publish to the start of the next
    one of its chain, the chain is read as that publish; and no call of a writer changes anything
    that belongs to another chain. -/
theorem writers_keep_apart {t : VolTree} (hleft : Left t) {P : WritersPool}
    (hrun : writersSystem.Run OneWriter (Pool.initial t) P) :
    (∀ p : Publication, (P.Idle fun q => q.chain = p.chain) →
        lastOf p.chain P.returned = some (p, .ok ()) → p.ReadsBack P.state) ∧
      ∀ i p prog op ans P', P.threads i = some (p, prog) →
        writersSystem.Step P (.call i op ans) P' →
        ∀ c ∈ chains, c ≠ p.chain → ∀ q, c.Mine q → P'.state.get q = P.state.get q := by
  have hinit : WritersInv (Pool.initial t) := by
    refine ⟨fun c hc => (hleft.inv c hc).1, ?_, ?_⟩
    · intro i j p q prog prog' c hi
      cases hi
    · intro p _ hlast
      cases hlast
  obtain ⟨hinv, hkept⟩ := hrun.safe writersContract_sound hinit (writersContract.kept_initial _ _)
  refine ⟨fun p hidle hlast => (hinv.shown p hidle hlast).readsBack, ?_⟩
  intro i p prog op ans P' hi hstep c hc hne q hq
  cases hstep with
  | @call i p' op k ans t' hi' hw =>
    obtain ⟨rfl, -⟩ := Prod.mk.inj (Option.some.inj (hi.symm.trans hi'))
    have hguar := (hkept i p _ hi' P.state (Elsewhere.refl _ _) ans t' hw).1
    exact (hguar.elsewhere hc (Ne.symm hne)).2 q hq

def firstTokens : Publication := .tokens [("db", "jwt 1")] (by simp) ⟨0o640, 0o644, none⟩

/-- An identity and tokens are published at once, a call of each in turn. -/
def bothSchedule : List (Turn Publication) :=
  .start 0 firstIdentity :: .start 1 firstTokens :: (List.replicate 30 [.go 0, .go 1]).flatten

def twoWriters : WritersPool :=
  writersSystem.play (fun o t => t.exec o) (Pool.initial ⟨[([], .dir 0o755)], 0⟩) bothSchedule

theorem twoWriters_run :
    writersSystem.Run OneWriter (Pool.initial ⟨[([], .dir 0o755)], 0⟩) twoWriters ∧
      twoWriters.OnlyIn [0, 1] := by
  have hpass : writersSystem.passes (fun o t => t.exec o) [0, 1]
      (Pool.beside [0, 1] fun p q => q.chain ≠ p.chain) (Pool.initial ⟨[([], .dir 0o755)], 0⟩)
      bothSchedule = true := by decide +kernel
  refine System.play_run (fun o t => .inl (exact_answers o t)) ?_ .refl (fun _ _ => rfl) hpass
  refine fun P turn hP h => hP.grants h ?_ (fun _ _ _ => trivial) fun _ _ => trivial
  intro i p hbeside j q prog hj
  simpa using hbeside j q prog hj

/-- Both publishes have ended, and each is read back. -/
theorem writers_keep_apart_two :
    firstIdentity.ReadsBack twoWriters.state ∧ firstTokens.ReadsBack twoWriters.state := by
  have hended : twoWriters.returned = [(firstIdentity, .ok ()), (firstTokens, .ok ())] := by
    decide
  obtain ⟨hread, -⟩ := writers_keep_apart (.fresh 0o755) twoWriters_run.1
  have hidle : ∀ f, twoWriters.Idle f := by
    intro f i p prog hi
    cases (twoWriters_run.2.none (by decide +kernel) i).symm.trans hi
  refine ⟨hread firstIdentity (hidle _) ?_, hread firstTokens (hidle _) ?_⟩
  · rw [hended]
    decide
  · rw [hended]
    decide

end Svidlet.Volume
