import Svidlet.Lib.Prog

/-!
# Sequences of requests

A service answers one request after the other. Each request is a program, run alone from the state
the one before it left, and what is kept of it is what was asked, the calls it made and what it
answered (`Done`). A `Session` is a list of these.

The rule (`Session.all`) is the invariant rule with a by-product: if every request keeps `I`, and
from a state with `I` leaves a record with `P`, then every record of a session has `P`.

A program can also be played (`Prog.play`): with a function that answers every call it has exactly
one run, and that run can be computed.
-/

namespace Svidlet.Lib

variable {S : Sig} {σ α β C : Type}

/-- One request of a session: what was asked, the calls it made, and the answer. -/
structure Done (S : Sig) (C β : Type) where
  call : C
  trace : List (Event S)
  answer : β

/-- `Session W prog s ds s'`: from `s`, the requests of `ds` were served in this order, leaving
    `s'`. -/
inductive Session (W : World S σ) (prog : C → Prog S β) : σ → List (Done S C β) → σ → Prop where
  | nil {s : σ} : Session W prog s [] s
  | cons {s s₁ s' : σ} {c : C} {tr : List (Event S)} {b : β} {ds : List (Done S C β)} :
      Exec W (prog c) s tr b s₁ → Session W prog s₁ ds s' →
      Session W prog s (⟨c, tr, b⟩ :: ds) s'

variable {W : World S σ} {prog : C → Prog S β} {s s' : σ} {ds : List (Done S C β)} {I : σ → Prop}

/-- What every request keeps, a session keeps, and every record says what one request says. -/
theorem Session.all {A : C → Prop} {P : Done S C β → Prop}
    (hstep : ∀ c s tr b s', A c → I s → Exec W (prog c) s tr b s' → P ⟨c, tr, b⟩ ∧ I s')
    (h : Session W prog s ds s') (hA : ∀ d ∈ ds, A d.call) (hs : I s) : (∀ d ∈ ds, P d) ∧ I s' := by
  induction h with
  | nil => exact ⟨fun d hd => absurd hd List.not_mem_nil, hs⟩
  | cons hrun _ ih =>
    obtain ⟨hP, hI⟩ := hstep _ _ _ _ _ (hA _ (.head _)) hs hrun
    obtain ⟨hrest, hend⟩ := ih (fun d hd => hA d (.tail _ hd)) hI
    refine ⟨?_, hend⟩
    intro d hd
    rcases List.mem_cons.mp hd with rfl | hd
    · exact hP
    · exact hrest d hd

/-- The same when the invariant speaks of all that has been done so far: then a record can be
    compared with every one before it. -/
theorem Session.trail {I : List (Done S C β) → σ → Prop} {A : Done S C β → Prop}
    {P : List (Done S C β) → Done S C β → Prop}
    (hstep : ∀ before c s tr b s', A ⟨c, tr, b⟩ → I before s → Exec W (prog c) s tr b s' →
      P before ⟨c, tr, b⟩ ∧ I (before ++ [⟨c, tr, b⟩]) s') (h : Session W prog s ds s')
    (hA : ∀ d ∈ ds, A d) (before : List (Done S C β)) (hs : I before s) :
    (∀ ds1 d ds2, ds = ds1 ++ d :: ds2 → P (before ++ ds1) d) ∧ I (before ++ ds) s' := by
  induction h generalizing before with
  | nil =>
    refine ⟨?_, by rwa [List.append_nil]⟩
    intro ds1 d ds2 hds
    simp at hds
  | cons hrun _ ih =>
    obtain ⟨hP, hI⟩ := hstep before _ _ _ _ _ (hA _ (.head _)) hs hrun
    obtain ⟨hrest, hend⟩ := ih (fun d hd => hA d (.tail _ hd)) _ hI
    refine ⟨?_, by rwa [List.append_assoc] at hend⟩
    intro ds1 d ds2 hds
    cases ds1 with
    | nil =>
      obtain ⟨rfl, _⟩ := List.cons.inj hds
      rwa [List.append_nil]
    | cons d1 ds1 =>
      obtain ⟨rfl, htail⟩ := List.cons.inj hds
      have hlater := hrest ds1 d ds2 htail
      rwa [List.append_assoc] at hlater

/-- The invariant rule when what is asked of a request depends on the state it starts in. -/
theorem Session.kept {A : σ → Done S C β → Prop}
    (hstep : ∀ c s tr b s', A s ⟨c, tr, b⟩ → I s → Exec W (prog c) s tr b s' → I s')
    (h : Session W prog s ds s')
    (hA : ∀ ds1 d ds2 s1, ds = ds1 ++ d :: ds2 → Session W prog s ds1 s1 → A s1 d) (hs : I s) :
    I s' := by
  induction h with
  | nil => exact hs
  | @cons s s1 s' c tr b ds hrun _ ih =>
    refine ih ?_ (hstep c s tr b s1 (hA [] _ ds s rfl .nil) hs hrun)
    intro ds1 d ds2 s2 hds hsession
    exact hA (⟨c, tr, b⟩ :: ds1) d ds2 s2 (by rw [hds]; rfl) (.cons hrun hsession)

variable {tr : List (Event S)}

theorem Session.append {s1 : σ} {ds' : List (Done S C β)} (h : Session W prog s ds s1)
    (h' : Session W prog s1 ds' s') : Session W prog s (ds ++ ds') s' := by
  induction h with
  | nil => exact h'
  | cons hrun _ ih => exact .cons hrun (ih h')

theorem Session.snoc {s1 : σ} {c : C} {b : β} (h : Session W prog s ds s1)
    (hrun : Exec W (prog c) s1 tr b s') : Session W prog s (ds ++ [⟨c, tr, b⟩]) s' :=
  h.append (.cons hrun .nil)

variable {d : Done S C β}

/-- The last request of a session, and the session before it. -/
theorem Session.snoc_inv (h : Session W prog s (ds ++ [d]) s') :
    ∃ s1, Session W prog s ds s1 ∧ Exec W (prog d.call) s1 d.trace d.answer s' := by
  induction ds generalizing s with
  | nil =>
    cases h with
    | cons hrun hrest =>
      cases hrest
      exact ⟨s, .nil, hrun⟩
  | cons d1 ds ih =>
    cases h with
    | cons hrun hrest =>
      obtain ⟨s1, hsession, hlast⟩ := ih hrest
      exact ⟨s1, .cons hrun hsession, hlast⟩

/-! ## Two sessions side by side -/

variable {φ : S.Op → Prop} {R : σ → σ → Prop} {p : Prog S α}

/-- From states that are related, every run of one is a run of the other, with the same calls and the same
    answers. -/
theorem Exec.simulate
    (hstep : ∀ o s t ans s', φ o → R s t → W o s ans s' → ∃ t', W o t ans t' ∧ R s' t')
    (hp : p.Makes φ) {t : σ} {a : α} (h : Exec W p s tr a s') (hR : R s t) :
    ∃ t', Exec W p t tr a t' ∧ R s' t' := by
  induction h generalizing t with
  | pure => exact ⟨t, .pure, hR⟩
  | call hw _ ih =>
    obtain ⟨t1, hw', hR1⟩ := hstep _ _ _ _ _ hp.1 hR hw
    obtain ⟨t', hrun, hR'⟩ := ih (hp.2 _) hR1
    exact ⟨t', .call hw' hrun, hR'⟩

theorem Session.simulate
    (hstep : ∀ o s t ans s', φ o → R s t → W o s ans s' → ∃ t', W o t ans t' ∧ R s' t') {t : σ}
    (hmakes : ∀ d ∈ ds, (prog d.call).Makes φ) (h : Session W prog s ds s') (hR : R s t) :
    ∃ t', Session W prog t ds t' ∧ R s' t' := by
  induction h generalizing t with
  | nil => exact ⟨t, .nil, hR⟩
  | cons hrun _ ih =>
    obtain ⟨hfirst, hrest⟩ := List.forall_mem_cons.mp hmakes
    obtain ⟨t1, hrun', hR1⟩ := Exec.simulate hstep hfirst hrun hR
    obtain ⟨t', hsession, hR'⟩ := ih hrest hR1
    exact ⟨t', .cons hrun' hsession, hR'⟩

/-! ## Playing a program -/

/-- The one run of a program whose every call is answered by a function. -/
def Prog.play (answer : (op : S.Op) → σ → S.Ans op × σ) : Prog S α → σ → List (Event S) × α × σ
  | .pure a, s => ([], a, s)
  | .call op k, s =>
    -- matching, not projecting: the rest is computed once
    match answer op s with
    | (ans, s₁) =>
      match (k ans).play answer s₁ with
      | (tr, a, s') => (⟨op, ans⟩ :: tr, a, s')

variable {answer : (op : S.Op) → σ → S.Ans op × σ}

theorem Prog.play_exec (hW : ∀ op s, W op s (answer op s).1 (answer op s).2) (p : Prog S α)
    (s : σ) :
    Exec W p s (p.play answer s).1 (p.play answer s).2.1 (p.play answer s).2.2 := by
  induction p generalizing s with
  | pure a => exact .pure
  | call op k ih => exact .call (hW op s) (ih _ _)

/-- The state after some calls of a program, which is stopped then. -/
def Prog.playFor (answer : (op : S.Op) → σ → S.Ans op × σ) : Prog S α → Nat → σ → σ
  | .call op k, n + 1, s =>
    match answer op s with
    | (ans, s₁) => (k ans).playFor answer n s₁
  | _, _, s => s

theorem Prog.playFor_stops (hW : ∀ op s, W op s (answer op s).1 (answer op s).2) (p : Prog S α)
    (n : Nat) (s : σ) : Stops W p s (p.playFor answer n s) := by
  induction p generalizing n s with
  | pure a => exact .here
  | call op k ih =>
    cases n with
    | zero => exact .here
    | succ n => exact .call (hW op s) (ih _ n _)

/-- Every answer in the record of a played program is one the function gave. -/
theorem Prog.play_answers {e : Event S} (he : e ∈ (p.play answer s).1) :
    ∃ s1, e.ans = (answer e.op s1).1 := by
  induction p generalizing s with
  | pure a => exact absurd he List.not_mem_nil
  | call op k ih =>
    have he : e ∈ (⟨op, (answer op s).1⟩ : Event S)
        :: ((k (answer op s).1).play answer (answer op s).2).1 := he
    rcases List.mem_cons.mp he with rfl | he
    · exact ⟨s, rfl⟩
    · exact ih _ he

/-- Requests played one after the other. -/
def playAll (answer : (op : S.Op) → σ → S.Ans op × σ) (prog : C → Prog S β) :
    List C → σ → List (Done S C β) × σ
  | [], s => ([], s)
  | c :: cs, s =>
    match (prog c).play answer s with
    | (tr, b, s₁) =>
      match playAll answer prog cs s₁ with
      | (ds, s') => (⟨c, tr, b⟩ :: ds, s')

theorem playAll_session (hW : ∀ op s, W op s (answer op s).1 (answer op s).2) (prog : C → Prog S β)
    (cs : List C) (s : σ) :
    Session W prog s (playAll answer prog cs s).1 (playAll answer prog cs s).2 := by
  induction cs generalizing s with
  | nil => exact .nil
  | cons c cs ih => exact .cons (Prog.play_exec hW (prog c) s) (ih _)

variable {cs : List C}

theorem playAll_answers (hd : d ∈ (playAll answer prog cs s).1) :
    ∀ e ∈ d.trace, ∃ s1, e.ans = (answer e.op s1).1 := by
  induction cs generalizing s with
  | nil => exact absurd hd List.not_mem_nil
  | cons c cs ih =>
    have hd : d ∈ (⟨c, ((prog c).play answer s).1, ((prog c).play answer s).2.1⟩ : Done S C β)
        :: (playAll answer prog cs ((prog c).play answer s).2.2).1 := hd
    rcases List.mem_cons.mp hd with rfl | hd
    · exact fun e he => Prog.play_answers he
    · exact ih hd

theorem playAll_calls : (playAll answer prog cs s).1.map Done.call = cs := by
  induction cs generalizing s with
  | nil => rfl
  | cons c cs ih => exact congrArg (c :: ·) ih

end Svidlet.Lib
