import Svidlet.Policy.Trust

/-!
# Replays, the kill switch, and full fetches

Three promises about histories of polls rest on one number, the high-water mark `lastSequence`, and
one counter.

**Sequences.** What passes carries a sequence at least as high as the mark, and raises the mark to
it; the mark is saved with every change and read back by a restart. But 0 is both a sequence and
*none seen yet*: a manifest with sequence 0 passes and leaves no mark, and after it one without any
sequence passes too. And a restart takes a `state.json` that it cannot read for one that is not
there, so that the mark is gone: what is said here is said of nodes that can read it back.

**Freezing.** There is no stored flag. After a frozen manifest with sequence `q` the mark is at
least `q`, so all that passes is at least as new, and as long as that is frozen nothing is swapped.

**Full fetches.** Every `n`-th poll sends no ETag, and neither does a node without a bundle. What
comes back is then a manifest, or an error, or a 304 that nobody asked for; and that is taken at its
word.
-/

namespace Svidlet.Policy

open Lib Lib.FileTree

variable {faults : Faults} {source : Source} {s s' : PollState} {tr : List (Event PollSig)}

/-! ## 1. The mark -/

theorem Settled.lastSequence {accepted : Accepted} {m m' : State}
    {r : Except Stop (Option PolicyBundle)} (h : Settled source accepted m r m') :
    m'.lastSequence = m.lastSequence := by
  cases h <;> rfl

/-- What a call does to the mark: nothing, unless a manifest passed. -/
structure MarkStep (s s' : PollState) (answer : Answer) : Prop where
  consistent : s'.Consistent
  kept : s.mem.lastSequence ≤ s'.mem.lastSequence
  raised : ∀ a q, answer.accepted = some a → a.rollout.sequence = some q → q ≤ s'.mem.lastSequence
  passed : ∀ a, answer.accepted = some a → 0 < s.mem.lastSequence →
    ∃ q, a.rollout.sequence = some q ∧ s.mem.lastSequence ≤ q

theorem SameBut.consistent {s s' : PollState} (h : SameBut s s') (hs : s.Consistent) :
    s'.Consistent := by
  obtain ⟨t, h⟩ := h
  rw [h]
  exact hs

/-- A restart reads back what was in memory. -/
theorem restart_mem {s1 : PollState} (hload : ¬ faults.load) (hs1 : s1.Consistent)
    (h : s' = s1 ∨ ∃ loaded, (loaded = s1.stateFile ∨ faults.load ∧ loaded = none) ∧
      s' = { s1 with mem := loaded.getD State.default, polls := 0 }) :
    s'.mem = s1.mem ∧ s'.Consistent ∧ s'.tree = s1.tree := by
  rcases h with hs | ⟨loaded, hloaded, hs⟩
  · rw [hs]
    exact ⟨rfl, hs1, rfl⟩
  have hfile : loaded = s1.stateFile := by
    rcases hloaded with hfile | ⟨hfault, _⟩
    · exact hfile
    · exact absurd hfault hload
  rw [hs, hfile]
  exact ⟨hs1, rfl, rfl⟩

variable {answer : Answer}

/-- A call in which no manifest passed, and which left the mark. -/
theorem MarkStep.of_none (hs' : s'.Consistent) (hmark : s'.mem.lastSequence = s.mem.lastSequence)
    (hnone : answer.accepted = none) :
    MarkStep s s' answer := by
  refine ⟨hs', hmark.ge, ?_, ?_⟩
  · intro a q ha
    rw [hnone] at ha
    cases ha
  · intro a ha
    rw [hnone] at ha
    cases ha

variable {c : Call}

theorem Served.mark (hsave : ¬ faults.save) (hload : ¬ faults.load) (hs : s.Consistent)
    (h : Served faults source tr s s' c answer) :
    MarkStep s s' answer := by
  cases h with
  | poll hpoll =>
    cases hpoll with
    | failed heq =>
      rw [heq]
      exact MarkStep.of_none hs rfl rfl
    | unchanged _ _ _ hrecord =>
      exact MarkStep.of_none (hrecord.saved hsave hs) (by rw [hrecord.mem]) rfl
    | @accepted accepted _ _ _ _ _ hgenuine _ _ _ _ _ hrecord hfollow =>
      obtain ⟨m, hrecorded, hsettled⟩ := hfollow.settled
      have hmark : s'.mem.lastSequence
          = max s.mem.lastSequence (accepted.rollout.sequence.getD 0) := by
        rw [hrecorded.mem, hsettled.lastSequence, hrecord.mem]
      refine ⟨hrecorded.saved hsave (hrecord.saved hsave hs), ?_, ?_, ?_⟩
      · rw [hmark]
        exact Nat.le_max_left _ _
      · intro a q ha hq
        cases ha
        rw [hmark, hq]
        exact Nat.le_max_right _ _
      · intro a ha hpos
        cases ha
        have hfresh := hgenuine.fresh
        rw [hgenuine.mark] at hfresh
        exact checkFreshness_sequence hfresh hpos
  | recordError hrecord =>
    exact MarkStep.of_none (hrecord.saved hsave hs) (by rw [hrecord.mem]) rfl
  | loadNone heq =>
    rw [heq]
    exact MarkStep.of_none hs rfl rfl
  | loadCurrent _ hread =>
    have hsame := onFs_sameBut hread
    exact MarkStep.of_none (hsame.consistent hs) (by rw [hsame.mem]) rfl
  | restart hprepare hstate =>
    have hsame := onFs_sameBut hprepare
    obtain ⟨hmem, hcons, _⟩ := restart_mem hload (hsame.consistent hs) hstate
    exact MarkStep.of_none hcons (by rw [hmem, hsame.mem]) rfl

/-! ## 2. Sequences never go back -/

/-- No blob that was served is a manifest of sequence 0. -/
def NoZeroSequence (source : Source) (tr : List (Event PollSig)) : Prop :=
  ∀ url response body toml rollout, (⟨.getBlob url, .ok response⟩ : Event PollSig) ∈ tr →
    response.body = .ok body → source.crates.openEnvelope body source.key = .ok toml →
    Rollout.parse source.crates toml = .ok rollout → rollout.sequence ≠ some 0

theorem Genuine.sequence_ne_zero {mem : State} {a : Accepted} (h : Genuine source mem tr a)
    (hzero : NoZeroSequence source tr) : a.rollout.sequence ≠ some 0 := by
  obtain ⟨digest, response, hmem, hbody⟩ := h.served
  exact hzero _ response _ _ _ hmem hbody h.opened h.parsed

/-- `b` may pass after `a`: if `a` has a sequence then so has `b`, and not a lower one. -/
def NotOlder (a b : Accepted) : Prop :=
  ∀ q, a.rollout.sequence = some q → ∃ q', b.rollout.sequence = some q' ∧ q ≤ q'

/-- The mark covers all that has passed. -/
def MarkCovers (before : List (Done PollSig Call Answer)) (s : PollState) : Prop :=
  s.Consistent ∧ ∀ a ∈ acceptedIn before, ∀ q, a.rollout.sequence = some q → q ≤ s.mem.lastSequence

/-- One call. A sequence of 0 is covered by any mark, so nothing follows from it. -/
theorem serve_markCovers (before : List (Done PollSig Call Answer)) (hsave : ¬ faults.save)
    (hload : ¬ faults.load) (hI : MarkCovers before s)
    (h : Exec (pollWorld faults) (source.serve c) s tr answer s') :
    (∀ b, answer.accepted = some b →
      ∀ a ∈ acceptedIn before, a.rollout.sequence ≠ some 0 → NotOlder a b) ∧
      MarkCovers (before ++ [⟨c, tr, answer⟩]) s' := by
  have hmark := (serve_run h).mark hsave hload hI.1
  refine ⟨?_, hmark.consistent, ?_⟩
  · intro b hb a ha hne q hq
    have hle := hI.2 a ha q hq
    have hq0 : q ≠ 0 := fun h0 => hne (h0 ▸ hq)
    obtain ⟨q', hq', hge⟩ := hmark.passed b hb (by omega)
    exact ⟨q', hq', by omega⟩
  intro a ha q hq
  rw [acceptedIn_append, List.mem_append] at ha
  rcases ha with ha | ha
  · exact Nat.le_trans (hI.2 a ha q hq) hmark.kept
  · obtain ⟨d, hd, ha⟩ := mem_acceptedIn.mp ha
    obtain rfl := List.mem_singleton.mp hd
    exact hmark.raised a q ha hq

variable {ds : List (Done PollSig Call Answer)}

/-- What was accepted in a session was genuine, when it was. -/
theorem Session.genuine (h : Session (pollWorld faults) source.serve s ds s') :
    ∀ d ∈ ds, ∀ a, d.answer.accepted = some a → ∃ mem, Genuine source mem d.trace a := by
  refine (Session.all (I := fun _ => True) (A := fun _ => True) ?_ h (fun _ _ => trivial) trivial).1
  intro c s tr b s' _ _ hrun
  exact ⟨fun a ha => ⟨s.mem, (serve_run hrun).genuine ha⟩, trivial⟩

theorem acceptedIn_pairwise {R : Accepted → Accepted → Prop}
    (h : ∀ ds1 d ds2, ds = ds1 ++ d :: ds2 → ∀ b, d.answer.accepted = some b →
      ∀ a ∈ acceptedIn ds1, R a b) : (acceptedIn ds).Pairwise R := by
  induction ds using List.reverseRecOn with
  | nil => exact List.Pairwise.nil
  | append_singleton ds d ih =>
    have hinit := ih fun ds1 d' ds2 hds => h ds1 d' (ds2 ++ [d]) (by rw [hds]; simp)
    rw [acceptedIn_append, List.pairwise_append]
    refine ⟨hinit, ?_, ?_⟩
    · unfold acceptedIn
      rw [List.filterMap_cons]
      split <;> simp
    intro a ha b hb
    obtain ⟨d', hd', hb'⟩ := mem_acceptedIn.mp hb
    obtain rfl := List.mem_singleton.mp hd'
    exact h ds d' [] rfl b hb' a ha

theorem session_markCovers {t : FileTree Bytes} {file : Option State} (hsave : ¬ faults.save)
    (hload : ¬ faults.load) (h : Session (pollWorld faults) source.serve (.boot t file) ds s') :
    (∀ ds1 d ds2, ds = ds1 ++ d :: ds2 → ∀ b, d.answer.accepted = some b →
      ∀ a ∈ acceptedIn ds1, a.rollout.sequence ≠ some 0 → NotOlder a b) ∧ MarkCovers ds s' := by
  have hstart : MarkCovers [] (.boot t file) := ⟨rfl, nofun⟩
  exact Session.trail (I := MarkCovers) (A := fun _ => True)
    (P := fun before d => ∀ b, d.answer.accepted = some b →
      ∀ a ∈ acceptedIn before, a.rollout.sequence ≠ some 0 → NotOlder a b)
    (fun before c s tr b s' _ => serve_markCovers before hsave hload) h (fun _ _ => trivial)
    [] hstart

/-- **No replay.** As long as no manifest of sequence 0 is served, sequences never decrease over
    polls and restarts, and once one has passed all that pass have one. -/
theorem sequences_never_go_back {t : FileTree Bytes} {file : Option State}
    {ds : List (Done PollSig Call Answer)} (hsave : ¬ faults.save) (hload : ¬ faults.load)
    (hzero : ∀ d ∈ ds, NoZeroSequence source d.trace)
    (h : Session (pollWorld faults) source.serve (.boot t file) ds s') :
    (acceptedIn ds).Pairwise NotOlder := by
  obtain ⟨hpairs, _⟩ := session_markCovers hsave hload h
  refine (acceptedIn_pairwise hpairs).imp_of_mem ?_
  intro a b ha _ hab
  obtain ⟨d, hd, ha⟩ := mem_acceptedIn.mp ha
  obtain ⟨mem, hgenuine⟩ := Session.genuine h d hd a ha
  exact hab (hgenuine.sequence_ne_zero (hzero d hd))

/-- A manifest of sequence 0. -/
def zeroRelease : Release where
  toml := utf8Bytes "schema=1\nsequence=0\n"
  signature := bigEndian 64
    0xae0fbb08138f52311a05f691f7478fc6fc0ec34930d82ea65ad60d7b7915ac9d809d88fb9310d3a579958b81c52b7d4a7f496a55b3f1cd7a1dcc680c50b90b03
  parsed := ⟨1, "ed25519", "c2NoZW1hPTEKc2VxdWVuY2U9MAo=",
    "rg+7CBOPUjEaBfaR90ePxvwOw0kw2C6mWtYNe3kVrJ2AnYj7kxDTpXmVi4HFK31Kf0lqVbPxzXodzGgMULkLAw=="⟩
  digest := bigEndian 32 0x01ee21976eb09c2780a9483459ad89ef68ed2658bb5286fdb2d84f6f3d9e6f8f
  rollout := ⟨1, false, some 0, none, []⟩

/-- A manifest without a sequence. -/
def plainRelease : Release where
  toml := utf8Bytes "schema=1\n"
  signature := bigEndian 64
    0xdd00967498fdd7919e164f108c72224b193b98a8bca60f97982566ccb9498eb463a41d8e4bca964026d20ad818ad7d2644ee034e5c4a59b45b1d0f3905ea0a03
  parsed := ⟨1, "ed25519", "c2NoZW1hPTEK",
    "3QCWdJj915GeFk8QjHIiSxk7mKi8pg+XmCVmzLlJjrRjpB2OS8qWQCbSCtgYrX0mRO4DTlxKWbRbHQ85BeoKAw=="⟩
  digest := bigEndian 32 0x345966940b419b84312a05b5eff378aa11bb513b6fa7af25ca840145df8c8b08
  rollout := ⟨1, false, none, none, []⟩

def zeroSource : Source := sampleSource [zeroRelease, plainRelease] []

def zeroTable : Table where
  manifest poll _ := .ok ((if poll = 1 then zeroRelease else plainRelease).response none)
  blob := blobOf zeroSource [zeroRelease, plainRelease] []
  now := 0

def zeroDay : List (Done PollSig Call Answer) × PollState :=
  zeroTable.play zeroSource [.poll, .poll] (.boot emptyTree none)

/-- A frozen manifest of sequence 1. -/
def frozenRelease : Release where
  toml := utf8Bytes "schema=1\nfreeze=true\nsequence=1\n"
  signature := bigEndian 64
    0xdabcb55f6d9d0957ec9327aa8a0d64abf81377f8bbca3d1aa37474a402ac8cb26f9b5f425c40e29c3b6aa9f4813d2a7c9bccb10a3f3468e9d6bd00ef98d3590e
  parsed := ⟨1, "ed25519", "c2NoZW1hPTEKZnJlZXplPXRydWUKc2VxdWVuY2U9MQo=",
    "2ry1X22dCVfskyeqig1kq/gTd/i7yj0ao3R0pAKsjLJvm19CXEDinDtqqfSBPSp8m8yxCj80aOnWvQDvmNNZDg=="⟩
  digest := bigEndian 32 0xcaff1c5f09f9d2d1b386c558bb71f76868a3eefc60b73cd427896e2274726f7b
  rollout := ⟨1, true, some 1, none, []⟩

/-! ### What goes wrong -/

/-- `state.json` cannot be read when the process starts, and the tag moves on from one release to
    another once there is one. -/
def Table.forgets (table : Table) (first second : Release) : (op : PollOp) → PollState →
    op.Ans × PollState
  | .loadState, s => (none, s)
  | .getManifest _ _, s =>
    (.ok ((if s.stateFile.isSome then second else first).response none), s)
  | op, s => table.answer op s

def loadFault : Faults := ⟨fun _ => False, False, True⟩

theorem Table.forgets_world (table : Table) (first second : Release) (op : PollOp) (s : PollState) :
    pollWorld loadFault op s (table.forgets first second op s).1 (table.forgets first second op s).2 := by
  unfold Table.forgets
  split
  · exact ⟨.inr ⟨trivial, rfl⟩, rfl⟩
  · exact rfl
  · exact table.answer_world _ _ _

/-- The frozen manifest, and then one with neither the flag nor a sequence. -/
def forgetfulSource : Source := sampleSource [frozenRelease, firstRelease] [(firstBundle,
    bigEndian 32 0x46be3b261b2182d31b090f0c3b8621f96973239ef8a957738e955a510820ab98)]

def forgetfulTable : Table :=
  { firstTable with
    blob := blobOf forgetfulSource [frozenRelease, firstRelease] [(firstDigest, firstBundle)] }

def playForgetful (calls : List Call) (s : PollState) : List (Done PollSig Call Answer) × PollState :=
  playAll (forgetfulTable.forgets frozenRelease firstRelease) forgetfulSource.serve calls s

theorem playForgetful_session (calls : List Call) (s : PollState) :
    Session (pollWorld loadFault) forgetfulSource.serve s (playForgetful calls s).1
      (playForgetful calls s).2 :=
  playAll_session (forgetfulTable.forgets_world _ _) _ _ _

def forgetfulDay : List (Done PollSig Call Answer) × PollState :=
  playForgetful [.restart, .poll] (.boot emptyTree none)

def nextForgetfulDay : List (Done PollSig Call Answer) × PollState :=
  playForgetful [.restart, .poll] forgetfulDay.2

theorem forgetfulDays :
    (acceptedIn forgetfulDay.1).map (fun a => (a.rollout.freeze, a.rollout.sequence)) =
        [(true, some 1)] ∧
      (acceptedIn nextForgetfulDay.1).map (fun a => (a.rollout.freeze, a.rollout.sequence)) =
        [(false, none)] ∧
      nextForgetfulDay.1.map (·.answer.bundle) =
        [none, some ⟨firstDigest, [⟨"bundle.toml", bundleText⟩]⟩] ∧
      forgetfulDay.2.mem.digest = "" ∧ nextForgetfulDay.2.mem.digest = firstDigest := by
  decide +kernel

theorem not_notOlder {as : List Accepted} {q : Nat}
    (h : as.map (·.rollout.sequence) = [some q, none]) : ¬ as.Pairwise NotOlder := by
  intro hpairs
  obtain ⟨a, rest, rfl, ha, hrest⟩ := List.map_eq_cons_iff.mp h
  obtain ⟨b, rest', rfl, hb, -⟩ := List.map_eq_cons_iff.mp hrest
  obtain ⟨q', hq', -⟩ := (List.pairwise_cons.mp hpairs).1 b (.head _) q ha
  rw [hb] at hq'
  cases hq'

/-- A manifest of sequence 0 passes, and after it one without a sequence does. **And any sequence is
    forgotten** by a restart that cannot read `state.json`. -/
theorem unsequenced_passes_after_zero :
    (Session (pollWorld noFaults) zeroSource.serve (.boot emptyTree none) zeroDay.1 zeroDay.2 ∧
      (acceptedIn zeroDay.1).map (·.rollout.sequence) = [some 0, none] ∧
      ¬ (acceptedIn zeroDay.1).Pairwise NotOlder) ∧
    ∃ ds s, Session (pollWorld loadFault) forgetfulSource.serve (.boot emptyTree none) ds s ∧
      (acceptedIn ds).map (·.rollout.sequence) = [some 1, none] ∧
      ¬ (acceptedIn ds).Pairwise NotOlder := by
  have hzero : (acceptedIn zeroDay.1).map (·.rollout.sequence) = [some 0, none] := by decide +kernel
  obtain ⟨hfirst, hnext, -⟩ := forgetfulDays
  have hone : (acceptedIn (forgetfulDay.1 ++ nextForgetfulDay.1)).map (·.rollout.sequence) =
      [some 1, none] := by
    have hboth := congrArg (List.map Prod.snd) (congrArg₂ (· ++ ·) hfirst hnext)
    simpa [acceptedIn_append, Function.comp_def] using hboth
  exact ⟨⟨zeroTable.play_session noFaults _ _ _, hzero, not_notOlder hzero⟩, _, _,
    (playForgetful_session _ _).append (playForgetful_session _ _), hone, not_notOlder hone⟩

def frozenSource : Source := sampleSource [frozenRelease] []

def frozenTable : Table where
  manifest _ _ := .ok (frozenRelease.response none)
  blob := blobOf frozenSource [frozenRelease] []
  now := 0

theorem noFaults_save : ¬ noFaults.save := id

theorem noFaults_load : ¬ noFaults.load := id

theorem frozenRelease_opens :
    frozenSource.crates.openEnvelope frozenRelease.envelope frozenSource.key
      = .ok frozenRelease.toml := by
  decide +kernel

theorem frozenRelease_parses :
    Rollout.parse frozenSource.crates frozenRelease.toml = .ok frozenRelease.rollout := by
  decide

/-- All that this table ever serves as a blob is the one envelope, or nothing. -/
theorem frozenTable_noZero {calls : List Call} {s : PollState} {d : Done PollSig Call Answer}
    (hd : d ∈ (frozenTable.play frozenSource calls s).1) : NoZeroSequence frozenSource d.trace := by
  intro url response body toml rollout hmem hbody hopen hparse
  obtain ⟨s1, hans⟩ := playAll_answers hd _ hmem
  have hblob : Except.ok response = blobOf frozenSource [frozenRelease] [] url := hans
  have hcases : body = frozenRelease.envelope ∨ body = [] := by
    unfold blobOf at hblob
    split at hblob
    · rename_i r hr
      obtain rfl := List.mem_singleton.mp (List.mem_of_find?_eq_some hr)
      obtain rfl := Except.ok.inj hblob
      exact .inl (Except.ok.inj hbody).symm
    · rename_i hb
      cases hb
    · obtain rfl := Except.ok.inj hblob
      exact .inr (Except.ok.inj hbody).symm
  rcases hcases with rfl | rfl
  · rw [frozenRelease_opens] at hopen
    obtain rfl := Except.ok.inj hopen
    rw [frozenRelease_parses] at hparse
    obtain rfl := Except.ok.inj hparse
    decide
  · have hno : (frozenSource.crates.openEnvelope [] frozenSource.key).toOption = none := by
      decide
    rw [hopen] at hno
    cases hno

theorem sequences_never_go_back_frozen :
    let day := frozenTable.play frozenSource [.poll, .restart, .poll] (.boot emptyTree none)
    (acceptedIn day.1).map (·.rollout.sequence) = [some 1, some 1] ∧
      (acceptedIn day.1).Pairwise NotOlder :=
  ⟨by decide +kernel, sequences_never_go_back noFaults_save noFaults_load
    (fun _ hd => frozenTable_noZero hd) (frozenTable.play_session noFaults _ _ _)⟩

/-! ## 3. Frozen -/

/-- What a frozen node leaves alone. -/
structure Still (s s' : PollState) : Prop where
  digest : s'.mem.digest = s.mem.digest
  link : s'.tree.get [current] = s.tree.get [current]

theorem Still.trans {s1 s2 s3 : PollState} (h : Still s1 s2) (h' : Still s2 s3) : Still s1 s3 :=
  ⟨h'.digest.trans h.digest, h'.link.trans h.link⟩

theorem Remembered.still {m : State} (h : Remembered faults s s' m) (hm : m.digest = s.mem.digest) :
    Still s s' := ⟨by rw [h.mem, hm], by rw [h.tree]⟩

/-- Following a frozen manifest returns nothing and moves nothing. -/
theorem Followed.still {accepted : Accepted} {r : Except Stop (Option PolicyBundle)}
    (h : Followed faults source accepted s s' r) (hfreeze : accepted.rollout.freeze = true) :
    r = .ok none ∧ Still s s' := by
  cases h with
  | frozen _ hetag => exact ⟨rfl, (rememberEtag_run hetag).still rfl⟩
  | panicked hno _ _ => exact absurd hfreeze (by rw [hno]; exact Bool.false_ne_true)
  | noRing hno _ _ => exact absurd hfreeze (by rw [hno]; exact Bool.false_ne_true)
  | upToDate hno _ _ _ _ => exact absurd hfreeze (by rw [hno]; exact Bool.false_ne_true)
  | swapped hno _ _ _ => exact absurd hfreeze (by rw [hno]; exact Bool.false_ne_true)

/-- A manifest that takes a frozen node on: not frozen itself, and not older. -/
def Unfreezes (q : Nat) (accepted : Accepted) : Prop :=
  accepted.rollout.freeze = false ∧ ∃ q', accepted.rollout.sequence = some q' ∧ q ≤ q'

/-- **One call of a frozen node.** -/
theorem Served.still {q : Nat} (hload : ¬ faults.load) (hs : s.Consistent) (hlayout : Layout s.tree)
    (hq : 1 ≤ q) (hmark : q ≤ s.mem.lastSequence)
    (hno : ∀ a, answer.accepted = some a → ¬ Unfreezes q a)
    (h : Served faults source tr s s' c answer) :
    (c = .poll → answer.bundle = none) ∧ Still s s' := by
  cases h with
  | poll hpoll =>
    cases hpoll with
    | failed heq =>
      rw [heq]
      exact ⟨fun _ => rfl, rfl, rfl⟩
    | unchanged _ _ _ hrecord =>
      have hstill := hrecord.still rfl
      exact ⟨fun _ => rfl, hstill.digest, hstill.link⟩
    | @accepted accepted _ _ _ _ _ hgenuine _ _ _ _ _ hrecord hfollow =>
      -- what passes is at least as new as the mark, so it has to be frozen
      have hfresh := hgenuine.fresh
      rw [hgenuine.mark] at hfresh
      obtain ⟨q', hq', hle⟩ := checkFreshness_sequence hfresh (by omega)
      have hfreeze : accepted.rollout.freeze = true := by
        by_contra hne
        exact hno accepted rfl ⟨Bool.eq_false_iff.mpr hne, q', hq', by omega⟩
      obtain ⟨hr, hstill⟩ := hfollow.still hfreeze
      have hrecorded := (hrecord.still rfl).trans hstill
      rw [hr]
      exact ⟨fun _ => rfl, hrecorded.digest, hrecorded.link⟩
  | recordError hrecord => exact ⟨nofun, hrecord.still rfl⟩
  | loadNone heq =>
    rw [heq]
    exact ⟨nofun, rfl, rfl⟩
  | loadCurrent _ hread =>
    have hsound : Sound False (fun _ _ => True) s.tree := ⟨hlayout, nofun⟩
    rw [(read_sound hsound hread).1]
    exact ⟨nofun, rfl, rfl⟩
  | restart hprepare hstate =>
    have hwatch : Watch (Faulty faults.fs) (fun _ _ => True) (fun _ t' => ThinEnds False s.tree t')
        source.store.prepare.run s.tree := prepare_watch hlayout
    obtain ⟨t, hends, hs1⟩ := onFs_post hwatch hprepare
    have hsame := onFs_sameBut hprepare
    obtain ⟨hmem, _, htree⟩ := restart_mem hload (hsame.consistent hs) hstate
    refine ⟨nofun, by rw [hmem, hsame.mem], ?_⟩
    rw [htree, hs1]
    exact hends.2.others [current] (by decide)

/-- What holds between the calls of a node that was frozen at `s₀`. -/
structure FrozenSince (q : Nat) (s₀ s : PollState) : Prop where
  consistent : s.Consistent
  layout : Layout s.tree
  mark : q ≤ s.mem.lastSequence
  still : Still s₀ s

theorem serve_frozenSince {q : Nat} {s0 : PollState} (hsave : ¬ faults.save) (hload : ¬ faults.load)
    (hq : 1 ≤ q) (hno : ∀ a, answer.accepted = some a → ¬ Unfreezes q a) (hI : FrozenSince q s0 s)
    (h : Exec (pollWorld faults) (source.serve c) s tr answer s') :
    (c = .poll → answer.bundle = none) ∧ FrozenSince q s0 s' := by
  have hserved := serve_run h
  obtain ⟨hnone, hstill⟩ := hserved.still hload hI.consistent hI.layout hq hI.mark hno
  have hmark := hserved.mark hsave hload hI.consistent
  exact ⟨hnone, hmark.consistent, hserved.layout hI.layout, Nat.le_trans hI.mark hmark.kept,
    hI.still.trans hstill⟩

theorem session_layout (hlayout : Layout s.tree)
    (h : Session (pollWorld faults) source.serve s ds s') : Layout s'.tree := by
  refine (Session.all (I := fun s => Layout s.tree) (A := fun _ => True) (P := fun _ => True) ?_ h
    (fun _ _ => trivial) hlayout).2
  intro c s tr b s' _ hI hrun
  exact ⟨trivial, (serve_run hrun).layout hI⟩

/-- **The kill switch.** Once a frozen manifest with sequence `q` has passed, no poll returns a
    bundle, and neither the digest nor the link moves, until a manifest passes that is not frozen
    and has a sequence of at least `q`. -/
theorem frozen_until_unfrozen {t : FileTree Bytes} {file : Option State} {s₁ : PollState}
    {ds rest : List (Done PollSig Call Answer)} {a : Accepted} {q : Nat} (hsave : ¬ faults.save)
    (hload : ¬ faults.load) (hlayout : Layout t)
    (h : Session (pollWorld faults) source.serve (.boot t file) ds s₁) (ha : a ∈ acceptedIn ds)
    (_hfreeze : a.rollout.freeze = true) (hseq : a.rollout.sequence = some q) (hq : 1 ≤ q)
    (hrest : Session (pollWorld faults) source.serve s₁ rest s')
    (hno : ∀ b ∈ acceptedIn rest, ¬ Unfreezes q b) :
    (∀ d ∈ rest, d.call = .poll → d.answer.bundle = none) ∧ Still s₁ s' := by
  obtain ⟨_, hconsistent, hcovers⟩ := session_markCovers hsave hload h
  have hstart : FrozenSince q s₁ s₁ :=
    ⟨hconsistent, session_layout hlayout h, hcovers a ha q hseq, rfl, rfl⟩
  have hall := Session.trail (I := fun _ s => FrozenSince q s₁ s)
    (A := fun d => ∀ b, d.answer.accepted = some b → ¬ Unfreezes q b)
    (P := fun _ d => d.call = .poll → d.answer.bundle = none)
    (fun _ c s tr b s' hA => serve_frozenSince hsave hload hq hA) hrest
    (fun d hd b hb => hno b (mem_acceptedIn.mpr ⟨d, hd, hb⟩)) [] hstart
  refine ⟨?_, hall.2.still⟩
  intro d hd
  obtain ⟨ds₁, ds₂, hds⟩ := List.append_of_mem hd
  exact hall.1 ds₁ d ds₂ hds

theorem frozen_until_unfrozen_twice :
    let day := frozenTable.play frozenSource [.restart, .poll] (.boot emptyTree none)
    let next := frozenTable.play frozenSource [.poll, .restart, .poll] day.2
    (acceptedIn next.1).length = 2 ∧
      (∀ d ∈ next.1, d.call = .poll → d.answer.bundle = none) ∧ Still day.2 next.2 := by
  intro day next
  obtain ⟨⟨a, ha, hfreeze, hseq⟩, hno, htwo⟩ : (∃ a ∈ acceptedIn day.1,
      a.rollout.freeze = true ∧ a.rollout.sequence = some 1) ∧
      (∀ b ∈ acceptedIn next.1, b.rollout.freeze = true) ∧ (acceptedIn next.1).length = 2 := by
    decide +kernel
  refine ⟨htwo, frozen_until_unfrozen noFaults_save noFaults_load
    emptyTree_emptyDir.layout (frozenTable.play_session noFaults _ _ _) ha hfreeze hseq (by decide)
    (frozenTable.play_session noFaults _ _ _) ?_⟩
  intro b hb hunfreezes
  have hnot := hunfreezes.1
  rw [hno b hb] at hnot
  cases hnot

/-- **The kill switch is forgotten** with the mark: after a restart that cannot read `state.json` a
    manifest passes that is neither frozen nor has a sequence, and its bundle is applied. -/
theorem forgotten_mark_unfreezes :
    Session (pollWorld loadFault) forgetfulSource.serve (.boot emptyTree none) forgetfulDay.1
        forgetfulDay.2 ∧
      (acceptedIn forgetfulDay.1).map (fun a => (a.rollout.freeze, a.rollout.sequence)) =
        [(true, some 1)] ∧
      Session (pollWorld loadFault) forgetfulSource.serve forgetfulDay.2 nextForgetfulDay.1
        nextForgetfulDay.2 ∧
      (∀ b ∈ acceptedIn nextForgetfulDay.1, ¬ Unfreezes 1 b) ∧
      nextForgetfulDay.1.map (·.answer.bundle) =
        [none, some ⟨firstDigest, [⟨"bundle.toml", bundleText⟩]⟩] ∧
      ¬ Still forgetfulDay.2 nextForgetfulDay.2 := by
  obtain ⟨hfrozen, hnext, hbundles, hbefore, hafter⟩ := forgetfulDays
  refine ⟨playForgetful_session _ _, hfrozen, playForgetful_session _ _, ?_, hbundles, ?_⟩
  · rintro b hb ⟨-, q, hq, -⟩
    have hpair := hnext ▸ List.mem_map_of_mem hb
    simp [hq] at hpair
  · intro hstill
    have hsame := hstill.digest
    rw [hbefore, hafter] at hsame
    exact absurd hsame (by decide)

/-! ## 4. Full fetches -/

/-- A 304 was never the answer to a request without an ETag. -/
def NoUnasked304 (source : Source) (tr : List (Event PollSig)) : Prop :=
  ∀ response, Asked source tr none response → response.status ≠ 304

/-- The call was a poll that returned `Ok`. -/
def PolledOk (answer : Answer) : Prop := ∃ accepted bundle, answer = .polled ⟨accepted, .ok bundle⟩

instance (answer : Answer) : Decidable (PolledOk answer) :=
  match answer with
  | .polled ⟨accepted, .ok bundle⟩ => .isTrue ⟨accepted, bundle, rfl⟩
  | .polled ⟨_, .error _⟩ => .isFalse nofun
  | .recorded => .isFalse nofun
  | .loaded _ => .isFalse nofun
  | .started _ => .isFalse nofun

/-- A poll that sent no ETag and returned `Ok` has let a manifest pass. -/
theorem Polled.checked {outcome : Outcome} {bundle : Option PolicyBundle}
    (h : Polled faults source tr s s' outcome) (hok : outcome.result = .ok bundle)
    (hsent : source.fullFetch (s.polls + 1) = true ∨ s.mem.digest.isEmpty = true)
    (h304 : NoUnasked304 source tr) :
    ∃ accepted, outcome.accepted = some accepted ∧ Genuine source s.mem tr accepted := by
  cases h with
  | failed _ => cases hok
  | unchanged hasked hstatus hetag _ =>
    have hnone := hsent.elim hetag.full hetag.applied
    rw [hnone] at hasked
    exact absurd hstatus (h304 _ hasked)
  | accepted hgenuine _ _ _ _ _ _ _ => exact ⟨_, rfl, hgenuine⟩

def Call.isPoll : Call → Bool
  | .poll => true
  | _ => false

/-- The counter counts the polls of a process. -/
theorem Served.polls (h : Served faults source tr s s' c answer) (hc : c ≠ .restart) :
    s'.polls = if c.isPoll then s.polls + 1 else s.polls := by
  cases h with
  | poll hpoll =>
    cases hpoll with
    | failed heq =>
      rw [heq]
      rfl
    | unchanged _ _ _ hrecord => exact hrecord.polls
    | accepted _ _ _ _ _ _ hrecord hfollow =>
      obtain ⟨m, hrecorded, _⟩ := hfollow.settled
      exact hrecorded.polls.trans hrecord.polls
  | recordError hrecord => exact hrecord.polls
  | loadNone heq =>
    rw [heq]
    rfl
  | loadCurrent _ hread => exact ((onFs_sameBut hread).recorded faults).polls
  | restart _ _ => exact absurd rfl hc

/-- Among `n` values of the counter in a row one is a multiple of `n`, also where it wraps. -/
theorem exists_multiple (c n : UInt64) (hn : 0 < n) :
    ∃ k : Nat, 1 ≤ k ∧ k ≤ n.toNat ∧ (c + UInt64.ofNat k) % n = 0 := by
  have hpos : 0 < n.toNat := UInt64.lt_iff_toNat_lt.mp hn
  have hnlt := n.toNat_lt
  have hclt := c.toNat_lt
  have hvalue : ∀ k : Nat, k ≤ n.toNat → (c.toNat + k) % 2 ^ 64 % n.toNat = 0 →
      (c + UInt64.ofNat k) % n = 0 := by
    intro k hk hmod
    apply UInt64.toNat_inj.mp
    rw [UInt64.toNat_mod, UInt64.toNat_add, UInt64.toNat_ofNat_of_lt' (Nat.lt_of_le_of_lt hk hnlt)]
    exact hmod
  have hrest := Nat.mod_lt c.toNat hpos
  by_cases hwrap : c.toNat + (n.toNat - c.toNat % n.toNat) < 2 ^ 64
  · refine ⟨n.toNat - c.toNat % n.toNat, by omega, by omega, hvalue _ (by omega) ?_⟩
    rw [Nat.mod_eq_of_lt hwrap]
    have hsplit : c.toNat + (n.toNat - c.toNat % n.toNat) = n.toNat * (c.toNat / n.toNat + 1) := by
      have hdiv := Nat.div_add_mod c.toNat n.toNat
      rw [Nat.mul_add, Nat.mul_one]
      omega
    rw [hsplit]
    exact Nat.mul_mod_right _ _
  · -- the counter wraps before: it is 0 on the way, and that is a multiple
    refine ⟨2 ^ 64 - c.toNat, by omega, by omega, hvalue _ (by omega) ?_⟩
    rw [Nat.add_sub_cancel' (Nat.le_of_lt hclt), Nat.mod_self, Nat.zero_mod]

/-- A manifest passed in some call of a session that started at `s`. -/
def CheckedIn (faults : Faults) (source : Source) (s : PollState)
    (ds : List (Done PollSig Call Answer)) : Prop :=
  ∃ ds₁ d ds₂ s₁ accepted, ds = ds₁ ++ d :: ds₂ ∧
    Session (pollWorld faults) source.serve s ds₁ s₁ ∧ d.answer.accepted = some accepted ∧
    Genuine source s₁.mem d.trace accepted

/-- The `k`-th poll from here is a full fetch, so a manifest passes on the way to it. -/
theorem checked_by_full_fetch {k : Nat} (h : Session (pollWorld faults) source.serve s ds s')
    (hcalls : ∀ d ∈ ds, d.call ≠ .restart) (hok : ∀ d ∈ ds, d.call = .poll → PolledOk d.answer)
    (h304 : ∀ d ∈ ds, NoUnasked304 source d.trace) (hk : 1 ≤ k)
    (hlen : k ≤ ds.countP fun d => d.call.isPoll)
    (hfull : source.fullFetch (s.polls + UInt64.ofNat k) = true) :
    CheckedIn faults source s ds := by
  induction h generalizing k with
  | nil =>
    rw [List.countP_nil] at hlen
    omega
  | @cons s s1 s' c tr b ds hrun hsession ih =>
    have hserved := serve_run hrun
    have hpolls := hserved.polls (hcalls _ (.head _))
    have hlater : ∀ k', 1 ≤ k' → k' ≤ (ds.countP fun d => d.call.isPoll) →
        source.fullFetch (s1.polls + UInt64.ofNat k') = true →
        CheckedIn faults source s (⟨c, tr, b⟩ :: ds) := by
      intro k' hk' hlen' hfull'
      obtain ⟨ds1, d, ds2, s2, accepted, hds, hfirst, hpassed⟩ :=
        ih (fun d hd => hcalls d (.tail _ hd))
          (fun d hd => hok d (.tail _ hd))
          (fun d hd => h304 d (.tail _ hd)) hk' hlen' hfull'
      exact ⟨⟨c, tr, b⟩ :: ds1, d, ds2, s2, accepted, by rw [hds]; rfl, .cons hrun hfirst, hpassed⟩
    cases c with
    | poll =>
      by_cases hone : k = 1
      · subst hone
        obtain ⟨found, bundle, hanswer⟩ := hok _ (.head _) rfl
        have hanswer : b = .polled ⟨found, .ok bundle⟩ := hanswer
        subst hanswer
        cases hserved with
        | poll hpoll =>
          obtain ⟨accepted, hfound, hgenuine⟩ :=
            hpoll.checked rfl (.inl hfull) (h304 _ (.head _))
          exact ⟨[], _, ds, s, accepted, rfl, .nil, hfound, hgenuine⟩
      · refine hlater (k - 1) (by omega) ?_ ?_
        · rw [List.countP_cons_of_pos rfl] at hlen
          omega
        rw [hpolls]
        have hsum : s.polls + 1 + UInt64.ofNat (k - 1) = s.polls + UInt64.ofNat k := by
          obtain ⟨k', rfl⟩ : ∃ k', k = k' + 1 := ⟨k - 1, by omega⟩
          rw [UInt64.add_assoc, Nat.add_sub_cancel, UInt64.ofNat_add]
          rw [UInt64.add_comm (UInt64.ofNat k')]
          rfl
        rw [show (Call.poll.isPoll : Bool) = true from rfl, if_pos rfl, hsum]
        exact hfull
    | recordError e =>
      rw [List.countP_cons_of_neg (by simp [Call.isPoll])] at hlen
      exact hlater k hk hlen (by rw [hpolls]; exact hfull)
    | loadCurrent =>
      rw [List.countP_cons_of_neg (by simp [Call.isPoll])] at hlen
      exact hlater k hk hlen (by rw [hpolls]; exact hfull)
    | restart => exact absurd rfl (hcalls _ (.head _))

/-- **Full fetches.** If the registry never answers 304 to a request without an ETag: among any
    `fullFetchEvery` polls of one process that all return `Ok`, one let a manifest pass, and while
    no bundle is applied every poll that returns `Ok` did. -/
theorem full_fetch_checks_manifest (faults : Faults) (source : Source)
    (hevery : 0 < source.fullFetchEvery) :
    (∀ s s' ds, Session (pollWorld faults) source.serve s ds s' →
      (∀ d ∈ ds, d.call ≠ .restart) → (∀ d ∈ ds, d.call = .poll → PolledOk d.answer) →
      (∀ d ∈ ds, NoUnasked304 source d.trace) →
      source.fullFetchEvery.toNat ≤ (ds.countP fun d => d.call.isPoll) →
      CheckedIn faults source s ds) ∧
    ∀ s tr outcome s' bundle, Exec (pollWorld faults) source.poll s tr outcome s' →
      s.mem.digest.isEmpty = true → outcome.result = .ok bundle → NoUnasked304 source tr →
      ∃ accepted, outcome.accepted = some accepted ∧ Genuine source s.mem tr accepted := by
  refine ⟨?_, ?_⟩
  · intro s s' ds h hcalls hok h304 hmany
    obtain ⟨k, hk, hkn, hmultiple⟩ := exists_multiple s.polls source.fullFetchEvery hevery
    refine checked_by_full_fetch h hcalls hok h304 hk (Nat.le_trans hkn hmany) ?_
    simp [Source.fullFetch, hevery, hmultiple]
  · intro s tr outcome s' bundle h hempty hok h304
    exact (poll_run h).checked hok (.inr hempty) h304

/-- A source that never sends an ETag. -/
def everyPollSource : Source := { frozenSource with fullFetchEvery := 1 }

def unaskedTable : Table where
  manifest _ _ := .ok ⟨304, none, .ok []⟩
  blob := frozenTable.blob
  now := 0

def unaskedDay : List (Done PollSig Call Answer) × PollState :=
  unaskedTable.play everyPollSource [.poll] (.boot emptyTree none)

/-- A 304 to a request without an ETag is taken for an answer: a node that fetches in full every
    time, and has no bundle, polls with success and has checked nothing. -/
theorem unasked_304_passes_for_success :
    everyPollSource.fullFetchEvery = 1 ∧ (PollState.boot emptyTree none).mem.digest = "" ∧
      Session (pollWorld noFaults) everyPollSource.serve (.boot emptyTree none) unaskedDay.1
        unaskedDay.2 ∧
      (∃ tr, unaskedDay.1 = [⟨.poll, tr, .polled ⟨none, .ok none⟩⟩]) ∧
      ¬ CheckedIn noFaults everyPollSource (.boot emptyTree none) unaskedDay.1 := by
  have hday : ∃ tr, unaskedDay.1 = [⟨.poll, tr, .polled ⟨none, .ok none⟩⟩] := ⟨_, rfl⟩
  refine ⟨rfl, rfl, unaskedTable.play_session noFaults _ _ _, hday, ?_⟩
  intro hchecked
  obtain ⟨tr, hday⟩ := hday
  obtain ⟨ds₁, d, ds₂, s₁, accepted, hds, _, hpassed, _⟩ := hchecked
  have hd : d ∈ unaskedDay.1 := by
    rw [hds]
    simp
  rw [hday, List.mem_singleton] at hd
  rw [hd] at hpassed
  cases hpassed

theorem full_fetch_checks_manifest_twice :
    let day := frozenTable.play everyPollSource [.poll, .poll] (.boot emptyTree none)
    (acceptedIn day.1).length = 2 ∧
      CheckedIn noFaults everyPollSource (.boot emptyTree none) day.1 := by
  intro day
  have hcalls : day.1.map Done.call = [.poll, .poll] := playAll_calls
  obtain ⟨hok, htwo⟩ : (∀ d ∈ day.1, PolledOk d.answer) ∧ (acceptedIn day.1).length = 2 := by
    decide +kernel
  refine ⟨htwo, (full_fetch_checks_manifest noFaults everyPollSource (by decide)).1 _ _
    _ (frozenTable.play_session noFaults _ _ _) ?_ (fun d hd _ => hok d hd) ?_ ?_⟩
  · intro d hd hrestart
    have hmem := List.mem_map_of_mem (f := Done.call) hd
    rw [hcalls, hrestart] at hmem
    simp at hmem
  · intro d hd response hasked hstatus
    obtain ⟨s₁, hans⟩ := playAll_answers hd _ hasked
    obtain rfl := Except.ok.inj hans
    cases hstatus
  · have hcount := List.countP_map (p := Call.isPoll) (f := Done.call) (l := day.1)
    rw [hcalls] at hcount
    show 1 ≤ day.1.countP (Call.isPoll ∘ Done.call)
    rw [← hcount]
    decide

end Svidlet.Policy
