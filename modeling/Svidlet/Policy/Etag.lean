import Svidlet.Policy.Fresh

/-!
# What a 304 stands for

A node that sends the ETag it remembers and hears 304 does nothing, so the ETag has to be the one of
a manifest that leaves nothing to do: a frozen one, one without a ring for this node, or one that
names the bundle in use.

> `Current manifest digest`

That is a tie between two fields of the state, `manifestEtag` and `digest`, and every path through a
poll has to keep it. Failures do, since the ETag is written last. One path does not: a response
*without* an ETag changes the digest and leaves the ETag of an earlier manifest where it was. When
the registry goes back to that manifest, its 304 is the truth about the manifest and not about the
node.

The registry is a map from ETags to manifests, the one each was given to (`manifestOf`).
-/

namespace Svidlet.Policy

open Lib Lib.FileTree

/-! ## 1. The tie -/

/-- A node with this digest has nothing to do under this manifest. -/
def Current (source : Source) (rollout : Rollout) (digest : String) : Prop :=
  rollout.freeze = true ∨ rollout.target source.crates source.cluster source.node = some none ∨
    ∃ ring, rollout.target source.crates source.cluster source.node = some (some ring) ∧
      ring.bundle = digest

/-- An ETag that will be sent belongs to a manifest that leaves nothing to do. -/
def Tied (manifestOf : String → Rollout) (source : Source) (m : State) : Prop :=
  m.manifestEtag.isEmpty = false → Current source (manifestOf m.manifestEtag) m.digest

/-- A registry in which an ETag stands for one manifest, and which answers 304 only to an ETag. -/
structure OneManifestPerEtag (manifestOf : String → Rollout) (source : Source)
    (tr : List (Event PollSig)) : Prop where
  gave : ∀ e rollout, Gave source tr (some e) rollout → rollout = manifestOf e
  sent : ∀ etag response, Asked source tr etag response → response.status = 304 → etag ≠ none

/-- A manifest without an ETag, given to a node that remembers one, leaves it nothing to do. -/
def NoEtagNoChange (source : Source) (m : State) (tr : List (Event PollSig)) : Prop :=
  ∀ rollout, Gave source tr none rollout →
    m.manifestEtag.isEmpty = true ∨ Current source rollout m.digest

section

variable {manifestOf : String → Rollout} {faults : Faults} {source : Source} {s s' : PollState}
  {tr : List (Event PollSig)}

variable {m m' : State}

theorem Tied.congr (h : Tied manifestOf source m) (hetag : m'.manifestEtag = m.manifestEtag)
    (hdigest : m'.digest = m.digest) :
    Tied manifestOf source m' := by
  unfold Tied
  rw [hetag, hdigest]
  exact h

variable {accepted : Accepted} {r : Except Stop (Option PolicyBundle)}

/-- Following a manifest that came with an ETag ties that ETag to the digest it leaves. -/
theorem Settled.tied {e : String} (h : Settled source accepted m r m')
    (hm : Tied manifestOf source m) (hetag : accepted.etag = some e)
    (hmanifest : accepted.rollout = manifestOf e) :
    Tied manifestOf source m' := by
  cases h with
  | stopped => exact hm
  | frozen hfreeze =>
    rw [hetag]
    exact fun _ => .inl (hmanifest ▸ hfreeze)
  | noRing _ htarget =>
    rw [hetag]
    exact fun _ => .inr (.inl (hmanifest ▸ htarget))
  | upToDate _ htarget hdigest =>
    rw [hetag]
    exact fun _ => .inr (.inr ⟨_, hmanifest ▸ htarget, hdigest.symm⟩)
  | applied _ htarget _ =>
    rw [hetag]
    exact fun _ => .inr (.inr ⟨_, hmanifest ▸ htarget, rfl⟩)

/-- Following one without keeps the tie if there was no ETag, or nothing to do. -/
theorem Settled.tied_without (h : Settled source accepted m r m') (hm : Tied manifestOf source m)
    (hetag : accepted.etag = none)
    (hnothing : m.manifestEtag.isEmpty = true ∨ Current source accepted.rollout m.digest) :
    Tied manifestOf source m' := by
  cases h with
  | stopped => exact hm
  | frozen _ =>
    rw [hetag]
    exact hm
  | noRing _ _ =>
    rw [hetag]
    exact hm
  | upToDate _ _ _ =>
    rw [hetag]
    exact hm
  | applied hfreeze htarget _ =>
    rw [hetag]
    rcases hnothing with hempty | hfrozen | hnone | ⟨ring, hring, hdigest⟩
    · intro hnonempty
      exact absurd hempty (by rw [show m.manifestEtag.isEmpty = false from hnonempty]; nofun)
    · rw [hfreeze] at hfrozen
      cases hfrozen
    · rw [htarget] at hnone
      cases hnone
    · rw [htarget] at hring
      obtain rfl := Option.some.inj (Option.some.inj hring)
      exact hm.congr rfl hdigest

/-- What holds between calls. -/
def TiedState (manifestOf : String → Rollout) (faults : Faults) (source : Source) (s : PollState) :
    Prop :=
  Tied manifestOf source s.mem ∧ (¬ faults.save → s.Consistent)

/-- What is asked of a call in state `s`: the registry keeps to its part, a manifest without an
    ETag changes nothing, and a restart finds the state that was saved. -/
structure EtagCall (manifestOf : String → Rollout) (faults : Faults) (source : Source)
    (s : PollState) (d : Done PollSig Call Answer) : Prop where
  registry : OneManifestPerEtag manifestOf source d.trace
  without : NoEtagNoChange source s.mem d.trace
  restart : d.call = .restart → ¬ faults.save ∧ ¬ faults.load

/-- The poll heard 304, to an ETag whose manifest leaves a node with this digest nothing to do. -/
def NotModified (manifestOf : String → Rollout) (source : Source) (tr : List (Event PollSig))
    (digest : String) : Prop :=
  ∃ e response, Asked source tr (some e) response ∧ response.status = 304 ∧
    Current source (manifestOf e) digest

theorem Recorded.tied (h : Recorded faults s s' m) (hm : Tied manifestOf source m)
    (hs : TiedState manifestOf faults source s) : TiedState manifestOf faults source s' :=
  ⟨h.mem ▸ hm, fun hsave => h.saved hsave (hs.2 hsave)⟩

theorem Served.tied {c : Call} {answer : Answer}
    (hcall : EtagCall manifestOf faults source s ⟨c, tr, answer⟩)
    (hs : TiedState manifestOf faults source s) (h : Served faults source tr s s' c answer) :
    TiedState manifestOf faults source s' := by
  cases h with
  | poll hpoll =>
    cases hpoll with
    | failed heq =>
      rw [heq]
      exact hs
    | unchanged _ _ _ hrecord => exact hrecord.toRecorded.tied hs.1 hs
    | @accepted accepted _ _ _ _ _ _ hgave _ _ _ _ hrecord hfollow =>
      have h1 := hrecord.toRecorded.tied hs.1 hs
      obtain ⟨m, hrecorded, hsettled⟩ := hfollow.settled
      cases hetag : accepted.etag with
      | some e =>
        rw [hetag] at hgave
        exact hrecorded.tied (hsettled.tied h1.1 hetag (hcall.registry.gave e _ hgave)) h1
      | none =>
        rw [hetag] at hgave
        refine hrecorded.tied (hsettled.tied_without h1.1 hetag ?_) h1
        rw [hrecord.mem]
        exact hcall.without _ hgave
  | recordError hrecord => exact hrecord.toRecorded.tied hs.1 hs
  | loadNone heq =>
    rw [heq]
    exact hs
  | loadCurrent _ hread => exact ((onFs_sameBut hread).recorded faults).tied hs.1 hs
  | restart hprepare hstate =>
    obtain ⟨hsave, hload⟩ := hcall.restart rfl
    have h1 := ((onFs_sameBut hprepare).recorded faults).tied hs.1 hs
    obtain ⟨hmem, hconsistent, _⟩ := restart_mem hload (h1.2 hsave) hstate
    exact ⟨by rw [hmem]; exact h1.1, fun _ => hconsistent⟩

/-- The poll that ends in a 304, from a tied state. -/
theorem Polled.notModified (hregistry : OneManifestPerEtag manifestOf source tr)
    (hs : Tied manifestOf source s.mem) (h : Polled faults source tr s s' ⟨none, .ok none⟩) :
    NotModified manifestOf source tr s'.mem.digest := by
  cases h with
  | unchanged hasked hstatus hsent hrecord =>
    obtain ⟨e, he⟩ := Option.ne_none_iff_exists'.mp (hregistry.sent _ _ hasked hstatus)
    obtain ⟨hsame, hnonempty⟩ := hsent.remembered e he
    refine ⟨e, _, he ▸ hasked, hstatus, ?_⟩
    rw [hrecord.mem, hsame]
    exact hs (hsame ▸ hnonempty)

end

/-! ## 2. Sessions -/

section

variable {manifestOf : String → Rollout} {faults : Faults} {source : Source} {s' : PollState}

/-- **A 304 is the truth.** If no manifest without an ETag moves a node that remembers one, then
    whenever a poll ends in a 304 the manifest it stands for leaves the node nothing to do. -/
theorem not_modified_is_current {t : FileTree Bytes} {ds : List (Done PollSig Call Answer)}
    {tr : List (Event PollSig)}
    (h : Session (pollWorld faults) source.serve (.boot t none)
      (ds ++ [⟨.poll, tr, .polled ⟨none, .ok none⟩⟩]) s')
    (hcalls : ∀ ds₁ d ds₂ s₁, ds ++ [⟨.poll, tr, .polled ⟨none, .ok none⟩⟩] = ds₁ ++ d :: ds₂ →
      Session (pollWorld faults) source.serve (.boot t none) ds₁ s₁ →
      EtagCall manifestOf faults source s₁ d) :
    NotModified manifestOf source tr s'.mem.digest := by
  obtain ⟨s₁, hsession, hlast⟩ := Session.snoc_inv h
  have hstart : TiedState manifestOf faults source (.boot t none) := ⟨nofun, fun _ => rfl⟩
  have htied : TiedState manifestOf faults source s₁ := by
    refine Session.kept (A := EtagCall manifestOf faults source)
      (fun c s tr b s' hA hI hrun => (serve_run hrun).tied hA hI) hsession ?_ hstart
    intro ds₁ d ds₂ s₂ hds hfirst
    exact hcalls ds₁ d (ds₂ ++ [⟨.poll, tr, .polled ⟨none, .ok none⟩⟩]) s₂
      (by rw [hds, List.append_assoc, List.cons_append]) hfirst
  have hregistry := (hcalls ds _ [] s₁ rfl hsession).registry
  cases serve_run hlast with
  | poll hpoll => exact hpoll.notModified hregistry htied.1

end

/-! ## 3. A rollback -/

def rollbackSource : Source := sampleSource [firstRelease, secondRelease] [(firstBundle,
    bigEndian 32 0x46be3b261b2182d31b090f0c3b8621f96973239ef8a957738e955a510820ab98),
    (secondBundle, bigEndian 32 0x89f3d1941182590bbf2f8fad504c289fc5e37983ee4b9c879500a70ad1ea4114)]

/-- The first manifest under the tag, with its ETag. -/
def firstServed (sent : Option String) : Response :=
  if sent = some "e" then ⟨304, some "e", .ok []⟩ else firstRelease.response (some "e")

/-- The first manifest, then for one poll the second, without an ETag, then the first again. -/
def rollbackTable : Table where
  manifest poll sent := .ok (if poll = 2 then secondRelease.response none else firstServed sent)
  blob := blobOf rollbackSource [firstRelease, secondRelease]
    [(firstDigest, firstBundle), (secondDigest, secondBundle)]
  now := 0

/-- The node has followed the registry to the second bundle. -/
def rollbackMorning : List (Done PollSig Call Answer) × PollState :=
  rollbackTable.play rollbackSource [.restart, .poll, .poll] (.boot emptyTree none)

theorem rollbackMorning_session : Session (pollWorld noFaults) rollbackSource.serve
    (.boot emptyTree none) rollbackMorning.1 rollbackMorning.2 := by
  unfold rollbackMorning
  exact rollbackTable.play_session noFaults _ _ _

/-- The poll after the rollback. -/
def rollbackPoll : List (Event PollSig) × Answer × PollState :=
  (rollbackSource.serve .poll).play rollbackTable.answer rollbackMorning.2

def Answer.isUnchanged : Answer → Bool
  | .polled ⟨none, .ok none⟩ => true
  | _ => false

variable {answer : Answer}

theorem isUnchanged_eq (h : answer.isUnchanged = true) : answer = .polled ⟨none, .ok none⟩ := by
  unfold Answer.isUnchanged at h
  split at h
  · rfl
  · cases h

theorem rollbackPoll_exec : Exec (pollWorld noFaults) (rollbackSource.serve .poll) rollbackMorning.2
    rollbackPoll.1 rollbackPoll.2.1 rollbackPoll.2.2 := by
  unfold rollbackPoll
  exact Prog.play_exec (rollbackTable.answer_world noFaults) _ _

theorem rollbackPoll_ends :
    (rollbackPoll.2.1.isUnchanged, rollbackPoll.2.2.mem.digest) = (true, secondDigest) := by
  decide +kernel

/-- Every answer in the record is the table's. -/
def FromTable (table : Table) (tr : List (Event PollSig)) : Prop :=
  ∀ e ∈ tr, ∃ s, e.ans = (table.answer e.op s).1

variable {table : Table} {tr : List (Event PollSig)}

theorem fromTable_snoc {ds : List (Done PollSig Call Answer)} {c : Call}
    (hds : ∀ d ∈ ds, FromTable table d.trace) (htr : FromTable table tr) :
    ∀ d ∈ ds ++ [⟨c, tr, answer⟩], FromTable table d.trace := by
  intro d hd
  rcases List.mem_append.mp hd with hd | hd
  · exact hds d hd
  · obtain rfl := List.mem_singleton.mp hd
    exact htr

theorem rollbackPoll_fromTable : FromTable rollbackTable rollbackPoll.1 := by
  unfold rollbackPoll
  exact fun e he => Prog.play_answers he

theorem rollbackMorning_fromTable : ∀ d ∈ rollbackMorning.1, FromTable rollbackTable d.trace := by
  unfold rollbackMorning
  exact fun d hd => playAll_answers hd

variable {source : Source} {sent : Option String}

theorem FromTable.asked {response : Response} (h : FromTable table tr)
    (hasked : Asked source tr sent response) :
    ∃ poll, table.manifest poll sent = .ok response := by
  obtain ⟨s, hs⟩ := h _ hasked
  exact ⟨s.polls, hs.symm⟩

variable {digest : String}

theorem FromTable.layer {envelope : Bytes} (h : FromTable table tr)
    (hlayer : LayerServed source tr digest envelope) :
    ∃ response, table.blob (source.rolloutRef.blobUrl digest) = .ok response ∧
      response.body = .ok envelope := by
  obtain ⟨response, hmem, hbody⟩ := hlayer
  obtain ⟨s, hs⟩ := h _ hmem
  exact ⟨response, hs.symm, hbody⟩

theorem firstRelease_reads :
    readManifest rollbackSource.crates rollbackSource.rolloutRef.manifestUrl
      (firstRelease.response (some "e")) = .ok (.changed [firstRelease.digestText] (some "e")) := by
  decide

theorem firstRelease_opens :
    rollbackSource.crates.openEnvelope firstRelease.envelope rollbackSource.key
      = .ok firstRelease.toml := by
  decide +kernel

theorem firstRelease_parses :
    Rollout.parse rollbackSource.crates firstRelease.toml = .ok firstRelease.rollout := by
  decide

theorem rollbackTable_layer :
    rollbackTable.blob (rollbackSource.rolloutRef.blobUrl firstRelease.digestText)
      = .ok ⟨200, none, .ok firstRelease.envelope⟩ := by
  unfold rollbackTable
  simp [blobOf]

theorem firstServed_changed {etag : Option String}
    (h : readManifest rollbackSource.crates rollbackSource.rolloutRef.manifestUrl
      (firstServed sent) = .ok (.changed [digest] etag)) :
    digest = firstRelease.digestText ∧ etag = some "e" := by
  unfold firstServed at h
  split at h
  · simp [readManifest] at h
  · rw [firstRelease_reads] at h
    cases h
    exact ⟨rfl, rfl⟩

/-- A registry that has the first manifest under the tag, or the second without an ETag. -/
structure FirstOrSecond (table : Table) : Prop where
  manifest : ∀ poll sent, table.manifest poll sent = .ok (secondRelease.response none) ∨
    table.manifest poll sent = .ok (firstServed sent)
  blob : table.blob = rollbackTable.blob

theorem rollbackTable_firstOrSecond : FirstOrSecond rollbackTable := by
  refine ⟨?_, rfl⟩
  intro poll sent
  by_cases hpoll : poll = 2
  · exact .inl (congrArg Except.ok (if_pos hpoll))
  · exact .inr (congrArg Except.ok (if_neg hpoll))

/-- Such a registry keeps to its part: the one ETag it ever gives is the first manifest's, and it
    answers 304 to nothing else. -/
theorem FirstOrSecond.registry (htable : FirstOrSecond table) (h : FromTable table tr) :
    OneManifestPerEtag (fun _ => firstRelease.rollout) rollbackSource tr := by
  refine ⟨?_, ?_⟩
  · intro e rollout hgave
    obtain ⟨sent, response, digest, envelope, toml, hasked, hread, hlayer, hopen, hparse⟩ := hgave
    obtain ⟨poll, hmanifest⟩ := h.asked hasked
    rcases htable.manifest poll sent with hsecond | hfirst
    · -- the second manifest has no ETag
      rw [hsecond] at hmanifest
      obtain rfl := Except.ok.inj hmanifest
      cases (readManifest_changed hread).1
    rw [hfirst] at hmanifest
    obtain rfl := Except.ok.inj hmanifest
    obtain ⟨rfl, _⟩ := firstServed_changed hread
    obtain ⟨layer, hblob, hbody⟩ := h.layer hlayer
    rw [htable.blob, rollbackTable_layer] at hblob
    obtain rfl := Except.ok.inj hblob
    obtain rfl := Except.ok.inj hbody
    rw [firstRelease_opens] at hopen
    obtain rfl := Except.ok.inj hopen
    rw [firstRelease_parses] at hparse
    exact (Except.ok.inj hparse).symm
  · intro sent response hasked hstatus hsent
    obtain ⟨poll, hmanifest⟩ := h.asked hasked
    subst hsent
    rcases htable.manifest poll none with hsecond | hfirst
    · rw [hsecond] at hmanifest
      obtain rfl := Except.ok.inj hmanifest
      cases hstatus
    · rw [hfirst] at hmanifest
      obtain rfl := Except.ok.inj hmanifest
      cases hstatus

/-- **The defect.** The node follows the registry to the second bundle, whose manifest comes without
    an ETag. Back on the first manifest the registry says 304, truthfully, and the node stays on the
    second bundle. -/
theorem not_modified_after_missing_etag :
    ∃ ds tr s', Session (pollWorld noFaults) rollbackSource.serve (.boot emptyTree none)
        (ds ++ [⟨.poll, tr, .polled ⟨none, .ok none⟩⟩]) s' ∧
      (∀ d ∈ ds ++ [⟨.poll, tr, .polled ⟨none, .ok none⟩⟩],
        OneManifestPerEtag (fun _ => firstRelease.rollout) rollbackSource d.trace) ∧
      ¬ NotModified (fun _ => firstRelease.rollout) rollbackSource tr s'.mem.digest := by
  obtain ⟨hunchanged, hdigest⟩ := Prod.mk.inj rollbackPoll_ends
  have hanswer := isUnchanged_eq hunchanged
  have hlast := rollbackPoll_exec
  rw [hanswer] at hlast
  refine ⟨rollbackMorning.1, rollbackPoll.1, rollbackPoll.2.2,
    Session.snoc rollbackMorning_session hlast, ?_, ?_⟩
  · intro d hd
    exact rollbackTable_firstOrSecond.registry
      (fromTable_snoc rollbackMorning_fromTable rollbackPoll_fromTable d hd)
  intro hcurrent
  obtain ⟨e, response, _, _, hfrozen | hnone | ⟨ring, hring, hbundle⟩⟩ := hcurrent
  · cases hfrozen
  · cases hnone
  · obtain rfl := Option.some.inj (Option.some.inj hring)
    rw [hdigest] at hbundle
    exact absurd hbundle (by decide)

/-- The first manifest, for good. -/
def steadyTable : Table where
  manifest _ sent := .ok (firstServed sent)
  blob := rollbackTable.blob
  now := 0

def steadyMorning : List (Done PollSig Call Answer) × PollState :=
  steadyTable.play rollbackSource [.restart, .poll] (.boot emptyTree none)

def steadyPoll : List (Event PollSig) × Answer × PollState :=
  (rollbackSource.serve .poll).play steadyTable.answer steadyMorning.2

theorem steadyPoll_isUnchanged : steadyPoll.2.1.isUnchanged = true := by decide +kernel

theorem steadyPoll_exec : Exec (pollWorld noFaults) (rollbackSource.serve .poll) steadyMorning.2
    steadyPoll.1 steadyPoll.2.1 steadyPoll.2.2 := by
  unfold steadyPoll
  exact Prog.play_exec (steadyTable.answer_world noFaults) _ _

theorem steadyMorning_session : Session (pollWorld noFaults) rollbackSource.serve
    (.boot emptyTree none) steadyMorning.1 steadyMorning.2 := by
  unfold steadyMorning
  exact steadyTable.play_session noFaults _ _ _

theorem steady_fromTable :
    ∀ d ∈ steadyMorning.1 ++ [⟨.poll, steadyPoll.1, answer⟩], FromTable steadyTable d.trace := by
  refine fromTable_snoc ?_ ?_
  · unfold steadyMorning
    exact fun d hd => playAll_answers hd
  · unfold steadyPoll
    exact fun e he => Prog.play_answers he

theorem steady_call {d : Done PollSig Call Answer} {s : PollState}
    (h : FromTable steadyTable d.trace) :
    EtagCall (fun _ => firstRelease.rollout) noFaults rollbackSource s d := by
  have htable : FirstOrSecond steadyTable := ⟨fun _ _ => .inr rfl, rfl⟩
  refine ⟨htable.registry h, ?_, fun _ => ⟨id, id⟩⟩
  intro rollout hgave
  obtain ⟨sent, response, digest, envelope, toml, hasked, hread, _⟩ := hgave
  obtain ⟨poll, hmanifest⟩ := h.asked hasked
  obtain rfl := Except.ok.inj hmanifest
  cases (firstServed_changed hread).2

theorem not_modified_is_current_steady :
    NotModified (fun _ => firstRelease.rollout) rollbackSource steadyPoll.1
      steadyPoll.2.2.mem.digest := by
  have hlast := steadyPoll_exec
  rw [isUnchanged_eq steadyPoll_isUnchanged] at hlast
  refine not_modified_is_current (Session.snoc steadyMorning_session hlast) ?_
  intro ds₁ d ds₂ s₁ hds _
  have hd : d ∈ ds₁ ++ d :: ds₂ := List.mem_append_right _ (.head _)
  rw [← hds] at hd
  exact steady_call (steady_fromTable d hd)

end Svidlet.Policy
