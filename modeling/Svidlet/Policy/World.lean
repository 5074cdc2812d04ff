import Svidlet.Lib.FsLinkless
import Svidlet.Lib.Session
import Svidlet.Policy.Poll

/-!
# The state of a policy source

What a source works on: the bundle directory, `state.json`, the state in memory, and the count of
polls. `pollWorld` says what its calls do to these, with `Faults` as the list of what may go wrong
on disk. The registry is not in the state: it answers any request with anything.

Then come the runs. Each program of `Poll` gets one lemma that takes a run of it apart, and no later
proof unfolds the programs:

> `examine_run`  what passed was genuine, or the registry answered 304;
> `record_run`   the high-water mark is at least the manifest's sequence.
-/

namespace Svidlet.Policy

open Lib Lib.FileTree

/-! ## 1. States and calls -/

structure PollState where
  tree : FileTree Bytes
  stateFile : Option State
  mem : State
  polls : UInt64

/-- What may go wrong on disk. -/
structure Faults where
  fs : FsOp Bytes → Prop
  save : Prop
  load : Prop

/-- A source that has just been set up over what is on disk. -/
def PollState.boot (tree : FileTree Bytes) (stateFile : Option State) : PollState :=
  ⟨tree, stateFile, stateFile.getD State.default, 0⟩

def pollWorld (faults : Faults) : World PollSig PollState := fun op s ans s' =>
  match op with
  | .fs op => ∃ t, Faulty faults.fs op s.tree ans t ∧ s' = { s with tree := t }
  | .getManifest _ _ => s' = s
  | .getBlob _ => s' = s
  | .unixNow => s' = s
  | .countPoll => ans = s.polls + 1 ∧ s' = { s with polls := s.polls + 1 }
  | .readState => ans = s.mem ∧ s' = s
  | .updateState f => ans = f s.mem ∧ s' = { s with mem := f s.mem }
  | .saveState snapshot =>
    ans = .ok () ∧ s' = { s with stateFile := some snapshot } ∨
      faults.save ∧ (∃ e, ans = .error e) ∧ s' = s
  | .saveManifest _ => s' = s
  | .loadState => (ans = s.stateFile ∨ faults.load ∧ ans = none) ∧ s' = s
  | .begin state => s' = { s with mem := state, polls := 0 }

/-! ## 2. Programs over the directory -/

variable {faults : Faults} {s s' : PollState} {tr : List (Event PollSig)}

/-- Only the directory changed. -/
def PollState.withTree (s : PollState) (t : FileTree Bytes) : PollState := { s with tree := t }

variable {α : Type} {p : Prog (FsSig Bytes) α} {a : α}

/-- A call on disk, in the trace of a poll. -/
def onDiskEvent (ev : Event (FsSig Bytes)) : Event PollSig := ⟨.fs ev.op, ev.ans⟩

theorem onFs_run (h : Exec (pollWorld faults) (onFs p) s tr a s') :
    ∃ t tr', Exec (Faulty faults.fs) p s.tree tr' a t ∧ s' = s.withTree t ∧
      tr = tr'.map onDiskEvent := by
  induction p generalizing s tr with
  | pure b =>
    cases h
    exact ⟨s'.tree, [], .pure, rfl, rfl⟩
  | call op k ih =>
    cases h with
    | call hw hk =>
      obtain ⟨t, hstep, hs⟩ := hw
      subst hs
      obtain ⟨t', tr', hrest, hs', rfl⟩ := ih _ hk
      exact ⟨t', _, .call hstep hrest, hs', rfl⟩

variable {G : FileTree Bytes → FileTree Bytes → Prop}

/-- What is known of a program over the directory, used in a poll. -/
theorem onFs_post {Q : α → FileTree Bytes → Prop} (hp : Watch (Faulty faults.fs) G Q p s.tree)
    (h : Exec (pollWorld faults) (onFs p) s tr a s') :
    ∃ t, Q a t ∧ s' = s.withTree t := by
  obtain ⟨t, tr', hrun, hs, -⟩ := onFs_run h
  exact ⟨t, hp.post hrun, hs⟩

variable {x : Disk α} {r : Except Stop α}

theorem onDisk_run (h : Exec (pollWorld faults) (onDisk x).run s tr r s') :
    ∃ r0, r = r0.mapError .failed ∧ Exec (pollWorld faults) (onFs x.run) s tr r0 s' := by
  obtain ⟨tr1, tr2, r0, s₁, htr, hx, hend⟩ := Exec.bind_inv h
  cases hend
  rw [List.append_nil] at htr
  exact ⟨r0, rfl, htr ▸ hx⟩

@[simp] theorem mapError_ok {ε ε' : Type} {f : ε → ε'} {x : Except ε α} :
    x.mapError f = .ok a ↔ x = .ok a := by
  cases x with
  | ok b => simp [Except.mapError]
  | error e => simp [Except.mapError]

theorem onDisk_post {Q : Except Error α → FileTree Bytes → Prop}
    (hx : Watch (Faulty faults.fs) G Q x.run s.tree)
    (h : Exec (pollWorld faults) (onDisk x).run s tr r s') :
    ∃ r0 t, r = r0.mapError .failed ∧ Q r0 t ∧ s' = s.withTree t := by
  obtain ⟨r0, hr, hrun⟩ := onDisk_run h
  obtain ⟨t, hQ, hs⟩ := onFs_post hx hrun
  exact ⟨r0, t, hr, hQ, hs⟩

theorem withTree_self (s : PollState) : s.withTree s.tree = s := rfl

variable {digest : String} {b : Bool}

/-- Looking whether a version is there changes nothing. -/
theorem has_run (h : Exec (pollWorld faults) (onFs (Store.has digest)) s tr b s') :
    s' = s := by
  have hwatch : Watch (Faulty faults.fs) (fun _ _ => True) (fun _ t => t = s.tree)
      (Store.has digest) s.tree :=
    watch_call fun ans t hw => ⟨trivial, hw.isDir_same⟩
  obtain ⟨t, ht, hs⟩ := onFs_post hwatch h
  rw [hs, ht, withTree_self]

theorem ask_run {op : PollOp} {ans : op.Ans} (h : Exec (pollWorld faults) (ask op) s tr ans s') :
    tr = [⟨op, ans⟩] ∧ pollWorld faults op s ans s' := h.op_inv

/-! ## 3. What is remembered -/

/-- `state.json` holds what the memory does. -/
def PollState.Consistent (s : PollState) : Prop := s.stateFile.getD State.default = s.mem

/-- The state in memory became `m`, and unless saving failed it is the saved one. What is saved
    names the digest of before, or the new one. -/
structure Recorded (faults : Faults) (s s' : PollState) (m : State) : Prop where
  polls : s'.polls = s.polls
  mem : s'.mem = m
  saved : ¬ faults.save → s.Consistent → s'.Consistent
  file : ∀ st, s'.stateFile = some st →
    s.stateFile = some st ∨ st.digest = s.mem.digest ∨ st.digest = m.digest

/-- The same, with the directory as it was. -/
structure Remembered (faults : Faults) (s s' : PollState) (m : State) : Prop
    extends Recorded faults s s' m where
  tree : s'.tree = s.tree

theorem Recorded.refl (s : PollState) : Recorded faults s s s.mem :=
  ⟨rfl, rfl, fun _ h => h, fun _ h => .inl h⟩

variable {s₁ s₂ s₃ : PollState} {m m' : State}

/-- Two changes, of which the first or the second keeps the digest. -/
theorem Recorded.trans (h : Recorded faults s₁ s₂ m) (h' : Recorded faults s₂ s₃ m')
    (hdigest : m.digest = s₁.mem.digest ∨ m.digest = m'.digest) :
    Recorded faults s₁ s₃ m' := by
  refine ⟨h'.polls.trans h.polls, h'.mem, fun hf hc => h'.saved hf (h.saved hf hc), ?_⟩
  have hmid : ∀ st : State, st.digest = m.digest →
      st.digest = s₁.mem.digest ∨ st.digest = m'.digest := by
    intro st hst
    rcases hdigest with hd | hd
    · exact .inl (hst.trans hd)
    · exact .inr (hst.trans hd)
  intro st hst
  rcases h'.file st hst with hst | hst | hst
  · rcases h.file st hst with hst | hst | hst
    · exact .inl hst
    · exact .inr (.inl hst)
    · exact .inr (hmid st hst)
  · rw [h.mem] at hst
    exact .inr (hmid st hst)
  · exact .inr (.inr hst)

theorem Remembered.refl (s : PollState) : Remembered faults s s s.mem := ⟨Recorded.refl s, rfl⟩

theorem Remembered.trans (h : Remembered faults s₁ s₂ m) (h' : Remembered faults s₂ s₃ m')
    (hdigest : m.digest = s₁.mem.digest ∨ m.digest = m'.digest) :
    Remembered faults s₁ s₃ m' :=
  ⟨h.toRecorded.trans h'.toRecorded hdigest, h'.tree.trans h.tree⟩

variable {u : Unit}

theorem changeState_run {f : State → State}
    (h : Exec (pollWorld faults) (changeState f) s tr u s') :
    Remembered faults s s' (f s.mem) := by
  obtain ⟨_, _, snapshot, s₁, _, hupdate, h⟩ := Exec.bind_inv h
  obtain ⟨_, _, _, s₂, _, hsave, h⟩ := Exec.bind_inv h
  cases h
  obtain ⟨_, hsnapshot, hs1⟩ := ask_run hupdate
  obtain ⟨_, hsave⟩ := ask_run hsave
  subst hs1
  rcases hsave with ⟨_, hs'⟩ | ⟨hfault, _, hs'⟩
  · subst hs'
    refine ⟨⟨rfl, rfl, fun _ _ => hsnapshot, ?_⟩, rfl⟩
    intro st hst
    obtain rfl := Option.some.inj hst
    rw [hsnapshot]
    exact .inr (.inr rfl)
  · subst hs'
    exact ⟨⟨rfl, rfl, fun hno => absurd hfault hno, fun _ hst => .inl hst⟩, rfl⟩

theorem unixNow_run {now : Int64} (h : Exec (pollWorld faults) (ask .unixNow) s tr now s') :
    s' = s := (ask_run h).2

theorem recordSuccess_run (h : Exec (pollWorld faults) recordSuccess s tr u s') :
    ∃ now, Remembered faults s s' { s.mem with lastSuccess := now, lastError := "" } := by
  obtain ⟨_, _, now, s₁, _, hnow, hrest⟩ := Exec.bind_inv h
  rw [unixNow_run hnow] at hrest
  exact ⟨now, changeState_run hrest⟩

theorem setCurrent_run {ring : String}
    (h : Exec (pollWorld faults) (setCurrent ring digest) s tr u s') :
    ∃ now, Remembered faults s s'
      { s.mem with ring := ring, digest := digest, appliedAt := now } := by
  obtain ⟨_, _, now, s₁, _, hnow, hrest⟩ := Exec.bind_inv h
  rw [unixNow_run hnow] at hrest
  exact ⟨now, changeState_run hrest⟩

variable {etag : Option String}

theorem rememberEtag_run (h : Exec (pollWorld faults) (rememberEtag etag) s tr u s') :
    Remembered faults s s' { s.mem with manifestEtag := etag.getD s.mem.manifestEtag } := by
  cases etag with
  | none =>
    cases h
    exact Remembered.refl s
  | some e => exact changeState_run h

theorem recordSequence_run {sequence : Nat}
    (h : Exec (pollWorld faults) (recordSequence sequence) s tr u s') :
    Remembered faults s s' { s.mem with lastSequence := max s.mem.lastSequence sequence } := by
  obtain ⟨_, _, state, s₁, _, hread, h⟩ := Exec.bind_inv h
  obtain ⟨_, hstate, hs1⟩ := ask_run hread
  rw [hs1, hstate] at h
  by_cases hlt : s.mem.lastSequence < sequence
  · rw [if_pos hlt] at h
    rw [Nat.max_eq_right (Nat.le_of_lt hlt)]
    exact changeState_run h
  rw [if_neg hlt] at h
  cases h
  rw [Nat.max_eq_left (Nat.le_of_not_lt hlt)]
  exact Remembered.refl s

/-! ## 4. Examining -/

theorem failing_bind_run {β : Type} {x : Except Error α} {f : α → Polling β} {r : Except Stop β}
    (h : Exec (pollWorld faults) (failing x >>= f).run s tr r s') :
    (∃ e, r = .error e ∧ s' = s) ∨
      ∃ a, x = .ok a ∧ Exec (pollWorld faults) (f a).run s tr r s' := by
  rcases Exec.result_bind_inv h with ⟨e, he, hs, _⟩ | ⟨a, hx, hrest⟩
  · exact .inl ⟨e, he, hs⟩
  · exact .inr ⟨a, mapError_ok.mp hx, hrest⟩

/-- The ETag a poll sends: none on a full fetch, none without a bundle, else the one remembered. -/
structure EtagSent (source : Source) (s : PollState) (etag : Option String) : Prop where
  full : source.fullFetch (s.polls + 1) = true → etag = none
  applied : s.mem.digest.isEmpty = true → etag = none
  remembered : ∀ e, etag = some e → e = s.mem.manifestEtag ∧ e.isEmpty = false

theorem currentEtag_run (h : Exec (pollWorld faults) currentEtag s tr etag s') :
    s' = s ∧ (s.mem.digest.isEmpty = true → etag = none) ∧
      ∀ e, etag = some e → e = s.mem.manifestEtag ∧ e.isEmpty = false := by
  obtain ⟨_, _, state, s₁, _, hread, hrest⟩ := Exec.bind_inv h
  obtain ⟨_, hstate, hs1⟩ := ask_run hread
  rw [hs1, hstate] at hrest
  by_cases hempty : s.mem.digest.isEmpty = true
  · rw [if_pos hempty] at hrest
    cases hrest
    exact ⟨rfl, fun _ => rfl, nofun⟩
  rw [if_neg hempty] at hrest
  obtain ⟨_, _, there, s₂, _, hhas, hend⟩ := Exec.bind_inv hrest
  rw [has_run hhas] at hend
  refine ⟨?_, fun he => absurd he hempty, ?_⟩
  · cases there <;> cases hend <;> rfl
  intro e he
  cases there with
  | false =>
    cases hend
    cases he
  | true =>
    cases hend
    split at he
    · cases he
    · rename_i hetag
      obtain rfl := Option.some.inj he
      exact ⟨rfl, by simpa using hetag⟩

variable {source : Source}

theorem etagFor_run (h : Exec (pollWorld faults) (source.etagFor (s.polls + 1)) s₁ tr etag s')
    (hs1 : s₁.mem = s.mem) : s' = s₁ ∧ EtagSent source s etag := by
  unfold Source.etagFor at h
  by_cases hfull : source.fullFetch (s.polls + 1) = true
  · rw [if_pos hfull] at h
    cases h
    exact ⟨rfl, fun _ => rfl, fun _ => rfl, nofun⟩
  rw [if_neg hfull] at h
  obtain ⟨hs', happlied, hremembered⟩ := currentEtag_run h
  rw [hs1] at happlied hremembered
  exact ⟨hs', fun hf => absurd hf hfull, happlied, hremembered⟩

variable {url : String}

/-- What came of a request was made of the response. -/
theorem request_run {op : Prog PollSig (Except String Response)}
    {read : Response → Except Error α}
    (h : Exec (pollWorld faults) (request url op read).run s tr r s') :
    ∃ ans, Exec (pollWorld faults) op s tr ans s' ∧
      ∀ a, r = .ok a → ∃ response, ans = .ok response ∧ read response = .ok a := by
  obtain ⟨tr1, tr2, ans, s₁, htr, hop, hrest⟩ := Exec.lift_bind_inv h
  cases ans with
  | error e =>
    cases hrest
    rw [List.append_nil] at htr
    exact ⟨_, htr ▸ hop, nofun⟩
  | ok response =>
    cases hrest
    rw [List.append_nil] at htr
    refine ⟨_, htr ▸ hop, ?_⟩
    intro a ha
    exact ⟨response, rfl, mapError_ok.mp ha⟩

theorem manifest_run {r : Except Stop Fetched}
    (h : Exec (pollWorld faults) (source.manifest etag).run s tr r s') :
    s' = s ∧ ∀ fetched, r = .ok fetched → ∃ response,
      (⟨.getManifest source.rolloutRef.manifestUrl etag, .ok response⟩ : Event PollSig) ∈ tr ∧
        readManifest source.crates source.rolloutRef.manifestUrl response = .ok fetched := by
  obtain ⟨ans, hop, hread⟩ := request_run h
  obtain ⟨htr, hs⟩ := ask_run hop
  refine ⟨hs, ?_⟩
  intro fetched hfetched
  obtain ⟨response, hans, hok⟩ := hread fetched hfetched
  exact ⟨response, by rw [htr, hans]; exact List.mem_singleton_self _, hok⟩

variable {response : Response}

/-- A blob that was not refused is the whole body. -/
theorem readBlob_ok {limit : Nat} {blob : Bytes}
    (h : readBlob url digest limit response = .ok blob) : response.body = .ok blob := by
  unfold readBlob at h
  obtain ⟨_, _, h⟩ := bind_ok.mp h
  obtain ⟨body, hbody, h⟩ := bind_ok.mp h
  obtain ⟨_, hlimit, h⟩ := bind_ok.mp h
  obtain rfl := pure_ok.mp h
  unfold readBody at hbody
  obtain ⟨whole, hwhole, hbody⟩ := bind_ok.mp hbody
  rw [pure_ok] at hbody
  rw [mapError_ok.mp hwhole]
  have hlen := refuseIf_ok.mp hlimit
  rw [← hbody, List.length_take] at hlen
  rw [← hbody, List.take_of_length_le (by omega)]

theorem blob_run {reference : Reference} {r : Except Stop Bytes}
    (h : Exec (pollWorld faults) (source.blob reference digest).run s tr r s') :
    s' = s ∧ ∀ blob, r = .ok blob → ∃ response,
      (⟨.getBlob (reference.blobUrl digest), .ok response⟩ : Event PollSig) ∈ tr ∧
        response.body = .ok blob := by
  obtain ⟨ans, hop, hread⟩ := request_run h
  obtain ⟨htr, hs⟩ := ask_run hop
  refine ⟨hs, ?_⟩
  intro blob hblob
  obtain ⟨response, hans, hok⟩ := hread blob hblob
  exact ⟨response, by rw [htr, hans]; exact List.mem_singleton_self _, readBlob_ok hok⟩

/-- The layer with this digest was asked for, and this came. -/
def LayerServed (source : Source) (tr : List (Event PollSig)) (digest : String) (envelope : Bytes) :
    Prop :=
  ∃ response, (⟨.getBlob (source.rolloutRef.blobUrl digest), .ok response⟩ : Event PollSig) ∈ tr ∧
    response.body = .ok envelope

variable {layers : List String}

theorem singleLayer_run {r : Except Stop Bytes}
    (h : Exec (pollWorld faults) (source.singleLayer layers).run s tr r s') :
    s' = s ∧ ∀ envelope, r = .ok envelope → ∃ digest, layers = [digest] ∧
      LayerServed source tr digest envelope := by
  unfold Source.singleLayer at h
  split at h
  · rename_i digest
    rcases Exec.run_bind_inv h with ⟨e, hr, hblob⟩ | ⟨tr1, tr2, blob, s₁, htr, hblob, hrest⟩
    · exact ⟨(blob_run hblob).1, fun _ ho => by rw [hr] at ho; cases ho⟩
    obtain ⟨hs1, hbody⟩ := blob_run hblob
    obtain ⟨response, hmem, hbody⟩ := hbody blob rfl
    rcases failing_bind_run hrest with ⟨e, hr, hs⟩ | ⟨_, _, hend⟩
    · exact ⟨hs.trans hs1, fun _ ho => by rw [hr] at ho; cases ho⟩
    cases hend
    refine ⟨hs1, ?_⟩
    intro envelope he
    obtain rfl := Except.ok.inj he
    exact ⟨digest, rfl, response, htr ▸ List.mem_append_left _ hmem, hbody⟩
  · cases h
    exact ⟨rfl, nofun⟩

/-- A manifest that passed: it was served in this run, opened with the trusted key, read, and found
    fresh against the mark in memory and the clock. -/
structure Genuine (source : Source) (mem : State) (tr : List (Event PollSig))
    (accepted : Accepted) : Prop where
  served : ∃ digest, LayerServed source tr digest accepted.envelope
  opened : source.crates.openEnvelope accepted.envelope source.key = .ok accepted.toml
  parsed : Rollout.parse source.crates accepted.toml = .ok accepted.rollout
  mark : accepted.lastSequence = mem.lastSequence
  clock : (⟨.unixNow, accepted.checkedAt⟩ : Event PollSig) ∈ tr
  fresh : checkFreshness accepted.rollout accepted.lastSequence accepted.checkedAt = .ok ()

theorem checkManifest_run {r : Except Stop Accepted}
    (h : Exec (pollWorld faults) (source.checkManifest layers etag).run s tr r s') :
    s' = s ∧ ∀ accepted, r = .ok accepted → accepted.etag = etag ∧
      (∃ digest, layers = [digest] ∧ LayerServed source tr digest accepted.envelope) ∧
      Genuine source s.mem tr accepted := by
  have hnot : ∀ {e : Stop}, r = .error e → ∀ accepted, r = .ok accepted → accepted.etag = etag ∧
      (∃ digest, layers = [digest] ∧ LayerServed source tr digest accepted.envelope) ∧
      Genuine source s.mem tr accepted := by
    intro e hr accepted ho
    rw [hr] at ho
    cases ho
  unfold Source.checkManifest at h
  rcases Exec.run_bind_inv h with ⟨e, hr, hlayer⟩ | ⟨tr1, tr2, envelope, s₁, htr, hlayer, hrest⟩
  · exact ⟨(singleLayer_run hlayer).1, hnot hr⟩
  obtain ⟨hs1, hserved⟩ := singleLayer_run hlayer
  obtain ⟨digest, hlayers, response, hmem, hbody⟩ := hserved envelope rfl
  have hcame : LayerServed source tr digest envelope :=
    ⟨response, htr ▸ List.mem_append_left _ hmem, hbody⟩
  subst hs1
  rcases failing_bind_run hrest with ⟨e, hr, hs⟩ | ⟨toml, hopen, hrest⟩
  · exact ⟨hs, hnot hr⟩
  rcases failing_bind_run hrest with ⟨e, hr, hs⟩ | ⟨rollout, hparse, hrest⟩
  · exact ⟨hs, hnot hr⟩
  obtain ⟨state, s₂, tr3, htr2, hread, hrest⟩ := Exec.op_bind_inv hrest
  obtain ⟨hstate, hs2⟩ := hread
  obtain ⟨now, s₃, tr4, htr3, hnow, hcheck⟩ := Exec.op_bind_inv hrest
  have hs3 : s₃ = s₁ := Eq.trans hnow hs2
  subst hs3
  rcases failing_bind_run hcheck with ⟨e, hr, hs⟩ | ⟨_, hfresh, hend⟩
  · exact ⟨hs, hnot hr⟩
  cases hend
  refine ⟨rfl, ?_⟩
  intro accepted ha
  obtain rfl := Except.ok.inj ha
  refine ⟨rfl, ⟨digest, hlayers, hcame⟩, ⟨digest, hcame⟩, hopen, hparse, ?_, ?_, hfresh⟩
  · show state.lastSequence = _
    rw [hstate]
  · rw [htr, htr2, htr3]
    simp

variable {tr' : List (Event PollSig)} {tr : List (Event PollSig)}

theorem LayerServed.mono {envelope : Bytes} (h : LayerServed source tr digest envelope)
    (hsub : ∀ e ∈ tr, e ∈ tr') :
    LayerServed source tr' digest envelope := by
  obtain ⟨response, hmem, hbody⟩ := h
  exact ⟨response, hsub _ hmem, hbody⟩

variable {accepted : Accepted}

theorem Genuine.mono {mem : State} (h : Genuine source mem tr accepted) (hsub : ∀ e ∈ tr, e ∈ tr') :
    Genuine source mem tr' accepted := by
  obtain ⟨digest, hlayer⟩ := h.served
  exact ⟨⟨digest, hlayer.mono hsub⟩, h.opened, h.parsed, h.mark, hsub _ h.clock, h.fresh⟩

variable {K : Crates}

theorem readManifest_unchanged (h : readManifest K url response = .ok .unchanged) :
    response.status = 304 := by
  unfold readManifest at h
  split at h
  · assumption
  obtain ⟨_, _, h⟩ := bind_ok.mp h
  obtain ⟨body, _, h⟩ := bind_ok.mp h
  split at h
  · cases h
  · obtain ⟨_, _, h⟩ := bind_ok.mp h
    obtain ⟨_, _, h⟩ := bind_ok.mp h
    cases h

theorem readManifest_changed (h : readManifest K url response = .ok (.changed layers etag)) :
    etag = response.etag ∧ 200 ≤ response.status ∧ response.status < 300 := by
  unfold readManifest at h
  split at h
  · cases h
  obtain ⟨_, hstatus, h⟩ := bind_ok.mp h
  obtain ⟨body, _, h⟩ := bind_ok.mp h
  have hok := not_not.mp (refuseIf_ok.mp hstatus)
  split at h
  · cases h
  obtain ⟨_, _, h⟩ := bind_ok.mp h
  obtain ⟨_, _, h⟩ := bind_ok.mp h
  cases h
  exact ⟨rfl, hok⟩

/-- The registry was asked for the manifest with this ETag, and answered so. -/
def Asked (source : Source) (tr : List (Event PollSig)) (etag : Option String)
    (response : Response) : Prop :=
  (⟨.getManifest source.rolloutRef.manifestUrl etag, .ok response⟩ : Event PollSig) ∈ tr

theorem Asked.mono (h : Asked source tr etag response) (hsub : ∀ e ∈ tr, e ∈ tr') :
    Asked source tr' etag response := hsub _ h

/-- The registry gave out this manifest with this ETag: it answered with an OCI manifest of one
    layer, and the layer opened and was read. -/
def Gave (source : Source) (tr : List (Event PollSig)) (etag : Option String) (rollout : Rollout) :
    Prop :=
  ∃ sent response digest envelope toml, Asked source tr sent response ∧
    readManifest source.crates source.rolloutRef.manifestUrl response
      = .ok (.changed [digest] etag) ∧
    LayerServed source tr digest envelope ∧
    source.crates.openEnvelope envelope source.key = .ok toml ∧
    Rollout.parse source.crates toml = .ok rollout

theorem Gave.mono {rollout : Rollout} (h : Gave source tr etag rollout) (hsub : ∀ e ∈ tr, e ∈ tr') :
    Gave source tr' etag rollout := by
  obtain ⟨sent, response, digest, envelope, toml, hasked, hread, hlayer, hrest⟩ := h
  exact ⟨sent, response, digest, envelope, toml, hasked.mono hsub, hread, hlayer.mono hsub, hrest⟩

/-- What the first half of a poll can come to. -/
def Examined (source : Source) (s : PollState) (tr : List (Event PollSig)) :
    Except Stop (Option Accepted) → Prop
  | .error _ => True
  | .ok none => ∃ etag response, Asked source tr etag response ∧ response.status = 304 ∧
      EtagSent source s etag
  | .ok (some accepted) => Genuine source s.mem tr accepted ∧
      Gave source tr accepted.etag accepted.rollout ∧
      ∃ etag response, Asked source tr etag response ∧ accepted.etag = response.etag ∧
        200 ≤ response.status ∧ response.status < 300

theorem examine_run {r : Except Stop (Option Accepted)}
    (h : Exec (pollWorld faults) source.examine.run s tr r s') :
    s' = { s with polls := s.polls + 1 } ∧ Examined source s tr r := by
  unfold Source.examine at h
  obtain ⟨poll, s₁, tr1, htr, hcount, hrest⟩ := Exec.op_bind_inv h
  obtain ⟨hpoll, hs1⟩ := hcount
  obtain ⟨tr2, tr3, etag, s₂, htr1, hetag, hrest⟩ := Exec.lift_bind_inv hrest
  have hmem : s₁.mem = s.mem := by rw [hs1]
  rw [hpoll] at hetag
  obtain ⟨hs2, hsent⟩ := etagFor_run hetag hmem
  rw [hs2] at hrest
  rcases Exec.run_bind_inv hrest with ⟨e, hr, hman⟩ | ⟨tr4, tr5, fetched, s₃, htr3, hman, hrest⟩
  · obtain ⟨hs', _⟩ := manifest_run hman
    rw [hs', hs1, hr]
    exact ⟨rfl, trivial⟩
  obtain ⟨hs3, hfetched⟩ := manifest_run hman
  obtain ⟨response, hasked, hread⟩ := hfetched fetched rfl
  have hasked : Asked source tr etag response := by
    show _ ∈ tr
    rw [htr, htr1, htr3]
    simp only [List.mem_cons, List.mem_append]
    exact .inr (.inr (.inl hasked))
  rw [hs3] at hrest
  cases fetched with
  | unchanged =>
    cases hrest
    exact ⟨hs1, etag, response, hasked, readManifest_unchanged hread, hsent⟩
  | changed layers newEtag =>
    obtain ⟨hetag', hstatus⟩ := readManifest_changed hread
    rcases Exec.run_bind_inv hrest with ⟨e, hr, hcheck⟩ | ⟨tr6, tr7, acc, s4, htr5, hcheck, hend⟩
    · obtain ⟨hs', _⟩ := checkManifest_run hcheck
      rw [hs', hs1, hr]
      exact ⟨rfl, trivial⟩
    obtain ⟨hs4, hgenuine⟩ := checkManifest_run hcheck
    obtain ⟨hacc, ⟨digest, hlayers, hlayer⟩, hgenuine⟩ := hgenuine acc rfl
    rw [hs4] at hend
    cases hend
    have hsub : ∀ e ∈ tr6, e ∈ tr := by
      intro e he
      rw [htr, htr1, htr3, htr5]
      simp only [List.mem_cons, List.mem_append]
      exact .inr (.inr (.inr (.inl he)))
    rw [hmem] at hgenuine
    rw [hlayers, ← hacc] at hread
    exact ⟨hs1, hgenuine.mono hsub,
      ⟨etag, response, digest, _, _, hasked, hread, hlayer.mono hsub, hgenuine.opened,
        hgenuine.parsed⟩, etag, response, hasked, hacc.trans hetag', hstatus⟩

/-! ## 5. Recording -/

theorem saveManifest_run {toml : Bytes} {ans : Except IoError Unit}
    (h : Exec (pollWorld faults) (ask (.saveManifest toml)) s tr ans s') : s' = s := (ask_run h).2

/-- What a fresh manifest leaves in memory. -/
theorem record_run (h : Exec (pollWorld faults) (Source.record accepted) s tr u s') :
    ∃ now, Remembered faults s s' { s.mem with
      lastSuccess := now
      lastError := ""
      lastSequence := max s.mem.lastSequence (accepted.rollout.sequence.getD 0) } := by
  unfold Source.record at h
  obtain ⟨_, _, _, s₁, _, hman, hrest⟩ := Exec.bind_inv h
  rw [saveManifest_run hman] at hrest
  obtain ⟨_, _, _, s₂, _, hsuccess, hrest⟩ := Exec.bind_inv hrest
  obtain ⟨now, hsuccess⟩ := recordSuccess_run hsuccess
  refine ⟨now, ?_⟩
  cases hseq : accepted.rollout.sequence with
  | none =>
    rw [hseq] at hrest
    cases hrest
    rw [Option.getD_none, Nat.max_zero]
    exact hsuccess
  | some sequence =>
    rw [hseq] at hrest
    have hmark := recordSequence_run hrest
    rw [hsuccess.mem] at hmark
    exact hsuccess.trans hmark (.inl rfl)

/-! ## 6. Following -/

/-- Only the directory may differ. -/
def SameBut (s s' : PollState) : Prop := ∃ t, s' = s.withTree t

theorem SameBut.refl (s : PollState) : SameBut s s := ⟨s.tree, rfl⟩

theorem SameBut.trans (h : SameBut s₁ s₂) (h' : SameBut s₂ s₃) : SameBut s₁ s₃ := by
  obtain ⟨t, h⟩ := h
  obtain ⟨t', h'⟩ := h'
  exact ⟨t', by rw [h', h]; rfl⟩

variable {s s' : PollState}

theorem SameBut.mem (h : SameBut s s') : s'.mem = s.mem := by
  obtain ⟨t, h⟩ := h
  rw [h]
  rfl

theorem SameBut.recorded (faults : Faults) (h : SameBut s s') :
    Recorded faults s s' s.mem := by
  obtain ⟨t, h⟩ := h
  rw [h]
  exact ⟨rfl, rfl, fun _ hc => hc, fun _ hst => .inl hst⟩

theorem onFs_sameBut (h : Exec (pollWorld faults) (onFs p) s tr a s') : SameBut s s' := by
  obtain ⟨t, _, _, hs, _⟩ := onFs_run h
  exact ⟨t, hs⟩

theorem onDisk_sameBut (h : Exec (pollWorld faults) (onDisk x).run s tr r s') : SameBut s s' := by
  obtain ⟨_, _, hrun⟩ := onDisk_run h
  exact onFs_sameBut hrun

/-- A call that moves nothing into place. -/
def Quiet : PollOp → Prop
  | .fs (.rename _ _) => False
  | .fs (.symlink _ _) => False
  | _ => True

instance : DecidablePred Quiet := fun op => by
  cases op with
  | fs op => cases op <;> simp only [Quiet] <;> infer_instance
  | _ => exact .isTrue trivial

/-- The calls of a run that move something into place: a version, or the link. -/
def moves (tr : List (Event PollSig)) : List (Event PollSig) := tr.filter fun ev => ¬ Quiet ev.op

@[simp] theorem moves_append (tr tr' : List (Event PollSig)) :
    moves (tr ++ tr') = moves tr ++ moves tr' := List.filter_append ..

theorem moves_quiet {α : Type} {p : Prog PollSig α} {a : α} (hp : p.Makes Quiet)
    (h : Exec (pollWorld faults) p s tr a s') : moves tr = [] := by
  refine List.filter_eq_nil_iff.mpr fun ev hev => ?_
  simpa using h.makes_trace hp ev hev

theorem has_quiet (digest : String) : (onFs (Store.has digest)).Makes Quiet :=
  ⟨trivial, fun _ => trivial⟩

theorem request_makes {α : Type} {url : String} {op : Prog PollSig (Except String Response)}
    {read : Response → Except Error α} {φ : PollOp → Prop} (hop : op.Makes φ) :
    (request url op read).run.Makes φ := by
  refine .lift_bind hop fun response => ?_
  cases response with
  | error e => trivial
  | ok response => trivial

theorem blob_quiet (reference : Reference) (digest : String) :
    (source.blob reference digest).run.Makes Quiet := request_makes (.of_op trivial)

variable {r : Except Stop Unit}

/-- How a bundle gets to be on disk: it was there, or it was fetched, checked and unpacked. -/
theorem ensureUnpacked_run
    (h : Exec (pollWorld faults) (source.ensureUnpacked digest).run s tr r s') :
    s' = s ∧ moves tr = [] ∨ ∃ blob entries tr', source.crates.sha256Digest blob = digest ∧
      extract blob source.maxBytes = .ok entries ∧ source.crates.validate entries = .ok () ∧
      moves tr = moves tr' ∧
      Exec (pollWorld faults) (onDisk (source.store.writeVersion digest entries)).run s tr' r s' := by
  unfold Source.ensureUnpacked at h
  obtain ⟨tr1, tr2, there, s₁, rfl, hhas, hrest⟩ := Exec.lift_bind_inv h
  rw [has_run hhas] at hrest
  rw [moves_append, moves_quiet (has_quiet digest) hhas, List.nil_append]
  cases there with
  | true =>
    cases hrest
    exact .inl ⟨rfl, rfl⟩
  | false =>
    rcases Exec.run_bind_inv hrest with ⟨e, _, hblob⟩ | ⟨tr3, tr4, blob, s₂, rfl, hblob, hrest⟩
    · exact .inl ⟨(blob_run hblob).1, moves_quiet (blob_quiet _ _) hblob⟩
    rw [(blob_run hblob).1] at hrest
    rw [moves_append, moves_quiet (blob_quiet _ _) hblob, List.nil_append]
    rcases Exec.result_bind_inv hrest with ⟨e, _, hs, rfl⟩ | ⟨_, hdigest, hrest⟩
    · exact .inl ⟨hs, rfl⟩
    rcases Exec.result_bind_inv hrest with ⟨e, _, hs, rfl⟩ | ⟨entries, hextract, hrest⟩
    · exact .inl ⟨hs, rfl⟩
    rcases Exec.result_bind_inv hrest with ⟨e, _, hs, rfl⟩ | ⟨_, hvalid, hwrite⟩
    · exact .inl ⟨hs, rfl⟩
    · exact .inr ⟨blob, entries, _, not_not.mp (refuseIf_ok.mp (mapError_ok.mp hdigest)),
        mapError_ok.mp hextract, mapError_ok.mp hvalid, rfl, hwrite⟩

theorem ensureUnpacked_sameBut
    (h : Exec (pollWorld faults) (source.ensureUnpacked digest).run s tr r s') : SameBut s s' := by
  rcases ensureUnpacked_run h with ⟨hs, -⟩ | ⟨_, _, _, _, _, _, _, hwrite⟩
  · rw [hs]
    exact SameBut.refl s
  · exact onDisk_sameBut hwrite

/-- The stages of a swap: where it stopped, or that it went all the way. -/
inductive Swapped (faults : Faults) (source : Source) (ring : Ring) (previous : String)
    (etag : Option String) (s s' : PollState) : Except Stop PolicyBundle → Prop where
  | notUnpacked {e : Stop} {tr : List (Event PollSig)} :
      Exec (pollWorld faults) (source.ensureUnpacked ring.bundle).run s tr (.error e) s' →
      Swapped faults source ring previous etag s s' (.error e)
  | notLinked {e : Stop} {s₁ : PollState} {tr tr₁ : List (Event PollSig)} :
      Exec (pollWorld faults) (source.ensureUnpacked ring.bundle).run s tr (.ok ()) s₁ →
      Exec (pollWorld faults) (onDisk (source.store.setCurrent ring.bundle)).run s₁ tr₁ (.error e)
        s' →
      Swapped faults source ring previous etag s s' (.error e)
  | notRead {e : Stop} {s₁ s₂ : PollState} {tr tr₁ tr₂ : List (Event PollSig)} :
      Exec (pollWorld faults) (source.ensureUnpacked ring.bundle).run s tr (.ok ()) s₁ →
      Exec (pollWorld faults) (onDisk (source.store.setCurrent ring.bundle)).run s₁ tr₁ (.ok ())
        s₂ →
      Exec (pollWorld faults) (onDisk (source.store.read ring.bundle)).run s₂ tr₂ (.error e) s' →
      Swapped faults source ring previous etag s s' (.error e)
  | done {bundle : PolicyBundle} {removed : Nat} {s₁ s₂ s₃ s₄ s₅ : PollState}
      {tr tr₁ tr₂ tr₃ tr₄ tr₅ : List (Event PollSig)} :
      Exec (pollWorld faults) (source.ensureUnpacked ring.bundle).run s tr (.ok ()) s₁ →
      Exec (pollWorld faults) (onDisk (source.store.setCurrent ring.bundle)).run s₁ tr₁ (.ok ())
        s₂ →
      Exec (pollWorld faults) (onDisk (source.store.read ring.bundle)).run s₂ tr₂ (.ok bundle) s₃ →
      Exec (pollWorld faults) (setCurrent ring.name ring.bundle) s₃ tr₃ () s₄ →
      Exec (pollWorld faults)
        (onFs (source.store.prune ([ring.bundle, previous].filter (!·.isEmpty)))) s₄ tr₄ removed
        s₅ →
      Exec (pollWorld faults) (rememberEtag etag) s₅ tr₅ () s' →
      Swapped faults source ring previous etag s s' (.ok bundle)

variable {ring : Ring}

theorem swap_run {previous : String} {r : Except Stop PolicyBundle}
    (h : Exec (pollWorld faults) (source.swap ring previous etag).run s tr r s') :
    Swapped faults source ring previous etag s s' r := by
  unfold Source.swap at h
  rcases Exec.run_bind_inv h with ⟨e, hr, hun⟩ | ⟨_, _, _, s₁, _, hun, hrest⟩
  · rw [hr]
    exact .notUnpacked hun
  rcases Exec.run_bind_inv hrest with ⟨e, hr, hlink⟩ | ⟨_, _, _, s₂, _, hlink, hrest⟩
  · rw [hr]
    exact .notLinked hun hlink
  rcases Exec.run_bind_inv hrest with ⟨e, hr, hread⟩ | ⟨_, _, bundle, s₃, _, hread, hrest⟩
  · rw [hr]
    exact .notRead hun hlink hread
  obtain ⟨_, _, _, s4, _, hset, hrest⟩ := Exec.lift_bind_inv hrest
  obtain ⟨_, _, _, s5, _, hprune, hrest⟩ := Exec.lift_bind_inv hrest
  obtain ⟨_, _, _, s6, _, hetag, hend⟩ := Exec.lift_bind_inv hrest
  cases hend
  exact .done hun hlink hread hset hprune hetag

/-- What the second half of a poll can come to. -/
inductive Followed (faults : Faults) (source : Source) (accepted : Accepted) (s s' : PollState) :
    Except Stop (Option PolicyBundle) → Prop where
  | frozen {tr : List (Event PollSig)} : accepted.rollout.freeze = true →
      Exec (pollWorld faults) (rememberEtag accepted.etag) s tr () s' →
      Followed faults source accepted s s' (.ok none)
  | panicked : accepted.rollout.freeze = false →
      accepted.rollout.target source.crates source.cluster source.node = none → s' = s →
      Followed faults source accepted s s' (.error .panicked)
  | noRing {tr : List (Event PollSig)} : accepted.rollout.freeze = false →
      accepted.rollout.target source.crates source.cluster source.node = some none →
      Exec (pollWorld faults) (rememberEtag accepted.etag) s tr () s' →
      Followed faults source accepted s s' (.ok none)
  | upToDate {ring : Ring} {s₁ : PollState} {tr : List (Event PollSig)} :
      accepted.rollout.freeze = false →
      accepted.rollout.target source.crates source.cluster source.node = some (some ring) →
      s.mem.digest = ring.bundle →
      Exec (pollWorld faults) (rememberEtag accepted.etag) s tr () s₁ →
      s' = s₁ ∨ (∃ tr₁, Exec (pollWorld faults) (setCurrent ring.name ring.bundle) s₁ tr₁ () s') →
      Followed faults source accepted s s' (.ok none)
  | swapped {ring : Ring} {r : Except Stop PolicyBundle} : accepted.rollout.freeze = false →
      accepted.rollout.target source.crates source.cluster source.node = some (some ring) →
      (s.mem.digest = ring.bundle →
        ∃ tr, Exec (pollWorld faults) (onFs (Store.has ring.bundle)) s tr false s) →
      Swapped faults source ring s.mem.digest accepted.etag s s' r →
      Followed faults source accepted s s' (r.map some)

theorem upToDate_run {state : State}
    (h : Exec (pollWorld faults) (Source.upToDate state digest) s tr b s') :
    s' = s ∧ (b = true → state.digest = digest) ∧ (b = false → state.digest = digest →
      ∃ tr, Exec (pollWorld faults) (onFs (Store.has digest)) s tr false s) := by
  unfold Source.upToDate at h
  split at h
  · rename_i hsame
    have hs := has_run h
    refine ⟨hs, fun _ => hsame, fun hb _ => ?_⟩
    rw [hs, hb] at h
    exact ⟨tr, h⟩
  · rename_i hother
    cases h
    exact ⟨rfl, nofun, fun _ hsame => absurd hsame hother⟩

variable {r : Except Stop (Option PolicyBundle)}

theorem follow_run (h : Exec (pollWorld faults) (source.follow accepted).run s tr r s') :
    Followed faults source accepted s s' r := by
  unfold Source.follow at h
  cases hfreeze : accepted.rollout.freeze with
  | true =>
    rw [if_pos hfreeze] at h
    obtain ⟨_, _, _, s₁, _, hetag, hend⟩ := Exec.lift_bind_inv h
    cases hend
    exact .frozen hfreeze hetag
  | false =>
    rw [if_neg (by rw [hfreeze]; exact Bool.false_ne_true)] at h
    cases htarget : accepted.rollout.target source.crates source.cluster source.node with
    | none =>
      rw [htarget] at h
      cases h
      exact .panicked hfreeze htarget rfl
    | some found =>
      rw [htarget] at h
      cases found with
      | none =>
        obtain ⟨_, _, _, s₁, _, hetag, hend⟩ := Exec.lift_bind_inv h
        cases hend
        exact .noRing hfreeze htarget hetag
      | some ring =>
        have h : Exec (pollWorld faults) (source.applyRing ring accepted.etag).run s tr r s' := h
        unfold Source.applyRing at h
        obtain ⟨state, s₁, _, _, hread, hrest⟩ := Exec.op_bind_inv h
        obtain ⟨hstate, hs1⟩ := hread
        rw [hs1] at hrest
        obtain ⟨_, _, same, s₂, _, hsame, hrest⟩ := Exec.lift_bind_inv hrest
        obtain ⟨hs2, hdigest, hmissing⟩ := upToDate_run hsame
        rw [hs2] at hrest
        rw [hstate] at hdigest hmissing
        cases same with
        | true =>
          rw [if_pos rfl] at hrest
          obtain ⟨_, _, _, s₃, _, hetag, hrest⟩ := Exec.lift_bind_inv hrest
          split at hrest
          · obtain ⟨_, _, _, s4, _, hset, hend⟩ := Exec.lift_bind_inv hrest
            cases hend
            exact .upToDate hfreeze htarget (hdigest rfl) hetag (.inr ⟨_, hset⟩)
          · cases hrest
            exact .upToDate hfreeze htarget (hdigest rfl) hetag (.inl rfl)
        | false =>
          rw [if_neg Bool.false_ne_true] at hrest
          rw [hstate] at hrest
          rcases Exec.run_bind_inv hrest with ⟨e, hr, hswap⟩ | ⟨_, _, bundle, s₃, _, hswap, hend⟩
          · rw [hr]
            exact .swapped hfreeze htarget (hmissing rfl) (swap_run hswap)
          · cases hend
            exact .swapped hfreeze htarget (hmissing rfl) (swap_run hswap)

/-- What following a manifest makes of the memory. -/
inductive Settled (source : Source) (accepted : Accepted) (m : State) :
    Except Stop (Option PolicyBundle) → State → Prop where
  | stopped {e : Stop} : Settled source accepted m (.error e) m
  | frozen : accepted.rollout.freeze = true → Settled source accepted m (.ok none)
        { m with manifestEtag := accepted.etag.getD m.manifestEtag }
  | noRing : accepted.rollout.freeze = false →
      accepted.rollout.target source.crates source.cluster source.node = some none →
      Settled source accepted m (.ok none)
        { m with manifestEtag := accepted.etag.getD m.manifestEtag }
  | upToDate {ring : Ring} : accepted.rollout.freeze = false →
      accepted.rollout.target source.crates source.cluster source.node = some (some ring) →
      m.digest = ring.bundle →
      Settled source accepted m (.ok none)
        { m with manifestEtag := accepted.etag.getD m.manifestEtag }
  | applied {ring : Ring} {now : Int64} {bundle : Option PolicyBundle} :
      accepted.rollout.freeze = false →
      accepted.rollout.target source.crates source.cluster source.node = some (some ring) →
      (bundle = none → m.digest = ring.bundle) →
      Settled source accepted m (.ok bundle) { m with
          ring := ring.name
          digest := ring.bundle
          appliedAt := now
          manifestEtag := accepted.etag.getD m.manifestEtag }

theorem Swapped.settled {r : Except Stop PolicyBundle} (hfreeze : accepted.rollout.freeze = false)
    (htarget : accepted.rollout.target source.crates source.cluster source.node = some (some ring))
    (h : Swapped faults source ring s.mem.digest accepted.etag s s' r) :
    ∃ m, Recorded faults s s' m ∧ Settled source accepted s.mem (r.map some) m := by
  cases h with
  | notUnpacked hun => exact ⟨_, (ensureUnpacked_sameBut hun).recorded _, .stopped⟩
  | notLinked hun hlink =>
    exact ⟨_, ((ensureUnpacked_sameBut hun).trans (onDisk_sameBut hlink)).recorded _, .stopped⟩
  | notRead hun hlink hread =>
    exact ⟨_, ((ensureUnpacked_sameBut hun).trans
      ((onDisk_sameBut hlink).trans (onDisk_sameBut hread))).recorded _, .stopped⟩
  | done hun hlink hread hset hprune hetag =>
    have hread := (ensureUnpacked_sameBut hun).trans
      ((onDisk_sameBut hlink).trans (onDisk_sameBut hread))
    obtain ⟨now, hset⟩ := setCurrent_run hset
    have hprune := onFs_sameBut hprune
    have hetag := (rememberEtag_run hetag).toRecorded
    rw [hread.mem] at hset
    have hpruned := hprune.recorded faults
    rw [hset.mem] at hpruned
    rw [hprune.mem, hset.mem] at hetag
    have hall := (hread.recorded faults).trans
      (hset.toRecorded.trans (hpruned.trans hetag (.inr rfl)) (.inr rfl)) (.inl rfl)
    exact ⟨_, hall, .applied hfreeze htarget nofun⟩

theorem Followed.settled (h : Followed faults source accepted s s' r) :
    ∃ m, Recorded faults s s' m ∧ Settled source accepted s.mem r m := by
  cases h with
  | frozen hfreeze hetag => exact ⟨_, (rememberEtag_run hetag).toRecorded, .frozen hfreeze⟩
  | panicked _ _ hs =>
    rw [hs]
    exact ⟨_, Recorded.refl s, .stopped⟩
  | noRing hfreeze htarget hetag =>
    exact ⟨_, (rememberEtag_run hetag).toRecorded, .noRing hfreeze htarget⟩
  | upToDate hfreeze htarget hdigest hetag hset =>
    have hetag := (rememberEtag_run hetag).toRecorded
    rcases hset with hs | ⟨_, hset⟩
    · exact ⟨_, hs ▸ hetag, .upToDate hfreeze htarget hdigest⟩
    · obtain ⟨now, hset⟩ := setCurrent_run hset
      rw [hetag.mem] at hset
      exact ⟨_, hetag.trans hset.toRecorded (.inl rfl), .applied hfreeze htarget fun _ => hdigest⟩
  | swapped hfreeze htarget _ hswap => exact hswap.settled hfreeze htarget

/-! ## 7. Calls -/

/-- One more poll counted. -/
def PollState.counted (s : PollState) : PollState := { s with polls := s.polls + 1 }

/-- What a poll can come to. -/
inductive Polled (faults : Faults) (source : Source) (tr : List (Event PollSig))
    (s s' : PollState) : Outcome → Prop where
  | failed {e : Stop} : s' = s.counted → Polled faults source tr s s' ⟨none, .error e⟩
  | unchanged {etag : Option String} {response : Response} {now : Int64} :
      Asked source tr etag response → response.status = 304 → EtagSent source s etag →
      Remembered faults s.counted s' { s.mem with lastSuccess := now, lastError := "" } →
      Polled faults source tr s s' ⟨none, .ok none⟩
  | accepted {accepted : Accepted} {etag : Option String} {response : Response} {now : Int64}
      {s₁ : PollState} {r : Except Stop (Option PolicyBundle)} :
      Genuine source s.mem tr accepted → Gave source tr accepted.etag accepted.rollout →
      Asked source tr etag response → accepted.etag = response.etag → 200 ≤ response.status → response.status < 300 →
      Remembered faults s.counted s₁ { s.mem with
        lastSuccess := now
        lastError := ""
        lastSequence := max s.mem.lastSequence (accepted.rollout.sequence.getD 0) } →
      Followed faults source accepted s₁ s' r →
      Polled faults source tr s s' ⟨some accepted, r⟩

theorem poll_run {outcome : Outcome} (h : Exec (pollWorld faults) source.poll s tr outcome s') :
    Polled faults source tr s s' outcome := by
  unfold Source.poll at h
  obtain ⟨tr1, tr2, r, s₁, htr, hexamine, hrest⟩ := Exec.bind_inv h
  obtain ⟨hs1, hexamined⟩ := examine_run hexamine
  have hsub : ∀ e ∈ tr1, e ∈ tr := fun e he => htr ▸ List.mem_append_left _ he
  cases r with
  | error e =>
    cases hrest
    exact .failed hs1
  | ok found =>
    cases found with
    | none =>
      obtain ⟨_, _, _, s₂, _, hrecord, hend⟩ := Exec.bind_inv hrest
      cases hend
      obtain ⟨etag, response, hasked, hstatus, hsent⟩ := hexamined
      obtain ⟨now, hrecord⟩ := recordSuccess_run hrecord
      rw [hs1] at hrecord
      exact .unchanged (hasked.mono hsub) hstatus hsent hrecord
    | some accepted =>
      obtain ⟨_, _, _, s₂, _, hrecord, hrest⟩ := Exec.bind_inv hrest
      obtain ⟨_, _, r, s₃, _, hfollow, hend⟩ := Exec.bind_inv hrest
      cases hend
      obtain ⟨hgenuine, hgave, etag, response, hasked, hetag, hlow, hhigh⟩ := hexamined
      obtain ⟨now, hrecord⟩ := record_run hrecord
      rw [hs1] at hrecord
      exact .accepted (hgenuine.mono hsub) (hgave.mono hsub) (hasked.mono hsub) hetag hlow hhigh hrecord
        (follow_run hfollow)

/-- A restart keeps `state.json`, and the memory is what was read from it. -/
theorem restart_run {r : Except Error Unit} (h : Exec (pollWorld faults) source.restart s tr r s') :
    ∃ s₁ r0 tr', Exec (pollWorld faults) (onFs source.store.prepare.run) s tr' r0 s₁ ∧
      (s' = s₁ ∨ ∃ loaded, (loaded = s₁.stateFile ∨ faults.load ∧ loaded = none) ∧
        s' = { s₁ with mem := loaded.getD State.default, polls := 0 }) := by
  unfold Source.restart at h
  obtain ⟨_, _, r0, s₁, _, hprepare, hrest⟩ := Exec.bind_inv h
  refine ⟨s₁, r0, _, hprepare, ?_⟩
  cases r0 with
  | error e =>
    cases hrest
    exact .inl rfl
  | ok u =>
    obtain ⟨_, _, loaded, s₂, _, hload, hrest⟩ := Exec.bind_inv hrest
    obtain ⟨_, _, _, s₃, _, hbegin, hend⟩ := Exec.bind_inv hrest
    cases hend
    obtain ⟨_, hloaded, hs2⟩ := ask_run hload
    obtain ⟨_, hs3⟩ := ask_run hbegin
    rw [hs2] at hs3
    exact .inr ⟨loaded, hloaded, hs3⟩

/-- What is served from disk was read from the version of the digest in memory. -/
theorem loadCurrent_run {b : Option PolicyBundle}
    (h : Exec (pollWorld faults) source.loadCurrent s tr b s') :
    (s' = s ∧ b = none) ∨ ∃ r tr', s.mem.digest.isEmpty = false ∧ b = r.toOption ∧
      Exec (pollWorld faults) (onFs (source.store.read s.mem.digest).run) s tr' r s' := by
  unfold Source.loadCurrent at h
  obtain ⟨_, _, state, s₁, _, hread, hrest⟩ := Exec.bind_inv h
  obtain ⟨_, hstate, hs1⟩ := ask_run hread
  rw [hs1, hstate] at hrest
  cases hempty : s.mem.digest.isEmpty with
  | true =>
    rw [if_pos hempty] at hrest
    cases hrest
    exact .inl ⟨rfl, rfl⟩
  | false =>
    rw [if_neg (by rw [hempty]; exact Bool.false_ne_true)] at hrest
    obtain ⟨_, _, there, s₂, _, hhas, hrest⟩ := Exec.bind_inv hrest
    rw [has_run hhas] at hrest
    cases there with
    | false =>
      cases hrest
      exact .inl ⟨rfl, rfl⟩
    | true =>
      obtain ⟨_, _, r, s₃, _, hbundle, hend⟩ := Exec.bind_inv hrest
      cases hend
      exact .inr ⟨r, _, rfl, rfl, hbundle⟩

/-- What a call can come to. -/
inductive Served (faults : Faults) (source : Source) (tr : List (Event PollSig))
    (s s' : PollState) : Call → Answer → Prop where
  | poll {outcome : Outcome} : Polled faults source tr s s' outcome →
      Served faults source tr s s' .poll (.polled outcome)
  | recordError {e : Error} : Remembered faults s s' { s.mem with lastError := e.text } →
      Served faults source tr s s' (.recordError e) .recorded
  | loadNone : s' = s → Served faults source tr s s' .loadCurrent (.loaded none)
  | loadCurrent {r : Except Error PolicyBundle} {tr' : List (Event PollSig)} :
      s.mem.digest.isEmpty = false →
      Exec (pollWorld faults) (onFs (source.store.read s.mem.digest).run) s tr' r s' →
      Served faults source tr s s' .loadCurrent (.loaded r.toOption)
  | restart {result : Except Error Unit} {r : Except Error Unit} {s₁ : PollState}
      {tr' : List (Event PollSig)} :
      Exec (pollWorld faults) (onFs source.store.prepare.run) s tr' r s₁ →
      (s' = s₁ ∨ ∃ loaded, (loaded = s₁.stateFile ∨ faults.load ∧ loaded = none) ∧
        s' = { s₁ with mem := loaded.getD State.default, polls := 0 }) →
      Served faults source tr s s' .restart (.started result)

variable {c : Call}

theorem serve_run {answer : Answer} (h : Exec (pollWorld faults) (source.serve c) s tr answer s') :
    Served faults source tr s s' c answer := by
  cases c with
  | poll =>
    obtain ⟨tr1, _, outcome, s₁, htr, hpoll, hend⟩ := Exec.bind_inv h
    cases hend
    rw [List.append_nil] at htr
    exact .poll (poll_run (htr ▸ hpoll))
  | recordError e =>
    obtain ⟨_, _, _, s₁, _, hrecord, hend⟩ := Exec.bind_inv h
    cases hend
    exact .recordError (changeState_run hrecord)
  | loadCurrent =>
    obtain ⟨_, _, b, s₁, _, hload, hend⟩ := Exec.bind_inv h
    cases hend
    rcases loadCurrent_run hload with ⟨hs, hb⟩ | ⟨r, _, hdigest, hb, hread⟩
    · rw [hb]
      exact .loadNone hs
    · rw [hb]
      exact .loadCurrent hdigest hread
  | restart =>
    obtain ⟨_, _, r, s₁, _, hrestart, hend⟩ := Exec.bind_inv h
    cases hend
    obtain ⟨s₂, _, _, hprepare, hstate⟩ := restart_run hrestart
    exact .restart hprepare hstate

/-- A manifest that passed in a call was genuine. -/
theorem Served.genuine {answer : Answer} {a : Accepted}
    (h : Served faults source tr s s' c answer) (ha : answer.accepted = some a) :
    Genuine source s.mem tr a := by
  cases h with
  | poll hpoll =>
    cases hpoll with
    | failed _ => cases ha
    | unchanged _ _ _ _ => cases ha
    | accepted hgenuine _ _ _ _ _ _ _ =>
      cases ha
      exact hgenuine
  | recordError _ => cases ha
  | loadNone _ => cases ha
  | loadCurrent _ _ => cases ha
  | restart _ _ => cases ha

/-! ## 8. A world that can be played -/

/-- A registry that answers by a table, at a fixed time. Requests for the same thing are told apart
    by the number of the poll. -/
structure Table where
  manifest : UInt64 → Option String → Except String Response
  blob : String → Except String Response
  now : Int64

/-- What each call does when the registry is a table and nothing fails on disk. -/
def Table.answer (table : Table) : (op : PollOp) → PollState → op.Ans × PollState
  | .fs op, s => ((s.tree.exec op).1, { s with tree := (s.tree.exec op).2 })
  | .getManifest _ etag, s => (table.manifest s.polls etag, s)
  | .getBlob url, s => (table.blob url, s)
  | .unixNow, s => (table.now, s)
  | .countPoll, s => (s.polls + 1, { s with polls := s.polls + 1 })
  | .readState, s => (s.mem, s)
  | .updateState f, s => (f s.mem, { s with mem := f s.mem })
  | .saveState snapshot, s => (.ok (), { s with stateFile := some snapshot })
  | .saveManifest _, s => (.ok (), s)
  | .loadState, s => (s.stateFile, s)
  | .begin state, s => ((), { s with mem := state, polls := 0 })

theorem Table.answer_world (table : Table) (faults : Faults) (op : PollOp) (s : PollState) :
    pollWorld faults op s (table.answer op s).1 (table.answer op s).2 := by
  cases op with
  | fs op => exact ⟨_, .inl ⟨SameAnswer.refl op _, rfl⟩, rfl⟩
  | getManifest url etag => exact rfl
  | getBlob url => exact rfl
  | unixNow => exact rfl
  | countPoll => exact ⟨rfl, rfl⟩
  | readState => exact ⟨rfl, rfl⟩
  | updateState f => exact ⟨rfl, rfl⟩
  | saveState snapshot => exact .inl ⟨rfl, rfl⟩
  | saveManifest toml => exact rfl
  | loadState => exact ⟨.inl rfl, rfl⟩
  | begin state => exact rfl

/-- The calls, one after the other, against a table. -/
def Table.play (table : Table) (source : Source) (calls : List Call) (s : PollState) :
    List (Done PollSig Call Answer) × PollState :=
  playAll table.answer source.serve calls s

theorem Table.play_session (table : Table) (faults : Faults) (source : Source) (calls : List Call)
    (s : PollState) : Session (pollWorld faults) source.serve s (table.play source calls s).1
      (table.play source calls s).2 :=
  playAll_session (table.answer_world faults) source.serve calls s

end Svidlet.Policy
