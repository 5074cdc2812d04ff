import Svidlet.Policy.Directory

/-!
# The chain of trust

A bundle reaches a pod through five hands: the envelope is opened with the trusted key, the manifest
in it names a digest for the node's ring, the blob with that digest is unpacked, the version is kept
on disk, and later polls and restarts read it back without asking anyone. The registry may lie at
every step, and the last two steps check nothing.

So trust is an invariant of the directory (`Sound`), and this module carries it through every call.
What is trusted grows with the history:

> `TrustedIn source before digest entries`
>   a manifest that passed in `before` names `digest` for this node, and the entries come from a
>   blob with that digest.

Removals must not fail: a staging directory that could not be removed is unpacked over, and what was
left in it becomes part of the version.
-/

namespace Svidlet.Policy

open Lib Lib.FileTree

/-! ## 1. Trust through a poll -/

/-- No removal of a directory fails. -/
def Faults.Clean (faults : Faults) : Prop := ∀ p, ¬ faults.fs (.removeDirAll p)

/-- What comes out of a blob with this digest is trusted for it. -/
def TrustsDigest (source : Source) (trusted : String → List Entry → Prop) (digest : String) :
    Prop :=
  ∀ blob entries, source.crates.sha256Digest blob = digest →
    extract blob source.maxBytes = .ok entries → trusted digest entries

section

variable {faults : Faults} {clean : Prop} {source : Source} {s s' : PollState}
  {tr : List (Event PollSig)} {trusted : String → List Entry → Prop} {digest : String}

variable {r : Except Stop Unit}

theorem ensureUnpacked_sound (hclean : clean → faults.Clean) (h : Sound clean trusted s.tree)
    (hform : DigestForm digest) (htrust : TrustsDigest source trusted digest)
    (hrun : Exec (pollWorld faults) (source.ensureUnpacked digest).run s tr r s') :
    Sound clean trusted s'.tree := by
  rcases ensureUnpacked_run hrun with ⟨hs, -⟩ | ⟨blob, entries, tr', hsha, hextract, _, _, hwrite⟩
  · rw [hs]
    exact h
  obtain ⟨_, t, _, hsound, hs⟩ :=
    onDisk_post (h.writeVersion hclean hform (htrust blob entries hsha hextract)) hwrite
  rw [hs]
  exact hsound

theorem setCurrent_sound (h : Sound clean trusted s.tree)
    (hrun : Exec (pollWorld faults) (onDisk (source.store.setCurrent digest)).run s tr r s') :
    Sound clean trusted s'.tree := by
  obtain ⟨_, t, _, ⟨hlayout, honly⟩, hs⟩ :=
    onDisk_post (Watch.only (setCurrent_watch h.layout)) hrun
  rw [hs]
  exact h.atCurrent hlayout honly

theorem prune_sound {keep : List String} {removed : Nat} (hclean : clean → faults.Clean)
    (h : Sound clean trusted s.tree)
    (hrun : Exec (pollWorld faults) (onFs (source.store.prune keep)) s tr removed s') :
    Sound clean trusted s'.tree := by
  obtain ⟨t, hends, hs⟩ := onFs_post (prune_watch h.layout hclean) hrun
  rw [hs]
  exact h.thinned hends

/-- Reading back changes nothing, and what is read can be trusted. -/
theorem read_sound {r : Except Error PolicyBundle} (h : Sound clean trusted s.tree)
    (hrun : Exec (pollWorld faults) (onFs (source.store.read digest).run) s tr r s') :
    s' = s ∧ ∀ bundle, r = .ok bundle → bundle.revision = digest ∧
      (DigestForm digest → clean → Delivers trusted digest bundle) := by
  obtain ⟨t, ⟨ht, hbundle⟩, hs⟩ := onFs_post h.read hrun
  refine ⟨?_, hbundle⟩
  rw [hs, ht, withTree_self]

/-- What a call returned can be trusted. -/
def Returns (clean : Prop) (trusted : String → List Entry → Prop) (bundle : Option PolicyBundle) :
    Prop :=
  ∀ b, bundle = some b → DigestForm b.revision ∧ (clean → Delivers trusted b.revision b)

theorem Swapped.sound {ring : Ring} {previous : String} {etag : Option String}
    {r : Except Stop PolicyBundle} (hclean : clean → faults.Clean)
    (h : Sound clean trusted s.tree) (hform : DigestForm ring.bundle)
    (htrust : TrustsDigest source trusted ring.bundle)
    (hswap : Swapped faults source ring previous etag s s' r) :
    Sound clean trusted s'.tree ∧ Returns clean trusted r.toOption := by
  cases hswap with
  | notUnpacked hun => exact ⟨ensureUnpacked_sound hclean h hform htrust hun, nofun⟩
  | notLinked hun hlink =>
    have h1 := ensureUnpacked_sound hclean h hform htrust hun
    exact ⟨setCurrent_sound h1 hlink, nofun⟩
  | notRead hun hlink hread =>
    have h1 := ensureUnpacked_sound hclean h hform htrust hun
    have h2 := setCurrent_sound h1 hlink
    obtain ⟨_, _, hread⟩ := onDisk_run hread
    rw [(read_sound h2 hread).1]
    exact ⟨h2, nofun⟩
  | done hun hlink hread hset hprune hetag =>
    have h1 := ensureUnpacked_sound hclean h hform htrust hun
    have h2 := setCurrent_sound h1 hlink
    obtain ⟨r0, hr, hread⟩ := onDisk_run hread
    obtain ⟨hs3, hbundle⟩ := read_sound h2 hread
    obtain ⟨_, hset⟩ := setCurrent_run hset
    have h4 : Sound clean trusted _ := hset.tree ▸ hs3 ▸ h2
    have h5 := prune_sound hclean h4 hprune
    refine ⟨(rememberEtag_run hetag).tree ▸ h5, ?_⟩
    intro b hb
    obtain rfl := Option.some.inj hb
    obtain ⟨hrevision, hdelivers⟩ := hbundle _ (mapError_ok.mp hr.symm)
    rw [hrevision]
    exact ⟨hform, hdelivers hform⟩

theorem Followed.sound {accepted : Accepted} {r : Except Stop (Option PolicyBundle)}
    (hclean : clean → faults.Clean) (h : Sound clean trusted s.tree)
    (hform : ∀ ring, accepted.rollout.target source.crates source.cluster source.node
      = some (some ring) → DigestForm ring.bundle ∧ TrustsDigest source trusted ring.bundle)
    (hfollow : Followed faults source accepted s s' r) :
    Sound clean trusted s'.tree ∧ Returns clean trusted r.toOption.join := by
  cases hfollow with
  | frozen _ hetag => exact ⟨(rememberEtag_run hetag).tree ▸ h, nofun⟩
  | panicked _ _ hs => exact ⟨hs ▸ h, nofun⟩
  | noRing _ _ hetag => exact ⟨(rememberEtag_run hetag).tree ▸ h, nofun⟩
  | upToDate _ _ _ hetag hset =>
    have h1 : Sound clean trusted _ := (rememberEtag_run hetag).tree ▸ h
    rcases hset with hs | ⟨_, hset⟩
    · exact ⟨hs ▸ h1, nofun⟩
    · obtain ⟨_, hset⟩ := setCurrent_run hset
      exact ⟨hset.tree ▸ h1, nofun⟩
  | @swapped ring r _ htarget _ hswap =>
    obtain ⟨hring, htrust⟩ := hform ring htarget
    obtain ⟨hsound, hreturns⟩ := hswap.sound hclean h hring htrust
    refine ⟨hsound, ?_⟩
    cases r with
    | error e => exact nofun
    | ok bundle => exact hreturns

/-- The digest in use is one a manifest named, or there is none. -/
def GoodDigest (m : State) : Prop := m.digest.isEmpty = true ∨ DigestForm m.digest

variable {c : Call} {answer : Answer}

/-- **One call.** Trust is kept, and what is returned can be trusted. -/
theorem Served.sound (hclean : clean → faults.Clean) (h : Sound clean trusted s.tree)
    (htrust : ∀ accepted ring, answer.accepted = some accepted →
      accepted.rollout.target source.crates source.cluster source.node = some (some ring) →
      TrustsDigest source trusted ring.bundle) (hserved : Served faults source tr s s' c answer) :
    Sound clean trusted s'.tree ∧ (GoodDigest s.mem → Returns clean trusted answer.bundle) := by
  cases hserved with
  | poll hpoll =>
    cases hpoll with
    | failed hs => exact ⟨hs ▸ h, nofun⟩
    | unchanged _ _ _ hrecord => exact ⟨hrecord.tree ▸ h, nofun⟩
    | accepted hgenuine _ _ _ _ _ hrecord hfollow =>
      have hfollowed := hfollow.sound hclean (hrecord.tree ▸ h) fun ring htarget =>
        ⟨target_digestForm hgenuine.parsed htarget, htrust _ ring rfl htarget⟩
      exact ⟨hfollowed.1, fun _ => hfollowed.2⟩
  | recordError hrecord => exact ⟨hrecord.tree ▸ h, nofun⟩
  | loadNone hs => exact ⟨hs ▸ h, nofun⟩
  | @loadCurrent r _ hdigest hread =>
    obtain ⟨hs, hbundle⟩ := read_sound h hread
    refine ⟨hs ▸ h, ?_⟩
    intro hmem
    have hform : DigestForm s.mem.digest := by
      rcases hmem with hempty | hform
      · rw [hdigest] at hempty
        cases hempty
      · exact hform
    cases r with
    | error e => exact nofun
    | ok bundle =>
      intro b hb
      obtain rfl := Option.some.inj hb
      obtain ⟨hrevision, hdelivers⟩ := hbundle _ rfl
      rw [hrevision]
      exact ⟨hform, hdelivers hform⟩
  | restart hprepare hstate =>
    obtain ⟨t, hends, hs1⟩ := onFs_post (prepare_watch h.layout) hprepare
    have h1 := h.thinned hends
    subst hs1
    refine ⟨?_, nofun⟩
    rcases hstate with hs | ⟨_, _, hs⟩
    · rw [hs]
      exact h1
    · rw [hs]
      exact h1

/-- The layout is kept whatever happens. -/
theorem Served.layout (h : Layout s.tree) (hserved : Served faults source tr s s' c answer) :
    Layout s'.tree := by
  have hstart : Sound False (fun _ _ => True) s.tree := ⟨h, nofun⟩
  exact (hserved.sound nofun hstart fun _ _ _ _ _ _ _ _ => trivial).1.layout

end

/-! ## 2. Trust through a session -/

/-- The manifests that passed, in order. -/
def acceptedIn (ds : List (Done PollSig Call Answer)) : List Accepted :=
  ds.filterMap (·.answer.accepted)

theorem acceptedIn_append (ds ds' : List (Done PollSig Call Answer)) :
    acceptedIn (ds ++ ds') = acceptedIn ds ++ acceptedIn ds' := List.filterMap_append

variable {ds : List (Done PollSig Call Answer)}

theorem mem_acceptedIn {a : Accepted} :
    a ∈ acceptedIn ds ↔ ∃ d ∈ ds, d.answer.accepted = some a := List.mem_filterMap

/-- A manifest that passed, signed with the trusted key, names this digest for this node, and the
    entries are what unpacking a blob with this digest gives. -/
def TrustedIn (source : Source) (ds : List (Done PollSig Call Answer)) (digest : String)
    (entries : List Entry) : Prop :=
  ∃ accepted ∈ acceptedIn ds, ∃ ring blob,
    source.crates.openEnvelope accepted.envelope source.key = .ok accepted.toml ∧
    Rollout.parse source.crates accepted.toml = .ok accepted.rollout ∧
    accepted.rollout.target source.crates source.cluster source.node = some (some ring) ∧
    ring.bundle = digest ∧ source.crates.sha256Digest blob = digest ∧
    extract blob source.maxBytes = .ok entries

theorem TrustedIn.mono {source : Source} {ds' : List (Done PollSig Call Answer)} {digest : String}
    {entries : List Entry} (h : TrustedIn source ds digest entries)
    (hsub : ∀ a ∈ acceptedIn ds, a ∈ acceptedIn ds') : TrustedIn source ds' digest entries := by
  obtain ⟨accepted, hmem, hrest⟩ := h
  exact ⟨accepted, hsub _ hmem, hrest⟩

section

variable {faults : Faults} {source : Source} {s s' : PollState} {tr : List (Event PollSig)}

variable {c : Call} {answer : Answer} {accepted : Accepted}

variable {m : State} {m' : State}

theorem GoodDigest.of_digest (h : GoodDigest m) (hd : m'.digest = m.digest) :
    GoodDigest m' := by
  unfold GoodDigest
  rw [hd]
  exact h

/-- The digests in memory and in `state.json`. -/
def PollState.GoodDigests (s : PollState) : Prop :=
  GoodDigest s.mem ∧ ∀ st, s.stateFile = some st → GoodDigest st

theorem Recorded.goodDigests (h : Recorded faults s s' m) (hs : s.GoodDigests) (hm : GoodDigest m) :
    s'.GoodDigests := by
  refine ⟨h.mem ▸ hm, ?_⟩
  intro st hst
  rcases h.file st hst with hold | hold | hnew
  · exact hs.2 st hold
  · exact hs.1.of_digest hold
  · exact hm.of_digest hnew

theorem Settled.goodDigest {r : Except Stop (Option PolicyBundle)}
    (h : Settled source accepted m r m') (hm : GoodDigest m)
    (hform : ∀ ring, accepted.rollout.target source.crates source.cluster source.node
      = some (some ring) → DigestForm ring.bundle) : GoodDigest m' := by
  cases h with
  | stopped => exact hm
  | frozen _ => exact hm
  | noRing _ _ => exact hm
  | upToDate _ _ _ => exact hm
  | applied _ htarget _ => exact .inr (hform _ htarget)

theorem Served.goodDigests (hserved : Served faults source tr s s' c answer) (hs : s.GoodDigests) :
    s'.GoodDigests := by
  cases hserved with
  | poll hpoll =>
    cases hpoll with
    | failed heq =>
      rw [heq]
      exact hs
    | unchanged _ _ _ hrecord => exact hrecord.toRecorded.goodDigests hs hs.1
    | accepted hgenuine _ _ _ _ _ hrecord hfollow =>
      have h1 := hrecord.toRecorded.goodDigests hs hs.1
      obtain ⟨m, hrecorded, hsettled⟩ := hfollow.settled
      exact hrecorded.goodDigests h1 (hsettled.goodDigest h1.1 fun ring htarget =>
        target_digestForm hgenuine.parsed htarget)
  | recordError hrecord => exact hrecord.toRecorded.goodDigests hs hs.1
  | loadNone heq =>
    rw [heq]
    exact hs
  | loadCurrent _ hread => exact ((onFs_sameBut hread).recorded faults).goodDigests hs hs.1
  | restart hprepare hstate =>
    have h1 := ((onFs_sameBut hprepare).recorded faults).goodDigests hs hs.1
    rcases hstate with heq | ⟨loaded, hloaded, heq⟩
    · rw [heq]
      exact h1
    rw [heq]
    refine ⟨?_, h1.2⟩
    cases loaded with
    | none => exact .inl rfl
    | some st =>
      rcases hloaded with hfile | ⟨_, hnone⟩
      · exact h1.2 st hfile.symm
      · cases hnone

/-- A directory with nothing in it. -/
def EmptyDir (t : FileTree Bytes) : Prop := t.IsDir [] ∧ ∀ p, p ≠ [] → t.get p = none

variable {t : FileTree Bytes}

theorem EmptyDir.sound {clean : Prop} {trusted : String → List Entry → Prop} (h : EmptyDir t) :
    Sound clean trusted t :=
  ⟨.of_empty h.1 h.2, fun _ v _ => .inl (h.2 _ (by simp))⟩

theorem EmptyDir.layout (h : EmptyDir t) : Layout t := .of_empty h.1 h.2

end

/-! ## 3. A release, played

    A release as the registry would serve it. The functions of other crates are tables here, with
    the values the real ones have on these inputs. -/

/-- `len` bytes, written as one number. -/
def bigEndian (len n : Nat) : Bytes :=
  (List.range len).map fun i => UInt8.ofNat (n / 256 ^ (len - 1 - i))

/-- A signed manifest and all that is read from it. -/
structure Release where
  toml : Bytes
  signature : Bytes
  parsed : SignedEnvelope
  /-- SHA-256 of the envelope -/
  digest : Bytes
  rollout : Rollout

/-- The envelope as it is written. -/
def Release.envelope (r : Release) : Bytes :=
  utf8Bytes ("\x7b\"svidlet_signature\":1,\"algorithm\":\"ed25519\",\"payload\":\"" ++ r.parsed.payload
    ++ "\",\"signature\":\"" ++ r.parsed.signature ++ "\"\x7d")

/-- `sha256:<hex>` -/
def Release.digestText (r : Release) : String :=
  "sha256:" ++ String.ofList (r.digest.flatMap Crates.hexByte)

/-- The OCI manifest that has the envelope as its one layer. -/
def Release.manifest (r : Release) : String :=
  "\x7b\"layers\":[\x7b\"digest\":\"" ++ r.digestText ++ "\"\x7d]\x7d"

/-- The registry's answer when this is the release under the tag. -/
def Release.response (r : Release) (etag : Option String) : Response :=
  ⟨200, etag, .ok (utf8Bytes r.manifest)⟩

def releaseKey : PublicKey :=
  ⟨bigEndian 32 0xd75a980182b10ab7d54bfed3c964073a0ee172f3daa62325af021a68f707511a, "21fe31dfa154"⟩

/-- The crates, on these releases and on blobs with the given SHA-256. -/
def cratesFor (releases : List Release) (blobs : List (Bytes × Bytes)) : Crates where
  sha256 bytes := (((releases.map fun r => (r.envelope, r.digest)) ++ blobs).lookup bytes).getD []
  ed25519 key payload signature :=
    key = releaseKey.raw && releases.any fun r => r.toml = payload && r.signature = signature
  base64 text :=
    match releases.find? (·.parsed.payload = text), releases.find? (·.parsed.signature = text) with
    | some r, _ => .ok r.toml
    | _, some r => .ok r.signature
    | _, _ => .error "Invalid padding"
  envelopeJson bytes :=
    match releases.find? (·.envelope = bytes) with
    | some r => .ok r.parsed
    | none => .error "expected value at line 1 column 1"
  manifestJson text :=
    match releases.find? (·.manifest = text) with
    | some r => .ok [r.digestText]
    | none => .error "expected value at line 1 column 1"
  rolloutToml text :=
    match releases.find? (fun r => fromUtf8 r.toml = some text) with
    | some r => .ok r.rollout
    | none => .error "missing field"
  bundleToml _ := .ok 1
  utf8Error _ := "invalid utf-8 sequence"

/-- One file of a tar archive. -/
def tarFile (name : Bytes) (size : UInt8) (content : Bytes) : Bytes :=
  -- name, mode, owner, size, then everything up to the type flag, and the rest of the block
  name ++ List.replicate (100 - name.length) 0
    ++ [48, 48, 48, 48, 54, 52, 52, 0] ++ List.replicate 16 0
    ++ List.replicate 9 48 ++ [48 + size / 8, 48 + size % 8, 0] ++ List.replicate 20 0
    ++ [48] ++ List.replicate 355 0
    ++ content ++ List.replicate (512 - content.length) 0

/-- A tar archive with one file, `bundle.toml`. -/
def tarball (size : UInt8) (content : Bytes) : Bytes := tarFile (utf8Bytes "bundle.toml") size content

/-- `schema=1` -/
def bundleText : Bytes := bigEndian 9 0x736368656d613d310a

def firstBundle : Bytes := tarball 9 bundleText

def firstDigest : String :=
  "sha256:46be3b261b2182d31b090f0c3b8621f96973239ef8a957738e955a510820ab98"

/-- A manifest with one ring, which takes every node. -/
def firstRelease : Release where
  toml := utf8Bytes ("schema=1\n[[ring]]\nname=\"a\"\nbundle=\"" ++ firstDigest ++ "\"\n")
  signature := bigEndian 64
    0x5cb0749ad6dc158fa0ac397469d6ef1bd26f90f8e07a5dfd678464da4f93f84f1de8c2e85ab08f7e8db28fa38e604afc7725cae7cd6922c6e4baa59fef27c404
  parsed := ⟨1, "ed25519", "c2NoZW1hPTEKW1tyaW5nXV0KbmFtZT0iYSIKYnVuZGxlPSJzaGEyNTY6NDZiZTNiMjYxYjIxODJkMzFiMDkwZjBjM2I4NjIxZjk2OTczMjM5ZWY4YTk1NzczOGU5NTVhNTEwODIwYWI5OCIK",
    "XLB0mtbcFY+grDl0adbvG9JvkPjgel39Z4Rk2k+T+E8d6MLoWrCPfo2yj6OOYEr8dyXK581pIsbkuqWf7yfEBA=="⟩
  digest := bigEndian 32 0x50df95fbae2db76a579ad1de52f20b7f297333c58159d5a57bfe6a14394c1f56
  rollout := ⟨1, false, none, none, [⟨"a", ⟨[], none, []⟩, firstDigest⟩]⟩

/-- `schema=1` and an empty line -/
def secondBundle : Bytes := tarball 10 (bundleText ++ [10])

def secondDigest : String :=
  "sha256:89f3d1941182590bbf2f8fad504c289fc5e37983ee4b9c879500a70ad1ea4114"

/-- The same, with another bundle. -/
def secondRelease : Release where
  toml := utf8Bytes ("schema=1\n[[ring]]\nname=\"a\"\nbundle=\"" ++ secondDigest ++ "\"\n")
  signature := bigEndian 64
    0x53f543c4effbf1f841bcc1f3d14300db33169cac6a817d413291fcdf035c30e5b2c291de705ae7cf18c2843866b0f76d3021e907d3e936596b104118e9a4f002
  parsed := ⟨1, "ed25519", "c2NoZW1hPTEKW1tyaW5nXV0KbmFtZT0iYSIKYnVuZGxlPSJzaGEyNTY6ODlmM2QxOTQxMTgyNTkwYmJmMmY4ZmFkNTA0YzI4OWZjNWUzNzk4M2VlNGI5Yzg3OTUwMGE3MGFkMWVhNDExNCIK",
    "U/VDxO/78fhBvMHz0UMA2zMWnKxqgX1BMpH83wNcMOWywpHecFrnzxjChDhmsPdtMCHpB9PpNllrEEEY6aTwAg=="⟩
  digest := bigEndian 32 0x43b149302a27d1b5c98a5ed9cf21cb1e59803a303f0f4c06a664842af01c0362
  rollout := ⟨1, false, none, none, [⟨"a", ⟨[], none, []⟩, secondDigest⟩]⟩

def sampleSource (releases : List Release) (blobs : List (Bytes × Bytes)) : Source where
  crates := cratesFor releases blobs
  key := releaseKey
  cluster := "c"
  node := "n"
  rolloutRef := ⟨"r", "m", "t", "https"⟩
  bundleRef := ⟨"r", "b", "t", "https"⟩
  fullFetchEvery := 60
  maxBytes := 1024 * 1024
  store := Store.new "/b" 1

/-- Envelopes and bundles under their own digests. -/
def blobOf (source : Source) (releases : List Release) (bundles : List (String × Bytes))
    (url : String) : Except String Response :=
  match releases.find? (fun r => source.rolloutRef.blobUrl r.digestText = url),
    bundles.find? (fun b => source.bundleRef.blobUrl b.1 = url) with
  | some r, _ => .ok ⟨200, none, .ok r.envelope⟩
  | none, some b => .ok ⟨200, none, .ok b.2⟩
  | none, none => .ok ⟨404, none, .ok []⟩

def firstSource : Source := sampleSource [firstRelease] [(firstBundle,
    bigEndian 32 0x46be3b261b2182d31b090f0c3b8621f96973239ef8a957738e955a510820ab98)]

def firstTable : Table where
  manifest _ _ := .ok (firstRelease.response (some "e"))
  blob := blobOf firstSource [firstRelease] [(firstDigest, firstBundle)]
  now := 0

def emptyTree : FileTree Bytes := ⟨[([], .dir 0o755)], 1⟩

theorem emptyTree_emptyDir : EmptyDir emptyTree := by
  refine ⟨⟨0o755, rfl⟩, ?_⟩
  intro p hp
  cases p with
  | nil => exact absurd rfl hp
  | cons c rest => rfl

def noFaults : Faults := ⟨fun _ => False, False, False⟩

end Svidlet.Policy
