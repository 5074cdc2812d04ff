import Svidlet.Node.Program

/-!
# The background loops

`renew.rs` and `recover.rs`: one pass each of renewal, adoption, reaping, trust-bundle refresh and
token check-in. Every pass takes a snapshot of what it has to do and then works through it, item by
item; what it has read about an item may be out of date by the time it acts.
-/

namespace Svidlet.Node

open Lib Issue
open Volume (Identity Modes)

section

variable {E : RegexEngine} (plugin : Plugin E)

/-! ## 1. Renewal -/

/-- Renew one certificate in place. -/
def renewOne (entry : Entry) : Prog NodeSig Unit := do
  let now ← ask .unixNow
  if !(← ask (.targetExists entry.targetPath)) then
    let _ ← ask (.storeRemove entry.targetPath)
    return ()
  match ← (issue plugin entry.spiffeId entry.targetPath entry.pod entry.podToken).run with
  | .ok bundle =>
    let renewAt ← ask (.jitteredRenewAt bundle.notBefore bundle.notAfter)
    ask (.storeRecordRenewal entry.targetPath bundle.notBefore bundle.notAfter renewAt)
    let _ ← (refreshTokens plugin entry.targetPath).run
    return ()
  | .error _ => ask (.storeRecordFailure entry.targetPath now)

def renewEach : List Entry → Prog NodeSig Unit
  | [] => return ()
  | entry :: rest => do
    renewOne plugin entry
    renewEach rest

/-- One pass of the renewal loop. -/
def renewDue : Prog NodeSig Unit := do
  let now ← ask .unixNow
  let due ← ask (.storeDue now)
  renewEach plugin due

/-! ## 2. Adoption -/

/-- Whether a certificate found on disk is one this node would have issued. -/
def identityBelongsHere (spiffeId : String) : Except String Unit := do
  match plugin.policy.attributesOf spiffeId with
  | none => throw ("does not match the configured SPIFFE ID template "
      ++ debugStr plugin.policy.template.raw)
  | some attrs =>
    (plugin.policy.check spiffeId).mapError Error.text
    let fields := plugin.policy.template.requiredFields
    refuseIf (Field.trustDomain ∈ fields ∧ attrs.trustDomain ≠ plugin.cfg.trustDomain)
      ("belongs to trust domain " ++ debugStr attrs.trustDomain ++ ", not "
        ++ debugStr plugin.cfg.trustDomain)
    refuseIf (Field.cluster ∈ fields ∧ attrs.cluster ≠ plugin.cfg.cluster)
      ("belongs to cluster " ++ debugStr attrs.cluster ++ ", not " ++ debugStr plugin.cfg.cluster)
    refuseIf (Field.nodeName ∈ fields ∧ attrs.nodeName ≠ plugin.cfg.nodeName)
      ("was issued for node " ++ debugStr attrs.nodeName ++ ", not "
        ++ debugStr plugin.cfg.nodeName)

/-- Put a volume with a good certificate into the store, and into the farm. -/
def adoptFound (now : Int) (found : Discovered) (facts : CertFacts) : Prog NodeSig Unit := do
  let renewAt ← ask (.jitteredRenewAt facts.notBefore facts.notAfter)
  -- a renewal point that has passed is spread over the start-up window
  let renewAt ← if renewAt ≤ now then (now + ·) <$> ask .startupSpread else pure renewAt
  let attrs := (plugin.policy.attributesOf facts.spiffeId.asStr).getD {}
  ask (.storeInsert {
    volumeId := found.volumeId, targetPath := found.targetPath, spiffeId := facts.spiffeId,
    pod := ⟨attrs.podName, attrs.ns, found.podUid, attrs.serviceAccount⟩,
    notBefore := facts.notBefore, notAfter := facts.notAfter, renewAt := renewAt,
    failures := 0, podToken := none })
  if plugin.cfg.policyGid.isSome then
    let _ ← ask (.expose (farmName found.volumeId) found.targetPath)
    return ()

/-- Adopt one discovered volume; answers whether it was adopted. -/
def adoptOne (now : Int) (found : Discovered) : Prog NodeSig Bool := do
  if (← ask (.storeGet found.targetPath)).isSome then return false
  match ← ask (.readCertChain found.targetPath) with
  | .error _ => return false
  | .ok chain =>
    match plugin.reader.inspect chain with
    | .error _ => return false
    | .ok facts =>
      match identityBelongsHere plugin facts.spiffeId.asStr with
      | .error _ => return false
      | .ok () =>
        adoptFound plugin now found facts
        return true

def adoptEach (now : Int) : List Discovered → Prog NodeSig Nat
  | [] => return 0
  | found :: rest => do
    let adopted ← adoptOne plugin now found
    return (← adoptEach now rest) + adopted.toNat

/-- One adoption pass; answers how many volumes were adopted. -/
def adopt : Prog NodeSig Nat := do
  let now ← ask .unixNow
  let found ← ask .discover
  adoptEach plugin now found

/-! ## 3. Reaping -/

def reapOne (entry : Entry) : Prog NodeSig Bool := do
  if ← ask (.targetExists entry.targetPath) then return false
  let _ ← ask (.storeRemove entry.targetPath)
  unexposeVolume plugin entry.volumeId
  let _ ← ask (.unpublish entry.targetPath)
  return true

def reapEach : List Entry → Prog NodeSig Nat
  | [] => return 0
  | entry :: rest => do
    let reaped ← reapOne plugin entry
    return (← reapEach rest) + reaped.toNat

/-- One pass of the reaper; answers how many entries were dropped. -/
def reapOrphans : Prog NodeSig Nat := do
  reapEach plugin (← ask .storeAll)

/-! ## 4. The trust bundle -/

/-- Rewrite `ca.crt` in one volume; answers whether it was written. -/
def refreshCaOf (fetched : String) (entry : Entry) : Prog NodeSig Bool := do
  match ← ask (.readIdentity entry.targetPath) with
  | .error _ => return false
  | .ok current =>
    if current.caPem = fetched then return false
    match ← ask (.publishIdentity entry.targetPath { current with caPem := fetched }
      plugin.cfg.modes .caOnly) with
    | .ok () => return true
    | .error _ => return false

def refreshCaEach (fetched : String) : List Entry → Prog NodeSig Nat
  | [] => return 0
  | entry :: rest => do
    let updated ← refreshCaOf plugin fetched entry
    return (← refreshCaEach fetched rest) + updated.toNat

/-- Fetch the trust bundle and, if it changed, rewrite `ca.crt` everywhere. -/
def refreshCa : Fallible NodeSig Error Nat := do
  let fetched ← (ExceptT.mk (ask .backendCaChain) : Fallible NodeSig Error String)
  if ← ExceptT.lift (ask (.swapCa fetched)) then return 0
  let entries ← ExceptT.lift (ask .storeAll)
  ExceptT.lift (refreshCaEach plugin fetched entries)

/-- Seed the trust bundle cache at start-up. -/
def primeCa : Fallible NodeSig Error Unit := do
  let fetched ← (ExceptT.mk (ask .backendCaChain) : Fallible NodeSig Error String)
  liftResult (refuseIf (containsText fetched "-----BEGIN CERTIFICATE-----" = false)
    (Error.protocol "trust bundle is not PEM"))
  let _ ← ExceptT.lift (ask (.swapCa fetched))
  return ()

/-! ## 5. Tokens -/

/-- Check in for one volume after the other; a broker that cannot be reached ends the pass. -/
def refreshTokensEach : List Entry → Prog NodeSig Nat
  | [] => return 0
  | entry :: rest => do
    if !(← ask (.targetExists entry.targetPath)) then refreshTokensEach rest
    else
      match ← (refreshTokens plugin entry.targetPath).run with
      | .ok changed => return (← refreshTokensEach rest) + changed.toNat
      | .error e => if e.code = .transport then return 0 else refreshTokensEach rest

/-- One pass of the token check-in; answers how many volumes were rewritten. -/
def refreshTokensOnce : Prog NodeSig Nat := do
  refreshTokensEach plugin (← ask .storeAll)

/-! ## 6. Everything that runs -/

/-- What the process runs: calls of the kubelet, and passes of its own loops. The last task is the
    policy daemon's, which is another process. -/
inductive Task where
  | publish (req : PublishRequest)
  | unpublish (req : UnpublishRequest)
  | renew
  | adopt
  | reap
  | refreshCa
  | primeCa
  | checkIn (target : String)
  | refreshTokens
  | policyDaemon (target : String)
  deriving DecidableEq

/-- The target of a call of the kubelet. -/
def Task.callTarget : Task → Option String
  | .publish req => some req.targetPath
  | .unpublish req => some req.targetPath
  | _ => none

/-- The loops that work on the store and the volumes beside the kubelet's calls. -/
def Task.isPass : Task → Bool
  | .renew | .adopt | .reap => true
  | _ => false

/-- All renewal passes have one key. -/
def Task.renewal : Task → Option Unit
  | .renew => some ()
  | _ => none

/-- How a task ends: a call with its status, a pass with nothing. -/
abbrev TaskResult := Option (Except Status Unit)

def body : Task → Prog NodeSig TaskResult
  | .publish req => some <$> (nodePublishVolume plugin req).run
  | .unpublish req => some <$> (nodeUnpublishVolume plugin req).run
  | .renew => (fun _ => none) <$> renewDue plugin
  | .adopt => (fun _ => none) <$> adopt plugin
  | .reap => (fun _ => none) <$> reapOrphans plugin
  | .refreshCa => (fun _ => none) <$> (refreshCa plugin).run
  | .primeCa => (fun _ => none) <$> primeCa.run
  | .checkIn target => (fun _ => none) <$> (refreshTokens plugin target).run
  | .refreshTokens => (fun _ => none) <$> refreshTokensOnce plugin
  | .policyDaemon target => (fun _ => none) <$> ask (.publishPolicy target)

end

/-! ## 7. Which calls they make -/

section

variable {E : RegexEngine} {plugin : Plugin E} {φ : NodeOp → Prop}

theorem ioCall_makes {α : Type} {p : Prog NodeSig (Except IoError α)} (hp : p.Makes φ) :
    (ioCall p).run.Makes φ :=
  hp.bind fun _ => trivial

theorem issue_makes {id : SpiffeId} {target : String} {pod : PodRef} {token : Option PodToken}
    (hread : ∀ op, op.target = none → φ op)
    (hpub : ∀ identity modes, φ (.publishIdentity target identity modes .issued)) :
    (issue plugin id target pod token).run.Makes φ := by
  refine .run_bind (.of_op (hread _ rfl)) fun generated => ?_
  refine .run_bind (.of_op (hread _ rfl)) fun reply => ?_
  refine .result_bind fun bundle => ?_
  refine .result_bind fun leafKey => ?_
  refine .result_bind fun _ => ?_
  refine .lift_bind (.of_op (hread _ rfl)) fun cached => ?_
  exact .run_bind (ioCall_makes (.of_op (hpub _ _))) fun _ => trivial

theorem refreshTokens_makes {target : String} (hread : ∀ op, op.target = none → φ op) :
    (refreshTokens plugin target).run.Makes φ := by
  unfold refreshTokens
  split
  · refine .run_bind (ioCall_makes (.of_op (hread (.readIdentity target) rfl)))
      fun identity => ?_
    refine .run_bind (.of_op (hread _ rfl)) fun grants => ?_
    exact ioCall_makes (.of_op (hread (.swapTokens target grants) rfl))
  · trivial

theorem unexposeVolume_makes {volumeId : String} (hread : ∀ op, op.target = none → φ op) :
    (unexposeVolume plugin volumeId).Makes φ := by
  unfold unexposeVolume
  split
  · exact .bind (.of_op (hread _ rfl)) fun _ => trivial
  · trivial

theorem renewOne_makes {entry : Entry} (hread : ∀ op, op.target = none → φ op)
    (hpub : ∀ identity modes, φ (.publishIdentity entry.targetPath identity modes .issued))
    (hremove : φ (.storeRemove entry.targetPath))
    (hrenewal : ∀ nb na ra, φ (.storeRecordRenewal entry.targetPath nb na ra))
    (hfailure : ∀ now, φ (.storeRecordFailure entry.targetPath now)) :
    (renewOne plugin entry).Makes φ := by
  refine .bind (.of_op (hread _ rfl)) fun now => ?_
  refine .bind (.of_op (hread (.targetExists _) rfl)) fun there => ?_
  cases there with
  | false => exact .bind (.of_op hremove) fun _ => trivial
  | true =>
    refine .bind (issue_makes hread hpub) fun r => ?_
    cases r with
    | error e => exact .of_op (hfailure now)
    | ok bundle =>
      refine .bind (.of_op (hread (.jitteredRenewAt _ _) rfl)) fun renewAt => ?_
      refine .bind (.of_op (hrenewal _ _ _)) fun _ => ?_
      exact .bind (refreshTokens_makes hread) fun _ => trivial

theorem renewDue_makes (hread : ∀ op, op.target = none → φ op)
    (hpub : ∀ target identity modes, φ (.publishIdentity target identity modes .issued))
    (hremove : ∀ target, φ (.storeRemove target))
    (hrenewal : ∀ target nb na ra, φ (.storeRecordRenewal target nb na ra))
    (hfailure : ∀ target now, φ (.storeRecordFailure target now)) :
    (renewDue plugin).Makes φ := by
  refine .bind (.of_op (hread _ rfl)) fun now => ?_
  refine .bind (.of_op (hread (.storeDue now) rfl)) fun due => ?_
  induction due with
  | nil => trivial
  | cons entry rest ih =>
    exact .bind (renewOne_makes hread (hpub _) (hremove _) (hrenewal _) (hfailure _)) fun _ => ih

theorem refreshCa_makes (hread : ∀ op, op.target = none → φ op)
    (hpub : ∀ target identity modes, φ (.publishIdentity target identity modes .caOnly)) :
    (refreshCa plugin).run.Makes φ := by
  have heach : ∀ fetched entries, (refreshCaEach plugin fetched entries).Makes φ := by
    intro fetched entries
    induction entries with
    | nil => trivial
    | cons entry rest ih =>
      have hone : (refreshCaOf plugin fetched entry).Makes φ := by
        refine .bind (.of_op (hread (.readIdentity _) rfl)) fun r => ?_
        cases r with
        | error e => trivial
        | ok current =>
          dsimp only
          split
          · trivial
          · refine .bind (.of_op (hpub _ _ _)) fun r => ?_
            cases r <;> trivial
      exact .bind hone fun _ => .bind ih fun _ => trivial
  refine .run_bind (.of_op (hread _ rfl)) fun fetched => ?_
  refine .lift_bind (.of_op (hread (.swapCa fetched) rfl)) fun same => ?_
  cases same with
  | true => trivial
  | false =>
    refine .lift_bind (.of_op (hread .storeAll rfl)) fun entries => ?_
    exact (heach fetched entries).map

/-! Adoption looks for volumes once, at the start of a pass. -/

section

variable {found : Discovered} {now : Int}

theorem adoptFound_makes {facts : CertFacts}
    (hother : ∀ op, op.target = none → op ≠ .discover → φ op)
    (hinsert : ∀ entry, entry.targetPath = found.targetPath → φ (.storeInsert entry)) :
    (adoptFound plugin now found facts).Makes φ := by
  have htail : ∀ entry : Entry, entry.targetPath = found.targetPath →
      (ask (.storeInsert entry) >>= fun _ =>
        if plugin.cfg.policyGid.isSome = true then
          ask (.expose (farmName found.volumeId) found.targetPath) >>= fun _ => pure ()
        else pure () : Prog NodeSig Unit).Makes φ := by
    intro entry hentry
    refine .bind (.of_op (hinsert entry hentry)) fun _ => ?_
    split
    · exact .bind (.of_op (hother _ rfl (by simp))) fun _ => trivial
    · trivial
  unfold adoptFound
  refine .bind (.of_op (hother _ rfl (by simp))) fun renewAt => ?_
  dsimp only
  split
  · exact .bind (.map (.of_op (hother _ rfl (by simp)))) fun _ => htail _ rfl
  · exact .bind trivial fun _ => htail _ rfl

theorem adoptOne_makes (hother : ∀ op, op.target = none → op ≠ .discover → φ op)
    (hinsert : ∀ entry, entry.targetPath = found.targetPath → φ (.storeInsert entry)) :
    (adoptOne plugin now found).Makes φ := by
  refine .bind (.of_op (hother (.storeGet _) rfl (by simp))) fun held => ?_
  split
  · trivial
  refine .bind (.of_op (hother (.readCertChain _) rfl (by simp))) fun r => ?_
  cases r with
  | error e => trivial
  | ok chain =>
    dsimp only
    split
    · trivial
    split
    · trivial
    · exact .bind (adoptFound_makes hother hinsert) fun _ => trivial

theorem adoptEach_makes {list : List Discovered}
    (hother : ∀ op, op.target = none → op ≠ .discover → φ op)
    (hinsert : ∀ entry, φ (.storeInsert entry)) : (adoptEach plugin now list).Makes φ := by
  induction list with
  | nil => trivial
  | cons found rest ih =>
    exact .bind (adoptOne_makes hother fun entry _ => hinsert entry) fun _ => .bind ih fun _ => trivial

end

theorem reapOne_makes {entry : Entry} (hread : ∀ op, op.target = none → φ op)
    (hremove : φ (.storeRemove entry.targetPath)) (hunpublish : φ (.unpublish entry.targetPath)) :
    (reapOne plugin entry).Makes φ := by
  refine .bind (.of_op (hread (.targetExists _) rfl)) fun there => ?_
  cases there with
  | true => trivial
  | false =>
    refine .bind (.of_op hremove) fun _ => ?_
    refine .bind (unexposeVolume_makes hread) fun _ => ?_
    exact .bind (.of_op hunpublish) fun _ => trivial

/-! The kubelet's calls are about their own target. -/

section

variable {target : String} (hread : ∀ op, op.target = none → φ op)
  (hown : ∀ op, op.target = some target → φ op)

include hread

theorem waitForPolicy_makes (rounds : Nat) : (waitForPolicy target rounds).Makes φ := by
  induction rounds with
  | zero => trivial
  | succ rounds ih =>
    refine .bind (.of_op (hread (.revisionExists target) rfl)) fun there => ?_
    cases there with
    | true => trivial
    | false =>
      refine .bind (.of_op (hread .deadlinePassed rfl)) fun passed => ?_
      cases passed with
      | true => trivial
      | false => exact ih

include hown

theorem publishNew_makes {req : PublishRequest} (ht : req.targetPath = target) {id : SpiffeId}
    {pod : PodRef} {token : Option PodToken} :
    (publishNew plugin req id pod token).run.Makes φ := by
  subst ht
  have hissue : (do
      ioCall (ask (.ensureTmpfs req.targetPath plugin.cfg.tmpfsSize plugin.cfg.policyGid))
      issue plugin id req.targetPath pod token : Fallible NodeSig Error IssuedBundle).run.Makes φ :=
    .run_bind (ioCall_makes (.of_op (hown _ rfl))) fun _ =>
      issue_makes hread fun _ _ => hown _ rfl
  have htakeBack : ∀ {α : Type} (status : Status), ((ExceptT.lift (ask (.unpublish req.targetPath)) :
      Fallible NodeSig Status _) >>= fun _ => (throw status : Fallible NodeSig Status α)).run.Makes φ :=
    fun _ => .lift_bind (.of_op (hown _ rfl)) fun _ => trivial
  refine .lift_bind hissue fun outcome => ?_
  cases outcome with
  | error e => exact htakeBack _
  | ok bundle =>
    refine .run_bind ?_ fun _ => .run_bind ?_ fun _ => ?_
    · unfold exposeVolume
      split
      · refine .lift_bind (.of_op (hread _ rfl)) fun r => ?_
        cases r with
        | ok u => trivial
        | error e => exact htakeBack _
      · trivial
    · unfold awaitPolicy
      split
      · refine .lift_bind (waitForPolicy_makes hread _) fun there => ?_
        cases there with
        | true => trivial
        | false => exact .lift_bind (unexposeVolume_makes hread) fun _ => htakeBack _
      · trivial
    · refine .lift_bind (.of_op (hread _ rfl)) fun renewAt => ?_
      refine .lift_bind (.of_op (hown _ rfl)) fun _ => ?_
      refine .lift_bind (.of_op (hread _ rfl)) fun passed => ?_
      cases passed with
      | true => trivial
      | false => exact .lift_bind (refreshTokens_makes hread) fun _ => trivial

theorem nodePublishVolume_makes {req : PublishRequest} (ht : req.targetPath = target) :
    (nodePublishVolume plugin req).run.Makes φ := by
  refine .result_bind fun checked => ?_
  obtain ⟨id, pod, token⟩ := checked
  refine .lift_bind (.of_op (hread (.storeGet _) rfl)) fun held => ?_
  cases held with
  | none => exact publishNew_makes hread hown ht
  | some existing =>
    show Prog.Makes (S := NodeSig) φ (ExceptT.run (if existing.spiffeId = id then _ else _))
    split
    · exact .map (.of_op (hown _ (congrArg some ht)))
    · trivial

theorem nodeUnpublishVolume_makes {req : UnpublishRequest} (ht : req.targetPath = target) :
    (nodeUnpublishVolume plugin req).run.Makes φ := by
  refine .result_bind fun _ => ?_
  refine .lift_bind (.of_op (hown _ (congrArg some ht))) fun _ => ?_
  refine .lift_bind (unexposeVolume_makes hread) fun _ => ?_
  refine .lift_bind (.of_op (hown _ (congrArg some ht))) fun r => ?_
  cases r <;> trivial

end

/-! What each task can call at all. -/

/-- The calls of each task: the kubelet's are about their own target, a renewal publishes what it has
    issued, a refresh only another CA, and nobody else publishes. -/
def Task.calls : Task → NodeOp → Prop
  | .publish req, op => op.target = none ∨ op.target = some req.targetPath
  | .unpublish req, op => op.target = none ∨ op.target = some req.targetPath
  | .renew, op => (∀ target, op ≠ .unpublish target) ∧
      ∀ target identity modes, op ≠ .publishIdentity target identity modes .caOnly
  | .adopt, op => ∀ target identity modes origin, op ≠ .publishIdentity target identity modes origin
  | .reap, op => ∀ target identity modes origin, op ≠ .publishIdentity target identity modes origin
  | .refreshCa, op => op.target = none ∨
      ∃ target identity modes, op = .publishIdentity target identity modes .caOnly
  | .policyDaemon target, op => op = .publishPolicy target
  | _, op => op.target = none

theorem body_makes (task : Task) : (body plugin task).Makes task.calls := by
  have hnone : ∀ op : NodeOp, op.target = none →
      ∀ target identity modes origin, op ≠ .publishIdentity target identity modes origin := by
    rintro op hop target identity modes origin rfl
    cases hop
  cases task with
  | publish req => exact .map (nodePublishVolume_makes (fun _ => .inl) (fun _ => .inr) rfl)
  | unpublish req => exact .map (nodeUnpublishVolume_makes (fun _ => .inl) (fun _ => .inr) rfl)
  | renew =>
    refine .map (renewDue_makes ?_ ?_ ?_ ?_ ?_)
    · refine fun op hop => ⟨?_, fun target identity modes => hnone op hop target identity modes _⟩
      rintro target rfl
      cases hop
    all_goals simp [Task.calls]
  | adopt =>
    refine .map (.bind (.of_op (hnone _ rfl)) fun now => .bind (.of_op (hnone .discover rfl)) ?_)
    exact fun found => adoptEach_makes (fun op hop _ => hnone op hop) (by simp [Task.calls])
  | reap =>
    refine .map (.bind (.of_op (hnone .storeAll rfl)) fun entries => ?_)
    induction entries with
    | nil => trivial
    | cons entry rest ih =>
      refine .bind (reapOne_makes hnone ?_ ?_) fun _ => .bind ih fun _ => trivial
      all_goals simp [Task.calls]
  | refreshCa =>
    exact .map (refreshCa_makes (fun _ => .inl) fun target identity modes =>
      .inr ⟨target, identity, modes, rfl⟩)
  | primeCa =>
    refine .map (.run_bind (.of_op rfl) fun fetched => .result_bind fun _ => ?_)
    exact .lift_bind (.of_op rfl) fun _ => trivial
  | checkIn target => exact .map (refreshTokens_makes fun _ h => h)
  | refreshTokens =>
    refine .map (.bind (.of_op rfl) fun entries => ?_)
    induction entries with
    | nil => trivial
    | cons entry rest ih =>
      refine .bind (.of_op rfl) fun there => ?_
      cases there with
      | false => exact ih
      | true =>
        refine .bind (refreshTokens_makes fun _ h => h) fun r => ?_
        cases r with
        | ok changed => exact .bind ih fun _ => trivial
        | error e =>
          dsimp only
          split
          · trivial
          · exact ih
  | policyDaemon target => exact .map (.of_op rfl)

end

end Svidlet.Node
