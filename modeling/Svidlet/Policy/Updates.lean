import Svidlet.Lib.Session
import Svidlet.Policy.Manager

/-!
# One update of the stream

An update comes from a backend that may be broken or hostile. How far it reaches:

> what the manager makes of an update depends on the set of its documents, not on their order, and
> concerns the identity the update names and no other.

The first half is about `build`. What it returns is the documents in the order of their names, provided
that every name is a file's and none comes twice; and there is only one such list.
-/

namespace Svidlet.Policy

open Lib

/-! ## 1. Building a bundle -/

instance : IsTrans PolicyDocument fun a b => a.name ≤ b.name := ⟨fun _ _ _ => String.le_trans⟩

instance : Std.Total fun a b : PolicyDocument => a.name ≤ b.name := ⟨fun _ _ => String.le_total _ _⟩

namespace PolicyBundle

/-- Documents in order, no two of one name. -/
structure Ordered (docs : List PolicyDocument) : Prop where
  sorted : docs.Pairwise fun a b => a.name ≤ b.name
  nodup : (docs.map PolicyDocument.name).Nodup

/-- There is one way to put documents in order. -/
theorem Ordered.unique {docs docs' : List PolicyDocument} (h : Ordered docs) (h' : Ordered docs')
    (hperm : docs.Perm docs') : docs = docs' := by
  refine hperm.eq_of_pairwise ?_ h.sorted h'.sorted
  intro a b ha hb hab hba
  exact List.inj_on_of_nodup_map h.nodup ha (hperm.mem_iff.mpr hb) (String.le_antisymm hab hba)

theorem collect_ok {docs byName out : List PolicyDocument} (h : collect docs byName = .ok out)
    (hby : Ordered byName) : (∀ doc ∈ docs, checkDocumentName doc.name = .ok ()) ∧ Ordered out ∧
      out.Perm (docs ++ byName) := by
  induction docs generalizing byName with
  | nil =>
    cases h
    exact ⟨by simp, hby, .refl _⟩
  | cons doc docs ih =>
    obtain ⟨_, hcheck, h⟩ := bind_ok.mp h
    split at h
    · cases h
    rename_i hnew
    have hinsert := byName.perm_orderedInsert (fun a b => a.name ≤ b.name) doc
    have hordered : Ordered (byName.orderedInsert (fun a b => a.name ≤ b.name) doc) := by
      refine ⟨hby.sorted.orderedInsert doc _, (hinsert.map _).nodup_iff.mpr ?_⟩
      simpa [hby.nodup] using hnew
    obtain ⟨hchecks, hout, hperm⟩ := ih h hordered
    refine ⟨?_, hout, ?_⟩
    · simpa [hcheck] using hchecks
    · exact hperm.trans ((hinsert.append_left docs).trans List.perm_middle)

theorem collect_of {docs byName : List PolicyDocument}
    (hcheck : ∀ doc ∈ docs, checkDocumentName doc.name = .ok ())
    (hnodup : ((docs ++ byName).map PolicyDocument.name).Nodup) : ∃ out, collect docs byName = .ok out := by
  induction docs generalizing byName with
  | nil => exact ⟨byName, rfl⟩
  | cons doc docs ih =>
    have hinsert := byName.perm_orderedInsert (fun a b => a.name ≤ b.name) doc
    have hnew : byName.any (·.name == doc.name) = false := by
      simp only [List.cons_append, List.map_cons, List.nodup_cons, List.map_append] at hnodup
      simpa using fun x hx he => hnodup.1 (List.mem_append_right _ (List.mem_map.mpr ⟨x, hx, he⟩))
    have hrest : ((docs ++ byName.orderedInsert (fun a b => a.name ≤ b.name) doc).map
        PolicyDocument.name).Nodup :=
      (((hinsert.append_left docs).trans List.perm_middle).map _).nodup_iff.mpr hnodup
    obtain ⟨out, hout⟩ := ih (fun x hx => hcheck x (.tail _ hx)) hrest
    exact ⟨out, bind_ok.mpr ⟨(), hcheck doc (.head _), by rw [hnew]; exact hout⟩⟩

variable {revision : String} {docs docs' : List PolicyDocument} {bundle : PolicyBundle}

theorem build_ok (h : build revision docs = .ok bundle) :
    (∀ doc ∈ docs, checkDocumentName doc.name = .ok ()) ∧ bundle.revision = revision ∧
      Ordered bundle.documents ∧ bundle.documents.Perm docs := by
  obtain ⟨out, hcollect, h⟩ := bind_ok.mp h
  obtain ⟨hcheck, hordered, hperm⟩ := collect_ok hcollect ⟨.nil, .nil⟩
  cases h
  exact ⟨hcheck, rfl, hordered, by simpa using hperm⟩

/-- **The order of the documents does not matter.** -/
theorem build_perm (hperm : docs'.Perm docs) (h : build revision docs = .ok bundle) :
    build revision docs' = .ok bundle := by
  obtain ⟨hcheck, hrevision, hordered, hdocs⟩ := build_ok h
  have hnodup : ((docs' ++ []).map PolicyDocument.name).Nodup := by
    rw [List.append_nil, ← ((hdocs.trans hperm.symm).map _).nodup_iff]
    exact hordered.nodup
  obtain ⟨out, hout⟩ := collect_of (fun doc hdoc => hcheck doc (hperm.mem_iff.mp hdoc)) hnodup
  have hbuild : build revision docs' = .ok ⟨revision, out⟩ := bind_ok.mpr ⟨out, hout, rfl⟩
  obtain ⟨-, -, hordered', hdocs'⟩ := build_ok hbuild
  obtain rfl := hordered'.unique hordered (hdocs'.trans (hperm.trans hdocs.symm))
  rw [hbuild, ← hrevision]

end PolicyBundle

/-! ## 2. Handling an update -/

/-- What one update makes of the state, with nothing in between. -/
def handle (update : PolicyUpdate) (s : StreamState) : StreamState :=
  ((Grpc.apply update).play ManagerOp.answer s).2.2

/-- The bundle of an update that is not refused. -/
def accepted (update : PolicyUpdate) : Option PolicyBundle :=
  if update.spiffeId = "" then none
  else
    match PolicyBundle.build update.revision update.documents with
    | .ok bundle => if bundle.isEmpty && !update.empty then none else some bundle
    | .error _ => none

/-- The manager once a bundle has been stored. -/
def PolicyManager.holding (m : PolicyManager) (id : String) (bundle : PolicyBundle) : PolicyManager :=
  { m with
    bundles := Function.update m.bundles id (some bundle)
    dirty := insertId id m.dirty
    bundleChanged := m.bundleChanged + 1 }

variable (update : PolicyUpdate) (s : StreamState)

theorem handle_eq : handle update s = match accepted update with
    | none => s
    | some bundle =>
      if update.spiffeId ∈ s.manager.wanted ∧ s.manager.bundles update.spiffeId ≠ some bundle then
        s.withManager fun m => m.holding update.spiffeId bundle
      else s := by
  unfold handle Grpc.apply accepted
  by_cases hid : update.spiffeId = ""
  · rw [if_pos hid, if_pos hid]
    rfl
  rw [if_neg hid, if_neg hid]
  cases PolicyBundle.build update.revision update.documents with
  | error reason => rfl
  | ok bundle =>
    dsimp only
    by_cases hempty : (bundle.isEmpty && !update.empty) = true
    · rw [if_pos hempty, if_pos hempty]
      rfl
    rw [if_neg hempty, if_neg hempty]
    show (Prog.play (S := ManagerSig) ManagerOp.answer
      (.call (.insertBundle update.spiffeId bundle) _) s).2.2 = if _ then _ else s
    by_cases hnew : update.spiffeId ∈ s.manager.wanted ∧
        s.manager.bundles update.spiffeId ≠ some bundle
    · rw [if_pos hnew, Prog.play, ManagerOp.answer, if_pos hnew]
      rfl
    · rw [if_neg hnew, Prog.play, ManagerOp.answer, if_neg hnew]
      rfl

variable {update}

theorem accepted_ok {bundle : PolicyBundle} (h : accepted update = some bundle) :
    PolicyBundle.build update.revision update.documents = .ok bundle ∧
      (update.documents = [] → update.empty = true) := by
  unfold accepted at h
  split at h
  · cases h
  split at h
  · rename_i b hbuild
    split at h
    · cases h
    rename_i hempty
    cases h
    refine ⟨hbuild, fun hnone => ?_⟩
    have hperm := (PolicyBundle.build_ok hbuild).2.2.2
    rw [hnone, List.perm_nil] at hperm
    simpa [PolicyBundle.isEmpty, hperm] using hempty
  · cases h

theorem accepted_perm {documents : List PolicyDocument} (hperm : documents.Perm update.documents) :
    accepted { update with documents } = accepted update := by
  unfold accepted
  cases hbuild : PolicyBundle.build update.revision update.documents with
  | ok bundle => rw [PolicyBundle.build_perm hperm hbuild]
  | error e =>
    cases hbuild' : PolicyBundle.build update.revision documents with
    | ok bundle => cases hbuild.symm.trans (PolicyBundle.build_perm hperm.symm hbuild')
    | error e' => rfl

variable (update)

/-- One update, for every state: it touches what is held for its own identity; it touches nothing if
    that identity is not wanted, a name is not a file's or comes twice, or there are no documents and
    it does not say so; and the order of its documents makes no difference. -/
theorem update_touches_only_its_bundle :
    (handle update s = s ∨ ∃ bundle, handle update s =
      s.withManager fun m => m.holding update.spiffeId bundle) ∧
    ((update.spiffeId ∉ s.manager.wanted ∨
      (∃ doc ∈ update.documents, checkDocumentName doc.name ≠ .ok ()) ∨
      ¬ (update.documents.map PolicyDocument.name).Nodup ∨
      update.documents = [] ∧ update.empty = false) → handle update s = s) ∧
    ∀ documents, documents.Perm update.documents →
      handle { update with documents } s = handle update s := by
  refine ⟨?_, ?_, ?_⟩
  · rw [handle_eq]
    split
    · exact .inl rfl
    split
    · exact .inr ⟨_, rfl⟩
    · exact .inl rfl
  · intro h
    rw [handle_eq]
    split
    · rfl
    rename_i bundle haccepted
    obtain ⟨hbuild, hmarked⟩ := accepted_ok haccepted
    obtain ⟨hcheck, -, hordered, hperm⟩ := PolicyBundle.build_ok hbuild
    rcases h with hunwanted | ⟨doc, hdoc, hbad⟩ | htwice | ⟨hnone, hempty⟩
    · exact if_neg fun hboth => hunwanted hboth.1
    · exact absurd (hcheck doc hdoc) hbad
    · exact absurd ((hperm.map _).nodup_iff.mp hordered.nodup) htwice
    · cases hempty.symm.trans (hmarked hnone)
  · intro documents hperm
    rw [handle_eq, handle_eq, accepted_perm hperm]

end Svidlet.Policy
