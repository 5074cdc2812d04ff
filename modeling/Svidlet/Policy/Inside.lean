import Svidlet.Policy.Directory
import Svidlet.Policy.Updates

/-!
# Names that stay inside

A bundle of the stream has passed `build`, which checks that a document's name is one ordinary component:
neither empty, nor a dot or two, nor with a slash. Joined to a directory such a name leads to a place
inside it, whatever the sender meant (`PolicyBundle.build_plain`).
-/

namespace Svidlet.Policy

open Lib Lib.FileTree

/-- An ordinary component: not empty, not a dot or two, and without a slash. -/
def PlainName (x : String) : Prop := x ≠ "" ∧ x ≠ "." ∧ x ≠ ".." ∧ '/' ∉ x.toList

instance (x : String) : Decidable (PlainName x) :=
  inferInstanceAs (Decidable (x ≠ "" ∧ x ≠ "." ∧ x ≠ ".." ∧ '/' ∉ x.toList))

theorem plainPath_joinSlash {path : Path} (hne : path ≠ []) (h : ∀ x ∈ path, PlainName x) :
    PlainPath (joinSlash path) := by
  have hsplit : splitChar '/' (joinSlash path).toList = path.map String.toList := by
    rw [joinSlash, String.toList_intercalate]
    refine splitChar_intercalate (by simpa using hne) ?_
    intro piece hpiece
    obtain ⟨x, hx, rfl⟩ := List.mem_map.mp hpiece
    exact (h x hx).2.2.2
  intro piece hpiece
  rw [hsplit] at hpiece
  obtain ⟨x, hx, rfl⟩ := List.mem_map.mp hpiece
  obtain ⟨hempty, hdot, hdots, -⟩ := h x hx
  refine ⟨?_, ?_, ?_⟩
  · exact fun he => hempty (String.toList_inj.mp (by simpa using he))
  · exact fun he => hdot (String.toList_inj.mp (by simpa using he))
  · exact fun he => hdots (String.toList_inj.mp (by simpa using he))

theorem checkDocumentName_plain {name : String} (h : checkDocumentName name = .ok ()) :
    PlainPath name := by
  unfold checkDocumentName at h
  split at h
  · cases h
  rename_i hempty
  split at h
  · cases h
  rename_i hdots
  split at h
  · cases h
  rename_i hsep
  simp only [not_or] at hdots hsep
  have hname : PlainName name := ⟨hempty, hdots.1, hdots.2, hsep.1⟩
  have hjoin : joinSlash [name] = name := by simp [joinSlash]
  rw [← hjoin]
  refine plainPath_joinSlash (by simp) ?_
  intro x hx
  rw [List.mem_singleton.mp hx]
  exact hname

/-- **What the stream brings is named by plain paths.** -/
theorem PolicyBundle.build_plain {bundle : PolicyBundle} {revision : String}
    {documents : List PolicyDocument} (h : PolicyBundle.build revision documents = .ok bundle) :
    ∀ doc ∈ bundle.documents, PlainPath doc.name := by
  obtain ⟨hcheck, -, -, hperm⟩ := PolicyBundle.build_ok h
  exact fun doc hdoc => checkDocumentName_plain (hcheck doc (hperm.mem_iff.mp hdoc))

end Svidlet.Policy
