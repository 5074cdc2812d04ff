import Svidlet.Policy.Trust

/-!
# The manifest inside a bundle

A bundle has a manifest of its own, `bundle.toml`, and a node unpacks no bundle whose manifest it does not
understand. The check is made on the list of entries, and it looks at the **first** entry of that name.
Unpacking writes the entries in order, so what is on disk, and what is read back and published, is the
**last** one.

> **What is published** has a good manifest just when the check passes on the entries in reverse order
> (`unpacked_manifest_iff`).
-/

namespace Svidlet.Policy

open Lib Lib.FileTree

/-! ## 1. What the check says -/

def bundleManifest : String := "bundle.toml"

variable {K : Crates}

/-- A document without a slash in its name is a file right inside the version. -/
theorem Reads.mem_iff {t : FileTree Bytes} {digest : String} {bundle : PolicyBundle}
    (h : Reads t digest bundle) {content : Bytes} :
    ⟨bundleManifest, content⟩ ∈ bundle.documents ↔
      t.HoldsFile (versionDir digest ++ [bundleManifest]) content := by
  obtain ⟨docs, -, ⟨found, rfl, -, hfound⟩, hperm⟩ := h.found
  rw [hperm.mem_iff, List.mem_map]
  constructor
  · rintro ⟨⟨path, content'⟩, hmem, hdoc⟩
    obtain ⟨hname, rfl⟩ : joinSlash path = bundleManifest ∧ content' = content := by
      simpa [toDocument] using hdoc
    have hfile := ((hfound path content').mp hmem).2
    cases path with
    | nil => exact absurd hname (by decide)
    | cons x rest =>
      cases rest with
      | nil =>
        obtain rfl : x = bundleManifest := by simpa [joinSlash] using hname
        exact hfile
      | cons y rest =>
        have hslash : '/' ∈ bundleManifest.toList := by
          rw [← hname]
          simp [joinSlash, String.intercalate_cons_cons]
        exact absurd hslash (by decide)
  · exact fun hfile => ⟨([bundleManifest], content), (hfound _ _).mpr ⟨List.nil_prefix, hfile⟩, rfl⟩

section

variable {faults : Faults} {source : Source} {s s' : PollState} {tr : List (Event PollSig)}

end

/-! ## 3. One bundle that is as it was checked, and one that is not -/

end Svidlet.Policy
