import Svidlet.Issue.FirstReading

/-!
# There and back

`attributes_of` undoes `render`, if a slash stands between any two placeholders. A value has no
slash, so a group that ended early would have to find the literal behind it at the wrong place:

    value  /ns/  value        the literal, slash and all
    val    /ns/               and a copy of it that begins inside the value

and the slash of the copy would lie in the value. That is `not_earlier_of_separators` of
`Svidlet.Lib.Holes`; what is added here is the way from a condition on the parts of a template to
one on the text between its placeholders, and the answer in terms of attributes.
-/

namespace Svidlet.Issue

open Lib

/-! ## 1. Between two placeholders -/

/-- A literal with a slash between any two consecutive placeholders. -/
def SlashBetween (parts : List Part) : Prop :=
  ∀ before f between g after, parts = before ++ .field f :: (between ++ .field g :: after) →
    fieldsOf between = [] → ∃ text, .literal text ∈ between ∧ '/' ∈ text.toList

variable {parts : List Part}

/-- Up to its first placeholder a template is literal, and that is its lead. -/
theorem exists_first_field (h : gapsOf parts ≠ []) :
    ∃ between g after, parts = between ++ .field g :: after ∧ fieldsOf between = [] ∧
      ∀ text, .literal text ∈ between → ∀ c ∈ text.toList, c ∈ leadOf parts := by
  induction parts with
  | nil => exact absurd rfl h
  | cons part rest ih =>
    cases part with
    | field g => exact ⟨[], g, rest, rfl, rfl, nofun⟩
    | literal text =>
      obtain ⟨between, g, after, rfl, hnone, hlead⟩ := ih h
      refine ⟨.literal text :: between, g, after, rfl, hnone, ?_⟩
      intro text' hmem c hc
      rcases List.mem_cons.mp hmem with heq | hmem
      · obtain rfl := Part.literal.inj heq
        exact List.mem_append_left _ hc
      · exact List.mem_append_right _ (hlead text' hmem c hc)

theorem SlashBetween.tail {part : Part} (h : SlashBetween (part :: parts)) :
    SlashBetween parts := by
  intro before f between g after heq
  exact h (part :: before) f between g after (by rw [heq]; rfl)

theorem SlashBetween.separated (h : SlashBetween parts) : Separated parts := by
  induction parts with
  | nil => exact nofun
  | cons part rest ih =>
    cases part with
    | literal text => exact ih h.tail
    | field f =>
      intro gap hgap
      by_cases hlast : gapsOf rest = []
      · -- nothing is between the last placeholder and the next
        rw [gapsOf, hlast] at hgap
        cases hgap
      rw [gapsOf, List.dropLast_cons_of_ne_nil hlast] at hgap
      rcases List.mem_cons.mp hgap with rfl | hgap
      · obtain ⟨between, g, after, hrest, hnone, hlead⟩ := exists_first_field hlast
        obtain ⟨text, hmem, hslash⟩ := h [] f between g after (by rw [hrest]; rfl) hnone
        exact ⟨'/', hlead text hmem '/' hslash, by decide⟩
      · exact ih h.tail gap hgap

/-! ## 2. The round trip -/

section

variable {E : RegexEngine}

/-- **There and back.** An ID that was rendered from attributes by an accepted template with slashes
    between its placeholders is taken apart into these attributes, and nothing else. -/
theorem attributes_survive_rendering (hE : Matcher.LeftmostLazy E) {raw : String} {t : IdTemplate E}
    (ht : IdTemplate.compile raw = .ok t) (hslash : SlashBetween t.parts)
    {attrs : WorkloadAttributes} {id : SpiffeId} (h : t.render attrs = .ok id) :
    ∃ back, t.attributesOf id.asStr = some back ∧
      (∀ f ∈ t.fields, back.get f = attrs.get f) ∧ ∀ f, f ∉ t.fields → back.get f = "" := by
  have hcompiled := IdTemplate.compiled ht
  obtain ⟨back, hback, hread⟩ := read_back hE.takesFirst hcompiled h
  have hright := (hread.right_iff t.fields).mp
    (not_misread_of_separated h hslash.separated t.fields)
  rw [hcompiled.fields_eq] at hright ⊢
  exact ⟨back, hback, fun f hf => hright f hf hf, hread.absent⟩

end

/-! Literals that look like the text around them: a dot and a slash, and a segment that is also a
value. -/

open Matcher (templateEngine)

theorem likeness_compiles : (IdTemplate.compile (E := templateEngine)
    "spiffe://\x7bcluster\x7d.ns/ns.\x7bnamespace\x7d").toOption.isSome = true := by decide

def likenessTemplate : IdTemplate templateEngine :=
  (IdTemplate.compile "spiffe://\x7bcluster\x7d.ns/ns.\x7bnamespace\x7d").toOption.get
    likeness_compiles

def likenessId : SpiffeId := ⟨"spiffe://ns.ns.ns/ns.ns.ns", by decide⟩

theorem likeness_slashBetween : SlashBetween likenessTemplate.parts := by
  have hparts : likenessTemplate.parts = [.literal "spiffe://", .field .cluster,
      .literal ".ns/ns.", .field .ns] := by decide
  rw [hparts]
  intro before f between g after heq hnone
  rcases before with _ | ⟨_, _ | ⟨_, _ | ⟨_, before⟩⟩⟩
  · simp at heq
  · rcases between with _ | ⟨part, between⟩
    · simp at heq
    · simp only [List.cons_append, List.nil_append, List.cons.injEq] at heq
      exact ⟨".ns/ns.", by simp [heq.2.2.1], by decide⟩
  · simp at heq
  · have hlen := congrArg List.length heq
    simp at hlen
    omega

theorem attributes_survive_rendering_likeness :
    ∃ back, likenessTemplate.attributesOf "spiffe://ns.ns.ns/ns.ns.ns" = some back ∧
      back.get .cluster = "ns.ns" ∧ back.get .ns = "ns.ns" ∧ back.get .podName = "" := by
  have hrender : likenessTemplate.render { cluster := "ns.ns", ns := "ns.ns", podName := "p" }
      = .ok likenessId := by decide
  have hfields : likenessTemplate.fields = [.cluster, .ns] := by decide
  obtain ⟨back, hback, hin, hout⟩ := attributes_survive_rendering
    Matcher.templateEngine_leftmostLazy (ok_of_isSome likeness_compiles) likeness_slashBetween
    hrender
  rw [show (IdTemplate.compile "spiffe://\x7bcluster\x7d.ns/ns.\x7bnamespace\x7d").toOption.get
    likeness_compiles = likenessTemplate from rfl, hfields] at hin hout
  exact ⟨back, hback, hin .cluster (by decide), hin .ns (by decide), hout .podName (by decide)⟩

end Svidlet.Issue
