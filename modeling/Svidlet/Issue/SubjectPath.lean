import Svidlet.Issue.Splitting
import Svidlet.Issue.Vault
import Svidlet.Lib.Replace

/-!
# Two ways to write one identity

The ID in a workload's certificate is rendered from a template. The subject that Vault puts into
its tokens comes from the catalog: `subject_path` takes the path template and replaces three
placeholders, one after the other, by plain text replacement. "Must agree with the broker's SPIFFE ID
template", says the source; nothing compares the two.

They do agree, for a path template in which each of the three placeholders stands once and no other
brace does. Both sides are followed on the same list of parts:

> printed    —replace→   printed, with a literal for a field   —replace→ …   the text of the ID
> printed    —split→     parts                                 —render→      the text of the ID

A name has no brace, so what was written for one placeholder is never taken for the next.
-/

namespace Svidlet.Issue

open Lib

/-- The full SPIFFE ID for an identity of the catalog. -/
def Catalog.spiffeId (c : Catalog) (cluster ns serviceAccount : String) : String :=
  "spiffe://" ++ c.trustDomain ++ c.subjectPath cluster ns serviceAccount

/-! ## 1. What a template renders -/

theorem spelled_pushLiteral (attrs : WorkloadAttributes) (parts : List Part) (text : List Char) :
    (pushLiteral parts text).flatMap (spelled attrs) = parts.flatMap (spelled attrs) ++ text := by
  cases text with
  | nil => simp [pushLiteral]
  | cons c text => simp [pushLiteral, spelled]

/-- Splitting what was printed gives parts of the same text, however the literals were cut. -/
theorem splitTemplate_spelled {raw : String} {printed : List Part} (attrs : WorkloadAttributes)
    (text : List Char) (parts : List Part) {out : List Part}
    (h : splitTemplate raw (printed.flatMap printPart) none text parts = .ok out) :
    out.flatMap (spelled attrs) =
      parts.flatMap (spelled attrs) ++ text ++ printed.flatMap (spelled attrs) := by
  induction printed generalizing text parts with
  | nil =>
    cases h
    simp [spelled_pushLiteral]
  | cons part printed ih =>
    rw [List.flatMap_cons] at h
    cases part with
    | literal t =>
      rw [printPart, splitTemplate_double] at h
      rw [ih _ _ h]
      simp [spelled]
    | field f =>
      rw [splitTemplate_field] at h
      rw [ih _ _ h]
      simp [spelled_pushLiteral, spelled]

section

variable {E : RegexEngine}

/-- An ID of a printed template is the text of its parts. -/
theorem rendered_spelled {printed : List Part} {t : IdTemplate E} {attrs : WorkloadAttributes}
    {id : SpiffeId} (ht : IdTemplate.compile (printParts printed) = .ok t)
    (h : t.render attrs = .ok id) : id.asStr.toList = printed.flatMap (spelled attrs) := by
  obtain ⟨s, hs, hid⟩ := bind_ok.mp h
  have hsplit := (IdTemplate.compile_ok ht).1
  unfold split printParts at hsplit
  rw [String.toList_ofList] at hsplit
  rw [SpiffeId.parse_asStr hid, renderParts_spelled hs, splitTemplate_spelled attrs [] [] hsplit]
  rfl

end

/-! ## 2. What the catalog writes -/

/-- No literal has a brace. -/
def Braceless (parts : List Part) : Prop :=
  ∀ text, .literal text ∈ parts → '{' ∉ text.toList ∧ '}' ∉ text.toList

variable {parts : List Part}

theorem Braceless.tail {part : Part} (h : Braceless (part :: parts)) :
    Braceless parts := fun text hmem => h text (.tail _ hmem)

/-- A path template with each of the three placeholders once and no other brace. -/
def OnceEach (path : String) : Prop := ∃ parts, path = printParts parts ∧ Braceless parts ∧
    (fieldsOf parts).Perm [.cluster, .ns, .serviceAccount]

/-- A field replaced by a text. -/
def replaceField (f : Field) (new : String) : Part → Part
  | .literal text => .literal text
  | .field g => if g = f then .literal new else .field g

theorem flatMap_double {text : List Char} (hopen : '{' ∉ text) (hclose : '}' ∉ text) :
    text.flatMap double = text := by
  induction text with
  | nil => rfl
  | cons c text ih =>
    simp only [List.mem_cons, not_or] at hopen hclose
    have hone : double c = [c] := if_neg (not_or.mpr ⟨Ne.symm hopen.1, Ne.symm hclose.1⟩)
    rw [List.flatMap_cons, ih hopen.2 hclose.2, hone]
    rfl

variable {f : Field}

theorem asStr_injective {g : Field} (h : f.asStr.toList = g.asStr.toList) : f = g := by
  have hname := congrArg fieldNamed h
  rw [fieldNamed_asStr, fieldNamed_asStr] at hname
  exact Option.some.inj hname

theorem openBrace_not_mem_asStr (f : Field) : '{' ∉ f.asStr.toList := by
  cases f <;> decide

/-- The placeholder of another field is copied. -/
theorem replaceChars_field {g : Field} (hne : g ≠ f) (new rest : List Char) :
    replaceChars (printPart (.field f)) new 0 (printPart (.field g) ++ rest) =
      printPart (.field g) ++ replaceChars (printPart (.field f)) new 0 rest := by
  have hother : ¬ printPart (.field f) <+: '{' :: (g.asStr.toList ++ ['}'] ++ rest) := by
    intro hprefix
    obtain ⟨more, hmore⟩ := (List.cons_prefix_cons.mp hprefix).2
    simp only [List.append_assoc, List.singleton_append] at hmore
    -- both names go up to the first `}`
    obtain ⟨hname, -⟩ := append_inj_of_not_mem (placeholderName_asStr f).closed
      (placeholderName_asStr g).closed hmore
    exact hne (asStr_injective hname).symm
  have hrest : '{' ∉ g.asStr.toList ++ ['}'] := by
    simp [openBrace_not_mem_asStr g]
  show replaceChars (printPart (.field f)) new 0 ('{' :: (g.asStr.toList ++ ['}'] ++ rest)) = _
  rw [replaceChars_other hother, printPart, replaceChars_append hrest]
  rfl

variable {new : String}

/-- Replacing a placeholder in what was printed is replacing the field. -/
theorem replaceChars_printed (f : Field) (hopen : '{' ∉ new.toList) (hclose : '}' ∉ new.toList)
    (h : Braceless parts) :
    replaceChars (printPart (.field f)) new.toList 0 (parts.flatMap printPart) =
      (parts.map (replaceField f new)).flatMap printPart := by
  induction parts with
  | nil => rfl
  | cons part parts ih =>
    rw [List.flatMap_cons, List.map_cons, List.flatMap_cons, ← ih h.tail]
    cases part with
    | literal text =>
      obtain ⟨htext, htext'⟩ := h text (.head _)
      show replaceChars (printPart (.field f)) _ 0 (text.toList.flatMap double ++ _)
        = text.toList.flatMap double ++ _
      rw [flatMap_double htext htext']
      exact replaceChars_append htext _
    | field g =>
      by_cases hg : g = f
      · subst hg
        have hnew : printPart (replaceField g new (.field g)) = new.toList := by
          rw [replaceField, if_pos rfl, printPart, flatMap_double hopen hclose]
        rw [hnew]
        exact replaceChars_part _ _
      · have hkept : replaceField f new (.field g) = .field g := if_neg hg
        rw [hkept]
        exact replaceChars_field hg _ _

theorem Braceless.replaceField (hopen : '{' ∉ new.toList) (hclose : '}' ∉ new.toList)
    (h : Braceless parts) :
    Braceless (parts.map (replaceField f new)) := by
  intro text hmem
  obtain ⟨part, hpart, heq⟩ := List.mem_map.mp hmem
  cases part with
  | literal t =>
    cases heq
    exact h _ hpart
  | field g =>
    by_cases hg : g = f
    · rw [Issue.replaceField, if_pos hg] at heq
      cases heq
      exact ⟨hopen, hclose⟩
    · rw [Issue.replaceField, if_neg hg] at heq
      cases heq

theorem replaceText_printed (f : Field) (hopen : '{' ∉ new.toList) (hclose : '}' ∉ new.toList)
    (h : Braceless parts) :
    replaceText (printParts parts) (Field.braced f.asStr) new =
      printParts (parts.map (replaceField f new)) := by
  have hpart : (Field.braced f.asStr).toList = printPart (.field f) := by
    simp [Field.braced, printPart]
  unfold replaceText printParts
  rw [hpart, String.toList_ofList, replaceChars_printed f hopen hclose h]

/-! ## 3. The two agree -/

theorem braces_not_mem_of_isName {s : String} (h : isName s = true) :
    '{' ∉ s.toList ∧ '}' ∉ s.toList :=
  ⟨not_mem_of_isName h (by decide), not_mem_of_isName h (by decide)⟩

/-- A field, once it was replaced by what `spelled` writes for it. -/
def replaced (attrs : WorkloadAttributes) (part : Part) : Part :=
  replaceField .serviceAccount attrs.serviceAccount
    (replaceField .ns attrs.ns (replaceField .cluster attrs.cluster part))

/-- With the three names put in, what is printed is what is spelled. -/
theorem printed_replaced {attrs : WorkloadAttributes} (h : Braceless parts)
    (hfields : ∀ f ∈ fieldsOf parts, f ∈ [Field.cluster, .ns, .serviceAccount])
    (hnames : ∀ f ∈ [Field.cluster, .ns, .serviceAccount],
      '{' ∉ (attrs.get f).toList ∧ '}' ∉ (attrs.get f).toList) :
    (parts.map (replaced attrs)).flatMap printPart = parts.flatMap (spelled attrs) := by
  induction parts with
  | nil => rfl
  | cons part parts ih =>
    have hone : printPart (replaced attrs part) = spelled attrs part := by
      cases part with
      | literal text =>
        obtain ⟨hopen, hclose⟩ := h text (.head _)
        exact flatMap_double hopen hclose
      | field f =>
        have hf := hfields f (by simp [fieldsOf])
        have hwritten : replaced attrs (.field f) = .literal (attrs.get f) := by
          simp only [List.mem_cons, List.not_mem_nil, or_false] at hf
          obtain rfl | rfl | rfl := hf
          · rfl
          · rfl
          · rfl
        obtain ⟨hopen, hclose⟩ := hnames f hf
        rw [hwritten]
        exact flatMap_double hopen hclose
    have hrest : ∀ f ∈ fieldsOf parts, f ∈ [Field.cluster, .ns, .serviceAccount] := by
      intro f hf
      apply hfields
      cases part <;> simp [fieldsOf, hf]
    rw [List.map_cons, List.flatMap_cons, List.flatMap_cons, hone, ih h.tail hrest]

theorem subjectPath_spelled {c : Catalog} (attrs : WorkloadAttributes)
    (hpath : c.pathTemplate = printParts parts) (h : Braceless parts)
    (hfields : (fieldsOf parts).Perm [.cluster, .ns, .serviceAccount])
    (hcluster : isName attrs.cluster = true) (hns : isName attrs.ns = true)
    (hsa : isName attrs.serviceAccount = true) :
    (c.subjectPath attrs.cluster attrs.ns attrs.serviceAccount).toList =
      parts.flatMap (spelled attrs) := by
  have bc := braces_not_mem_of_isName hcluster
  have bn := braces_not_mem_of_isName hns
  have bs := braces_not_mem_of_isName hsa
  have h1 : Braceless (parts.map (replaceField .cluster attrs.cluster)) := h.replaceField bc.1 bc.2
  have h2 : Braceless ((parts.map (replaceField .cluster attrs.cluster)).map
      (replaceField .ns attrs.ns)) := h1.replaceField bn.1 bn.2
  have hprinted : c.subjectPath attrs.cluster attrs.ns attrs.serviceAccount =
      printParts (parts.map (replaced attrs)) := by
    unfold Catalog.subjectPath
    rw [hpath]
    calc replaceText (replaceText (replaceText (printParts parts) (Field.braced Field.cluster.asStr)
          attrs.cluster) (Field.braced Field.ns.asStr) attrs.ns)
          (Field.braced Field.serviceAccount.asStr) attrs.serviceAccount
      _ = printParts (((parts.map (replaceField .cluster attrs.cluster)).map
            (replaceField .ns attrs.ns)).map
            (replaceField .serviceAccount attrs.serviceAccount)) := by
        rw [replaceText_printed .cluster bc.1 bc.2 h, replaceText_printed .ns bn.1 bn.2 h1,
          replaceText_printed .serviceAccount bs.1 bs.2 h2]
      _ = printParts (parts.map (replaced attrs)) := by
        rw [List.map_map, List.map_map]
        rfl
  rw [hprinted, printParts, String.toList_ofList]
  apply printed_replaced h
  · exact fun f hf => hfields.mem_iff.mp hf
  intro f hf
  simp only [List.mem_cons, List.not_mem_nil, or_false] at hf
  obtain rfl | rfl | rfl := hf
  · exact bc
  · exact bn
  · exact bs

section

variable {E : RegexEngine}

/-- **The subject that Vault mints is the ID in the certificate.** -/
theorem rendered_id_is_subject (c : ValidCatalog) (hpath : OnceEach c.catalog.pathTemplate)
    {cluster ns serviceAccount : String} (hcluster : isName cluster = true) (hns : isName ns = true)
    (hsa : isName serviceAccount = true) {t : IdTemplate E}
    (ht : IdTemplate.compile ("spiffe://\x7btrust_domain\x7d" ++ c.catalog.pathTemplate) = .ok t)
    (attrs : WorkloadAttributes) {id : SpiffeId}
    (h : t.render { attrs with
      trustDomain := c.catalog.trustDomain, cluster, ns, serviceAccount } = .ok id) :
    id.asStr = c.catalog.spiffeId cluster ns serviceAccount := by
  obtain ⟨parts, hprinted, hbraceless, hfields⟩ := hpath
  have hwhole : "spiffe://\x7btrust_domain\x7d" ++ c.catalog.pathTemplate =
      printParts (.literal "spiffe://" :: .field .trustDomain :: parts) := by
    apply String.toList_injective
    rw [hprinted]
    simp [printParts, printPart, double, Field.asStr]
  rw [hwhole] at ht
  apply String.toList_injective
  rw [rendered_spelled ht h, Catalog.spiffeId, String.toList_append, String.toList_append,
    subjectPath_spelled { attrs with trustDomain := c.catalog.trustDomain, cluster, ns, serviceAccount }
      hprinted hbraceless hfields hcluster hns hsa]
  simp [spelled, WorkloadAttributes.get]

end

/-! ## 4. The shortest shape -/

open Matcher (templateEngine)

def shortCatalog : ValidCatalog where
  catalog :=
    { schema := 1, trustDomain := "t",
      pathTemplate := "/\x7bcluster\x7d/\x7bnamespace\x7d/\x7bservice_account\x7d",
      allowlist := false, identity := [], registries := [] }
  valid := by decide

theorem shortCatalog_onceEach : OnceEach shortCatalog.catalog.pathTemplate := by
  refine ⟨[.literal "/", .field .cluster, .literal "/", .field .ns, .literal "/",
    .field .serviceAccount], by decide, ?_, .refl _⟩
  intro text hmem
  have htext : text = "/" := by simpa using hmem
  rw [htext]
  decide

theorem short_compiles : (IdTemplate.compile (E := templateEngine)
    ("spiffe://\x7btrust_domain\x7d" ++ shortCatalog.catalog.pathTemplate)).toOption.isSome = true := by
  decide

def shortTemplate : IdTemplate templateEngine :=
  (IdTemplate.compile ("spiffe://\x7btrust_domain\x7d"
    ++ shortCatalog.catalog.pathTemplate)).toOption.get short_compiles

def shortId : SpiffeId := ⟨"spiffe://t/c/n/s", by decide⟩

theorem rendered_id_is_subject_short :
    shortTemplate.render ⟨"t", "c", "n", "s", "", "", ""⟩ = .ok shortId ∧
      shortId.asStr = shortCatalog.catalog.spiffeId "c" "n" "s" := by
  have hrender : shortTemplate.render ⟨"t", "c", "n", "s", "", "", ""⟩ = .ok shortId := by decide
  exact ⟨hrender, rendered_id_is_subject shortCatalog shortCatalog_onceEach (by decide) (by decide)
    (by decide) (ok_of_isSome short_compiles) {} hrender⟩

end Svidlet.Issue
