import Svidlet.Lib.Wildcard
import Svidlet.Policy.Rollout

/-!
# Which ring, and which bundle

What a manifest that was accepted says to a node: the ring it is in, and the digest that ring names.

**Patterns.** `glob_match` of `rollout.rs` is meant to be small enough to have no surprises in it. Its
language is the expected one: when it answers, it answers whether the text is the pattern with each star
replaced by some string (`Expands`).

**The surprise is that it may not answer.** With two stars or more it tries the rest of the pattern at every
byte offset, and an offset inside a character panics. Which texts that happens for has a short
description, since the search for a later piece stops at the first place that works:

> a text that begins as the pattern does is cut if it has a wide character after that, unless it can be
> had from the pattern with narrow characters only for every star but the last.

A text that does not match is searched to its end, so for it any wide character will do.

**Rings.** The first ring that takes a node is the node's. To widen a ring moves nodes into it and nowhere
else, **as long as the clauses that were added can be read at all** for the cluster.

**Digests.** A manifest may name a digest in either case, and the digest of what was fetched is written
in lower case and compared as text. So a ring that names its bundle in upper case can be parsed
and never be applied.
-/

namespace Svidlet.Policy

open Lib

/-! ## 1. The language -/

/-- The text is the pattern with each `*` replaced by some string. -/
def Expands (pattern text : List Char) : Prop := Fills '*' (fun _ => True) pattern text

/-- A character of one byte. -/
def Narrow (c : Char) : Prop := c.utf8Size = 1

instance (c : Char) : Decidable (Narrow c) := inferInstanceAs (Decidable (c.utf8Size = 1))

/-- The same, with narrow characters only for each `*` but the last. -/
def ExpandsNarrow (pattern text : List Char) : Prop := Fills '*' Narrow pattern text

variable {pattern text : List Char}

theorem ExpandsNarrow.expands (h : ExpandsNarrow pattern text) :
    Expands pattern text := h.mono fun _ _ => trivial

/-- The search for the pieces of the pattern passes no wide character. -/
def Uncut (pattern text : List Char) : Prop :=
  ∀ head tail, splitOnce '*' pattern = some (head, tail) → '*' ∈ tail → head <+: text →
    (∀ c ∈ text.drop head.length, Narrow c) ∨ ExpandsNarrow pattern text

/-! ## 2. The search -/

section

variable {f : List Char → Option Bool} {text : List Char}

theorem anySuffix_true (h : anySuffix f text = some true) :
    ∃ run rest, text = run ++ rest ∧ (∀ c ∈ run, Narrow c) ∧ f rest = some true := by
  induction text with
  | nil => exact ⟨[], [], rfl, by simp, h⟩
  | cons c text ih =>
    unfold anySuffix at h
    cases hf : f (c :: text) with
    | none =>
      rw [hf] at h
      cases h
    | some answer =>
      rw [hf] at h
      cases answer with
      | true => exact ⟨[], c :: text, rfl, by simp, hf⟩
      | false =>
        dsimp only at h
        split at h
        · rename_i hc
          obtain ⟨run, rest, rfl, hrun, hrest⟩ := ih h
          exact ⟨c :: run, rest, rfl, List.forall_mem_cons.mpr ⟨hc, hrun⟩, hrest⟩
        · cases h

/-- A search that fails has gone over the whole text. -/
theorem anySuffix_false (h : anySuffix f text = some false) :
    (∀ c ∈ text, Narrow c) ∧ ∀ run rest, text = run ++ rest → f rest = some false := by
  induction text with
  | nil =>
    refine ⟨by simp, ?_⟩
    intro run rest hsplit
    rw [(List.append_eq_nil_iff.mp hsplit.symm).2]
    exact h
  | cons c text ih =>
    unfold anySuffix at h
    cases hf : f (c :: text) with
    | none =>
      rw [hf] at h
      cases h
    | some answer =>
      rw [hf] at h
      cases answer with
      | true => cases h
      | false =>
        dsimp only at h
        split at h
        · rename_i hc
          obtain ⟨hnarrow, hrest⟩ := ih h
          refine ⟨List.forall_mem_cons.mpr ⟨hc, hnarrow⟩, ?_⟩
          intro run rest hsplit
          cases run with
          | nil => rwa [← (show c :: text = rest from hsplit)]
          | cons d run => exact hrest run rest (List.cons.inj hsplit).2
        · cases h

/-- A search that passes narrow characters only, and is answered at every step, ends. -/
theorem anySuffix_some {run rest : List Char} (hrun : ∀ c ∈ run, Narrow c)
    (hsteps : ∀ u v, run = u ++ v → f (v ++ rest) ≠ none) (hend : f rest = some true ∨ rest = []) :
    anySuffix f (run ++ rest) ≠ none := by
  induction run with
  | nil =>
    rcases hend with hend | rfl
    · cases rest with
      | nil =>
        rw [List.nil_append, anySuffix, hend]
        simp
      | cons c rest =>
        rw [List.nil_append, anySuffix, hend]
        simp
    · exact hsteps [] [] rfl
  | cons c run ih =>
    obtain ⟨hc, hrun⟩ := List.forall_mem_cons.mp hrun
    have hfirst : f (c :: (run ++ rest)) ≠ none := hsteps [] (c :: run) rfl
    rw [List.cons_append, anySuffix]
    cases hf : f (c :: (run ++ rest)) with
    | none => exact absurd hf hfirst
    | some answer =>
      cases answer with
      | true => simp
      | false =>
        have hc : c.utf8Size = 1 := hc
        rw [if_pos hc]
        refine ih hrun fun u v huv => hsteps (c :: u) v ?_
        rw [huv, List.cons_append]

end

/-! ## 3. The matcher -/

variable {head : List Char}

theorem splitOnce_first {c : Char} (hhead : c ∉ head) (tail : List Char) :
    splitOnce c (head ++ c :: tail) = some (head, tail) := by
  induction head with
  | nil => simp [splitOnce]
  | cons d head ih =>
    simp only [List.mem_cons, not_or] at hhead
    rw [List.cons_append, splitOnce, if_neg (Ne.symm hhead.1), ih hhead.2]
    rfl

/-- What an answer says. -/
structure Decides (pattern text : List Char) (answer : Option Bool) : Prop where
  yes : answer = some true → ExpandsNarrow pattern text
  no : answer = some false → ¬ Expands pattern text
  answers : answer ≠ none ↔ Uncut pattern text

theorem decides_of_plain (hplain : '*' ∉ pattern) :
    Decides pattern text (some (decide (pattern = text))) := by
  refine ⟨?_, ?_, ?_⟩
  · intro h
    exact (fills_plain hplain).mpr (by simpa [eq_comm] using h)
  · intro h hexp
    have htext := (fills_plain hplain).mp hexp
    simp [htext] at h
  · refine ⟨fun _ => ?_, fun _ => by simp⟩
    intro head tail hsplit
    rw [splitOnce_eq hsplit] at hplain
    simp at hplain

variable {tail : List Char}

/-- One star: the last piece is at the end. -/
theorem decides_of_last (hhead : '*' ∉ head) (htail : '*' ∉ tail) (hpre : head <+: text) :
    Decides (head ++ '*' :: tail) text (some (tail.isSuffixOf (text.drop head.length))) := by
  obtain ⟨rest, rfl⟩ := hpre
  rw [List.drop_left]
  refine ⟨?_, ?_, ?_⟩
  · intro h
    obtain ⟨run, hrun⟩ := List.isSuffixOf_iff_suffix.mp (Option.some.inj h)
    refine (fills_split hhead).mpr ⟨run, tail, by rw [hrun], fun hstar => absurd hstar htail, ?_⟩
    exact (fills_plain htail).mpr rfl
  · intro h hexp
    obtain ⟨run, last, htext, -, hlast⟩ := (fills_split hhead).mp hexp
    rw [(fills_plain htail).mp hlast] at htext
    have hsuffix : tail <:+ rest := ⟨run, (List.append_cancel_left htext).symm⟩
    rw [List.isSuffixOf_iff_suffix.mpr hsuffix] at h
    cases h
  · refine ⟨fun _ => ?_, fun _ => by simp⟩
    intro head' tail' hsplit hstar
    rw [splitOnce_first hhead] at hsplit
    obtain ⟨rfl, rfl⟩ := Prod.mk.inj (Option.some.inj hsplit)
    exact absurd hstar htail

/-- A text that does not begin as the pattern does. -/
theorem decides_of_apart (hhead : '*' ∉ head) (hpre : ¬ head <+: text) :
    Decides (head ++ '*' :: tail) text (some false) := by
  refine ⟨nofun, ?_, ?_⟩
  · intro _ hexp
    obtain ⟨run, rest, rfl, -, -⟩ := (fills_split hhead).mp hexp
    exact hpre (List.prefix_append head _)
  refine ⟨fun _ => ?_, fun _ => by simp⟩
  intro head' tail' hsplit _ hpre'
  rw [splitOnce_first hhead] at hsplit
  obtain ⟨rfl, rfl⟩ := Prod.mk.inj (Option.some.inj hsplit)
  exact absurd hpre' hpre

/-- **Two stars or more**: the answer of the search, from the answers for the rest of the pattern. -/
theorem decides_of_search {rest : List Char} {f : List Char → Option Bool} (hhead : '*' ∉ head)
    (hstar : '*' ∈ tail) (hf : ∀ text, Decides tail text (f text)) :
    Decides (head ++ '*' :: tail) (head ++ rest) (anySuffix f rest) := by
  have hyes : anySuffix f rest = some true → ExpandsNarrow (head ++ '*' :: tail) (head ++ rest) := by
    intro h
    obtain ⟨run, after, rfl, hrun, hafter⟩ := anySuffix_true h
    exact (fills_split hhead).mpr ⟨run, after, rfl, fun _ => hrun, (hf after).yes hafter⟩
  refine ⟨hyes, ?_, ?_⟩
  · intro h hexp
    obtain ⟨run, after, hsplit, -, hfills⟩ := (fills_split hhead).mp hexp
    have hafter := (anySuffix_false h).2 run after (List.append_cancel_left hsplit)
    exact (hf after).no hafter hfills
  constructor
  · intro hsome head' tail' hsplit _ _
    rw [splitOnce_first hhead] at hsplit
    obtain ⟨rfl, rfl⟩ := Prod.mk.inj (Option.some.inj hsplit)
    cases hanswer : anySuffix f rest with
    | none => exact absurd hanswer hsome
    | some answer =>
      cases answer with
      | true => exact .inr (hyes hanswer)
      | false =>
        rw [List.drop_left]
        exact .inl (anySuffix_false hanswer).1
  · intro huncut
    rcases huncut head tail (splitOnce_first hhead tail) hstar (List.prefix_append head rest) with
      hnarrow | hexp
    · -- nothing wide is left, so the rest of the pattern is not cut anywhere either
      rw [List.drop_left] at hnarrow
      rw [← List.append_nil rest]
      refine anySuffix_some hnarrow ?_ (.inr rfl)
      intro u v huv
      refine (hf _).answers.mpr fun head' tail' _ _ hpre => .inl fun c hc => hnarrow c ?_
      have hmem := List.mem_of_mem_drop hc
      rw [List.append_nil] at hmem
      rw [huv]
      exact List.mem_append_right u hmem
    · obtain ⟨run, after, hsplit, hrun, hfills⟩ := (fills_split hhead).mp hexp
      obtain rfl := List.append_cancel_left hsplit
      have hrun := hrun hstar
      have hwhole : f after = some true := by
        have hsome : f after ≠ none := (hf after).answers.mpr fun _ _ _ _ _ => .inr hfills
        cases hanswer : f after with
        | none => exact absurd hanswer hsome
        | some answer =>
          cases answer with
          | true => rfl
          | false => exact absurd (ExpandsNarrow.expands hfills) ((hf after).no hanswer)
      refine anySuffix_some hrun ?_ (.inl hwhole)
      intro u v huv
      refine (hf _).answers.mpr fun head' tail' hsplit' hstar' hpre => .inr ?_
      -- the text begins as the rest of the pattern does, so it is a filling from here on
      have hv : ∀ c ∈ v, Narrow c := by
        intro c hc
        rw [huv] at hrun
        exact hrun c (List.mem_append_right u hc)
      rw [splitOnce_eq hsplit'] at hfills ⊢
      exact hfills.shift (splitOnce_not_mem hsplit') hv hpre

theorem globFrom_decides {stars : Nat} (hstars : pattern.count '*' ≤ stars) :
    Decides pattern text (globFrom stars pattern text) := by
  induction stars generalizing pattern text with
  | zero =>
    have hplain : '*' ∉ pattern := List.count_eq_zero.mp (by omega)
    exact decides_of_plain hplain
  | succ stars ih =>
    unfold globFrom
    cases hsplit : splitOnce '*' pattern with
    | none => exact decides_of_plain (splitOnce_none hsplit)
    | some pair =>
      obtain ⟨head, tail⟩ := pair
      have hhead := splitOnce_not_mem hsplit
      obtain rfl := splitOnce_eq hsplit
      dsimp only
      split
      · rename_i hpre
        obtain ⟨rest, rfl⟩ := List.isPrefixOf_iff_prefix.mp hpre
        split
        · rename_i hstar
          rw [List.drop_left]
          refine decides_of_search hhead hstar fun text => ih ?_
          rw [List.count_append, List.count_cons_self] at hstars
          omega
        · rename_i hlast
          exact decides_of_last hhead hlast (List.prefix_append head rest)
      · rename_i hpre
        exact decides_of_apart hhead fun h => hpre (List.isPrefixOf_iff_prefix.mpr h)

theorem globMatch_decides (pattern text : String) :
    Decides pattern.toList text.toList (globMatch pattern text) :=
  globFrom_decides List.count_le_length

/-- **When the matcher finishes with the right answer.** It does exactly when the search passes no wide
    character. -/
theorem glob_match_decides_iff (pattern text : String) :
    (∃ answer, globMatch pattern text = some answer ∧
      (answer = true ↔ Expands pattern.toList text.toList)) ↔ Uncut pattern.toList text.toList := by
  have hdecides := globMatch_decides pattern text
  constructor
  · intro ⟨answer, hanswer, _⟩
    refine hdecides.answers.mp ?_
    rw [hanswer]
    simp
  · intro huncut
    cases hanswer : globMatch pattern text with
    | none => exact absurd hanswer (hdecides.answers.mpr huncut)
    | some answer =>
      refine ⟨answer, rfl, ?_⟩
      cases answer with
      | true => exact ⟨fun _ => (hdecides.yes hanswer).expands, fun _ => rfl⟩
      | false => exact ⟨nofun, fun hexp => absurd hexp (hdecides.no hanswer)⟩

/-- `é` is two bytes, and with `*a*` the second one is tried. -/
theorem glob_match_cuts_a_character : globMatch "*a*" "é" = none := by decide

/-! ## 4. Clauses -/

/-- The patterns are tried in turn until one matches, and none that is tried cuts a character. -/
def UncutFirst (cluster : String) : List String → Prop
  | [] => True
  | pattern :: rest => Uncut pattern.toList cluster.toList ∧
      (Expands pattern.toList cluster.toList ∨ UncutFirst cluster rest)

/-- If none matches, all are tried. -/
theorem UncutFirst.all {cluster : String} {patterns : List String} (h : UncutFirst cluster patterns)
    (hnone : ∀ p ∈ patterns, ¬ Expands p.toList cluster.toList) :
    ∀ p ∈ patterns, Uncut p.toList cluster.toList := by
  induction patterns with
  | nil => simp
  | cons pattern rest ih =>
    obtain ⟨hfirst, hrest⟩ := List.forall_mem_cons.mp hnone
    exact List.forall_mem_cons.mpr ⟨h.1, ih (h.2.resolve_left hfirst) hrest⟩

theorem uncutFirst_of_all {cluster : String} {patterns : List String}
    (h : ∀ p ∈ patterns, Uncut p.toList cluster.toList) : UncutFirst cluster patterns := by
  induction patterns with
  | nil => trivial
  | cons pattern rest ih =>
    obtain ⟨hfirst, hrest⟩ := List.forall_mem_cons.mp h
    exact ⟨hfirst, .inr (ih hrest)⟩

theorem anyM_decides (cluster : String) (patterns : List String) :
    (anyM (globMatch · cluster) patterns ≠ none ↔ UncutFirst cluster patterns) ∧
    ∀ answer, anyM (globMatch · cluster) patterns = some answer →
      (answer = true ↔ ∃ p ∈ patterns, Expands p.toList cluster.toList) := by
  induction patterns with
  | nil =>
    refine ⟨by simp [anyM, UncutFirst], ?_⟩
    intro answer h
    obtain rfl := Option.some.inj h
    simp
  | cons pattern rest ih =>
    have hdecides := globMatch_decides pattern cluster
    unfold anyM UncutFirst
    cases hanswer : globMatch pattern cluster with
    | none =>
      have hcut : ¬ Uncut pattern.toList cluster.toList :=
        fun huncut => hdecides.answers.mpr huncut hanswer
      simp [hcut]
    | some answer =>
      have huncut : Uncut pattern.toList cluster.toList :=
        hdecides.answers.mp (by rw [hanswer]; simp)
      cases answer with
      | true =>
        have hexp := (hdecides.yes hanswer).expands
        simp [huncut, hexp]
      | false =>
        have hexp := hdecides.no hanswer
        simp only [huncut, hexp, true_and, false_or, List.mem_cons, exists_eq_or_imp]
        exact ih

namespace Match

variable (K : Crates) (m : Match) (cluster node : String)

/-- What the clauses say. -/
def Includes : Prop :=
  m.isCatchAll = true ∨ node ∈ m.nodes ∨ (∃ p ∈ m.clusters, Expands p.toList cluster.toList) ∨
    ∃ percent, m.nodeHashPercent = some percent ∧ K.nodeBucket cluster node < percent

/-- They are read without cutting a character. -/
def Readable : Prop := m.isCatchAll = true ∨ node ∈ m.nodes ∨ UncutFirst cluster m.clusters

variable {K m cluster node}

theorem takes_decides : (m.takes K cluster node ≠ none ↔ m.Readable cluster node) ∧
    ∀ answer, m.takes K cluster node = some answer → (answer = true ↔ m.Includes K cluster node) := by
  unfold takes Readable Includes
  by_cases hall : m.isCatchAll = true
  · simp [hall]
  by_cases hnode : node ∈ m.nodes
  · simp [hall, hnode]
  obtain ⟨hsome, hanswer⟩ := anyM_decides cluster m.clusters
  simp only [hall, hnode, Bool.false_eq_true, if_false, false_or]
  cases hany : anyM (globMatch · cluster) m.clusters with
  | none =>
    rw [hany] at hsome
    simpa using hsome
  | some answer =>
    have huncut : UncutFirst cluster m.clusters := hsome.mp (by rw [hany]; simp)
    have hmeans := hanswer answer hany
    cases answer with
    | true =>
      have hexp := hmeans.mp rfl
      simp [huncut, hexp]
    | false =>
      have hexp : ¬ ∃ p ∈ m.clusters, Expands p.toList cluster.toList :=
        fun hexp => absurd (hmeans.mpr hexp) Bool.false_ne_true
      cases hpercent : m.nodeHashPercent with
      | none => simp [huncut, hexp]
      | some percent => simp [huncut, hexp]

theorem takes_true (hread : m.Readable cluster node) (h : m.Includes K cluster node) :
    m.takes K cluster node = some true := by
  obtain ⟨answer, hanswer⟩ := Option.ne_none_iff_exists'.mp (takes_decides.1.mpr hread)
  rw [hanswer, (takes_decides.2 answer hanswer).mpr h]

theorem takes_false (hread : m.Readable cluster node) (h : ¬ m.Includes K cluster node) :
    m.takes K cluster node = some false := by
  obtain ⟨answer, hanswer⟩ := Option.ne_none_iff_exists'.mp (takes_decides.1.mpr hread)
  cases answer with
  | true => exact absurd ((takes_decides.2 true hanswer).mp rfl) h
  | false => exact hanswer

theorem takes_none (hread : ¬ m.Readable cluster node) : m.takes K cluster node = none := by
  by_contra hsome
  exact hread (takes_decides.1.mp hsome)

/-- `m'` has every clause of `m`, or a wider one; both have a clause. -/
structure Widens (m m' : Match) : Prop where
  clause : m.isCatchAll = false
  clause' : m'.isCatchAll = false
  clusters : m.clusters ⊆ m'.clusters
  nodes : m.nodes ⊆ m'.nodes
  percent : ∀ p, m.nodeHashPercent = some p → ∃ p', m'.nodeHashPercent = some p' ∧ p ≤ p'

theorem Widens.includes {m m' : Match} (h : m.Widens m') (hm : m.Includes K cluster node) :
    m'.Includes K cluster node := by
  rcases hm with hall | hnode | ⟨p, hp, hexp⟩ | ⟨percent, hpercent, hbucket⟩
  · rw [h.clause] at hall
    cases hall
  · exact .inr (.inl (h.nodes hnode))
  · exact .inr (.inr (.inl ⟨p, h.clusters hp, hexp⟩))
  · obtain ⟨percent', hpercent', hle⟩ := h.percent percent hpercent
    exact .inr (.inr (.inr ⟨percent', hpercent', Nat.lt_of_lt_of_le hbucket hle⟩))

/-- A match that is read to its end has read every clause of one it widens. -/
theorem Widens.readable {m m' : Match} (h : m.Widens m') (hread : m'.Readable cluster node)
    (hout : ¬ m'.Includes K cluster node) : m.Readable cluster node := by
  rcases hread with hall | hnode | huncut
  · exact absurd (.inl hall) hout
  · exact absurd (.inr (.inl hnode)) hout
  have hnone : ∀ p ∈ m'.clusters, ¬ Expands p.toList cluster.toList :=
    fun p hp hexp => hout (.inr (.inr (.inl ⟨p, hp, hexp⟩)))
  have hall := huncut.all hnone
  exact .inr (.inr (uncutFirst_of_all fun p hp => hall p (h.clusters hp)))

end Match

/-! ## 5. The first ring -/

section

variable {K : Crates} {cluster node : String} {before after : List Ring} {ring : Ring}

/-- The rings are read in turn up to one that takes the node, and none that is read cuts a
    character. -/
def RingsReadable (K : Crates) (cluster node : String) : List Ring → Prop
  | [] => True
  | ring :: rest => ring.matching.Readable cluster node ∧
      (ring.matching.Includes K cluster node ∨ RingsReadable K cluster node rest)

theorem firstRing_some_iff (rings : List Ring) :
    firstRing K cluster node rings ≠ none ↔ RingsReadable K cluster node rings := by
  induction rings with
  | nil => simp [firstRing, RingsReadable]
  | cons ring rest ih =>
    unfold firstRing RingsReadable
    by_cases hread : ring.matching.Readable cluster node
    · by_cases hin : ring.matching.Includes K cluster node
      · simp [Match.takes_true hread hin, hread, hin]
      · simpa [Match.takes_false hread hin, hread, hin] using ih
    · simp [Match.takes_none hread, hread]

theorem ringsReadable_append (hout : ∀ r ∈ before, ¬ r.matching.Includes K cluster node)
    (rings : List Ring) : RingsReadable K cluster node (before ++ rings) ↔
      (∀ r ∈ before, r.matching.Readable cluster node) ∧ RingsReadable K cluster node rings := by
  induction before with
  | nil => simp
  | cons first before ih =>
    obtain ⟨hnot, hout⟩ := List.forall_mem_cons.mp hout
    rw [List.cons_append, RingsReadable, ih hout, List.forall_mem_cons]
    simp only [hnot, false_or]
    exact and_assoc.symm

/-- Rings that do not take the node are passed over. -/
theorem firstRing_append (hread : ∀ r ∈ before, r.matching.Readable cluster node)
    (hout : ∀ r ∈ before, ¬ r.matching.Includes K cluster node) (rings : List Ring) :
    firstRing K cluster node (before ++ rings) = firstRing K cluster node rings := by
  induction before with
  | nil => rfl
  | cons first before ih =>
    obtain ⟨hfirst, hrest⟩ := List.forall_mem_cons.mp hread
    obtain ⟨hnot, hout⟩ := List.forall_mem_cons.mp hout
    rw [List.cons_append, firstRing, Match.takes_false hfirst hnot]
    exact ih hrest hout

/-- What comes after a ring that takes the node, or cuts a character, does not matter. -/
theorem firstRing_stops (h : (∃ r ∈ before, r.matching.Includes K cluster node) ∨
    ∃ r ∈ before, ¬ r.matching.Readable cluster node) (rings rings' : List Ring) :
    firstRing K cluster node (before ++ rings) = firstRing K cluster node (before ++ rings') := by
  induction before with
  | nil => simp at h
  | cons first before ih =>
    rw [List.cons_append, List.cons_append, firstRing, firstRing]
    by_cases hread : first.matching.Readable cluster node
    · by_cases hin : first.matching.Includes K cluster node
      · rw [Match.takes_true hread hin]
      · rw [Match.takes_false hread hin]
        exact ih (by simpa [hread, hin] using h)
    · rw [Match.takes_none hread]

end

/-- A ring with another match. -/
def Ring.withMatch (ring : Ring) (m : Match) : Ring := { ring with matching := m }

section

variable {K : Crates} {cluster node : String} {before after : List Ring} {ring : Ring} {m' : Match}

/-- The ring is come to, and its new match can be read: the node goes to it, or where it went. -/
theorem firstRing_widened (hwider : ring.matching.Widens m') (hread : m'.Readable cluster node) :
    firstRing K cluster node (ring.withMatch m' :: after) = some (some (ring.withMatch m')) ∨
      firstRing K cluster node (ring.withMatch m' :: after)
        = firstRing K cluster node (ring :: after) := by
  have hmatch : (ring.withMatch m').matching = m' := rfl
  by_cases hin : m'.Includes K cluster node
  · left
    rw [firstRing, hmatch, Match.takes_true hread hin]
  right
  have hread' := hwider.readable hread hin
  have hout : ¬ ring.matching.Includes K cluster node := fun h => hin (hwider.includes h)
  rw [firstRing, firstRing, hmatch, Match.takes_false hread hin, Match.takes_false hread' hout]

/-- **To widen a ring moves nodes into it and nowhere else, and a ring of all hash buckets takes what is
    left**, exactly where the clauses can be read without cutting a character of the cluster's name. -/
theorem widening_moves_nodes_only_in_iff (K : Crates) (rollout : Rollout) (before after : List Ring)
    (ring : Ring) (m' : Match) (cluster node : String)
    (hrings : rollout.rings = before ++ ring :: after) :
    (ring.matching.Widens m' →
      (({ rollout with rings := before ++ ring.withMatch m' :: after }.target K cluster node
          = some (some (ring.withMatch m')) ∨
        { rollout with rings := before ++ ring.withMatch m' :: after }.target K cluster node
          = rollout.target K cluster node) ↔
      m'.Readable cluster node ∨ (∃ r ∈ before, r.matching.Includes K cluster node) ∨
        ¬ RingsReadable K cluster node rollout.rings)) ∧
    (ring.matching.nodeHashPercent = some 100 →
      (∀ r ∈ before, ¬ r.matching.Includes K cluster node) →
      (rollout.target K cluster node = some (some ring) ↔
        ∀ r ∈ before ++ [ring], r.matching.Readable cluster node)) := by
  unfold Rollout.target
  rw [hrings]
  dsimp only
  have hmatch : (ring.withMatch m').matching = m' := rfl
  constructor
  · intro hwider
    by_cases hin : ∃ r ∈ before, r.matching.Includes K cluster node
    · have hsame := firstRing_stops (.inl hin) (ring.withMatch m' :: after) (ring :: after)
      exact ⟨fun _ => .inr (.inl hin), fun _ => .inr hsame⟩
    have hout : ∀ r ∈ before, ¬ r.matching.Includes K cluster node :=
      fun r hr hinc => hin ⟨r, hr, hinc⟩
    rw [ringsReadable_append hout]
    by_cases hread : ∀ r ∈ before, r.matching.Readable cluster node
    · -- the ring is come to
      rw [firstRing_append hread hout, firstRing_append hread hout]
      simp only [hin, false_or]
      by_cases hread' : m'.Readable cluster node
      · exact ⟨fun _ => .inl hread', fun _ => firstRing_widened hwider hread'⟩
      have hcut : firstRing K cluster node (ring.withMatch m' :: after) = none := by
        rw [firstRing, hmatch, Match.takes_none hread']
      rw [hcut, ← firstRing_some_iff]
      constructor
      · intro h
        rcases h with h | hsame
        · cases h
        · exact .inr fun hall => hall.2 hsame.symm
      · intro h
        rcases h with h | hnone
        · exact absurd h hread'
        · refine .inr ?_
          by_contra hne
          exact hnone ⟨hread, fun h => hne h.symm⟩
    · -- an earlier ring stops the process, before and after
      have hcut : ∃ r ∈ before, ¬ r.matching.Readable cluster node := by simpa using hread
      have hsame := firstRing_stops (K := K) (.inr hcut) (ring.withMatch m' :: after) (ring :: after)
      exact ⟨fun _ => .inr (.inr fun hall => hread hall.1), fun _ => .inr hsame⟩
  · intro hpercent hout
    have hin : ring.matching.Includes K cluster node := by
      refine .inr (.inr (.inr ⟨100, hpercent, ?_⟩))
      exact Nat.mod_lt _ (by decide)
    rw [List.forall_mem_append, List.forall_mem_singleton]
    constructor
    · intro htarget
      have hread : RingsReadable K cluster node (before ++ ring :: after) :=
        (firstRing_some_iff _).mp (by rw [htarget]; simp)
      obtain ⟨hbefore, hring, _⟩ := (ringsReadable_append hout _).mp hread
      exact ⟨hbefore, hring⟩
    · intro ⟨hbefore, hring⟩
      rw [firstRing_append hbefore hout, firstRing, Match.takes_true hring hin]

end

/-- The crates, on texts whose SHA-256 is written down and on manifests whose TOML is. -/
def tableCrates (digests : List (Bytes × Bytes)) (manifests : List (String × Rollout)) : Crates where
  sha256 bytes := (digests.lookup bytes).getD []
  ed25519 _ _ _ := false
  base64 _ := .error "Invalid padding"
  envelopeJson _ := .error "expected value at line 1 column 1"
  manifestJson _ := .error "expected value at line 1 column 1"
  rolloutToml text :=
    match manifests.lookup text with
    | some rollout => .ok rollout
    | none => .error "missing field"
  bundleToml _ := .error "missing field"
  utf8Error _ := "invalid utf-8 sequence"

/-- The buckets of a node in two clusters. -/
def bucketCrates : Crates := tableCrates [(utf8Bytes "dev-eu" ++ 0 :: utf8Bytes "n1",
      [0x0e, 0xa4, 0x91, 0xf9, 0x88, 0xb5, 0xe5, 0x53, 0x53, 0x8b, 0x91, 0x73, 0x70, 0x1d, 0xa4,
       0xdf, 0xb7, 0x60, 0xc6, 0x45, 0xde, 0xdb, 0x2b, 0x79, 0x2f, 0x00, 0x58, 0xb9, 0x8e, 0x45,
       0xfa, 0xe6]),
     (utf8Bytes "é" ++ 0 :: utf8Bytes "n1",
      [0x15, 0xac, 0x42, 0x16, 0x4f, 0x12, 0x44, 0xe1, 0x43, 0x82, 0x7f, 0xd7, 0x84, 0x1b, 0x18,
       0xaf, 0xa7, 0xd8, 0x86, 0x04, 0x7e, 0xe3, 0x43, 0x5b, 0x5f, 0x77, 0xab, 0xb5, 0x09, 0x5d,
       0x20, 0x81])] []

/-- A canary for one group of clusters, and the rest of the fleet. -/
def canaryRing : Ring := ⟨"canary", ⟨["stage-*"], some 5, []⟩, "sha256:b"⟩

def restRing : Ring := ⟨"rest", ⟨[], some 100, []⟩, "sha256:a"⟩

def canaryRollout : Rollout := ⟨1, false, none, none, [canaryRing, restRing]⟩

/-- The canary with one more pattern. -/
def widened (pattern : String) : Match := ⟨["stage-*", pattern], some 10, []⟩

theorem widened_widens (pattern : String) : canaryRing.matching.Widens (widened pattern) where
  clause := rfl
  clause' := rfl
  clusters := by simp [canaryRing, widened]
  nodes := by simp [canaryRing, widened]
  percent := by
    intro p hp
    cases hp
    exact ⟨10, rfl, by decide⟩

/-- A pattern for the cluster moves the node into the canary; before that, the last ring had it. -/
theorem widening_moves_nodes_only_in_dev :
    { canaryRollout with rings := [canaryRing.withMatch (widened "dev-*"), restRing] }.target
        bucketCrates "dev-eu" "n1" = some (some (canaryRing.withMatch (widened "dev-*"))) ∧
      canaryRollout.target bucketCrates "dev-eu" "n1" = some (some restRing) := by
  have hread : (widened "dev-*").Readable "dev-eu" "n1" :=
    (Match.takes_decides (K := bucketCrates)).1.mp (by decide)
  have hout : ∀ r ∈ [canaryRing], ¬ r.matching.Includes bucketCrates "dev-eu" "n1" := by
    intro r hr
    obtain rfl := List.mem_singleton.mp hr
    exact fun h => by
      have := (Match.takes_decides.2 false (by decide)).mpr h
      cases this
  have hall : ∀ r ∈ [canaryRing] ++ [restRing], r.matching.Readable "dev-eu" "n1" := by
    intro r hr
    refine (Match.takes_decides (K := bucketCrates)).1.mp ?_
    rcases List.mem_pair.mp hr with rfl | rfl
    all_goals decide
  have hrest := ((widening_moves_nodes_only_in_iff bucketCrates canaryRollout [canaryRing] [] restRing
    restRing.matching "dev-eu" "n1" rfl).2 rfl hout).mpr hall
  have hmoves := ((widening_moves_nodes_only_in_iff bucketCrates canaryRollout [] [restRing] canaryRing
    (widened "dev-*") "dev-eu" "n1" rfl).1 (widened_widens _)).mpr (.inl hread)
  refine ⟨hmoves.resolve_right fun hsame => ?_, hrest⟩
  revert hsame
  decide

/-- A pattern with two stars stops the process on every node of a cluster whose name has a wide
    character, where the last ring had them before. -/
theorem widening_stops_the_process :
    canaryRollout.target bucketCrates "é" "n1" = some (some restRing) ∧
      { canaryRollout with rings := [canaryRing.withMatch (widened "*a*"), restRing] }.target
        bucketCrates "é" "n1" = none ∧
      canaryRing.matching.Widens (widened "*a*") :=
  ⟨by decide, by decide, widened_widens _⟩

/-! ## 6. The digest a ring names -/

/-- The value of a hex digit, in either case. -/
def hexValue (c : Char) : Nat :=
  if c.isDigit then c.toNat - '0'.toNat
  else if c.isUpper then c.toNat - 'A'.toNat + 10
  else c.toNat - 'a'.toNat + 10

def hexBytes : List Char → Bytes
  | high :: low :: rest => UInt8.ofNat (16 * hexValue high + hexValue low) :: hexBytes rest
  | _ => []

/-- The bytes that the digits of a ring's digest stand for. -/
def Ring.denotes (ring : Ring) : Option Bytes :=
  (stripPrefix ring.bundle "sha256:").map fun hex => hexBytes hex.toList

/-- The digit that a value is written as. -/
def lowered (c : Char) : Char := Nat.digitChar (hexValue c)

theorem isHexDigit_cases {c : Char} (h : isHexDigit c = true) :
    hexValue c < 16 ∧ (lowered c = c ↔ c.isUpper = false) := by
  have hsmall : c.toNat < 128 := by
    simp only [isHexDigit, Char.isDigit, Bool.or_eq_true, Bool.and_eq_true, decide_eq_true_eq] at h
    rcases h with (h | h) | h
    · exact Nat.lt_of_le_of_lt (UInt32.le_iff_toNat_le.mp h.2) (by decide)
    · exact Nat.lt_of_le_of_lt h.2 (by decide)
    · exact Nat.lt_of_le_of_lt h.2 (by decide)
  have hall : ∀ n < 128, isHexDigit (Char.ofNat n) = true → hexValue (Char.ofNat n) < 16 ∧
        (lowered (Char.ofNat n) = Char.ofNat n ↔ (Char.ofNat n).isUpper = false) := by decide
  rw [← Char.ofNat_toNat c] at h ⊢
  exact hall c.toNat hsmall h

theorem hexByte_pair {high low : Nat} (hhigh : high < 16) (hlow : low < 16) :
    Crates.hexByte (UInt8.ofNat (16 * high + low)) = [Nat.digitChar high, Nat.digitChar low] := by
  have hbyte : (UInt8.ofNat (16 * high + low)).toNat = 16 * high + low := by
    rw [UInt8.toNat_ofNat']
    exact Nat.mod_eq_of_lt (by omega)
  have hdiv : (16 * high + low) / 16 = high := by omega
  have hmod : (16 * high + low) % 16 = low := by omega
  rw [Crates.hexByte, hbyte, hdiv, hmod]

/-- Digits that are read and written again come back in lower case. -/
theorem hexByte_hexBytes : ∀ hex : List Char, hex.length % 2 = 0 → hex.all isHexDigit = true →
    (hexBytes hex).flatMap Crates.hexByte = hex.map lowered
  | [], _, _ => rfl
  | [_], hlen, _ => by simp at hlen
  | high :: low :: rest, hlen, hall => by
    simp only [List.all_cons, Bool.and_eq_true] at hall
    obtain ⟨hhigh, hlow, hrest⟩ := hall
    have hlen' : rest.length % 2 = 0 := by
      simp only [List.length_cons] at hlen
      omega
    have ih := hexByte_hexBytes rest hlen' hrest
    rw [hexBytes, List.flatMap_cons, ih,
      hexByte_pair (isHexDigit_cases hhigh).1 (isHexDigit_cases hlow).1]
    rfl

theorem noUpper_of_all (h : (text.all fun c => !c.isUpper) = true) :
    ∀ c ∈ text, c.isUpper = false := by
  simpa using h

theorem map_lowered_iff {hex : List Char} (hall : hex.all isHexDigit = true) :
    hex.map lowered = hex ↔ ∀ c ∈ hex, c.isUpper = false := by
  induction hex with
  | nil => simp
  | cons c rest ih =>
    simp only [List.all_cons, Bool.and_eq_true] at hall
    rw [List.map_cons, List.cons.injEq, ih hall.2, (isHexDigit_cases hall.1).2, List.forall_mem_cons]

theorem checkDigestForm_ok {digest ring : String} {u : Unit}
    (h : checkDigestForm digest ring = .ok u) :
    ∃ hex, stripPrefix digest "sha256:" = some hex ∧ hex.toList.length = 64 ∧
      hex.toList.all isHexDigit = true := by
  unfold checkDigestForm at h
  split at h
  · cases h
  · rename_i hex hstrip
    rw [refuseIf_ok, not_or, not_not, Bool.not_eq_false] at h
    exact ⟨hex, hstrip, h⟩

/-- **What has the digest that a ring's digits denote passes the check against it**, exactly when the
    manifest writes the digits in lower case. -/
theorem check_digest_accepts_denoted_iff (K : Crates) (toml : Bytes) (rollout : Rollout) (ring : Ring)
    (bytes : Bytes) (hparse : Rollout.parse K toml = .ok rollout) (hring : ring ∈ rollout.rings)
    (hbytes : ring.denotes = some (K.sha256 bytes)) :
    K.checkDigest bytes ring.bundle = .ok () ↔ ∀ c ∈ ring.bundle.toList, c.isUpper = false := by
  obtain ⟨hex, hstrip, hlen, hall⟩ := checkDigestForm_ok (Rollout.parse_ok hparse ring hring)
  rw [Ring.denotes, hstrip, Option.map_some, Option.some.injEq] at hbytes
  have hwritten : (K.sha256Digest bytes).toList = "sha256:".toList ++ hex.toList.map lowered := by
    rw [Crates.sha256Digest, ← hbytes, hexByte_hexBytes hex.toList (by rw [hlen]) hall,
      String.toList_append]
    exact congrArg _ String.toList_ofList
  have hnamed : ring.bundle.toList = "sha256:".toList ++ hex.toList := toList_of_stripPrefix hstrip
  have hscheme : ∀ c ∈ "sha256:".toList, c.isUpper = false := noUpper_of_all (by decide)
  calc K.checkDigest bytes ring.bundle = .ok ()
      ↔ (K.sha256Digest bytes).toList = ring.bundle.toList := by
        rw [Crates.checkDigest, refuseIf_ok, not_not, String.toList_inj]
    _ ↔ hex.toList.map lowered = hex.toList := by rw [hwritten, hnamed, List.append_cancel_left_eq]
    _ ↔ ∀ c ∈ ring.bundle.toList, c.isUpper = false := by
        rw [map_lowered_iff hall, hnamed, List.forall_mem_append]
        exact ⟨fun h => ⟨hscheme, h⟩, And.right⟩

/-- A manifest of one ring, whose bundle is the empty text. -/
def emptyBundle (digest : String) : Rollout :=
  ⟨1, false, none, none, [⟨"a", ⟨[], none, []⟩, digest⟩]⟩

def emptyManifest (digest : String) : String :=
  "schema=1\n[[ring]]\nname=\"a\"\nbundle=\"" ++ digest ++ "\"\n"

def emptyDigest : String :=
  "sha256:e3b0c44298fc1c149afbf4c8996fb92427ae41e4649b934ca495991b7852b855"

def emptyDigestUpper : String :=
  "sha256:E3B0C44298FC1C149AFBF4C8996FB92427AE41E4649B934CA495991B7852B855"

def emptyCrates : Crates := tableCrates [([],
      [0xe3, 0xb0, 0xc4, 0x42, 0x98, 0xfc, 0x1c, 0x14, 0x9a, 0xfb, 0xf4, 0xc8, 0x99, 0x6f, 0xb9,
       0x24, 0x27, 0xae, 0x41, 0xe4, 0x64, 0x9b, 0x93, 0x4c, 0xa4, 0x95, 0x99, 0x1b, 0x78, 0x52,
       0xb8, 0x55])]
    [(emptyManifest emptyDigest, emptyBundle emptyDigest),
     (emptyManifest emptyDigestUpper, emptyBundle emptyDigestUpper)]

theorem check_digest_accepts_denoted_empty : emptyCrates.checkDigest [] emptyDigest = .ok () := by
  refine (check_digest_accepts_denoted_iff emptyCrates (utf8Bytes (emptyManifest emptyDigest))
    (emptyBundle emptyDigest) ⟨"a", ⟨[], none, []⟩, emptyDigest⟩ [] ?_ ?_ ?_).mpr ?_
  · rfl
  · exact List.mem_singleton.mpr rfl
  · decide
  · exact noUpper_of_all (by decide)

/-- The same digest in upper case parses, and the bundle that has it is refused. -/
theorem check_digest_refuses_upper_case :
    (Rollout.parse emptyCrates (utf8Bytes (emptyManifest emptyDigestUpper))
        = .ok (emptyBundle emptyDigestUpper)) ∧
      (∀ ring ∈ (emptyBundle emptyDigestUpper).rings, ring.denotes = some (emptyCrates.sha256 []) ∧
          emptyCrates.checkDigest [] ring.bundle ≠ .ok ()) := by
  refine ⟨?_, ?_⟩
  · rfl
  · decide

end Svidlet.Policy
