import Mathlib

/-!
# Texts with holes

A fixed text with holes in it, and values to put into the holes. Two questions are asked of such a
text: can different values give the same result, and which values does one find who reads the result
from left to right and ends each value as early as possible?

Both come down to the text between two holes, the **gap**. If a value ends earlier in one reading than in
another, the gap stands in the result twice, a little apart, and so it repeats itself:

> `Slides ok gap p` — a word of `p` allowed characters can be taken from before the gap and put
>                     behind it, changed or not, without changing what is written.

`fill_collision` gets a sliding gap out of two fillings with one result, `fill_slide` makes such
fillings out of a sliding gap. A gap with a character that values may not have does not slide, and
then the earliest reading is the right one (`not_earlier_of_separators`).
-/

namespace Svidlet.Lib

variable {α : Type}

/-! ## 1. Filling -/

/-- The values, each with the gap behind it. -/
def fill : List (List α) → List (List α) → List α
  | gap :: gaps, v :: vs => v ++ gap ++ fill gaps vs
  | _, _ => []

@[simp] theorem fill_nil (vs : List (List α)) : fill [] vs = [] := by cases vs <;> rfl

@[simp] theorem fill_cons (gap v : List α) (gaps vs : List (List α)) :
    fill (gap :: gaps) (v :: vs) = v ++ gap ++ fill gaps vs := rfl

variable {gaps vs : List (List α)}

theorem fill_append (h : gaps.length = vs.length) (gaps' vs' : List (List α)) :
    fill (gaps ++ gaps') (vs ++ vs') = fill gaps vs ++ fill gaps' vs' := by
  induction gaps generalizing vs with
  | nil =>
    obtain rfl := List.length_eq_zero_iff.mp h.symm
    simp
  | cons gap gaps ih =>
    cases vs with
    | nil => cases h
    | cons v vs => simp [ih (Nat.succ.inj h), List.append_assoc]

theorem length_fill (h : gaps.length = vs.length) :
    (fill gaps vs).length = gaps.flatten.length + vs.flatten.length := by
  induction gaps generalizing vs with
  | nil =>
    obtain rfl := List.length_eq_zero_iff.mp h.symm
    simp
  | cons gap gaps ih =>
    cases vs with
    | nil => cases h
    | cons v vs =>
      simp only [fill_cons, List.length_append, ih (Nat.succ.inj h), List.flatten_cons]
      ring

/-! ## 2. Gaps that slide -/

def Slides (ok : α → Prop) (gap : List α) (p : Nat) : Prop :=
  0 < p ∧ ∃ w w', w.length = p ∧ (∀ c ∈ w, ok c) ∧ (∀ c ∈ w', ok c) ∧ w ++ gap = gap ++ w'

variable {ok : α → Prop} {gap rest rest' : List α}

/-- A gap that stands behind an allowed word and in front of it at once is made of allowed
    characters. -/
theorem ok_of_overlap {x : List α} (hx : x ≠ []) (hok : ∀ c ∈ x, ok c)
    (h : x ++ gap ++ rest = gap ++ rest') : ∀ c ∈ gap, ok c := by
  -- the gap is read off character by character, the word turning with it
  induction gap generalizing x with
  | nil => simp
  | cons a gap ih =>
    obtain ⟨b, x, rfl⟩ := List.exists_cons_of_ne_nil hx
    simp only [List.cons_append, List.cons.injEq] at h
    obtain ⟨rfl, htail⟩ := h
    have hb : ok b := hok b (.head _)
    have hturned : ∀ c ∈ x ++ [b], ok c := by
      intro c hc
      obtain hc | hc := List.mem_append.mp hc
      · exact hok c (.tail _ hc)
      · rw [List.mem_singleton.mp hc]
        exact hb
    have hgap := ih (by simp) hturned (by simpa using htail)
    intro c hc
    obtain rfl | hc := List.mem_cons.mp hc
    · exact hb
    · exact hgap c hc

theorem slides_of_overlap {x : List α} (hx : x ≠ []) (hok : ∀ c ∈ x, ok c)
    (h : x ++ gap ++ rest = gap ++ rest') :
    ∃ p, p ≤ x.length ∧ Slides ok gap p := by
  have hgap := ok_of_overlap hx hok h
  by_cases hempty : gap = []
  · -- two holes side by side: any character can change sides
    obtain ⟨b, x, rfl⟩ := List.exists_cons_of_ne_nil hx
    have hb : ∀ c ∈ [b], ok c := fun c hc => hok c (by simp_all)
    exact ⟨1, by simp, Nat.one_pos, [b], [b], rfl, hb, hb, by simp [hempty]⟩
  by_cases hlong : gap.length ≤ x.length
  · exact ⟨gap.length, hlong, List.length_pos_iff.mpr hempty, gap, gap, rfl, hgap, hgap, rfl⟩
  -- the two copies of the gap overlap
  rw [List.append_assoc] at h
  obtain ⟨front, hfront⟩ : ∃ front, gap = x ++ front := by
    have hpre : x <+: gap ++ rest' := ⟨_, h⟩
    have hpre' := List.prefix_of_prefix_length_le hpre (List.prefix_append gap rest') (by omega)
    exact ⟨_, (List.prefix_iff_eq_append.mp hpre').symm⟩
  have hrest : gap ++ rest = front ++ rest' := by
    have hx : x ++ (gap ++ rest) = x ++ (front ++ rest') := by
      rw [h, ← List.append_assoc, ← hfront]
    exact List.append_cancel_left hx
  obtain ⟨y, hy⟩ : ∃ y, gap = front ++ y := by
    have hpre : front <+: gap ++ rest := ⟨_, hrest.symm⟩
    have hle : front.length ≤ gap.length := by simp [hfront]
    have hpre' := List.prefix_of_prefix_length_le hpre (List.prefix_append gap rest) hle
    exact ⟨_, (List.prefix_iff_eq_append.mp hpre').symm⟩
  have hyok : ∀ c ∈ y, ok c := fun c hc => hgap c (by rw [hy]; simp [hc])
  refine ⟨x.length, Nat.le_refl _, List.length_pos_iff.mpr hx, x, y, rfl, hok, hyok, ?_⟩
  calc x ++ gap = x ++ (front ++ y) := by rw [← hy]
    _ = gap ++ y := by rw [← List.append_assoc, ← hfront]

variable {v : List α}

/-- Two values of different lengths before one gap. -/
theorem overlap_of_shorter {v' : List α} (hlen : v'.length < v.length) (hok : ∀ c ∈ v, ok c)
    (h : v ++ gap ++ rest = v' ++ gap ++ rest') :
    ∃ x, x ≠ [] ∧ v'.length + x.length = v.length ∧ (∀ c ∈ x, ok c) ∧
      x ++ gap ++ rest = gap ++ rest' := by
  rw [List.append_assoc, List.append_assoc] at h
  have hpre : v' <+: v ++ (gap ++ rest) := ⟨_, h.symm⟩
  have hpre' := List.prefix_of_prefix_length_le hpre (List.prefix_append v _) (by omega)
  obtain ⟨x, rfl⟩ := hpre'
  refine ⟨x, ?_, by simp, fun c hc => hok c (by simp [hc]), ?_⟩
  · rintro rfl
    simp at hlen
  · rw [List.append_assoc] at h
    rw [List.append_assoc]
    exact List.append_cancel_left h

/-! ## 3. Collisions -/

/-- Values that are not empty and of allowed characters. -/
def Values (ok : α → Prop) (vs : List (List α)) : Prop := ∀ v ∈ vs, v ≠ [] ∧ ∀ c ∈ v, ok c

theorem Values.tail (h : Values ok (v :: vs)) :
    Values ok vs := fun w hw => h w (.tail _ hw)

theorem Values.length_le (h : Values ok vs) : vs.length ≤ vs.flatten.length := by
  induction vs with
  | nil => simp
  | cons v vs ih =>
    have hv := List.length_pos_iff.mpr (h v (.head _)).1
    have hvs := ih h.tail
    simp only [List.length_cons, List.flatten_cons, List.length_append]
    omega

variable {ws : List (List α)}

/-- Two fillings with one result: a gap between two holes slides, and there is room for it. -/
theorem fill_collision (hvs : gaps.length = vs.length) (hws : gaps.length = ws.length)
    (hv : Values ok vs) (hw : Values ok ws) (h : fill gaps vs = fill gaps ws) (hne : vs ≠ ws) :
    ∃ gap ∈ gaps.dropLast, ∃ p, Slides ok gap p ∧ vs.length + p ≤ vs.flatten.length := by
  induction gaps generalizing vs ws with
  | nil =>
    rw [List.length_eq_zero_iff.mp hvs.symm, List.length_eq_zero_iff.mp hws.symm] at hne
    exact absurd rfl hne
  | cons gap gaps ih =>
    cases vs with
    | nil => cases hvs
    | cons v vs =>
    cases ws with
    | nil => cases hws
    | cons w ws =>
    have hvs' : gaps.length = vs.length := Nat.succ.inj hvs
    have hws' : gaps.length = ws.length := Nat.succ.inj hws
    have htotal : v.length + vs.flatten.length = w.length + ws.flatten.length := by
      have hlen := congrArg List.length h
      simp only [fill_cons, List.length_append, length_fill hvs', length_fill hws'] at hlen
      omega
    have hvsum := hv.tail.length_le
    have hwsum := hw.tail.length_le
    have hvpos := List.length_pos_iff.mpr (hv v (.head _)).1
    have hwpos := List.length_pos_iff.mpr (hw w (.head _)).1
    simp only [fill_cons] at h
    cases gaps with
    | nil =>
      obtain rfl := List.length_eq_zero_iff.mp hvs'.symm
      obtain rfl := List.length_eq_zero_iff.mp hws'.symm
      simp only [fill_nil, List.append_nil] at h
      exact absurd (by rw [List.append_cancel_right h]) hne
    | cons next gaps =>
      obtain hlt | heq | hgt := Nat.lt_trichotomy v.length w.length
      · obtain ⟨x, hx, hlen, hok, hover⟩ :=
          overlap_of_shorter hlt (hw w (.head _)).2 h.symm
        obtain ⟨p, hp, hslides⟩ := slides_of_overlap hx hok hover
        refine ⟨gap, by simp, p, hslides, ?_⟩
        simp only [List.length_cons, List.flatten_cons, List.length_append]
        simp only [List.length_cons] at hvs' hws'
        omega
      · obtain ⟨hvw, hrest⟩ := List.append_inj (by simpa only [List.append_assoc] using h) heq
        subst hvw
        have hfill := List.append_cancel_left hrest
        obtain ⟨g, hg, p, hslides, hroom⟩ := ih hvs' hws' hv.tail hw.tail hfill
          (fun heq => hne (by rw [heq]))
        refine ⟨g, by simp [hg], p, hslides, ?_⟩
        simp only [List.length_cons, List.flatten_cons, List.length_append]
        omega
      · obtain ⟨x, hx, hlen, hok, hover⟩ := overlap_of_shorter hgt (hv v (.head _)).2 h
        obtain ⟨p, hp, hslides⟩ := slides_of_overlap hx hok hover
        refine ⟨gap, by simp, p, hslides, ?_⟩
        simp only [List.length_cons, List.flatten_cons, List.length_append]
        omega

/-- A sliding word belongs to the value on either side of the gap. -/
theorem fill_slide {w w' : List α} (h : w ++ gap = gap ++ w') {before : List (List α)}
    (hlen : before.length = vs.length) (u z : List α) (next : List α) (after zs : List (List α)) :
    fill (before ++ gap :: next :: after) (vs ++ (u ++ w) :: z :: zs) =
      fill (before ++ gap :: next :: after) (vs ++ u :: (w' ++ z) :: zs) := by
  rw [fill_append hlen, fill_append hlen]
  simp only [fill_cons, List.append_assoc, List.append_cancel_left_eq]
  rw [← List.append_assoc, h, List.append_assoc]

/-! ## 4. Readings -/

/-- Values that give a text. -/
structure Reading (ok : α → Prop) (gaps : List (List α)) (text : List α)
    (vs : List (List α)) : Prop where
  length_eq : gaps.length = vs.length
  values : Values ok vs
  fill_eq : fill gaps vs = text

/-- At the first value that differs in length, the left one is shorter. -/
def Earlier : List (List α) → List (List α) → Prop
  | v :: vs, w :: ws => v.length < w.length ∨ (v.length = w.length ∧ Earlier vs ws)
  | _, _ => False

/-- The reading that ends each value as early as possible, the first one first. -/
def FirstReading (ok : α → Prop) (gaps : List (List α)) (text : List α) (vs : List (List α)) :
    Prop :=
  Reading ok gaps text vs ∧ ∀ ws, Reading ok gaps text ws → ¬ Earlier ws vs

variable {text : List α}

theorem Reading.tail (h : Reading ok (gap :: gaps) (v ++ gap ++ text) (v :: vs)) :
    Reading ok gaps text vs where
  length_eq := Nat.succ.inj h.length_eq
  values := h.values.tail
  fill_eq := List.append_cancel_left h.fill_eq

/-- Two readings of a text are the same, or one is earlier. -/
theorem Reading.trichotomy (hv : Reading ok gaps text vs) (hw : Reading ok gaps text ws) :
    vs = ws ∨ Earlier vs ws ∨ Earlier ws vs := by
  induction gaps generalizing text vs ws with
  | nil =>
    rw [List.length_eq_zero_iff.mp hv.length_eq.symm, List.length_eq_zero_iff.mp hw.length_eq.symm]
    exact .inl rfl
  | cons gap gaps ih =>
    cases vs with
    | nil => cases hv.length_eq
    | cons v vs =>
    cases ws with
    | nil => cases hw.length_eq
    | cons w ws =>
    obtain hlt | heq | hgt := Nat.lt_trichotomy v.length w.length
    · exact .inr (.inl (.inl hlt))
    · have hfill := hv.fill_eq.trans hw.fill_eq.symm
      simp only [fill_cons, List.append_assoc] at hfill
      obtain ⟨hvw, -⟩ := List.append_inj hfill heq
      subst hvw
      have hv' : Reading ok (gap :: gaps) (v ++ gap ++ fill gaps vs) (v :: vs) :=
        ⟨hv.length_eq, hv.values, rfl⟩
      have hw' : Reading ok (gap :: gaps) (v ++ gap ++ fill gaps vs) (v :: ws) :=
        ⟨hw.length_eq, hw.values, hw.fill_eq.trans hv.fill_eq.symm⟩
      obtain hsame | hlt | hgt := ih hv'.tail hw'.tail
      · exact .inl (by rw [hsame])
      · exact .inr (.inl (.inr ⟨rfl, hlt⟩))
      · exact .inr (.inr (.inr ⟨rfl, hgt⟩))
    · exact .inr (.inr (.inl hgt))

theorem FirstReading.unique (hv : FirstReading ok gaps text vs)
    (hw : FirstReading ok gaps text ws) : vs = ws := by
  obtain hsame | hlt | hgt := hv.1.trichotomy hw.1
  · exact hsame
  · exact absurd hlt (hw.2 vs hv.1)
  · exact absurd hgt (hv.2 ws hw.1)

/-- If a text can be read at all, there is a first reading. -/
theorem Reading.exists_first (h : Reading ok gaps text vs) :
    ∃ ws, FirstReading ok gaps text ws := by
  classical
  induction gaps generalizing text vs with
  | nil =>
    refine ⟨vs, h, fun ws hws => ?_⟩
    rw [List.length_eq_zero_iff.mp h.length_eq.symm]
    cases ws <;> exact id
  | cons gap gaps ih =>
    -- the shortest first value, then the first reading of what is behind it
    have hlengths : ∃ n, ∃ v us, v.length = n ∧ Reading ok (gap :: gaps) text (v :: us) := by
      cases vs with
      | nil => cases h.length_eq
      | cons v us => exact ⟨v.length, v, us, rfl, h⟩
    obtain ⟨v, us, hv, hread⟩ := Nat.find_spec hlengths
    have hread' : Reading ok (gap :: gaps) (v ++ gap ++ fill gaps us) (v :: us) :=
      ⟨hread.length_eq, hread.values, rfl⟩
    obtain ⟨ws, hws, hleast⟩ := ih hread'.tail
    have hvalues : Values ok (v :: ws) := by
      intro w hw
      obtain rfl | hw := List.mem_cons.mp hw
      · exact hread.values w (.head _)
      · exact hws.values w hw
    refine ⟨v :: ws, ⟨by simp [hws.length_eq], hvalues, ?_⟩, ?_⟩
    · rw [fill_cons, hws.fill_eq]
      exact hread.fill_eq
    intro others hothers hearlier
    cases others with
    | nil => exact hearlier
    | cons w others =>
    obtain hlt | ⟨heq, hearlier⟩ := hearlier
    · exact Nat.find_min hlengths (hv ▸ hlt) ⟨w, others, rfl, hothers⟩
    have hfill := hothers.fill_eq.trans hread.fill_eq.symm
    simp only [fill_cons, List.append_assoc] at hfill
    obtain ⟨rfl, -⟩ := List.append_inj hfill heq
    have hothers' : Reading ok (gap :: gaps) (w ++ gap ++ fill gaps us) (w :: others) :=
      ⟨hothers.length_eq, hothers.values, hothers.fill_eq.trans hread.fill_eq.symm⟩
    exact hleast others hothers'.tail hearlier

/-- With a character in every gap that the values do not have, no reading is earlier. -/
theorem not_earlier_of_separators {seg : α → Prop} (hv : Reading seg gaps text vs)
    (hw : Reading ok gaps text ws) (hsep : ∀ gap ∈ gaps.dropLast, ∃ c ∈ gap, ¬ seg c) :
    ¬ Earlier ws vs := by
  induction gaps generalizing text vs ws with
  | nil =>
    rw [List.length_eq_zero_iff.mp hv.length_eq.symm, List.length_eq_zero_iff.mp hw.length_eq.symm]
    exact id
  | cons gap gaps ih =>
    cases vs with
    | nil => cases hv.length_eq
    | cons v vs =>
    cases ws with
    | nil => cases hw.length_eq
    | cons w ws =>
    have hfill := hv.fill_eq.trans hw.fill_eq.symm
    rintro (hlt | ⟨heq, hearlier⟩)
    · cases gaps with
      | nil =>
        simp only [fill_cons, fill_nil, List.append_nil] at hfill
        have hlen := congrArg List.length (List.append_cancel_right hfill)
        omega
      | cons next gaps =>
        simp only [fill_cons gap] at hfill
        obtain ⟨x, hx, -, hok, hover⟩ :=
          overlap_of_shorter hlt (hv.values v (.head _)).2 hfill
        obtain ⟨c, hc, hbad⟩ := hsep gap (by simp)
        exact hbad (ok_of_overlap hx hok hover c hc)
    · simp only [fill_cons, List.append_assoc] at hfill
      obtain ⟨hvw, -⟩ := List.append_inj hfill heq.symm
      subst hvw
      have hv' : Reading seg (gap :: gaps) (v ++ gap ++ fill gaps vs) (v :: vs) :=
        ⟨hv.length_eq, hv.values, rfl⟩
      have hw' : Reading ok (gap :: gaps) (v ++ gap ++ fill gaps vs) (v :: ws) :=
        ⟨hw.length_eq, hw.values, hw.fill_eq.trans hv.fill_eq.symm⟩
      refine ih hv'.tail hw'.tail (fun g hg => hsep g ?_) hearlier
      cases gaps with
      | nil => cases hg
      | cons next gaps => exact .tail _ hg

end Svidlet.Lib
