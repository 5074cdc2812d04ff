import Svidlet.Lib.RegexText

/-!
# Anchoring the text of a regular expression

A pattern `p` is often made to match whole texts by writing `^p$`. This file says what that
comes to, for every text `p` that is a regular expression on its own:

> `parse_anchored`        — how `^p$` is read, given how `p` is read;
> `Parsed.anchored_holds` — what it then matches: the first alternative of `p` at the start of a
>                           text, the last at its end, the others anywhere.

Section 1 is about a `^` or a `$` that `p` already has: reading on never takes one away, and a dollar
sign that ends a text is an anchor unless it is escaped or in a comment.
-/

namespace Svidlet.Lib

namespace Re

/-! ## 1. The ends in a text -/

def Frame.usesEnds (f : Frame) : Bool :=
  f.items.any Re.usesEnds || f.before.any fun items => items.any Re.usesEnds

def State.usesEnds (s : State) : Bool :=
  s.frame.usesEnds || s.stack.any fun outer => outer.1.usesEnds

theorem seqThen_usesEnds (last : Re) (items : List Re) :
    (seqThen last items).usesEnds = (last.usesEnds || items.any Re.usesEnds) := by
  induction items generalizing last with
  | nil => simp [seqThen]
  | cons item items ih =>
    show (seqThen (.seq item last) items).usesEnds = _
    rw [ih]
    simp only [Re.usesEnds, List.any_cons]
    ac_rfl

theorem Frame.re_usesEnds (f : Frame) : f.re.usesEnds = f.usesEnds := by
  have hfold : ∀ (before : List (List Re)) (r : Re),
      (before.foldl (fun r items => .alt (seqOf items) r) r).usesEnds =
        (r.usesEnds || before.any fun items => items.any Re.usesEnds) := by
    intro before
    induction before with
    | nil => simp
    | cons items before ih =>
      intro r
      rw [List.foldl_cons, ih]
      simp only [Re.usesEnds, seqOf, seqThen_usesEnds, List.any_cons, Bool.false_or]
      ac_rfl
  rw [Frame.re, hfold, seqOf, seqThen_usesEnds]
  rfl

variable {s s' : State}

/-- Reading on never takes a `^` or a `$` away. -/
theorem act_usesEnds {a : Action} (h : act s a = some s') (hs : s.usesEnds = true) :
    s'.usesEnds = true := by
  cases a with
  | item r =>
    cases h
    simp only [State.usesEnds, Frame.usesEnds, Frame.push, List.any_cons, Bool.or_eq_true] at hs ⊢
    tauto
  | times least most =>
    cases hitems : s.frame.items with
    | nil => simp [act, hitems] at h
    | cons r items =>
      simp only [act, hitems, Option.some.injEq] at h
      subst h
      simpa [State.usesEnds, Frame.usesEnds, hitems, Re.usesEnds] using hs
  | bar =>
    cases h
    simpa [State.usesEnds, Frame.usesEnds] using hs
  | openGroup =>
    cases h
    simpa [State.usesEnds, Frame.usesEnds] using hs
  | closeGroup =>
    cases hstack : s.stack with
    | nil => simp [act, hstack] at h
    | cons outer stack =>
      simp only [act, hstack, Option.some.injEq] at h
      subst h
      simp only [State.usesEnds, hstack, List.any_cons, Bool.or_eq_true] at hs
      have hre := s.frame.re_usesEnds
      simp only [State.usesEnds, Frame.usesEnds, Frame.push, List.any_cons, Bool.or_eq_true, hre]
        at hs ⊢
      tauto
  | setFlags flags =>
    cases h
    exact hs

theorem acts_usesEnds {as : List Action} (h : as.foldlM act s = some s') (hs : s.usesEnds = true) :
    s'.usesEnds = true := by
  induction as generalizing s with
  | nil =>
    cases h
    exact hs
  | cons a as ih =>
    obtain ⟨s1, h1, h2⟩ := Option.bind_eq_some_iff.mp h
    exact ih h2 (act_usesEnds h1 hs)

variable {c : Char}

theorem step_usesEnds (h : step s c = some s') (hs : s.usesEnds = true) : s'.usesEnds = true := by
  obtain ⟨-, rfl⟩ | ⟨-, -, _, rfl⟩ | ⟨out, s1, -, hacts, rfl⟩ := step_cases h
  · exact hs
  · exact hs
  · have h1 := acts_usesEnds hacts hs
    exact h1

variable {text : List Char}

theorem run_usesEnds (h : run s text = some s') (hs : s.usesEnds = true) : s'.usesEnds = true := by
  induction text generalizing s with
  | nil =>
    cases h
    exact hs
  | cons c text ih =>
    obtain ⟨s1, h1, h2⟩ := Option.bind_eq_some_iff.mp h
    exact ih h2 (step_usesEnds h1 hs)

/-- Only a bracket closes a class. -/
theorem Bracket.step_closed {b b' : Bracket} (h : b.step c = some (.inr b')) : c = ']' := by
  have hbegin : ∀ {b : Bracket}, b.begin c = some (.inr b') → c = ']' := by
    intro b hb
    unfold Bracket.begin at hb
    split at hb <;> first | rfl | cases hb
  have hleading : ∀ {b : Bracket}, b.leading c = some (.inr b') → c = ']' := by
    intro b hb
    unfold Bracket.leading at hb
    split at hb
    · cases hb
    · rfl
    · exact hbegin hb
  have hrange : ∀ {l u : Char}, b.range l u ≠ some (.inr b') := by
    intro l u hb
    unfold Bracket.range at hb
    split at hb <;> cases hb
  unfold Bracket.step at h
  split at h
  · split at h
    · cases h
    · exact hleading h
  · exact hleading h
  · exact hbegin h
  · split at h
    · cases h
    · exact hbegin h
  · split at h
    · assumption
    · cases h
  · split at h
    · cases h
    · split at h
      · cases h
      · exact hbegin h
  · split at h
    · assumption
    split at h
    · cases h
    · split at h
      · cases h
      · exact absurd h hrange
  · split at h <;> first | cases h | exact absurd h hrange
  · split at h
    · assumption
    · cases h

theorem Esc.digit_not_fresh {left value : Nat} : Esc.digit left value c ≠ some (.inl .fresh) := by
  intro h
  obtain ⟨d, -, hd⟩ := Option.bind_eq_some_iff.mp h
  split at hd
  · obtain ⟨_, -, hc⟩ := Option.bind_eq_some_iff.mp hd
    cases hc
  · cases hd

theorem Esc.step_not_fresh {e : Esc} : e.step c ≠ some (.inl .fresh) := by
  intro h
  unfold Esc.step at h
  split at h
  case h_4 => simp at h
  case h_6 => exact Esc.digit_not_fresh h
  case h_7 => exact Esc.digit_not_fresh h
  case h_8 => simp at h
  case h_9 => simp at h
  all_goals cases h

/-- Only a backslash begins an escape. -/
theorem lex_fresh {flags : Flags} {mode : Mode} {as : List Action}
    (h : lex flags mode c = some (as, .esc .fresh)) : c = '\\' := by
  have hplain : (lexPlain flags c).2 = .esc .fresh → c = '\\' := by
    intro hm
    unfold lexPlain at hm
    split at hm <;> first | rfl | cases hm
  have hflag : ∀ {flags : Flags} {negate fresh : Bool},
      lexFlag flags negate fresh c ≠ some (as, .esc .fresh) := by
    intro flags negate fresh hf
    unfold lexFlag at hf
    split at hf
    case h_4 => simp at hf
    all_goals split at hf <;> cases hf
  cases mode with
  | plain => exact hplain (congrArg Prod.snd (Option.some.inj h))
  | lazy =>
    simp only [lex] at h
    split at h
    · cases h
    · exact hplain (congrArg Prod.snd (Option.some.inj h))
  | esc e =>
    obtain ⟨x, hx, heq⟩ := Option.map_eq_some_iff.mp h
    cases x with
    | inl e' =>
      cases heq
      exact absurd hx Esc.step_not_fresh
    | inr x => cases heq
  | counted text =>
    simp only [lex] at h
    split at h
    · simp at h
    · cases h
  | opened =>
    simp only [lex] at h
    split at h
    · cases h
    · exact hplain (congrArg Prod.snd (Option.some.inj h))
  | question =>
    simp only [lex] at h
    split at h
    · cases h
    split at h
    · cases h
    · split at h
      · cases h
      · exact absurd h hflag
  | pname =>
    simp only [lex] at h
    split at h <;> cases h
  | named =>
    simp only [lex] at h
    split at h <;> cases h
  | flagging flags negate fresh => exact absurd h hflag
  | bracket b =>
    obtain ⟨x, -, heq⟩ := Option.map_eq_some_iff.mp h
    cases x <;> cases heq

/-- Inside an escape just begun, the last character was its backslash; comments are elsewhere. -/
theorem run_fresh (h : run {} text = some s) :
    s.mode = .esc .fresh → text.getLast? = some '\\' ∧ s.comment = false := by
  induction text using List.reverseRecOn generalizing s with
  | nil =>
    cases h
    intro hm
    cases hm
  | append_singleton text c ih =>
    rw [run_append] at h
    obtain ⟨s0, h0, hstep⟩ := Option.bind_eq_some_iff.mp h
    obtain ⟨s1, hs1, hnil⟩ := Option.bind_eq_some_iff.mp hstep
    cases hnil
    intro hm
    obtain ⟨hcomment, rfl⟩ | ⟨hskips, -, _, rfl⟩ | ⟨out, s2, hlex, hacts, rfl⟩ := step_cases hs1
    · -- a comment is never inside an escape
      have hout := (ih h0 hm).2
      rw [hcomment] at hout
      cases hout
    · have hsettled : s0.mode.settled = .esc .fresh := hm
      cases hmode : s0.mode with
      | esc e => simp [hmode, Mode.skips] at hskips
      | _ => simp [hmode, Mode.settled] at hsettled
    · have hfresh : lex s0.flags s0.mode c = some (out.1, .esc .fresh) := by
        rw [hlex, ← hm]
        rfl
      exact ⟨by simp [lex_fresh hfresh], rfl⟩

/-- A dollar sign that ends a text is an anchor, is in a comment, or stands behind a backslash. -/
theorem step_dollar (h : step s '$' = some s') (hdone : s'.done = true) :
    s'.comment = true ∨ s'.usesEnds = true ∨ s.mode = .esc .fresh := by
  simp only [State.done, Bool.and_eq_true, Bool.or_eq_true, decide_eq_true_eq,
    List.isEmpty_iff] at hdone
  obtain ⟨hstack, hmode⟩ := hdone
  obtain ⟨-, rfl⟩ | ⟨-, hblank, -⟩ | ⟨out, s1, hlex, hacts, rfl⟩ := step_cases h
  · exact .inl (by simp [State.place])
  · exact absurd hblank (by decide)
  -- the modes in which the text could end here
  have hends : out.1.foldlM act s = (act s (.item .finish)).bind some →
      (s1.place out.2 false).usesEnds = true := by
    intro hitem
    cases hacts.symm.trans hitem
    rfl
  cases hm : s.mode with
  | plain =>
    rw [hm] at hlex
    cases hlex
    exact .inr (.inl (hends rfl))
  | lazy =>
    rw [hm] at hlex
    cases hlex
    exact .inr (.inl (hends rfl))
  | esc e =>
    cases e with
    | fresh => exact .inr (.inr rfl)
    | hex width => simp [hm, lex, Esc.step, Esc.digit, hexDigit] at hlex
    | digits left value => simp [hm, lex, Esc.step, Esc.digit, hexDigit] at hlex
    | braced value => cases value <;> simp [hm, lex, Esc.step, hexDigit] at hlex
  | counted text =>
    rw [hm] at hlex
    cases hlex
    simp [State.place] at hmode
  | opened =>
    rw [hm] at hlex
    cases hlex
    cases hacts
    cases hstack
  | question => simp [hm, lex, lexFlag, Flags.put] at hlex
  | pname => simp [hm, lex] at hlex
  | named =>
    rw [hm] at hlex
    cases hlex
    simp [State.place] at hmode
  | flagging flags negate fresh => simp [hm, lex, lexFlag, Flags.put] at hlex
  | bracket b =>
    rw [hm] at hlex
    obtain ⟨x, hx, rfl⟩ := Option.map_eq_some_iff.mp hlex
    cases x with
    | inl b' => simp [State.place] at hmode
    | inr b' => exact absurd (Bracket.step_closed hx) (by decide)

/-! ## 2. Anchoring a text -/

theorem State.done_usesEnds (hdone : s.done = true) : s.frame.re.usesEnds = s.usesEnds := by
  simp only [State.done, Bool.and_eq_true, List.isEmpty_iff] at hdone
  simp [State.usesEnds, hdone.1, Frame.re_usesEnds]

theorem parse_of_run (h : run {} text = some s) (hdone : s.done = true) :
    parse text = some ⟨s.frame, s.comment⟩ := by
  simp [parse, h, hdone]

variable {p : Parsed}

/-- With `^` in front, the first alternative begins with it. -/
theorem parse_caret (h : parse text = some p) :
    parse ('^' :: text) = some { p with frame := p.frame.lead .start } := by
  obtain ⟨s, hrun, hdone, rfl⟩ := parse_some h
  have hstack : s.stack = [] := by
    simp only [State.done, Bool.and_eq_true, List.isEmpty_iff] at hdone
    exact hdone.1
  have hlead : run {} ('^' :: text) = some (s.lead .start) := run_lead .start hrun
  have hs : s.lead .start = { s with frame := s.frame.lead .start } := by simp [State.lead, hstack]
  rw [hs] at hlead
  exact parse_of_run hlead hdone

/-- With `$` behind, the last alternative ends with it, unless a comment swallows it. -/
theorem parse_dollar (h : parse text = some p) : parse (text ++ ['$']) =
      some { p with frame := if p.comment then p.frame else p.frame.push .finish } := by
  obtain ⟨s, hrun, hdone, rfl⟩ := parse_some h
  have hmode : s.mode = .plain ∨ s.mode = .lazy := by
    simp only [State.done, Bool.and_eq_true, Bool.or_eq_true, decide_eq_true_eq] at hdone
    exact hdone.2
  have hlex : lex s.flags s.mode '$' = some ([.item .finish], .plain) := by
    obtain hm | hm := hmode <;> rw [hm] <;> rfl
  have hblank : ClassItem.space.has '$' = false := by decide
  cases hcomment : s.comment with
  | true =>
    have hstep : step s '$' = some s := by
      simp only [step, hcomment, if_true, Option.some.injEq]
      rw [show (decide ('$' ≠ '\n')) = s.comment by rw [hcomment]; rfl]
      rfl
    have hrun' : run {} (text ++ ['$']) = some s := by
      rw [run_append, hrun]
      exact congrArg (Option.bind · _) hstep
    have hp := parse_of_run hrun' hdone
    rw [hcomment] at hp
    exact hp
  | false =>
    have hstep : step s '$' = some { s with frame := s.frame.push .finish, mode := .plain } := by
      simp [step, hcomment, hblank, hlex, act, State.place]
    have hrun' : run {} (text ++ ['$']) =
        some { s with frame := s.frame.push .finish, mode := .plain } := by
      rw [run_append, hrun]
      exact congrArg (Option.bind · _) hstep
    have hdone' : State.done { s with frame := s.frame.push .finish, mode := .plain } = true := by
      simp only [State.done, Bool.and_eq_true] at hdone
      simp [State.done, hdone.1]
    have hp := parse_of_run hrun' hdone'
    rw [hcomment] at hp
    exact hp

theorem usesEnds_of_caret (h : parse ('^' :: text) = some p) : p.re.usesEnds = true := by
  obtain ⟨s, hrun, hdone, rfl⟩ := parse_some h
  have hs : s.usesEnds = true := run_usesEnds (s := State.lead .start {}) hrun rfl
  exact (State.done_usesEnds hdone).trans hs

theorem comment_of_dollar (h : parse (text ++ ['$']) = some p) (hends : p.re.usesEnds = false)
    (hback : text.getLast? ≠ some '\\') : p.comment = true := by
  obtain ⟨s, hrun, hdone, rfl⟩ := parse_some h
  rw [run_append] at hrun
  obtain ⟨s0, h0, hstep⟩ := Option.bind_eq_some_iff.mp hrun
  obtain ⟨s1, hs1, hnil⟩ := Option.bind_eq_some_iff.mp hstep
  cases hnil
  obtain hcomment | hs | hmode := step_dollar hs1 hdone
  · exact hcomment
  · cases hends.symm.trans ((State.done_usesEnds hdone).trans hs)
  · exact absurd (run_fresh h0 hmode).1 hback

/-! ## 3. What an anchored text matches

Anchors bind tighter than alternation: `^` belongs to the first alternative only, `$` to the last. -/

/-- What the reading of a text becomes with `^` in front and `$` behind. -/
def Parsed.anchored (p : Parsed) : Parsed :=
  { p with frame :=
      if p.comment then p.frame.lead .start else (p.frame.lead .start).push .finish }

theorem parse_anchored (h : parse text = some p) : parse ('^' :: text ++ ['$']) = some p.anchored :=
  parse_dollar (parse_caret h)

/-- An alternative, and the ends of the text it is tied to. -/
structure Bound where
  re : Re
  atStart : Bool
  atEnd : Bool
  deriving DecidableEq, Repr

/-- The part of a text that an alternative matches there. -/
def Bound.On (b : Bound) (left middle right : List Char) : Prop :=
  b.re.Holds left middle right ∧ (b.atStart = true → left = []) ∧ (b.atEnd = true → right = [])

/-- The alternatives before the last: the oldest is tied to the start. -/
def boundsBefore : List (List Re) → List Bound
  | [] => []
  | [oldest] => [⟨seqOf oldest, true, false⟩]
  | items :: before => ⟨seqOf items, false, false⟩ :: boundsBefore before

/-- The alternatives of a text once it is anchored, newest first. -/
def Parsed.bounds (p : Parsed) : List Bound :=
  ⟨seqOf p.frame.items, p.frame.before.isEmpty, !p.comment⟩ :: boundsBefore p.frame.before

theorem holds_seqThen (last : Re) (items : List Re) (left middle right : List Char) :
    (seqThen last items).Holds left middle right ↔
      ∃ u v, middle = u ++ v ∧ (seqOf items).Holds left u (v ++ right) ∧
        last.Holds (left ++ u) v right := by
  induction items generalizing last left middle right with
  | nil =>
    constructor
    · intro h
      exact ⟨[], middle, rfl, rfl, by simpa [seqThen] using h⟩
    · intro h
      obtain ⟨u, v, rfl, hu, hv⟩ := h
      cases hu
      simpa [seqThen] using hv
  | cons item items ih =>
    have hcons : ∀ last, seqThen last (item :: items) = seqThen (.seq item last) items :=
      fun _ => rfl
    rw [seqOf, hcons, hcons, ih]
    constructor
    · intro h
      obtain ⟨u, w, rfl, hu, v, x, rfl, hv, hx⟩ := h
      refine ⟨u ++ v, x, by simp, ?_, by simpa using hx⟩
      exact (ih _ _ _ _).mpr ⟨u, v, rfl, by simpa using hu, v, [], by simp, by simpa using hv, rfl⟩
    · intro h
      obtain ⟨w, x, rfl, hw, hx⟩ := h
      obtain ⟨u, v, rfl, hu, y, z, rfl, hy, hz⟩ := (ih _ _ _ _).mp hw
      cases hz
      exact ⟨u, y ++ x, by simp, by simpa using hu, y, x, rfl, by simpa using hy, by simpa using hx⟩

theorem holds_alternatives (before : List (List Re)) (r : Re) (left middle right : List Char) :
    (before.foldl (fun r items => Re.alt (seqOf items) r) r).Holds left middle right ↔
      r.Holds left middle right ∨ ∃ items ∈ before, (seqOf items).Holds left middle right := by
  induction before generalizing r with
  | nil => simp
  | cons items before ih =>
    rw [List.foldl_cons, ih]
    simp only [Re.Holds, List.mem_cons, exists_eq_or_imp]
    tauto

/-- An item in front that is the start of the text. -/
theorem holds_start (items : List Re) (left middle right : List Char) :
    (seqOf (items ++ [.start])).Holds left middle right ↔
      (seqOf items).Holds left middle right ∧ left = [] := by
  have hseq : seqOf (items ++ [.start]) = .seq .start (seqOf items) := by
    simp [seqOf, seqThen, List.foldl_append]
  rw [hseq]
  constructor
  · intro h
    obtain ⟨u, v, rfl, ⟨rfl, rfl⟩, hv⟩ := h
    exact ⟨hv, rfl⟩
  · intro h
    obtain ⟨hitems, rfl⟩ := h
    exact ⟨[], middle, rfl, ⟨rfl, rfl⟩, hitems⟩

/-- An item behind that is the end of the text. -/
theorem holds_finish (items : List Re) (left middle right : List Char) :
    (seqOf (.finish :: items)).Holds left middle right ↔
      (seqOf items).Holds left middle right ∧ right = [] := by
  show (seqThen (.seq .finish .empty) items).Holds left middle right ↔ _
  rw [holds_seqThen]
  constructor
  · intro h
    obtain ⟨u, v, rfl, hu, y, z, rfl, ⟨rfl, hz⟩, rfl⟩ := h
    cases hz
    exact ⟨by simpa using hu, rfl⟩
  · intro h
    obtain ⟨hitems, rfl⟩ := h
    exact ⟨middle, [], by simp, by simpa using hitems, [], [], rfl, ⟨rfl, rfl⟩, rfl⟩

theorem boundsBefore_on {before : List (List Re)} (hne : before ≠ [])
    (left middle right : List Char) :
    (∃ items ∈ before.modifyLast (· ++ [.start]), (seqOf items).Holds left middle right) ↔
      ∃ b ∈ boundsBefore before, b.On left middle right := by
  induction before with
  | nil => exact absurd rfl hne
  | cons items before ih =>
    cases before with
    | nil => simp [boundsBefore, Bound.On, holds_start]
    | cons next before =>
      rw [modifyLast_cons _ _ (List.cons_ne_nil _ _)]
      simp only [boundsBefore, List.mem_cons, exists_eq_or_imp]
      rw [← List.cons_ne_nil next before |> ih]
      simp [Bound.On]

theorem boundsBefore_re (before : List (List Re)) :
    (boundsBefore before).map Bound.re = before.map seqOf := by
  induction before with
  | nil => rfl
  | cons items before ih =>
    cases before with
    | nil => rfl
    | cons next before =>
      show seqOf items :: (boundsBefore (next :: before)).map Bound.re = _
      rw [ih]
      rfl

/-- Without its anchors, each alternative matches wherever it does. -/
theorem Parsed.re_holds (p : Parsed) (left middle right : List Char) :
    p.re.Holds left middle right ↔ ∃ b ∈ p.bounds, b.re.Holds left middle right := by
  have hre : (∃ items ∈ p.frame.before, (seqOf items).Holds left middle right) ↔
      ∃ b ∈ boundsBefore p.frame.before, b.re.Holds left middle right := by
    have hsame := congrArg (fun rs => ∃ r ∈ rs, Re.Holds r left middle right)
      (boundsBefore_re p.frame.before)
    simp only [List.mem_map, exists_exists_and_eq_and] at hsame
    exact (iff_of_eq hsame).symm
  rw [Parsed.re, Frame.re, holds_alternatives, hre]
  simp [Parsed.bounds]

/-- With them, each alternative matches where its own anchors let it. -/
theorem Parsed.anchored_holds (p : Parsed) (left middle right : List Char) :
    p.anchored.re.Holds left middle right ↔ ∃ b ∈ p.bounds, b.On left middle right := by
  have hlast : ∀ items, (seqOf (if p.comment then items else .finish :: items)).Holds
      left middle right ↔ (seqOf items).Holds left middle right ∧
        ((!p.comment) = true → right = []) := by
    intro items
    cases p.comment with
    | true => simp
    | false => simp [holds_finish]
  have hanchored : p.anchored.frame = { p.frame.lead .start with
      items := if p.comment then (p.frame.lead .start).items
        else .finish :: (p.frame.lead .start).items } := by
    unfold Parsed.anchored
    cases p.comment <;> rfl
  rw [Parsed.re, Frame.re, hanchored, holds_alternatives, hlast]
  by_cases hb : p.frame.before = []
  · simp only [Frame.lead, hb, if_true, List.not_mem_nil, false_and, exists_false, or_false,
      holds_start, Parsed.bounds, boundsBefore, List.mem_singleton, exists_eq_left, Bound.On,
      List.isEmpty_nil]
    tauto
  have hempty : p.frame.before.isEmpty = false := by simpa using hb
  simp only [Frame.lead, hb, if_false, Parsed.bounds, List.mem_cons, exists_eq_or_imp, Bound.On,
    hempty]
  rw [boundsBefore_on hb]
  simp [Bound.On]

end Re

end Svidlet.Lib
