import Svidlet.Lib.Regex
import Svidlet.Lib.Text

/-!
# Reading a regular expression

The usual syntax, read from left to right by a machine that keeps the groups still open. What one
character means depends on the mode and the flags alone, so reading is cut in two:

> `lex`  — a character, in a mode and under flags, becomes a list of **actions** and a new mode;
> `act`  — an action changes the frames: the alternatives, item by item, of each open group.

An action works at the newest end of the newest group only. Whatever was put at the oldest end is
therefore carried along unchanged, which is what text in front of a pattern relies on.

Read are literals, `.`, classes, escapes, groups with or without names, alternation, the repetition
operators with their lazy forms, `^`, `$`, `\A`, `\z`, word boundaries, and the flags `i`, `s`, `U`
and `x`. The flags `m` and `R`, under which `^` and `$` are not the ends of the text, are not.
-/

namespace Svidlet.Lib

namespace Re

/-! ## 1. Escapes -/

/-- What an escape stands for. -/
inductive Escaped where
  | lit (c : Char)
  | cls (item : ClassItem)
  | look (r : Re)
  deriving DecidableEq, Repr

def escaped : Char → Option Escaped
  | 'd' => some (.cls .digit)
  | 'D' => some (.cls ClassItem.digit.negate)
  | 's' => some (.cls .space)
  | 'S' => some (.cls ClassItem.space.negate)
  | 'w' => some (.cls .word)
  | 'W' => some (.cls ClassItem.word.negate)
  | 'a' => some (.lit '\x07')
  | 'f' => some (.lit '\x0c')
  | 't' => some (.lit '\t')
  | 'n' => some (.lit '\n')
  | 'r' => some (.lit '\r')
  | 'v' => some (.lit '\x0b')
  | 'A' => some (.look .start)
  | 'z' => some (.look .finish)
  | 'b' => some (.look (.boundary false))
  | 'B' => some (.look (.boundary true))
  | c => if c.isAlphanum || c = '<' || c = '>' || 128 ≤ c.toNat then none else some (.lit c)

def hexDigit (c : Char) : Option Nat :=
  if c.isDigit then some (c.toNat - 48)
  else if 'a' ≤ c && c ≤ 'f' then some (c.toNat - 87)
  else if 'A' ≤ c && c ≤ 'F' then some (c.toNat - 55)
  else none

def charOf (n : Nat) : Option Char :=
  if n.isValidChar then some (Char.ofNat n) else none

/-- How far an escape is read: nothing yet, a `\x` of some width, its digits, or its braces. -/
inductive Esc where
  | fresh
  | hex (width : Nat)
  | digits (left value : Nat)
  | braced (value : Option Nat)
  deriving DecidableEq, Repr

def Esc.digit (left value : Nat) (c : Char) : Option (Esc ⊕ Escaped) := do
  let value := 16 * value + (← hexDigit c)
  if left ≤ 1 then return .inr (.lit (← charOf value)) else return .inl (.digits (left - 1) value)

def Esc.step : Esc → Char → Option (Esc ⊕ Escaped)
  | .fresh, 'x' => some (.inl (.hex 2))
  | .fresh, 'u' => some (.inl (.hex 4))
  | .fresh, 'U' => some (.inl (.hex 8))
  | .fresh, c => (escaped c).map .inr
  | .hex _, '{' => some (.inl (.braced none))
  | .hex width, c => Esc.digit width 0 c
  | .digits left value, c => Esc.digit left value c
  | .braced (some value), '}' => (charOf value).map fun c => .inr (.lit c)
  | .braced value, c => (hexDigit c).map fun d => .inl (.braced (some (16 * value.getD 0 + d)))

/-! ## 2. Classes -/

def posix : List (String × List (Char × Char)) :=
  [("alnum", [('0', '9'), ('A', 'Z'), ('a', 'z')]), ("alpha", [('A', 'Z'), ('a', 'z')]),
   ("ascii", [('\x00', '\x7f')]), ("blank", [('\t', '\t'), (' ', ' ')]),
   ("cntrl", [('\x00', '\x1f'), ('\x7f', '\x7f')]), ("digit", [('0', '9')]),
   ("graph", [('!', '~')]), ("lower", [('a', 'z')]), ("print", [(' ', '~')]),
   ("punct", [('!', '/'), (':', '@'), ('[', '\x60'), ('\x7b', '~')]),
   ("space", [('\t', '\r'), (' ', ' ')]), ("upper", [('A', 'Z')]),
   ("word", [('0', '9'), ('A', 'Z'), ('_', '_'), ('a', 'z')]),
   ("xdigit", [('0', '9'), ('A', 'F'), ('a', 'f')])]

/-- What stands between `[` and `]` inside a class, as in `[:alpha:]`. -/
def posixItem (name : List Char) : Option ClassItem := posix.findSome? fun entry =>
    if name = (":" ++ entry.1 ++ ":").toList then some ⟨entry.2, false⟩
    else if name = (":^" ++ entry.1 ++ ":").toList then some ⟨entry.2, true⟩
    else none

/-- Where in a class the reading is. `single` has a character that may yet begin a range, `bare` if
    it was not escaped; `dash` has such a character and the dash after it. -/
inductive ClassPos where
  | opening | first | between | named | namedDash
  | single (c : Char) (bare : Bool)
  | dash (c : Char)
  | esc (lower : Option Char) (e : Esc)
  | posix (name : List Char)
  deriving DecidableEq, Repr

structure Bracket where
  negated : Bool
  items : List ClassItem
  pos : ClassPos
  deriving DecidableEq, Repr

namespace Bracket

def add (b : Bracket) (item : ClassItem) (pos : ClassPos) : Bracket :=
  { b with items := item :: b.items, pos }

def range (b : Bracket) (lower upper : Char) : Option (Bracket ⊕ Bracket) :=
  if lower ≤ upper then some (.inl (b.add ⟨[(lower, upper)], false⟩ .between)) else none

/-- A character where a member of the class may begin. On the right, the class is closed. -/
def begin (b : Bracket) : Char → Option (Bracket ⊕ Bracket)
  | ']' => some (.inr b)
  | '[' => some (.inl { b with pos := .posix [] })
  | '\\' => some (.inl { b with pos := .esc none .fresh })
  | c => some (.inl { b with pos := .single c true })

def leading (b : Bracket) : Char → Option (Bracket ⊕ Bracket)
  | '-' => some (.inl (b.add (.one '-') .first))
  | ']' => if b.items = [] then some (.inl (b.add (.one ']') .between)) else some (.inr b)
  | c => b.begin c

def step (b : Bracket) (c : Char) : Option (Bracket ⊕ Bracket) :=
  match b.pos with
  | .opening => if c = '^' then some (.inl { b with negated := true, pos := .first }) else b.leading c
  | .first => b.leading c
  | .between => b.begin c
  | .named => if c = '-' then some (.inl { b with pos := .namedDash }) else b.begin c
  | .namedDash => if c = ']' then some (.inr (b.add (.one '-') .between)) else none
  | .single l bare =>
    -- `&&`, `--` and `~~` are set operations, which are not supported
    if bare && c = l && (l = '&' || l = '-' || l = '~') then none
    else if c = '-' then some (.inl { b with pos := .dash l })
    else (b.add (.one l) .between).begin c
  | .dash l =>
    if c = ']' then some (.inr ((b.add (.one l) .between).add (.one '-') .between))
    else if c = '-' then none
    else if c = '\\' then some (.inl { b with pos := .esc (some l) .fresh })
    else b.range l c
  | .esc lower e =>
    match e.step c, lower with
    | none, _ => none
    | some (.inl e), _ => some (.inl { b with pos := .esc lower e })
    | some (.inr (.lit l)), none => some (.inl { b with pos := .single l false })
    | some (.inr (.lit u)), some l => b.range l u
    | some (.inr (.cls item)), none => some (.inl (b.add item .named))
    | some (.inr _), _ => none
  | .posix name =>
    if c = ']' then (posixItem name.reverse).map fun item => .inl (b.add item .between)
    else some (.inl { b with pos := .posix (c :: name) })

end Bracket

/-! ## 3. From characters to actions -/

structure Flags where
  ignoreCase : Bool := false
  dotAll : Bool := false
  verbose : Bool := false
  deriving DecidableEq, Repr

/-- What reading does to the frames. -/
inductive Action where
  | item (r : Re)
  | times (least : Nat) (most : Option Nat)
  | bar
  | openGroup
  | closeGroup
  | setFlags (flags : Flags)
  deriving DecidableEq, Repr

inductive Mode where
  | plain
  | lazy
  | esc (e : Esc)
  | counted (text : List Char)
  | opened
  | question
  | pname
  | named
  | flagging (flags : Flags) (negate fresh : Bool)
  | bracket (b : Bracket)
  deriving DecidableEq, Repr

namespace Flags

def char (flags : Flags) (c : Char) : Re := .set ⟨[.one c], false, flags.ignoreCase⟩

def dot (flags : Flags) : Re := .set ⟨if flags.dotAll then [] else [.one '\n'], true, false⟩

def cls (flags : Flags) (b : Bracket) : Re := .set ⟨b.items, b.negated, flags.ignoreCase⟩

def escape (flags : Flags) : Escaped → Re
  | .lit c => flags.char c
  | .cls item => .set ⟨[item], false, flags.ignoreCase⟩
  | .look r => r

/-- `U` swaps greedy and lazy, which does not change what is found. -/
def put (flags : Flags) (on : Bool) : Char → Option Flags
  | 'i' => some { flags with ignoreCase := on }
  | 's' => some { flags with dotAll := on }
  | 'x' => some { flags with verbose := on }
  | 'U' => some flags
  | _ => none

end Flags

def decimal (text : List Char) : Option Nat :=
  if text ≠ [] ∧ text.all Char.isDigit then
    some (text.foldl (fun n c => 10 * n + (c.toNat - 48)) 0)
  else none

/-- `n`, `n,` or `n,m`. -/
def countOf (text : List Char) : Option (Nat × Option Nat) :=
  match splitOnce ',' text with
  | none => (decimal text).map fun n => (n, some n)
  | some (least, []) => (decimal least).map fun n => (n, none)
  | some (least, most) => do
    let n ← decimal least
    let m ← decimal most
    if n ≤ m then some (n, some m) else none

def lexPlain (flags : Flags) : Char → List Action × Mode
  | '(' => ([], .opened)
  | ')' => ([.closeGroup], .plain)
  | '|' => ([.bar], .plain)
  | '[' => ([], .bracket ⟨false, [], .opening⟩)
  | '*' => ([.times 0 none], .lazy)
  | '+' => ([.times 1 none], .lazy)
  | '?' => ([.times 0 (some 1)], .lazy)
  | '{' => ([], .counted [])
  | '\\' => ([], .esc .fresh)
  | '^' => ([.item .start], .plain)
  | '$' => ([.item .finish], .plain)
  | '.' => ([.item flags.dot], .plain)
  | c => ([.item (flags.char c)], .plain)

def lexFlag (flags : Flags) (negate fresh : Bool) : Char → Option (List Action × Mode)
  | ')' => if fresh then none else some ([.setFlags flags], .plain)
  | ':' => if fresh then none else some ([.openGroup, .setFlags flags], .plain)
  | '-' => if negate then none else some ([], .flagging flags true true)
  | c => (flags.put (!negate) c).map fun flags => ([], .flagging flags negate false)

def lex (flags : Flags) : Mode → Char → Option (List Action × Mode)
  | .plain, c => some (lexPlain flags c)
  -- a question mark right after a repetition makes it lazy
  | .lazy, c => if c = '?' then some ([], .plain) else some (lexPlain flags c)
  | .esc e, c => (e.step c).map fun
    | .inl e => ([], .esc e)
    | .inr x => ([.item (flags.escape x)], .plain)
  | .counted text, c =>
    if c = '}' then (countOf text.reverse).map fun n => ([.times n.1 n.2], .lazy)
    else some ([], .counted (c :: text))
  | .opened, c =>
    if c = '?' then some ([], .question)
    else some (.openGroup :: (lexPlain flags c).1, (lexPlain flags c).2)
  | .question, c =>
    if c = ':' then some ([.openGroup], .plain)
    else if c = 'P' then some ([], .pname)
    else if c = '<' then some ([], .named)
    else lexFlag flags false true c
  | .pname, c => if c = '<' then some ([], .named) else none
  | .named, c => if c = '>' then some ([.openGroup], .plain) else some ([], .named)
  | .flagging flags negate fresh, c => lexFlag flags negate fresh c
  | .bracket b, c => (b.step c).map fun
    | .inl b => ([], .bracket b)
    | .inr b => ([.item (flags.cls b)], .plain)

/-! ## 4. Frames -/

/-- The alternatives of an open group: the items of the one being read, and those before it. Newest
    first, everywhere. -/
structure Frame where
  items : List Re := []
  before : List (List Re) := []
  deriving DecidableEq, Repr

/-- The items one after the other, then `last`. -/
def seqThen (last : Re) (items : List Re) : Re := items.foldl (fun r item => .seq item r) last

def seqOf : List Re → Re := seqThen .empty

namespace Frame

def push (f : Frame) (r : Re) : Frame := { f with items := r :: f.items }

def re (f : Frame) : Re := f.before.foldl (fun r items => .alt (seqOf items) r) (seqOf f.items)

end Frame

structure State where
  frame : Frame := {}
  stack : List (Frame × Flags) := []
  flags : Flags := {}
  mode : Mode := .plain
  comment : Bool := false
  deriving DecidableEq, Repr

def act (s : State) : Action → Option State
  | .item r => some { s with frame := s.frame.push r }
  | .times least most =>
    match s.frame.items with
    | [] => none
    | r :: items => some { s with frame := { s.frame with items := .rep r least most :: items } }
  | .bar => some { s with frame := ⟨[], s.frame.items :: s.frame.before⟩ }
  | .openGroup => some { s with frame := {}, stack := (s.frame, s.flags) :: s.stack }
  | .closeGroup =>
    match s.stack with
    | [] => none
    | (outer, flags) :: stack => some { s with frame := outer.push s.frame.re, stack, flags }
  | .setFlags flags => some { s with flags }

/-- Whether white space and comments are skipped here in verbose mode. -/
def Mode.skips : Mode → Bool
  | .plain | .lazy | .counted _ => true
  | .bracket b =>
    match b.pos with
    | .esc _ _ | .posix _ => false
    | _ => true
  | _ => false

/-- After a blank, a question mark is a repetition of its own. -/
def Mode.settled : Mode → Mode
  | .lazy => .plain
  | mode => mode

def State.place (s : State) (mode : Mode) (comment : Bool) : State := { s with mode, comment }

def step (s : State) (c : Char) : Option State :=
  if s.comment then some (s.place s.mode (c ≠ '\n'))
  else if s.flags.verbose && s.mode.skips && ClassItem.space.has c then
    some (s.place s.mode.settled false)
  else if s.flags.verbose && s.mode.skips && c = '#' then some (s.place s.mode.settled true)
  else do
    let out ← lex s.flags s.mode c
    let s ← out.1.foldlM act s
    return s.place out.2 false

/-- Every group is closed and nothing is half read. A comment may be open. -/
def State.done (s : State) : Bool := s.stack.isEmpty && (s.mode = .plain || s.mode = .lazy)

/-- An expression as it was read, and whether its text ends inside a comment. -/
structure Parsed where
  frame : Frame
  comment : Bool
  deriving DecidableEq, Repr

def Parsed.re (p : Parsed) : Re := p.frame.re

def run (s : State) (text : List Char) : Option State := text.foldlM step s

def parse (text : List Char) : Option Parsed := do
  let s ← run {} text
  if s.done then some ⟨s.frame, s.comment⟩ else none

/-- The only way a text is read. -/
theorem parse_some {text : List Char} {p : Parsed} (h : parse text = some p) :
    ∃ s, run {} text = some s ∧ s.done = true ∧ p = ⟨s.frame, s.comment⟩ := by
  cases hrun : run {} text with
  | none => simp [parse, hrun] at h
  | some s =>
    by_cases hdone : s.done = true
    · simp only [parse, hrun, Option.bind_eq_bind, Option.bind_some, hdone, if_true,
        Option.some.injEq] at h
      exact ⟨s, rfl, hdone, h.symm⟩
    · simp [parse, hrun, hdone] at h

theorem run_append (s : State) (a b : List Char) : run s (a ++ b) = (run s a).bind (run · b) :=
  List.foldlM_append

/-! ## 5. Text in front -/

/-- Put an item at the oldest end. -/
def Frame.lead (r : Re) (f : Frame) : Frame :=
  if f.before = [] then { f with items := f.items ++ [r] }
  else { f with before := f.before.modifyLast (· ++ [r]) }

/-- Put an item at the oldest end of the outermost frame. -/
def State.lead (r : Re) (s : State) : State :=
  if s.stack = [] then { s with frame := s.frame.lead r }
  else { s with stack := s.stack.modifyLast fun outer => (outer.1.lead r, outer.2) }

@[simp] theorem modifyLast_one {α : Type} (f : α → α) (a : α) : [a].modifyLast f = [f a] := rfl

theorem modifyLast_cons {α : Type} (f : α → α) (a : α) {rest : List α} (h : rest ≠ []) :
    (a :: rest).modifyLast f = a :: rest.modifyLast f :=
  List.modifyLast_append_of_right_ne_nil f [a] rest h

namespace Frame

theorem lead_push (r x : Re) (f : Frame) : (f.push x).lead r = (f.lead r).push x := by
  by_cases hb : f.before = [] <;> simp [lead, push, hb]

theorem lead_bar (r : Re) (f : Frame) :
    lead r ⟨[], f.items :: f.before⟩ = ⟨[], (f.lead r).items :: (f.lead r).before⟩ := by
  by_cases hb : f.before = []
  · simp [lead, hb]
  · simp [lead, hb, modifyLast_cons]

theorem lead_items (r x y : Re) (f : Frame) {items : List Re} (h : f.items = x :: items) :
    ∃ items', (f.lead r).items = x :: items' ∧
      lead r { f with items := y :: items } = { f.lead r with items := y :: items' } := by
  by_cases hb : f.before = []
  · exact ⟨items ++ [r], by simp [lead, hb, h], by simp [lead, hb]⟩
  · exact ⟨items, by simp [lead, hb, h], by simp [lead, hb]⟩

end Frame

namespace State

@[simp] theorem lead_flags (r : Re) (s : State) : (s.lead r).flags = s.flags := by
  unfold lead
  split <;> rfl

@[simp] theorem lead_mode (r : Re) (s : State) : (s.lead r).mode = s.mode := by
  unfold lead
  split <;> rfl

@[simp] theorem lead_comment (r : Re) (s : State) : (s.lead r).comment = s.comment := by
  unfold lead
  split <;> rfl

theorem lead_place (r : Re) (s : State) (mode : Mode) (comment : Bool) :
    (s.place mode comment).lead r = (s.lead r).place mode comment := by
  by_cases hs : s.stack = [] <;> simp [lead, place, hs]

end State

variable {s s' : State}

/-- An action does the same behind an item put in front. -/
theorem act_lead (r : Re) {a : Action} (h : act s a = some s') :
    act (s.lead r) a = some (s'.lead r) := by
  by_cases hs : s.stack = []
  · have hlead : s.lead r = { s with frame := s.frame.lead r } := by simp [State.lead, hs]
    rw [hlead]
    cases a with
    | item x =>
      cases h
      simp [act, State.lead, hs, Frame.lead_push]
    | times least most =>
      cases hitems : s.frame.items with
      | nil => simp [act, hitems] at h
      | cons x items =>
        simp only [act, hitems, Option.some.injEq] at h
        subst h
        obtain ⟨items', hi, hf⟩ := s.frame.lead_items r x (.rep x least most) hitems
        simp [act, hi, State.lead, hs, hf]
    | bar =>
      cases h
      simp [act, State.lead, hs, Frame.lead_bar]
    | openGroup =>
      cases h
      simp [act, State.lead, hs]
    | closeGroup => simp [act, hs] at h
    | setFlags flags =>
      cases h
      simp [act, State.lead, hs]
  · have hlead : s.lead r =
        { s with stack := s.stack.modifyLast fun outer => (outer.1.lead r, outer.2) } := by
      simp [State.lead, hs]
    rw [hlead]
    cases a with
    | item x =>
      cases h
      simp [act, State.lead, hs]
    | times least most =>
      cases hitems : s.frame.items with
      | nil => simp [act, hitems] at h
      | cons x items =>
        simp only [act, hitems, Option.some.injEq] at h
        subst h
        simp [act, hitems, State.lead, hs]
    | bar =>
      cases h
      simp [act, State.lead, hs]
    | openGroup =>
      cases h
      simp [act, State.lead, modifyLast_cons _ _ hs]
    | closeGroup =>
      obtain ⟨⟨outer, flags⟩, stack, hstack⟩ := List.exists_cons_of_ne_nil hs
      simp only [act, hstack, Option.some.injEq] at h
      subst h
      by_cases hrest : stack = []
      · simp [act, State.lead, hstack, hrest, Frame.lead_push]
      · simp [act, State.lead, hstack, hrest, modifyLast_cons]
    | setFlags flags =>
      cases h
      simp [act, State.lead, hs]

theorem acts_lead (r : Re) {as : List Action} (h : as.foldlM act s = some s') :
    as.foldlM act (s.lead r) = some (s'.lead r) := by
  induction as generalizing s with
  | nil =>
    cases h
    rfl
  | cons a as ih =>
    obtain ⟨s1, h1, h2⟩ := Option.bind_eq_some_iff.mp h
    simp only [List.foldlM_cons, act_lead r h1]
    exact ih h2

theorem step_lead (r : Re) {c : Char} (h : step s c = some s') :
    step (s.lead r) c = some (s'.lead r) := by
  unfold step at h ⊢
  rw [State.lead_comment, State.lead_flags, State.lead_mode]
  by_cases hcomment : s.comment = true
  · rw [if_pos hcomment] at h ⊢
    cases h
    rw [State.lead_place]
  rw [if_neg hcomment] at h ⊢
  by_cases hblank : (s.flags.verbose && s.mode.skips && ClassItem.space.has c) = true
  · rw [if_pos hblank] at h ⊢
    cases h
    rw [State.lead_place]
  rw [if_neg hblank] at h ⊢
  by_cases hhash : (s.flags.verbose && s.mode.skips && decide (c = '#')) = true
  · rw [if_pos hhash] at h ⊢
    cases h
    rw [State.lead_place]
  rw [if_neg hhash] at h ⊢
  obtain ⟨out, hlex, hout⟩ := Option.bind_eq_some_iff.mp h
  obtain ⟨s1, hacts, hs'⟩ := Option.bind_eq_some_iff.mp hout
  cases hs'
  rw [hlex, Option.bind_eq_bind, Option.bind_some, acts_lead r hacts, State.lead_place]
  rfl

theorem run_lead (r : Re) {text : List Char} (h : run s text = some s') :
    run (s.lead r) text = some (s'.lead r) := by
  induction text generalizing s with
  | nil =>
    cases h
    rfl
  | cons c text ih =>
    obtain ⟨s1, h1, h2⟩ := Option.bind_eq_some_iff.mp h
    simp only [run, List.foldlM_cons, step_lead r h1]
    exact ih h2

/-- What one character does: a comment goes on or ends, a blank is skipped, or there are actions. -/
theorem step_cases {c : Char} (h : step s c = some s') :
    (s.comment = true ∧ s' = s.place s.mode (c ≠ '\n')) ∨
    (s.mode.skips = true ∧ (ClassItem.space.has c = true ∨ c = '#') ∧
      ∃ comment, s' = s.place s.mode.settled comment) ∨
    (∃ out s1, lex s.flags s.mode c = some out ∧ out.1.foldlM act s = some s1 ∧
      s' = s1.place out.2 false) := by
  unfold step at h
  by_cases hcomment : s.comment = true
  · rw [if_pos hcomment] at h
    cases h
    exact .inl ⟨hcomment, rfl⟩
  rw [if_neg hcomment] at h
  by_cases hblank : (s.flags.verbose && s.mode.skips && ClassItem.space.has c) = true
  · rw [if_pos hblank] at h
    cases h
    simp only [Bool.and_eq_true] at hblank
    exact .inr (.inl ⟨hblank.1.2, .inl hblank.2, _, rfl⟩)
  rw [if_neg hblank] at h
  by_cases hhash : (s.flags.verbose && s.mode.skips && decide (c = '#')) = true
  · rw [if_pos hhash] at h
    cases h
    simp only [Bool.and_eq_true, decide_eq_true_eq] at hhash
    exact .inr (.inl ⟨hhash.1.2, .inr hhash.2, _, rfl⟩)
  rw [if_neg hhash] at h
  obtain ⟨out, hlex, hout⟩ := Option.bind_eq_some_iff.mp h
  obtain ⟨s1, hacts, hs'⟩ := Option.bind_eq_some_iff.mp hout
  cases hs'
  exact .inr (.inr ⟨out, s1, hlex, hacts, rfl⟩)

end Re

end Svidlet.Lib
