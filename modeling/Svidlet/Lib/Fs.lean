import Svidlet.Lib.Prog

/-!
# A file tree, and the calls on it

Just enough of a POSIX filesystem to argue about programs that publish by renaming: directories,
regular files with an inode, symbolic links, and the calls the standard library makes on them.
Each call is one step.

Three choices are worth a word.

**A tree is a finite list of bindings from absolute paths to nodes.** A path is the list of its
components, so a directory is a prefix of what is under it. Everything a proof needs of the list
is in the `get_*` lemmas of section 2; no later proof looks inside.

**Paths are resolved, not looked up.** `resolve` walks the components and follows every link on
the way, the last one only when the call follows it. A call on a path whose walk meets no link
acts at the path itself (`resolve_of_dirs`), and that is how the proofs use it.

**An open file is an inode, not a path.** A writer that has opened a file keeps writing to that
inode when somebody else removes the directory around it, even if a file of the same name exists
again by then.
-/

namespace Svidlet.Lib

/-- An absolute path: its components, outermost first. -/
abbrev Path := List String

/-- The kinds of failure the programs tell apart, and one for all the others. -/
inductive IoError where
  | notFound
  | alreadyExists
  | notADirectory
  | isADirectory
  | directoryNotEmpty
  | tooManyLinks
  | invalidInput (text : String)
  | other (text : String)
  deriving DecidableEq, Repr

/-- What the operating system prints for an error. -/
def ioText : IoError → String
  | .notFound => "No such file or directory (os error 2)"
  | .alreadyExists => "File exists (os error 17)"
  | .notADirectory => "Not a directory (os error 20)"
  | .isADirectory => "Is a directory (os error 21)"
  | .directoryNotEmpty => "Directory not empty (os error 39)"
  | .tooManyLinks => "Too many levels of symbolic links (os error 40)"
  | .invalidInput text => text
  | .other text => text

/-- What stands at a path. `C` is what files hold. -/
inductive Node (C : Type) where
  | dir (mode : Nat)
  | file (ino : Nat) (content : C) (mode : Nat) (gid : Option Nat)
  | symlink (dest : Path)
  deriving DecidableEq, Repr

/-! ## 1. The tree -/

structure FileTree (C : Type) where
  entries : List (Path × Node C)
  nextIno : Nat
  deriving DecidableEq, Repr

namespace FileTree

variable {C : Type}

def find : List (Path × Node C) → Path → Option (Node C)
  | [], _ => none
  | (p, n) :: rest, q => if p = q then some n else find rest q

/-- The node at a path, links not followed. -/
def get (t : FileTree C) (p : Path) : Option (Node C) := find t.entries p

/-- Bind `p` to `n`, whatever was there. -/
def set (t : FileTree C) (p : Path) (n : Node C) : FileTree C :=
  { t with entries := (p, n) :: t.entries }

/-- Remove every path that `f` picks. -/
def drop (t : FileTree C) (f : Path → Bool) : FileTree C :=
  { t with entries := t.entries.filter fun e => !f e.1 }

/-- A new directory, with nothing in it. -/
def addDir (t : FileTree C) (p : Path) (mode : Nat) : FileTree C :=
  (t.drop fun q => decide (p <+: q)).set p (.dir mode)

/-- Change what files hold, in place. -/
def mapNodes (t : FileTree C) (g : Node C → Node C) : FileTree C :=
  { t with entries := t.entries.map fun e => (e.1, g e.2) }

/-- Where `q` is after the subtree at `src` has become the one at `dst`. -/
def moved (src dst q : Path) : Path :=
  if src <+: q then dst ++ q.drop src.length else q

/-- The subtree at `src` becomes the one at `dst`; what was at `dst` is gone. -/
def move (t : FileTree C) (src dst : Path) : FileTree C :=
  { t with entries := (t.entries.filter fun e => !decide (dst <+: e.1)).map fun e =>
      (moved src dst e.1, e.2) }

/-- The name of `q` in the directory `p`, if it is directly under it. -/
def childOf (p q : Path) : Option String :=
  if q.dropLast = p then q.getLast? else none

/-- The names in a directory. -/
def names (t : FileTree C) (p : Path) : List String :=
  (t.entries.filterMap fun e => childOf p e.1).dedup

/-- The inode of a node, for a file. -/
def inoOf : Node C → Nat
  | .file ino _ _ _ => ino
  | _ => 0

/-- An inode that no path is bound to and no open file has. -/
def freshIno (t : FileTree C) : Nat :=
  max t.nextIno ((t.entries.map fun e => inoOf e.2).foldr max 0 + 1)

/-! ## 2. Reading after writing -/

@[simp] theorem get_set (t : FileTree C) (p q : Path) (n : Node C) :
    (t.set p n).get q = if p = q then some n else t.get q := rfl

theorem find_filter (es : List (Path × Node C)) (f : Path → Bool) (q : Path) :
    find (es.filter fun e => !f e.1) q = if f q then none else find es q := by
  induction es with
  | nil => simp [find]
  | cons e rest ih =>
    obtain ⟨p, n⟩ := e
    by_cases hp : f p = true
    · have hdrop : ((p, n) :: rest).filter (fun e => !f e.1) = rest.filter fun e => !f e.1 := by
        simp [hp]
      rw [hdrop, ih]
      by_cases hpq : p = q
      · subst hpq
        simp [hp]
      · simp [find, hpq]
    · have hkeep : ((p, n) :: rest).filter (fun e => !f e.1)
          = (p, n) :: rest.filter fun e => !f e.1 := by
        simp [hp]
      rw [hkeep]
      by_cases hpq : p = q
      · subst hpq
        simp [find, hp]
      · simp only [find, hpq, if_false, ih]

@[simp] theorem get_drop (t : FileTree C) (f : Path → Bool) (q : Path) :
    (t.drop f).get q = if f q then none else t.get q :=
  find_filter t.entries f q

@[simp] theorem get_mapNodes (t : FileTree C) (g : Node C → Node C) (q : Path) :
    (t.mapNodes g).get q = (t.get q).map g := by
  show find (t.entries.map fun e => (e.1, g e.2)) q = (find t.entries q).map g
  induction t.entries with
  | nil => rfl
  | cons e rest ih =>
    by_cases hpq : e.1 = q
    · simp [find, hpq]
    · simp only [List.map_cons, find, hpq, if_false, ih]

@[simp] theorem get_addDir (t : FileTree C) (p q : Path) (mode : Nat) : (t.addDir p mode).get q
      = if p = q then some (.dir mode) else if p <+: q then none else t.get q := by
  simp [addDir]

variable {q : Path}

theorem find_mem {es : List (Path × Node C)} {n : Node C} (h : find es q = some n) :
    (q, n) ∈ es := by
  induction es with
  | nil => cases h
  | cons e rest ih =>
    obtain ⟨p, m⟩ := e
    unfold find at h
    split at h
    · rename_i hpq
      cases h
      rw [hpq]
      exact .head _
    · exact .tail _ (ih h)

theorem le_foldr_max {xs : List Nat} {x : Nat} (h : x ∈ xs) : x ≤ xs.foldr max 0 := by
  induction xs with
  | nil => cases h
  | cons y ys ih =>
    rw [List.foldr_cons]
    rcases List.mem_cons.mp h with rfl | h
    · exact Nat.le_max_left _ _
    · exact Nat.le_trans (ih h) (Nat.le_max_right _ _)

theorem ino_lt_freshIno (t : FileTree C) {ino : Nat} {content : C} {mode : Nat} {gid : Option Nat}
    (h : t.get q = some (.file ino content mode gid)) : ino < t.freshIno := by
  have hmem : ino ∈ t.entries.map fun e => inoOf e.2 := List.mem_map.mpr ⟨_, find_mem h, rfl⟩
  have hle := le_foldr_max hmem
  unfold freshIno
  omega

theorem find_isSome_iff (es : List (Path × Node C)) (q : Path) :
    (find es q).isSome ↔ ∃ n, (q, n) ∈ es := by
  induction es with
  | nil => simp [find]
  | cons e rest ih =>
    obtain ⟨p, n⟩ := e
    by_cases hpq : p = q
    · subst hpq
      simp only [find, if_true, Option.isSome_some, true_iff]
      exact ⟨n, .head _⟩
    simp only [find, hpq, if_false, ih, List.mem_cons, Prod.mk.injEq]
    constructor
    · rintro ⟨m, hm⟩
      exact ⟨m, .inr hm⟩
    · rintro ⟨m, hm⟩
      rcases hm with ⟨rfl, _⟩ | hm
      · exact absurd rfl hpq
      · exact ⟨m, hm⟩

/-- What `find` sees through a renaming of keys that only `q'` maps to `q`. -/
theorem find_map_key (es : List (Path × Node C)) (g : Path → Path) (q q' : Path)
    (h : ∀ e ∈ es, g e.1 = q ↔ e.1 = q') :
    find (es.map fun e => (g e.1, e.2)) q = find es q' := by
  induction es with
  | nil => rfl
  | cons e rest ih =>
    have hrest := ih fun e' he' => h e' (.tail _ he')
    have he := h e (.head _)
    by_cases hq : e.1 = q'
    · have hg : g q' = q := hq ▸ he.mpr hq
      simp [find, hq, hg]
    · have hg : ¬ g e.1 = q := fun hg => hq (he.mp hg)
      simp only [List.map_cons, find, hg, hq, if_false, hrest]

variable {src dst : Path}

theorem moved_of_under (h : src <+: q) :
    moved src dst q = dst ++ q.drop src.length := by simp [moved, h]

theorem moved_of_not_under (h : ¬ src <+: q) : moved src dst q = q := by
  simp [moved, h]

/-- Under the destination stands what stood under the source. -/
theorem get_move_dst (t : FileTree C) (hsd : ¬ src <+: dst) (hds : ¬ dst <+: src) (rest : Path) :
    (t.move src dst).get (dst ++ rest) = t.get (src ++ rest) := by
  have hkeep : ¬ dst <+: src ++ rest := by
    intro hd
    rcases List.prefix_or_prefix_of_prefix hd (List.prefix_append src rest) with h | h
    · exact hds h
    · exact hsd h
  unfold get move
  rw [find_map_key _ (moved src dst) (dst ++ rest) (src ++ rest), find_filter _ fun p => decide (dst <+: p)]
  · simp [hkeep]
  intro e he
  have hne : ¬ dst <+: e.1 := by simpa using (List.mem_filter.mp he).2
  by_cases hp : src <+: e.1
  · obtain ⟨u, hu⟩ := hp
    rw [← hu, moved_of_under (List.prefix_append src u), List.drop_left]
    simp
  rw [moved_of_not_under hp]
  constructor
  · intro h
    exact absurd (h ▸ List.prefix_append dst rest) hne
  · intro h
    exact absurd (h ▸ List.prefix_append src rest) hp

/-- Away from both ends a move changes nothing. -/
theorem get_move_other (t : FileTree C) (hs : ¬ src <+: q) (hd : ¬ dst <+: q) :
    (t.move src dst).get q = t.get q := by
  unfold get move
  rw [find_map_key _ (moved src dst) q q, find_filter _ fun p => decide (dst <+: p)]
  · simp [hd]
  intro e _
  by_cases hp : src <+: e.1
  · rw [moved_of_under hp]
    constructor
    · intro h
      exact absurd (h ▸ List.prefix_append dst _) hd
    · intro h
      exact absurd (h ▸ hp) hs
  · rw [moved_of_not_under hp]

/-- Nothing is left where the subtree was. -/
theorem get_move_src (t : FileTree C) (hsd : ¬ src <+: dst) (hds : ¬ dst <+: src) (rest : Path) :
    (t.move src dst).get (src ++ rest) = none := by
  cases h : (t.move src dst).get (src ++ rest) with
  | none => rfl
  | some n =>
    have hsome : (find (t.move src dst).entries (src ++ rest)).isSome := by
      show ((t.move src dst).get _).isSome
      rw [h]; rfl
    obtain ⟨m, hm⟩ := (find_isSome_iff _ _).mp hsome
    simp only [move, List.mem_map, List.mem_filter, Prod.mk.injEq] at hm
    obtain ⟨e, ⟨_, hne⟩, hkey, _⟩ := hm
    have hne : ¬ dst <+: e.1 := by simpa using hne
    by_cases hp : src <+: e.1
    · rw [moved_of_under hp] at hkey
      have hd : dst <+: src ++ rest := ⟨_, hkey⟩
      rcases List.prefix_or_prefix_of_prefix hd (List.prefix_append src rest) with h' | h'
      · exact absurd h' hds
      · exact absurd h' hsd
    · rw [moved_of_not_under hp] at hkey
      exact absurd (hkey ▸ List.prefix_append src rest) hp

variable {x : String}

theorem childOf_eq_some {p : Path} : childOf p q = some x ↔ q = p ++ [x] := by
  unfold childOf
  constructor
  · intro h
    split at h
    · rename_i hp
      rw [← hp]
      exact (List.dropLast_append_getLast? x (by simpa using h)).symm
    · cases h
  · rintro rfl
    simp

/-- A directory lists exactly the names bound under it. -/
theorem mem_names (t : FileTree C) (p : Path) (x : String) :
    x ∈ t.names p ↔ (t.get (p ++ [x])).isSome := by
  rw [names, List.mem_dedup, List.mem_filterMap, get, find_isSome_iff]
  constructor
  · rintro ⟨⟨q, n⟩, he, hx⟩
    rw [childOf_eq_some] at hx
    exact ⟨n, by rw [← hx]; exact he⟩
  · rintro ⟨n, he⟩
    exact ⟨(p ++ [x], n), he, childOf_eq_some.mpr rfl⟩

theorem nodup_names (t : FileTree C) (p : Path) : (t.names p).Nodup := List.nodup_dedup _

/-! ## 3. Walking a path -/

/-- Walk `rest` from the directory `base`. Every component and every link costs one unit, so the
    bound plays the part of the limits a kernel puts on both. A missing last component is where
    a creating call would put its entry. -/
def walk (t : FileTree C) (follow : Bool) : Nat → Path → Path → Except IoError Path
  | _, base, [] => .ok base
  | 0, _, _ :: _ => .error .tooManyLinks
  | n + 1, base, c :: rest =>
    match t.get (base ++ [c]) with
    | some (.symlink dest) =>
      if rest = [] ∧ follow = false then .ok (base ++ [c])
      else t.walk follow n base (dest ++ rest)
    | some (.dir _) => t.walk follow n (base ++ [c]) rest
    | some (.file ..) => if rest = [] then .ok (base ++ [c]) else .error .notADirectory
    | none => if rest = [] then .ok (base ++ [c]) else .error .notFound

def walkLimit : Nat := 4096

/-- Where a call on `p` acts. -/
def resolve (t : FileTree C) (follow : Bool) (p : Path) : Except IoError Path :=
  match t.get [] with
  | some (.dir _) => t.walk follow walkLimit [] p
  | _ => if p = [] then .ok [] else .error .notFound

/-- `p` is a directory of the tree. -/
def IsDir (t : FileTree C) (p : Path) : Prop := ∃ mode, t.get p = some (.dir mode)

/-- Every component of `rest` but the last is a directory. -/
def Dirs (t : FileTree C) : Path → Path → Prop
  | _, [] => True
  | _, [_] => True
  | base, c :: d :: rest => t.IsDir (base ++ [c]) ∧ t.Dirs (base ++ [c]) (d :: rest)

variable {follow : Bool}

theorem walk_of_dirs (t : FileTree C) {n : Nat} {base rest : Path} (hlen : rest.length ≤ n)
    (hdirs : t.Dirs base rest)
    (hlast : follow = true → ∀ dest, t.get (base ++ rest) ≠ some (.symlink dest)) :
    t.walk follow n base rest = .ok (base ++ rest) := by
  induction rest generalizing n base with
  | nil => cases n <;> simp [walk]
  | cons c rest ih =>
    obtain ⟨n, rfl⟩ : ∃ m, n = m + 1 := ⟨n - 1, by simp at hlen; omega⟩
    cases rest with
    | nil =>
      cases hget : t.get (base ++ [c]) with
      | none => simp [walk, hget]
      | some node =>
        cases node with
        | dir mode => cases n <;> simp [walk, hget]
        | file ino content mode gid => simp [walk, hget]
        | symlink dest =>
          cases follow with
          | false => simp [walk, hget]
          | true => exact absurd hget (hlast rfl dest)
    | cons d rest =>
      obtain ⟨⟨mode, hmode⟩, hdirs⟩ := hdirs
      have hstep : t.walk follow n (base ++ [c]) (d :: rest) = .ok (base ++ [c] ++ d :: rest) :=
        ih (by simpa using hlen) hdirs (by simpa using hlast)
      simp only [walk, hmode, hstep]
      simp

theorem resolve_of_dirs (t : FileTree C) {p : Path} (hroot : t.IsDir [])
    (hlen : p.length ≤ walkLimit) (hdirs : t.Dirs [] p)
    (hlast : follow = true → ∀ dest, t.get p ≠ some (.symlink dest)) :
    t.resolve follow p = .ok p := by
  obtain ⟨mode, hmode⟩ := hroot
  unfold resolve
  rw [hmode]
  exact t.walk_of_dirs hlen hdirs hlast

theorem isDir_root_of_resolve (t : FileTree C) {rest : Path}
    (h : t.resolve follow (x :: rest) = .ok q) : t.IsDir [] := by
  unfold resolve at h
  split at h
  · rename_i mode hroot
    exact ⟨mode, hroot⟩
  · cases h

/-- A call that does not follow the last component acts, on a single name, at that name. -/
theorem resolve_single (t : FileTree C) (h : t.resolve false [x] = .ok q) : q = [x] := by
  unfold resolve at h
  split at h
  · simp only [walkLimit, walk, List.nil_append] at h
    split at h <;> simp_all
  · cases h

end FileTree

end Svidlet.Lib
