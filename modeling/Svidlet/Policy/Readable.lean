import Svidlet.Lib.FsBuild
import Svidlet.Policy.Archive
import Svidlet.Policy.Directory

/-!
# What was unpacked can be read

`read` may fail for many reasons, and on a version that was unpacked from a bundle, with no fault on disk,
none of them arises:

> every file and folder is where the entries put it, so it can be listed or read;
>
> a path of a bundle fits in the header of a tar archive, so it is short enough to be opened, and the walk
> reaches the bottom (`extract_short`);
>
> a bundle has at least one file, so there is something to return.

This matters because a poll moves `current` before it reads the version back.
-/

namespace Svidlet.Policy

open Lib Lib.FileTree

/-! ## 1. Paths of bundles are short -/

theorem trimDotSlash_length (chars : List Char) : (trimDotSlash chars).length ≤ chars.length := by
  obtain ⟨n, hsplit⟩ := trimDotSlash_split chars
  have hlength := congrArg List.length hsplit
  rw [List.length_append] at hlength
  omega

theorem splitChar_length (c : Char) (chars : List Char) :
    (splitChar c chars).length ≤ chars.length + 1 := by
  induction chars with
  | nil => simp [splitChar]
  | cons d rest ih =>
    unfold splitChar
    split
    · simp
    next piece pieces heq =>
      rw [heq] at ih
      split <;> simp at ih ⊢ <;> omega

/-- The longest path that a header has room for, in components. -/
def maxDepth : Nat := 257

theorem checkPath_short {raw : String} {path : { path : String // PlainPath path }}
    (h : checkPath raw = .ok path) (hraw : raw.toList.length ≤ 256) :
    (segments path.val).length ≤ maxDepth := by
  have hpath := checkPath_val h
  have hsplit := splitChar_length '/' path.val.toList
  rw [segments, List.length_map]
  rw [hpath, String.toList_ofList] at hsplit ⊢
  have htrim := trimDotSlash_length raw.toList
  unfold maxDepth
  omega

theorem readHeader_short {header : Bytes} {h : Header} {path : { path : String // PlainPath path }}
    (hread : readHeader header = .ok h) (hfile : h.file = some path) :
    (segments path.val).length ≤ maxDepth := by
  obtain ⟨-, name, hname, hkind⟩ := readHeader_ok hread
  have hname := field_length hname
  have hpre : ((field header 345 155).toOption.getD "").toList.length ≤ 155 := by
    cases hf : field header 345 155 with
    | error e => simp [Except.toOption]
    | ok pre => exact field_length hf
  rcases hkind with ⟨-, hnone⟩ | ⟨-, -, found, hpath, hfound⟩
  · rw [hnone] at hfile
    cases hfile
  obtain rfl := Option.some.inj (hfound.symm.trans hfile)
  refine checkPath_short hpath ?_
  unfold joined
  split
  · omega
  · simp only [String.toList_append, List.length_append]
    have hslash : "/".toList.length = 1 := rfl
    omega

/-- What a bundle unpacks to is not deep, and not nothing. -/
theorem extract_short {blob : Bytes} {maxTotal : Nat} {entries : List Entry}
    (h : extract blob maxTotal = .ok entries) :
    entries ≠ [] ∧ ∀ e ∈ entries, (segments e.path).length ≤ maxDepth := by
  refine ⟨(extract_ok h).1, fun e he => ?_⟩
  obtain ⟨spot, -, hspot⟩ := extract_mem h he
  exact readHeader_short hspot.read rfl

/-! ## 2. Reading back succeeds -/

section

variable {may : FsOp Bytes → Prop} {t : FileTree Bytes} {store : Store} {name : String}
  {entries : List Entry}

variable {rest : Path}

/-- What is in an unpacked version is a folder or a file, and is not deep. -/
theorem Unpacked.at_path (h : Layout t) (hun : Unpacked t [versions, name] entries)
    (hshort : ∀ e ∈ entries, (segments e.path).length ≤ maxDepth)
    (hthere : t.get ([versions, name] ++ rest) ≠ none) :
    rest.length ≤ maxDepth ∧ (t.IsDir ([versions, name] ++ rest) ∨
      ∃ content, t.HoldsFile ([versions, name] ++ rest) content) := by
  cases hget : t.get ([versions, name] ++ rest) with
  | none => exact absurd hget hthere
  | some node =>
    cases node with
    | symlink dest => exact absurd hget (h.noLinks (name :: rest) dest)
    | dir mode =>
      have hdir : t.IsDir ([versions, name] ++ rest) := ⟨mode, hget⟩
      refine ⟨?_, .inl hdir⟩
      rcases (hun.folders rest).mp hdir with hnil | ⟨e, he, hpre, -⟩
      · simp [hnil]
      · exact hpre.length_le.trans (hshort e he)
    | file ino content mode gid =>
      have hfile : t.HoldsFile ([versions, name] ++ rest) content :=
        holdsFile_iff_get.mpr ⟨ino, mode, gid, hget⟩
      obtain ⟨e, he, heq⟩ := exists_of_fileAt ((hun.files rest content).mp hfile)
      exact ⟨heq ▸ hshort e he, .inr ⟨content, hfile⟩⟩

/-- Nothing in the directory is too deep to be reached. -/
def Shallow (t : FileTree Bytes) (name : String) : Prop :=
  ∀ rest, t.get ([versions, name] ++ rest) ≠ none → rest.length + 2 ≤ walkLimit

theorem Unpacked.shallow (h : Layout t) (hun : Unpacked t [versions, name] entries)
    (hshort : ∀ e ∈ entries, (segments e.path).length ≤ maxDepth) : Shallow t name := by
  intro rest hthere
  have hlen := (hun.at_path h hshort hthere).1
  unfold maxDepth at hlen
  unfold walkLimit
  omega

/-- No call that reads this version back fails from outside. -/
def SparesReading (may : FsOp Bytes → Prop) (name : String) : Prop :=
  ∀ rest, ¬ may (.readDir ([versions, name] ++ rest)) ∧ ¬ may (.readFile ([versions, name] ++ rest)) ∧
    (rest ≠ [] → ¬ may (.isDir ([versions, name] ++ rest)))

theorem sparesReading_of_none (hno : ∀ op, ¬ may op) : SparesReading may name :=
  fun _ => ⟨hno _, hno _, fun _ => hno _⟩

/-- A place in the version can be reached. -/
theorem Shallow.resolve (h : Layout t) (hshallow : Shallow t name)
    (hthere : t.get ([versions, name] ++ rest) ≠ none) :
    t.resolve true ([versions, name] ++ rest) = .ok ([versions, name] ++ rest) := by
  refine h.wellFormed.resolve_there hthere ?_ (h.noLinks (name :: rest))
  have hlen := hshallow rest hthere
  simp only [List.length_append, List.length_cons, List.length_nil]
  omega

/-- What is there is a folder or a file. -/
theorem Layout.dir_or_file (h : Layout t) (hthere : t.get ([versions, name] ++ rest) ≠ none) :
    t.IsDir ([versions, name] ++ rest) ∨
      ∃ content, t.HoldsFile ([versions, name] ++ rest) content := by
  cases hget : t.get ([versions, name] ++ rest) with
  | none => exact absurd hget hthere
  | some node =>
    cases node with
    | symlink dest => exact absurd hget (h.noLinks (name :: rest) dest)
    | dir mode => exact .inl ⟨mode, hget⟩
    | file ino content mode gid =>
      exact .inr ⟨content, holdsFile_iff_get.mpr ⟨ino, mode, gid, hget⟩⟩

theorem collectAt_ok {path : Path} {deeper : Path → Disk (List PolicyDocument)} (h : Layout t)
    (hspares : SparesReading may name) (hshallow : Shallow t name) (hpath : path ≠ [])
    (hthere : t.get ([versions, name] ++ path) ≠ none)
    (hdeeper : t.IsDir ([versions, name] ++ path) →
      Watch (Faulty may) Unchanged (fun r t' => t' = t ∧ ∃ docs, r = .ok docs) (deeper path).run t) :
    Watch (Faulty may) Unchanged (fun r t' => t' = t ∧ ∃ docs, r = .ok docs)
      (store.collectAt deeper [versions, name] path).run t := by
  have hr := hshallow.resolve h hthere
  obtain ⟨-, hreadFile, hisDir⟩ := hspares path
  unfold Store.collectAt
  refine .lift_bind (P := fun isDir t' => t' = t ∧
    (isDir = true ↔ t.IsDir ([versions, name] ++ path))) (watch_call fun ans t' hw => ?_) ?_
  · have hans : (t.exec (.isDir ([versions, name] ++ path))).1 = ans := (hw.sure (hisDir hpath)).1
    refine ⟨hw.isDir_same, hw.isDir_same, ?_⟩
    rw [← hans]
    simp only [exec, hr]
    constructor
    · intro hd
      split at hd
      next mode hget => exact ⟨mode, hget⟩
      next => cases hd
    · rintro ⟨mode, hget⟩
      rw [hget]
  · rintro isDir t1 ⟨ht, hdir⟩
    subst ht
    cases isDir with
    | true => exact hdeeper (hdir.mp rfl)
    | false =>
      rcases h.dir_or_file hthere with hd | ⟨content, hfile⟩
      · exact absurd (hdir.mpr hd) (by simp)
      refine .run_bind (P := fun r t' => t' = t1 ∧ r = .ok content) ?_ ?_ ?_
      · refine watch_orIo (P := fun r t' => t' = t1 ∧ r = .ok content)
          (watch_call fun ans t' hw => ?_) (fun _ _ hr => ⟨hr.1, by rw [Except.ok.inj hr.2]⟩) ?_
        · obtain ⟨ino, mode, gid, hget⟩ := holdsFile_iff_get.mp hfile
          have hans : (t1.exec (.readFile ([versions, name] ++ path))).1 = ans :=
            (hw.sure hreadFile).1
          simp only [exec, act, hr, hget] at hans
          exact ⟨hw.readFile_same, hw.readFile_same, hans.symm⟩
        · intro e e' t' hr
          cases hr.2
      · intro content t2 hr
        obtain ⟨rfl, -⟩ := hr
        exact .of_pure ⟨rfl, _, rfl⟩
      · intro e t2 hr
        cases hr.2

theorem collectEach_ok {sub : Path} {names : List String}
    {deeper : Path → Disk (List PolicyDocument)} (h : Layout t)
    (hspares : SparesReading may name) (hshallow : Shallow t name)
    (hthere : ∀ x ∈ names, t.get ([versions, name] ++ (sub ++ [x])) ≠ none)
    (hdeeper : ∀ x, t.IsDir ([versions, name] ++ (sub ++ [x])) →
      Watch (Faulty may) Unchanged (fun r t' => t' = t ∧ ∃ docs, r = .ok docs)
        (deeper (sub ++ [x])).run t) :
    Watch (Faulty may) Unchanged (fun r t' => t' = t ∧ ∃ docs, r = .ok docs)
      (store.collectEach deeper [versions, name] sub names).run t := by
  induction names with
  | nil => exact .of_pure ⟨rfl, [], rfl⟩
  | cons x names ih =>
    have hrest := ih fun y hy => hthere y (.tail _ hy)
    unfold Store.collectEach
    refine .run_bind
      (collectAt_ok h hspares hshallow (by simp) (hthere x (.head _)) (hdeeper x)) ?_ ?_
    · intro here t1 hr
      obtain ⟨rfl, -⟩ := hr
      refine .run_bind hrest ?_ ?_
      · intro others t2 hr
        obtain ⟨rfl, -⟩ := hr
        exact .of_pure ⟨rfl, _, rfl⟩
      · intro e t2 hr
        obtain ⟨docs, hdocs⟩ := hr.2
        cases hdocs
    · intro e t1 hr
      obtain ⟨docs, hdocs⟩ := hr.2
      cases hdocs

theorem collect_ok {depth : Nat} {sub : Path} (h : Layout t) (hspares : SparesReading may name)
    (hshallow : Shallow t name) (hdir : t.IsDir ([versions, name] ++ sub))
    (hdepth : walkLimit < sub.length + 2 + depth) :
    Watch (Faulty may) Unchanged (fun r t' => t' = t ∧ ∃ docs, r = .ok docs)
      (store.collect [versions, name] depth sub).run t := by
  induction depth generalizing sub with
  | zero =>
    -- the walk is never this deep
    have hlen := hshallow sub hdir.ne_none
    omega
  | succ depth ih =>
    have hr := hshallow.resolve h hdir.ne_none
    unfold Store.collect
    refine .run_bind (P := fun r t' => t' = t ∧ ∃ names, r = .ok names ∧
      ∀ x ∈ names, t.get ([versions, name] ++ (sub ++ [x])) ≠ none) ?_ ?_ ?_
    · refine watch_orIo (P := fun r t' => t' = t ∧ ∃ names, r = .ok names ∧
        ∀ x ∈ names, t.get ([versions, name] ++ (sub ++ [x])) ≠ none)
        (watch_call fun ans t' hw => ⟨hw.readDir_same, hw.readDir_same, ?_⟩) ?_ ?_
      · cases ans with
        | error e =>
          obtain ⟨mode, hget⟩ := hdir
          have hans := (hw.sure (hspares sub).1).1
          simp only [exec, act, hr, hget] at hans
          cases hans
        | ok names =>
          refine ⟨names, rfl, ?_⟩
          intro x hx
          obtain ⟨-, hperm⟩ := hw.readDir_ok (h.linkless_in name sub)
          have hmem := (t.mem_names _ _).mp (hperm.mem_iff.mpr hx)
          rw [List.append_assoc] at hmem
          exact Option.isSome_iff_ne_none.mp hmem
      · intro names t' hread
        obtain ⟨ht, names', he, hthere⟩ := hread
        exact ⟨ht, names', by rw [Except.ok.inj he], hthere⟩
      · intro e e' t' hread
        obtain ⟨names, hnames, -⟩ := hread.2
        cases hnames
    · intro names t1 hread
      obtain ⟨rfl, names', he, hthere⟩ := hread
      obtain rfl := Except.ok.inj he
      refine collectEach_ok h hspares hshallow hthere fun x hx => ih hx ?_
      simp only [List.length_append, List.length_cons, List.length_nil]
      omega
    · intro e t1 hread
      obtain ⟨names, hnames, -⟩ := hread.2
      cases hnames

/-- **A version that was unpacked from a bundle can be read**, when nothing fails from outside. -/
theorem read_ok {digest : String} (h : Layout t) (hno : ∀ op, ¬ may op)
    (hun : Unpacked t (versionDir digest) entries) (hne : entries ≠ [])
    (hshort : ∀ e ∈ entries, (segments e.path).length ≤ maxDepth) :
    Watch (Faulty may) Unchanged
      (fun r t' => t' = t ∧ ∃ bundle, r = .ok bundle ∧ bundle.revision = digest ∧
        DocumentsOf entries bundle.documents) (store.read digest).run t := by
  have hdir : t.IsDir ([versions, dirName digest] ++ []) := (hun.folders []).mpr (.inl rfl)
  obtain ⟨e, he⟩ := List.exists_mem_of_ne_nil entries hne
  unfold Store.read
  have hdepth : walkLimit < ([] : Path).length + 2 + walkLimit := by simp
  refine .run_bind (Watch.and (collect_watch h)
    (collect_ok h (sparesReading_of_none hno) (hun.shallow h hshort) hdir hdepth)) ?_ ?_
  · intro docs t1 ⟨hwalk, hok⟩
    obtain ⟨rfl, -⟩ := hok
    have hdocs := hun.documents (hwalk.1.2 docs rfl)
    have hnone : docs ≠ [] := by
      intro hnil
      have hlast : lastContent entries e.path ≠ none := by
        simpa [lastContent] using ⟨e, he, rfl⟩
      obtain ⟨content, hcontent⟩ := Option.ne_none_iff_exists'.mp hlast
      have hmem := (hdocs.exact e.path content).mpr hcontent
      rw [hnil] at hmem
      cases hmem
    rw [if_neg hnone]
    exact .of_pure ⟨rfl, _, rfl, rfl, hdocs.perm (List.perm_insertionSort _ _)⟩
  · intro e t1 ⟨_, hok⟩
    obtain ⟨docs, hdocs⟩ := hok.2
    cases hdocs

end

end Svidlet.Policy
