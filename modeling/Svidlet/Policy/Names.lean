import Svidlet.Lib.Trim
import Svidlet.Policy.Archive

/-!
# Whether a path is the one in the header

The reader of archives says of itself that it refuses rather than sanitises, since "silently rewriting the
path would hide" that a bundle is broken or hostile. What it means to rewrite a path is said here with
the bytes of a header, before anything has been made of them: its prefix up to the first zero, a slash, and
its name up to the first zero (`rawPath`). A leading `./` may go.

> A path is rewritten exactly when the prefix is not UTF-8, or the prefix or the name begins or ends with
> white space.

`field` trims, and the caller takes a prefix that cannot be read for an empty one. The proof that there is
no other case, and that a difference is never made up for by the `./`, is about the ends of texts: what
was trimmed begins and ends with white space, and a path that was accepted does neither end with a slash
nor is it empty.
-/

namespace Svidlet.Policy

open Lib

/-! ## 1. Bytes and characters -/

theorem utf8Bytes_append (a b : String) : utf8Bytes (a ++ b) = utf8Bytes a ++ utf8Bytes b := by
  simp [utf8Bytes, String.toUTF8]

theorem utf8Bytes_inj {a b : String} (h : utf8Bytes a = utf8Bytes b) : a = b := by
  apply String.toByteArray_inj.mp
  exact ByteArray.ext (Array.toList_inj.mp h)

variable {text : String}

theorem utf8Bytes_of_fromUtf8 {bytes : Bytes} (h : fromUtf8 bytes = some text) :
    utf8Bytes text = bytes := by
  unfold fromUtf8 String.fromUTF8? at h
  split at h
  · cases h
    rfl
  · cases h

theorem utf8Bytes_dotSlashes (n : Nat) :
    utf8Bytes (String.ofList (dotSlashes n)) = (List.replicate n [46, 47]).flatten := by
  induction n with
  | zero => rfl
  | succ n ih =>
    have hsplit : String.ofList (dotSlashes (n + 1)) = "./" ++ String.ofList (dotSlashes n) := by
      apply String.toList_injective
      simp [dotSlashes, List.replicate_succ]
    rw [hsplit, utf8Bytes_append, ih, List.replicate_succ, List.flatten_cons]
    rfl

/-! ## 2. Paths that were accepted -/

theorem splitChar_snoc (c : Char) (text : List Char) :
    ∃ piece pieces, splitChar c (text ++ [c]) = piece :: (pieces ++ [[]]) := by
  induction text with
  | nil => exact ⟨[], [], by simp [splitChar]⟩
  | cons d rest ih =>
    obtain ⟨piece, pieces, hrest⟩ := ih
    rw [List.cons_append, splitChar, hrest]
    dsimp only
    split
    · exact ⟨[], piece :: pieces, rfl⟩
    · exact ⟨d :: piece, pieces, rfl⟩

/-- A path of ordinary segments has a last character, which is not a slash. -/
theorem PlainPath.last {path : String} (h : PlainPath path) :
    ∃ front c, path.toList = front ++ [c] ∧ c ≠ '/' := by
  rcases List.eq_nil_or_concat' path.toList with hnil | ⟨front, c, hpath⟩
  · have hpiece : [] ∈ splitChar '/' path.toList := by
      rw [hnil]
      exact List.mem_singleton.mpr rfl
    exact absurd rfl (h _ hpiece).1
  refine ⟨front, c, hpath, ?_⟩
  rintro rfl
  obtain ⟨piece, pieces, hsplit⟩ := splitChar_snoc '/' front
  have hpiece : [] ∈ splitChar '/' path.toList := by
    rw [hpath, hsplit]
    simp
  exact absurd rfl (h _ hpiece).1

/-! ## 3. What trimming does to a path -/

/-- A prefix and a name, as characters. -/
def joinedChars (pre name : List Char) : List Char := if pre = [] then name else pre ++ '/' :: name

section

variable {pre name path front xs ys : List Char} {a b c : Char} {j k : Nat}

theorem last_eq (h : xs ++ [a] = ys ++ [b]) : a = b := by
  simpa using congrArg List.getLast? h

/-- A path ends as its name does. -/
theorem joinedChars_last (h : joinedChars pre (xs ++ [a]) = ys ++ [b]) : a = b := by
  unfold joinedChars at h
  split at h
  · exact last_eq h
  · rw [← List.cons_append, ← List.append_assoc] at h
    exact last_eq h

/-- White space in front is not made up for by dots and slashes. -/
theorem nil_of_dotSlashes (hwhite : ∀ c ∈ xs, isWhite c = true)
    (h : xs ++ ys = dotSlashes (k + 1) ++ path) : xs = [] := by
  cases xs with
  | nil => rfl
  | cons a xs =>
    have hhead : a = '.' := by
      rw [Nat.add_comm, dotSlashes_add] at h
      exact (List.cons.inj h).1
    have ha := hwhite a (.head _)
    rw [hhead] at ha
    exact absurd ha (by decide)

/-- White space behind is not a character that is not white. -/
theorem nil_of_last (hwhite : ∀ c ∈ ys, isWhite c = true) (h : xs ++ ys = path ++ [c])
    (hc : isWhite c = false) : ys = [] := by
  rcases List.eq_nil_or_concat' ys with hnil | ⟨ys, w, rfl⟩
  · exact hnil
  rw [← List.append_assoc] at h
  have hw := hwhite w (by simp)
  rw [last_eq h, hc] at hw
  cases hw

/-- **A trimmed path is not the path, not even up to `./`**, unless there was nothing to trim. -/
theorem unaltered_of_dotSlashes (hraw : joinedChars pre name = dotSlashes k ++ path)
    (htrim : joinedChars (trimWhile isWhite pre) (trimWhile isWhite name) = dotSlashes j ++ path)
    (hpath : path = front ++ [c]) (hc : c ≠ '/') :
    trimWhile isWhite pre = pre ∧ trimWhile isWhite name = name := by
  obtain ⟨l, r, hpre, hl, hr⟩ := trimWhile_split isWhite pre
  obtain ⟨l', r', hname, hl', hr'⟩ := trimWhile_split isWhite name
  have hplast : ∀ front c, trimWhile isWhite pre = front ++ [c] → isWhite c = false :=
    fun _ _ => trimWhile_last
  have hnlast : ∀ front c, trimWhile isWhite name = front ++ [c] → isWhite c = false :=
    fun _ _ => trimWhile_last
  generalize trimWhile isWhite pre = p at *
  generalize trimWhile isWhite name = n at *
  -- the path ends as the trimmed name does, so nothing was taken away behind the name
  have hcblack : isWhite c = false := by
    rcases List.eq_nil_or_concat' n with rfl | ⟨n0, d, rfl⟩
    · unfold joinedChars at htrim
      split at htrim
      · rw [hpath] at htrim
        simp at htrim
      · rw [hpath, ← List.append_assoc] at htrim
        exact absurd (last_eq htrim).symm hc
    · rw [hpath, ← List.append_assoc] at htrim
      rw [← joinedChars_last htrim]
      exact hnlast n0 d rfl
  have hlraw := congrArg List.length hraw
  have hltrim := congrArg List.length htrim
  have hlpre := congrArg List.length hpre
  have hlname := congrArg List.length hname
  simp only [List.length_append, dotSlashes_length] at hlraw hltrim hlpre hlname
  unfold joinedChars at hraw htrim hlraw hltrim
  by_cases hempty : pre = []
  · -- only a name
    obtain ⟨rfl, rfl, rfl⟩ : l = [] ∧ p = [] ∧ r = [] := by simpa [hempty] using hpre
    rw [if_pos hempty] at hraw hlraw
    rw [if_pos rfl] at htrim hltrim
    refine ⟨hempty.symm, ?_⟩
    rw [hname, hpath, ← List.append_assoc] at hraw
    obtain rfl := nil_of_last hr' hraw hcblack
    cases k with
    | zero =>
      rw [List.append_nil] at hname
      have hshort : n.length = (l' ++ n).length := by
        rw [List.length_append]
        omega
      exact ((List.sublist_append_right l' n).eq_of_length hshort).trans hname.symm
    | succ k =>
      rw [List.append_nil, List.append_assoc] at hraw
      rw [nil_of_dotSlashes hl' hraw] at hname
      simpa using hname.symm
  · rw [if_neg hempty] at hraw hlraw
    have hnamed := hraw
    rw [hname, hpath, ← List.cons_append, ← List.append_assoc, ← List.append_assoc] at hnamed
    obtain rfl := nil_of_last hr' hnamed hcblack
    rw [List.append_nil] at hname
    simp only [List.length_append, List.length_cons, List.length_nil] at hlraw hlname
    suffices hnothing : l = [] ∧ r = [] ∧ l' = [] by
      obtain ⟨rfl, rfl, rfl⟩ := hnothing
      exact ⟨by simpa using hpre.symm, hname.symm⟩
    cases k with
    | zero =>
      -- the raw path is the path, and a trimmed one is not longer
      have hp : p ≠ [] := by
        intro hp
        rw [if_pos hp] at hltrim
        omega
      rw [if_neg hp, List.length_append, List.length_cons] at hltrim
      refine ⟨List.length_eq_zero_iff.mp ?_, List.length_eq_zero_iff.mp ?_, List.length_eq_zero_iff.mp ?_⟩
      all_goals omega
    | succ k =>
      rw [hpre, List.append_assoc, List.append_assoc] at hraw
      obtain rfl := nil_of_dotSlashes hl hraw
      rw [List.nil_append] at hraw
      have hp : p ≠ [] := by
        intro hp
        rw [hp, List.nil_append] at hraw hpre
        rw [nil_of_dotSlashes hr hraw] at hpre
        exact hempty hpre
      rw [if_neg hp] at htrim hltrim
      -- the trimmed path lacks some dots and slashes in front
      obtain ⟨m, hm⟩ : ∃ m, k + 1 = m + j := ⟨k + 1 - j, by
        simp only [List.length_append, List.length_cons, List.length_nil] at hltrim hlpre
        omega⟩
      rw [hm, dotSlashes_add, List.append_assoc, ← htrim, hname] at hraw
      have hcut : (p ++ r ++ ['/']) ++ l' = (dotSlashes m ++ p) ++ ['/'] := by
        have hsame : (p ++ r ++ ['/']) ++ l' ++ n = (dotSlashes m ++ p) ++ ['/'] ++ n := by
          simpa using hraw
        exact List.append_cancel_right hsame
      obtain rfl := nil_of_last hl' hcut (by decide)
      rw [List.append_nil] at hcut
      have hcut := List.append_cancel_right hcut
      obtain ⟨p0, d, hd⟩ := (List.eq_nil_or_concat' p).resolve_left hp
      have hend : p ++ r = (dotSlashes m ++ p0) ++ [d] := by
        rw [hcut, hd, List.append_assoc]
      exact ⟨rfl, nil_of_last hr hend (hplast p0 d hd), rfl⟩

end

/-! ## 4. The path in the header -/

/-- The bytes of a field up to the first zero. -/
def rawField (header : Bytes) (start len : Nat) : Bytes :=
  ((header.drop start).take len).takeWhile (· ≠ 0)

/-- Prefix, slash and name, or the name if there is no prefix. -/
def rawPath (header : Bytes) : Bytes :=
  if rawField header 345 155 = [] then rawField header 0 100
  else rawField header 345 155 ++ 47 :: rawField header 0 100

/-- The same bytes, up to leading `./`. -/
def UpToDotSlash (raw path : Bytes) : Prop := ∃ n, raw = (List.replicate n [46, 47]).flatten ++ path

/-- The field is a text that neither begins nor ends with white space. -/
def Unaltered (bytes : Bytes) : Prop := ∃ text, fromUtf8 bytes = some text ∧ trim text = text

theorem field_of_text {header : Bytes} {start len : Nat}
    (h : fromUtf8 (rawField header start len) = some text) :
    field header start len = .ok (trim text) := by
  unfold field
  unfold rawField at h
  rw [h]

theorem text_of_field {header : Bytes} {start len : Nat} {found : String}
    (h : field header start len = .ok found) :
    ∃ text, fromUtf8 (rawField header start len) = some text ∧ found = trim text := by
  unfold field at h
  unfold rawField
  split at h
  · rename_i text htext
    exact ⟨text, htext, (Except.ok.inj h).symm⟩
  · cases h

theorem joined_toList (pre name : String) :
    (joined pre name).toList = joinedChars pre.toList name.toList := by
  unfold joined joinedChars
  by_cases hpre : pre = ""
  · simp [hpre]
  · have hlist : pre.toList ≠ [] := by simpa using hpre
    simp [hpre, hlist]

theorem utf8Bytes_eq_nil : utf8Bytes text = [] ↔ text = "" := by
  constructor
  · intro h
    exact utf8Bytes_inj (h.trans rfl)
  · rintro rfl
    rfl

theorem utf8Bytes_joined (pre name : String) : utf8Bytes (joined pre name) =
    if utf8Bytes pre = [] then utf8Bytes name else utf8Bytes pre ++ 47 :: utf8Bytes name := by
  unfold joined
  by_cases hpre : pre = ""
  · rw [if_pos (by simp [hpre]), if_pos (utf8Bytes_eq_nil.mpr hpre)]
  · rw [if_neg (by simpa using hpre), if_neg (fun h => hpre (utf8Bytes_eq_nil.mp h)), utf8Bytes_append,
      utf8Bytes_append, List.append_assoc]
    rfl

theorem upToDotSlash_iff (raw path : String) :
    UpToDotSlash (utf8Bytes raw) (utf8Bytes path) ↔ ∃ n, raw.toList = dotSlashes n ++ path.toList := by
  refine exists_congr fun n => ?_
  rw [← utf8Bytes_dotSlashes, ← utf8Bytes_append]
  constructor
  · intro h
    rw [utf8Bytes_inj h, String.toList_append, String.toList_ofList]
  · intro h
    refine congrArg utf8Bytes (String.toList_injective ?_)
    rw [String.toList_append, String.toList_ofList, h]

/-- One entry and its header. -/
theorem path_as_written_iff {archive : Bytes} {spot : Nat × Bytes} {e : Entry}
    (h : Carries archive spot e) (hpre : (fromUtf8 (rawField spot.2 345 155)).isSome = true) :
    UpToDotSlash (rawPath spot.2) (utf8Bytes e.path) ↔
      Unaltered (rawField spot.2 0 100) ∧ Unaltered (rawField spot.2 345 155) := by
  obtain ⟨-, found, hfound, hkind⟩ := readHeader_ok h.read
  obtain ⟨name, hname, rfl⟩ := text_of_field hfound
  obtain ⟨pre, hpre⟩ := Option.isSome_iff_exists.mp hpre
  rcases hkind with ⟨-, hnone⟩ | ⟨-, -, path, hpath, hfile⟩
  · cases hnone
  obtain rfl := Option.some.inj hfile
  rw [field_of_text hpre] at hpath
  have hval : e.path = String.ofList (trimDotSlash (joined (trim pre) (trim name)).toList) :=
    checkPath_val hpath
  have hval : e.path.toList = trimDotSlash (joined (trim pre) (trim name)).toList := by
    rw [hval, String.toList_ofList]
  obtain ⟨j, hj⟩ := trimDotSlash_split (joined (trim pre) (trim name)).toList
  rw [← hval] at hj
  have hraw : rawPath spot.2 = utf8Bytes (joined pre name) := by
    rw [utf8Bytes_joined, utf8Bytes_of_fromUtf8 hpre, utf8Bytes_of_fromUtf8 hname]
    rfl
  have hunaltered : (Unaltered (rawField spot.2 0 100) ∧ Unaltered (rawField spot.2 345 155)) ↔
      (trim name = name ∧ trim pre = pre) := by
    unfold Unaltered
    rw [hname, hpre]
    simp
  rw [hraw, upToDotSlash_iff, hunaltered]
  constructor
  · intro ⟨k, hk⟩
    obtain ⟨front, c, hend, hc⟩ := e.plain.last
    rw [joined_toList] at hk hj
    rw [trim_toList, trim_toList] at hj
    obtain ⟨hpreSame, hnameSame⟩ := unaltered_of_dotSlashes hk hj hend hc
    exact ⟨trim_eq_self_iff.mpr hnameSame, trim_eq_self_iff.mpr hpreSame⟩
  · intro ⟨hnameSame, hpreSame⟩
    rw [hnameSame, hpreSame] at hj
    exact ⟨j, hj⟩

/-- **No path is rewritten, and no header with a name or prefix that is not UTF-8 is let through**, in an archive
    that is accepted, exactly when the prefixes of its regular files are UTF-8 and neither prefixes nor names
    begin or end with white space. -/
theorem paths_are_as_written_iff (archive : Bytes) (maxTotal : Nat) (entries : List Entry)
    (h : extract archive maxTotal = .ok entries) :
    (List.Forall₂ (fun spot e => UpToDotSlash (rawPath spot.2) (utf8Bytes e.path))
        (fileHeaders archive) entries ∧
      ∀ spot ∈ fileHeaders archive, (fromUtf8 (rawField spot.2 0 100)).isSome = true ∧
        (fromUtf8 (rawField spot.2 345 155)).isSome = true) ↔
    ∀ spot ∈ fileHeaders archive,
      Unaltered (rawField spot.2 0 100) ∧ Unaltered (rawField spot.2 345 155) := by
  obtain ⟨-, hcarries, -⟩ := extract_ok h
  have hvalid : ∀ bytes, Unaltered bytes → (fromUtf8 bytes).isSome = true := by
    intro bytes ⟨text, htext, _⟩
    rw [htext]
    rfl
  generalize fileHeaders archive = spots at hcarries
  clear h
  induction hcarries with
  | nil => simp
  | @cons spot e spots entries hfirst _ ih =>
    rw [List.forall₂_cons, List.forall_mem_cons, List.forall_mem_cons]
    constructor
    · intro ⟨⟨hpath, hrest⟩, hspot, hspots⟩
      exact ⟨(path_as_written_iff hfirst hspot.2).mp hpath, ih.mp ⟨hrest, hspots⟩⟩
    · intro ⟨hspot, hrest⟩
      obtain ⟨hpaths, hspots⟩ := ih.mpr hrest
      exact ⟨⟨(path_as_written_iff hfirst (hvalid _ hspot.2)).mpr hspot, hpaths⟩,
        ⟨hvalid _ hspot.1, hvalid _ hspot.2⟩, hspots⟩

/-- An archive with one empty file, `a`, under a prefix of one byte. -/
def prefixArchive (byte : UInt8) : Bytes :=
  97 :: List.replicate 344 0 ++ byte :: List.replicate 166 0

/-- A prefix that is a letter is in the path. -/
theorem paths_are_as_written_plain : ∃ entries, extract (prefixArchive 98) 0 = .ok entries ∧
    entries.map Entry.path = ["b/a"] ∧
    List.Forall₂ (fun spot e => UpToDotSlash (rawPath spot.2) (utf8Bytes e.path))
      (fileHeaders (prefixArchive 98)) entries := by
  have hread : (extract (prefixArchive 98) 0).toOption.map (·.map Entry.path) = some ["b/a"] := by
    decide +kernel
  have hfields : (fileHeaders (prefixArchive 98)).map
      (fun spot => (fromUtf8 (rawField spot.2 0 100), fromUtf8 (rawField spot.2 345 155)))
        = [(some "a", some "b")] := by decide +kernel
  cases h : extract (prefixArchive 98) 0 with
  | error e =>
    rw [h] at hread
    cases hread
  | ok entries =>
    rw [h] at hread
    refine ⟨entries, rfl, Option.some.inj hread,
      ((paths_are_as_written_iff (prefixArchive 98) 0 entries h).mpr ?_).1⟩
    intro spot hspot
    have hmem := List.mem_map_of_mem hspot
      (f := fun spot => (fromUtf8 (rawField spot.2 0 100), fromUtf8 (rawField spot.2 345 155)))
    rw [hfields, List.mem_singleton, Prod.mk.injEq] at hmem
    exact ⟨⟨"a", hmem.1, by decide⟩, ⟨"b", hmem.2, by decide⟩⟩

/-- A prefix that is not UTF-8 is dropped, and the archive is accepted. -/
theorem prefix_is_dropped :
    (extract (prefixArchive 255) 0).toOption.map (·.map Entry.path) = some ["a"] ∧
    (fileHeaders (prefixArchive 255)).map (fun spot =>
      (rawPath spot.2, fromUtf8 (rawField spot.2 345 155))) = [([255, 47, 97], none)] :=
  ⟨by decide +kernel, by decide +kernel⟩

end Svidlet.Policy
