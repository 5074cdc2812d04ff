import Svidlet.Lib.Fs

/-!
# Filesystem calls as a signature

`FsOp` is the list of calls, `exec` what each does to a tree when nothing goes wrong outside it,
and two worlds are built on `exec`:

> `Exact`   — a call answers what `exec` says (a directory listing in any order);
> `Faulty`  — or it fails and changes nothing, or it is a call of several steps that stops part way:
>             a write, the making of a path, a recursive removal.

A recursive removal that stops has removed some of what is there, children before their parents.
-/

namespace Svidlet.Lib

/-! ## 1. The calls -/

inductive FsOp (C : Type) where
  | readDir (p : Path)
  | createDir (p : Path)
  | createDirAll (p : Path)
  | setPermissions (p : Path) (mode : Nat)
  /-- `OpenOptions` with `write`, `create`, `truncate` and `mode`; answers the inode opened. -/
  | openTruncate (p : Path) (mode : Nat)
  | writeAll (ino : Nat) (content : C)
  | syncAll (ino : Nat)
  | chgrp (p : Path) (gid : Nat)
  | fsyncDir (p : Path)
  | symlink (dest p : Path)
  | rename (p q : Path)
  | removeFile (p : Path)
  | removeDirAll (p : Path)
  | symlinkMetadata (p : Path)
  | readLink (p : Path)
  | readFile (p : Path)
  | pathExists (p : Path)
  | isDir (p : Path)

@[reducible] def FsOp.Ans {C : Type} : FsOp C → Type
  | .readDir _ => Except IoError (List String)
  | .openTruncate _ _ => Except IoError Nat
  | .readLink _ => Except IoError Path
  | .readFile _ => Except IoError C
  | .pathExists _ => Bool
  | .isDir _ => Bool
  | _ => Except IoError Unit

@[reducible] def FsSig (C : Type) : Sig := ⟨FsOp C, FsOp.Ans⟩

/-! ## 2. What a call does -/

namespace FileTree

variable {C α : Type}

/-- Resolve `p`, then act on what stands there. -/
def act (t : FileTree C) (follow : Bool) (p : Path)
    (f : Path → Option (Node C) → Except IoError α × FileTree C) : Except IoError α × FileTree C :=
  match t.resolve follow p with
  | .error e => (.error e, t)
  | .ok q => f q (t.get q)

def newDirMode : Nat := 0o755

/-- `create_dir_all`: make what is missing, component by component. -/
def makeDirs (t : FileTree C) : Path → Path → Except IoError Unit × FileTree C
  | _, [] => (.ok (), t)
  | base, c :: rest =>
    match t.resolve true (base ++ [c]) with
    | .error e => (.error e, t)
    | .ok q =>
      match t.get q with
      | some (.dir _) => t.makeDirs q rest
      | some _ => (.error .alreadyExists, t)
      | none => (t.addDir q newDirMode).makeDirs q rest

def setMode (mode : Nat) : Node C → Node C
  | .dir _ => .dir mode
  | .file ino content _ gid => .file ino content mode gid
  | .symlink dest => .symlink dest

def setGroup (gid : Nat) : Node C → Node C
  | .file ino content mode _ => .file ino content mode (some gid)
  | other => other

/-- Put `content` into the file with inode `ino`, wherever it is bound. -/
def fill (ino : Nat) (content : C) : Node C → Node C
  | .file i old mode gid => if i = ino then .file i content mode gid else .file i old mode gid
  | other => other

/-- `rename(2)` at resolved paths: what may replace what. -/
def renameAt (t : FileTree C) (p q : Path) : Except IoError Unit × FileTree C :=
  if p = q then (.ok (), t) else
  match t.get p, t.get q with
  | none, _ => (.error .notFound, t)
  | some (.dir _), none =>
    if p <+: q then (.error (.invalidInput "")  , t) else (.ok (), t.move p q)
  | some (.dir _), some (.dir _) =>
    if p <+: q then (.error (.invalidInput ""), t)
    else if t.names q = [] then (.ok (), t.move p q) else (.error .directoryNotEmpty, t)
  | some (.dir _), some _ => (.error .notADirectory, t)
  | some _, some (.dir _) => (.error .isADirectory, t)
  | some _, _ => (.ok (), t.move p q)

/-- What each call answers and leaves. -/
def exec [Inhabited C] (t : FileTree C) : (op : FsOp C) → op.Ans × FileTree C
  | .readDir p => t.act true p fun q node => match node with
    | some (.dir _) => (.ok (t.names q), t)
    | some _ => (.error .notADirectory, t)
    | none => (.error .notFound, t)
  | .createDir p => t.act false p fun q node => match node with
    | some _ => (.error .alreadyExists, t)
    | none => (.ok (), t.addDir q newDirMode)
  | .createDirAll p =>
    match t.get [] with
    | some _ => t.makeDirs [] p
    | none => (t.addDir [] newDirMode).makeDirs [] p
  | .setPermissions p mode => t.act true p fun q node => match node with
    | some n => (.ok (), t.set q (setMode mode n))
    | none => (.error .notFound, t)
  | .openTruncate p mode => t.act true p fun q node => match node with
    | some (.file ino _ mode gid) => (.ok ino, t.set q (.file ino default mode gid))
    | some _ => (.error .isADirectory, t)
    | none => (.ok t.freshIno,
        { t.set q (.file t.freshIno default mode none) with nextIno := t.freshIno + 1 })
  | .writeAll ino content => (.ok (), t.mapNodes (fill ino content))
  | .syncAll _ => (.ok (), t)
  | .chgrp p gid => t.act true p fun q node => match node with
    | some n => (.ok (), t.set q (setGroup gid n))
    | none => (.error .notFound, t)
  | .fsyncDir p => t.act true p fun _ node => match node with
    | some _ => (.ok (), t)
    | none => (.error .notFound, t)
  | .symlink dest p => t.act false p fun q node => match node with
    | some _ => (.error .alreadyExists, t)
    | none => (.ok (), t.set q (.symlink dest))
  | .rename p q => t.act false p fun p' _ => t.act false q fun q' _ => t.renameAt p' q'
  | .removeFile p => t.act false p fun q node => match node with
    | some (.dir _) => (.error .isADirectory, t)
    | some _ => (.ok (), t.drop fun r => decide (r = q))
    | none => (.error .notFound, t)
  | .removeDirAll p => t.act false p fun q node => match node with
    | some (.file ..) => (.error .notADirectory, t)
    | some _ => (.ok (), t.drop fun r => decide (q <+: r))
    | none => (.error .notFound, t)
  | .symlinkMetadata p => t.act false p fun _ node => match node with
    | some _ => (.ok (), t)
    | none => (.error .notFound, t)
  | .readLink p => t.act false p fun _ node => match node with
    | some (.symlink dest) => (.ok dest, t)
    | some _ => (.error (.invalidInput "not a symbolic link"), t)
    | none => (.error .notFound, t)
  | .readFile p => t.act true p fun _ node => match node with
    | some (.file _ content _ _) => (.ok content, t)
    | some _ => (.error .isADirectory, t)
    | none => (.error .notFound, t)
  | .pathExists p => (match t.resolve true p with
    | .ok q => (t.get q).isSome
    | .error _ => false, t)
  | .isDir p => (match t.resolve true p with
    | .ok q => match t.get q with
      | some (.dir _) => true
      | _ => false
    | .error _ => false, t)

/-- Answers that differ only in the order a directory is listed in. -/
def SameAnswer : (op : FsOp C) → op.Ans → op.Ans → Prop
  | .readDir _, .ok xs, .ok ys => xs.Perm ys
  | _, a, b => a = b

theorem SameAnswer.refl (op : FsOp C) (ans : op.Ans) : SameAnswer op ans ans := by
  cases op with
  | readDir p =>
    cases ans with
    | ok xs => exact List.Perm.refl xs
    | error e => exact rfl
  | _ => exact rfl

/-- The call fails: nothing is done, or not all of it. -/
def Fails [Inhabited C] (t : FileTree C) : (op : FsOp C) → op.Ans → FileTree C → Prop
  | .readDir _, ans, t' => (∃ e, ans = .error e) ∧ t' = t
  | .createDirAll p, ans, t' =>
    (∃ e, ans = .error e) ∧ ∃ q, q <+: p ∧ t' = (t.exec (.createDirAll q)).2
  | .openTruncate _ _, ans, t' => (∃ e, ans = .error e) ∧ t' = t
  | .writeAll ino _, ans, t' =>
    (∃ e, ans = .error e) ∧ ∃ part, t' = t.mapNodes (fill ino part)
  | .readLink _, ans, t' => (∃ e, ans = .error e) ∧ t' = t
  | .readFile _, ans, t' => (∃ e, ans = .error e) ∧ t' = t
  | .pathExists _, ans, t' => ans = false ∧ t' = t
  | .isDir _, ans, t' => ans = false ∧ t' = t
  | .createDir _, ans, t' => (∃ e, ans = .error e) ∧ t' = t
  | .setPermissions _ _, ans, t' => (∃ e, ans = .error e) ∧ t' = t
  | .syncAll _, ans, t' => (∃ e, ans = .error e) ∧ t' = t
  | .chgrp _ _, ans, t' => (∃ e, ans = .error e) ∧ t' = t
  | .fsyncDir _, ans, t' => (∃ e, ans = .error e) ∧ t' = t
  | .symlink _ _, ans, t' => (∃ e, ans = .error e) ∧ t' = t
  | .rename _ _, ans, t' => (∃ e, ans = .error e) ∧ t' = t
  | .removeFile _, ans, t' => (∃ e, ans = .error e) ∧ t' = t
  | .removeDirAll p, ans, t' =>
    (∃ e, ans = .error e) ∧ ∃ gone : Path → Bool, t' = t.drop gone ∧ ∀ q, gone q = true →
        (∃ a, t.resolve false p = .ok a ∧ a <+: q) ∧ ∀ x, gone (q ++ [x]) = true
  | .symlinkMetadata _, ans, t' => (∃ e, ans = .error e) ∧ t' = t

/-- A call does what `exec` says. -/
def Exact [Inhabited C] : World (FsSig C) (FileTree C) := fun op t ans t' =>
  SameAnswer op (t.exec op).1 ans ∧ t' = (t.exec op).2

/-- A call does what `exec` says or, if `may` lets it, fails. -/
def Faulty [Inhabited C] (may : FsOp C → Prop) : World (FsSig C) (FileTree C) := fun op t ans t' =>
  Exact op t ans t' ∨ may op ∧ t.Fails op ans t'

/-- A call that cannot fail does what `exec` says. -/
theorem Faulty.sure [Inhabited C] {may : FsOp C → Prop} {op : FsOp C} {t t' : FileTree C}
    {ans : op.Ans} (hw : Faulty may op t ans t') (hmay : ¬ may op) : Exact op t ans t' :=
  hw.resolve_right fun hfails => hmay hfails.1

end FileTree

/-! ## 3. The calls as programs -/

namespace Fs

variable {C : Type}

def call (o : FsOp C) : Prog (FsSig C) o.Ans := @Prog.op (FsSig C) o

def readDir (p : Path) : Fallible (FsSig C) IoError (List String) := ExceptT.mk (call (.readDir p))
def createDir (p : Path) : Fallible (FsSig C) IoError Unit := ExceptT.mk (call (.createDir p))
def createDirAll (p : Path) : Fallible (FsSig C) IoError Unit := ExceptT.mk (call (.createDirAll p))
def setPermissions (p : Path) (mode : Nat) : Fallible (FsSig C) IoError Unit :=
  ExceptT.mk (call (.setPermissions p mode))
def openTruncate (p : Path) (mode : Nat) : Fallible (FsSig C) IoError Nat :=
  ExceptT.mk (call (.openTruncate p mode))
def writeAll (ino : Nat) (content : C) : Fallible (FsSig C) IoError Unit :=
  ExceptT.mk (call (.writeAll ino content))
def syncAll (ino : Nat) : Fallible (FsSig C) IoError Unit := ExceptT.mk (call (.syncAll ino))
def chgrp (p : Path) (gid : Nat) : Fallible (FsSig C) IoError Unit := ExceptT.mk (call (.chgrp p gid))
def fsyncDir (p : Path) : Fallible (FsSig C) IoError Unit := ExceptT.mk (call (.fsyncDir p))
def symlink (dest p : Path) : Fallible (FsSig C) IoError Unit := ExceptT.mk (call (.symlink dest p))
def rename (p q : Path) : Fallible (FsSig C) IoError Unit := ExceptT.mk (call (.rename p q))
def removeFile (p : Path) : Fallible (FsSig C) IoError Unit := ExceptT.mk (call (.removeFile p))
def removeDirAll (p : Path) : Fallible (FsSig C) IoError Unit := ExceptT.mk (call (.removeDirAll p))
def symlinkMetadata (p : Path) : Fallible (FsSig C) IoError Unit :=
  ExceptT.mk (call (.symlinkMetadata p))
def readLink (p : Path) : Fallible (FsSig C) IoError Path := ExceptT.mk (call (.readLink p))
def readFile (p : Path) : Fallible (FsSig C) IoError C := ExceptT.mk (call (.readFile p))
def pathExists (p : Path) : Prog (FsSig C) Bool := call (.pathExists p)
def isDir (p : Path) : Prog (FsSig C) Bool := call (.isDir p)

end Fs

end Svidlet.Lib
