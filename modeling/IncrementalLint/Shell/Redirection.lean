import IncrementalLint.Shell.Child

/-!
# Redirections

Before a command runs, its redirections are expanded, then done one after another. Afterwards the
descriptors stand for what they stood for before.

* `Redirection.expand`   the files and texts that redirections name;
* `Redirection.apply`    does redirections, or says why one cannot be done;
* `Redirection.restore`  puts descriptors back.
-/

namespace IncrementalLint.Shell

/-- what a redirection makes a descriptor stand for -/
inductive Source? where
  | file (name : String) (kind : RedirKind)
  | descriptor (fd : Nat)
  | nothing
  | text (content : String)

structure Redirection where
  fd : Nat
  target : Source?

/-- a descriptor and where it is kept, if it was open -/
structure Kept where
  fd : Nat
  copy : Option Nat

namespace Redirection

open Act

/-- what a file operation's fault is called in front of a command -/
def faultText (opening : Bool) (e : FileError) : String :=
  match e with
  | .notFound | .notDirectory => if opening then "No such file" else "Directory nonexistent"
  | e => e.reason

/-- the number that a single digit writes -/
def digit? (text : String) : Option Nat :=
  match text.toList with
  | [c] => if c.isDigit then some (c.toNat - 48) else none
  | _ => none

def expandOne (l : Level) (r : Redir) : Act Redirection := do
  match r.kind with
  | .document =>
    let w := ((← get).documents.lookup r.document).getD []
    return ⟨r.fd, .text (Bits.text (← l.expand .never w))⟩
  | .duplicate =>
    let text := Bits.text (← l.expand .front r.target)
    if text == "-" then return ⟨r.fd, .nothing⟩
    else
      match Redirection.digit? text with
      | some fd => return ⟨r.fd, .descriptor fd⟩
      | none => fail "Syntax error: Bad fd number"
  | kind => return ⟨r.fd, .file (Bits.text (← l.expand .front r.target)) kind⟩

def expand (l : Level) (rs : List Redir) : Act (List Redirection) := rs.mapM (expandOne l)

/-! ## opening -/

/-- whether a name leads to a file that must not be written over -/
def isTaken (w : Workspace) (path : Path) : Bool :=
  match w.find path with
  | .ok (_, .file _ _ _) => true
  | _ => false

/-- the bytes that a pipe holds without a reader -/
def pipeRoom : Nat := 65536

/-- writes a text into a pipe and gives its other end -/
def openText (l : Level) (content : String) : Act Nat := do
  let (out, in_) ← ask .pipe
  if content.length ≤ pipeRoom then put in_ content
  else
    let _ ← spawn l do
      ask (.close out)
      put in_ content
  ask (.close in_)
  return out

/-- opens what a redirection names: a descriptor, nothing, or a complaint -/
def openTarget (l : Level) (r : Redirection) : Act (Except String (Option Nat)) := do
  match r.target with
  | .nothing => return .ok none
  | .descriptor fd => return .ok (some fd)
  | .text content => return .ok (some (← openText l content))
  | .file name kind =>
    let path : Path := ⟨Raw.toText name⟩
    let opening := kind == .input
    let mode : OpenMode ← match kind with
      | .input => pure OpenMode.reading
      | .append => pure OpenMode.appending
      | .both => pure OpenMode.both
      | .output false => do
        let w : Workspace ← ask .files
        if (← get).options.noClobber && isTaken w path then pure OpenMode.fresh
        else pure OpenMode.writing
      | _ => pure OpenMode.writing
    match ← ask (.openFile path mode) with
    | .ok fd => return .ok (some fd)
    | .error e =>
      return .error ((if opening then "cannot open " else "cannot create ") ++ name ++ ": " ++
        faultText opening e)

/-! ## doing and undoing -/

/-- the first descriptor that commands never name -/
def firstHidden : Nat := 10

/-- the first free descriptor from a number on -/
def freeFrom : Nat → Nat → Act Nat
  | 0, fd => return fd
  | fuel + 1, fd => do if ← ask (.isOpen fd) then freeFrom fuel (fd + 1) else return fd

/-- keeps what a descriptor stands for -/
def keep (fd : Nat) : Act Kept := do
  if ← ask (.isOpen fd) then
    let copy ← freeFrom 1000 firstHidden
    let _ ← ask (.duplicate fd copy)
    modify fun s => { s with kept := copy :: s.kept }
    return ⟨fd, some copy⟩
  else return ⟨fd, none⟩

def forget (copy : Nat) : Act Unit := do
  ask (.close copy)
  modify fun s => { s with kept := s.kept.filter (· != copy) }

/-- puts descriptors back, the last one first -/
def restore : List Kept → Act Unit
  | [] => return
  | k :: rest => do
    match k.copy with
    | some copy =>
      let _ ← ask (.duplicate copy k.fd)
      forget copy
    | none => ask (.close k.fd)
    restore rest

/-- lets descriptors stand for what they stand for now -/
def settle : List Kept → Act Unit
  | [] => return
  | k :: rest => do
    match k.copy with
    | some copy => forget copy
    | none => pure ()
    settle rest

/-- keeps a descriptor that is not yet kept; `opened` is what it will stand for -/
def keepOnce (keeping : Bool) (kept : List Kept) (fd : Nat) (opened : Option Nat) :
    Act (List Kept) := do
  if !keeping || kept.any (·.fd == fd) then return kept
  else if opened == some fd then return ⟨fd, none⟩ :: kept
  else return (← keep fd) :: kept

def applyOne (l : Level) (keeping : Bool) (kept : List Kept) (r : Redirection) :
    Act (List Kept × Option String) := do
  match ← openTarget l r with
  | .error message => return (kept, some message)
  | .ok source =>
    match r.target, source with
    | .descriptor fd, _ =>
      if fd == r.fd then return (kept, none)
      else
        let kept ← keepOnce keeping kept r.fd none
        match ← ask (.duplicate fd r.fd) with
        | .ok () => return (kept, none)
        | .error e => return (kept, some (toString fd ++ ": " ++ e.reason))
    | _, none =>
      let kept ← keepOnce keeping kept r.fd none
      ask (.close r.fd)
      return (kept, none)
    | _, some fd =>
      let kept ← keepOnce keeping kept r.fd (some fd)
      connect fd r.fd
      return (kept, none)

/-- does redirections in order; gives what is to be put back, and a complaint about the first one
that cannot be done -/
def apply (l : Level) (keeping : Bool) : List Redirection → List Kept → Act (List Kept × Option String)
  | [], kept => return (kept, none)
  | r :: rest, kept => do
    match ← applyOne l keeping kept r with
    | (kept, some message) => return (kept, some message)
    | (kept, none) => apply l keeping rest kept

end Redirection

end IncrementalLint.Shell
