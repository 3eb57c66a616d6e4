import IncrementalLint.Outcome
import IncrementalLint.Files.Change
import IncrementalLint.Json.Reader

/-!
# The store of outcomes

The last outcome of each unit, kept in a file between runs together with two tags: the rules and
the version of the analyzer that the outcomes belong to. The time at which the file was written is
the point of reference for what has changed since.

* `Store.load`, `Store.save`  from and to a file;
* `Store.validateTags`        drops every entry when a tag differs.
-/

namespace IncrementalLint

inductive CacheError where
  /-- a file cannot be read or written -/
  | io (path : Path) (cause : FileError)
  /-- the file holds no store -/
  | malformed (path : Path)
  deriving DecidableEq, Inhabited

def CacheError.message : CacheError → String
  | .io path cause => "cache I/O error at " ++ path.text ++ ": " ++ cause.message
  | .malformed path => "failed to parse result cache " ++ path.text ++ ": not a store of outcomes"

structure Store where
  entries : SortedMap String Outcome := .empty
  ruleSetId : String := ""
  toolVersionId : String := ""
  /-- when the file was written, if the store comes from one -/
  reference : Option Time := none
  deriving DecidableEq, Inhabited

namespace Store

/-! ## entries and tags -/

def get? (s : Store) (id : String) : Option Outcome := s.entries.get? id

def put (s : Store) (id : String) (o : Outcome) : Store := { s with entries := s.entries.insert id o }

def retain (s : Store) (keep : String → Bool) : Store :=
  { s with entries := s.entries.filterKeys keep }

def size (s : Store) : Nat := s.entries.size
def isEmpty (s : Store) : Bool := s.entries.isEmpty

/-- whether there are entries that belong to other tags -/
def isOutdated (s : Store) (rules tool : String) : Bool :=
  !s.isEmpty && (s.ruleSetId != rules || s.toolVersionId != tool)

/-- takes over the tags, without the entries if they belong to others; the flag tells whether
entries were dropped -/
def validateTags (s : Store) (rules tool : String) : Store × Bool :=
  ({ s with
      entries := if s.isOutdated rules tool then .empty else s.entries
      ruleSetId := rules
      toolVersionId := tool },
    s.isOutdated rules tool)

/-! ## in JSON -/

def toJson (s : Store) : Json :=
  .object [
    ("entries", .object (s.entries.toList.map fun e => (e.1, e.2.toJson))),
    ("ruleSetId", .string s.ruleSetId),
    ("toolVersionId", .string s.toolVersionId)]

open Json in
/-- the store that a value describes, as of a time -/
def ofJson? (reference : Time) (v : Json) : Option Store := do
  let fs ← Fields.ofJson? ["entries", "ruleSetId", "toolVersionId"] v
  return {
    entries := ← fs.withDefault? "entries" .empty (asMap? Outcome.ofJson?)
    ruleSetId := ← fs.withDefault? "ruleSetId" "" asString?
    toolVersionId := ← fs.withDefault? "toolVersionId" "" asString?
    reference := some reference }

/-! ## in a file -/

def load (w : Workspace) (path : Path) : Except CacheError Store :=
  match w.readText path with
  | .error .notFound => .ok {}
  | .error e => .error (.io path e)
  | .ok text =>
    match w.modified path with
    | .error e => .error (.io path e)
    | .ok time =>
      match (Json.read? text).bind (ofJson? time) with
      | none => .error (.malformed path)
      | some s => .ok s

/-- the store in a file; empty if it cannot be had -/
def loadOrEmpty (w : Workspace) (path : Path) : Store :=
  match load w path with
  | .ok s => s
  | .error _ => {}

/-- writes the entries and tags to a file, making the directories around it -/
def save (s : Store) (w : Workspace) (path : Path) : Workspace × Except CacheError Unit :=
  match w.createParent path with
  | (w, .error (up, e)) => (w, .error (.io up e))
  | (w, .ok ()) =>
    match w.writeText path (Json.pretty s.toJson) with
    | (w, .error e) => (w, .error (.io path e))
    | (w, .ok ()) => (w, .ok ())

def remove (w : Workspace) (path : Path) : Workspace × Except CacheError Bool :=
  match w.unlink path with
  | (w, .ok ()) => (w, .ok true)
  | (w, .error .notFound) => (w, .ok false)
  | (w, .error e) => (w, .error (.io path e))

end Store

end IncrementalLint
