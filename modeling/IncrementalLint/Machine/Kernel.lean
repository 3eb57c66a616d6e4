import IncrementalLint.Machine.Program
import IncrementalLint.Machine.Raw
import IncrementalLint.Job

/-!
# Processes

A machine runs processes over one workspace and one clock. It answers what they ask for one
question at a time, each of which takes a little time, and jumps ahead when all of them sleep or
wait. What is written to the captured stream is kept.

* `Machine.perform`  the answer to one question, or that it has to wait;
* `Machine.turn`     lets one process ask once;
* `Machine.advance`  runs until a time.
-/

namespace IncrementalLint

/-! ## open files -/

/-- what a descriptor stands for -/
inductive Stream where
  | stored (location : Location)
  | device (kind : Device)
  | pipeOut (id : Nat)
  | pipeIn (id : Nat)
  | captured
  deriving DecidableEq, Inhabited

structure OpenFile where
  stream : Stream
  readable : Bool
  writable : Bool
  append : Bool := false
  offset : Nat := 0
  deriving Inhabited

/-! ## processes -/

structure Task where
  pid : Nat
  parent : Nat
  group : Nat
  cwd : Location
  /-- descriptors and the numbers of their open files -/
  descriptors : List (Nat × Nat)
  program : Program Nat
  ended : Option Ending := none
  stopped : Bool := false
  /-- when a sleeping process goes on -/
  wake : Option Time := none
  dispositions : List (Signal × Disposition) := []
  caught : List Signal := []
  deriving Inhabited

structure Machine where
  workspace : Workspace
  tasks : List Task
  openFiles : List (Nat × OpenFile)
  pipes : List (Nat × ByteArray)
  captured : ByteArray
  nextPid : Nat
  nextFile : Nat
  /-- the process whose turn it is, and for how many questions more -/
  current : Nat
  credit : Nat
  deriving Inhabited

/-- puts a value under a number in a table -/
def setEntry {α : Type} (table : List (Nat × α)) (key : Nat) (v : α) : List (Nat × α) :=
  (key, v) :: table.filter fun e => e.1 != key

def dropEntry {α : Type} (table : List (Nat × α)) (key : Nat) : List (Nat × α) :=
  table.filter fun e => e.1 != key

namespace Machine

/-! ## limits and costs -/

def pipeSize : Nat := 65536

/-- the time that an answer takes -/
def callCost : Time := 5000

/-- the time that a new process takes -/
def forkCost : Time := 200000

/-- how many questions a process may ask in a row -/
def slice : Nat := 200

def clock (m : Machine) : Time := m.workspace.clock

def setClock (m : Machine) (t : Time) : Machine := { m with workspace := { m.workspace with clock := t } }

/-! ## tables -/

def task? (m : Machine) (pid : Nat) : Option Task := m.tasks.find? fun t => t.pid == pid

def setTask (m : Machine) (t : Task) : Machine :=
  { m with tasks := m.tasks.map fun u => if u.pid == t.pid then t else u }

def isAlive (t : Task) : Bool := t.ended.isNone

def openFile? (m : Machine) (t : Task) (fd : Nat) : Option (Nat × OpenFile) := do
  let id ← t.descriptors.lookup fd
  return (id, ← m.openFiles.lookup id)

def setOpenFile (m : Machine) (id : Nat) (f : OpenFile) : Machine :=
  { m with openFiles := setEntry m.openFiles id f }

/-- whether a living process holds a stream -/
def isHeld (m : Machine) (s : Stream) : Bool :=
  m.tasks.any fun t => isAlive t && t.descriptors.any fun d =>
    ((m.openFiles.lookup d.2).map fun f => f.stream == s).getD false

/-- a new open file under the first free descriptor -/
def install (m : Machine) (t : Task) (f : OpenFile) : Machine × Nat :=
  let fd := ((List.range 1024).find? fun n => (t.descriptors.lookup n).isNone).getD 1024
  ({ m with
      openFiles := (m.nextFile, f) :: m.openFiles
      nextFile := m.nextFile + 1 }.setTask { t with descriptors := setEntry t.descriptors fd m.nextFile },
    fd)

/-! ## ends and signals -/

/-- ends a process; its children are nobody's, and nobody's ended children are gone -/
def finish (m : Machine) (pid : Nat) (how : Ending) : Machine :=
  let tasks := m.tasks.map fun t =>
    if t.pid == pid then { t with ended := some how, descriptors := [], program := .done 0 }
    else if t.parent == pid then { t with parent := 1 }
    else t
  { m with tasks := tasks.filter fun t => !(t.parent == 1 && t.ended.isSome) }

def dispositionOf (t : Task) (s : Signal) : Disposition := (t.dispositions.lookup s).getD .default

def deliver (m : Machine) (s : Signal) (t : Task) : Machine :=
  if t.ended.isSome then m
  else if s == 9 then m.finish t.pid (.killed s)
  else if s == 19 then m.setTask { t with stopped := true }
  else
    let t := if s == Signal.continued then { t with stopped := false } else t
    match dispositionOf t s with
    | .ignored => m.setTask t
    | .caught => m.setTask { t with caught := if t.caught.contains s then t.caught else t.caught ++ [s] }
    | .default =>
      match s.default with
      | .ends => m.finish t.pid (.killed s)
      | .nothing => m.setTask t
      | .continues => m.setTask t
      | .stops => m.setTask { t with stopped := true }

def signal (m : Machine) (s : Signal) (hit : Task → Bool) : Machine :=
  (m.tasks.filter hit).foldl (fun m t =>
    match m.task? t.pid with
    | some t => if s == 0 then m else m.deliver s t
    | none => m) m

/-! ## reading and writing -/

/-- bytes put over others from a place on; a gap is filled with zeros -/
def overlay (old : ByteArray) (offset : Nat) (new : ByteArray) : ByteArray :=
  let front := old.extract 0 offset
  let gap := (List.replicate (offset - old.size) (0 : UInt8)).toByteArray
  front ++ gap ++ new ++ old.extract (offset + new.size) old.size

def storedContent (m : Machine) (l : Location) : ByteArray :=
  match m.workspace.node? l with
  | some (.file c _ _) => c
  | _ => ByteArray.empty

inductive Answer (α : Type) where
  | now (m : Machine) (a : α)
  | later (m : Machine)
  | gone (m : Machine)

def readFrom (m : Machine) (t : Task) (fd size : Nat) : Answer (Except FileError ByteArray) :=
  match m.openFile? t fd with
  | none => .now m (.error .badDescriptor)
  | some (id, f) =>
    if !f.readable then .now m (.error .badDescriptor)
    else
      match f.stream with
      | .stored l =>
        match m.workspace.node? l with
        | some (.directory _) => .now m (.error .isDirectory)
        | _ =>
          let bs := (m.storedContent l).extract f.offset (f.offset + size)
          .now (m.setOpenFile id { f with offset := f.offset + bs.size }) (.ok bs)
      | .device .null => .now m (.ok ByteArray.empty)
      | .device .zero => .now m (.ok (List.replicate size (0 : UInt8)).toByteArray)
      | .pipeOut p =>
        let buffer := (m.pipes.lookup p).getD ByteArray.empty
        if buffer.isEmpty then
          if m.isHeld (.pipeIn p) then .later m else .now m (.ok ByteArray.empty)
        else
          .now { m with pipes := setEntry m.pipes p (buffer.extract size buffer.size) }
            (.ok (buffer.extract 0 size))
      | .pipeIn _ => .now m (.error .badDescriptor)
      | .captured => .now m (.error .badDescriptor)

/-- a write that nobody can read -/
def brokenPipe (m : Machine) (t : Task) : Answer (Except FileError Unit) :=
  match dispositionOf t Signal.pipe with
  | .default => .gone (m.finish t.pid (.killed Signal.pipe))
  | _ => .now (m.deliver Signal.pipe t) (.error .brokenPipe)

/-- writes what fits; what does not is left to the asker to ask for again -/
def writeTo (m : Machine) (t : Task) (fd : Nat) (bytes : ByteArray) :
    Answer (Except FileError Unit × ByteArray) :=
  match m.openFile? t fd with
  | none => .now m (.error .badDescriptor, ByteArray.empty)
  | some (id, f) =>
    if !f.writable then .now m (.error .badDescriptor, ByteArray.empty)
    else
      match f.stream with
      | .stored l =>
        let old := m.storedContent l
        let offset := if f.append then old.size else f.offset
        let node := match m.workspace.node? l with
          | some (.file _ _ x) => Node.file (overlay old offset bytes) m.clock x
          | _ => Node.file (overlay old offset bytes) m.clock false
        let m := { m with workspace := m.workspace.overwrite l node }
        .now (m.setOpenFile id { f with offset := offset + bytes.size }) (.ok (), ByteArray.empty)
      | .device _ => .now m (.ok (), ByteArray.empty)
      | .captured => .now { m with captured := m.captured ++ bytes } (.ok (), ByteArray.empty)
      | .pipeOut _ => .now m (.error .badDescriptor, ByteArray.empty)
      | .pipeIn p =>
        if m.isHeld (.pipeOut p) then
          let buffer := (m.pipes.lookup p).getD ByteArray.empty
          let space := pipeSize - buffer.size
          if space == 0 && !bytes.isEmpty then .later m
          else
            .now { m with pipes := setEntry m.pipes p (buffer ++ bytes.extract 0 space) }
              (.ok (), bytes.extract space bytes.size)
        else
          match m.brokenPipe t with
          | .now m r => .now m (r, ByteArray.empty)
          | .later m => .later m
          | .gone m => .gone m

/-! ## opening -/

/-- the descriptor that a path under the system's directories names -/
def namedDescriptor? (path : Path) : Option Nat :=
  match path.text with
  | "/dev/stdin" => some 0
  | "/dev/stdout" => some 1
  | "/dev/stderr" => some 2
  | s =>
    if Text.startsWith s "/dev/fd/" then (s.drop 8).toNat?
    else if Text.startsWith s "/proc/self/fd/" then (s.drop 14).toNat?
    else none

def openPath (m : Machine) (t : Task) (path : Path) (mode : OpenMode) :
    Machine × Except FileError Nat :=
  let w := { m.workspace with cwd := t.cwd }
  let use (m : Machine) (s : Stream) : Machine × Except FileError Nat :=
    let (m, fd) := m.install t ⟨s, mode.read, mode.write, mode.append, 0⟩
    (m, .ok fd)
  match namedDescriptor? path with
  | some fd =>
    match m.openFile? t fd with
    | some (_, f) =>
      let (m, fd) := m.install t f
      (m, .ok fd)
    | none => (m, .error .notFound)
  | none =>
    match w.locate path true with
    | .error e => (m, .error e)
    | .ok (.free l mustBeDirectory) =>
      if !mode.create then (m, .error .notFound)
      else if mustBeDirectory then (m, .error .isDirectory)
      else
        use { m with workspace := m.workspace.add l (.file ByteArray.empty m.clock false) } (.stored l)
    | .ok (.found l n) =>
      if mode.new && (match n with | .device _ => false | _ => true) then (m, .error .alreadyExists)
      else
        match n with
        | .directory _ => if mode.write then (m, .error .isDirectory) else use m (.stored l)
        | .device d => use m (.device d)
        | .link _ => (m, .error .tooManyLinks)
        | .file _ _ x =>
          if mode.truncate then
            use { m with workspace := m.workspace.overwrite l (.file ByteArray.empty m.clock x) } (.stored l)
          else use m (.stored l)

/-! ## answers -/

def waitFor (m : Machine) (t : Task) (child : Option Nat) (block : Bool) : Answer Waited :=
  let children := m.tasks.filter fun u =>
    u.parent == t.pid && (child.map (· == u.pid)).getD true
  match children.find? fun u => u.ended.isSome with
  | some u =>
    .now { m with tasks := m.tasks.filter fun v => v.pid != u.pid } (.ended u.pid (u.ended.getD (.exited 0)))
  | none =>
    if children.isEmpty then .now m .childless
    else if !block then .now m .running
    else if !t.caught.isEmpty then .now m .interrupted
    else .later m

def killTargets (m : Machine) (t : Task) (target : Int) (s : Signal) : Machine × Except FileError Unit :=
  let hit : Task → Bool := fun u =>
    if target > 0 then u.pid == target.toNat
    else if target == 0 then u.group == t.group
    else if target == -1 then u.pid != t.pid
    else u.group == (-target).toNat
  if m.tasks.any hit then (m.signal s hit, .ok ()) else (m, .error .noSuchProcess)

/-- the answer to a question of a process, other than a fork, a write or its end -/
def perform (m : Machine) (t : Task) (c : Call) : Answer c.Reply :=
  match c with
  | .time => .now m m.clock
  | .sleep nanos =>
    match t.wake with
    | none => .later (m.setTask { t with wake := some (m.clock + nanos) })
    | some time =>
      if time ≤ m.clock then .now (m.setTask { t with wake := none }) () else .later m
  | .files => .now m { m.workspace with cwd := t.cwd }
  | .change f =>
    let (w, r) := f { m.workspace with cwd := t.cwd }
    .now { m with workspace := { w with cwd := m.workspace.cwd } } r
  | .enter dir => .now (m.setTask { t with cwd := dir }) ()
  | .openFile path mode =>
    let (m, r) := m.openPath t path mode
    .now m r
  | .close fd => .now (m.setTask { t with descriptors := dropEntry t.descriptors fd }) ()
  | .duplicate fd dest =>
    match t.descriptors.lookup fd with
    | none => .now m (.error .badDescriptor)
    | some id => .now (m.setTask { t with descriptors := setEntry t.descriptors dest id }) (.ok ())
  | .isOpen fd => .now m (t.descriptors.lookup fd).isSome
  | .pipe =>
    let id := m.nextFile
    let m := { m with pipes := (id, ByteArray.empty) :: m.pipes }
    let (m, out) := m.install t ⟨.pipeOut id, true, false, false, 0⟩
    match m.task? t.pid with
    | none => .now m (out, out)
    | some t =>
      let (m, in_) := m.install t ⟨.pipeIn id, false, true, false, 0⟩
      .now m (out, in_)
  | .read fd size => m.readFrom t fd size
  | .write fd bytes =>
    match m.writeTo t fd bytes with
    | .now m (r, _) => .now m r
    | .later m => .later m
    | .gone m => .gone m
  | .fork => .now m none
  | .wait child block => m.waitFor t child block
  | .kill target s =>
    let (m, r) := m.killTargets t target s
    .now m r
  | .self => .now m t.pid
  | .parent => .now m t.parent
  | .arrange s d => .now (m.setTask { t with dispositions := setEntry t.dispositions s d }) ()
  | .arranged s => .now m (dispositionOf t s)
  | .caught => .now (m.setTask { t with caught := [] }) t.caught
  | .exit status => .gone (m.finish t.pid (.exited (status % 256)))

/-- sets what a process does next, if it is still there -/
def goOn (m : Machine) (pid : Nat) (p : Program Nat) : Machine :=
  match m.task? pid with
  | some t => if t.ended.isSome then m else m.setTask { t with program := p }
  | none => m

def spend (m : Machine) (cost : Time) : Machine := m.setClock (m.clock + cost)

/-- lets a process ask once; none if it has to wait -/
def turn (m : Machine) (t : Task) : Machine × Bool :=
  if t.ended.isSome || t.stopped then (m, false)
  else
    match t.program with
    | .done status => (m.finish t.pid (.exited (status % 256)), true)
    | .ask .fork next =>
      let pid := m.nextPid
      let child : Task :=
        { t with pid := pid, parent := t.pid, program := next none, caught := [], wake := none }
      let m := { m with tasks := m.tasks ++ [child], nextPid := pid + 1 }
      ((m.goOn t.pid (next (some pid))).spend forkCost, true)
    | .ask (.write fd bytes) next =>
      match m.writeTo t fd bytes with
      | .now m (r, rest) =>
        if rest.isEmpty then ((m.goOn t.pid (next r)).spend callCost, true)
        else ((m.goOn t.pid (.ask (.write fd rest) next)).spend callCost, true)
      | .later m => (m, false)
      | .gone m => (m.spend callCost, true)
    | .ask c next =>
      match m.perform t c with
      | .now m r => ((m.goOn t.pid (next r)).spend callCost, true)
      | .later m => (m, false)
      | .gone m => (m.spend callCost, true)

/-! ## taking turns -/

def order (m : Machine) : List Nat :=
  let pids := m.tasks.map (·.pid)
  if m.credit == 0 then pids.filter (· > m.current) ++ pids.filter (· ≤ m.current)
  else pids.filter (· ≥ m.current) ++ pids.filter (· < m.current)

/-- lets the first process that does not have to wait ask once -/
def runFirst (m : Machine) : List Nat → Machine × Bool
  | [] => (m, false)
  | pid :: rest =>
    match m.task? pid with
    | none => runFirst m rest
    | some t =>
      match m.turn t with
      | (m', true) =>
        let credit := if pid == m.current && m.credit > 0 then m.credit - 1 else slice
        ({ m' with current := pid, credit := credit }, true)
      | (m', false) => runFirst m' rest

def nextWake? (m : Machine) : Option Time :=
  (m.tasks.filter fun t => isAlive t && !t.stopped).filterMap (·.wake) |>.min?

/-- runs until a time, with `fuel` turns at most -/
def advanceFrom (limit : Time) : Nat → Machine → Machine
  | 0, m => m.setClock (max m.clock limit)
  | fuel + 1, m =>
    if limit ≤ m.clock then m
    else
      match m.runFirst m.order with
      | (m, true) => advanceFrom limit fuel m
      | (m, false) =>
        match m.nextWake? with
        | some t =>
          if t < limit then advanceFrom limit fuel (m.setClock (max t m.clock))
          else m.setClock limit
        | none => m.setClock limit

def advance (m : Machine) (limit : Time) : Machine :=
  advanceFrom limit (2 * ((limit - m.clock) / callCost).toNat + 8) m

/-- whether nothing will ever happen again -/
def isStuck (m : Machine) : Bool := (m.nextWake?).isNone && !(m.runFirst m.order).2

/-- a machine with one process, which reads nothing and whose output is captured -/
def boot (w : Workspace) (cwd : Location) (program : Program Nat) : Machine where
  workspace := w
  tasks := [{
    pid := 1000
    parent := 2
    group := 1000
    cwd := cwd
    descriptors := [(0, 0), (1, 1), (2, 2)]
    program := program }]
  openFiles := [
    (0, { stream := .device .null, readable := true, writable := false }),
    (1, { stream := .captured, readable := false, writable := true }),
    (2, { stream := .device .null, readable := true, writable := true })]
  pipes := []
  captured := ByteArray.empty
  nextPid := 1001
  nextFile := 3
  current := 1000
  credit := slice

/-- the number of the first process -/
def firstPid : Nat := 1000

/-- what a look at the first process shows -/
def observe (m : Machine) : Observation :=
  match m.task? firstPid with
  | some { ended := some (.exited status), .. } => .exited (UInt8.ofNat status)
  | some { ended := some (.killed signal), .. } => .signaled (UInt8.ofNat signal)
  | some _ => .running
  | none => .lost .noChildren

end Machine

end IncrementalLint
