/-!
# Signals

The signals of a process: their numbers and names, what they are called in messages, and what they
do to a process that makes no arrangement for them.
-/

namespace IncrementalLint

abbrev Signal := Nat

namespace Signal

def interrupt : Signal := 2
def killed : Signal := 9
def pipe : Signal := 13
def terminate : Signal := 15
def continued : Signal := 18

def table : List (String × String) := [
  ("HUP", "Hangup"), ("INT", "Interrupt"), ("QUIT", "Quit"), ("ILL", "Illegal instruction"),
  ("TRAP", "Trace/breakpoint trap"), ("ABRT", "Aborted"), ("BUS", "Bus error"),
  ("FPE", "Floating point exception"), ("KILL", "Killed"), ("USR1", "User defined signal 1"),
  ("SEGV", "Segmentation fault"), ("USR2", "User defined signal 2"), ("PIPE", "Broken pipe"),
  ("ALRM", "Alarm clock"), ("TERM", "Terminated"), ("STKFLT", "Stack fault"),
  ("CHLD", "Child exited"), ("CONT", "Continued"), ("STOP", "Stopped (signal)"),
  ("TSTP", "Stopped"), ("TTIN", "Stopped (tty input)"), ("TTOU", "Stopped (tty output)"),
  ("URG", "Urgent I/O condition"), ("XCPU", "CPU time limit exceeded"),
  ("XFSZ", "File size limit exceeded"), ("VTALRM", "Virtual timer expired"),
  ("PROF", "Profiling timer expired"), ("WINCH", "Window changed"), ("IO", "I/O possible"),
  ("PWR", "Power failure"), ("SYS", "Bad system call")]

/-- the first number that is no signal -/
def limit : Nat := 65

def name? (s : Signal) : Option String := if s = 0 then none else (table[s - 1]?).map (·.1)

def describe (s : Signal) : String :=
  match if s = 0 then none else table[s - 1]? with
  | some (_, d) => d
  | none => if 34 ≤ s && s < limit then "Real-time signal " ++ toString (s - 34)
    else "Unknown signal " ++ toString s

/-- the signal of a name, without its first three letters SIG -/
def ofName? (name : String) : Option Signal :=
  (table.findIdx? fun e => e.1 == name).map (· + 1)

inductive Default where
  | ends
  | nothing
  | stops
  | continues
  deriving DecidableEq

def default (s : Signal) : Default :=
  if s == 17 || s == 23 || s == 28 then .nothing
  else if s == 18 then .continues
  else if 19 ≤ s && s ≤ 22 then .stops
  else .ends

end Signal

inductive Disposition where
  | default
  | ignored
  | caught
  deriving DecidableEq, Inhabited

end IncrementalLint
