import IncrementalLint.Machine.Watch
import IncrementalLint.Proofs.Outcome
import IncrementalLint.Proofs.Report

/-!
# Only a clean exit is a success

What comes of a job is settled by the first look at which it has ended or its deadline has passed. Only
an exit with status 0 that is seen at that look makes it a success; a job that is cut off says so in the
last line of its output, and counts as a failure from there on.

* `JobEnd.SeenBy`               an end that a look shows;
* `Job.Trace.Reaches`           the looks that a job is watched up to;
* `Job.Trace.ending_eq_some_iff`   how a job ends;
* `Job.Trace.Concludes`         what its outcome says of a job;
* `Job.SaysCutOff`              an outcome that says that a job was cut off;
* `Machine.watch_settles`       a job with a deadline is watched until a look settles it;
* `Job.conclude_exact`          all this of every job, whatever is seen of it.
-/

namespace IncrementalLint

/-! ## a line at the end -/

namespace Chars

/-- a line feed ends what comes before it -/
theorem linesFrom_feed (acc cs rest : List Char) :
    linesFrom acc (cs ++ '\n' :: rest) = linesFrom acc (cs ++ ['\n']) ++ lines rest := by
  induction cs generalizing acc with
  | nil => rfl
  | cons c cs ih =>
    rw [List.cons_append, List.cons_append, linesFrom, linesFrom]
    split
    · rw [ih, List.cons_append]
    · exact ih _

theorem linesFrom_line {line : List Char} (h : '\n' ∉ line) (acc : List Char) :
    linesFrom acc (line ++ ['\n']) = [dropReturn (acc.reverse ++ line)] := by
  induction line generalizing acc with
  | nil =>
    rw [List.append_nil]
    rfl
  | cons c line ih =>
    have hc : c ≠ '\n' := fun he => h (he ▸ List.mem_cons_self)
    rw [List.cons_append, linesFrom, if_neg hc, ih fun hm => h (List.mem_cons_of_mem c hm),
      List.reverse_cons, List.append_assoc]
    rfl

/-- behind text that is empty or ended, a line is one of its own -/
theorem lines_append_line {cs line : List Char} (hcs : cs = [] ∨ ∃ front, cs = front ++ ['\n'])
    (hfeed : '\n' ∉ line) (hreturn : line.getLast? ≠ some '\r') :
    lines (cs ++ line ++ ['\n']) = lines cs ++ [line] := by
  have hline : lines (line ++ ['\n']) = [line] := by
    rw [lines, linesFrom_line hfeed, List.reverse_nil, List.nil_append, dropReturn, if_neg hreturn]
  rcases hcs with rfl | ⟨front, rfl⟩
  · exact hline
  · rw [lines, List.append_assoc, List.append_assoc, List.singleton_append, linesFrom_feed, hline]
    rfl

end Chars

/-! ## looks -/

/-- an end that a look shows: what it sees, or that the job still runs at its deadline -/
def JobEnd.SeenBy (deadline : Option Time) (p : Poll) : JobEnd → Prop
  | .exited status => p.seen = .exited status
  | .signaled signal => p.seen = .signaled signal
  | .lost cause => p.seen = .lost cause
  | .cutOff => p.seen = .running ∧ ∃ d ∈ deadline, d ≤ p.time

namespace Poll

variable {deadline : Option Time} {p : Poll}

theorem settles_eq_some_iff {e : JobEnd} : p.settles deadline = some e ↔ e.SeenBy deadline p := by
  unfold settles
  cases hp : p.seen with
  | running =>
    cases deadline with
    | none => cases e <;> simp [JobEnd.SeenBy, hp]
    | some d => by_cases hd : d ≤ p.time <;> cases e <;> simp [JobEnd.SeenBy, hp, hd]
  | exited status => cases e <;> simp [JobEnd.SeenBy, hp]
  | signaled signal => cases e <;> simp [JobEnd.SeenBy, hp]
  | lost cause => cases e <;> simp [JobEnd.SeenBy, hp]

/-- a look leaves open what becomes of a job that runs before its deadline -/
theorem settles_eq_none_iff : p.settles deadline = none ↔ p.seen = .running ∧ ∀ d ∈ deadline, p.time < d := by
  unfold settles
  cases hp : p.seen with
  | running => cases deadline <;> simp
  | _ => simp

theorem settles_of_passed {d : Time} (h : d ≤ p.time) : (p.settles (some d)).isSome = true := by
  rw [Option.isSome_iff_ne_none]
  intro hnone
  exact absurd ((settles_eq_none_iff.mp hnone).2 d rfl) (Int.not_lt.mpr h)

end Poll

namespace Job

namespace Trace

variable {t : Trace} {timeout : Option Nat} {start : Time} {p : Poll}

/-- a job that started is watched up to a look: at the looks before, it was running, and its deadline had
not passed -/
def Reaches (t : Trace) (timeout : Option Nat) (start : Time) (p : Poll) : Prop :=
  t.start = .ok start ∧ ∃ before after, t.polls = before ++ p :: after ∧
    ∀ q ∈ before, q.seen = .running ∧ ∀ d ∈ deadline start timeout, q.time < d

theorem ending_eq_some_iff {e : JobEnd} : t.ending timeout = some e ↔
    ∃ start p, t.Reaches timeout start p ∧ e.SeenBy (deadline start timeout) p := by
  unfold ending Reaches
  cases hstart : t.start with
  | error cause => simp
  | ok start =>
    simp only [Job.ending, List.findSome?_eq_some_iff, Poll.settles_eq_none_iff, Poll.settles_eq_some_iff]
    constructor
    · rintro ⟨before, p, after, hpolls, hp, hbefore⟩
      exact ⟨start, p, ⟨rfl, before, after, hpolls, hbefore⟩, hp⟩
    · rintro ⟨_, p, ⟨⟨⟩, before, after, hpolls, hbefore⟩, hp⟩
      exact ⟨before, p, after, hpolls, hp, hbefore⟩

theorem conclude_of_ending {name : String} {e : JobEnd} (h : t.ending timeout = some e) :
    t.conclude name timeout = some (outcome name timeout t.captured e) := by
  cases hstart : t.start with
  | error cause => simp [ending, hstart] at h
  | ok start => simp [conclude, hstart, h]

theorem conclude_of_notStarted {name : String} {cause : FileError} (h : t.start = .error cause) :
    t.conclude name timeout = some (notStarted name cause) := by
  rw [conclude, h]

theorem conclude_eq_some_iff {name : String} {o : Outcome} : t.conclude name timeout = some o ↔
    (∃ cause, t.start = .error cause ∧ o = notStarted name cause) ∨
      ∃ e, t.ending timeout = some e ∧ o = outcome name timeout t.captured e := by
  unfold conclude
  cases hstart : t.start with
  | error cause => simp [ending, hstart, eq_comm]
  | ok start =>
    rw [Option.map_eq_some_iff]
    simp [eq_comm]

end Trace

/-! ## results -/

section
variable {name : String} {timeout : Option Nat} {captured : ByteArray}

theorem toInt_exited {status : UInt8} :
    (outcome name timeout captured (.exited status)).result.toInt = status.toNat :=
  Int32.toInt_ofNat_of_lt (Nat.lt_trans status.toNat_lt (by decide))

theorem toInt_signaled {signal : UInt8} :
    (outcome name timeout captured (.signaled signal)).result.toInt = 128 + signal.toNat :=
  Int32.toInt_ofNat_of_lt (by have := signal.toNat_lt; omega)

/-- of all ends, one is a success -/
theorem outcome_result_eq_zero_iff {e : JobEnd} :
    (outcome name timeout captured e).result = 0 ↔ e = .exited 0 := by
  rw [← Int32.toInt_inj]
  cases e with
  | exited status =>
    rw [toInt_exited, JobEnd.exited.injEq, ← UInt8.toNat_inj]
    exact Int.natCast_eq_zero
  | signaled signal =>
    have hpos : (0 : Int) < 128 + signal.toNat := by omega
    rw [toInt_signaled]
    exact iff_of_false (Int.ne_of_gt hpos) (by simp)
  | lost cause => exact iff_of_false (show Outcome.spawnFailedResult.toInt ≠ 0 by decide) (by simp)
  | cutOff => exact iff_of_false (show Outcome.timeoutResult.toInt ≠ 0 by decide) (by simp)

end

/-! ## jobs that were cut off -/

theorem endLine_ended (text : String) : endLine text = "" ∨ ∃ front, (endLine text).toList = front ++ ['\n'] := by
  unfold endLine
  split
  next h =>
    rcases (Bool.or_eq_true _ _).mp h with h | h
    · exact Or.inl (String.isEmpty_iff.mp h)
    · obtain ⟨front, hfront⟩ := List.isSuffixOf_iff_suffix.mp h
      exact Or.inr ⟨front, hfront.symm⟩
  next => exact Or.inr ⟨text.toList, String.toList_append⟩

theorem feed_notMem_timeoutNote (timeout : Option Nat) : '\n' ∉ (timeoutNote timeout).toList := by
  have hseconds : '\n' ∉ (toString (timeout.getD 0 / 1000)).toList := by
    rw [Nat.toString_eq_repr, Nat.toList_repr]
    intro hm
    have hdigit := Nat.isDigit_of_mem_toDigits (by decide) (by decide) hm
    contradiction
  simp only [timeoutNote, String.toList_append, List.mem_append]
  rintro (((h | h) | h) | h)
  · exact absurd h (by decide)
  · exact absurd h (by decide)
  · exact hseconds h
  · exact absurd h (by decide)

theorem getLast?_timeoutNote (timeout : Option Nat) : (timeoutNote timeout).toList.getLast? = some 's' := by
  rw [timeoutNote, String.toList_append]
  exact List.getLast?_concat

/-- an outcome that says that a job was cut off: after what the job printed, in a line of its own -/
structure SaysCutOff (timeout : Option Nat) (captured : ByteArray) (o : Outcome) : Prop where
  result : o.result = 124
  output : o.output = endLine (Utf8.decodeLossy captured) ++ timeoutNote timeout ++ "\n"
  lines : Text.lines o.output = Text.lines (endLine (Utf8.decodeLossy captured)) ++ [timeoutNote timeout]
  timedOut : o.timedOut = true
  /-- the outcome counts as it is -/
  normalize : o.normalize = o
  /-- and fails its unit -/
  failed : ∀ ids fresh reused s id, id ∈ ids → SortedMap.get? fresh id = some o →
    id ∈ (aggregate ids fresh reused s).1.failedUnits ∧ (aggregate ids fresh reused s).1.passed = false ∧
      (ids.Nodup → (aggregate ids fresh reused s).1.details.get? id = some ⟨.failed, o.output⟩)

theorem says_overdue (timeout : Option Nat) (captured : ByteArray) :
    SaysCutOff timeout captured (overdue timeout captured) := by
  have hresult : (overdue timeout captured).result ≠ 0 := show Outcome.timeoutResult ≠ 0 by decide
  have hfailed : (overdue timeout captured).passed = false := beq_eq_false_iff_ne.mpr hresult
  refine ⟨rfl, rfl, ?_, ?_, Outcome.normalize_of_ne hresult, fun ids fresh reused s id hid h => ?_⟩
  · have hended : (endLine (Utf8.decodeLossy captured)).toList = [] ∨
        ∃ front, (endLine (Utf8.decodeLossy captured)).toList = front ++ ['\n'] :=
      (endLine_ended _).imp_left String.toList_eq_nil_iff.mpr
    have hlines := Chars.lines_append_line hended (feed_notMem_timeoutNote timeout)
      (by rw [getLast?_timeoutNote]; decide)
    rw [Text.lines, Text.lines, overdue, String.toList_append, String.toList_append]
    refine (congrArg (List.map String.ofList) hlines).trans ?_
    rw [List.map_append, List.map_singleton, String.ofList_toList]
  · rw [Outcome.timedOut, Text.contains, Bool.and_eq_true]
    refine ⟨rfl, Chars.contains_iff_infix.mpr ?_⟩
    rw [overdue, timeoutNote]
    simp only [String.toList_append, List.append_assoc]
    exact List.infix_append' _ _ _
  · obtain ⟨hlisted, hpassed⟩ := aggregate_of_failed hid h hfailed reused s
    refine ⟨hlisted, hpassed, fun hd => ?_⟩
    refine ((aggregate_exact hd fresh reused s).1.details id _).mpr ⟨hlisted, ?_⟩
    rw [outcomeFor_fresh h]

/-! ## what is concluded -/

/-- what the outcome of a job says of it -/
structure Trace.Concludes (t : Trace) (name : String) (timeout : Option Nat) : Prop where
  /-- only a clean exit is a success -/
  success : (∃ o, t.conclude name timeout = some o ∧ o.result = 0) ↔
    ∃ start p, t.Reaches timeout start p ∧ p.seen = .exited 0
  notStarted : ∀ cause, t.start = .error cause →
    t.conclude name timeout = some (notStarted name cause) ∧ (notStarted name cause).result = 126
  /-- an exit that is seen counts, whatever time it is -/
  exited : ∀ start p status, t.Reaches timeout start p → p.seen = .exited status →
    ∃ o, t.conclude name timeout = some o ∧ o.result.toInt = status.toNat ∧
      o.output = Utf8.decodeLossy t.captured
  signaled : ∀ start p signal, t.Reaches timeout start p → p.seen = .signaled signal →
    ∃ o, t.conclude name timeout = some o ∧ o.result.toInt = 128 + signal.toNat ∧
      o.output = Utf8.decodeLossy t.captured
  lost : ∀ start p cause, t.Reaches timeout start p → p.seen = .lost cause →
    t.conclude name timeout = some (notWatched name cause) ∧ (notWatched name cause).result = 126
  overdue : ∀ start p d, t.Reaches timeout start p → p.seen = .running → deadline start timeout = some d →
    d ≤ p.time → ∃ o, t.conclude name timeout = some o ∧ SaysCutOff timeout t.captured o
  /-- a job with all the time is not cut off -/
  untimed : timeout = none → t.ending timeout ≠ some .cutOff
  /-- there is no outcome as long as every look shows the job running before its deadline -/
  undecided : t.conclude name timeout = none ↔ ∃ start, t.start = .ok start ∧
    ∀ p ∈ t.polls, p.seen = .running ∧ ∀ d ∈ deadline start timeout, p.time < d

theorem Trace.concludes (t : Trace) (name : String) (timeout : Option Nat) : t.Concludes name timeout where
  success := by
    constructor
    · rintro ⟨o, ho, hzero⟩
      rcases conclude_eq_some_iff.mp ho with ⟨cause, _, rfl⟩ | ⟨e, he, rfl⟩
      · exact absurd hzero (show Outcome.spawnFailedResult ≠ 0 by decide)
      · rw [outcome_result_eq_zero_iff.mp hzero] at he
        exact ending_eq_some_iff.mp he
    · rintro ⟨start, p, hp, hseen⟩
      have he : t.ending timeout = some (.exited 0) := ending_eq_some_iff.mpr ⟨start, p, hp, hseen⟩
      exact ⟨_, conclude_of_ending he, outcome_result_eq_zero_iff.mpr rfl⟩
  notStarted cause h := ⟨conclude_of_notStarted h, rfl⟩
  exited start p status hp hseen := by
    have he : t.ending timeout = some (.exited status) := ending_eq_some_iff.mpr ⟨start, p, hp, hseen⟩
    exact ⟨_, conclude_of_ending he, toInt_exited, rfl⟩
  signaled start p signal hp hseen := by
    have he : t.ending timeout = some (.signaled signal) := ending_eq_some_iff.mpr ⟨start, p, hp, hseen⟩
    exact ⟨_, conclude_of_ending he, toInt_signaled, rfl⟩
  lost start p cause hp hseen := by
    have he : t.ending timeout = some (.lost cause) := ending_eq_some_iff.mpr ⟨start, p, hp, hseen⟩
    exact ⟨conclude_of_ending he, rfl⟩
  overdue start p d hp hseen hd hpassed := by
    have he : t.ending timeout = some .cutOff :=
      ending_eq_some_iff.mpr ⟨start, p, hp, hseen, d, hd, hpassed⟩
    exact ⟨_, conclude_of_ending he, says_overdue timeout t.captured⟩
  untimed h he := by
    obtain ⟨start, p, _, _, d, hd, _⟩ := ending_eq_some_iff.mp he
    rw [h] at hd
    contradiction
  undecided := by
    unfold conclude ending
    cases hstart : t.start with
    | error cause => simp
    | ok start => simp [Job.ending, Poll.settles_eq_none_iff]

end Job

/-! ## machines -/

namespace Machine

theorem clock_advanceFrom (limit : Time) (fuel : Nat) (m : Machine) :
    limit ≤ (m.advanceFrom limit fuel).clock := by
  induction fuel generalizing m with
  | zero => exact Int.le_max_right _ _
  | succ fuel ih =>
    rw [advanceFrom]
    split
    · assumption
    · split
      · exact ih _
      · split
        · split
          · exact ih _
          · exact Int.le_refl _
        · exact Int.le_refl _

/-- a machine runs until a time, or beyond -/
theorem clock_advance (limit : Time) (m : Machine) : limit ≤ (m.advance limit).clock :=
  clock_advanceFrom limit _ m

/-- one look less, and less time left for them -/
theorem time_left {deadline clock later interval : Int} {looks : Nat}
    (h : deadline ≤ clock + (looks + 1 : Nat) * interval) (hlater : clock + interval ≤ later) :
    deadline ≤ later + looks * interval := by
  rw [Int.natCast_add, Int.natCast_one, Int.add_mul, Int.one_mul] at h
  omega

/-- the looks at a job are enough for all its time -/
theorem deadline_le_looks {interval : Int} (h : 0 < interval) (start deadline : Int) :
    deadline ≤ start + (((deadline - start) / interval).toNat + 1 : Nat) * interval := by
  have hlt := Int.lt_ediv_add_one_mul_self (deadline - start) h
  have hle : ((deadline - start) / interval + 1) * interval ≤
      (((deadline - start) / interval).toNat + 1 : Nat) * interval :=
    Int.mul_le_mul_of_nonneg_right (by omega) (Int.le_of_lt h)
  omega

/-- with looks for all the time that is left, one of them settles the job -/
theorem watch_settles {deadline : Time} {looks : Nat} {m : Machine} {seen : List Poll}
    (h : deadline ≤ m.clock + looks * Job.pollInterval) :
    ∃ p ∈ (m.watch (some deadline) (looks + 1) seen).2, (p.settles (some deadline)).isSome = true := by
  induction looks generalizing m seen with
  | zero =>
    have hpassed : deadline ≤ m.clock := by simpa using h
    have hsettled := @Poll.settles_of_passed ⟨m.observe, m.clock⟩ deadline hpassed
    refine ⟨⟨m.observe, m.clock⟩, ?_, hsettled⟩
    rw [watch, if_pos (by rw [hsettled, Bool.true_or])]
    simp
  | succ looks ih =>
    by_cases hsettled : ((Poll.mk m.observe m.clock).settles (some deadline)).isSome = true
    · refine ⟨⟨m.observe, m.clock⟩, ?_, hsettled⟩
      rw [watch, if_pos (by rw [hsettled, Bool.true_or])]
      simp
    · rw [watch, if_neg (by simp [hsettled])]
      exact ih (time_left h (clock_advance (m.clock + Job.pollInterval) m))

end Machine

theorem runJob_eq (shell : Interpreter) (name command : String) (dir : Option Path) (timeout : Option Nat)
    (w : Workspace) : (runJob shell name command dir timeout w).2 =
      ((traceJob shell command dir timeout w).2.conclude name timeout).getD .missing := rfl

/-- a job that may run for some time only comes to an outcome -/
theorem conclude_traceJob (shell : Interpreter) (name command : String) (dir : Option Path) (timeout : Nat)
    (w : Workspace) :
    ((traceJob shell command dir (some timeout) w).2.conclude name (some timeout)).isSome = true := by
  unfold traceJob
  split
  · rfl
  next l _ =>
    obtain ⟨p, hp, hsettled⟩ := @Machine.watch_settles _ _
      (Machine.boot w l (shell (Raw.ofText (jobLine command)))) []
      (Machine.deadline_le_looks (by decide) w.clock (w.clock + timeout * 1000000))
    rw [Job.Trace.conclude, Option.isSome_map]
    exact List.findSome?_isSome_iff.mpr ⟨p, hp, hsettled⟩

/-- whatever is seen of a job and whatever it prints, its outcome says what has become of it; and a job that
is run on a machine has an outcome if there is a deadline, and is a success only by a clean exit -/
theorem Job.conclude_exact (name : String) (timeout : Option Nat) :
    (∀ t : Job.Trace, t.Concludes name timeout) ∧
      ∀ (shell : Interpreter) (command : String) (dir : Option Path) (w : Workspace),
        (timeout ≠ none → (traceJob shell command dir timeout w).2.conclude name timeout =
          some (runJob shell name command dir timeout w).2) ∧
        ((runJob shell name command dir timeout w).2.result = 0 ↔
          ∃ start p, (traceJob shell command dir timeout w).2.Reaches timeout start p ∧ p.seen = .exited 0) := by
  refine ⟨fun t => t.concludes name timeout, fun shell command dir w => ⟨fun h => ?_, ?_⟩⟩
  · obtain ⟨ms, rfl⟩ := Option.ne_none_iff_exists'.mp h
    obtain ⟨o, ho⟩ := Option.isSome_iff_exists.mp (conclude_traceJob shell name command dir ms w)
    rw [runJob_eq, ho, Option.getD_some]
  · rw [runJob_eq, ← ((traceJob shell command dir timeout w).2.concludes name timeout).success]
    cases (traceJob shell command dir timeout w).2.conclude name timeout with
    | none => exact iff_of_false (show Outcome.missingResult ≠ 0 by decide) (by simp)
    | some o => simp

/-- a deadline of two milliseconds: a job that is seen to have exited by then, later, or not at all -/
example : [(.exited 0, 1000000), (.exited 0, 3000000), (.running, 3000000)].map
    (fun p : Observation × Time =>
      ((Job.Trace.mk (.ok 0) [⟨.running, 0⟩, ⟨p.1, p.2⟩] .empty).conclude "a.cc" (some 2)).map (·.result)) =
        [some 0, some 0, some 124] := by decide

end IncrementalLint
