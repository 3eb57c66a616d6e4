import IncrementalLint.Proofs.Files.Parents
import IncrementalLint.Proofs.Shell.Text
import IncrementalLint.Tool.Tree

/-!
# Going to directories and making them

What a program does that runs by itself: the system answers it from one workspace, which nobody else
changes, and what it prints goes elsewhere.

* `Program.Runs`          a run from a workspace to another one, each as seen from where it is;
* `Act.runs_bind`         the same for what a shell does, as long as it goes on;
* `Builtin.runs_cd`       `cd` with an absolute path goes where its plain form leads;
* `Builtin.cd_of_find`    and it does so wherever that is a directory;
* `Tool.makeAll_ends`     making directories ends, without a fault unless something is in the way;
* `Tool.runs_mkdir`       a directory that `mkdir -p` was asked for is there when it is done.
-/

namespace IncrementalLint

namespace Program

/-- what a program does by itself, from one workspace to another -/
inductive Runs {α : Type} : Workspace → Program α → Workspace → α → Prop
  | done {w : Workspace} {a : α} : Runs w (.done a) w a
  | files {w w' : Workspace} {next : Workspace → Program α} {a : α} (h : Runs w (next w) w' a) :
      Runs w (.ask .files next) w' a
  | change {w w' : Workspace} {f : Workspace → Workspace × Except FileError Unit}
      {next : Except FileError Unit → Program α} {a : α}
      (h : Runs ((f w).1.seenFrom w.cwd) (next (f w).2) w' a) : Runs w (.ask (.change f) next) w' a
  | enter {w w' : Workspace} {dir : Location} {next : Unit → Program α} {a : α}
      (h : Runs (w.seenFrom dir) (next ()) w' a) : Runs w (.ask (.enter dir) next) w' a
  | write {w w' : Workspace} {fd : Nat} {bytes : ByteArray} {next : Except FileError Unit → Program α}
      {a : α} (r : Except FileError Unit) (h : Runs w (next r) w' a) : Runs w (.ask (.write fd bytes) next) w' a

theorem runs_bind {α β : Type} {p : Program α} {f : α → Program β} {w w' : Workspace} {b : β} :
    Runs w (p.bind f) w' b ↔ ∃ v a, Runs w p v a ∧ Runs v (f a) w' b := by
  constructor
  · intro h
    induction p generalizing w with
    | done a => exact ⟨w, a, .done, h⟩
    | ask c next ih =>
      rw [bind] at h
      cases h with
      | files h => obtain ⟨v, a, hp, hf⟩ := ih _ h; exact ⟨v, a, .files hp, hf⟩
      | change h => obtain ⟨v, a, hp, hf⟩ := ih _ h; exact ⟨v, a, .change hp, hf⟩
      | enter h => obtain ⟨v, a, hp, hf⟩ := ih _ h; exact ⟨v, a, .enter hp, hf⟩
      | write r h => obtain ⟨v, a, hp, hf⟩ := ih _ h; exact ⟨v, a, .write r hp, hf⟩
  · rintro ⟨v, a, hp, hf⟩
    induction hp with
    | done => exact hf
    | files _ ih => exact .files (ih hf)
    | change _ ih => exact .change (ih hf)
    | enter _ ih => exact .enter (ih hf)
    | write r _ ih => exact .write r (ih hf)

section
variable {α β : Type} {w w' : Workspace} {b : β}

theorem runs_pure {a b : α} : Runs w (pure a) w' b ↔ w' = w ∧ b = a := by
  constructor
  · intro h
    cases h
    exact ⟨rfl, rfl⟩
  · rintro ⟨rfl, rfl⟩
    exact .done

theorem runs_files_bind {f : Workspace → Program β} :
    Runs w (Program.files >>= f) w' b ↔ Runs w (f w) w' b := by
  constructor
  · intro h
    cases h with
    | files h => exact h
  · exact .files

theorem runs_change_bind {c : Workspace → Workspace × Except FileError Unit}
    {f : Except FileError Unit → Program β} :
    Runs w (Program.change c >>= f) w' b ↔ Runs ((c w).1.seenFrom w.cwd) (f (c w).2) w' b := by
  constructor
  · intro h
    cases h with
    | change h => exact h
  · exact .change

end

end Program

namespace Shell

namespace Act

/-- what a shell does by itself, when it goes on afterwards -/
def Runs {α : Type} (w : Workspace) (s : Session) (x : Act α) (w' : Workspace) (s' : Session) (a : α) : Prop :=
  Program.Runs w (x s) w' (.ok a, s')

variable {α β : Type} {w w' : Workspace} {s s' : Session}

theorem runs_bind {x : Act α} {f : α → Act β} {b : β} :
    Runs w s (x >>= f) w' s' b ↔ ∃ v t a, Runs w s x v t a ∧ Runs v t (f a) w' s' b := by
  have hbind : (x >>= f) s = (x s).bind fun r => match r with
      | (.ok a, t) => f a t
      | (.error e, t) => .done (.error e, t) := by
    show Program.bind _ _ = _
    congr 1
    funext ⟨r, t⟩
    cases r <;> rfl
  rw [Runs, hbind, Program.runs_bind]
  constructor
  · rintro ⟨v, ⟨r, t⟩, hx, hf⟩
    cases r with
    | ok a => exact ⟨v, t, a, hx, hf⟩
    | error e => cases hf
  · rintro ⟨v, t, a, hx, hf⟩
    exact ⟨v, (.ok a, t), hx, hf⟩

theorem runs_pure {a b : α} : Runs w s (pure a) w' s' b ↔ w' = w ∧ s' = s ∧ b = a := by
  constructor
  · intro h
    cases h
    exact ⟨rfl, rfl, rfl⟩
  · rintro ⟨rfl, rfl, rfl⟩
    exact .done

/-! ### actions with one answer, and what follows them -/

theorem runs_get_bind {f : Session → Act β} {b : β} :
    Runs w s (get >>= f) w' s' b ↔ Runs w s (f s) w' s' b := by
  rw [runs_bind]
  constructor
  · rintro ⟨_, _, _, hget, h⟩
    cases hget
    exact h
  · exact fun h => ⟨w, s, s, .done, h⟩

theorem runs_modify_bind {g : Session → Session} {f : PUnit → Act β} {b : β} :
    Runs w s (modify g >>= f) w' s' b ↔ Runs w (g s) (f ⟨⟩) w' s' b := by
  rw [runs_bind]
  constructor
  · rintro ⟨_, _, _, hmodify, h⟩
    cases hmodify
    exact h
  · exact fun h => ⟨w, g s, ⟨⟩, .done, h⟩

theorem runs_files_bind {f : Workspace → Act β} {b : β} :
    Runs w s (ask .files >>= f) w' s' b ↔ Runs w s (f w) w' s' b := by
  rw [runs_bind]
  constructor
  · rintro ⟨_, _, _, hfiles, h⟩
    cases hfiles with
    | files hfiles =>
      cases hfiles
      exact h
  · exact fun h => ⟨w, s, w, .files .done, h⟩

theorem runs_enter_bind {d : Location} {f : Unit → Act β} {b : β} :
    Runs w s (ask (.enter d) >>= f) w' s' b ↔ Runs (w.seenFrom d) s (f ()) w' s' b := by
  rw [runs_bind]
  constructor
  · rintro ⟨_, _, _, henter, h⟩
    cases henter with
    | enter henter =>
      cases henter
      exact h
  · exact fun h => ⟨w.seenFrom d, s, (), .enter .done, h⟩

theorem runs_set {t : Session} {u : PUnit} : Runs w s (set t) w' s' u ↔ w' = w ∧ s' = t := by
  constructor
  · intro h
    cases h
    exact ⟨rfl, rfl⟩
  · rintro ⟨rfl, rfl⟩
    exact .done

theorem not_runs_stop {why : Stop} {a : α} : ¬Runs w s (stop why) w' s' a := by
  intro h
  cases h

theorem not_runs_fail {message : String} {a : α} : ¬Runs w s (fail message) w' s' a := by
  intro h
  simp only [fail, runs_bind] at h
  obtain ⟨_, _, _, _, _, _, _, _, h⟩ := h
  exact not_runs_stop h

end Act

namespace Builtin

open Act

variable {w w' : Workspace} {s s' : Session}

/-! ## noting where the shell is -/

/-- a variable that can be set -/
def IsFree (s : Session) (name : String) : Prop := ∀ v, s.vars.get? name = some v → v.fixed = false

theorem runs_assign {name text : String} {exported : Bool} {u : Unit}
    (h : Runs w s (assign name text exported) w' s' u) : w' = w := by
  rw [assign, runs_get_bind] at h
  simp only at h
  split at h
  · simp only [runs_bind] at h
    obtain ⟨_, _, _, _, _, _, _, _, h⟩ := h
    exact absurd h not_runs_stop
  · exact (runs_set.mp h).1

/-- a variable is set if it can be, and all that could be set still can -/
theorem assign_of_free {name text : String} {exported : Bool} (hfree : IsFree s name) :
    ∃ s', Runs w s (assign name text exported) w s' () ∧ ∀ other, IsFree s other → IsFree s' other := by
  have hold : ((s.vars.get? name).getD { value := none }).fixed = false := by
    cases hv : s.vars.get? name with
    | none => rfl
    | some v => exact hfree v hv
  let old := (s.vars.get? name).getD { value := none }
  let new : Variable :=
    { old with value := some text, exported := old.exported || exported || s.options.exportAll }
  refine ⟨{ s with vars := s.vars.insert name new }, ?_, fun other hother v hv => ?_⟩
  · rw [assign, runs_get_bind]
    show Runs w s (if old.fixed = true then _ else set _) w _ ()
    rw [if_neg (hold ▸ Bool.false_ne_true)]
    exact runs_set.mpr ⟨rfl, rfl⟩
  · rw [SortedMap.get?_insert] at hv
    split at hv
    · rw [← Option.some.inj hv]
      exact hold
    · exact hother v hv

theorem runs_arrive {dir : String} {u : Unit} (h : Runs w s (arrive dir) w' s' u) : w' = w := by
  rw [arrive, runs_get_bind, runs_modify_bind, runs_bind] at h
  obtain ⟨_, _, _, hold, h⟩ := h
  rw [runs_assign h, runs_assign hold]

theorem arrive_of_free {dir : String} (hold : IsFree s "OLDPWD") (hnew : IsFree s "PWD") :
    ∃ s', Runs w s (arrive dir) w s' () ∧ ∀ other, IsFree s other → IsFree s' other := by
  obtain ⟨t, ht, hkeep⟩ : ∃ t, Runs w { s with dir } (assign "OLDPWD" s.dir true) w t () ∧ _ :=
    assign_of_free hold
  obtain ⟨s', hs', hkeep'⟩ : ∃ s', Runs w t (assign "PWD" dir true) w s' () ∧ _ :=
    assign_of_free (hkeep "PWD" hnew)
  refine ⟨s', ?_, fun other hother => hkeep' other (hkeep other hother)⟩
  rw [arrive, runs_get_bind, runs_modify_bind, runs_bind]
  exact ⟨w, t, (), ht, hs'⟩

/-! ## going to a directory -/

theorem runs_enter?_true {name : String} : Runs w s (enter? name) w' s' true ↔
    s' = s ∧ ∃ d t, w.find ⟨Raw.toText name⟩ = .ok (d, .directory t) ∧ w' = w.seenFrom d := by
  rw [enter?, runs_files_bind]
  split
  next d t hd =>
    rw [runs_enter_bind, runs_pure]
    simp [hd, and_comm]
  next hd =>
    rw [runs_pure]
    simp only [Bool.true_eq_false, and_false, false_iff, not_and, not_exists]
    exact fun _ d t ht => absurd ht (hd d t)

theorem runs_physicalDir {dir : String} (h : Runs w s physicalDir w' s' dir) : w' = w := by
  rw [physicalDir, runs_files_bind, runs_pure] at h
  exact h.1

/-- where the shell would go for a name -/
def aim (s : Session) (name : String) : Path := ⟨Raw.toText (plainPath (absolutePath s.dir name))⟩

theorem runs_goTo_true {name : String} (h : Runs w s (goTo false name) w' s' true) :
    ∃ d t, w.find (aim s name) = .ok (d, .directory t) ∧ w' = w.seenFrom d := by
  rw [goTo, runs_get_bind, runs_bind] at h
  obtain ⟨v, t, b, henter, h⟩ := h
  cases b with
  | false => exact absurd (runs_pure.mp h).2.2 (by simp)
  | true =>
    obtain ⟨rfl, d, t', hd, rfl⟩ := runs_enter?_true.mp henter
    rw [if_pos rfl, runs_bind] at h
    obtain ⟨v, _, _, hhere, h⟩ := h
    rw [runs_bind] at h
    obtain ⟨u, _, _, harrive, h⟩ := h
    refine ⟨d, t', hd, ?_⟩
    rw [(runs_pure.mp h).1, runs_arrive harrive, runs_physicalDir hhere]

theorem goTo_of_find {name : String} {d : Location} {t : Time}
    (hd : w.find (aim s name) = .ok (d, .directory t)) (hold : IsFree s "OLDPWD") (hnew : IsFree s "PWD") :
    ∃ s', Runs w s (goTo false name) (w.seenFrom d) s' true ∧ ∀ other, IsFree s other → IsFree s' other := by
  obtain ⟨s', harrive, hkeep⟩ :
      ∃ s', Runs (w.seenFrom d) s (arrive (plainPath (absolutePath s.dir name))) _ s' () ∧ _ :=
    arrive_of_free hold hnew
  refine ⟨s', ?_, hkeep⟩
  rw [goTo, runs_get_bind, runs_bind]
  refine ⟨_, _, true, runs_enter?_true.mpr ⟨rfl, d, t, hd, rfl⟩, ?_⟩
  rw [if_pos rfl, runs_bind]
  refine ⟨w.seenFrom d, s, Raw.ofText (w.seenFrom d).cwdPath.text, ?_, ?_⟩
  · rw [physicalDir, runs_files_bind]
    exact runs_pure.mpr ⟨rfl, rfl, rfl⟩
  · rw [runs_bind]
    exact ⟨_, _, (), harrive, runs_pure.mpr ⟨rfl, rfl, rfl⟩⟩

/-! ## `cd` with an absolute path -/

section
variable {l : Level} {name : String} {cs : List Char}

theorem options_absolute (hname : name.toList = '/' :: cs) (allowed : List Char) :
    options allowed [name] = pure ([], [name]) := by
  have hdashes : name ≠ "--" := by
    rintro rfl
    exact absurd hname (by simp)
  rw [options.eq_3 _ _ _ (by simpa using hdashes), hname]
  rfl

theorem searchDirs_absolute (hname : name.toList = '/' :: cs) : searchDirs name = pure [""] := by
  have hslash : Text.startsWith name "/" = true := by
    rw [Text.startsWith, hname]
    rfl
  rw [searchDirs]
  simp only [hslash, Bool.true_or, if_true]

/-- for an absolute path there is one place to look -/
theorem cd_absolute (hname : name.toList = '/' :: cs) : cd l [name] = tryDirs false name [""] := by
  have hdash : name ≠ "-" := by
    rintro rfl
    exact absurd hname (by simp)
  have hempty : name.isEmpty = false := by
    rw [← Bool.not_eq_true, String.isEmpty_iff]
    rintro rfl
    exact absurd hname (by simp)
  have hpure {α β : Type} (a : α) (f : α → Act β) : (pure a >>= f) = f a := rfl
  rw [cd, options_absolute hname, hpure]
  dsimp only
  split
  · simp_all
  · simp_all
  next given _ heq =>
    obtain ⟨rfl, _⟩ := List.cons.inj heq
    rw [hempty, searchDirs_absolute hname]
    rfl

theorem aim_absolute (hname : name.toList = '/' :: cs) : aim s name = ⟨Raw.toText (plainPath name)⟩ := by
  have hslash : Text.startsWith name "/" = true := by
    rw [Text.startsWith, hname]
    rfl
  rw [aim, absolutePath, if_pos hslash]

/-- `cd` with an absolute path goes where its plain form leads -/
theorem runs_cd {n : Nat} (hname : name.toList = '/' :: cs) (h : Runs w s (cd l [name]) w' s' n) :
    ∃ d t, w.find ⟨Raw.toText (plainPath name)⟩ = .ok (d, .directory t) ∧ w' = w.seenFrom d := by
  rw [cd_absolute hname, tryDirs] at h
  change Runs w s (goTo false name >>= fun there => if there = true then pure 0 else tryDirs false name []) _ _ _ at h
  rw [runs_bind] at h
  obtain ⟨v, t, b, hgo, h⟩ := h
  cases b with
  | false => exact absurd h not_runs_fail
  | true =>
    rw [← aim_absolute (s := s) hname, (runs_pure.mp h).1]
    exact runs_goTo_true hgo

/-- and it does so wherever that is a directory -/
theorem cd_of_find {d : Location} {t : Time} (hname : name.toList = '/' :: cs)
    (hd : w.find ⟨Raw.toText (plainPath name)⟩ = .ok (d, .directory t)) (hold : IsFree s "OLDPWD")
    (hnew : IsFree s "PWD") :
    ∃ s', Runs w s (cd l [name]) (w.seenFrom d) s' 0 ∧ ∀ other, IsFree s other → IsFree s' other := by
  rw [← aim_absolute (s := s) hname] at hd
  obtain ⟨s', hgo, hkeep⟩ := goTo_of_find hd hold hnew
  refine ⟨s', ?_, hkeep⟩
  rw [cd_absolute hname, tryDirs]
  change Runs w s (goTo false name >>= fun there => if there = true then pure 0 else tryDirs false name []) _ _ _
  rw [runs_bind]
  exact ⟨_, _, true, hgo, runs_pure.mpr ⟨rfl, rfl, rfl⟩⟩

end

end Builtin

end Shell

/-! ## making directories -/

namespace Workspace

variable {w w' : Workspace} {p : Path}

/-- a place that is free is free whether or not the last link is followed -/
theorem Route.follow_free {links : Nat} {here l : Location} {ps : List String} {b : Bool}
    (h : Route w false links here ps (.free l b)) : Route w true links here ps (.free l b) := by
  generalize hplace : Place.free l b = place at h
  induction h with
  | here _ => contradiction
  | idle hp _ ih => exact .idle hp (ih hplace)
  | up _ ih => exact .up (ih hplace)
  | free hp hn hrest => exact .free hp hn hrest
  | into hp hn _ ih => exact .into hp hn (ih hplace)
  | atLink _ _ _ => contradiction
  | through hp hn _ _ ih => exact .through hp hn (Or.inr rfl) (ih hplace)
  | last _ _ _ _ => contradiction

theorem isDirectory_createDirectory (h : w.createDirectory p = (w', .ok ())) : w'.isDirectory p = true := by
  unfold createDirectory at h
  split at h
  · exact absurd h (by simp)
  · exact absurd h (by simp)
  next l b hloc =>
    obtain rfl := (Prod.mk.inj h).1
    obtain ⟨hu, hroute⟩ := locate_eq_ok_iff.mp hloc
    have hfree := locate_eq_ok_iff.mpr ⟨hu, hroute.follow_free⟩
    have hnode := node?_add_self (w := w) (l := l) (n := .directory w.clock) fun _ => rfl
    have hfound := (keeps_add (n := .directory w.clock) hroute.free_node).locate hfree hnode ⟨rfl, fun _ => rfl⟩
    exact isDirectory_eq_true_iff.mpr ⟨l, w.clock, find_eq_ok_iff.mpr hfound⟩

/-- a place where no directory is, nor can be made -/
def Barred (w : Workspace) (p : Path) : Prop := (w.createDirectory p).1.isDirectory p = false

theorem seenFrom_createDirectory : (w.createDirectory p).1.seenFrom w.cwd = (w.createDirectory p).1 := by
  have hcwd := (createDirectory_grows w p).keeps.cwd
  rw [seenFrom, ← hcwd]

end Workspace

namespace Tool

open Workspace

variable {w w' : Workspace}

/-- a fault is reported, with a status that says so -/
theorem runs_cannotMake {name : String} {e : FileError} {n : Nat} :
    Program.Runs w (cannotMake name e) w' n ↔ w' = w ∧ n = 1 := by
  constructor
  · intro h
    rw [cannotMake, refuse] at h
    obtain ⟨v, _, hreport, h⟩ := Program.runs_bind.mp h
    obtain ⟨_, _, hput, hreport⟩ := Program.runs_bind.mp hreport
    obtain ⟨rfl, rfl⟩ := Program.runs_pure.mp h
    cases hput with
    | write _ hput =>
      cases hput
      exact ⟨(Program.runs_pure.mp hreport).1, rfl⟩
  · rintro ⟨rfl, rfl⟩
    exact .write (.ok ()) .done

/-- one step goes on if the directory is there then, made or not -/
theorem runs_makeAll_cons {name : String} {rest : List String} {n : Nat} :
    Program.Runs w (makeAll false (name :: rest)) w' n ↔
      if (w.createDirectory (pathOf name)).1.isDirectory (pathOf name) = true then
        Program.Runs (w.createDirectory (pathOf name)).1 (makeAll false rest) w' n
      else w' = (w.createDirectory (pathOf name)).1 ∧ n = 1 := by
  rw [makeAll, Program.runs_change_bind, seenFrom_createDirectory]
  cases hmade : w.createDirectory (pathOf name) with
  | mk v r =>
    cases r with
    | ok _ =>
      rw [if_pos (isDirectory_createDirectory hmade)]
      rfl
    | error e =>
      change Program.Runs v (Program.files >>= _) w' n ↔ _
      rw [Program.runs_files_bind]
      split
      · rfl
      · split <;> exact runs_cannotMake

/-- of the directories that were to be made, the last one is there in the end -/
theorem runs_makeAll {names : List String} {last : String}
    (h : Program.Runs w (makeAll false (names ++ [last])) w' 0) : w'.isDirectory (pathOf last) = true := by
  induction names generalizing w with
  | nil =>
    rw [List.nil_append, runs_makeAll_cons] at h
    split at h
    next hdir =>
      rw [(Program.runs_pure.mp h).1]
      exact hdir
    · exact absurd h.2 (by decide)
  | cons name names ih =>
    rw [List.cons_append, runs_makeAll_cons] at h
    split at h
    · exact ih h
    · exact absurd h.2 (by decide)

/-- making directories ends, without a fault unless something is in the way -/
theorem makeAll_ends (w : Workspace) (names : List String) :
    ∃ w' n, Program.Runs w (makeAll false names) w' n ∧ w.Grows w' ∧
      (n = 0 ∨ ∃ name ∈ names, ∃ v, w.Grows v ∧ v.Barred (pathOf name)) := by
  induction names generalizing w with
  | nil => exact ⟨w, 0, .done, .refl w, Or.inl rfl⟩
  | cons name names ih =>
    have hgrows := createDirectory_grows w (pathOf name)
    by_cases hdir : (w.createDirectory (pathOf name)).1.isDirectory (pathOf name) = true
    · obtain ⟨w', n, hruns, hgrows', hn⟩ := ih (w.createDirectory (pathOf name)).1
      refine ⟨w', n, by rwa [runs_makeAll_cons, if_pos hdir], hgrows.trans hgrows', hn.imp_right ?_⟩
      rintro ⟨other, hother, v, hv, hbarred⟩
      exact ⟨other, List.mem_cons_of_mem _ hother, v, hgrows.trans hv, hbarred⟩
    · refine ⟨_, 1, by rw [runs_makeAll_cons, if_neg hdir]; exact ⟨rfl, rfl⟩, hgrows, Or.inr ?_⟩
      exact ⟨name, List.mem_cons_self, w, .refl w, Bool.eq_false_iff.mpr hdir⟩

/-- the way up from a path that ends in a name ends with the path -/
theorem upward_eq {name : String} (hend : Text.endsWith name "/" = false) (hne : name ≠ "") :
    ∃ above, upward name = above ++ [name] := by
  have hpieces : ((Chars.splitAt (· == '/') name.toList).map String.ofList) ≠ [] := by
    simp [Chars.splitAt_ne_nil]
  generalize hps : (Chars.splitAt (· == '/') name.toList).map String.ofList = ps at hpieces
  have hwhole : Text.joinWith "/" ps = name := by
    rw [← String.toList_inj, ← hps, Text.joinWith, String.toList_intercalate, List.map_map]
    have hid : (String.toList ∘ String.ofList) = id := funext fun x => String.toList_ofList
    rw [hid, List.map_id]
    exact PathText.join_splitAt name.toList
  obtain ⟨n, hn⟩ := Nat.exists_eq_add_one_of_ne_zero (mt List.length_eq_zero_iff.mp hpieces)
  rw [upward, hps, hn, List.range_succ, List.map_append, List.filter_append, List.map_singleton,
    List.take_of_length_le (Nat.le_of_eq hn), hwhole]
  exact ⟨_, congrArg _ (List.filter_cons_of_pos (by simp [hend, hne]))⟩

/-- nothing is above the root, and the root is there -/
theorem upward_root : upward "/" = [] := by
  decide

/-- options and operands of `mkdir -p` with an absolute path -/
theorem read_mkdir {f : Options.Form} {name : String} {cs : List Char} (hname : name.toList = '/' :: cs)
    (hletters : f.letters = ['p', 'v']) (harg : f.withArg = ['m']) (hstrict : f.strict = false) :
    Options.read f ["-p", name] = .ok { given := [('p', "")], operands := [name] } := by
  rw [Options.read]
  show Options.readFrom f 3 _ = _
  rw [Options.readFrom]
  simp [Options.readFrom, hname, Options.readLetters, hletters, harg, hstrict, bind, Except.bind, pure, Except.pure]

theorem runs_forEach_single {f : String → Program Nat} {x : String} {n : Nat} :
    Program.Runs w (forEach f [x]) w' n ↔ Program.Runs w (f x) w' n := by
  have hstatus (a : Nat) : (if a = 0 then 0 else a) = a := by
    split
    · exact Eq.symm ‹a = 0›
    · rfl
  constructor
  · intro h
    obtain ⟨_, a, hone, h⟩ := Program.runs_bind.mp h
    obtain ⟨_, b, hnone, h⟩ := Program.runs_bind.mp h
    obtain ⟨rfl, rfl⟩ := Program.runs_pure.mp hnone
    obtain ⟨rfl, rfl⟩ := Program.runs_pure.mp h
    rwa [hstatus]
  · intro h
    refine Program.runs_bind.mpr ⟨w', n, h, Program.runs_bind.mpr ⟨w', 0, .done, ?_⟩⟩
    exact Program.runs_pure.mpr ⟨rfl, (hstatus n).symm⟩

theorem runs_mkdir_makeAll {name : String} {cs : List Char} (hname : name.toList = '/' :: cs) {n : Nat} :
    Program.Runs w (mkdir ["-p", name]) w' n ↔ Program.Runs w (makeAll false (upward name)) w' n := by
  have hempty : name.isEmpty = false := by
    rw [← Bool.not_eq_true, String.isEmpty_iff]
    rintro rfl
    exact absurd hname (by simp)
  have hpath : (Options.has ⟨[('p', "")], [name]⟩ 'p' && !name.isEmpty) = true := by
    rw [hempty]
    rfl
  rw [mkdir, withOptions, read_mkdir hname rfl rfl rfl]
  simp only [List.isEmpty_cons, Bool.false_eq_true, if_false, runs_forEach_single]
  rw [if_pos hpath]
  rfl

/-- a directory that `mkdir -p` was asked for, and reports no fault about, is there -/
theorem runs_mkdir {p : Path} (hroot : ∃ t, w.node? [] = some (.directory t))
    (habs : p.isAbsolute = true) (hend : p.text = "/" ∨ p.EndsInStep)
    (h : Program.Runs w (mkdir ["-p", Raw.ofText p.text]) w' 0) : w'.isDirectory p = true := by
  obtain ⟨cs, hname⟩ := Raw.toList_ofText_absolute habs
  rw [runs_mkdir_makeAll hname] at h
  rcases hend with hroot' | hend
  · obtain ⟨text⟩ := p
    obtain rfl : text = "/" := hroot'
    obtain ⟨t, ht⟩ := hroot
    rw [Raw.ofText_ascii (by decide), upward_root] at h
    rw [(Program.runs_pure.mp h).1]
    exact isDirectory_eq_true_iff.mpr ⟨[], t, find_root w ht⟩
  · have hslash := Raw.endsWith_slash hend
    have hne : Raw.ofText p.text ≠ "" := by
      intro he
      rw [he] at hname
      exact absurd hname (by simp)
    obtain ⟨above, hup⟩ := upward_eq hslash hne
    rw [hup] at h
    have hdir := runs_makeAll h
    rwa [pathOf, Raw.toText_ofText] at hdir

end Tool

end IncrementalLint
