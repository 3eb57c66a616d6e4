import IncrementalLint.Proofs.Run
import IncrementalLint.Proofs.Shell.Alone
import IncrementalLint.Shell.Evaluation

/-!
# Jobs and plans

A job goes to directories in a shell; a plan joins paths in the process that runs it. Both mean the
same files: the listing of a unit is named by an absolute path, and what it lists is named as seen
from the directory of the unit, if that is absolute and no piece of it goes up.

A relative directory is not the same to both: for the job it lies in the work directory, for the
plan in the directory that the process is in. Nor are pieces that go up: `cd` drops the name in
front of them, whatever it leads to.

* `Path.isAbsolute_absolute?`  an absolute spelling is absolute;
* `SourceUnit.getLast?_listing`  the name of a listing;
* `Dispatch.Reaches`           the way of a job to its compile step;
* `Dispatch.reaches_or_barred`  it comes there, unless a directory cannot be made;
* `Runner.job_agrees_with_plan`  where the job writes, the plan reads.
-/

namespace IncrementalLint

open Workspace

/-! ## absolute paths -/

namespace Path

theorem isAbsolute_join {p q : Path} (h : p.isAbsolute = true) : (p.join q).isAbsolute = true := by
  by_cases hq : (q.isAbsolute || p.text.isEmpty) = true
  · rw [join_alone hq]
    refine ((Bool.or_eq_true _ _).mp hq).resolve_right fun he => ?_
    rw [isAbsolute, String.isEmpty_iff.mp he] at h
    contradiction
  · rw [(join_below hq).1, h]

theorem isAbsolute_extend {p : Path} (cs : List Component) (h : p.isAbsolute = true) :
    (p.extend cs).isAbsolute = true := by
  induction cs generalizing p with
  | nil => exact h
  | cons c cs ih => exact ih (isAbsolute_join h)

theorem components_of_isAbsolute {p : Path} (h : p.isAbsolute = true) :
    ∃ cs, p.components = .root :: cs := by
  have h' : PathText.isAbsolute p.text.toList = true := h
  rw [components, PathText.components_eq, if_pos h']
  exact ⟨_, rfl⟩

/-- an absolute spelling is absolute -/
theorem isAbsolute_absolute? {cwd p q : Path} (hcwd : cwd.isAbsolute = true)
    (h : absolute? cwd p = some q) : q.isAbsolute = true := by
  unfold absolute? at h
  split at h
  · contradiction
  next =>
    have hfull : (if p.isAbsolute = true then
        if p.hasDoubleRoot = true then extend ⟨"//"⟩ (p.components.drop 1) else extend ⟨""⟩ p.components
        else extend cwd p.withoutHere).isAbsolute = true := by
      split
      next habs =>
        split
        · exact isAbsolute_extend _ rfl
        · obtain ⟨cs, hcs⟩ := components_of_isAbsolute habs
          rw [hcs]
          exact isAbsolute_extend cs rfl
      · exact isAbsolute_extend _ hcwd
    obtain rfl := Option.some.inj h
    split
    · exact isAbsolute_join hfull
    · exact hfull

end Path

namespace Runner

theorem isAbsolute_projectDir {w : Workspace} {s : Settings} {dir : Path} {r : Runner}
    (h : create w s dir = .ok r) : r.projectDir.isAbsolute = true := by
  unfold create at h
  split at h
  next d hd =>
    obtain rfl := Except.ok.inj h
    refine Path.isAbsolute_absolute? ?_ hd
    show PathText.isAbsolute ("/" ++ Text.joinWith "/" w.cwd).toList = true
    rw [String.toList_append]
    rfl
  · contradiction

theorem isAbsolute_resolve {r : Runner} (h : r.projectDir.isAbsolute = true) (path : String) :
    (r.resolve path).isAbsolute = true :=
  Path.isAbsolute_join h

end Runner

/-! ## listings -/

namespace PathText

/-- what a text without separators is put behind becomes the end of the last piece -/
theorem splitAt_append_end {back : List Char} (h : '/' ∉ back) (cs : List Char) :
    ∃ front last, Chars.splitAt isSlash cs = front ++ [last] ∧
      Chars.splitAt isSlash (cs ++ back) = front ++ [last ++ back] := by
  induction cs with
  | nil => exact ⟨[], [], rfl, splitAt_of_noSlash h⟩
  | cons c cs ih =>
    obtain ⟨front, last, hcs, hback⟩ := ih
    rw [List.cons_append, Chars.splitAt, Chars.splitAt, hcs, hback]
    split
    · exact ⟨[] :: front, last, rfl, rfl⟩
    · cases front with
      | nil => exact ⟨[], c :: last, rfl, rfl⟩
      | cons x front => exact ⟨(c :: x) :: front, last, rfl, rfl⟩

end PathText

/-- a listing has a name, not a step of another kind -/
theorem SourceUnit.getLast?_listing (u : SourceUnit) (dir : Path) :
    ∃ name, (pieces (u.listing dir).text).getLast? = some name ∧ name ≠ "" ∧ name ≠ "." ∧ name ≠ ".." := by
  obtain ⟨cs, hcs⟩ := u.text_listing dir
  have hd : '/' ∉ ".d".toList := by decide
  obtain ⟨front, last, _, hsplit⟩ := PathText.splitAt_append_end hd cs
  rw [pieces, hcs, List.getLast?_map, hsplit, List.getLast?_concat]
  refine ⟨_, rfl, ?_⟩
  have hne (x : String) (hx : x.toList.getLast? ≠ some 'd') : String.ofList (last ++ ".d".toList) ≠ x := by
    rintro rfl
    rw [String.toList_ofList] at hx
    exact hx (List.getLast?_append_of_ne_nil _ (by decide))
  exact ⟨hne _ (by decide), hne _ (by decide), hne _ (by decide)⟩

/-! ## the way to the compile step -/

/-- the path of a file has its place right in the directory that another path names, unless it is
too long or holds what no path can -/
def Workspace.LiesIn (w : Workspace) (file parent : Path) : Prop :=
  ∃ d t name, w.find parent = .ok (d, .directory t) ∧
    ((∃ place, w.locate file false = .ok place ∧ place.location = d ++ [name]) ∨
      w.locate file false = .error .nameTooLong ∨ w.locate file false = .error .nulInName)

/-- the way of a unit's job to its compile step, in a shell that starts where `w` is seen from: to the
work directory, past the making of a directory, and to the directory of the unit -/
inductive Dispatch.Reaches (d : Dispatch) (parent : Path) (u : SourceUnit) :
    Workspace → Workspace → Workspace → Prop
  | steps {w v made there : Workspace} {s s₁ s₂ : Shell.Session} {l : Shell.Level} {m n : Nat}
      (hwork : Shell.Act.Runs w s (Shell.Builtin.cd l [Raw.ofText d.workDir.text]) v s₁ m)
      (hmake : Program.Runs v (Tool.mkdir ["-p", Raw.ofText parent.text]) made 0)
      (hdir : Shell.Act.Runs made s₁ (Shell.Builtin.cd l [Raw.ofText u.directory.text]) there s₂ n) :
      Reaches d parent u w made there

/-- the line for a unit whose listing has a parent -/
theorem Dispatch.jobCommand_eq {d : Dispatch} {u : SourceUnit} {parent : Path}
    (hparent : (u.listing d.listingDir).parent? = some parent) :
    d.jobCommand u =
      "cd " ++ Shell.quote d.workDir.text ++ " && ( ( mkdir -p " ++ Shell.quote parent.text ++
        " && cd " ++ Shell.quote u.directory.text ++ " && " ++ u.command ++ " -MM -MF " ++
        Shell.quote (u.listing d.listingDir).text ++ " ); " ++ d.analysisStep u ++ " )" := by
  rw [jobCommand, listingStep, hparent]
  simp only [Option.getD_some, String.append_assoc]
  rfl

namespace Shell.Builtin

variable {w w' : Workspace} {s s' : Session} {l : Level} {n : Nat} {p : Path}

theorem isAbsolute_plainPath {text : String} : (⟨plainPath text⟩ : Path).isAbsolute = true := by
  rw [Path.isAbsolute, plainPath_eq, String.toList_append]
  rfl

/-- `cd` with an absolute path goes to a directory, and changes no file -/
theorem runs_cd_path (h : p.isAbsolute = true) (hcd : Act.Runs w s (cd l [Raw.ofText p.text]) w' s' n) :
    ∃ d t, w.find ⟨plainPath p.text⟩ = .ok (d, .directory t) ∧ w' = w.seenFrom d := by
  obtain ⟨cs, hcs⟩ := Raw.toList_ofText_absolute h
  have hgo := runs_cd hcs hcd
  rwa [toText_plainPath] at hgo

/-- and it does so wherever its plain form leads to a directory -/
theorem cd_path_of_find {d : Location} {t : Time} (h : p.isAbsolute = true)
    (hd : w.find ⟨plainPath p.text⟩ = .ok (d, .directory t)) (hold : IsFree s "OLDPWD")
    (hnew : IsFree s "PWD") : ∃ s', Act.Runs w s (cd l [Raw.ofText p.text]) (w.seenFrom d) s' 0 ∧
      ∀ other, IsFree s other → IsFree s' other := by
  obtain ⟨cs, hcs⟩ := Raw.toList_ofText_absolute h
  rw [← toText_plainPath] at hd
  exact cd_of_find hcs hd hold hnew

/-- in the directory that `cd` went to, a name denotes what it denotes behind the path of it -/
theorem sameFile_of_cd {f : Path} (h : p.isAbsolute = true) (hup : ".." ∉ pieces p.text)
    (hf : f.text ≠ "") (hcd : Act.Runs w s (cd l [Raw.ofText p.text]) w' s' n) :
    SameFile w w'.cwd f (p.join f) := by
  obtain ⟨d, t, hd, rfl⟩ := runs_cd_path h hcd
  have hroute := route_of_find hd
  have habs : (⟨plainPath p.text⟩ : Path).isAbsolute = true := isAbsolute_plainPath
  have hsteps : PathText.steps (plainPath p.text).toList = PathText.steps p.text.toList := steps_plainPath hup
  have hnul : Char.ofNat 0 ∉ p.text.toList := by
    obtain ⟨⟨hnul, _⟩, _⟩ := locate_eq_ok_iff.mp (find_eq_ok_iff.mp hd)
    rw [List.contains_eq_mem, decide_eq_false_iff_not] at hnul
    rwa [PathText.mem_steps_iff (by decide) (by decide), ← hsteps,
      ← PathText.mem_steps_iff (by decide) (by decide)]
  rw [start, if_pos habs, hsteps] at hroute
  exact sameFile_join h hnul hroute hf

end Shell.Builtin

section
variable {d : Dispatch} {parent : Path} {u : SourceUnit} {w v made : Workspace}

/-- the way is open where each `cd` leads to a directory, and `mkdir` reports no fault -/
theorem Dispatch.reaches_of_runs {here : Location} {t : Time} (hwork : d.workDir.isAbsolute = true)
    (hdir : u.directory.isAbsolute = true)
    (hw : w.find ⟨Shell.Builtin.plainPath d.workDir.text⟩ = .ok (here, .directory t))
    (hmake : Program.Runs (w.seenFrom here) (Tool.mkdir ["-p", Raw.ofText parent.text]) made 0)
    (hu : made.isDirectory ⟨Shell.Builtin.plainPath u.directory.text⟩ = true) :
    ∃ there, d.Reaches parent u w made there := by
  let l : Shell.Level := Shell.levels (fun _ _ _ => pure 0) 0
  let s : Shell.Session := { name := "sh" }
  have hfree (name : String) : Shell.Builtin.IsFree s name := fun _ hv => absurd hv (by simp [s])
  obtain ⟨s₁, hcd, hkeep⟩ : ∃ s₁, Shell.Act.Runs w s
      (Shell.Builtin.cd l [Raw.ofText d.workDir.text]) (w.seenFrom here) s₁ 0 ∧ _ :=
    Shell.Builtin.cd_path_of_find hwork hw (hfree _) (hfree _)
  obtain ⟨there, t', hthere⟩ := isDirectory_eq_true_iff.mp hu
  obtain ⟨s₂, hcd', _⟩ : ∃ s₂, Shell.Act.Runs made s₁
      (Shell.Builtin.cd l [Raw.ofText u.directory.text]) (made.seenFrom there) s₂ 0 ∧ _ :=
    Shell.Builtin.cd_path_of_find hdir hthere (hkeep _ (hfree _)) (hkeep _ (hfree _))
  exact ⟨_, .steps hcd hmake hcd'⟩

/-- a job comes to its compile step, unless a directory above the listing can neither be made nor is
there -/
theorem Dispatch.reaches_or_barred (hwork : d.workDir.isAbsolute = true)
    (hparent : parent.isAbsolute = true) (hdir : u.directory.isAbsolute = true)
    (hw : w.isDirectory ⟨Shell.Builtin.plainPath d.workDir.text⟩ = true)
    (hu : w.isDirectory ⟨Shell.Builtin.plainPath u.directory.text⟩ = true) :
    (∃ made there, d.Reaches parent u w made there) ∨
      ∃ name ∈ Tool.upward (Raw.ofText parent.text), ∃ here v, (w.seenFrom here).Grows v ∧
        v.Barred (Tool.pathOf name) := by
  obtain ⟨here, t, hhere⟩ := isDirectory_eq_true_iff.mp hw
  obtain ⟨there, t', hthere⟩ := isDirectory_eq_true_iff.mp hu
  obtain ⟨made, n, hruns, hgrows, hn⟩ :=
    Tool.makeAll_ends (w.seenFrom here) (Tool.upward (Raw.ofText parent.text))
  rcases hn with rfl | ⟨name, hname, v, hv, hbarred⟩
  · obtain ⟨cs, hcs⟩ := Raw.toList_ofText_absolute hparent
    have habs : (⟨Shell.Builtin.plainPath u.directory.text⟩ : Path).isAbsolute = true :=
      Shell.Builtin.isAbsolute_plainPath
    rw [← @find_seenFrom w here _ habs] at hthere
    obtain ⟨n', hfind, halike⟩ := hgrows.keeps.find hthere
    obtain ⟨t'', rfl⟩ := halike.directory
    obtain ⟨_, hreaches⟩ := Dispatch.reaches_of_runs hwork hdir hhere
      ((Tool.runs_mkdir_makeAll hcs).mpr hruns) (isDirectory_eq_true_iff.mpr ⟨there, t'', hfind⟩)
    exact Or.inl ⟨made, _, hreaches⟩
  · exact Or.inr ⟨name, hname, here, v, hv, hbarred⟩

end

namespace SourceUnit

variable {u : SourceUnit} {dir : Path}

/-- the parent of a listing: the root, or a path that ends in a step -/
theorem parent?_listing (hdir : dir.isAbsolute = true) :
    ∃ parent, (u.listing dir).parent? = some parent ∧ parent.isAbsolute = true ∧
      (parent.text = "/" ∨ parent.EndsInStep) := by
  obtain ⟨name, hname, hempty, hdot, _⟩ := u.getLast?_listing dir
  obtain ⟨parent, _, _, hparent, _, _, habs, _, hend⟩ :=
    Path.parent?_of_step (Path.isAbsolute_join hdir) (endsInStep_of_name hname hempty hdot)
  exact ⟨parent, hparent, habs, hend⟩

/-- the directory of a listing is there once it was made, and the listing has its place in it -/
theorem liesIn_of_mkdir {parent : Path} {w w' : Workspace} (hdir : dir.isAbsolute = true)
    (hparent : (u.listing dir).parent? = some parent) (hroot : ∃ t, w.node? [] = some (.directory t))
    (h : Program.Runs w (Tool.mkdir ["-p", Raw.ofText parent.text]) w' 0) :
    w'.LiesIn (u.listing dir) parent := by
  obtain ⟨parent', hparent', habs, hend⟩ := parent?_listing (u := u) hdir
  obtain rfl := Option.some.inj (hparent'.symm.trans hparent)
  obtain ⟨d, t, hd⟩ := isDirectory_eq_true_iff.mp (Tool.runs_mkdir hroot habs hend h)
  obtain ⟨name, hname, hordinary⟩ := u.getLast?_listing dir
  exact ⟨d, t, name, hd, locate_in_parent (Path.isAbsolute_join hdir) hname hordinary hparent hd⟩

end SourceUnit

namespace Runner

variable {w₀ : Workspace} {settings : Settings} {dir : Path} {r : Runner}

/-- where the job of a unit writes, the plan reads: the job comes to its compile step unless a directory
cannot be made; the listing is one file to both, and lies in the directory that the job made; and all
that it names is seen alike, if the directory of the unit is absolute and does not go up -/
theorem job_agrees_with_plan (hr : create w₀ settings dir = .ok r) (h : Host) (p : Plan) (u : SourceUnit) :
    ∃ parent : Path, (u.listing r.listingDir).parent? = some parent ∧
      (r.dispatch h p).jobCommand u =
        "cd " ++ Shell.quote r.workDir.text ++ " && ( ( mkdir -p " ++ Shell.quote parent.text ++
          " && cd " ++ Shell.quote u.directory.text ++ " && " ++ u.command ++ " -MM -MF " ++
          Shell.quote (u.listing r.listingDir).text ++ " ); " ++ (r.dispatch h p).analysisStep u ++ " )" ∧
      (∀ v s, Classification.decisionFor v r.listingDir s u =
        decideUnit v u.id (u.listing r.listingDir) u.directory s) ∧
      (∀ w : Workspace, w.isDirectory ⟨Shell.Builtin.plainPath r.workDir.text⟩ = true →
        u.directory.isAbsolute = true →
        w.isDirectory ⟨Shell.Builtin.plainPath u.directory.text⟩ = true →
        (∃ made there, (r.dispatch h p).Reaches parent u w made there) ∨
          ∃ name ∈ Tool.upward (Raw.ofText parent.text), ∃ here v, (w.seenFrom here).Grows v ∧
            v.Barred (Tool.pathOf name)) ∧
      ∀ w made there : Workspace, (∃ t, w.node? [] = some (.directory t)) →
        (r.dispatch h p).Reaches parent u w made there →
        made.LiesIn (u.listing r.listingDir) parent ∧
        (∀ (v : Workspace) (follow : Bool), (v.seenFrom there.cwd).locate (u.listing r.listingDir) follow =
          (v.seenFrom w.cwd).locate (u.listing r.listingDir) follow) ∧
        (u.directory.isAbsolute = true → ".." ∉ pieces u.directory.text → ∀ f : Path, f.text ≠ "" →
          SameFile (made.seenFrom w.cwd) there.cwd f (u.directory.join f)) := by
  have hproject := isAbsolute_projectDir hr
  have hlistings : r.listingDir.isAbsolute = true := isAbsolute_resolve hproject _
  have hlisting : (u.listing r.listingDir).isAbsolute = true := Path.isAbsolute_join hlistings
  have hwork : r.workDir.isAbsolute = true := isAbsolute_resolve hproject _
  obtain ⟨parent, hparent, habove, _⟩ := SourceUnit.parent?_listing (u := u) hlistings
  refine ⟨parent, hparent, Dispatch.jobCommand_eq hparent, fun _ _ => rfl,
    fun w hw habs hu => Dispatch.reaches_or_barred hwork habove habs hw hu, ?_⟩
  rintro w made there ⟨t, hroot⟩ ⟨hcd, hmake, hdir⟩
  obtain ⟨d, _, _, rfl⟩ := Shell.Builtin.runs_cd_path hwork hcd
  have hroot' : ∃ t, (w.seenFrom d).node? [] = some (.directory t) := ⟨t, hroot⟩
  refine ⟨SourceUnit.liesIn_of_mkdir hlistings hparent hroot' hmake, fun v follow => ?_, ?_⟩
  · rw [locate_seenFrom hlisting, locate_seenFrom hlisting]
  · intro habs hup f hf
    exact (Shell.Builtin.sameFile_of_cd habs hup hf hdir).seenFrom (Path.isAbsolute_join habs)

end Runner

/-- a project whose units are compiled in a directory of their own -/
def srcRunner : Runner :=
  { oneRunner with
    settings := { oneRunner.settings with cache := { path := "c", dependencyDir := "deps" } } }

def srcUnit : SourceUnit := ⟨"a.cc", ⟨"/src/a.cc"⟩, "cc", ⟨"/src"⟩⟩

def srcWorkspace : Workspace := (⟨.empty, 5, []⟩ : Workspace).put ["src"] (.directory 0)

/-- the directory of the listings is made on the way, and a name is a name in the directory of the
unit -/
theorem src_job_agrees : ∃ made there : Workspace,
    (srcRunner.dispatch oneHost default).Reaches ⟨"/deps"⟩ srcUnit srcWorkspace made there ∧
      made.LiesIn ⟨"/deps/a.cc.d"⟩ ⟨"/deps"⟩ ∧
      SameFile (made.seenFrom []) there.cwd ⟨"a.hh"⟩ ⟨"/src/a.hh"⟩ := by
  have hroot : srcWorkspace.node? [] = some (.directory 0) := rfl
  have hsrc : srcWorkspace.find (top "src") = .ok (["src"], .directory 0) :=
    find_top_directory (by decide) rfl
  have hdeps : srcWorkspace.node? ["deps"] = none := rfl
  let made := srcWorkspace.add ["deps"] (.directory srcWorkspace.clock)
  have hcreate : srcWorkspace.createDirectory (top "deps") = (made, .ok ()) := by
    rw [createDirectory, locate_top_free (by decide) hdeps]
  have hmade : made.isDirectory (top "src") = true := by
    obtain ⟨n, hn, halike⟩ := (keeps_add hdeps).find hsrc
    obtain ⟨t, rfl⟩ := halike.directory
    exact isDirectory_eq_true_iff.mpr ⟨_, t, hn⟩
  have hmkdir : Program.Runs srcWorkspace (Tool.mkdir ["-p", Raw.ofText (top "deps").text]) made 0 := by
    have hascii : Raw.ofText (top "deps").text = "/deps" := Raw.ofText_ascii (by decide)
    have hpath : Tool.pathOf "/deps" = top "deps" := by rw [Tool.pathOf, ← hascii, Raw.toText_ofText]
    rw [hascii, Tool.runs_mkdir_makeAll rfl, show Tool.upward "/deps" = ["/deps"] by decide,
      Tool.runs_makeAll_cons, hpath, hcreate, if_pos (isDirectory_createDirectory hcreate)]
    exact .done
  obtain ⟨there, hreaches⟩ : ∃ there,
      (srcRunner.dispatch oneHost default).Reaches ⟨"/deps"⟩ srcUnit srcWorkspace made there :=
    Dispatch.reaches_of_runs (by decide) (by decide) (find_root _ hroot) hmkdir hmade
  obtain ⟨parent, hparent, _, _, _, hall⟩ :=
    @Runner.job_agrees_with_plan srcWorkspace srcRunner.settings ⟨"/"⟩ srcRunner rfl oneHost default srcUnit
  obtain rfl : (⟨"/deps"⟩ : Path) = parent := Option.some.inj (Eq.trans (by decide) hparent)
  obtain ⟨hlies, _, hsame⟩ := hall srcWorkspace made there ⟨0, hroot⟩ hreaches
  exact ⟨made, there, hreaches, hlies, hsame (by decide) (by decide) ⟨"a.hh"⟩ (by decide)⟩

end IncrementalLint
