import IncrementalLint.CommandLine.Perform
import IncrementalLint.Proofs.Cache.Saved
import IncrementalLint.Proofs.Files.Edits

/-!
# A report shown as JSON

What a run shows as JSON says all that the report says, whatever texts its units and outputs are.

* `Report.text`             a report as it is shown;
* `Report.Countable`        counts that a machine word holds, as those that are read have to be;
* `Report.parse?_text`      the report is read back from its text;
* `showReport_json_read`    and this text is what is shown, or put into a file.
-/

namespace IncrementalLint

/-! ## records read back -/

theorem Status.ofJson?_text (s : Status) : Status.ofJson? (.string s.text) = some s := by
  cases s <;> rfl

theorem Verdict.ofJson?_toJson (v : Verdict) : Verdict.ofJson? v.toJson = some v := by
  have hfields : Json.Fields.ofJson? ["status", "output"] v.toJson =
      some ⟨[("status", .string v.status.text), ("output", .string v.output)]⟩ := rfl
  simp only [ofJson?, hfields, Option.bind_eq_bind, Option.bind_some]
  simp only [Json.Fields.required?, Json.Fields.find?, List.find?, String.reduceBEq, Option.map_some,
    Option.bind_some, Status.ofJson?_text, Json.asString?]
  rfl

namespace Report

/-- the counts fit into a machine word -/
structure Countable (r : Report) : Prop where
  total : r.total < UInt64.size
  failed : r.failed < UInt64.size

theorem ofJson?_toJson {r : Report} (h : r.Countable) : ofJson? r.toJson = some r := by
  have hfields : Json.Fields.ofJson? ["total", "failed", "failedUnits", "details"] r.toJson = some ⟨[
      ("total", .int r.total), ("failed", .int r.failed),
      ("failedUnits", .array (r.failedUnits.map .string)),
      ("details", .object (r.details.toList.map fun e => (e.1, e.2.toJson)))]⟩ := rfl
  have hstring (a : String) : Json.asString? (.string a) = some a := rfl
  simp only [ofJson?, hfields, Option.bind_eq_bind, Option.bind_some]
  simp only [Json.Fields.required?, Json.Fields.find?, List.find?, String.reduceBEq, Option.map_some,
    Option.bind_some, Json.asCount?_int h.total, Json.asCount?_int h.failed, Json.asList?_map hstring,
    Json.asMap?_map Verdict.ofJson?_toJson]
  rfl

theorem plain_toJson (r : Report) : Json.plain r.toJson = true := by
  have hunits : Json.plain (.array (r.failedUnits.map .string)) = true := Json.plain_map (fun _ => rfl) r.failedUnits
  have hdetails := Json.plainMembers_map (fun _ => rfl : ∀ v : Verdict, Json.plain v.toJson = true) r.details.toList
  simp only [toJson, Json.plain, Json.plainMembers, hdetails, Bool.and_true, Bool.true_and]
  exact hunits

/-! ## texts read back -/

/-- a report as it is shown -/
def text (r : Report) : String := Json.pretty r.toJson ++ "\n"

theorem parse?_text {r : Report} (h : r.Countable) : parse? r.text = some r := by
  rw [parse?, text, Json.read?_line r.plain_toJson, Option.bind_some, ofJson?_toJson h]

end Report

section
variable {o : RunOptions} {r : Report} {before : String} {w w' : Workspace} {path : Path} {shown : Shown}

theorem showReport_of_none (hform : o.form = .json) (hout : o.output = none) :
    showReport o r before w = (w, .ok { stdout := r.text, stderr := before }) := by
  rw [showReport, hout, hform]
  rfl

/-- a file with the report; only what is no storage takes it without keeping it -/
theorem showReport_of_some (hform : o.form = .json) (hout : o.output = some path)
    (h : showReport o r before w = (w', .ok shown)) : w'.readText path = .ok r.text ∨
      ∃ l n, w'.find path = .ok (l, n) ∧ n.isDirectory = false ∧ ∀ c t x, n ≠ .file c t x := by
  have hsave : w.saveText path r.text = (w', .ok ()) := by
    rw [showReport, hout, hform] at h
    dsimp only at h
    split at h
    next w₁ hsaved =>
      rw [← (Prod.mk.inj h).1]
      exact hsaved
    next => exact absurd h (by simp)
  obtain ⟨w₁, _, hwrite⟩ := Workspace.saveText_ok hsave
  rcases Workspace.write_ok hwrite with ⟨l, x, hf, _⟩ | ⟨rfl, hother⟩
  · exact Or.inl (Workspace.readText_eq_ok_iff.mpr ⟨l, _, hf, Utf8.decode?_encode r.text⟩)
  · exact Or.inr hother

/-- a report is read back from the one text that it is shown as, in a terminal or in a file, and so it
passes if that says so, and reads alike -/
theorem showReport_json_read (hform : o.form = .json) (hr : r.Countable) (before : String) (w : Workspace) :
    Report.parse? r.text = some r ∧
      (∀ r', Report.parse? r.text = some r' → r'.passed = r.passed ∧ r'.render = r.render) ∧
      (o.output = none → showReport o r before w = (w, .ok { stdout := r.text, stderr := before })) ∧
      ∀ path w' shown, o.output = some path → showReport o r before w = (w', .ok shown) →
        w'.readText path = .ok r.text ∨
          ∃ l n, w'.find path = .ok (l, n) ∧ n.isDirectory = false ∧ ∀ c t x, n ≠ .file c t x := by
  have hread := Report.parse?_text hr
  refine ⟨hread, fun r' hr' => ?_, showReport_of_none hform, fun path w' shown => showReport_of_some hform⟩
  obtain rfl := Option.some.inj (hread.symm.trans hr')
  exact ⟨rfl, rfl⟩

end

/-! ## odd units and outputs -/

/-- counts as large as they can be, a unit that is listed twice, and texts that need escapes -/
def oddReport : Report where
  total := UInt64.size - 1
  failed := UInt64.size - 1
  failedUnits := ["ü\\\".cc", "", "ü\\\".cc"]
  details := .ofList [("", ⟨.passed, "\x00\x1f\x7f"⟩), ("ü\\\".cc", ⟨.failed, "\"𝄞\"\r\n\u2028\t"⟩)]

theorem odd_json_read :
    let o : RunOptions := { form := .json }
    let w : Workspace := ⟨.empty, 0, []⟩
    o.form = .json ∧ oddReport.Countable ∧ Report.parse? oddReport.text = some oddReport ∧
      showReport o oddReport "" w = (w, .ok { stdout := oddReport.text }) := by
  intro o w
  have hform : o.form = .json := rfl
  have hcount : oddReport.Countable := ⟨by decide, by decide⟩
  obtain ⟨hread, _, hshown, _⟩ := showReport_json_read hform hcount "" w
  exact ⟨hform, hcount, hread, hshown rfl⟩

end IncrementalLint
