import Mathlib.Data.List.Infix
import IncrementalLint.Dispatch

/-!
# Analysis commands in pieces

An analysis command is written with placeholders for the file of a unit and for the rules. They are
replaced one after the other, the rules first. Where every opening brace of the command opens a
placeholder and the rules have none, that comes to the same as replacing both at once: the rules bring
in no placeholder, and the file is brought in last.

* `Template`                          a command in pieces;
* `Template.text_injective`           a command has its pieces in one way only;
* `Template.exists_text_eq`           where every brace opens a placeholder, there are such pieces;
* `Template.file_mem`                 one of them stands for the file if the text names it;
* `Template.analysisStep_text`        the line that analyzes a unit, piece by piece.
-/

namespace IncrementalLint

/-- a piece of a command -/
inductive Piece where
  | plain (c : Char) (h : c ≠ '\x7b')
  | file
  | rules

theorem filePlaceholder_toList : Settings.filePlaceholder.toList = '\x7b' :: "file\x7d".toList := by decide

theorem rulesPlaceholder_toList : Settings.rulesPlaceholder.toList = '\x7b' :: "rules\x7d".toList := by
  decide

namespace Piece

def text : Piece → List Char
  | plain c _ => [c]
  | file => Settings.filePlaceholder.toList
  | rules => Settings.rulesPlaceholder.toList

/-- a piece with texts for what it may stand for -/
def fill (file rules : List Char) : Piece → List Char
  | plain c _ => [c]
  | .file => file
  | .rules => rules

/-- a text begins with one piece at most -/
theorem text_append_inj {p q : Piece} {xs ys : List Char} (h : p.text ++ xs = q.text ++ ys) :
    p = q ∧ xs = ys := by
  have hfile : file.text = '\x7b' :: "file\x7d".toList := filePlaceholder_toList
  have hrules : rules.text = '\x7b' :: "rules\x7d".toList := rulesPlaceholder_toList
  cases p with
  | plain c hc =>
    cases q with
    | plain d hd =>
      obtain ⟨rfl, hrest⟩ := List.cons.inj h
      exact ⟨rfl, hrest⟩
    | file => exact absurd (List.cons.inj (hfile ▸ h)).1 hc
    | rules => exact absurd (List.cons.inj (hrules ▸ h)).1 hc
  | file =>
    cases q with
    | plain d hd => exact absurd (List.cons.inj (hfile ▸ h)).1.symm hd
    | file => exact ⟨rfl, List.append_cancel_left h⟩
    | rules => simp [hfile, hrules] at h
  | rules =>
    cases q with
    | plain d hd => exact absurd (List.cons.inj (hrules ▸ h)).1.symm hd
    | file => simp [hfile, hrules] at h
    | rules => exact ⟨rfl, List.append_cancel_left h⟩

theorem text_ne_nil (p : Piece) : p.text ≠ [] := by
  cases p <;> simp [text, filePlaceholder_toList, rulesPlaceholder_toList]

end Piece

/-- a command in pieces -/
abbrev Template := List Piece

namespace Template

def chars (t : Template) : List Char := t.flatMap Piece.text

def text (t : Template) : String := .ofList t.chars

theorem toList_text (t : Template) : t.text.toList = t.chars := String.toList_ofList

/-- a command with all its placeholders replaced at once -/
def fill (file rules : String) (t : Template) : String :=
  .ofList (t.flatMap (Piece.fill file.toList rules.toList))

theorem chars_cons (p : Piece) (t : Template) : chars (p :: t) = p.text ++ t.chars := List.flatMap_cons

theorem chars_injective {t t' : Template} (h : t.chars = t'.chars) : t = t' := by
  induction t generalizing t' with
  | nil =>
    cases t' with
    | nil => rfl
    | cons q qs => exact absurd (List.append_eq_nil_iff.mp h.symm).1 q.text_ne_nil
  | cons p ps ih =>
    cases t' with
    | nil => exact absurd (List.append_eq_nil_iff.mp h).1 p.text_ne_nil
    | cons q qs =>
      obtain ⟨rfl, hrest⟩ := Piece.text_append_inj h
      rw [ih hrest]

/-- a command has its pieces in one way only -/
theorem text_injective {t t' : Template} (h : t.text = t'.text) : t = t' :=
  chars_injective (String.ofList_injective h)

end Template

/-! ## from a text to its pieces -/

/-- every opening brace opens a placeholder -/
def OnlyPlaceholders (command : List Char) : Prop :=
  ∀ back, '\x7b' :: back <:+ command →
    Settings.filePlaceholder.toList <+: '\x7b' :: back ∨ Settings.rulesPlaceholder.toList <+: '\x7b' :: back

theorem onlyPlaceholders_iff {command : List Char} :
    OnlyPlaceholders command ↔ ∀ back ∈ command.tails, back.head? = some '\x7b' →
      Settings.filePlaceholder.toList <+: back ∨ Settings.rulesPlaceholder.toList <+: back := by
  constructor
  · intro h back hback hhead
    obtain ⟨rest, rfl⟩ := List.head?_eq_some_iff.mp hhead
    exact h rest ((List.mem_tails _ _).mp hback)
  · intro h back hback
    exact h _ ((List.mem_tails _ _).mpr hback) rfl

instance (command : List Char) : Decidable (OnlyPlaceholders command) :=
  decidable_of_iff _ onlyPlaceholders_iff.symm

section
variable {cs front rest : List Char} {c : Char}

theorem OnlyPlaceholders.of_append (h : OnlyPlaceholders (front ++ rest)) : OnlyPlaceholders rest := by
  intro back hback
  exact h back (hback.trans (List.suffix_append front rest))

theorem OnlyPlaceholders.exists_piece (h : OnlyPlaceholders (c :: cs)) :
    ∃ (p : Piece) (rest : List Char), c :: cs = p.text ++ rest := by
  by_cases hc : c = '\x7b'
  · subst hc
    rcases h cs (List.suffix_refl _) with ⟨rest, hrest⟩ | ⟨rest, hrest⟩
    · exact ⟨.file, rest, hrest.symm⟩
    · exact ⟨.rules, rest, hrest.symm⟩
  · exact ⟨.plain c hc, cs, rfl⟩

end

namespace Template

/-- where every brace opens a placeholder, a command has pieces -/
theorem exists_chars_eq {cs : List Char} (h : OnlyPlaceholders cs) : ∃ t : Template, t.chars = cs := by
  induction hn : cs.length using Nat.strongRecOn generalizing cs with
  | ind n ih =>
    cases cs with
    | nil => exact ⟨[], rfl⟩
    | cons c cs =>
      obtain ⟨p, rest, hp⟩ := h.exists_piece
      have hlength : rest.length < n := by
        have hpos := List.length_pos_iff.mpr p.text_ne_nil
        rw [← hn, hp, List.length_append]
        omega
      obtain ⟨t, rfl⟩ := ih _ hlength (hp ▸ h).of_append rfl
      exact ⟨p :: t, hp.symm⟩

theorem exists_text_eq {command : String} (h : OnlyPlaceholders command.toList) :
    ∃ t : Template, t.text = command := by
  obtain ⟨t, ht⟩ := exists_chars_eq h
  exact ⟨t, by rw [text, ht, String.ofList_toList]⟩

theorem not_mem_plain {c : Char} (hc : c ≠ '\x7b') : '\x7b' ∉ [c] := by
  intro hm
  exact hc (List.mem_singleton.mp hm).symm

theorem not_mem_file : '\x7b' ∉ "file\x7d".toList := by decide

theorem not_mem_rules : '\x7b' ∉ "rules\x7d".toList := by decide

/-- a text that names the file has a piece for it -/
theorem file_mem {t : Template} (h : Chars.contains Settings.filePlaceholder.toList t.chars = true) :
    .file ∈ t := by
  rw [filePlaceholder_toList] at h
  induction t with
  | nil => contradiction
  | cons p ps ih =>
    cases p with
    | plain c hc =>
      have hpass := Chars.contains_pass (not_mem_plain hc) "file\x7d".toList (chars ps)
      exact List.mem_cons_of_mem _ (ih (hpass.symm.trans h))
    | file => exact List.mem_cons_self
    | rules =>
      have hpass := Chars.contains_pass not_mem_rules "file\x7d".toList (chars ps)
      refine List.mem_cons_of_mem _ (ih (hpass.symm.trans ?_))
      rw [chars_cons, Piece.text, rulesPlaceholder_toList, List.cons_append, Chars.contains] at h
      exact h

/-! ## one after the other -/

/-- the rules are filled in, and the file keeps its placeholder -/
theorem replaceAll_rules (t : Template) (rules : List Char) :
    Chars.replaceAll Settings.rulesPlaceholder.toList rules t.chars =
      t.flatMap (Piece.fill Settings.filePlaceholder.toList rules) := by
  induction t with
  | nil => exact Chars.replaceAll_nil _ _
  | cons p ps ih =>
    rw [chars_cons, List.flatMap_cons, ← ih]
    cases p with
    | plain c hc =>
      rw [rulesPlaceholder_toList]
      exact Chars.replaceAll_pass (not_mem_plain hc) _ _ _
    | file =>
      rw [Piece.text, Piece.fill, filePlaceholder_toList, rulesPlaceholder_toList, List.cons_append,
        Chars.replaceAll_cons_of_none rfl, Chars.replaceAll_pass not_mem_file, List.cons_append]
    | rules => exact Chars.replaceAll_append (by decide) _ _

/-- in rules without a brace, no placeholder is filled in -/
theorem replaceAll_file {rules : List Char} (hr : '\x7b' ∉ rules) (t : Template) (file : List Char) :
    Chars.replaceAll Settings.filePlaceholder.toList file
        (t.flatMap (Piece.fill Settings.filePlaceholder.toList rules)) =
      t.flatMap (Piece.fill file rules) := by
  induction t with
  | nil => exact Chars.replaceAll_nil _ _
  | cons p ps ih =>
    rw [List.flatMap_cons, List.flatMap_cons, ← ih]
    cases p with
    | plain c hc =>
      rw [filePlaceholder_toList]
      exact Chars.replaceAll_pass (not_mem_plain hc) _ _ _
    | file => exact Chars.replaceAll_append (by decide) _ _
    | rules =>
      rw [filePlaceholder_toList]
      exact Chars.replaceAll_pass hr _ _ _

/-- both placeholders are replaced at once -/
theorem analysisStep_text {d : Dispatch} {t : Template} (ht : d.analysisCommand = t.text)
    (hr : '\x7b' ∉ d.ruleSetId.toList) (u : SourceUnit) :
    d.analysisStep u = t.fill (Shell.quote u.path.text) d.ruleSetId := by
  unfold Dispatch.analysisStep Text.replaceAll
  rw [ht, String.toList_ofList, toList_text, replaceAll_rules, replaceAll_file hr]
  rfl

/-- a path that reads like a placeholder is no placeholder -/
example :
    (Dispatch.mk ⟨"/"⟩ ⟨"/"⟩ "tidy \x7brules\x7d \x7bfile\x7d" "a,b" 1 1000 true).analysisStep
        ⟨"u", ⟨"/\x7brules\x7d\x7bfile\x7d"⟩, "cc", ⟨"/"⟩⟩ =
      "tidy a,b '/\x7brules\x7d\x7bfile\x7d'" := by decide +kernel

end Template

end IncrementalLint
