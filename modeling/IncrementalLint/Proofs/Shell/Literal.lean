import IncrementalLint.Proofs.Shell.Alone
import IncrementalLint.Proofs.Shell.Tokens
import IncrementalLint.Shell.Expansion

/-!
# Expanding words that stand for themselves

Nothing in such a word is expanded, none of its characters separates fields or belongs to a pattern:
whatever the variables of a shell are, and whatever files there are, it becomes one field with its text.

* `Bit.Still`                  what splitting leaves alone;
* `Bits.split_still`           such bits make one field;
* `Field.isPattern_plain`      and no pattern for file names;
* `Expansion.runs_fields`      the field of a word that stands for itself.
-/

namespace IncrementalLint.Shell

/-! ## fields of characters that mean nothing -/

/-- a character that is quoted, or means nothing but itself -/
def Glyph.Plain (g : Glyph) : Prop := g.quoted = true ∨ isHarmless g.char = true

section
variable {gs : List Glyph}

theorem Pattern.plain_false {g : Glyph} (hg : g.Plain) {c : Char} (hc : isHarmless c = false) :
    Pattern.plain c (g.char, g.quoted) = false := by
  rcases hg with hq | hh
  · simp [Pattern.plain, hq]
  · have hne : g.char ≠ c := by
      rintro rfl
      rw [hc] at hh
      contradiction
    simp [Pattern.plain, hne]

/-- such characters make a pattern that stands for one name only -/
theorem Pattern.readPieces_plain (hgs : ∀ g ∈ gs, g.Plain) (fuel : Nat) :
    (readPieces fuel (gs.map fun g => (g.char, g.quoted))).isLiteral = true := by
  induction fuel generalizing gs with
  | zero => rfl
  | succ fuel ih =>
    cases gs with
    | nil => rfl
    | cons g gs =>
      have hg := hgs g List.mem_cons_self
      have hrest := ih fun x hx => hgs x (List.mem_cons_of_mem _ hx)
      have hmany : Pattern.plain '*' (g.char, g.quoted) = false := plain_false hg (by decide)
      have hone : Pattern.plain '?' (g.char, g.quoted) = false := plain_false hg (by decide)
      have hescape : Pattern.plain '\\' (g.char, g.quoted) = false := plain_false hg (by decide)
      have hset : Pattern.plain '[' (g.char, g.quoted) = false := plain_false hg (by decide)
      simp only [List.map_cons, readPieces, hmany, hone, hescape, hset]
      exact hrest

theorem FileNames.components_plain {f : Field} (hf : ∀ g ∈ f, g.Plain) :
    ∀ c ∈ components f, ∀ g ∈ c, g.Plain := by
  induction f with
  | nil =>
    intro c hc g hg
    obtain rfl := List.mem_singleton.mp hc
    contradiction
  | cons g gs ih =>
    have hrest := ih fun x hx => hf x (List.mem_cons_of_mem _ hx)
    intro c hc
    unfold components at hc
    split at hc
    · rcases List.mem_cons.mp hc with rfl | hc
      · exact fun x hx => absurd hx List.not_mem_nil
      · exact hrest c hc
    · split at hc
      · obtain rfl := List.mem_singleton.mp hc
        intro x hx
        obtain rfl := List.mem_singleton.mp hx
        exact hf x List.mem_cons_self
      next d ds hd =>
        rcases List.mem_cons.mp hc with rfl | hc
        · intro x hx
          rcases List.mem_cons.mp hx with rfl | hx
          · exact hf x List.mem_cons_self
          · exact hrest d (hd ▸ List.mem_cons_self) x hx
        · exact hrest c (hd ▸ List.mem_cons_of_mem _ hc)

theorem FileNames.isPattern_plain {f : Field} (hf : ∀ g ∈ f, g.Plain) : isPattern f = false := by
  rw [isPattern, List.any_eq_false]
  intro c hc
  have hliteral : c.pattern.isLiteral = true := Pattern.readPieces_plain (components_plain hf c hc) _
  rw [hliteral]
  exact Bool.false_ne_true

end

/-! ## bits that are not split -/

/-- an empty piece, or a character that no expansion made -/
def Bit.Still : Bit → Prop
  | .glyph g => g.expanded = false
  | .mark => True
  | .cut => False

namespace Bits

section
variable {separators : List Char} {bs : Bits}

/-- the characters among bits -/
def glyphs (bs : Bits) : List Glyph := bs.filterMap fun
  | .glyph g => some g
  | _ => none

theorem step_still {b : Bit} (hb : b.Still) (s : Splitting) :
    (Splitting.step separators s b).fields = s.fields ∧
      (Splitting.step separators s b).current = some ((glyphs [b]).reverse ++ s.current.getD []) := by
  cases b with
  | mark => exact ⟨rfl, rfl⟩
  | cut => exact hb.elim
  | glyph g =>
    have hg : g.expanded = false := hb
    rw [Splitting.step, hg]
    exact ⟨rfl, rfl⟩

theorem foldl_still (hbs : ∀ b ∈ bs, b.Still) (s : Splitting) (hne : bs ≠ [] ∨ s.current.isSome = true) :
    (bs.foldl (Splitting.step separators) s).fields = s.fields ∧
      (bs.foldl (Splitting.step separators) s).current =
        some ((glyphs bs).reverse ++ s.current.getD []) := by
  induction bs generalizing s with
  | nil =>
    obtain ⟨gs, hgs⟩ := Option.isSome_iff_exists.mp (hne.resolve_left (absurd rfl))
    rw [hgs]
    exact ⟨rfl, hgs⟩
  | cons b bs ih =>
    obtain ⟨hfields, hcurrent⟩ := @step_still separators b (hbs b List.mem_cons_self) s
    obtain ⟨hfields', hcurrent'⟩ := ih (fun x hx => hbs x (List.mem_cons_of_mem _ hx)) _
      (.inr (by rw [hcurrent]; rfl))
    refine ⟨hfields'.trans hfields, ?_⟩
    rw [List.foldl_cons, hcurrent', hcurrent, Option.getD_some, ← List.append_assoc, ← List.reverse_append]
    exact congrArg (fun gs => some (List.reverse gs ++ _)) List.filterMap_append.symm

/-- such bits make one field -/
theorem split_still (hbs : ∀ b ∈ bs, b.Still) (hne : bs ≠ []) : split separators bs = [glyphs bs] := by
  obtain ⟨hfields, hcurrent⟩ := @foldl_still separators bs hbs {} (.inl hne)
  rw [split, Splitting.finish, hcurrent]
  simp [hfields]

end

theorem glyphs_map (quoted : Bool) (cs : List Char) :
    glyphs (cs.map fun c => .glyph ⟨c, quoted, false⟩) = cs.map fun c => ⟨c, quoted, false⟩ := by
  induction cs with
  | nil => rfl
  | cons c cs ih => exact congrArg (_ :: ·) ih

/-- what a text that means nothing else becomes -/
theorem ofText_plain {s : String} {quoted : Bool} (h : quoted = false → isHarmlessWord s.toList = true) :
    (∀ b ∈ ofText s quoted false, b.Still) ∧ ofText s quoted false ≠ [] ∧
      (∀ g ∈ glyphs (ofText s quoted false), g.Plain) ∧
        (glyphs (ofText s quoted false)).map (·.char) = s.toList := by
  by_cases hmark : (quoted && s.isEmpty) = true
  · have hempty : s = "" := String.isEmpty_iff.mp ((Bool.and_eq_true _ _).mp hmark).2
    rw [ofText, if_pos hmark, hempty]
    exact ⟨fun b hb => List.mem_singleton.mp hb ▸ trivial, List.cons_ne_nil _ _,
      fun g hg => absurd hg List.not_mem_nil, rfl⟩
  · rw [ofText, if_neg hmark, glyphs_map]
    refine ⟨fun b hb => ?_, fun hnil => hmark ?_, fun g hg => ?_, ?_⟩
    · obtain ⟨c, _, rfl⟩ := List.mem_map.mp hb
      exact rfl
    · have hs : s = "" := String.toList_eq_nil_iff.mp (List.map_eq_nil_iff.mp hnil)
      cases quoted with
      | true => rw [hs]; rfl
      | false =>
        have hh := h rfl
        rw [hs] at hh
        contradiction
    · obtain ⟨c, hc, rfl⟩ := List.mem_map.mp hg
      cases quoted with
      | true => exact .inl rfl
      | false => exact .inr (List.all_eq_true.mp ((Bool.and_eq_true _ _).mp (h rfl)).2 c hc)
    · rw [List.map_map]
      exact List.map_id _

end Bits

/-! ## the field of a literal word -/

/-- a part that stands for itself is a text, quoted or harmless -/
theorem Part.text_of_literal? {p : Part} {cs : List Char} (h : p.literal? = some cs) :
    ∃ s quoted, p = .text s quoted ∧ s.toList = cs ∧ (quoted = false → isHarmlessWord s.toList = true) := by
  unfold Part.literal? at h
  split at h
  next s => exact ⟨s, true, rfl, Option.some.inj h, fun hq => by contradiction⟩
  next s =>
    split at h
    next hs =>
      obtain rfl := Option.some.inj h
      exact ⟨s, false, rfl, rfl, fun _ => hs⟩
    next => contradiction
  next => contradiction

namespace Expansion

section
variable {l l' : Level} {W : Workspace} {S : Session}

/-- a harmless text does not start with a tilde -/
theorem textBits_harmless {s : String} (h : isHarmlessWord s.toList = true) (first last : Bool) :
    textBits .front first last s = pure (Bits.ofText s false false) := by
  unfold textBits
  dsimp only
  split
  · unfold tildeBits
    split
    next rest htilde =>
      rw [htilde] at h
      contradiction
    next => rw [String.ofList_toList]
  · rfl

/-- nothing is asked for the parts of a literal word, and their bits are not split -/
theorem parts_literal {w : Word} {css : List (List Char)} (h : w.mapM Part.literal? = some css) (first : Bool) :
    ∃ bs, parts l .front first w = pure bs ∧ (∀ b ∈ bs, b.Still) ∧ (w ≠ [] → bs ≠ []) ∧
      (∀ g ∈ Bits.glyphs bs, g.Plain) ∧ (Bits.glyphs bs).map (·.char) = css.flatten := by
  induction w generalizing css first with
  | nil =>
    obtain rfl := Option.some.inj h
    exact ⟨[], rfl, fun b hb => absurd hb List.not_mem_nil, absurd rfl, fun g hg => absurd hg List.not_mem_nil, rfl⟩
  | cons p w ih =>
    rw [List.mapM_cons] at h
    obtain ⟨cs, hp, h⟩ := Option.bind_eq_some_iff.mp h
    obtain ⟨css', hw, h⟩ := Option.bind_eq_some_iff.mp h
    obtain rfl := Option.some.inj h
    obtain ⟨s, quoted, rfl, rfl, hharmless⟩ := Part.text_of_literal? hp
    obtain ⟨hstill, hne, hplain, htext⟩ := Bits.ofText_plain hharmless
    obtain ⟨bs, hbs, hstill', _, hplain', htext'⟩ := ih hw false
    have hpart : part l .front first w.isEmpty (.text s quoted) = pure (Bits.ofText s quoted false) := by
      cases quoted with
      | true => rfl
      | false => exact textBits_harmless (hharmless rfl) first w.isEmpty
    refine ⟨Bits.ofText s quoted false ++ bs, ?_, ?_, ?_, ?_, ?_⟩
    · rw [parts, hpart, hbs]
      rfl
    · exact fun b hb => (List.mem_append.mp hb).elim (hstill b) (hstill' b)
    · exact fun _ hnil => hne (List.append_eq_nil_iff.mp hnil).1
    · intro g hg
      rw [Bits.glyphs, List.filterMap_append] at hg
      exact (List.mem_append.mp hg).elim (hplain g) (hplain' g)
    · rw [Bits.glyphs, List.filterMap_append, List.map_append, List.flatten_cons, ← htext, ← htext']
      rfl

/-- a literal word becomes one field, which is its text -/
theorem runs_fields {w : Word} {text : String} (hl : l.expand = word l') (h : Word.literal? w = some text) :
    Act.Runs W S (fields l w) W S [text] := by
  unfold Word.literal? at h
  split at h
  · contradiction
  next hne =>
    obtain ⟨css, hcss, rfl⟩ := Option.map_eq_some_iff.mp h
    obtain ⟨bs, hbs, hstill, hsome, hplain, htext⟩ := @parts_literal l' w css hcss true
    have hbits : Act.Runs W S (l.expand .front w) W S bs := by
      rw [hl, word, hbs]
      exact .done
    obtain ⟨seps, hseps⟩ : ∃ seps, Act.Runs W S Act.separators W S seps := ⟨_, .done⟩
    have hsplit : Bits.split seps bs = [Bits.glyphs bs] :=
      Bits.split_still hstill (hsome fun hnil => hne (by rw [hnil]; rfl))
    have hname : ([Bits.glyphs bs].any FileNames.isPattern) = false := by
      simp [FileNames.isPattern_plain hplain]
    rw [fields, Act.runs_bind]
    refine ⟨W, S, bs, hbits, ?_⟩
    rw [Act.runs_bind]
    refine ⟨W, S, seps, hseps, ?_⟩
    rw [hsplit, Act.runs_get_bind, hname, Bool.not_false, Bool.or_true, if_pos rfl, Act.runs_pure]
    refine ⟨rfl, rfl, ?_⟩
    rw [← htext]
    rfl

theorem runs_allFields {ws : List Word} {texts : List String} (hl : l.expand = word l')
    (h : ws.map Word.literal? = texts.map some) : Act.Runs W S (allFields l ws) W S texts := by
  induction ws generalizing texts with
  | nil =>
    obtain rfl : texts = [] := List.map_eq_nil_iff.mp h.symm
    exact .done
  | cons w ws ih =>
    cases texts with
    | nil => contradiction
    | cons t ts =>
      obtain ⟨hw, hws⟩ := List.cons.inj h
      rw [allFields, Act.runs_bind]
      refine ⟨W, S, [t], runs_fields hl hw, ?_⟩
      rw [Act.runs_bind]
      exact ⟨W, S, ts, ih hws, .done⟩

end

end Expansion

end IncrementalLint.Shell
