import IncrementalLint.Proofs.Shell.CommandLookahead
import IncrementalLint.Proofs.Shell.Quoted

/-!
# Closed texts

A text is closed if a blank behind it ends it. In front of other text, a closed one is read as on its own,
and so a line can be put together of closed texts, of signs, and of words that were quoted.

* `Bracketed`            tokens that close the parentheses that they open;
* `Closed`              a text that a blank ends;
* `Closed.reads`        it is read in front of any other text;
* `ReadAs`              a text that is read as the same tokens wherever it stands;
* `closed_quoteAll`     words that were quoted one by one are closed.
-/

namespace IncrementalLint.Shell

/-! ## what tokens show -/

/-- what a token stands for: a text, if it is a word that stands for itself, or a sign -/
inductive Shown where
  | text (s : String)
  | andIf
  | open_
  | close
  | semi
  | other
  deriving DecidableEq

def Token.shown : Token → Shown
  | .word w =>
    match w.literal? with
    | some s => .text s
    | none => .other
  | .andIf => .andIf
  | .open_ => .open_
  | .close => .close
  | .semi => .semi
  | _ => .other

theorem Token.shown_word {w : Word} {s : String} (h : w.literal? = some s) :
    (Token.word w).shown = .text s := by
  rw [Token.shown, h]

/-- how many parentheses are open behind a token; none if it closes one that is not open -/
def Shown.nest (d : Nat) : Shown → Option Nat
  | .open_ => some (d + 1)
  | .close => if d = 0 then none else some (d - 1)
  | _ => some d

def nesting (d : Nat) (xs : List Shown) : Option Nat := xs.foldlM Shown.nest d

/-- tokens that close each parenthesis that they open, and no other -/
def Bracketed (ts : List Token) : Prop := nesting 0 (ts.map Token.shown) = some 0

section
variable {xs : List Shown} {d e : Nat}

theorem nesting_append (d : Nat) (xs ys : List Shown) :
    nesting d (xs ++ ys) = (nesting d xs).bind fun e => nesting e ys :=
  List.foldlM_append

theorem Shown.nest_add {x : Shown} (h : Shown.nest d x = some e) (k : Nat) :
    Shown.nest (d + k) x = some (e + k) := by
  cases x with
  | open_ =>
    obtain rfl := Option.some.inj h
    exact congrArg some (Nat.add_right_comm d k 1)
  | close =>
    simp only [Shown.nest] at h ⊢
    split at h
    · contradiction
    · obtain rfl := Option.some.inj h
      rw [if_neg (by omega), Nat.sub_add_comm (by omega)]
  | _ =>
    obtain rfl := Option.some.inj h
    rfl

/-- what is open in front stays open -/
theorem nesting_add (h : nesting d xs = some e) (k : Nat) : nesting (d + k) xs = some (e + k) := by
  induction xs generalizing d with
  | nil =>
    obtain rfl := Option.some.inj h
    rfl
  | cons x xs ih =>
    obtain ⟨m, hm, hrest⟩ := Option.bind_eq_some_iff.mp h
    show (Shown.nest (d + k) x).bind (fun m => nesting m xs) = _
    rw [Shown.nest_add hm k]
    exact ih hrest

variable {ts us : List Token}

theorem Bracketed.nesting (h : Bracketed ts) (d : Nat) : nesting d (ts.map Token.shown) = some d := by
  have hd := nesting_add h d
  rwa [Nat.zero_add] at hd

theorem Bracketed.append (h : Bracketed ts) (h' : Bracketed us) : Bracketed (ts ++ us) := by
  rw [Bracketed, List.map_append, nesting_append, h]
  exact h'

/-- a group between parentheses -/
theorem Bracketed.group (h : Bracketed ts) : Bracketed (.open_ :: (ts ++ [.close])) := by
  show Shell.nesting 1 ((ts ++ [Token.close]).map Token.shown) = some 0
  rw [List.map_append, nesting_append, h.nesting]
  rfl

end

/-! ## texts that a blank ends -/

/-- a text that is over where a blank stands behind it: the blank is not taken as a part of it, and no
here-document is awaited. In an open quote, after a backslash, in a comment, in an expansion or in a
here-document, the blank would be a part of it -/
def Closed (n : Nested) (s : Source) (ts : List Token) : Prop :=
  ∃ t, Reads n (s.behind [' ']) ts t ∧ t.rest ≠ [] ∧ Gap t.rest ∧ t.pending = []

section
variable {n : Nested} {s : Source} {ts : List Token} {cs back : List Char}

/-- a closed text is read in front of any other -/
theorem Closed.reads (hn : n.Local) (h : Closed n s ts) (back : List Char) :
    ∃ gap t, Reads n (s.past [] (s.rest ++ ' ' :: back)) ts t ∧ t.rest = gap ++ back ∧ Gap gap ∧
      t.pending = [] ∧ t.size = s.size ∧ t.rest.length ≤ (s.rest ++ ' ' :: back).length := by
  obtain ⟨t, hreads, hne, hgap, hpending⟩ := h
  have hblank : EndsBlank (s.behind [' ']).rest := List.getLast?_concat
  have hbehind := hreads.behind hn hblank hne back
  have hrest : (s.behind [' ']).behind back = s.past [] (s.rest ++ ' ' :: back) := by
    simp [Source.behind, Source.past]
  rw [hrest] at hbehind
  obtain ⟨hsuffix, hsize⟩ := hbehind.suffix hn
  exact ⟨t.rest, t.behind back, hbehind, rfl, hgap, hpending, hsize, hsuffix.length_le⟩

/-- a blank in front changes nothing -/
theorem Closed.blank (h : Closed n (s.past [' '] cs) ts) (hs : s.rest = ' ' :: cs)
    (hsize : s.rest.length + 1 < s.size) : Closed n s ts := by
  obtain ⟨t, hreads, hne, hgap, hpending⟩ := h
  have hrest : (s.behind [' ']).rest = ' ' :: (cs ++ [' ']) := by
    rw [Source.behind, hs]
    rfl
  have hlength : (s.behind [' ']).rest.length < (s.behind [' ']).size := by
    show (s.behind [' ']).rest.length < s.size
    rw [hrest]
    rw [hs] at hsize
    simpa using hsize
  have hlexeme : lexeme n (s.behind [' ']) = lexeme n ((s.past [' '] cs).behind [' ']) :=
    lexeme_blank hrest hlength
  cases hreads with
  | done => exact ⟨s.behind [' '], .done, by simp [hrest], hrest ▸ .blank (.inl rfl) hgap, hpending⟩
  | next hl hmore => exact ⟨t, .next (hlexeme.trans hl) hmore, hne, hgap, hpending⟩

/-- a closed text is read behind a blank and in front of one -/
theorem Closed.reads_blanks {front : List Char} (hn : n.Local) (h : Closed n (s.past (front ++ [' ']) cs) ts)
    (hsize : cs.length + back.length + 2 < s.size) :
    ∃ gap t, Reads n (s.past front (' ' :: (cs ++ ' ' :: back))) ts t ∧ t.rest = gap ++ back ∧ Gap gap ∧
      t.pending = [] ∧ t.size = s.size ∧ t.rest.length < t.size := by
  have hblank : Closed n (s.past front (' ' :: cs)) ts := by
    refine .blank ?_ rfl (show cs.length + 1 + 1 < s.size by omega)
    rw [Source.past_past]
    exact h
  obtain ⟨gap, t, hread, hrest, hgap, hpending, htsize, htlength⟩ := hblank.reads hn back
  have hsource : (s.past front (' ' :: cs)).past [] (' ' :: cs ++ ' ' :: back) =
      s.past front (' ' :: (cs ++ ' ' :: back)) := by
    rw [Source.past_past, List.append_nil]
    rfl
  have hle : t.rest.length ≤ (' ' :: cs ++ ' ' :: back).length := htlength
  simp only [List.cons_append, List.length_cons, List.length_append] at hle
  refine ⟨gap, t, hsource ▸ hread, hrest, hgap, hpending, htsize, ?_⟩
  rw [htsize]
  show t.rest.length < s.size
  omega

end

/-! ## signs -/

section
variable {n : Nested} {s : Source} {gap back : List Char}

theorem accept_same {c : Char} (hs : s.rest = c :: back) (hc : c ≠ '\\') :
    accept c s = .ok (true, s.past [c] back) := by
  have hjoin : ¬['\\', '\n'] <+: s.rest := by
    rw [hs]
    rintro ⟨rest, hrest⟩
    exact hc (List.cons.inj hrest).1.symm
  rw [accept, bind_of_ok (joinLines_other hjoin), bind_of_ok rfl, hs]
  simp only [beq_self_eq_true, if_true]
  rw [bind_of_ok (nextChar_cons hs)]
  rfl

theorem accept_blank {c : Char} (hs : AtBlank s.rest) (hc : c ≠ ' ') : accept c s = .ok (false, s) := by
  have hjoin : ¬['\\', '\n'] <+: s.rest := by
    rintro ⟨rest, hrest⟩
    have hblank := hs '\\' (by rw [← hrest]; rfl)
    contradiction
  rw [accept, bind_of_ok (joinLines_other hjoin), bind_of_ok rfl]
  cases hrest : s.rest with
  | nil => rfl
  | cons d rest =>
    obtain rfl : d = ' ' := hs d (by rw [hrest]; rfl)
    simp only [beq_iff_eq, if_neg hc]
    rfl

/-- the signs of a job's line, and how each is written -/
def signs : List (List Char × Token) :=
  [(['&', '&'], .andIf), ([';'], .semi), (['('], .open_), ([')'], .close)]

theorem scan_sign {cs : List Char} {t : Token} (ht : (cs, t) ∈ signs) (hs : s.rest = cs ++ back)
    (hback : cs = [';'] → AtBlank back) (hsize : s.rest.length < s.size) :
    scan n s = .ok (t, s.past cs back) ∧ Begins (cs ++ back) := by
  have hbegins : Begins (cs ++ back) := by
    intro c hc
    simp only [signs, List.mem_cons, Prod.mk.injEq, List.not_mem_nil, or_false] at ht
    rcases ht with ⟨rfl, _⟩ | ⟨rfl, _⟩ | ⟨rfl, _⟩ | ⟨rfl, _⟩ <;>
    · obtain rfl := Option.some.inj hc
      decide
  refine ⟨?_, hbegins⟩
  rw [scan, bind_of_ok fuelLeft_eq, bind_of_ok (skipBlanks_begins (hs ▸ hbegins) hsize),
    bind_of_ok peekChar_eq, hs]
  simp only [signs, List.mem_cons, Prod.mk.injEq, List.not_mem_nil, or_false] at ht
  rcases ht with ⟨rfl, rfl⟩ | ⟨rfl, rfl⟩ | ⟨rfl, rfl⟩ | ⟨rfl, rfl⟩
  · show (nextChar >>= fun _ => accept '&' >>= fun b => if b then pure Token.andIf else pure Token.amp) s = _
    rw [bind_of_ok (nextChar_cons hs), bind_of_ok (accept_same rfl (by decide)), Source.past_past]
    rfl
  · show (nextChar >>= fun _ => accept ';' >>= fun b => if b then pure Token.armEnd else pure Token.semi) s = _
    rw [bind_of_ok (nextChar_cons hs), bind_of_ok (accept_blank (hback rfl) (by decide))]
    rfl
  · show (nextChar >>= fun _ => pure Token.open_) s = _
    rw [bind_of_ok (nextChar_cons hs)]
    rfl
  · show (nextChar >>= fun _ => pure Token.close) s = _
    rw [bind_of_ok (nextChar_cons hs)]
    rfl

theorem lexeme_sign {cs : List Char} {t : Token} (ht : (cs, t) ∈ signs) (hgap : Gap gap)
    (hs : s.rest = gap ++ (cs ++ back)) (hback : cs = [';'] → AtBlank back) (hsize : s.rest.length < s.size) :
    lexeme n s = .ok ([t], s.past (gap ++ cs) back) := by
  have hsize' : (s.past gap (cs ++ back)).rest.length < s.size := by
    rw [hs, List.length_append] at hsize
    exact Nat.lt_of_le_of_lt (Nat.le_add_left _ _) hsize
  obtain ⟨hscan, hbegins⟩ := @scan_sign n (s.past gap (cs ++ back)) back cs t ht rfl hback hsize'
  rw [lexeme_gap hgap hbegins hs hsize, lexeme, bind_of_ok hscan, Source.past_past]
  simp only [signs, List.mem_cons, Prod.mk.injEq, List.not_mem_nil, or_false] at ht
  rcases ht with ⟨_, rfl⟩ | ⟨_, rfl⟩ | ⟨_, rfl⟩ | ⟨_, rfl⟩ <;> rfl

end

/-! ## texts that are read as the same tokens wherever they stand -/

/-- between blanks, a text is read as tokens that show this -/
def ReadAs (n : Nested) (cs : List Char) (xs : List Shown) : Prop :=
  ∀ s gap back, Gap gap → AtBlank back → s.rest = gap ++ (cs ++ back) → s.rest.length < s.size →
    ∃ ts, Reads n s ts (s.past (gap ++ cs) back) ∧ ts.map Token.shown = xs

section
variable {n : Nested} {cs ds : List Char} {xs ys : List Shown}

theorem readAs_quoteChars (n : Nested) (s : String) : ReadAs n (quoteChars s.toList) [.text s] := by
  intro src gap back hgap hback hs hsize
  obtain ⟨w, hw, hliteral⟩ := @lexeme_quote n src _ back gap hgap hs hback hsize
  rw [String.ofList_toList] at hliteral
  exact ⟨[.word w], .single hw, congrArg (fun x => [x]) (Token.shown_word hliteral)⟩

theorem readAs_quote (n : Nested) (s : String) :
    ReadAs n (Raw.ofText (quote s)).toList [.text (Raw.ofText s)] := by
  rw [toList_ofText_quote]
  exact readAs_quoteChars n _

theorem readAs_harmless (n : Nested) {s : String} (h : isHarmlessWord s.toList = true) :
    ReadAs n s.toList [.text s] := by
  conv => arg 2; rw [← quoteChars_harmless h]
  exact readAs_quoteChars n s

theorem readAs_sign (n : Nested) (t : Token) (h : (cs, t) ∈ signs) : ReadAs n cs [t.shown] :=
  fun _ _ _ hgap hback hs hsize => ⟨[t], .single (lexeme_sign h hgap hs (fun _ => hback) hsize), rfl⟩

/-- a group is closed, and a command with it -/
theorem readAs_close (n : Nested) : ReadAs n [')', ';'] [.close, .semi] := by
  intro s gap back hgap hback hs hsize
  have hclose := @lexeme_sign n s gap (';' :: back) [')'] .close (by simp [signs]) hgap hs (by simp) hsize
  have hsize' : (';' :: back).length < s.size := by
    rw [hs] at hsize
    simp at hsize ⊢
    omega
  have hsemi := @lexeme_sign n (s.past (gap ++ [')']) (';' :: back)) [] back [';'] .semi (by simp [signs]) .nil
    rfl (fun _ => hback) hsize'
  refine ⟨[.close, .semi], ?_, rfl⟩
  have hboth := Reads.next hclose (.single hsemi)
  rw [Source.past_past] at hboth
  simpa using hboth

/-- one text and another, with a blank between them -/
theorem ReadAs.append (h : ReadAs n cs xs) (h' : ReadAs n ds ys) : ReadAs n (cs ++ ' ' :: ds) (xs ++ ys) := by
  intro s gap back hgap hback hs hsize
  have hs' : s.rest = gap ++ (cs ++ ' ' :: (ds ++ back)) := by
    rw [hs, List.append_assoc]
    rfl
  have hsize' : (' ' :: (ds ++ back)).length < s.size := by
    rw [hs', List.length_append, List.length_append] at hsize
    omega
  obtain ⟨ts, hts, hxs⟩ := h s gap (' ' :: (ds ++ back)) hgap (atBlank_cons _) hs' hsize
  obtain ⟨us, hus, hys⟩ := h' (s.past (gap ++ cs) (' ' :: (ds ++ back))) [' '] back (.blank (.inl rfl) .nil)
    hback rfl hsize'
  refine ⟨ts ++ us, ?_, by rw [List.map_append, hxs, hys]⟩
  have hboth := hts.append hus
  rw [Source.past_past] at hboth
  simpa using hboth

/-- a closed text between two others, with blanks between them -/
theorem Closed.reads_between {s : Source} {ts : List Token} {front back rest : List Char} (hn : n.Local)
    (hfront : ReadAs n front xs) (hback : ReadAs n back ys) (h : Closed n (s.past (front ++ [' ']) cs) ts)
    (hs : s.rest = front ++ ' ' :: (cs ++ ' ' :: (back ++ ' ' :: rest))) (hsize : s.rest.length < s.size) :
    ∃ us vs t, Reads n s (us ++ (ts ++ vs)) t ∧ us.map Token.shown = xs ∧ vs.map Token.shown = ys ∧
      t.rest = ' ' :: rest ∧ t.pending = [] ∧ t.size = s.size := by
  have hlength : front.length + cs.length + back.length + rest.length + 3 < s.size := by
    rw [hs] at hsize
    simp only [List.length_append, List.length_cons] at hsize
    omega
  obtain ⟨us, hus, hxs⟩ := hfront s [] _ .nil (atBlank_cons _) hs hsize
  obtain ⟨gap, t, hts, hrest, hgap, hpending, htsize, hmiddle⟩ :=
    h.reads_blanks hn (show cs.length + (back ++ ' ' :: rest).length + 2 < s.size by simp; omega)
  obtain ⟨vs, hvs, hys⟩ := hback t gap (' ' :: rest) hgap (atBlank_cons rest) hrest hmiddle
  have hall := hus.append (hts.append hvs)
  exact ⟨us, vs, t.past (gap ++ back) (' ' :: rest), hall, hxs, hys, rfl, hpending, htsize⟩

/-- a closed text at the end of a group that nothing follows -/
theorem Closed.reads_last {s : Source} {ts : List Token} (hn : n.Local) (h : Closed n (s.past [' '] cs) ts)
    (hs : s.rest = ' ' :: (cs ++ [' ', ')'])) (hsize : s.rest.length < s.size) :
    ∃ t, Reads n s (ts ++ [.close, .eof]) t ∧ t.rest = [] := by
  rw [hs] at hsize
  simp only [List.length_cons, List.length_append, List.length_nil] at hsize
  obtain ⟨gap, t, hread, hrest, hgap, _, _, hmiddle⟩ :=
    @Closed.reads_blanks n s ts cs [')'] [] hn h (show cs.length + 1 + 2 < s.size by omega)
  rw [Source.past_nil hs] at hread
  have hclose := @lexeme_sign n t gap [] [')'] .close (by simp [signs]) hgap hrest (by simp) hmiddle
  have hend := @lexeme_eof (t.past (gap ++ [')']) []) n rfl (Nat.lt_of_le_of_lt (Nat.zero_le _) hmiddle)
  exact ⟨_, hread.append (.next hclose (.single hend)), rfl⟩

end

/-! ## quoted words -/

section
variable {n : Nested} {s : Source}

theorem shown_words {ws : List Word} {ts : List String} (h : ws.map Word.literal? = ts.map some) :
    (ws.map Token.word).map Token.shown = ts.map Shown.text := by
  induction ws generalizing ts with
  | nil =>
    cases ts with
    | nil => rfl
    | cons t ts => contradiction
  | cons w ws ih =>
    cases ts with
    | nil => contradiction
    | cons t ts =>
      obtain ⟨hw, hws⟩ := List.cons.inj h
      rw [List.map_cons, List.map_cons, List.map_cons, ih hws, Token.shown_word hw]

theorem nesting_texts (d : Nat) (ts : List String) : nesting d (ts.map Shown.text) = some d := by
  induction ts with
  | nil => rfl
  | cons t ts ih => exact ih

/-- words that were quoted one by one are closed, and no parenthesis is among them -/
theorem closed_quoteAll (args : List String) (hs : s.rest = (Raw.ofText (quoteAll args)).toList)
    (hpending : s.pending = []) (hsize : s.rest.length + 1 < s.size) :
    ∃ ts, Closed n s ts ∧ Bracketed ts ∧ ts.map Token.shown = args.map fun a => .text (Raw.ofText a) := by
  have hgap : Gap [' '] := .blank (.inl rfl) .nil
  cases args with
  | nil =>
    have hrest : s.rest = [] := by
      rw [hs, show quoteAll [] = "" from rfl, Raw.ofText_ascii (by decide)]
      rfl
    refine ⟨[], ⟨s.behind [' '], .done, by simp [Source.behind], ?_, hpending⟩, rfl, rfl⟩
    show Gap (s.rest ++ [' '])
    rw [hrest]
    exact hgap
  | cons a as =>
    have hbehind : (s.behind [' ']).rest = [] ++ ((Raw.ofText (quoteAll (a :: as))).toList ++ [' ']) := by
      rw [List.nil_append, ← hs]
      rfl
    have hlength : (s.behind [' ']).rest.length < (s.behind [' ']).size := by
      show (s.rest ++ [' ']).length < s.size
      rwa [List.length_append]
    obtain ⟨ws, hreads, hws⟩ := reads_quoteAll .nil a as hbehind (atBlank_cons []) hlength
    have hshown : (ws.map Token.word).map Token.shown = (a :: as).map fun a => .text (Raw.ofText a) := by
      rw [shown_words hws, List.map_map]
      rfl
    refine ⟨ws.map .word, ⟨_, hreads, List.cons_ne_nil _ _, hgap, hpending⟩, ?_, hshown⟩
    rw [Bracketed, shown_words hws]
    exact nesting_texts 0 _

end

/-! ## signs among tokens -/

theorem Token.eq_of_shown {t u : Token} (ht : t ∈ signs.map Prod.snd) (h : u.shown = t.shown) : u = t := by
  have hword (w : Word) (hw : (Token.word w).shown = t.shown) : False := by
    rw [Token.shown] at hw
    simp only [signs, List.map_cons, List.map_nil, List.mem_cons, List.not_mem_nil, or_false] at ht
    rcases ht with rfl | rfl | rfl | rfl <;>
    · split at hw <;> cases hw
  simp only [signs, List.map_cons, List.map_nil, List.mem_cons, List.not_mem_nil, or_false] at ht
  cases u with
  | word w => exact (hword w h).elim
  | _ => rcases ht with rfl | rfl | rfl | rfl <;> first | rfl | cases h

/-- a sign is where its show is -/
theorem exists_of_shown {ts : List Token} (xs ys : List Shown) (t : Token) (ht : t ∈ signs.map Prod.snd)
    (h : ts.map Token.shown = xs ++ t.shown :: ys) :
    ∃ us vs, ts = us ++ t :: vs ∧ us.map Token.shown = xs ∧ vs.map Token.shown = ys := by
  obtain ⟨us, ws, rfl, hus, hws⟩ := List.map_eq_append_iff.mp h
  obtain ⟨u, vs, rfl, hu, hvs⟩ := List.map_eq_cons_iff.mp hws
  obtain rfl := Token.eq_of_shown ht hu
  exact ⟨us, vs, rfl, hus, hvs⟩

end IncrementalLint.Shell
