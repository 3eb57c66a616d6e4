import IncrementalLint.Machine.Raw
import IncrementalLint.Shell.Builtins
import IncrementalLint.Proofs.Files.Descent

/-!
# Texts in the shell

The shell reads a text as the bytes that write it. Slashes and dots are bytes of their own, and all
bytes of other characters are others, so that a path has the same pieces for the shell.

* `Utf8.decodeLossy_encode`  what writes a text is read as the text;
* `Raw.toText_ofText`        so are the characters that stand for its bytes;
* `Raw.splitAt_spell`        the pieces of a text are the pieces of its bytes;
* `plainPath_ofText`         the path that `cd` takes for a text, as the shell reads it;
* `steps_plainPath`          the same steps, where no piece goes up.
-/

namespace IncrementalLint

namespace Utf8

/-! ## single bytes -/

theorem isContinuation_ofNat : ∀ y < 64, isContinuation (UInt8.ofNat (y + 128)) = true := by
  decide +kernel

theorem low6_ofNat : ∀ y < 64, low6 (UInt8.ofNat (y + 128)) = y := by
  decide +kernel

/-- behind the lead byte of three, neither a shorter character nor a surrogate -/
theorem secondAllowed_three : ∀ x < 16, ∀ y < 64, (x = 0 → 32 ≤ y) → (x = 13 → y < 32) →
    secondAllowed (UInt8.ofNat (x + 224)) (UInt8.ofNat (y + 128)) = true := by
  decide +kernel

/-- behind the lead byte of four, neither a shorter character nor one beyond the last -/
theorem secondAllowed_four : ∀ x < 5, ∀ y < 64, (x = 0 → 16 ≤ y) → (x = 4 → y < 16) →
    secondAllowed (UInt8.ofNat (x + 240)) (UInt8.ofNat (y + 128)) = true := by
  decide +kernel

theorem lead_one : ∀ x < 128, UInt8.ofNat x < 0x80 ∧ (UInt8.ofNat x).toNat = x := by
  decide +kernel

theorem lead_two : ∀ x < 32, 2 ≤ x → ¬UInt8.ofNat (x + 192) < 0x80 ∧
    (0xC2 ≤ UInt8.ofNat (x + 192) && UInt8.ofNat (x + 192) ≤ 0xDF) = true ∧
    (UInt8.ofNat (x + 192)).toNat % 32 = x := by
  decide +kernel

theorem lead_three : ∀ x < 16, ¬UInt8.ofNat (x + 224) < 0x80 ∧
    (0xC2 ≤ UInt8.ofNat (x + 224) && UInt8.ofNat (x + 224) ≤ 0xDF) = false ∧
    (0xE0 ≤ UInt8.ofNat (x + 224) && UInt8.ofNat (x + 224) ≤ 0xEF) = true ∧
    (UInt8.ofNat (x + 224)).toNat % 16 = x := by
  decide +kernel

theorem lead_four : ∀ x < 5, ¬UInt8.ofNat (x + 240) < 0x80 ∧
    (0xC2 ≤ UInt8.ofNat (x + 240) && UInt8.ofNat (x + 240) ≤ 0xDF) = false ∧
    (0xE0 ≤ UInt8.ofNat (x + 240) && UInt8.ofNat (x + 240) ≤ 0xEF) = false ∧
    (0xF0 ≤ UInt8.ofNat (x + 240) && UInt8.ofNat (x + 240) ≤ 0xF4) = true ∧
    (UInt8.ofNat (x + 240)).toNat % 8 = x := by
  decide +kernel

/-! ## characters -/

/-- the bytes of a character are read as that character -/
theorem front_encodeChar (c : Char) (rest : List UInt8) :
    ∃ b bs, String.utf8EncodeChar c = b :: bs ∧ front b (bs ++ rest) = (some c, bs.length) := by
  have hvalid : c.val.toNat < 0xD800 ∨ 0xDFFF < c.val.toNat ∧ c.val.toNat < 0x110000 := c.valid
  have hc : Char.ofNat c.val.toNat = c := Char.ofNat_toNat c
  unfold String.utf8EncodeChar
  generalize c.val.toNat = v at hvalid hc
  simp only
  split
  next h1 =>
    obtain ⟨hlead, hv⟩ := lead_one v (by omega)
    refine ⟨_, [], rfl, ?_⟩
    simp only [front, if_pos hlead, hv, hc, List.length_nil]
  next h1 =>
    have hz : v % 64 < 64 := Nat.mod_lt _ (by decide)
    have hy : v / 64 % 64 < 64 := Nat.mod_lt _ (by decide)
    split
    next h2 =>
      obtain ⟨hone, htwo, hx⟩ := lead_two (v / 64 % 32) (Nat.mod_lt _ (by decide)) (by omega)
      have hsum : v / 64 % 32 * 64 + v % 64 = v := by omega
      refine ⟨_, _, rfl, ?_⟩
      simp only [front, if_neg hone, htwo, if_true, List.cons_append, isContinuation_ofNat _ hz,
        low6_ofNat _ hz, hx, hsum, hc, List.length_singleton]
    next h2 =>
      split
      next h3 =>
        obtain ⟨hone, htwo, hthree, hx⟩ := lead_three (v / 4096 % 16) (Nat.mod_lt _ (by decide))
        have hsum : (v / 4096 % 16 * 64 + v / 64 % 64) * 64 + v % 64 = v := by omega
        have hsecond := secondAllowed_three (v / 4096 % 16) (Nat.mod_lt _ (by decide)) _ hy (by omega) (by omega)
        refine ⟨_, _, rfl, ?_⟩
        simp only [front, if_neg hone, htwo, hthree, if_true, Bool.false_eq_true, if_false, List.cons_append,
          hsecond, isContinuation_ofNat _ hz, low6_ofNat _ hz, low6_ofNat _ hy, hx, hsum, hc,
          List.length_cons, List.length_nil]
      next h3 =>
        have hw : v / 4096 % 64 < 64 := Nat.mod_lt _ (by decide)
        obtain ⟨hone, htwo, hthree, hfour, hx⟩ := lead_four (v / 262144 % 8) (by omega)
        have hsum : ((v / 262144 % 8 * 64 + v / 4096 % 64) * 64 + v / 64 % 64) * 64 + v % 64 = v := by omega
        have hsecond := secondAllowed_four (v / 262144 % 8) (by omega) _ hw (by omega) (by omega)
        refine ⟨_, _, rfl, ?_⟩
        simp only [front, if_neg hone, htwo, hthree, hfour, if_true, Bool.false_eq_true, if_false,
          List.cons_append, hsecond, isContinuation_ofNat _ hz, isContinuation_ofNat _ hy, low6_ofNat _ hz,
          low6_ofNat _ hy, low6_ofNat _ hw, hx, hsum, hc, List.length_cons, List.length_nil]

/-- the bytes of a list -/
theorem toList_eq_data (bs : ByteArray) : bs.toList = bs.data.toList := by
  have hloop (i : Nat) (acc : List UInt8) :
      ByteArray.toList.loop bs i acc = acc.reverse ++ bs.data.toList.drop i := by
    fun_induction ByteArray.toList.loop bs i acc with
    | case1 i acc hi ih =>
      have hi' : i < bs.data.toList.length := hi
      have hget : bs.get! i = bs.data.toList[i] := by
        rw [ByteArray.get!, getElem!_pos bs.data i hi]
        rfl
      rw [ih, List.reverse_cons, List.append_assoc, hget, List.singleton_append, ← List.drop_eq_getElem_cons]
    | case2 i acc hi =>
      rw [List.drop_eq_nil_of_le (Nat.not_lt.mp hi), List.append_nil]
  exact hloop 0 []

theorem toList_encode (s : String) : (encode s).toList = s.toList.flatMap String.utf8EncodeChar := by
  rw [encode, String.toUTF8, ← String.utf8Encode_toList, List.utf8Encode, toList_eq_data,
    List.toList_data_toByteArray]

theorem lossyFrom_encode (acc cs : List Char) :
    lossyFrom acc (cs.flatMap String.utf8EncodeChar) = acc.reverse ++ cs := by
  induction cs generalizing acc with
  | nil => rw [List.flatMap_nil, lossyFrom_nil, List.append_nil]
  | cons c cs ih =>
    obtain ⟨b, bs, hc, hfront⟩ := front_encodeChar c (cs.flatMap String.utf8EncodeChar)
    rw [List.flatMap_cons, hc, List.cons_append, lossyFrom, hfront, List.drop_left, ih]
    simp

/-- what writes a text is read as the text -/
theorem decodeLossy_encode (s : String) : decodeLossy (encode s) = s := by
  rw [decodeLossy, toList_encode, lossyFrom_encode, List.reverse_nil, List.nil_append, String.ofList_toList]

end Utf8

namespace Raw

/-- the characters that stand for the bytes of a character -/
def spell (c : Char) : List Char := (String.utf8EncodeChar c).map fun b => Char.ofNat b.toNat

theorem toList_ofText (s : String) : (ofText s).toList = s.toList.flatMap spell := by
  rw [ofText, ofBytes, String.toList_ofList, Utf8.toList_encode, List.map_flatMap]
  rfl

theorem toList_toBytes (s : String) : (toBytes s).toList = s.toList.map fun c => c.toNat.toUInt8 := by
  have hpush (cs : List Char) (bs : ByteArray) :
      (cs.foldl (fun bs c => bs.push c.toNat.toUInt8) bs).data.toList =
        bs.data.toList ++ cs.map fun c => c.toNat.toUInt8 := by
    induction cs generalizing bs with
    | nil => simp
    | cons c cs ih =>
      rw [List.foldl_cons, ih]
      simp
  rw [Utf8.toList_eq_data, toBytes, String.foldl_eq_foldl_toList, hpush]
  rfl

theorem toNat_ofNat : ∀ n < 256, (Char.ofNat n).toNat = n := by decide +kernel

theorem toUInt8_ofNat (b : UInt8) : (Char.ofNat b.toNat).toNat.toUInt8 = b := by
  rw [toNat_ofNat b.toNat b.toNat_lt]
  exact UInt8.ofNat_toNat

/-- what stands for the bytes of a text is read as the text -/
theorem toText_ofText (s : String) : toText (ofText s) = s := by
  have hbytes : (toBytes (ofText s)).toList = (Utf8.encode s).toList := by
    rw [toList_toBytes, toList_ofText, List.map_flatMap, Utf8.toList_encode]
    refine List.flatMap_congr fun c _ => ?_
    rw [spell, List.map_map]
    exact (List.map_congr_left fun b _ => toUInt8_ofNat b).trans (List.map_id _)
  rw [toText, Utf8.decodeLossy, hbytes, ← Utf8.decodeLossy, Utf8.decodeLossy_encode]

theorem ofText_inj {s t : String} : ofText s = ofText t ↔ s = t :=
  ⟨fun h => by rw [← toText_ofText s, h, toText_ofText], congrArg ofText⟩

theorem ofText_append (s t : String) : ofText (s ++ t) = ofText s ++ ofText t := by
  rw [← String.toList_inj, toList_ofText, String.toList_append, List.flatMap_append, String.toList_append,
    toList_ofText, toList_ofText]

/-! ## pieces of a path -/

theorem spell_ascii {c : Char} (h : c.toNat < 128) : spell c = [c] := by
  have hv : c.val.toNat ≤ 127 := Nat.le_of_lt_succ h
  have hbyte : (UInt8.ofNat c.val.toNat).toNat = c.toNat := (Utf8.lead_one _ h).2
  rw [spell, String.utf8EncodeChar]
  simp only [if_pos hv, List.map_singleton, hbyte, Char.ofNat_toNat]

theorem ofText_ascii {s : String} (h : s.toList.all (fun c => c.toNat < 128) = true) : ofText s = s := by
  have hsmall (c : Char) (hc : c ∈ s.toList) : c.toNat < 128 :=
    of_decide_eq_true (List.all_eq_true.mp h c hc)
  rw [← String.toList_inj, toList_ofText]
  exact (List.flatMap_congr fun c hc => spell_ascii (hsmall c hc)).trans (by simp)

theorem ofText_beq {s t : String} (h : t.toList.all (fun c => c.toNat < 128) = true) :
    (ofText s == t) = (s == t) := by
  rw [Bool.eq_iff_iff, beq_iff_eq, beq_iff_eq]
  conv_lhs => rw [← ofText_ascii h]
  exact ofText_inj

/-- a character beyond ASCII is written by bytes beyond ASCII -/
theorem le_of_mem_encodeChar {c : Char} (h : ¬c.toNat < 128) {b : UInt8}
    (hb : b ∈ String.utf8EncodeChar c) : 128 ≤ b.toNat := by
  have hv : ¬c.val.toNat ≤ 127 := fun hle => h (Nat.lt_succ_of_le hle)
  have hmax : c.val.toNat < 0x110000 := by
    rcases c.valid with hlow | hhigh
    · exact Nat.lt_trans hlow (by decide)
    · exact hhigh.2
  unfold String.utf8EncodeChar at hb
  simp only [if_neg hv] at hb
  split at hb
  · simp only [List.mem_cons, List.not_mem_nil, or_false] at hb
    rcases hb with rfl | rfl <;> rw [UInt8.toNat_ofNat'] <;> omega
  · split at hb
    · simp only [List.mem_cons, List.not_mem_nil, or_false] at hb
      rcases hb with rfl | rfl | rfl <;> rw [UInt8.toNat_ofNat'] <;> omega
    · simp only [List.mem_cons, List.not_mem_nil, or_false] at hb
      rcases hb with rfl | rfl | rfl | rfl <;> rw [UInt8.toNat_ofNat'] <;> omega

/-- a byte of ASCII stands for no character but its own -/
theorem notMem_spell {a c : Char} (ha : a.toNat < 128) (h : c ≠ a) : a ∉ spell c := by
  by_cases hc : c.toNat < 128
  · rw [spell_ascii hc]
    exact fun hm => h (List.mem_singleton.mp hm).symm
  · intro hm
    obtain ⟨b, hb, rfl⟩ := List.mem_map.mp hm
    have hle := le_of_mem_encodeChar hc hb
    rw [toNat_ofNat b.toNat b.toNat_lt] at ha
    omega

theorem slash_notMem_spell {c : Char} (h : c ≠ '/') : '/' ∉ spell c := notMem_spell (by decide) h

theorem splitAt_append_of_noSlash {xs cs : List Char} (h : '/' ∉ xs) :
    Chars.splitAt PathText.isSlash (xs ++ cs) = (Chars.splitAt PathText.isSlash cs).modifyHead (xs ++ ·) := by
  induction xs with
  | nil => cases hs : Chars.splitAt PathText.isSlash cs <;> simp [hs]
  | cons x xs ih =>
    simp only [List.mem_cons, not_or] at h
    have hx : PathText.isSlash x = false := by
      rw [PathText.isSlash, beq_eq_false_iff_ne]
      exact Ne.symm h.1
    rw [List.cons_append, Chars.splitAt, ih h.2, hx]
    cases hs : Chars.splitAt PathText.isSlash cs with
    | nil => exact absurd hs (Chars.splitAt_ne_nil _ _)
    | cons w ws => rfl

/-- the pieces of a text are the pieces of its bytes -/
theorem splitAt_spell (cs : List Char) : Chars.splitAt PathText.isSlash (cs.flatMap spell) =
    (Chars.splitAt PathText.isSlash cs).map (·.flatMap spell) := by
  induction cs with
  | nil => rfl
  | cons c cs ih =>
    rw [List.flatMap_cons]
    by_cases hc : c = '/'
    · obtain rfl := hc
      rw [spell_ascii (by decide), List.singleton_append]
      have hsplit (r : List Char) : Chars.splitAt PathText.isSlash ('/' :: r) = [] :: Chars.splitAt PathText.isSlash r :=
        PathText.splitAt_append_slash [] r
      rw [hsplit, hsplit, ih]
      rfl
    · have hcons : Chars.splitAt PathText.isSlash (c :: cs) =
          (Chars.splitAt PathText.isSlash cs).modifyHead ([c] ++ ·) :=
        @splitAt_append_of_noSlash [c] cs fun hm => hc (List.mem_singleton.mp hm).symm
      rw [splitAt_append_of_noSlash (slash_notMem_spell hc), ih, hcons]
      cases hs : Chars.splitAt PathText.isSlash cs with
      | nil => exact absurd hs (Chars.splitAt_ne_nil _ _)
      | cons w ws => rfl

theorem spell_ne_nil (c : Char) : spell c ≠ [] := by
  obtain ⟨b, bs, hc, _⟩ := Utf8.front_encodeChar c []
  rw [spell, hc, List.map_cons]
  exact List.cons_ne_nil _ _

theorem endsWith_slash {p : Path} (hend : p.EndsInStep) : Text.endsWith (ofText p.text) "/" = false := by
  refine Bool.eq_false_iff.mpr fun hslash => ?_
  obtain ⟨cs, hcs⟩ := List.isSuffixOf_iff_suffix.mp hslash
  have hsplit := splitAt_spell p.text.toList
  have happend : Chars.splitAt PathText.isSlash (cs ++ "/".toList) = _ := PathText.splitAt_append_slash cs []
  rw [← toList_ofText, ← hcs, happend, Chars.splitAt] at hsplit
  have hlast := congrArg List.getLast? hsplit
  rw [List.getLast?_concat, List.getLast?_map, eq_comm, Option.map_eq_some_iff] at hlast
  obtain ⟨x, hx, hnil⟩ := hlast
  have hidle := hend x hx
  cases x with
  | nil => contradiction
  | cons c x =>
    rw [List.flatMap_cons, List.append_eq_nil_iff] at hnil
    exact spell_ne_nil c hnil.1

theorem toList_ofText_absolute {p : Path} (h : p.isAbsolute = true) :
    ∃ cs, (ofText p.text).toList = '/' :: cs := by
  obtain ⟨cs, hcs⟩ := PathText.isAbsolute_iff.mp h
  refine ⟨cs.flatMap spell, ?_⟩
  rw [toList_ofText, hcs, List.flatMap_cons, spell_ascii (by decide)]
  rfl

end Raw

/-! ## where `cd` takes a path -/

namespace Shell.Builtin

/-- the pieces that are left of a path on its way down, the last one first -/
def descend (acc pieces : List String) : List String :=
  pieces.foldl (fun acc p =>
    if p == "" || p == "." then acc else if p == ".." then acc.tail else p :: acc) acc

theorem plainPath_eq (path : String) : plainPath path =
    "/" ++ Text.joinWith "/" (descend [] (Workspace.pieces path)).reverse := rfl

theorem descend_ofText (acc pieces : List String) :
    descend (acc.map Raw.ofText) (pieces.map Raw.ofText) = (descend acc pieces).map Raw.ofText := by
  induction pieces generalizing acc with
  | nil => rfl
  | cons p pieces ih =>
    rw [List.map_cons, descend, descend, List.foldl_cons, List.foldl_cons,
      Raw.ofText_beq (by decide), Raw.ofText_beq (by decide), Raw.ofText_beq (by decide)]
    split
    · exact ih acc
    · split
      · rw [← List.map_tail]
        exact ih acc.tail
      · exact ih (p :: acc)

theorem ofText_joinWith (ps : List String) :
    Raw.ofText (Text.joinWith "/" ps) = Text.joinWith "/" (ps.map Raw.ofText) := by
  have hslash : Raw.ofText "/" = "/" := Raw.ofText_ascii (by decide)
  induction ps with
  | nil => exact Raw.ofText_ascii (by decide)
  | cons p ps ih =>
    cases ps with
    | nil => rw [Text.joinWith, String.intercalate_singleton, Text.joinWith, List.map_singleton, String.intercalate_singleton]
    | cons q ps =>
      rw [Text.joinWith, String.intercalate_cons_cons, Raw.ofText_append, Raw.ofText_append, hslash, List.map_cons,
        List.map_cons, Text.joinWith, String.intercalate_cons_cons]
      exact congrArg _ ih

/-- a path as the shell reads it becomes plain as the path does -/
theorem plainPath_ofText (path : String) : plainPath (Raw.ofText path) = Raw.ofText (plainPath path) := by
  have hpieces : Workspace.pieces (Raw.ofText path) = (Workspace.pieces path).map Raw.ofText := by
    rw [Workspace.pieces, Workspace.pieces, Raw.toList_ofText, Raw.splitAt_spell, List.map_map, List.map_map]
    refine List.map_congr_left fun x _ => ?_
    rw [Function.comp, Function.comp, ← String.toList_inj, String.toList_ofList, Raw.toList_ofText,
      String.toList_ofList]
  have hdescend := descend_ofText [] (Workspace.pieces path)
  rw [List.map_nil] at hdescend
  have hroot : Raw.ofText "/" = "/" := Raw.ofText_ascii (by decide)
  rw [plainPath_eq, plainPath_eq, hpieces, hdescend, ← List.map_reverse, ← ofText_joinWith,
    Raw.ofText_append, hroot]

theorem toText_plainPath (path : String) : Raw.toText (plainPath (Raw.ofText path)) = plainPath path := by
  rw [plainPath_ofText, Raw.toText_ofText]

/-- where no piece goes up, the pieces that are left are the steps -/
theorem descend_of_noUp {ps : List (List Char)} (acc : List String) (h : ['.', '.'] ∉ ps) :
    descend acc (ps.map String.ofList) =
      ((ps.filter fun x => !PathText.isIdle x).map String.ofList).reverse ++ acc := by
  induction ps generalizing acc with
  | nil => rfl
  | cons x ps ih =>
    simp only [List.mem_cons, not_or] at h
    have hidle : (String.ofList x == "" || String.ofList x == ".") = PathText.isIdle x := by
      rw [Bool.eq_iff_iff, Bool.or_eq_true, beq_iff_eq, beq_iff_eq, PathText.isIdle, Bool.or_eq_true, beq_iff_eq,
        beq_iff_eq]
      exact or_congr ⟨@String.ofList_injective x [], congrArg _⟩
        ⟨@String.ofList_injective x ['.'], congrArg _⟩
    have hup : (String.ofList x == "..") = false :=
      beq_eq_false_iff_ne.mpr fun he => h.1 (String.ofList_injective he).symm
    rw [List.map_cons, descend, List.foldl_cons, hidle, hup]
    by_cases hx : PathText.isIdle x = true
    · rw [if_pos hx, List.filter_cons_of_neg (by simp [hx])]
      exact ih acc h.2
    · rw [if_neg hx, List.filter_cons_of_pos (by simp [hx]), List.map_cons, List.reverse_cons,
        List.append_assoc]
      exact ih (String.ofList x :: acc) h.2

/-- where no piece goes up, a path and its plain form have the same steps -/
theorem steps_plainPath {path : String} (h : ".." ∉ Workspace.pieces path) :
    PathText.steps (plainPath path).toList = PathText.steps path.toList := by
  have hup : ['.', '.'] ∉ Chars.splitAt PathText.isSlash path.toList :=
    fun hm => h (List.mem_map_of_mem (f := String.ofList) hm)
  have hslash (x : List Char) (hx : x ∈ PathText.steps path.toList) : '/' ∉ x :=
    PathText.notMem_of_mem_splitAt (List.mem_filter.mp hx).1
  have htext : (plainPath path).toList = [] ++ '/' :: PathText.join (PathText.steps path.toList) := by
    rw [plainPath_eq, Workspace.pieces, descend_of_noUp [] hup, List.append_nil, List.reverse_reverse,
      String.toList_append, Text.joinWith, String.toList_intercalate, List.map_map]
    have hid : (String.toList ∘ String.ofList) = id := funext fun x => String.toList_ofList
    rw [hid, List.map_id]
    rfl
  have hidem : ((PathText.steps path.toList).filter fun x => !PathText.isIdle x) = PathText.steps path.toList := by
    rw [PathText.steps, List.filter_filter]
    simp
  rw [htext, PathText.steps_append_slash, PathText.steps_nil, List.nil_append, PathText.steps_join hslash, hidem]

end Shell.Builtin

end IncrementalLint
