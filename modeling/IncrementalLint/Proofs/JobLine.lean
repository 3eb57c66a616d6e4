import IncrementalLint.Dispatch
import IncrementalLint.Proofs.Shell.Closed

/-!
# The line of a job

The line for a unit is put together of quoted paths, of signs, and of two texts that come from
elsewhere: the compile command of the unit and the command of the analysis. The shell reads it token by
token. No path can change what the tokens around it are, and neither can a compile command that is
closed, one that would end where it ends with nothing behind it.

* `Dispatch.front_readAs`     the signs and words in front of the compile command;
* `Dispatch.back_readAs`      those between it and the analysis;
* `Dispatch.jobCommand_read`  the tokens of the line for a unit;
* `Dispatch.closed_command`   a compile command of quoted words is closed.
-/

namespace IncrementalLint.Dispatch

open Shell

/-- the directory of a unit's listing -/
def listingParent (d : Dispatch) (u : SourceUnit) : Path :=
  ((u.listing d.listingDir).parent?).getD d.listingDir

/-- the line in front of the compile command -/
def commandFront (d : Dispatch) (u : SourceUnit) : String :=
  "cd " ++ quote d.workDir.text ++ " && ( ( mkdir -p " ++ quote (d.listingParent u).text ++ " && cd " ++
    quote u.directory.text ++ " && "

/-- the line between the compile command and the analysis -/
def commandBack (d : Dispatch) (u : SourceUnit) : String :=
  " -MM -MF " ++ quote (u.listing d.listingDir).text ++ " ); "

section
variable (d : Dispatch) (u : SourceUnit)

theorem parent?_listing_eq : (u.listing d.listingDir).parent? = some (d.listingParent u) := by
  obtain ⟨parent, hparent⟩ := u.exists_parent_listing d.listingDir
  rw [listingParent, hparent]
  rfl

theorem jobCommand_pieces :
    d.jobCommand u = d.commandFront u ++ (u.command ++ (d.commandBack u ++ (d.analysisStep u ++ " )"))) := by
  rw [← String.toList_inj]
  simp [jobCommand, listingStep, commandFront, commandBack, listingParent]

theorem front_readAs (n : Nested) : ∃ cs, (Raw.ofText (d.commandFront u)).toList = cs ++ [' '] ∧
    ReadAs n cs [.text "cd", .text (Raw.ofText d.workDir.text), .andIf, .open_, .open_,
      .text "mkdir", .text "-p", .text (Raw.ofText (d.listingParent u).text), .andIf,
      .text "cd", .text (Raw.ofText u.directory.text), .andIf] := by
  have hcd : ReadAs n "cd".toList _ := readAs_harmless n (by decide)
  have hmkdir : ReadAs n "mkdir".toList _ := readAs_harmless n (by decide)
  have hparents : ReadAs n "-p".toList _ := readAs_harmless n (by decide)
  have hand : ReadAs n ['&', '&'] [.andIf] := readAs_sign n .andIf (by simp [signs])
  have hopen : ReadAs n ['('] [.open_] := readAs_sign n .open_ (by simp [signs])
  have hmake := hmkdir.append (hparents.append (readAs_quote n (d.listingParent u).text))
  have hstep := hmake.append (hand.append (hcd.append ((readAs_quote n u.directory.text).append hand)))
  have hgroup := hopen.append (hopen.append hstep)
  refine ⟨_, ?_, hcd.append ((readAs_quote n d.workDir.text).append (hand.append hgroup))⟩
  have h₁ : Raw.ofText "cd " = "cd " := Raw.ofText_ascii (by decide)
  have h₂ : Raw.ofText " && ( ( mkdir -p " = " && ( ( mkdir -p " := Raw.ofText_ascii (by decide)
  have h₃ : Raw.ofText " && cd " = " && cd " := Raw.ofText_ascii (by decide)
  have h₄ : Raw.ofText " && " = " && " := Raw.ofText_ascii (by decide)
  simp [commandFront, Raw.ofText_append, h₁, h₂, h₃, h₄]

theorem back_readAs (n : Nested) : ∃ cs, (Raw.ofText (d.commandBack u)).toList = ' ' :: (cs ++ [' ']) ∧
    ReadAs n cs [.text "-MM", .text "-MF", .text (Raw.ofText (u.listing d.listingDir).text), .close, .semi] := by
  have hdeps : ReadAs n "-MM".toList _ := readAs_harmless n (by decide)
  have hfile : ReadAs n "-MF".toList _ := readAs_harmless n (by decide)
  have hlisting := (readAs_quote n (u.listing d.listingDir).text).append (readAs_close n)
  refine ⟨_, ?_, hdeps.append (hfile.append hlisting)⟩
  have h₁ : Raw.ofText " -MM -MF " = " -MM -MF " := Raw.ofText_ascii (by decide)
  have h₂ : Raw.ofText " ); " = " ); " := Raw.ofText_ascii (by decide)
  simp [commandBack, Raw.ofText_append, h₁, h₂]

/-- the line where its compile command starts, with nothing behind the command -/
def commandSource : Source :=
  (Source.ofText (Raw.ofText (d.jobCommand u))).past (Raw.ofText (d.commandFront u)).toList
    (Raw.ofText u.command).toList

end

/-- no path breaks out of the line for a unit: if the compile command is closed, the line is read as the
signs and words that it is put together of, around the tokens of the command; each path is one word that
stands for it, whatever its characters are; the step that makes the listing is one group, and a `;` is all
that stands between it and the analysis -/
theorem jobCommand_read (d : Dispatch) (u : SourceUnit) (depth : Nat) {ts : List Token}
    (hclosed : Closed (nested depth) (d.commandSource u) ts) (hbalanced : Bracketed ts) :
    ∃ lead front back s,
      Reads (nested depth) (Source.ofText (Raw.ofText (d.jobCommand u)))
        (lead ++ .open_ :: (.open_ :: ((front ++ ts ++ back) ++ [.close])) ++ [.semi]) s ∧
      lead.map Token.shown = [.text "cd", .text (Raw.ofText d.workDir.text), .andIf] ∧
      front.map Token.shown = [.text "mkdir", .text "-p", .text (Raw.ofText (d.listingParent u).text), .andIf,
        .text "cd", .text (Raw.ofText u.directory.text), .andIf] ∧
      back.map Token.shown = [.text "-MM", .text "-MF", .text (Raw.ofText (u.listing d.listingDir).text)] ∧
      (u.listing d.listingDir).parent? = some (d.listingParent u) ∧ Bracketed (front ++ ts ++ back) ∧
      s.rest = (Raw.ofText (" " ++ d.analysisStep u ++ " )")).toList ∧ s.pending = [] ∧
      ∀ us, Closed (nested depth) (s.past [' '] (Raw.ofText (d.analysisStep u)).toList) us →
        (∃ s', Reads (nested depth) s (us ++ [.close, .eof]) s' ∧ s'.rest = []) ∧
        (Bracketed us → Bracketed (.open_ :: ((front ++ ts ++ back) ++ [.close]) ++ .semi :: us)) := by
  obtain ⟨F, hF, hfront⟩ := d.front_readAs u (nested depth)
  obtain ⟨B, hB, hback⟩ := d.back_readAs u (nested depth)
  let src := Source.ofText (Raw.ofText (d.jobCommand u))
  have hline : src.rest = F ++ ' ' :: ((Raw.ofText u.command).toList ++ ' ' ::
      (B ++ ' ' :: ((Raw.ofText (d.analysisStep u)).toList ++ [' ', ')']))) := by
    have hlast : Raw.ofText " )" = " )" := Raw.ofText_ascii (by decide)
    show (Raw.ofText (d.jobCommand u)).toList = _
    simp only [jobCommand_pieces, Raw.ofText_append, String.toList_append, hF, hB, hlast]
    simp
  have hsize : src.rest.length < src.size := Source.length_ofText _
  have hcommand : Closed (nested depth) (src.past (F ++ [' ']) (Raw.ofText u.command).toList) ts :=
    hF ▸ hclosed
  obtain ⟨ts₁, ts₃, t, hread, hshown₁, hshown₃, hrest, hpending, htsize⟩ :=
    hcommand.reads_between (nested_local depth) hfront hback hline hsize
  -- the signs among them
  obtain ⟨lead, _, rfl, hlead, hinner⟩ := exists_of_shown [_, _, _] _ .open_ (by simp [signs]) hshown₁
  obtain ⟨_, front, rfl, hnil, hfront⟩ := exists_of_shown [] _ .open_ (by simp [signs]) hinner
  obtain ⟨back, _, rfl, hback, hclose⟩ := exists_of_shown [_, _, _] _ .close (by simp [signs]) hshown₃
  obtain ⟨_, _, rfl, hnil', hnil''⟩ := exists_of_shown [] _ .semi (by simp [signs]) hclose
  obtain rfl := List.map_eq_nil_iff.mp hnil
  obtain rfl := List.map_eq_nil_iff.mp hnil'
  obtain rfl := List.map_eq_nil_iff.mp hnil''
  have hbfront : Bracketed front := by
    rw [Bracketed, hfront]
    rfl
  have hbback : Bracketed back := by
    rw [Bracketed, hback]
    rfl
  have hstep : Bracketed (front ++ ts ++ back) := (hbfront.append hbalanced).append hbback
  have hleft : t.rest.length < t.size := by
    rw [htsize]
    exact Nat.lt_of_le_of_lt (hread.suffix (nested_local depth)).1.length_le hsize
  refine ⟨lead, front, back, t, ?_, hlead, hfront, hback, d.parent?_listing_eq u, hstep, ?_, hpending, ?_⟩
  · simpa using hread
  · have hsigns : Raw.ofText " " = " " ∧ Raw.ofText " )" = " )" :=
      ⟨Raw.ofText_ascii (by decide), Raw.ofText_ascii (by decide)⟩
    simp [hrest, Raw.ofText_append, hsigns]
  · intro us hus
    exact ⟨hus.reads_last (nested_local depth) hrest hleft, fun h => hstep.group.append h⟩

/-- a compile command of quoted words is closed where it stands -/
theorem closed_command {d : Dispatch} {u : SourceUnit} (n : Nested) (args : List String)
    (hu : u.command = quoteAll args) : ∃ ts, Closed n (d.commandSource u) ts ∧ Bracketed ts ∧
      ts.map Token.shown = args.map fun a => .text (Raw.ofText a) := by
  refine closed_quoteAll args (congrArg (fun c => (Raw.ofText c).toList) hu) rfl ?_
  have hlength : (Raw.ofText u.command).toList.length ≤ (Raw.ofText (d.jobCommand u)).toList.length := by
    rw [jobCommand_pieces, Raw.ofText_append, Raw.ofText_append, String.toList_append, String.toList_append,
      List.length_append, List.length_append]
    omega
  show (Raw.ofText u.command).toList.length + 1 < 2 * (Raw.ofText (d.jobCommand u)).toList.length + 16
  omega

/-- paths and a command with all that would end a word or a command -/
def roughDispatch : Dispatch :=
  { (default : Dispatch) with
    workDir := ⟨"/it's; ) #"⟩
    listingDir := ⟨"/a b\n&& $(x)"⟩
    analysisCommand := "check \x7bfile\x7d" }

def roughUnit : SourceUnit :=
  ⟨"`x` (", ⟨"/p'; )"⟩, quoteAll ["cc", "-I", "( # '", "f.c"], ⟨"/u \\"⟩⟩

theorem roughUnit_read :
    ∃ ts, Closed (nested maxDepth) (roughDispatch.commandSource roughUnit) ts ∧ Bracketed ts ∧
      ∃ all s, Reads (nested maxDepth) (Source.ofText (Raw.ofText (roughDispatch.jobCommand roughUnit))) all s ∧
        s.rest = [] ∧ all.map Token.shown =
          [.text "cd", .text "/it's; ) #", .andIf, .open_, .open_, .text "mkdir", .text "-p",
            .text "/a b\n&& $(x)", .andIf, .text "cd", .text "/u \\", .andIf, .text "cc", .text "-I",
            .text "( # '", .text "f.c", .text "-MM", .text "-MF", .text "/a b\n&& $(x)/`x` (.d", .close, .semi,
            .text "check", .text "/p'; )", .close, .other] := by
  obtain ⟨ts, hclosed, hbalanced, hts⟩ :=
    @closed_command roughDispatch roughUnit (nested maxDepth) ["cc", "-I", "( # '", "f.c"] rfl
  obtain ⟨lead, front, back, s, hread, hlead, hfront, hback, _, _, hrest, hpending, hanalysis⟩ :=
    jobCommand_read roughDispatch roughUnit maxDepth hclosed hbalanced
  obtain ⟨hsuffix, hsize⟩ := hread.suffix (nested_local maxDepth)
  have hstep : roughDispatch.analysisStep roughUnit = quoteAll ["check", "/p'; )"] := by decide +kernel
  have hsmall : (Raw.ofText (roughDispatch.analysisStep roughUnit)).toList.length + 1 < s.size := by
    have hle : (Raw.ofText (" " ++ roughDispatch.analysisStep roughUnit ++ " )")).toList.length ≤
        (Source.ofText (Raw.ofText (roughDispatch.jobCommand roughUnit))).rest.length := hrest ▸ hsuffix.length_le
    have hblank : (Raw.ofText " ").toList.length = 1 := by rw [Raw.ofText_ascii (by decide)]; rfl
    rw [Raw.ofText_append, Raw.ofText_append, String.toList_append, String.toList_append, List.length_append,
      List.length_append, hblank] at hle
    rw [hsize]
    exact Nat.lt_of_le_of_lt (by omega) (Source.length_ofText _)
  obtain ⟨us, hus, _, hushown⟩ := @closed_quoteAll (nested maxDepth)
    (s.past [' '] (Raw.ofText (roughDispatch.analysisStep roughUnit)).toList) ["check", "/p'; )"] (hstep ▸ rfl)
    hpending hsmall
  obtain ⟨⟨s', hlast, hend⟩, _⟩ := hanalysis us hus
  refine ⟨ts, hclosed, hbalanced, _, s', hread.append hlast, hend, ?_⟩
  simp only [List.map_append, List.map_cons, hlead, hfront, hback, hts, hushown]
  decide +kernel

end IncrementalLint.Dispatch
