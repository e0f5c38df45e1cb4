import Promptbook.Proofs.Script.Branches
import Promptbook.Proofs.Script.Growth
import Promptbook.Proofs.Script.ReadingBack

set_option autoImplicit false

/-!
# The report of a rejected script

The report of a rejected text has a line for each error.  Names, labels, values and targets are put
into it as they were written, so what has to be shown is that none of them breaks its line.

`LineError.Grounded` is the invariant: an error names only what stands on the line that it quotes.
It holds of whatever is read of a line, and by induction of whatever is read of a section
(`grounded_of_readSection`).  A line that is quoted stands in the text, between two line feeds, so
the message of a grounded error stays on one line (`LineError.oneLine_message`), and `rawLines_join`
finds the messages again in the report.
-/

namespace Promptbook.Script

/-! ## Texts on one line -/

theorem OneLine.append {s t : String} (hs : OneLine s) (ht : OneLine t) : OneLine (s ++ t) :=
  oneLine_append.mpr ⟨hs, ht⟩

theorem OneLine.between {before s after : String} (h : OneLine s) (hbefore : OneLine before)
    (hafter : OneLine after) : OneLine (before ++ s ++ after) :=
  (hbefore.append h).append hafter

/-- A part of a text on one line is on one line. -/
theorem OneLine.part {s t : String} (h : OneLine t) (hpart : s.toList <:+: t.toList) : OneLine s :=
  ⟨fun hc => h.1 (hpart.subset hc), fun hc => h.2 (hpart.subset hc)⟩

theorem oneLine_repr (n : Nat) : OneLine (Nat.repr n) := by
  have hdigits : ∀ c ∈ (Nat.repr n).toList, c.isDigit = true := by
    rw [Nat.toList_repr]
    exact fun c hc => Nat.isDigit_of_mem_toDigits (by decide) (by decide) hc
  exact ⟨fun hc => absurd (hdigits _ hc) (by decide), fun hc => absurd (hdigits _ hc) (by decide)⟩

/-- No line of a text has a line feed in it, nor a carriage return once these are gone. -/
theorem oneLine_of_mem_rawLines {content t : String} (h : t ∈ rawLines (withoutReturns content)) :
    OneLine t := by
  obtain ⟨piece, hpiece, rfl⟩ := List.mem_map.mp h
  rw [withoutReturns, String.toList_ofList] at hpiece
  rw [OneLine, String.toList_ofList]
  constructor
  · intro hc
    exact Text.absent_of_mem_pieces (List.cons_ne_nil _ _) hpiece
      ((List.singleton_infix_iff _ _).mpr hc)
  · intro hc
    have hmem := (Text.infix_of_mem_pieces (List.cons_ne_nil _ _) hpiece).subset hc
    simpa using (List.mem_filter.mp hmem).2

/-- Texts on one line, each with a line feed behind it, are cut apart again. -/
theorem rawLines_join {ts : List String} (h : ∀ t ∈ ts, OneLine t) :
    rawLines (String.join (ts.map fun t => t ++ "\n")) = ts ++ [""] := by
  induction ts with
  | nil => rfl
  | cons t ts ih =>
    obtain ⟨ht, hts⟩ := List.forall_mem_cons.mp h
    have hchars : (String.join ((t :: ts).map fun t => t ++ "\n")).toList =
        t.toList ++ '\n' :: (String.join (ts.map fun t => t ++ "\n")).toList := by
      simp [String.toList_append]
    have hfirst : Text.pieces ['\n'] t.toList = [t.toList] :=
      Text.pieces_of_absent fun hi => ht.1 ((List.singleton_infix_iff _ _).mp hi)
    rw [rawLines, hchars, Text.pieces_append_cons, hfirst, List.map_append, ← rawLines, ih hts]
    simp

/-! ## What an error names -/

/-- Whatever the fault names stands in that text; a form that it expects is one of the three that
lines are told to have. -/
def LineFault.Cites (text : String) : LineFault → Prop
  | malformedLine expected => expected ∈ [dialogueForm, cueForm, storeForm]
  | unknownActor name => name.toList <:+: text.toList
  | unknownAnimation actor animation =>
      actor.toList <:+: text.toList ∧ animation.toList <:+: text.toList
  | unknownVariable name => name.toList <:+: text.toList
  | invalidLiteral value => value.toList <:+: text.toList
  | invalidTarget target => target.toList <:+: text.toList
  | missingTerminator => True
  | misplacedContent => True
  | emptyBranch label => label.toList <:+: text.toList
  | noBranches => True

/-- What the error names stands on the line that it quotes. -/
def LineError.Grounded (e : LineError) : Prop := e.fault.Cites e.line

/-- A text that was made of a part of another one stands in it. -/
theorem infix_ofList {part : List Char} {text : String} (h : part <:+: text.toList) :
    (String.ofList part).toList <:+: text.toList := by
  rwa [String.toList_ofList]

theorem withoutMarker_suffix (marker : Char) (s : List Char) : withoutMarker marker s <:+ s := by
  cases s with
  | nil => exact List.suffix_rfl
  | cons c cs =>
    rw [withoutMarker]
    split
    · exact List.suffix_cons c cs
    · exact List.suffix_rfl

section Lines

variable {stage : Stage} {l : ScriptLine} {e : LineError}

theorem grounded_malformedLine {form : String} (h : form ∈ [dialogueForm, cueForm, storeForm]) :
    (l.error (.malformedLine form)).Grounded := h

theorem grounded_of_findActor {name : List Char} (hname : name <:+: l.text.toList)
    (h : findActor stage l name = .error e) : e.Grounded := by
  unfold findActor at h
  dsimp only at h
  split at h
  · exact absurd h (by simp)
  · obtain rfl := Except.error.inj h
    exact infix_ofList hname

theorem grounded_of_readAsker (h : readAsker stage l = .error e) : e.Grounded :=
  grounded_of_findActor (withoutMarker_suffix _ _).isInfix h

theorem grounded_of_readSpeech (h : readSpeech stage l = .error e) : e.Grounded := by
  unfold readSpeech at h
  split at h
  · obtain rfl := Except.error.inj h
    exact grounded_malformedLine (by simp)
  · next name text hcut =>
    cases hactor : findActor stage l name with
    | ok speaker => simp [hactor, Except.map] at h
    | error e' =>
      obtain rfl : e' = e := by simpa [hactor, Except.map] using h
      exact grounded_of_findActor (Text.infix_of_cutAt hcut).1 hactor

theorem grounded_of_readCue {piece : List Char} (hpiece : piece <:+: l.text.toList)
    (h : readCue stage l piece = .error e) : e.Grounded := by
  unfold readCue at h
  split at h
  · obtain rfl := Except.error.inj h
    exact grounded_malformedLine (by simp)
  · next name rest hcut =>
    obtain ⟨hname, hrest⟩ := Text.infix_of_cutAt hcut
    split at h
    · next e' hactor =>
      obtain rfl := Except.error.inj h
      exact grounded_of_findActor (hname.trans hpiece) hactor
    · next performer hactor =>
      dsimp only at h
      split at h
      · exact absurd h (by simp)
      · obtain rfl := Except.error.inj h
        have hanimation : Text.trimmed rest <:+: l.text.toList :=
          ((Text.trimmed_infix rest).trans hrest).trans hpiece
        refine ⟨?_, infix_ofList hanimation⟩
        rw [name_of_findActor hactor]
        exact hname.trans hpiece

theorem grounded_of_readCues (h : e ∈ (readCues stage l).errors) : e.Grounded := by
  rw [readCues, Reading.errors_collect, List.flatMap_map] at h
  obtain ⟨piece, hpiece, h⟩ := List.mem_flatMap.mp h
  have hcut : piece <:+: withoutMarker '!' l.text.toList :=
    Text.infix_of_mem_pieces (List.cons_ne_nil _ _) hpiece
  exact grounded_of_readCue (hcut.trans (withoutMarker_suffix _ _).isInfix)
    (Reading.mem_errors_ofExcept.mp h)

theorem grounded_of_readValue {written : List Char} (hwritten : written <:+: l.text.toList)
    (h : readValue l written = .error e) : e.Grounded := by
  unfold readValue at h
  split at h
  · obtain rfl := Except.error.inj h
    exact grounded_malformedLine (by simp)
  · next literal hliteral =>
    split at h
    · exact absurd h (by simp)
    · split at h
      · exact absurd h (by simp)
      · obtain rfl := Except.error.inj h
        have hpart : literal <:+: written :=
          ⟨['['], [']'], by simpa using append_of_bracketed? hliteral⟩
        exact infix_ofList (hpart.trans hwritten)

theorem grounded_of_readTarget {written : List Char} (hwritten : written <:+: l.text.toList)
    (h : e ∈ (readTarget stage l written).errors) : e.Grounded := by
  have hpieces : ∀ piece ∈ Text.pieces ['.'] written, piece <:+: l.text.toList := fun _ hpiece =>
    (Text.infix_of_mem_pieces (List.cons_ne_nil _ _) hpiece).trans hwritten
  unfold readTarget at h
  split at h
  · next name hname =>
    dsimp only at h
    split at h
    · simp [Reading.errors] at h
    · obtain rfl := List.mem_singleton.mp h
      exact infix_ofList (hpieces name (by simp [hname]))
  · next owner parameter howner =>
    split at h
    · next e' hactor =>
      obtain rfl := List.mem_singleton.mp h
      exact grounded_of_findActor (hpieces owner (by simp [howner])) hactor
    · simp [Reading.errors] at h
  · obtain rfl := List.mem_singleton.mp h
    exact infix_ofList hwritten

theorem grounded_of_readAssignment (h : e ∈ (readAssignment stage l).errors) : e.Grounded := by
  unfold readAssignment at h
  split at h
  · obtain rfl := List.mem_singleton.mp h
    exact grounded_malformedLine (by simp)
  · next written target hcut =>
    obtain ⟨hwritten, htarget⟩ := Text.infix_of_cutAt hcut
    split at h
    · next e' hvalue =>
      obtain rfl := List.mem_singleton.mp h
      exact grounded_of_readValue hwritten hvalue
    · rw [Reading.errors_map] at h
      exact grounded_of_readTarget htarget h

/-- The errors of a line name only what stands on it. -/
theorem grounded_of_readLine (h : e ∈ (readLine stage l).errors) : e.Grounded := by
  unfold readLine at h
  split at h <;> rw [Reading.errors_map] at h
  · exact grounded_of_readCues h
  · exact grounded_of_readAssignment h
  · exact grounded_of_readSpeech (Reading.mem_errors_ofExcept.mp h)

end Lines

section Sections

variable {stage : Stage}

theorem grounded_of_readFlawed {header : ScriptLine} {flaw : BlockFlaw} {e : LineError}
    (h : e ∈ (readFlawed stage header flaw).errors) : e.Grounded := by
  rw [errors_readFlawed] at h
  rcases List.mem_append.mp h with hasker | h
  · exact grounded_of_readAsker (Reading.mem_errors_ofExcept.mp hasker)
  · obtain rfl := List.mem_singleton.mp h
    cases flaw <;> trivial

/-- So do the errors of a section, however deep they are found. -/
theorem grounded_of_readSection (s : Section) :
    ∀ e ∈ (readSection stage s).errors, e.Grounded := by
  induction s using Section.induction with
  | line l => exact fun e he => grounded_of_readLine he
  | flawed header flaw => exact fun e he => grounded_of_readFlawed he
  | choice header repeats branches ih =>
    intro e he
    rw [readSection, readBranches_eq_map] at he
    rcases mem_errors_readChoice he with hasker | ⟨r, hr, he⟩
    · exact grounded_of_readAsker hasker
    · obtain ⟨b, hb, rfl⟩ := List.mem_map.mp hr
      rw [readSections_eq_map] at he
      rcases mem_errors_readBranch he with rfl | ⟨r, hr, he⟩
      · -- an empty branch is quoted by the label that it is told by
        exact List.infix_rfl
      · obtain ⟨s, hs, rfl⟩ := List.mem_map.mp hr
        exact ih b hb s hs e he

end Sections

/-! ## Messages -/

/-- What is wrong with a text on one line is told on one line. -/
theorem LineFault.oneLine_message {fault : LineFault} {text : String} (htext : OneLine text)
    (h : fault.Cites text) : OneLine fault.message := by
  cases fault with
  | malformedLine expected =>
    have hforms : ∀ form ∈ [dialogueForm, cueForm, storeForm], OneLine form := by decide
    exact (hforms _ h).between (by decide) (by decide)
  | unknownActor name => exact (htext.part h).between (by decide) (by decide)
  | unknownAnimation actor animation =>
    obtain ⟨hactor, hanimation⟩ := h
    have howner : OneLine ("actor '" ++ actor ++ "' has no animation '") :=
      (htext.part hactor).between (by decide) (by decide)
    exact (htext.part hanimation).between howner (by decide)
  | unknownVariable name => exact (htext.part h).between (by decide) (by decide)
  | invalidLiteral value => exact (htext.part h).between (by decide) (by decide)
  | invalidTarget target => exact (htext.part h).between (by decide) (by decide)
  | missingTerminator => decide
  | misplacedContent => decide
  | emptyBranch label => exact (htext.part h).between (by decide) (by decide)
  | noBranches => decide

/-- The message of a line error, field by field. -/
theorem LineError.message_eq (e : LineError) :
    e.message = "(line " ++ Nat.repr (e.origin.lineIndex.toNat + 1) ++ ") " ++ e.fault.message ++
      ": '" ++ e.line ++ "'" := by
  have hopen : "(line " = "(" ++ "line " := by decide
  rw [message, Origin.describe, hopen]
  simp only [String.append_assoc]

theorem LineError.oneLine_message {e : LineError} (hline : OneLine e.line) (h : e.Grounded) :
    OneLine e.message := by
  have hplace : OneLine ("(line " ++ Nat.repr (e.origin.lineIndex.toNat + 1) ++ ") ") :=
    (oneLine_repr _).between (by decide) (by decide)
  have hfault : OneLine e.fault.message := LineFault.oneLine_message hline h
  rw [message_eq]
  exact hline.between (hfault.between hplace (by decide)) (by decide)

/-! ## Texts -/

section Texts

variable {stage : Stage} {content : String} {e : LineError}

/-- An error of a text is one of a section of its outline. -/
theorem exists_section_of_mem_errors (h : e ∈ (readScript stage content).errors) :
    ∃ s ∈ outline (scriptLines (withoutReturns content)), e ∈ (readSection stage s).errors := by
  rw [readScript, readLines, Reading.errors_collect, readSections_eq_map, List.flatMap_map] at h
  exact List.mem_flatMap.mp h

/-- Below 2³² lines the line that an error quotes is a part of the line of the text with its
number. -/
theorem exists_line_of_mem_errors (hlen : lineCount content < UInt32.size)
    (h : e ∈ (readScript stage content).errors) :
    ∃ t, (rawLines (withoutReturns content))[e.origin.lineIndex.toNat]? = some t ∧
      e.line.toList <:+: t.toList := by
  obtain ⟨s, hs, he⟩ := exists_section_of_mem_errors h
  obtain ⟨k, hreports⟩ := errors_readSection s e he
  have hquotes : ScriptLine.Quotes (rawLines (withoutReturns content)) k ⟨e.line, e.origin⟩ :=
    quotes_of_outline (le_of_lt hlen) hs hreports
  refine ⟨indentBy k e.line, hquotes, ?_⟩
  rw [indentBy, String.toList_append]
  exact (List.suffix_append _ _).isInfix

theorem oneLine_of_mem_errors (hlen : lineCount content < UInt32.size)
    (h : e ∈ (readScript stage content).errors) : OneLine e.message := by
  obtain ⟨t, ht, hpart⟩ := exists_line_of_mem_errors hlen h
  obtain ⟨s, -, he⟩ := exists_section_of_mem_errors h
  have hline : OneLine e.line := (oneLine_of_mem_rawLines (List.mem_of_getElem? ht)).part hpart
  exact LineError.oneLine_message hline (grounded_of_readSection s e he)

end Texts

/-- The report of a rejected text, cut at its line feeds, is one line for each error, in their order,
and nothing behind the last line feed: a line tells the number of the line in the text, counted from
one, what is wrong with it, and quotes it.  That number is the number of a line, so it does not leave
32 bits, and no error goes on on another line, whatever it names. -/
theorem rawLines_report (stage : Stage) {content : String}
    (hlen : lineCount content < UInt32.size) {errors : List LineError}
    (h : (readScript stage content).result = .error errors) :
    rawLines (ParseError.report ⟨errors⟩) =
        (errors.map fun e =>
          "(line " ++ Nat.repr (e.origin.lineIndex.toNat + 1) ++ ") " ++ e.fault.message ++
            ": '" ++ e.line ++ "'") ++ [""] ∧
      ∀ e ∈ errors, OneLine e.message ∧ e.origin.lineIndex.toNat + 1 ≤ lineCount content := by
  have herrors : (readScript stage content).errors = errors := by rw [Reading.errors, h]
  subst herrors
  constructor
  · have hmessages : ∀ t ∈ (readScript stage content).errors.map LineError.message, OneLine t :=
      List.forall_mem_map.mpr fun e he => oneLine_of_mem_errors hlen he
    have hreport : ParseError.report ⟨(readScript stage content).errors⟩ = String.join
        (((readScript stage content).errors.map LineError.message).map fun t => t ++ "\n") := by
      rw [ParseError.report, List.map_map, Function.comp_def]
    rw [hreport, rawLines_join hmessages]
    simp only [← LineError.message_eq]
  · intro e he
    obtain ⟨t, ht, -⟩ := exists_line_of_mem_errors hlen he
    have hlt : e.origin.lineIndex.toNat < lineCount content :=
      (List.getElem?_eq_some_iff.mp ht).choose
    exact ⟨oneLine_of_mem_errors hlen he, hlt⟩

/-- A text in which names, labels, values and targets of all kinds are wrong, with carriage returns
at the ends of its lines. -/
def faultyText : String :=
  "?Fox\r\nYes\r\n \n Wolf hi\r\n !Wolf: Run, Fox: Howl\r\nNo\nEND\r\n\n[Maybe] -> Brave\r\n" ++
    "[True] -> a.b.c\r\n[True] -> Brave"

theorem rawLines_report_faultyText :
    lineCount faultyText < UInt32.size ∧
      ∃ errors, (readScript denStage faultyText).result = .error errors ∧
        rawLines (ParseError.report ⟨errors⟩) =
          (errors.map fun e =>
            "(line " ++ Nat.repr (e.origin.lineIndex.toNat + 1) ++ ") " ++ e.fault.message ++
              ": '" ++ e.line ++ "'") ++ [""] ∧
        ∀ e ∈ errors, OneLine e.message ∧ e.origin.lineIndex.toNat + 1 ≤ lineCount faultyText := by
  have hlen : lineCount faultyText < UInt32.size := by decide +kernel
  have hsome : (readScript denStage faultyText).errors ≠ [] := by decide +kernel
  have hread := Reading.result_of_errors_ne_nil hsome
  have hreport := rawLines_report denStage hlen hread
  exact ⟨hlen, (readScript denStage faultyText).errors, hread, hreport⟩

example :
    ParseError.report ⟨(readScript denStage faultyText).errors⟩ =
      "(line 1) could not find actor 'Fox': '?Fox'\n" ++
      "(line 4) malformed line, expected `Actor: text`: 'Wolf hi'\n" ++
      "(line 5) actor 'Wolf' has no animation 'Run': '!Wolf: Run, Fox: Howl'\n" ++
      "(line 5) could not find actor 'Fox': '!Wolf: Run, Fox: Howl'\n" ++
      "(line 6) choice branch 'No' has no content: 'No'\n" ++
      "(line 9) only 'True' or 'False' can be stored, found 'Maybe': '[Maybe] -> Brave'\n" ++
      "(line 10) could not read store target 'a.b.c': '[True] -> a.b.c'\n" ++
      "(line 11) could not find variable 'Brave': '[True] -> Brave'\n" := by
  decide +kernel

end Promptbook.Script
