import Promptbook.Proofs.Script.Blocks
import Promptbook.Proofs.Script.Concatenation

set_option autoImplicit false

/-!
# Nothing is lost in reading

The script that a text is read as, printed again, is the text: every line on which something is
written comes back once and in its place.  Blank lines do not come back, and neither do carriage
returns, the blanks around the names of animations and the branches of labels that were repeated.

Each reader is inverted on its own, from the line that it accepted to the line that is printed for
what it gave, and the outline is followed block by block.
-/

namespace Promptbook.Script

variable {stage : Stage}

/-! ## Visible lines -/

/-- Whether anything but spaces is written on a line. -/
def visible (text : String) : Bool := text.toList.any (· ≠ ' ')

/-- The lines of a text on which something is written, without carriage returns. -/
def visibleLines (content : String) : List String :=
  (rawLines (withoutReturns content)).filter visible

/-- The texts of those lines on which something is written. -/
def visibleTexts (lines : List ScriptLine) : List String :=
  (lines.map ScriptLine.text).filter visible

theorem visible_of_mem {text : String} {c : Char} (h : c ∈ text.toList) (hc : c ≠ ' ') :
    visible text = true := by
  rw [visible, List.any_eq_true]
  exact ⟨c, h, decide_eq_true hc⟩

@[simp] theorem visible_indent (text : String) : visible (indent text) = visible text := by
  simp [visible]

theorem visibleTexts_cons_of_visible {l : ScriptLine} (h : visible l.text = true)
    (rest : List ScriptLine) : visibleTexts (l :: rest) = l.text :: visibleTexts rest := by
  simp [visibleTexts, h]

theorem visibleTexts_cons_of_invisible {l : ScriptLine} (h : visible l.text = false)
    (rest : List ScriptLine) : visibleTexts (l :: rest) = visibleTexts rest := by
  simp [visibleTexts, h]

theorem visibleTexts_append (lines more : List ScriptLine) :
    visibleTexts (lines ++ more) = visibleTexts lines ++ visibleTexts more := by
  simp [visibleTexts]

/-- Empty lines, which are not numbered, are not visible either. -/
theorem visibleTexts_numbered (n : Nat) (ts : List String) :
    visibleTexts (numbered n ts) = ts.filter visible := by
  induction ts generalizing n with
  | nil => rfl
  | cons t ts ih =>
    rw [numbered]
    split
    · next ht =>
      have hempty : visible t = false := by simp [visible, List.isEmpty_iff.mp ht]
      rw [ih, List.filter_cons_of_neg (by simp [hempty])]
    · by_cases hv : visible t = true
      · rw [visibleTexts_cons_of_visible hv, ih, List.filter_cons_of_pos hv]
      · rw [visibleTexts_cons_of_invisible (by simpa using hv), ih, List.filter_cons_of_neg hv]

/-! ## Blocks -/

/-- Contents of runs are not empty lines, if the lines that were cut are not. -/
theorem isEmpty_of_mem_runsOf {lines : List ScriptLine} (h : ∀ l ∈ lines, l.isEmpty = false) :
    (∀ l ∈ (runsOf lines).1, l.isEmpty = false) ∧
      ∀ r ∈ (runsOf lines).2, ∀ l ∈ r.2, l.isEmpty = false := by
  induction lines with
  | nil => simp [runsOf]
  | cons l rest ih =>
    obtain ⟨hcontent, hruns⟩ := ih fun m hm => h m (List.mem_cons_of_mem _ hm)
    rw [runsOf]
    dsimp only
    split
    · refine ⟨?_, hruns⟩
      intro m hm
      split at hm
      · exact hcontent m hm
      · next hl =>
        rcases List.mem_cons.mp hm with rfl | hm
        · simpa using hl
        · exact hcontent m hm
    · refine ⟨by simp, ?_⟩
      intro r hr
      rcases List.mem_cons.mp hr with rfl | hr
      · exact hcontent
      · exact hruns r hr

/-- A line that is not indented is visible, unless it is empty. -/
theorem visible_of_isIndented_eq_false {l : ScriptLine} (hl : l.isEmpty = false)
    (hi : l.isIndented = false) : visible l.text = true := by
  cases hcs : l.text.toList with
  | nil => simp [ScriptLine.isEmpty, hcs] at hl
  | cons c cs =>
    have hc : c ≠ ' ' := by simpa [ScriptLine.isIndented, ScriptLine.first?, hcs] using hi
    exact visible_of_mem (c := c) (by simp [hcs]) hc

/-- Cutting a block at its labels loses no visible line. -/
theorem visibleTexts_runsOf {lines : List ScriptLine} (h : ∀ l ∈ lines, l.isEmpty = false) :
    visibleTexts lines =
      (visibleTexts (runsOf lines).1).map indent ++
        (runsOf lines).2.flatMap fun r => r.1.text :: (visibleTexts r.2).map indent := by
  induction lines with
  | nil => rfl
  | cons l rest ih =>
    have hrest := ih fun m hm => h m (List.mem_cons_of_mem _ hm)
    by_cases hi : l.isIndented = true
    · have htext : l.text = indent l.outdented.text :=
        congrArg ScriptLine.text (ScriptLine.indented_outdented hi).symm
      rw [runsOf]
      simp only [hi, if_true]
      by_cases he : l.outdented.isEmpty = true
      · have hinvisible : visible l.text = false := by
          have hnil : l.outdented.text.toList = [] := by simpa [ScriptLine.isEmpty] using he
          rw [htext, visible_indent]
          simp [visible, hnil]
        rw [if_pos he, ← hrest, visibleTexts_cons_of_invisible hinvisible]
      · rw [if_neg he]
        by_cases hv : visible l.outdented.text = true
        · have hvl : visible l.text = true := by rw [htext, visible_indent, hv]
          rw [visibleTexts_cons_of_visible hvl, visibleTexts_cons_of_visible hv, List.map_cons,
            List.cons_append, ← hrest, ← htext]
        · have hvo : visible l.outdented.text = false := by simpa using hv
          have hvl : visible l.text = false := by rw [htext, visible_indent, hvo]
          rw [visibleTexts_cons_of_invisible hvl, visibleTexts_cons_of_invisible hvo, hrest]
    · have hi' : l.isIndented = false := by simpa using hi
      have hvl := visible_of_isIndented_eq_false (h l (by simp)) hi'
      rw [visibleTexts_cons_of_visible hvl, runsOf_cons_label hi', List.flatMap_cons, hrest]
      rfl

/-! ## Readings that succeed -/

namespace Reading

variable {α β : Type}

/-- A reading that failed says why. -/
def Explained (r : Reading α) : Prop := r.result ≠ .error []

theorem explained_ofExcept (r : Except LineError α) : (ofExcept r).Explained := by
  cases r <;> simp [Explained, ofExcept]

theorem Explained.map {r : Reading α} (h : r.Explained) (f : α → β) : (r.map f).Explained := by
  obtain ⟨ns, result⟩ := r
  cases result with
  | ok a => simp [Explained, Reading.map]
  | error es => simpa [Explained, Reading.map] using h

theorem explained_collect (rs : List (Reading α)) : (collect rs).Explained := by
  unfold Explained collect
  dsimp only
  split
  · simp
  · next h => simpa using h

theorem result_map {r : Reading α} {f : α → β} {b : β} (h : (r.map f).result = .ok b) :
    ∃ a, r.result = .ok a ∧ f a = b := by
  unfold Reading.map at h
  dsimp only at h
  split at h
  · next a ha => exact ⟨a, ha, by simpa using h⟩
  · exact absurd h (by simp)

theorem result_ofExcept {r : Except LineError α} {a : α} (h : (ofExcept r).result = .ok a) :
    r = .ok a := by
  cases r with
  | ok b => simpa [ofExcept] using h
  | error e => simp [ofExcept] at h

/-- A reading without errors succeeded. -/
theorem Explained.result_eq_ok {r : Reading α} (h : r.Explained) (herrors : r.errors = []) :
    ∃ a, r.result = .ok a := by
  obtain ⟨ns, result⟩ := r
  cases result with
  | ok a => exact ⟨a, rfl⟩
  | error es => exact absurd (congrArg Except.error herrors) h

/-- What was collected was read part by part. -/
theorem result_collect_cons {r : Reading α} {rs : List (Reading α)} {as : List α}
    (hr : r.Explained) (h : (collect (r :: rs)).result = .ok as) :
    ∃ a rest, r.result = .ok a ∧ (collect rs).result = .ok rest ∧ as = a :: rest := by
  have herrors : r.errors ++ rs.flatMap errors = [] := by
    have hnone : (collect (r :: rs)).errors = [] := by rw [errors, h]
    rwa [errors_collect, List.flatMap_cons] at hnone
  obtain ⟨hfirst, hothers⟩ := List.append_eq_nil_iff.mp herrors
  obtain ⟨a, ha⟩ := hr.result_eq_ok hfirst
  refine ⟨a, rs.filterMap value?, ha, ?_, ?_⟩
  · simp [collect, hothers]
  · simpa [collect, hfirst, hothers, value?, ha] using h.symm

end Reading

/-! ## Single lines -/

/-- The cue without blanks around its animation. -/
def Cue.trimmed (cue : Cue) : Cue :=
  { cue with animation := String.ofList (Text.trimmed cue.animation.toList) }

/-- The statement is what was written there, blanks around animations apart. -/
def Statement.Renders (s : Statement) (texts : List String) : Prop :=
  ∃ padded : Statement, padded.revise id Cue.trimmed = s ∧ padded.lines = texts

/-- The statements are what was written there, blanks around animations apart. -/
def RendersAll (script : List Statement) (texts : List String) : Prop :=
  ∃ padded : List Statement, reviseAll id Cue.trimmed padded = script ∧ linesOf padded = texts

theorem name_of_findActor {l : ScriptLine} {name : List Char} {actor : ActorRef}
    (h : findActor stage l name = .ok actor) : actor.name.toList = name := by
  unfold findActor at h
  dsimp only at h
  split at h
  · simp only [Except.ok.injEq] at h
    rw [← h, String.toList_ofList]
  · exact absurd h (by simp)

theorem renders_of_readSpeech {l : ScriptLine} {speech : Speech}
    (h : readSpeech stage l = .ok speech) :
    speech.speaker.name ++ ": " ++ speech.text = l.text := by
  unfold readSpeech at h
  split at h
  · exact absurd h (by simp)
  · next name text hcut =>
    cases hactor : findActor stage l name with
    | error e => simp [hactor, Except.map] at h
    | ok speaker =>
      simp only [hactor, Except.map, Except.ok.injEq] at h
      apply String.toList_inj.mp
      rw [← h, ← Text.append_of_cutAt hcut, ← name_of_findActor hactor]
      simp [String.toList_append]

theorem renders_of_readCue {l : ScriptLine} {piece : List Char} {cue : Cue}
    (h : readCue stage l piece = .ok cue) :
    ∃ padded : Cue, padded.trimmed = cue ∧ padded.written = piece := by
  unfold readCue at h
  split at h
  · exact absurd h (by simp)
  · next name rest hcut =>
    split at h
    · exact absurd h (by simp)
    · next performer hactor =>
      dsimp only at h
      split at h
      · simp only [Except.ok.injEq] at h
        refine ⟨⟨performer, String.ofList rest⟩, ?_, ?_⟩
        · rw [← h, Cue.trimmed, String.toList_ofList]
        · rw [Cue.written, name_of_findActor hactor, String.toList_ofList,
            Text.append_of_cutAt hcut]
      · exact absurd h (by simp)

theorem rendersAll_cues {pieces : List (List Char)} {l : ScriptLine} {cues : List Cue}
    (h : (Reading.collect (pieces.map fun piece => .ofExcept (readCue stage l piece))).result =
      .ok cues) :
    ∃ padded : List Cue, padded.map Cue.trimmed = cues ∧ padded.map Cue.written = pieces := by
  induction pieces generalizing cues with
  | nil =>
    obtain rfl : [] = cues := by simpa [Reading.collect] using h
    exact ⟨[], rfl, rfl⟩
  | cons piece pieces ih =>
    rw [List.map_cons] at h
    obtain ⟨cue, rest, hcue, hrest, rfl⟩ :=
      Reading.result_collect_cons (Reading.explained_ofExcept _) h
    obtain ⟨first, hfirst, hpiece⟩ := renders_of_readCue (Reading.result_ofExcept hcue)
    obtain ⟨others, hothers, hpieces⟩ := ih hrest
    refine ⟨first :: others, ?_, ?_⟩
    · rw [List.map_cons, hfirst, hothers]
    · rw [List.map_cons, hpiece, hpieces]

theorem append_of_bracketed? {written literal : List Char} (h : bracketed? written = some literal) :
    '[' :: (literal ++ [']']) = written := by
  unfold bracketed? at h
  split at h
  · next cs =>
    split at h
    · next hlast =>
      obtain ⟨inner, rfl⟩ := List.getLast?_eq_some_iff.mp hlast
      simpa using h.symm
    · exact absurd h (by simp)
  · exact absurd h (by simp)

theorem written_of_readValue {l : ScriptLine} {written : List Char} {value : Bool}
    (h : readValue l written = .ok value) :
    (storeHead value).toList = written ++ [' ', '-', '>', ' '] := by
  unfold readValue at h
  split at h
  · exact absurd h (by simp)
  · next literal hliteral =>
    rw [← append_of_bracketed? hliteral]
    split at h
    · next hl =>
      obtain rfl : true = value := by simpa using h
      rw [hl]
      decide
    · split at h
      · next hl =>
        obtain rfl : false = value := by simpa using h
        rw [hl]
        decide
      · exact absurd h (by simp)

theorem written_of_readTarget {l : ScriptLine} {written : List Char} {target : StoreTarget}
    (h : (readTarget stage l written).result = .ok target) : target.written.toList = written := by
  have hjoined := Text.joined_pieces (List.cons_ne_nil '.' []) written
  unfold readTarget at h
  split at h
  · next name hpieces =>
    rw [hpieces, Text.joined] at hjoined
    dsimp only at h
    split at h
    · simp only [Except.ok.injEq] at h
      rw [← h, StoreTarget.written, String.toList_ofList, hjoined]
    · exact absurd h (by simp)
  · next owner parameter hpieces =>
    rw [hpieces, Text.joined, Text.joined] at hjoined
    split at h
    · exact absurd h (by simp)
    · next actor hactor =>
      simp only [Except.ok.injEq] at h
      rw [← h, ← hjoined, StoreTarget.written, ← name_of_findActor hactor]
      simp [String.toList_append]
  · exact absurd h (by simp)

theorem renders_of_readAssignment {l : ScriptLine} {assignment : Assignment}
    (h : (readAssignment stage l).result = .ok assignment) :
    storeHead assignment.value ++ assignment.target.written = l.text := by
  unfold readAssignment at h
  split at h
  · exact absurd h (by simp)
  · next written target hcut =>
    split at h
    · exact absurd h (by simp)
    · next value hvalue =>
      obtain ⟨target, htarget, rfl⟩ := Reading.result_map h
      apply String.toList_inj.mp
      rw [String.toList_append, written_of_readValue hvalue, written_of_readTarget htarget,
        Text.append_of_cutAt hcut]

/-- A line of a kind that has a marker begins with it. -/
theorem ScriptLine.toList_of_kind {l : ScriptLine} {k : StatementKind} {c : Char}
    (h : l.kind = k) (hc : k.marker = some c) : l.text.toList = c :: l.text.toList.tail := by
  have hfirst : l.text.toList.head? = some c := by
    rw [← hc]
    exact (StatementKind.ofFirst_eq_iff (by simp [hc])).mp h
  cases hcs : l.text.toList with
  | nil => simp [hcs] at hfirst
  | cons d ds =>
    obtain rfl : d = c := by simpa [hcs] using hfirst
    rfl

/-- A line with a marker is visible. -/
theorem ScriptLine.visible_of_kind {l : ScriptLine} {k : StatementKind} (h : l.kind = k)
    (hk : k ≠ .dialogue) : visible l.text = true := by
  obtain ⟨c, hc, hne⟩ : ∃ c, k.marker = some c ∧ c ≠ ' ' := by
    cases k with
    | dialogue => exact absurd rfl hk
    | animation => exact ⟨'!', rfl, by decide⟩
    | choice => exact ⟨'?', rfl, by decide⟩
    | store => exact ⟨'[', rfl, by decide⟩
  have hmem : c ∈ l.text.toList := by
    rw [toList_of_kind h hc]
    exact List.mem_cons_self
  exact visible_of_mem hmem hne

/-- A line that was read is the only line of what was read, and it is visible. -/
theorem renders_of_readLine {l : ScriptLine} {s : Statement}
    (h : (readLine stage l).result = .ok s) :
    s.Renders [l.text] ∧ visible l.text = true := by
  unfold readLine at h
  split at h
  · next hkind =>
    obtain ⟨cues, hcues, rfl⟩ := Reading.result_map h
    obtain ⟨padded, rfl, hpieces⟩ := rendersAll_cues hcues
    refine ⟨⟨.animation padded, rfl, ?_⟩, ScriptLine.visible_of_kind hkind (by simp)⟩
    have hchars := ScriptLine.toList_of_kind hkind rfl
    rw [Statement.lines, hpieces, cuePieces, Text.joined_pieces (by simp), hchars, withoutMarker,
      if_pos rfl, ← hchars, String.ofList_toList]
  · next hkind =>
    obtain ⟨assignment, hassignment, rfl⟩ := Reading.result_map h
    refine ⟨⟨.store assignment, rfl, ?_⟩, ScriptLine.visible_of_kind hkind (by simp)⟩
    rw [Statement.lines, renders_of_readAssignment hassignment]
  · obtain ⟨speech, hspeech, rfl⟩ := Reading.result_map h
    have htext := renders_of_readSpeech (Reading.result_ofExcept hspeech)
    refine ⟨⟨.dialogue speech, rfl, ?_⟩, ?_⟩
    · rw [Statement.lines, htext]
    · rw [← htext]
      exact visible_of_mem (c := ':') (by simp) (by decide)

/-! ## Choices -/

/-- No label was found to be repeated. -/
def Unrepeated (notices : List Notice) : Prop :=
  ∀ n ∈ notices, ∀ label, n.warning ≠ .duplicateBranch label

theorem unrepeated_append {ns ms : List Notice} :
    Unrepeated (ns ++ ms) ↔ Unrepeated ns ∧ Unrepeated ms := by
  simp only [Unrepeated, List.mem_append]
  constructor
  · intro h
    exact ⟨fun n hn => h n (.inl hn), fun n hn => h n (.inr hn)⟩
  · rintro ⟨hns, hms⟩ n (hn | hn)
    · exact hns n hn
    · exact hms n hn

theorem explained_readTarget (l : ScriptLine) (written : List Char) :
    (readTarget stage l written).Explained := by
  unfold readTarget
  split
  · dsimp only
    split <;> simp [Reading.Explained]
  · split <;> simp [Reading.Explained]
  · simp [Reading.Explained]

theorem explained_readLine (l : ScriptLine) : (readLine stage l).Explained := by
  unfold readLine
  split
  · exact (Reading.explained_collect _).map _
  · refine Reading.Explained.map ?_ _
    unfold readAssignment
    split
    · simp [Reading.Explained]
    · split
      · simp [Reading.Explained]
      · exact (explained_readTarget l _).map _
  · exact (Reading.explained_ofExcept _).map _

theorem explained_readChoice (header : ScriptLine) (repeats : List ScriptLine)
    (branches : List (Reading (String × List Statement))) :
    (readChoice stage header repeats branches).Explained := by
  have hcollect := Reading.explained_collect branches
  rw [readChoice]
  cases hasker : readAsker stage header with
  | error e => simp [Reading.Explained]
  | ok asker =>
    cases hread : (Reading.collect branches).result with
    | ok read => simp [Reading.Explained]
    | error es => simpa [Reading.Explained, hread] using hcollect

theorem explained_readSection (sec : Section) : (readSection stage sec).Explained := by
  cases sec with
  | line l => exact explained_readLine l
  | flawed header flaw =>
    rw [readSection, readFlawed]
    cases readAsker stage header <;> simp [Reading.Explained]
  | choice header repeats branches =>
    rw [readSection]
    exact explained_readChoice header repeats _

theorem explained_readBranch (label : ScriptLine) (content : List (Reading Statement)) :
    (readBranch label content).Explained := by
  unfold readBranch
  split
  · simp [Reading.Explained]
  · exact (Reading.explained_collect content).map _

theorem result_readBranch {label : ScriptLine} {content : List (Reading Statement)}
    {branch : String × List Statement} (h : (readBranch label content).result = .ok branch) :
    branch.1 = label.text ∧ (Reading.collect content).result = .ok branch.2 ∧
      (readBranch label content).notices = (Reading.collect content).notices := by
  unfold readBranch at h ⊢
  split at h
  · exact absurd h (by simp)
  · next hne =>
    obtain ⟨script, hscript, rfl⟩ := Reading.result_map h
    refine ⟨rfl, hscript, ?_⟩
    rw [if_neg hne]
    rfl

theorem result_readChoice {header : ScriptLine} {repeats : List ScriptLine}
    {branches : List (Reading (String × List Statement))} {s : Statement}
    (h : (readChoice stage header repeats branches).result = .ok s) :
    ∃ asker read, readAsker stage header = .ok asker ∧
      (Reading.collect branches).result = .ok read ∧ s = .choice asker read header.origin := by
  unfold readChoice at h
  dsimp only at h
  split at h
  · next asker read hasker hread =>
    exact ⟨asker, read, hasker, hread, by simpa using h.symm⟩
  · exact absurd h (by simp)
  · exact absurd h (by simp)

/-- Branches render if their contents do: every label, then its content further in. -/
theorem rendersAll_branches {runs : List Run} {branches : List (String × List Statement)}
    (hread : (Reading.collect (readBranches stage
      (runs.map fun r => (r.1, outline r.2)))).result = .ok branches)
    (hrepeats : Unrepeated (Reading.collect (readBranches stage
      (runs.map fun r => (r.1, outline r.2)))).notices)
    (ih : ∀ r ∈ runs, ∀ script, (readLines stage r.2).result = .ok script →
      Unrepeated (readLines stage r.2).notices → RendersAll script (visibleTexts r.2)) :
    ∃ padded, reviseBranches id Cue.trimmed padded = branches ∧
      linesOfBranches padded =
        runs.flatMap fun r => r.1.text :: (visibleTexts r.2).map indent := by
  induction runs generalizing branches with
  | nil =>
    obtain rfl : [] = branches := by simpa [Reading.collect, readBranches] using hread
    exact ⟨[], rfl, rfl⟩
  | cons r runs ihruns =>
    rw [List.map_cons, readBranches] at hread hrepeats
    obtain ⟨⟨label, script⟩, rest, hbranch, hrest, rfl⟩ :=
      Reading.result_collect_cons (explained_readBranch _ _) hread
    obtain ⟨rfl, hscript, hnotices⟩ := result_readBranch hbranch
    obtain ⟨hfirst, hothers⟩ := unrepeated_append.mp hrepeats
    rw [hnotices] at hfirst
    obtain ⟨padded, rfl, hlines⟩ := ih r (by simp) script hscript hfirst
    obtain ⟨others, rfl, hmore⟩ :=
      ihruns hrest hothers fun r hr => ih r (List.mem_cons_of_mem _ hr)
    refine ⟨(r.1.text, padded) :: others, rfl, ?_⟩
    rw [linesOfBranches, hlines, hmore, List.flatMap_cons, List.cons_append]

theorem result_readFlawed {header : ScriptLine} {flaw : BlockFlaw} {s : Statement} :
    (readFlawed stage header flaw).result ≠ .ok s := by
  simp [readFlawed]

/-- Repeated labels are warned of, so a choice without that warning has distinct ones. -/
theorem nodup_of_unrepeated {header : ScriptLine} {runs : List Run}
    {branches : List (Reading (String × List Statement))}
    (h : Unrepeated (readChoice stage header (repeatedLabels [] runs) branches).notices) :
    (runs.map (·.1.text)).Nodup ∧ Unrepeated (Reading.collect branches).notices := by
  obtain ⟨hwarnings, hbranches⟩ := unrepeated_append.mp h
  have hnone : repeatedLabels [] runs = [] := by
    rw [List.eq_nil_iff_forall_not_mem]
    intro l hl
    exact hwarnings _ (List.mem_map.mpr ⟨l, hl, rfl⟩) l.text rfl
  exact ⟨(repeatedLabels_eq_nil_iff.mp hnone).1, hbranches⟩

/-- A block that was read as a choice renders as its visible lines. -/
theorem renders_of_blockSection {header last : ScriptLine} {body : List ScriptLine} {s : Statement}
    (hheader : header.kind = .choice) (hlast : last.text = terminator)
    (hbody : ∀ l ∈ body, l.isEmpty = false)
    (hread : (readSection stage (blockSection outline header body)).result = .ok s)
    (hrepeats : Unrepeated (readSection stage (blockSection outline header body)).notices)
    (ih : ∀ r ∈ (runsOf body).2, ∀ script, (readLines stage r.2).result = .ok script →
      Unrepeated (readLines stage r.2).notices → RendersAll script (visibleTexts r.2)) :
    s.Renders (visibleTexts (header :: (body ++ [last]))) := by
  cases body with
  | nil => exact absurd hread result_readFlawed
  | cons l body =>
    rw [blockSection] at hread hrepeats
    split at hread
    · exact absurd hread result_readFlawed
    · next hl =>
      have hl' : l.isIndented = false := by simpa using hl
      rw [if_neg hl] at hrepeats
      dsimp only at hread hrepeats
      rw [readSection] at hread hrepeats
      obtain ⟨hnodup, hunrepeated⟩ := nodup_of_unrepeated hrepeats
      rw [branchesOf_of_nodup hnodup] at hread hunrepeated
      obtain ⟨asker, read, hasker, hbranches, rfl⟩ := result_readChoice hread
      obtain ⟨padded, rfl, hlines⟩ := rendersAll_branches hbranches hunrepeated ih
      refine ⟨.choice asker padded header.origin, rfl, ?_⟩
      -- nothing stands above the first label, so the lines of the block are those of its runs
      have hruns := visibleTexts_runsOf hbody
      rw [runsOf_cons_label hl'] at hruns hlines
      have hname : "?" ++ asker.name = header.text := by
        apply String.toList_inj.mp
        have hchars := ScriptLine.toList_of_kind hheader rfl
        rw [String.toList_append, name_of_findActor hasker, hchars, withoutMarker, if_pos rfl]
        rfl
      have hend : visibleTexts [last] = [terminator] := by
        rw [visibleTexts_cons_of_visible (by rw [hlast]; decide), hlast]
        rfl
      rw [Statement.lines, hlines, hname,
        visibleTexts_cons_of_visible (ScriptLine.visible_of_kind hheader (by simp)),
        visibleTexts_append, hend, hruns]
      rfl

/-! ## Texts -/

theorem Statement.Renders.cons {s : Statement} {rest : List Statement} {texts more : List String}
    (hs : s.Renders texts) (hrest : RendersAll rest more) :
    RendersAll (s :: rest) (texts ++ more) := by
  obtain ⟨padded, rfl, rfl⟩ := hs
  obtain ⟨others, rfl, rfl⟩ := hrest
  exact ⟨padded :: others, rfl, rfl⟩

/-- Lines that were read without repeated labels render as those that are visible. -/
theorem rendersAll_of_readLines {lines : List ScriptLine} {script : List Statement}
    (hlines : ∀ l ∈ lines, l.isEmpty = false) (hread : (readLines stage lines).result = .ok script)
    (hrepeats : Unrepeated (readLines stage lines).notices) :
    RendersAll script (visibleTexts lines) := by
  -- branches and what comes after a block are both shorter, so the induction is on the length
  induction hn : lines.length using Nat.strongRecOn generalizing lines script with
  | _ n ih =>
    cases lines with
    | nil =>
      obtain rfl : [] = script := by simpa [readLines, readSections, Reading.collect] using hread
      exact ⟨[], rfl, rfl⟩
    | cons l rest =>
      rw [List.length_cons] at hn
      obtain ⟨hl, hrest⟩ := List.forall_mem_cons.mp hlines
      rw [readLines, outline_cons] at hread hrepeats
      split at hread
      · next hkind =>
        rw [if_pos hkind] at hrepeats
        cases hb : takeBlock rest with
        | none =>
          rw [hb] at hread
          obtain ⟨s, -, hs, -, -⟩ :=
            Reading.result_collect_cons (explained_readSection _) hread
          exact absurd hs result_readFlawed
        | some p =>
          obtain ⟨body, after⟩ := p
          rw [hb] at hread hrepeats
          have hlen := length_of_takeBlock hb
          obtain ⟨last, hlast, rfl, -⟩ := eq_append_of_takeBlock hb
          obtain ⟨hbody, hlastAfter⟩ := List.forall_mem_append.mp hrest
          obtain ⟨-, hafter⟩ := List.forall_mem_cons.mp hlastAfter
          obtain ⟨s, script, hs, hscript, rfl⟩ :=
            Reading.result_collect_cons (explained_readSection _) hread
          obtain ⟨hfirst, hothers⟩ := unrepeated_append.mp hrepeats
          have hbranches : ∀ r ∈ (runsOf body).2, ∀ script,
              (readLines stage r.2).result = .ok script →
              Unrepeated (readLines stage r.2).notices →
              RendersAll script (visibleTexts r.2) := by
            intro r hr script hscript hunrepeated
            have hshort := (length_runsOf body).2 r hr
            exact ih r.2.length (by omega) ((isEmpty_of_mem_runsOf hbody).2 r hr) hscript
              hunrepeated rfl
          have hblock := renders_of_blockSection hkind hlast hbody hs hfirst hbranches
          have hbelow := ih after.length (by omega) hafter hscript hothers rfl
          have htexts : visibleTexts (l :: (body ++ last :: after)) =
              visibleTexts (l :: (body ++ [last])) ++ visibleTexts after := by
            rw [← visibleTexts_append, List.cons_append, List.append_assoc, List.singleton_append]
          rw [htexts]
          exact hblock.cons hbelow
      · next hkind =>
        rw [if_neg hkind] at hrepeats
        obtain ⟨s, script, hs, hscript, rfl⟩ :=
          Reading.result_collect_cons (explained_readSection _) hread
        obtain ⟨-, hothers⟩ := unrepeated_append.mp hrepeats
        obtain ⟨hline, hvisible⟩ := renders_of_readLine hs
        rw [visibleTexts_cons_of_visible hvisible]
        exact hline.cons (ih rest.length (by omega) hrest hscript hothers rfl)

/-- A script that was read without repeated labels is printed as the visible lines of its text, once
the blanks around its animations are put back. -/
theorem linesOf_readScript {content : String} {script : List Statement}
    (h : (readScript stage content).result = .ok script)
    (hrepeats : ∀ n ∈ (readScript stage content).notices, ∀ label,
      n.warning ≠ .duplicateBranch label) :
    ∃ padded, reviseAll id Cue.trimmed padded = script ∧ linesOf padded = visibleLines content := by
  have hlines : ∀ l ∈ scriptLines (withoutReturns content), l.isEmpty = false :=
    fun l hl => isEmpty_of_mem_numbered hl
  obtain ⟨padded, hscript, htexts⟩ := rendersAll_of_readLines hlines h hrepeats
  refine ⟨padded, hscript, ?_⟩
  rw [htexts, scriptLines, visibleTexts_numbered, visibleLines]

/-- A text with carriage returns, blank lines of two depths and blanks around animations. -/
def paddedText : String :=
  "Ann: hi\r\n\n!Ann:  nod , Bo: wave\t\n?Bo\nYes\n \n ?Ann\n No\n  Ann: END\n  \n END\nEND\n" ++
    "[True] -> Ann.sad\n"

theorem linesOf_readScript_paddedText :
    ∃ script, (readScript .bare paddedText).result = .ok script ∧
      (∀ n ∈ (readScript .bare paddedText).notices, ∀ label,
        n.warning ≠ .duplicateBranch label) ∧
      ∃ padded, reviseAll id Cue.trimmed padded = script ∧
        linesOf padded = visibleLines paddedText := by
  have hnotices : (readScript .bare paddedText).notices =
      [⟨.unknownParameter "Ann" "sad", .ofIndex 12⟩] := by decide +kernel
  have herrors : (readScript .bare paddedText).errors = [] := by decide +kernel
  have hrepeats : ∀ n ∈ (readScript .bare paddedText).notices, ∀ label,
      n.warning ≠ .duplicateBranch label := by
    simp [hnotices]
  obtain ⟨script, h⟩ := (Reading.explained_collect _).result_eq_ok herrors
  exact ⟨script, h, hrepeats, linesOf_readScript h hrepeats⟩

end Promptbook.Script
