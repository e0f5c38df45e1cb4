import Promptbook.Proofs.Script.Playable

set_option autoImplicit false

/-!
# Where lines come from

The content of a branch is cut out of its block and loses a space at every level, blank lines are
dropped, and a label that is repeated starts its branch over.  Through all of it a line keeps the
index at which it stands in the text: what a line of the outline says, put back behind one space for
each branch around it, is the line of the text with that index.

Hence whatever is reported points at the line that it quotes.  Errors and warnings come from lines of
the outline (`errors_readSection`, `notices_readSection`), and so do the dialogues and choices of a
script that was accepted (`opening_of_readSection`).  `standing_of_outline` is about the outline
alone, and its induction is by the number of lines.
-/

namespace Promptbook.Script

/-! ## Places in the outline -/

/-- The text behind that many spaces. -/
def indentBy (k : Nat) (text : String) : String := String.ofList (List.replicate k ' ') ++ text

/-- What a line is for the section that it belongs to. -/
inductive LineRole where
  /-- A statement begins there. -/
  | statement
  /-- The label of a branch, the first or a repeated one. -/
  | label
  /-- Content above the first label. -/
  | misplaced
  deriving DecidableEq

/-- The section stands in the other one, inside of that many branches. -/
inductive Section.Within : Section → Nat → Section → Prop where
  | self (s : Section) : Within s 0 s
  | branch {header : ScriptLine} {repeats : List ScriptLine}
      {branches : List (ScriptLine × List Section)} {b : ScriptLine × List Section} {s t : Section}
      {k : Nat} (hb : b ∈ branches) (hs : s ∈ b.2) (ht : Within s k t) :
      Within (.choice header repeats branches) (k + 1) t

/-- The lines of a section that are not those of a section inside of it. -/
def Section.ownLines : Section → List (LineRole × ScriptLine)
  | line l => [(.statement, l)]
  | flawed header (.misplaced l) => [(.statement, header), (.misplaced, l)]
  | flawed header _ => [(.statement, header)]
  | choice header repeats branches =>
      (.statement, header) :: (repeats.map (LineRole.label, ·) ++
        branches.map fun b => (LineRole.label, b.1))

/-- The line is one of the section, inside of that many branches. -/
def Section.Holds (s : Section) (k : Nat) (role : LineRole) (l : ScriptLine) : Prop :=
  ∃ t, s.Within k t ∧ (role, l) ∈ t.ownLines

/-- The header of a choice begins a choice. -/
def Section.Headed : Section → Prop
  | choice header _ _ => header.kind = .choice
  | _ => True

theorem Section.head_mem_ownLines (s : Section) : (LineRole.statement, s.head) ∈ s.ownLines := by
  cases s with
  | line l => simp [ownLines, head]
  | flawed header flaw => cases flaw <;> simp [ownLines, head]
  | choice header repeats branches => simp [ownLines, head]

theorem Section.holds_head (s : Section) : s.Holds 0 .statement s.head :=
  ⟨s, .self s, s.head_mem_ownLines⟩

theorem Section.Holds.branch {header : ScriptLine} {repeats : List ScriptLine}
    {branches : List (ScriptLine × List Section)} {b : ScriptLine × List Section} {s : Section}
    {k : Nat} {role : LineRole} {l : ScriptLine} (hb : b ∈ branches) (hs : s ∈ b.2)
    (h : s.Holds k role l) : (Section.choice header repeats branches).Holds (k + 1) role l := by
  obtain ⟨t, ht, hl⟩ := h
  exact ⟨t, .branch hb hs ht, hl⟩

/-! ## The lines of the outline -/

/-- The line is that one without its first space. -/
def ScriptLine.OutdentedFrom (lines : List ScriptLine) (m : ScriptLine) : Prop :=
  ∃ l ∈ lines, l.isIndented = true ∧ m = l.outdented

theorem ScriptLine.OutdentedFrom.cons {lines : List ScriptLine} {m : ScriptLine}
    (h : m.OutdentedFrom lines) (l : ScriptLine) : m.OutdentedFrom (l :: lines) := by
  obtain ⟨x, hx, hindented, rfl⟩ := h
  exact ⟨x, List.mem_cons_of_mem _ hx, hindented, rfl⟩

/-- Runs are made of the lines that were cut: labels as they stand, contents without a space. -/
theorem runsOf_outdentedFrom (lines : List ScriptLine) :
    (∀ m ∈ (runsOf lines).1, m.OutdentedFrom lines) ∧
      ∀ r ∈ (runsOf lines).2, r.1 ∈ lines ∧ ∀ m ∈ r.2, m.OutdentedFrom lines := by
  induction lines with
  | nil => simp [runsOf]
  | cons l rest ih =>
    obtain ⟨hcontent, hruns⟩ := ih
    have hcontent' : ∀ m ∈ (runsOf rest).1, m.OutdentedFrom (l :: rest) :=
      fun m hm => (hcontent m hm).cons l
    have hruns' : ∀ r ∈ (runsOf rest).2,
        r.1 ∈ l :: rest ∧ ∀ m ∈ r.2, m.OutdentedFrom (l :: rest) := fun r hr =>
      ⟨List.mem_cons_of_mem _ (hruns r hr).1, fun m hm => ((hruns r hr).2 m hm).cons l⟩
    by_cases hi : l.isIndented = true
    · rw [runsOf]
      simp only [hi, if_true]
      refine ⟨?_, hruns'⟩
      split
      · exact hcontent'
      · exact List.forall_mem_cons.mpr ⟨⟨l, by simp, hi, rfl⟩, hcontent'⟩
    · rw [runsOf_cons_label (by simpa using hi)]
      exact ⟨by simp, List.forall_mem_cons.mpr ⟨⟨by simp, hcontent'⟩, hruns'⟩⟩

theorem mem_of_mem_repeatedLabels {seen : List String} {runs : List Run} {l : ScriptLine}
    (h : l ∈ repeatedLabels seen runs) : ∃ r ∈ runs, r.1 = l := by
  induction runs generalizing seen with
  | nil => simp [repeatedLabels] at h
  | cons r runs ih =>
    rw [repeatedLabels] at h
    split at h
    · rcases List.mem_cons.mp h with rfl | h
      · exact ⟨r, by simp, rfl⟩
      · obtain ⟨x, hx, hl⟩ := ih h
        exact ⟨x, List.mem_cons_of_mem _ hx, hl⟩
    · obtain ⟨x, hx, hl⟩ := ih h
      exact ⟨x, List.mem_cons_of_mem _ hx, hl⟩

theorem mem_of_mem_freshLabels {seen : List String} {runs : List Run} {l : ScriptLine}
    (h : l ∈ freshLabels seen runs) : ∃ r ∈ runs, r.1 = l := by
  induction runs generalizing seen with
  | nil => simp [freshLabels] at h
  | cons r runs ih =>
    rw [freshLabels] at h
    split at h
    · obtain ⟨x, hx, hl⟩ := ih h
      exact ⟨x, List.mem_cons_of_mem _ hx, hl⟩
    · rcases List.mem_cons.mp h with rfl | h
      · exact ⟨r, by simp, rfl⟩
      · obtain ⟨x, hx, hl⟩ := ih h
        exact ⟨x, List.mem_cons_of_mem _ hx, hl⟩

theorem mem_of_mem_lastContent {label : String} {runs : List Run} {m : ScriptLine}
    (h : m ∈ lastContent label runs) : ∃ r ∈ runs, m ∈ r.2 := by
  induction runs with
  | nil => simp [lastContent] at h
  | cons r runs ih =>
    rw [lastContent] at h
    split at h
    · exact ⟨r, by simp, h⟩
    · obtain ⟨x, hx, hm⟩ := ih h
      exact ⟨x, List.mem_cons_of_mem _ hx, hm⟩

/-- So are branches, whichever of the runs of a label they take. -/
theorem branchesOf_outdentedFrom {lines : List ScriptLine} {b : Run}
    (hb : b ∈ branchesOf (runsOf lines).2) :
    b.1 ∈ lines ∧ ∀ m ∈ b.2, m.OutdentedFrom lines := by
  obtain ⟨-, hruns⟩ := runsOf_outdentedFrom lines
  obtain ⟨l, hl, rfl⟩ := List.mem_map.mp hb
  constructor
  · obtain ⟨r, hr, rfl⟩ := mem_of_mem_freshLabels hl
    exact (hruns r hr).1
  · intro m hm
    obtain ⟨r, hr, hm⟩ := mem_of_mem_lastContent hm
    exact (hruns r hr).2 m hm

section Standing

variable {p : Nat → ScriptLine → Prop}

/-- What holds of the lines of a block, at the depth of the block, holds of all lines of its section
at their depth, given the same for the contents of its branches. -/
theorem standing_of_blockSection (hp : ∀ k l, l.isIndented = true → p k l → p (k + 1) l.outdented)
    {header : ScriptLine} {body : List ScriptLine} {k j : Nat} {t : Section}
    (hheader : p k header) (hkind : header.kind = .choice) (hbody : ∀ l ∈ body, p k l)
    (ih : ∀ lines, lines.length ≤ body.length → (∀ l ∈ lines, p (k + 1) l) →
      ∀ s ∈ outline lines, ∀ j t, s.Within j t →
        t.Headed ∧ ∀ x ∈ t.ownLines, p (k + 1 + j) x.2)
    (ht : (blockSection outline header body).Within j t) :
    t.Headed ∧ ∀ x ∈ t.ownLines, p (k + j) x.2 := by
  cases body with
  | nil =>
    rw [blockSection] at ht
    cases ht with
    | self => exact ⟨trivial, by simpa [Section.ownLines] using hheader⟩
  | cons l body =>
    rw [blockSection] at ht
    split at ht
    · cases ht with
      | self => exact ⟨trivial, by simpa [Section.ownLines] using ⟨hheader, hbody l (by simp)⟩⟩
    · dsimp only at ht
      cases ht with
      | self =>
        refine ⟨hkind, List.forall_mem_cons.mpr ⟨hheader, List.forall_mem_append.mpr ⟨?_, ?_⟩⟩⟩
        · intro x hx
          obtain ⟨m, hm, rfl⟩ := List.mem_map.mp hx
          obtain ⟨r, hr, rfl⟩ := mem_of_mem_repeatedLabels hm
          exact hbody _ ((runsOf_outdentedFrom (l :: body)).2 r hr).1
        · intro x hx
          obtain ⟨b, hb, rfl⟩ := List.mem_map.mp hx
          obtain ⟨run, hrun, rfl⟩ := List.mem_map.mp hb
          exact hbody _ (branchesOf_outdentedFrom hrun).1
      | branch hb hs hwithin =>
        obtain ⟨run, hrun, rfl⟩ := List.mem_map.mp hb
        have hcontent : ∀ m ∈ run.2, p (k + 1) m := by
          intro m hm
          obtain ⟨x, hx, hindented, rfl⟩ := (branchesOf_outdentedFrom hrun).2 m hm
          exact hp k x hindented (hbody x hx)
        have hinner := ih run.2 (length_of_mem_branchesOf hrun) hcontent _ hs _ t hwithin
        rwa [Nat.add_assoc, Nat.add_comm 1] at hinner

/-- What holds of all lines that are outlined and survives the loss of a space holds of every line of
the outline, at its depth. -/
theorem standing_of_outline (hp : ∀ k l, l.isIndented = true → p k l → p (k + 1) l.outdented)
    {lines : List ScriptLine} {k : Nat} (h : ∀ l ∈ lines, p k l) :
    ∀ s ∈ outline lines, ∀ j t, s.Within j t →
      t.Headed ∧ ∀ x ∈ t.ownLines, p (k + j) x.2 := by
  induction hn : lines.length using Nat.strongRecOn generalizing lines k with
  | _ n ih =>
    cases lines with
    | nil => simp
    | cons l rest =>
      obtain ⟨hl, hrest⟩ := List.forall_mem_cons.mp h
      rw [List.length_cons] at hn
      rw [outline_cons]
      split
      · next hkind =>
        cases hb : takeBlock rest with
        | none =>
          refine List.forall_mem_singleton.mpr fun j t ht => ?_
          cases ht with
          | self => exact ⟨trivial, by simpa [Section.ownLines] using hl⟩
        | some parts =>
          obtain ⟨body, after⟩ := parts
          have hlen := length_of_takeBlock hb
          obtain ⟨last, -, rfl, -⟩ := eq_append_of_takeBlock hb
          obtain ⟨hbody, hlastAfter⟩ := List.forall_mem_append.mp hrest
          obtain ⟨-, hafter⟩ := List.forall_mem_cons.mp hlastAfter
          refine List.forall_mem_cons.mpr ⟨fun j t ht => ?_, ih after.length (by omega) hafter rfl⟩
          exact standing_of_blockSection hp hl hkind hbody
            (fun ls hle hls => ih ls.length (by omega) hls rfl) ht
      · refine List.forall_mem_cons.mpr ⟨fun j t ht => ?_, ih rest.length (by omega) hrest rfl⟩
        cases ht with
        | self => exact ⟨trivial, by simpa [Section.ownLines] using hl⟩

end Standing

/-! ## The lines of the text -/

/-- The text has that line, behind `k` spaces, at the index that the line has. -/
def ScriptLine.Quotes (raw : List String) (k : Nat) (l : ScriptLine) : Prop :=
  raw[l.origin.lineIndex.toNat]? = some (indentBy k l.text)

@[simp] theorem indentBy_zero (text : String) : indentBy 0 text = text := by
  simp [indentBy]

theorem indentBy_succ (k : Nat) (text : String) :
    indentBy (k + 1) text = indentBy k (indent text) := by
  apply String.toList_inj.mp
  simp [indentBy, String.toList_append, List.replicate_succ']

theorem ScriptLine.Quotes.outdented {raw : List String} {k : Nat} {l : ScriptLine}
    (h : l.Quotes raw k) (hl : l.isIndented = true) : l.outdented.Quotes raw (k + 1) := by
  have htext : indent l.outdented.text = l.text :=
    congrArg ScriptLine.text (ScriptLine.indented_outdented hl)
  rw [Quotes, indentBy_succ, htext]
  exact h

/-- Numbered lines are found at their numbers, as long as 32 bits hold these. -/
theorem getElem?_of_mem_numbered {start : Nat} {ts : List String} {l : ScriptLine}
    (h : l ∈ numbered start ts) (hlen : start + ts.length ≤ UInt32.size) :
    ∃ i, l.origin.lineIndex.toNat = start + i ∧ ts[i]? = some l.text := by
  induction ts generalizing start with
  | nil => simp [numbered] at h
  | cons t ts ih =>
    rw [List.length_cons] at hlen
    have htail (hl : l ∈ numbered (start + 1) ts) :
        ∃ i, l.origin.lineIndex.toNat = start + i ∧ (t :: ts)[i]? = some l.text := by
      obtain ⟨i, hindex, hline⟩ := ih hl (by omega)
      exact ⟨i + 1, by omega, by simpa using hline⟩
    rw [numbered] at h
    split at h
    · exact htail h
    · rcases List.mem_cons.mp h with rfl | h
      · have hstart : start < UInt32.size := by omega
        refine ⟨0, ?_, rfl⟩
        rw [Origin.ofIndex, UInt32.toNat_ofNat', Nat.mod_eq_of_lt hstart, Nat.add_zero]
      · exact htail h

/-- Below 2³² lines every line of a text is found there at its index. -/
theorem quotes_of_mem_scriptLines {content : String}
    (hlen : (rawLines content).length ≤ UInt32.size) :
    ∀ l ∈ scriptLines content, l.Quotes (rawLines content) 0 := by
  intro l hl
  obtain ⟨i, hindex, hline⟩ := getElem?_of_mem_numbered hl (by omega)
  rw [Nat.zero_add] at hindex
  rw [ScriptLine.Quotes, hindex, hline, indentBy_zero]

/-- Every line of the outline of a text, at its depth, quotes the text. -/
theorem quotes_of_outline {content : String} (hlen : (rawLines content).length ≤ UInt32.size)
    {s : Section} (hs : s ∈ outline (scriptLines content)) {k : Nat} {role : LineRole}
    {l : ScriptLine} (hl : s.Holds k role l) : l.Quotes (rawLines content) k := by
  obtain ⟨t, ht, hmem⟩ := hl
  have hstanding := standing_of_outline (p := fun k l => l.Quotes (rawLines content) k)
    (fun _ _ hindented hquotes => hquotes.outdented hindented) (quotes_of_mem_scriptLines hlen)
    s hs k t ht
  simpa using hstanding.2 _ hmem

/-! ## What is wrong with a line -/

/-- The role of the line that has such a fault. -/
def LineFault.role : LineFault → LineRole
  | emptyBranch _ => .label
  | misplacedContent => .misplaced
  | _ => .statement

/-- The error is one of a statement that begins at that line. -/
def ScriptLine.Has (l : ScriptLine) (e : LineError) : Prop :=
  ∃ fault : LineFault, fault.role = .statement ∧ e = l.error fault

namespace Reading

variable {α β : Type}

theorem errors_map (f : α → β) (r : Reading α) : (r.map f).errors = r.errors := by
  obtain ⟨ns, result⟩ := r
  cases result <;> rfl

theorem mem_errors_ofExcept {r : Except LineError α} {e : LineError} :
    e ∈ (ofExcept r).errors ↔ r = .error e := by
  cases r <;> simp [ofExcept, errors, eq_comm]

end Reading

section Lines

variable {stage : Stage} {l : ScriptLine} {e : LineError}

theorem has_of_findActor {name : List Char} (h : findActor stage l name = .error e) : l.Has e := by
  unfold findActor at h
  dsimp only at h
  split at h
  · exact absurd h (by simp)
  · exact ⟨_, rfl, (Except.error.inj h).symm⟩

theorem has_of_readSpeech (h : readSpeech stage l = .error e) : l.Has e := by
  unfold readSpeech at h
  split at h
  · exact ⟨_, rfl, (Except.error.inj h).symm⟩
  · next name text _ =>
    cases hactor : findActor stage l name with
    | ok speaker => simp [hactor, Except.map] at h
    | error e' =>
      obtain rfl : e' = e := by simpa [hactor, Except.map] using h
      exact has_of_findActor hactor

theorem has_of_readCue {piece : List Char} (h : readCue stage l piece = .error e) : l.Has e := by
  unfold readCue at h
  split at h
  · exact ⟨_, rfl, (Except.error.inj h).symm⟩
  · split at h
    · next e' hactor =>
      obtain rfl := Except.error.inj h
      exact has_of_findActor hactor
    · dsimp only at h
      split at h
      · exact absurd h (by simp)
      · exact ⟨_, rfl, (Except.error.inj h).symm⟩

theorem has_of_readCues (h : e ∈ (readCues stage l).errors) : l.Has e := by
  rw [readCues, Reading.errors_collect, List.flatMap_map] at h
  obtain ⟨piece, -, hpiece⟩ := List.mem_flatMap.mp h
  exact has_of_readCue (Reading.mem_errors_ofExcept.mp hpiece)

theorem has_of_readValue {written : List Char} (h : readValue l written = .error e) : l.Has e := by
  unfold readValue at h
  split at h
  · exact ⟨_, rfl, (Except.error.inj h).symm⟩
  · split at h
    · exact absurd h (by simp)
    · split at h
      · exact absurd h (by simp)
      · exact ⟨_, rfl, (Except.error.inj h).symm⟩

theorem has_of_readTarget {written : List Char} (h : e ∈ (readTarget stage l written).errors) :
    l.Has e := by
  unfold readTarget at h
  split at h
  · dsimp only at h
    split at h
    · simp [Reading.errors] at h
    · exact ⟨_, rfl, List.mem_singleton.mp h⟩
  · split at h
    · next e' hactor =>
      obtain rfl := List.mem_singleton.mp h
      exact has_of_findActor hactor
    · simp [Reading.errors] at h
  · exact ⟨_, rfl, List.mem_singleton.mp h⟩

theorem has_of_readAssignment (h : e ∈ (readAssignment stage l).errors) : l.Has e := by
  unfold readAssignment at h
  split at h
  · exact ⟨_, rfl, List.mem_singleton.mp h⟩
  · split at h
    · next e' hvalue =>
      obtain rfl := List.mem_singleton.mp h
      exact has_of_readValue hvalue
    · rw [Reading.errors_map] at h
      exact has_of_readTarget h

/-- Every error of a line is one of that line. -/
theorem has_of_readLine (h : e ∈ (readLine stage l).errors) : l.Has e := by
  unfold readLine at h
  split at h <;> rw [Reading.errors_map] at h
  · exact has_of_readCues h
  · exact has_of_readAssignment h
  · exact has_of_readSpeech (Reading.mem_errors_ofExcept.mp h)

end Lines

/-! ## What is wrong with a section -/

section Sections

variable {stage : Stage}

/-- The error is one of a line of the section, inside of that many branches. -/
def Section.Reports (s : Section) (k : Nat) (e : LineError) : Prop :=
  s.Holds k e.fault.role ⟨e.line, e.origin⟩

theorem Section.reports_head {s : Section} {e : LineError} (h : s.head.Has e) : s.Reports 0 e := by
  obtain ⟨fault, hrole, rfl⟩ := h
  have hhead := s.holds_head
  rw [← hrole] at hhead
  exact hhead

theorem readChoice_of_asker {header : ScriptLine} {asker : ActorRef}
    (h : readAsker stage header = .ok asker) (repeats : List ScriptLine)
    (branches : List (Reading (String × List Statement))) :
    readChoice stage header repeats branches =
      ⟨(repeats.map fun l => ⟨.duplicateBranch l.text, l.origin⟩) ++
          (Reading.collect branches).notices,
        ((Reading.collect branches).map fun branches =>
          Statement.choice asker branches header.origin).result⟩ := by
  simp only [readChoice, h, Reading.map]
  cases (Reading.collect branches).result <;> rfl

theorem errors_readChoice (header : ScriptLine) (repeats : List ScriptLine)
    (branches : List (Reading (String × List Statement))) :
    (readChoice stage header repeats branches).errors =
      (Reading.ofExcept (readAsker stage header)).errors ++ (Reading.collect branches).errors := by
  cases h : readAsker stage header with
  | ok asker =>
    rw [readChoice_of_asker h]
    exact Reading.errors_map _ _
  | error e => simp [readChoice, h, Reading.errors, Reading.ofExcept]

theorem errors_readFlawed (header : ScriptLine) (flaw : BlockFlaw) :
    (readFlawed stage header flaw).errors =
      (Reading.ofExcept (readAsker stage header)).errors ++ [flawError header flaw] := by
  cases h : readAsker stage header <;> simp [readFlawed, h, Reading.errors, Reading.ofExcept]

theorem reports_of_readFlawed {header : ScriptLine} {flaw : BlockFlaw} {e : LineError}
    (h : e ∈ (readFlawed stage header flaw).errors) :
    (Section.flawed header flaw).Reports 0 e := by
  have hflaw : (Section.flawed header flaw).Reports 0 (flawError header flaw) := by
    refine ⟨_, .self _, ?_⟩
    cases flaw <;> simp [flawError, ScriptLine.error, LineFault.role, Section.ownLines]
  rw [errors_readFlawed] at h
  rcases List.mem_append.mp h with hasker | h
  · exact Section.reports_head (has_of_findActor (Reading.mem_errors_ofExcept.mp hasker))
  · obtain rfl := List.mem_singleton.mp h
    exact hflaw

/-- The errors of a choice are those of its asker and those of its branches. -/
theorem mem_errors_readChoice {header : ScriptLine} {repeats : List ScriptLine}
    {branches : List (Reading (String × List Statement))} {e : LineError}
    (h : e ∈ (readChoice stage header repeats branches).errors) :
    readAsker stage header = .error e ∨ ∃ r ∈ branches, e ∈ r.errors := by
  rw [errors_readChoice, Reading.errors_collect] at h
  rcases List.mem_append.mp h with hasker | hbranch
  · exact .inl (Reading.mem_errors_ofExcept.mp hasker)
  · exact .inr (List.mem_flatMap.mp hbranch)

/-- The errors of a branch are that it is empty, or those of its content. -/
theorem mem_errors_readBranch {label : ScriptLine} {content : List (Reading Statement)}
    {e : LineError} (h : e ∈ (readBranch label content).errors) :
    e = label.error (.emptyBranch label.text) ∨ ∃ r ∈ content, e ∈ r.errors := by
  unfold readBranch at h
  split at h
  · exact .inl (List.mem_singleton.mp h)
  · rw [Reading.errors_map, Reading.errors_collect] at h
    exact .inr (List.mem_flatMap.mp h)

/-- Every error of a section is one of a line that it holds. -/
theorem errors_readSection (s : Section) :
    ∀ e ∈ (readSection stage s).errors, ∃ k, s.Reports k e := by
  induction s using Section.induction with
  | line l =>
    intro e he
    exact ⟨0, Section.reports_head (has_of_readLine he)⟩
  | flawed header flaw =>
    intro e he
    exact ⟨0, reports_of_readFlawed he⟩
  | choice header repeats branches ih =>
    intro e he
    rw [readSection] at he
    rcases mem_errors_readChoice he with hasker | ⟨r, hr, he⟩
    · exact ⟨0, Section.reports_head (has_of_findActor hasker)⟩
    · rw [readBranches_eq_map] at hr
      obtain ⟨b, hb, rfl⟩ := List.mem_map.mp hr
      rcases mem_errors_readBranch he with rfl | ⟨r, hr, he⟩
      · have hlabel : (LineRole.label, b.1) ∈
            (Section.choice header repeats branches).ownLines := by
          simp only [Section.ownLines, List.mem_cons, List.mem_append, List.mem_map]
          exact .inr (.inr ⟨b, hb, rfl⟩)
        exact ⟨0, _, .self _, hlabel⟩
      · rw [readSections_eq_map] at hr
        obtain ⟨s, hs, rfl⟩ := List.mem_map.mp hr
        obtain ⟨k, hk⟩ := ih b hb s hs e he
        exact ⟨k + 1, .branch hb hs hk⟩

end Sections

/-! ## Warnings -/

/-- The role of the line that is warned of. -/
def Warning.role : Warning → LineRole
  | unknownParameter _ _ => .statement
  | duplicateBranch _ => .label

/-- What the line that is warned of says: the label, or a value stored into the parameter. -/
def Warning.Names : Warning → String → Prop
  | unknownParameter actor parameter, text =>
      ∃ value, text = storeHead value ++ (actor ++ "." ++ parameter)
  | duplicateBranch label, text => text = label

section Notices

variable {stage : Stage}

/-- The notice is of a line of the section, inside of that many branches, that says so. -/
def Section.Notes (s : Section) (k : Nat) (n : Notice) : Prop :=
  ∃ text, s.Holds k n.warning.role ⟨text, n.origin⟩ ∧ n.warning.Names text

@[simp] theorem Reading.notices_map {α β : Type} (f : α → β) (r : Reading α) :
    (r.map f).notices = r.notices := rfl

theorem Reading.notices_collect {α : Type} (rs : List (Reading α)) :
    (collect rs).notices = rs.flatMap notices := rfl

theorem notices_readCues (l : ScriptLine) : (readCues stage l).notices = [] := by
  simp [readCues, Reading.notices_collect, List.flatMap_map, Reading.ofExcept]

theorem mem_notices_readTarget {l : ScriptLine} {written : List Char} {n : Notice}
    (h : n ∈ (readTarget stage l written).notices) :
    ∃ owner parameter, n = ⟨.unknownParameter owner.name parameter, l.origin⟩ ∧
      (readTarget stage l written).result = .ok (.parameter owner parameter) := by
  unfold readTarget at h ⊢
  split at h
  · dsimp only at h
    split at h <;> simp at h
  · split at h
    · simp at h
    · next owner hactor =>
      refine ⟨owner, _, ?_, rfl⟩
      dsimp only at h
      split at h
      · simp at h
      · exact List.mem_singleton.mp h
  · simp at h

/-- A line is only warned of if it stores into a parameter, which is the one in the warning. -/
theorem mem_notices_readAssignment {l : ScriptLine} {n : Notice}
    (h : n ∈ (readAssignment stage l).notices) :
    n.origin = l.origin ∧ n.warning.role = .statement ∧ n.warning.Names l.text := by
  have hresult : ∃ owner parameter value,
      n = ⟨.unknownParameter owner.name parameter, l.origin⟩ ∧
        (readAssignment stage l).result = .ok ⟨.parameter owner parameter, value⟩ := by
    unfold readAssignment at h ⊢
    split at h
    · simp at h
    · split at h
      · simp at h
      · next value _ =>
        rw [Reading.notices_map] at h
        obtain ⟨owner, parameter, hn, htarget⟩ := mem_notices_readTarget h
        exact ⟨owner, parameter, value, hn, by simp [Reading.map, htarget]⟩
  obtain ⟨owner, parameter, value, rfl, hread⟩ := hresult
  exact ⟨rfl, rfl, value, (renders_of_readAssignment hread).symm⟩

theorem notes_of_readLine {l : ScriptLine} {n : Notice} (h : n ∈ (readLine stage l).notices) :
    (Section.line l).Notes 0 n := by
  unfold readLine at h
  split at h <;> rw [Reading.notices_map] at h
  · simp [notices_readCues] at h
  · obtain ⟨horigin, hrole, hnames⟩ := mem_notices_readAssignment h
    refine ⟨l.text, ?_, hnames⟩
    rw [hrole, horigin]
    exact (Section.line l).holds_head
  · simp [Reading.ofExcept] at h

theorem mem_notices_readBranch {label : ScriptLine} {content : List (Reading Statement)}
    {n : Notice} (h : n ∈ (readBranch label content).notices) : ∃ r ∈ content, n ∈ r.notices := by
  unfold readBranch at h
  split at h
  · simp at h
  · exact List.mem_flatMap.mp h

/-- Every warning of a section is of a line that it holds, whether it was read or not. -/
theorem notices_readSection (s : Section) :
    ∀ n ∈ (readSection stage s).notices, ∃ k, s.Notes k n := by
  induction s using Section.induction with
  | line l =>
    intro n hn
    exact ⟨0, notes_of_readLine hn⟩
  | flawed header flaw =>
    intro n hn
    simp [readSection, readFlawed] at hn
  | choice header repeats branches ih =>
    intro n hn
    rw [readSection, readChoice] at hn
    rcases List.mem_append.mp hn with hn | hn
    · obtain ⟨l, hl, rfl⟩ := List.mem_map.mp hn
      have hmem : (LineRole.label, l) ∈ (Section.choice header repeats branches).ownLines := by
        simp only [Section.ownLines, List.mem_cons, List.mem_append, List.mem_map]
        exact .inr (.inl ⟨l, hl, rfl⟩)
      exact ⟨0, l.text, ⟨_, .self _, hmem⟩, rfl⟩
    · obtain ⟨r, hr, hn⟩ := List.mem_flatMap.mp hn
      rw [readBranches_eq_map] at hr
      obtain ⟨b, hb, rfl⟩ := List.mem_map.mp hr
      obtain ⟨r, hr, hn⟩ := mem_notices_readBranch hn
      rw [readSections_eq_map] at hr
      obtain ⟨s, hs, rfl⟩ := List.mem_map.mp hr
      obtain ⟨k, text, hholds, hnames⟩ := ih b hb s hs n hn
      exact ⟨k + 1, text, hholds.branch hb hs, hnames⟩

end Notices

/-! ## Statements -/

/-- The statement stands in the other one, inside of that many branches. -/
inductive Statement.Within : Statement → Nat → Statement → Prop where
  | self (s : Statement) : Within s 0 s
  | branch {asker : ActorRef} {branches : List (String × List Statement)} {origin : Origin}
      {b : String × List Statement} {s t : Statement} {k : Nat} (hb : b ∈ branches) (hs : s ∈ b.2)
      (ht : Within s k t) : Within (.choice asker branches origin) (k + 1) t

/-- The line at which a dialogue or a choice begins, at the place that it keeps. -/
def Statement.opening : Statement → Option ScriptLine
  | dialogue speech => some ⟨speech.speaker.name ++ ": " ++ speech.text, speech.origin⟩
  | choice asker _ origin => some ⟨"?" ++ asker.name, origin⟩
  | animation _ => none
  | store _ => none

section Openings

variable {stage : Stage}

theorem opening_of_readLine {l m : ScriptLine} {s t : Statement} {k : Nat}
    (h : (readLine stage l).result = .ok s) (ht : s.Within k t) (hm : t.opening = some m) :
    (Section.line l).Holds k .statement m := by
  unfold readLine at h
  split at h <;> obtain ⟨read, hread, rfl⟩ := Reading.result_map h
  · cases ht
    simp [Statement.opening] at hm
  · cases ht
    simp [Statement.opening] at hm
  · cases ht
    have hspeech := Reading.result_ofExcept hread
    have horigin : read.origin = l.origin := by
      unfold readSpeech at hspeech
      split at hspeech
      · exact absurd hspeech (by simp)
      · next name _ _ =>
        cases hactor : findActor stage l name with
        | error e => simp [hactor, Except.map] at hspeech
        | ok speaker =>
          simp only [hactor, Except.map, Except.ok.injEq] at hspeech
          rw [← hspeech]
    obtain rfl : l = m := by
      rw [Statement.opening, renders_of_readSpeech hspeech, horigin] at hm
      exact Option.some.inj hm
    exact (Section.line l).holds_head

/-- The header of a choice is a question mark and the name of the actor that was found. -/
theorem text_of_readAsker {header : ScriptLine} {asker : ActorRef} (hkind : header.kind = .choice)
    (h : readAsker stage header = .ok asker) : "?" ++ asker.name = header.text := by
  apply String.toList_inj.mp
  have hchars := ScriptLine.toList_of_kind hkind rfl
  rw [String.toList_append, name_of_findActor h, hchars, withoutMarker, if_pos rfl]
  rfl

/-- A statement of a script that was read is that of one of its sections. -/
theorem exists_section_of_mem {sections : List Section} {script : List Statement} {s : Statement}
    (h : (Reading.collect (readSections stage sections)).result = .ok script) (hs : s ∈ script) :
    ∃ sec ∈ sections, (readSection stage sec).result = .ok s := by
  rw [readSections_eq_map] at h
  have hexplained : ∀ r ∈ sections.map (readSection stage), r.Explained :=
    List.forall_mem_map.mpr fun sec _ => explained_readSection sec
  obtain ⟨r, hr, hread⟩ := (Reading.mem_of_collect hexplained h).2 s hs
  obtain ⟨sec, hsec, rfl⟩ := List.mem_map.mp hr
  exact ⟨sec, hsec, hread⟩

/-- Every dialogue and every choice that was read begins at a line of its section, at the depth that
it has among the statements. -/
theorem opening_of_readSection {s : Section} {read : Statement}
    (hheaded : ∀ k t, s.Within k t → t.Headed) (h : (readSection stage s).result = .ok read) :
    ∀ k t, read.Within k t → ∀ l, t.opening = some l → s.Holds k .statement l := by
  induction s using Section.induction generalizing read with
  | line l => exact fun k t ht m hm => opening_of_readLine h ht hm
  | flawed header flaw => exact absurd h result_readFlawed
  | choice header repeats branches ih =>
    rw [readSection] at h
    obtain ⟨asker, readBranches', hasker, hcollect, rfl⟩ := result_readChoice h
    intro k t ht l hl
    cases ht with
    | self =>
      rw [Statement.opening, text_of_readAsker (hheaded 0 _ (.self _)) hasker] at hl
      obtain rfl := Option.some.inj hl
      exact Section.holds_head _
    | @branch _ _ _ b s _ k hb hs ht =>
      rw [readBranches_eq_map] at hcollect
      have hexplained : ∀ r ∈ branches.map fun b => readBranch b.1 (readSections stage b.2),
          r.Explained :=
        List.forall_mem_map.mpr fun b _ => explained_readBranch _ _
      obtain ⟨r, hr, hbranch⟩ := (Reading.mem_of_collect hexplained hcollect).2 b hb
      obtain ⟨c, hc, rfl⟩ := List.mem_map.mp hr
      obtain ⟨-, hscript, -⟩ := result_readBranch hbranch
      obtain ⟨sec, hsec, hread⟩ := exists_section_of_mem hscript hs
      have hholds := ih c hc sec hsec (fun k t hk => hheaded (k + 1) t (.branch hc hsec hk)) hread
        k t ht l hl
      exact hholds.branch hc hsec

end Openings

/-! ## Texts -/

/-- Below 2³² lines everything that reading a text reports points at the line that it quotes: that
line of the text is what is quoted, behind one space for each branch around it.  An error quotes its
line, a warning the label or the value that it is about, whether the script is accepted or not, and
in an accepted script every dialogue and every choice is where its origin says. -/
theorem readScript_quotes (stage : Stage) {content : String}
    (hlen : lineCount content < UInt32.size) :
    (∀ e ∈ (readScript stage content).errors, ∃ k,
      (∃ s ∈ outline (scriptLines (withoutReturns content)),
        s.Holds k e.fault.role ⟨e.line, e.origin⟩) ∧
      ScriptLine.Quotes (rawLines (withoutReturns content)) k ⟨e.line, e.origin⟩) ∧
    (∀ n ∈ (readScript stage content).notices, ∃ k text,
      (∃ s ∈ outline (scriptLines (withoutReturns content)),
        s.Holds k n.warning.role ⟨text, n.origin⟩) ∧
      n.warning.Names text ∧
      ScriptLine.Quotes (rawLines (withoutReturns content)) k ⟨text, n.origin⟩) ∧
    ∀ script, (readScript stage content).result = .ok script →
      ∀ s ∈ script, ∀ k t, s.Within k t → ∀ l, t.opening = some l →
        l.Quotes (rawLines (withoutReturns content)) k := by
  have hsize : (rawLines (withoutReturns content)).length ≤ UInt32.size := hlen.le
  refine ⟨fun e he => ?_, fun n hn => ?_, fun script hread s hs k t ht l hl => ?_⟩
  · rw [readScript, readLines, Reading.errors_collect, readSections_eq_map, List.flatMap_map] at he
    obtain ⟨s, hs, he⟩ := List.mem_flatMap.mp he
    obtain ⟨k, hk⟩ := errors_readSection s e he
    exact ⟨k, ⟨s, hs, hk⟩, quotes_of_outline hsize hs hk⟩
  · rw [readScript, readLines, Reading.notices_collect, readSections_eq_map,
      List.flatMap_map] at hn
    obtain ⟨s, hs, hn⟩ := List.mem_flatMap.mp hn
    obtain ⟨k, text, hholds, hnames⟩ := notices_readSection s n hn
    exact ⟨k, text, ⟨s, hs, hholds⟩, hnames, quotes_of_outline hsize hs hholds⟩
  · obtain ⟨sec, hsec, hread⟩ := exists_section_of_mem hread hs
    have hheaded : ∀ k t, sec.Within k t → t.Headed := fun k t ht =>
      (standing_of_outline (p := fun _ _ => True) (fun _ _ _ _ => trivial) (k := 0)
        (fun _ _ => trivial) sec hsec k t ht).1
    exact quotes_of_outline hsize hsec (opening_of_readSection hheaded hread k t ht l hl)

/-- A text with a warning and an error inside of two branches. -/
def misreadText : String :=
  "\n?Bo\nYes\n \n ?Ann\n No\n  [True] -> Ann.sad\n  Ann\n END\nEND\n"

theorem readScript_quotes_misreadText :
    lineCount misreadText < UInt32.size ∧
      (∀ e ∈ (readScript .bare misreadText).errors, ∃ k,
        (∃ s ∈ outline (scriptLines (withoutReturns misreadText)),
          s.Holds k e.fault.role ⟨e.line, e.origin⟩) ∧
        ScriptLine.Quotes (rawLines (withoutReturns misreadText)) k ⟨e.line, e.origin⟩) ∧
      (∀ n ∈ (readScript .bare misreadText).notices, ∃ k text,
        (∃ s ∈ outline (scriptLines (withoutReturns misreadText)),
          s.Holds k n.warning.role ⟨text, n.origin⟩) ∧
        n.warning.Names text ∧
        ScriptLine.Quotes (rawLines (withoutReturns misreadText)) k ⟨text, n.origin⟩) ∧
      ∀ script, (readScript .bare misreadText).result = .ok script →
        ∀ s ∈ script, ∀ k t, s.Within k t → ∀ l, t.opening = some l →
          l.Quotes (rawLines (withoutReturns misreadText)) k := by
  have hlen : lineCount misreadText < UInt32.size := by decide +kernel
  exact ⟨hlen, readScript_quotes .bare hlen⟩

/-- Both are where they say, on lines that are indented twice. -/
example :
    (readScript .bare misreadText).errors =
        [⟨"Ann", .malformedLine dialogueForm, .ofIndex 7⟩] ∧
      (readScript .bare misreadText).notices = [⟨.unknownParameter "Ann" "sad", .ofIndex 6⟩] ∧
      (rawLines misreadText)[7]? = some (indentBy 2 "Ann") := by decide +kernel

end Promptbook.Script
