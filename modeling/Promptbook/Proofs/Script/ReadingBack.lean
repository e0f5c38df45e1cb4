import Promptbook.Proofs.Script.Blocks
import Promptbook.Proofs.Script.Concatenation

set_option autoImplicit false

/-!
# Reading what was printed

A script that is printed and read again is the same script, at the places where it was printed.
Every statement is followed through the three steps of the reader: the lines it is printed as have
one section for it at their head, whatever lines follow, and that section reads as the statement.
-/

namespace Promptbook.Script

/-! ## Single lines -/

variable {stage : Stage}

theorem ofFirst_eq_dialogue {c : Option Char} (h : c ∉ [some '!', some '?', some '[']) :
    StatementKind.ofFirst c = .dialogue := by
  unfold StatementKind.ofFirst
  split <;> simp_all

theorem findActor_of_knows {actor : ActorRef} (h : stage.Knows actor) (l : ScriptLine) :
    findActor stage l actor.name.toList = .ok actor := by
  rw [Stage.Knows] at h
  simp only [findActor, String.ofList_toList, h]

theorem kindOf_dialogue {speech : Speech} (hw : (Statement.dialogue speech).Writable) :
    kindOf (speech.speaker.name ++ ": " ++ speech.text) = .dialogue := by
  obtain ⟨-, -, -, hfirst⟩ := hw
  rw [kindOf]
  apply ofFirst_eq_dialogue
  simp only [String.toList_append]
  cases hcs : speech.speaker.name.toList with
  | nil => simp
  | cons c cs => simpa [hcs] using hfirst

theorem readLine_dialogue {speech : Speech} (hw : (Statement.dialogue speech).Writable)
    (hs : (Statement.dialogue speech).StandsOn stage) (o : Origin) :
    readLine stage ⟨speech.speaker.name ++ ": " ++ speech.text, o⟩ =
      ⟨[], .ok (.dialogue { speech with origin := o })⟩ := by
  have hkind : (⟨speech.speaker.name ++ ": " ++ speech.text, o⟩ : ScriptLine).kind = .dialogue :=
    kindOf_dialogue hw
  obtain ⟨-, -, hname, -⟩ := hw
  have hchars : (speech.speaker.name ++ ": " ++ speech.text).toList =
      speech.speaker.name.toList ++ [':', ' '] ++ speech.text.toList := by
    simp [String.toList_append]
  have hcut := Text.cutAt_append (by simp) (Text.bounded_pair (by decide) hname)
    speech.text.toList
  simp only [readLine, hkind, readSpeech, hchars, hcut, findActor_of_knows hs, Except.map,
    String.ofList_toList]
  rfl

theorem readCue_written {cue : Cue} (hw : cue.Writable) (hknown : stage.Knows cue.performer)
    (hhas : stage.hasAnimation cue.performer.actor cue.animation = true) (l : ScriptLine) :
    readCue stage l cue.written = .ok cue := by
  obtain ⟨-, -, hname, -, -, hfirst, hlast⟩ := hw
  have hcut := Text.cutAt_append (by simp) (Text.bounded_pair (by decide) hname)
    cue.animation.toList
  simp only [readCue, Cue.written, hcut, findActor_of_knows hknown,
    Text.trimmed_eq_self hfirst hlast, String.ofList_toList, hhas, if_true]

/-- In a written cue nothing looks like the separator of cues. -/
theorem Cue.bounded_written {cue : Cue} (hw : cue.Writable) :
    Text.Bounded [',', ' '] cue.written := by
  obtain ⟨-, -, -, hname, hanimation, -, -⟩ := hw
  apply Text.bounded_pair (by decide)
  rw [written, List.append_assoc]
  refine Text.not_pair_infix_append hname ?_ (by simp)
  rw [List.cons_append, List.cons_append, List.nil_append, List.infix_cons_iff,
    List.infix_cons_iff]
  simpa [List.cons_prefix_cons] using hanimation

theorem readLine_animation {cues : List Cue} (hw : (Statement.animation cues).Writable)
    (hs : (Statement.animation cues).StandsOn stage) (o : Origin) :
    readLine stage ⟨String.ofList ('!' :: Text.joined [',', ' '] (cues.map Cue.written)), o⟩ =
      ⟨[], .ok (.animation cues)⟩ := by
  obtain ⟨hne, hwritable⟩ := hw
  generalize hl : (⟨String.ofList ('!' :: Text.joined [',', ' '] (cues.map Cue.written)), o⟩ :
    ScriptLine) = l
  have hchars : l.text.toList = '!' :: Text.joined [',', ' '] (cues.map Cue.written) := by
    rw [← hl, String.toList_ofList]
  have hkind : l.kind = .animation := by
    rw [ScriptLine.kind, kindOf, hchars]
    rfl
  have hpieces : cuePieces l = cues.map Cue.written := by
    rw [cuePieces, hchars, withoutMarker, if_pos rfl]
    apply Text.pieces_joined (by simp) (by simpa using hne)
    intro p hp
    obtain ⟨cue, hcue, rfl⟩ := List.mem_map.mp hp
    exact cue.bounded_written (hwritable cue hcue)
  have hreadings : (cuePieces l).map (fun piece => Reading.ofExcept (readCue stage l piece)) =
      cues.map fun cue => ⟨[], .ok cue⟩ := by
    rw [hpieces, List.map_map]
    apply List.map_congr_left
    intro cue hcue
    obtain ⟨hknown, hhas⟩ := hs cue hcue
    simp only [Function.comp_apply, readCue_written (hwritable cue hcue) hknown hhas]
    rfl
  have hcues : readCues stage l = ⟨[], .ok cues⟩ := by
    rw [readCues, hreadings]
    clear * -
    induction cues with
    | nil => rfl
    | cons cue cues ih => exact Reading.collect_cons_of_ok rfl ih
  simp only [readLine, hkind, hcues]
  rfl

theorem readTarget_written {target : StoreTarget} {value : Bool} (hw : target.Writable)
    (hs : (Statement.store ⟨target, value⟩).StandsOn stage) (l : ScriptLine) {n : Nat}
    (ho : l.origin = .ofIndex n) :
    readTarget stage l target.written.toList = ⟨target.notices stage n, .ok target⟩ := by
  cases target with
  | contextVariable name id =>
    obtain ⟨-, hname⟩ := hw
    have hpieces : Text.pieces ['.'] name.toList = [name.toList] :=
      Text.pieces_of_absent (Text.bounded_singleton hname).absent
    have hfind : stage.findVariable name = some id := hs
    simp only [readTarget, StoreTarget.written, hpieces, String.ofList_toList, hfind]
    rfl
  | parameter owner name =>
    obtain ⟨-, howner, -, hname⟩ := hw
    have hchars : (owner.name ++ "." ++ name).toList =
        owner.name.toList ++ ['.'] ++ name.toList := by
      simp [String.toList_append]
    have hpieces : Text.pieces ['.'] (owner.name ++ "." ++ name).toList =
        [owner.name.toList, name.toList] := by
      rw [hchars, Text.pieces_append (by simp) (Text.bounded_singleton howner),
        Text.pieces_of_absent (Text.bounded_singleton hname).absent]
    simp only [readTarget, StoreTarget.written, hpieces, findActor_of_knows hs,
      String.ofList_toList, StoreTarget.notices, ho]

theorem readLine_store {assignment : Assignment} (hw : (Statement.store assignment).Writable)
    (hs : (Statement.store assignment).StandsOn stage) (n : Nat) :
    readLine stage ⟨storeHead assignment.value ++ assignment.target.written, .ofIndex n⟩ =
      ⟨assignment.target.notices stage n, .ok (.store assignment)⟩ := by
  obtain ⟨target, value⟩ := assignment
  -- the value in its brackets holds no arrow, so the line is cut behind it
  obtain ⟨bracketed, hbounded, hhead, hvalue⟩ : ∃ bracketed,
      Text.Bounded [' ', '-', '>', ' '] bracketed ∧
        (storeHead value).toList = bracketed ++ [' ', '-', '>', ' '] ∧
        ∀ l, readValue l bracketed = .ok value := by
    cases value
    · exact ⟨['[', 'F', 'a', 'l', 's', 'e', ']'], by decide, by decide, fun l => rfl⟩
    · exact ⟨['[', 'T', 'r', 'u', 'e', ']'], by decide, by decide, fun l => rfl⟩
  generalize hl : (⟨storeHead value ++ target.written, .ofIndex n⟩ : ScriptLine) = l
  have hchars : l.text.toList =
      bracketed ++ [' ', '-', '>', ' '] ++ target.written.toList := by
    rw [← hl, String.toList_append, hhead]
  have hkind : l.kind = .store := by
    rw [ScriptLine.kind, kindOf, ← hl, String.toList_append]
    cases value <;> rfl
  have htarget := readTarget_written hw hs l (n := n) (by rw [← hl])
  simp only [readLine, hkind, readAssignment, hchars, Text.cutAt_append (by simp) hbounded, hvalue,
    htarget]
  rfl

/-! ## Numbered lines -/

theorem numbered_cons {t : String} (h : t.toList ≠ []) (n : Nat) (ts : List String) :
    numbered n (t :: ts) = ⟨t, .ofIndex n⟩ :: numbered (n + 1) ts := by
  rw [numbered, if_neg (by simpa using h)]

theorem text_mem_of_mem_numbered {n : Nat} {ts : List String} {l : ScriptLine}
    (h : l ∈ numbered n ts) : l.text ∈ ts := by
  induction ts generalizing n with
  | nil => simp [numbered] at h
  | cons t ts ih =>
    rw [numbered] at h
    split at h
    · exact List.mem_cons_of_mem _ (ih h)
    · rcases List.mem_cons.mp h with rfl | h
      · simp
      · exact List.mem_cons_of_mem _ (ih h)

theorem numbered_map_indent {ts : List String} (h : ∀ t ∈ ts, t.toList ≠ []) (n : Nat) :
    numbered n (ts.map indent) = (numbered n ts).map ScriptLine.indented := by
  induction ts generalizing n with
  | nil => rfl
  | cons t ts ih =>
    rw [List.map_cons, numbered_cons (by simp), numbered_cons (h t (by simp)), List.map_cons,
      ih (fun u hu => h u (List.mem_cons_of_mem _ hu))]
    rfl

/-- The lines of a statement are not empty. -/
theorem Statement.ne_nil_of_mem_lines {s : Statement} (h : ∀ t ∈ s.parts, t.Writable) :
    ∀ t ∈ s.lines, t.toList ≠ [] := by
  cases s with
  | dialogue speech => simp [lines]
  | animation cues => simp [lines]
  | store assignment =>
    intro t ht
    rw [lines, List.mem_singleton] at ht
    subst ht
    cases assignment.value <;> simp [storeHead, String.toList_append]
  | choice asker branches origin =>
    obtain ⟨-, -, -, hbranches⟩ := h _ (self_mem_parts _)
    intro t ht
    simp only [lines, linesOfBranches_eq_flatMap, List.mem_cons, List.mem_append,
      List.mem_flatMap, List.mem_map, List.not_mem_nil, or_false] at ht
    rcases ht with rfl | ⟨b, hb, rfl | ⟨u, -, rfl⟩⟩ | rfl
    · simp [String.toList_append]
    · simpa using (hbranches b hb).1.2.1
    · simp
    · decide

theorem ne_nil_of_mem_linesOf {script : List Statement} (h : ∀ t ∈ partsOf script, t.Writable) :
    ∀ t ∈ linesOf script, t.toList ≠ [] := by
  intro t ht
  rw [linesOf_eq_flatMap, List.mem_flatMap] at ht
  obtain ⟨s, hs, ht⟩ := ht
  exact s.ne_nil_of_mem_lines (fun u hu => h u (mem_partsOf.mpr ⟨s, hs, hu⟩)) t ht

/-! ## Blocks -/

/-- The runs of the branches of a choice whose first label has that index. -/
def runsFrom (n : Nat) : List (String × List Statement) → List Run
  | [] => []
  | (label, script) :: rest =>
      (⟨label, .ofIndex n⟩, numbered (n + 1) (linesOf script)) ::
        runsFrom (n + 1 + (linesOf script).length) rest

theorem labels_runsFrom (n : Nat) (branches : List (String × List Statement)) :
    (runsFrom n branches).map (·.1.text) = labelsOf branches := by
  induction branches generalizing n with
  | nil => rfl
  | cons b rest ih => exact congrArg (List.cons b.1) (ih _)

/-- Printed branches are cut apart at their labels again. -/
theorem runsOf_linesOfBranches {branches : List (String × List Statement)}
    (hlabels : ∀ b ∈ branches, IsLabel b.1)
    (hlines : ∀ b ∈ branches, ∀ t ∈ linesOf b.2, t.toList ≠ []) (n : Nat) :
    runsOf (numbered n (linesOfBranches branches)) = ([], runsFrom n branches) := by
  induction branches generalizing n with
  | nil => rfl
  | cons b rest ih =>
    obtain ⟨label, script⟩ := b
    obtain ⟨-, hne, hfirst, -⟩ := hlabels (label, script) (by simp)
    have hscript := hlines (label, script) (by simp)
    have hlabel : (⟨label, .ofIndex n⟩ : ScriptLine).isIndented = false := by
      simpa [ScriptLine.isIndented, ScriptLine.first?] using hfirst
    have hcontent : ∀ l ∈ numbered (n + 1) (linesOf script), l.isEmpty = false :=
      fun l hl => isEmpty_of_mem_numbered hl
    have hrest := ih (fun b hb => hlabels b (List.mem_cons_of_mem _ hb))
      (fun b hb => hlines b (List.mem_cons_of_mem _ hb)) (n + 1 + (linesOf script).length)
    rw [linesOfBranches, numbered_cons (by simpa using hne), numbered_append,
      numbered_map_indent hscript, List.length_map, runsOf_cons_label hlabel,
      runsOf_indented_append hcontent, hrest, List.append_nil]
    rfl

/-- Whatever lines follow those of a statement, the section at their head reads as the statement. -/
def Statement.ReadsBack (stage : Stage) (s : Statement) : Prop :=
  ∀ (n : Nat) (more : List ScriptLine), ∃ sec,
    outline (numbered n s.lines ++ more) = sec :: outline more ∧
      readSection stage sec = ⟨s.notices stage n, .ok (s.placed n)⟩

theorem readLines_of_readsBack {script : List Statement} (h : ∀ s ∈ script, s.ReadsBack stage)
    (n : Nat) :
    readLines stage (numbered n (linesOf script)) =
      ⟨noticesFrom stage n script, .ok (placedFrom n script)⟩ := by
  induction script generalizing n with
  | nil => rfl
  | cons s rest ih =>
    obtain ⟨sec, houtline, hsec⟩ :=
      h s (by simp) n (numbered (n + s.lines.length) (linesOf rest))
    have hrest := ih (fun t ht => h t (List.mem_cons_of_mem _ ht)) (n + s.lines.length)
    rw [linesOf, numbered_append, readLines, houtline, readSections]
    exact Reading.collect_cons_of_ok hsec hrest

/-- A statement of one line reads back if its line does. -/
theorem Statement.readsBack_of_line {s : Statement} {t : String} (hlines : s.lines = [t])
    (hne : t.toList ≠ []) (hkind : kindOf t ≠ .choice)
    (h : ∀ n, readLine stage ⟨t, .ofIndex n⟩ = ⟨s.notices stage n, .ok (s.placed n)⟩) :
    s.ReadsBack stage := by
  intro n more
  refine ⟨.line ⟨t, .ofIndex n⟩, ?_, h n⟩
  rw [hlines, numbered_cons hne, numbered, List.cons_append, List.nil_append, outline_cons]
  exact if_neg hkind

theorem collect_readBranches {branches : List (String × List Statement)}
    (h : ∀ b ∈ branches, b.2 ≠ [] ∧ ∀ s ∈ b.2, s.ReadsBack stage) (n : Nat) :
    Reading.collect (readBranches stage
        ((runsFrom n branches).map fun r => (r.1, outline r.2))) =
      ⟨noticesFromBranches stage n branches, .ok (placedBranches n branches)⟩ := by
  induction branches generalizing n with
  | nil => rfl
  | cons b rest ih =>
    obtain ⟨label, script⟩ := b
    obtain ⟨hne, hscript⟩ := h (label, script) (by simp)
    have hread := readLines_of_readsBack hscript (n + 1)
    have hbranch : readBranch ⟨label, .ofIndex n⟩
        (readSections stage (outline (numbered (n + 1) (linesOf script)))) =
          ⟨noticesFrom stage (n + 1) script, .ok (label, placedFrom (n + 1) script)⟩ := by
      have hnonempty :
          (readSections stage (outline (numbered (n + 1) (linesOf script)))).isEmpty = false := by
        obtain ⟨s, rest', rfl⟩ := List.exists_cons_of_ne_nil hne
        obtain ⟨sec, houtline, -⟩ := hscript s (by simp) (n + 1)
          (numbered (n + 1 + s.lines.length) (linesOf rest'))
        rw [linesOf, numbered_append, houtline]
        rfl
      rw [readBranch, hnonempty]
      rw [readLines] at hread
      simp only [Bool.false_eq_true, if_false, hread]
      rfl
    exact Reading.collect_cons_of_ok hbranch
      (ih (fun b hb => h b (List.mem_cons_of_mem _ hb)) _)

/-- A choice reads back if the statements in its branches do. -/
theorem Statement.readsBack_choice {asker : ActorRef} {branches : List (String × List Statement)}
    {origin : Origin} (hw : ∀ t ∈ (choice asker branches origin).parts, t.Writable)
    (hs : (choice asker branches origin).StandsOn stage)
    (ih : ∀ b ∈ branches, ∀ s ∈ b.2, s.ReadsBack stage) :
    (choice asker branches origin).ReadsBack stage := by
  obtain ⟨-, hne, hdistinct, hbranches⟩ := hw _ (self_mem_parts _)
  have hlines : ∀ b ∈ branches, ∀ t ∈ linesOf b.2, t.toList ≠ [] := by
    intro b hb
    apply ne_nil_of_mem_linesOf
    intro t ht
    obtain ⟨s, hs', ht⟩ := mem_partsOf.mp ht
    exact forall_parts_branch hw hb hs' t ht
  intro n more
  generalize hheader : (⟨"?" ++ asker.name, .ofIndex n⟩ : ScriptLine) = header
  have hkind : header.kind = .choice := by
    rw [← hheader, ScriptLine.kind, kindOf, String.toList_append]
    rfl
  have hasker : readAsker stage header = .ok asker := by
    have hname : withoutMarker '?' header.text.toList = asker.name.toList := by
      rw [← hheader]
      simp [String.toList_append, withoutMarker]
    rw [readAsker, hname, findActor_of_knows hs]
  -- the body of the block is the lines of its branches
  generalize hbody : numbered (n + 1) (linesOfBranches branches) = body
  have hbodyLines : ∀ l ∈ body, l.text ≠ terminator := by
    intro l hl
    rw [← hbody] at hl
    have hmem := text_mem_of_mem_numbered hl
    simp only [linesOfBranches_eq_flatMap, List.mem_flatMap, List.mem_cons, List.mem_map] at hmem
    obtain ⟨b, hb, htext | ⟨t, -, htext⟩⟩ := hmem
    · rw [htext]
      exact (hbranches b hb).1.2.2.2
    · rw [← htext]
      intro he
      have := congrArg (fun s => s.toList.head?) he
      simp [terminator] at this
  have hruns : runsOf body = ([], runsFrom (n + 1) branches) := by
    rw [← hbody]
    exact runsOf_linesOfBranches (fun b hb => (hbranches b hb).1) hlines (n + 1)
  have hnodup : ((runsFrom (n + 1) branches).map (·.1.text)).Nodup := by
    rw [labels_runsFrom]
    exact hdistinct
  have hsection : blockSection outline header body =
      .choice header [] ((runsFrom (n + 1) branches).map fun r => (r.1, outline r.2)) := by
    obtain ⟨⟨label, script⟩, rest, rfl⟩ := List.exists_cons_of_ne_nil hne
    obtain ⟨-, hlabelne, hfirst, -⟩ := (hbranches (label, script) (by simp)).1
    obtain ⟨tail, rfl⟩ : ∃ tail, body = ⟨label, .ofIndex (n + 1)⟩ :: tail := by
      rw [← hbody, linesOfBranches, numbered_cons (by simpa using hlabelne)]
      exact ⟨_, rfl⟩
    have hlabel : (⟨label, .ofIndex (n + 1)⟩ : ScriptLine).isIndented = false := by
      simpa [ScriptLine.isIndented, ScriptLine.first?] using hfirst
    have hrepeats : repeatedLabels [] (runsFrom (n + 1) ((label, script) :: rest)) = [] :=
      repeatedLabels_eq_nil_iff.mpr ⟨hnodup, by simp⟩
    rw [blockSection, hlabel, hruns]
    simp only [Bool.false_eq_true, if_false, branchesOf_of_nodup hnodup, hrepeats]
  refine ⟨blockSection outline header body, ?_, ?_⟩
  · have hnumbered : numbered n (choice asker branches origin).lines ++ more =
        header :: (body ++ ⟨terminator, .ofIndex (n + 1 + (linesOfBranches branches).length)⟩ ::
          more) := by
      rw [lines, numbered_cons (by simp [String.toList_append]), numbered_append, hbody, hheader,
        numbered_cons (by decide)]
      simp [numbered]
    rw [hnumbered, outline_cons, if_pos hkind, takeBlock_append_cons hbodyLines rfl]
  · have hcollect := collect_readBranches (fun b hb => ⟨(hbranches b hb).2, ih b hb⟩) (n + 1)
    rw [hsection, readSection, readChoice, hcollect, hasker]
    simp only [List.map_nil, List.nil_append, Statement.notices, Statement.placed, ← hheader]

/-- Every statement that can be written reads back. -/
theorem Statement.readsBack {s : Statement} (hw : ∀ t ∈ s.parts, t.Writable)
    (hs : ∀ t ∈ s.parts, t.StandsOn stage) : s.ReadsBack stage := by
  have hself := hw s s.self_mem_parts
  have hstands := hs s s.self_mem_parts
  induction s using Statement.induction with
  | dialogue speech =>
    exact readsBack_of_line rfl (by simp) (by simp [kindOf_dialogue hself])
      fun n => readLine_dialogue hself hstands (.ofIndex n)
  | animation cues =>
    exact readsBack_of_line rfl (by simp) (by simp [kindOf, StatementKind.ofFirst])
      fun n => readLine_animation hself hstands (.ofIndex n)
  | store assignment =>
    obtain ⟨target, value⟩ := assignment
    refine readsBack_of_line rfl ?_ ?_ fun n => readLine_store hself hstands n
    · cases value <;> simp [storeHead, String.toList_append]
    · cases value <;> simp [kindOf, storeHead, String.toList_append, StatementKind.ofFirst]
  | choice asker branches origin ih =>
    apply readsBack_choice hw hstands
    intro b hb s hs'
    have hparts := forall_parts_branch hw hb hs'
    have hnames := forall_parts_branch hs hb hs'
    exact ih b hb s hs' hparts hnames (hparts s s.self_mem_parts) (hnames s s.self_mem_parts)

/-! ## Texts -/

theorem oneLine_append {s t : String} : OneLine (s ++ t) ↔ OneLine s ∧ OneLine t := by
  simp only [OneLine, String.toList_append, List.mem_append, not_or]
  exact and_and_and_comm

theorem Cue.not_mem_written {cue : Cue} {c : Char} (hc : c ∉ [':', ' '])
    (hname : c ∉ cue.performer.name.toList) (hanimation : c ∉ cue.animation.toList) :
    c ∉ cue.written := by
  simp only [written, List.mem_append, not_or]
  exact ⟨⟨hname, hc⟩, hanimation⟩

theorem StoreTarget.oneLine_written {target : StoreTarget} (hw : target.Writable) :
    OneLine target.written := by
  cases target with
  | contextVariable name id => exact hw.1
  | parameter owner name =>
    obtain ⟨howner, -, hname, -⟩ := hw
    exact oneLine_append.mpr ⟨oneLine_append.mpr ⟨howner, by decide⟩, hname⟩

/-- What can be written stays on its lines. -/
theorem Statement.oneLine_of_mem_lines {s : Statement} (hw : ∀ t ∈ s.parts, t.Writable) :
    ∀ t ∈ s.lines, OneLine t := by
  have hself := hw s s.self_mem_parts
  induction s using Statement.induction with
  | dialogue speech =>
    obtain ⟨hname, htext, -⟩ := hself
    rw [lines, List.forall_mem_singleton]
    exact oneLine_append.mpr ⟨oneLine_append.mpr ⟨hname, by decide⟩, htext⟩
  | animation cues =>
    have hcues {c : Char} (hmark : c ≠ '!') (hcolon : c ∉ [':', ' ']) (hcomma : c ∉ [',', ' '])
        (hc : ∀ cue ∈ cues, c ∉ cue.performer.name.toList ∧ c ∉ cue.animation.toList) :
        c ∉ '!' :: Text.joined [',', ' '] (cues.map Cue.written) := by
      refine List.not_mem_cons_of_ne_of_not_mem hmark (Text.not_mem_joined hcomma ?_)
      intro p hp
      obtain ⟨cue, hcue, rfl⟩ := List.mem_map.mp hp
      exact Cue.not_mem_written hcolon (hc cue hcue).1 (hc cue hcue).2
    rw [lines, List.forall_mem_singleton, OneLine, String.toList_ofList]
    refine ⟨hcues (by decide) (by decide) (by decide) ?_,
      hcues (by decide) (by decide) (by decide) ?_⟩
    · intro cue hcue
      obtain ⟨hname, hanimation, -⟩ := hself.2 cue hcue
      exact ⟨hname.1, hanimation.1⟩
    · intro cue hcue
      obtain ⟨hname, hanimation, -⟩ := hself.2 cue hcue
      exact ⟨hname.2, hanimation.2⟩
  | store assignment =>
    obtain ⟨target, value⟩ := assignment
    rw [lines, List.forall_mem_singleton]
    have hhead : ∀ value, OneLine (storeHead value) := by decide
    exact oneLine_append.mpr ⟨hhead value, target.oneLine_written hself⟩
  | choice asker branches origin ih =>
    obtain ⟨hname, -, -, hbranches⟩ := hself
    intro t ht
    simp only [lines, linesOfBranches_eq_flatMap, linesOf_eq_flatMap, List.mem_cons,
      List.mem_append, List.mem_flatMap, List.mem_map, List.not_mem_nil, or_false] at ht
    rcases ht with rfl | ⟨b, hb, rfl | ⟨u, ⟨s, hs, hu⟩, rfl⟩⟩ | rfl
    · exact oneLine_append.mpr ⟨by decide, hname⟩
    · exact (hbranches b hb).1.1
    · have hparts := forall_parts_branch hw hb hs
      have hu := ih b hb s hs hparts (hparts s s.self_mem_parts) u hu
      exact oneLine_append.mpr ⟨by decide, hu⟩
    · decide

/-- The lines of a text that was written are those it was written from. -/
theorem scriptLines_written {script : List Statement} (hw : ∀ t ∈ partsOf script, t.Writable) :
    scriptLines (withoutReturns (written script)) = numbered 0 (linesOf script) := by
  have hline : ∀ t ∈ linesOf script, OneLine t := by
    intro t ht
    rw [linesOf_eq_flatMap, List.mem_flatMap] at ht
    obtain ⟨s, hs, ht⟩ := ht
    exact Statement.oneLine_of_mem_lines (fun u hu => hw u (mem_partsOf.mpr ⟨s, hs, hu⟩)) t ht
  have hchars : (withoutReturns (written script)).toList =
      Text.joined ['\n'] ((linesOf script).map String.toList) := by
    have hreturns : '\r' ∉ Text.joined ['\n'] ((linesOf script).map String.toList) := by
      refine Text.not_mem_joined (by decide) ?_
      intro p hp
      obtain ⟨t, ht, rfl⟩ := List.mem_map.mp hp
      exact (hline t ht).2
    rw [withoutReturns, written, String.toList_ofList, String.toList_ofList, List.filter_eq_self]
    intro c hc
    exact decide_eq_true fun he => hreturns (he ▸ hc)
  rw [scriptLines, rawLines, hchars]
  by_cases hne : linesOf script = []
  · rw [hne]
    rfl
  · rw [Text.pieces_joined (by simp) (by simpa using hne), List.map_map]
    · have htexts : (linesOf script).map (String.ofList ∘ String.toList) = linesOf script := by
        conv_rhs => rw [← List.map_id (linesOf script)]
        exact List.map_congr_left fun t _ => String.ofList_toList
      rw [htexts]
    · intro p hp
      obtain ⟨t, ht, rfl⟩ := List.mem_map.mp hp
      exact Text.bounded_singleton (hline t ht).1

/-- A script that was written is read as the same script, with the origins of its lines and no
warnings but those for undeclared parameters. -/
theorem readScript_written {script : List Statement} (hw : ∀ t ∈ partsOf script, t.Writable)
    (hs : ∀ t ∈ partsOf script, t.StandsOn stage) :
    readScript stage (written script) =
      ⟨noticesFrom stage 0 script, .ok (placedFrom 0 script)⟩ := by
  rw [readScript, scriptLines_written hw]
  apply readLines_of_readsBack
  intro s hmem
  apply Statement.readsBack
  · exact fun t ht => hw t (mem_partsOf.mpr ⟨s, hmem, ht⟩)
  · exact fun t ht => hs t (mem_partsOf.mpr ⟨s, hmem, ht⟩)

/-- A choice in a choice, with texts that hold separators and look like other lines. -/
def nestedScene : List Statement :=
  [.dialogue ⟨⟨"Ann", ⟨3⟩⟩, "?: !, END -> ", .ofIndex 0⟩,
    .choice ⟨"Bo: b", ⟨5⟩⟩
      [("Yes: no", [
          .choice ⟨"", ⟨0⟩⟩ [("!END", [.store ⟨.parameter ⟨"Ann", ⟨3⟩⟩ "sad", true⟩])]
            (.ofIndex 0),
          .dialogue ⟨⟨" ", ⟨1⟩⟩, "", .ofIndex 0⟩]),
        ("?", [.animation [⟨⟨"Bo:", ⟨3⟩⟩, "nod: ,"⟩, ⟨⟨",", ⟨1⟩⟩, ""⟩]])]
      (.ofIndex 0),
    .store ⟨.contextVariable "] -> " ⟨0⟩, false⟩]

theorem readScript_written_nestedScene :
    (∀ t ∈ partsOf nestedScene, t.Writable) ∧
      (∀ t ∈ partsOf nestedScene, t.StandsOn .bare) ∧
        readScript .bare (written nestedScene) =
          ⟨noticesFrom .bare 0 nestedScene, .ok (placedFrom 0 nestedScene)⟩ := by
  have hw : ∀ t ∈ partsOf nestedScene, t.Writable := by decide +kernel
  have hs : ∀ t ∈ partsOf nestedScene, t.StandsOn .bare := by decide +kernel
  exact ⟨hw, hs, readScript_written hw hs⟩

end Promptbook.Script
