import Promptbook.Proofs.Script.Provenance

set_option autoImplicit false

/-!
# What a script may ask for

An accepted script asks actors for animations and writes variables.  Each of these was found on the
stage when the text was read: a cue stands for a piece of an animation line, whose actor was found and
whose animation this actor has, and a variable stands for the target of a line that stores a value.
`asksFor_of_readScript` says so of every statement of the script, however deep it is nested.
-/

namespace Promptbook.Script

/-- The outline of the text has that line as a statement. -/
def HasLine (content : String) (l : ScriptLine) : Prop :=
  ∃ s ∈ outline (scriptLines (withoutReturns content)), ∃ k, s.Holds k .statement l

/-- A piece of an animation line asks the actor for the animation: the stage finds the actor by the
name before the colon, and the actor has the animation named after it, without the blanks. -/
def ScriptLine.Cues (l : ScriptLine) (stage : Stage) (actor : ActorId) (animation : String) : Prop :=
  l.kind = .animation ∧ ∃ piece ∈ cuePieces l, ∃ name rest,
    Text.cutAt [':', ' '] piece = some (name, rest) ∧
    stage.findActor (String.ofList name) = some actor ∧
    animation = String.ofList (Text.trimmed rest) ∧ stage.hasAnimation actor animation = true

/-- A line stores the value into the variable: the stage finds it by the name behind the arrow. -/
def ScriptLine.Stores (l : ScriptLine) (stage : Stage) (id : VariableId) (value : Bool) : Prop :=
  l.kind = .store ∧ ∃ written name,
    Text.cutAt [' ', '-', '>', ' '] l.text.toList = some (written, name) ∧
    readValue l written = .ok value ∧ Text.pieces ['.'] name = [name] ∧
    stage.findVariable (String.ofList name) = some id

/-- What a statement asks for apart from its branches: only those animations, and only those values
for variables. -/
def Statement.AsksFor (plays : ActorId → String → Prop) (stores : VariableId → Bool → Prop) :
    Statement → Prop
  | dialogue _ => True
  | animation cues => ∀ cue ∈ cues, plays cue.performer.actor cue.animation
  | store ⟨.contextVariable _ id, value⟩ => stores id value
  | store ⟨.parameter _ _, _⟩ => True
  | choice _ _ _ => True

variable {stage : Stage}

/-! ## Single lines -/

theorem found_of_findActor {l : ScriptLine} {name : List Char} {r : ActorRef}
    (h : findActor stage l name = .ok r) : stage.findActor (String.ofList name) = some r.actor := by
  unfold findActor at h
  dsimp only at h
  split at h
  · next actor hactor =>
    obtain rfl := Except.ok.inj h
    exact hactor
  · exact absurd h (by simp)

theorem cut_of_readCue {l : ScriptLine} {piece : List Char} {cue : Cue}
    (h : readCue stage l piece = .ok cue) :
    ∃ name rest, Text.cutAt [':', ' '] piece = some (name, rest) ∧
      stage.findActor (String.ofList name) = some cue.performer.actor ∧
      cue.animation = String.ofList (Text.trimmed rest) := by
  unfold readCue at h
  split at h
  · exact absurd h (by simp)
  · next name rest hcut =>
    split at h
    · exact absurd h (by simp)
    · next performer hactor =>
      dsimp only at h
      split at h
      · obtain rfl := Except.ok.inj h
        exact ⟨name, rest, hcut, found_of_findActor hactor, rfl⟩
      · exact absurd h (by simp)

theorem cues_of_readCues {l : ScriptLine} (hkind : l.kind = .animation) {cues : List Cue}
    (h : (readCues stage l).result = .ok cues) :
    ∀ cue ∈ cues, l.Cues stage cue.performer.actor cue.animation := by
  intro cue hcue
  obtain ⟨-, hmem⟩ := Reading.mem_of_collect (by simp [Reading.explained_ofExcept]) h
  obtain ⟨r, hr, hread⟩ := hmem cue hcue
  obtain ⟨piece, hpiece, rfl⟩ := List.mem_map.mp hr
  have hcue := Reading.result_ofExcept hread
  obtain ⟨name, rest, hcut, hactor, hanimation⟩ := cut_of_readCue hcue
  exact ⟨hkind, piece, hpiece, name, rest, hcut, hactor, hanimation, hasAnimation_of_readCue hcue⟩

theorem name_of_readTarget {l : ScriptLine} {written : List Char} {name : String} {id : VariableId}
    (h : (readTarget stage l written).result = .ok (.contextVariable name id)) :
    Text.pieces ['.'] written = [written] ∧
      stage.findVariable (String.ofList written) = some id := by
  have hjoined := Text.joined_pieces (List.cons_ne_nil '.' []) written
  unfold readTarget at h
  split at h
  · next piece hpieces =>
    rw [hpieces, Text.joined] at hjoined
    subst hjoined
    dsimp only at h
    split at h
    · next found hfound =>
      simp only [Except.ok.injEq, StoreTarget.contextVariable.injEq] at h
      obtain ⟨-, rfl⟩ := h
      exact ⟨hpieces, hfound⟩
    · exact absurd h (by simp)
  · split at h <;> exact absurd h (by simp)
  · exact absurd h (by simp)

theorem stores_of_readAssignment {l : ScriptLine} (hkind : l.kind = .store) {name : String}
    {id : VariableId} {value : Bool}
    (h : (readAssignment stage l).result = .ok ⟨.contextVariable name id, value⟩) :
    l.Stores stage id value := by
  unfold readAssignment at h
  split at h
  · exact absurd h (by simp)
  · next written target hcut =>
    split at h
    · exact absurd h (by simp)
    · next found hvalue =>
      obtain ⟨read, hread, heq⟩ := Reading.result_map h
      obtain ⟨rfl, rfl⟩ := Assignment.mk.inj heq
      obtain ⟨hpieces, hfound⟩ := name_of_readTarget hread
      exact ⟨hkind, written, target, hcut, hvalue, hpieces, hfound⟩

/-- What a line asks for was found when it was read. -/
theorem asksFor_of_readLine {l : ScriptLine} {s : Statement}
    (h : (readLine stage l).result = .ok s) : s.AsksFor (l.Cues stage) (l.Stores stage) := by
  unfold readLine at h
  split at h <;> obtain ⟨read, hread, rfl⟩ := Reading.result_map h
  · next hkind => exact cues_of_readCues hkind hread
  · next hkind =>
    obtain ⟨target, value⟩ := read
    cases target with
    | contextVariable name id => exact stores_of_readAssignment hkind hread
    | parameter owner name => trivial
  · trivial

/-- A line of animations asks for one at least. -/
theorem cues_ne_nil_of_readLine {l : ScriptLine} {cues : List Cue}
    (h : (readLine stage l).result = .ok (.animation cues)) : cues ≠ [] := by
  unfold readLine at h
  split at h <;> obtain ⟨read, hread, heq⟩ := Reading.result_map h
  · obtain rfl := Statement.animation.inj heq
    have hlength := (Reading.mem_of_collect (by simp [Reading.explained_ofExcept]) hread).1
    rw [List.length_map] at hlength
    rw [← List.length_pos_iff, hlength, List.length_pos_iff]
    exact Text.pieces_ne_nil _ _
  · exact absurd heq (by simp)
  · exact absurd heq (by simp)

/-! ## Scripts -/

section Parts

variable {p : Statement → Prop}

/-- What holds of every choice and of whatever is read from a line of a section holds of all parts
of the statement that is read from the section. -/
theorem forall_parts_of_readSection
    (hchoice : ∀ asker branches origin, p (.choice asker branches origin)) {s : Section}
    {read : Statement}
    (hlines : ∀ k l t, s.Holds k .statement l → (readLine stage l).result = .ok t → p t)
    (h : (readSection stage s).result = .ok read) : ∀ t ∈ read.parts, p t := by
  induction s using Section.induction generalizing read with
  | line l =>
    have hparts : read.parts = [read] := by
      rw [readSection, readLine] at h
      split at h <;> obtain ⟨_, -, rfl⟩ := Reading.result_map h <;> rfl
    rw [hparts]
    exact List.forall_mem_singleton.mpr (hlines 0 l read (Section.line l).holds_head h)
  | flawed header flaw => exact absurd h result_readFlawed
  | choice header repeats branches ih =>
    rw [readSection, readBranches_eq_map] at h
    obtain ⟨asker, read', -, hcollect, rfl⟩ := result_readChoice h
    rw [Statement.parts, List.forall_mem_cons]
    refine ⟨hchoice _ _ _, fun t ht => ?_⟩
    obtain ⟨b, hb, ht⟩ := mem_partsOfBranches.mp ht
    obtain ⟨s, hs, ht⟩ := mem_partsOf.mp ht
    have hexplained : ∀ r ∈ branches.map fun b => readBranch b.1 (readSections stage b.2),
        r.Explained :=
      List.forall_mem_map.mpr fun b _ => explained_readBranch _ _
    obtain ⟨r, hr, hbranch⟩ := (Reading.mem_of_collect hexplained hcollect).2 b hb
    obtain ⟨c, hc, rfl⟩ := List.mem_map.mp hr
    obtain ⟨-, hscript, -⟩ := result_readBranch hbranch
    obtain ⟨sec, hsec, hread⟩ := exists_section_of_mem hscript hs
    exact ih c hc sec hsec (fun k l t hl => hlines (k + 1) l t (hl.branch hc hsec)) hread t ht

/-- So it holds throughout an accepted script. -/
theorem forall_parts_of_readScript
    (hchoice : ∀ asker branches origin, p (.choice asker branches origin)) {content : String}
    {script : List Statement}
    (hlines : ∀ l t, HasLine content l → (readLine stage l).result = .ok t → p t)
    (h : (readScript stage content).result = .ok script) : ∀ t ∈ partsOf script, p t := by
  intro t ht
  obtain ⟨s, hs, ht⟩ := mem_partsOf.mp ht
  obtain ⟨sec, hsec, hread⟩ := exists_section_of_mem h hs
  exact forall_parts_of_readSection hchoice
    (fun k l t hl => hlines l t ⟨sec, hsec, k, hl⟩) hread t ht

end Parts

theorem Statement.AsksFor.mono {plays plays' : ActorId → String → Prop}
    {stores stores' : VariableId → Bool → Prop} {s : Statement} (h : s.AsksFor plays stores)
    (hplays : ∀ actor animation, plays actor animation → plays' actor animation)
    (hstores : ∀ id value, stores id value → stores' id value) : s.AsksFor plays' stores' := by
  cases s with
  | dialogue speech => trivial
  | animation cues => exact fun cue hcue => hplays _ _ (h cue hcue)
  | store assignment =>
    obtain ⟨target, value⟩ := assignment
    cases target with
    | contextVariable name id => exact hstores id value h
    | parameter owner name => trivial
  | choice asker branches origin => trivial

/-- Whatever an accepted script asks for, at any depth, is what a line of its text asks for. -/
theorem asksFor_of_readScript {content : String} {script : List Statement}
    (h : (readScript stage content).result = .ok script) :
    ∀ t ∈ partsOf script, t.AsksFor
      (fun actor animation => ∃ l, HasLine content l ∧ l.Cues stage actor animation)
      (fun id value => ∃ l, HasLine content l ∧ l.Stores stage id value) := by
  refine forall_parts_of_readScript (fun _ _ _ => trivial) (fun l t hline hread => ?_) h
  exact (asksFor_of_readLine hread).mono (fun _ _ hcues => ⟨l, hline, hcues⟩)
    fun _ _ hstores => ⟨l, hline, hstores⟩

/-- Every animation statement of an accepted script has a cue. -/
theorem cues_ne_nil_of_readScript {content : String} {script : List Statement}
    (h : (readScript stage content).result = .ok script) :
    ∀ cues, .animation cues ∈ partsOf script → cues ≠ [] := by
  have hall := forall_parts_of_readScript (p := fun t => ∀ cues, t = .animation cues → cues ≠ [])
    (fun _ _ _ _ heq => absurd heq (by simp))
    (fun l t _ hread cues heq => cues_ne_nil_of_readLine (heq ▸ hread)) h
  exact fun cues hcues => hall _ hcues cues rfl

end Promptbook.Script
