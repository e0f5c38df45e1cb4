import Promptbook.Proofs.Script.Branches
import Promptbook.Proofs.Text.Cutting

set_option autoImplicit false

/-!
# The pieces of an animation line

An animation line is cut at every comma with a blank behind it, and every piece is judged by itself:
either it is a cue, or there is one thing wrong with it.  `readLine_animation_eq` says that the line
is read as its cues if all pieces are, and rejected with one error for each of the others if not.
-/

namespace Promptbook.Script

variable {stage : Stage}

/-! ## Verdicts -/

/-- The piece names an actor, before the first colon with a blank behind it, and an animation, with
blanks around it. -/
def CallsFor (piece : List Char) (name animation : String) : Prop :=
  ∃ rest, piece = name.toList ++ [':', ' '] ++ rest ∧ Text.Bounded [':', ' '] name.toList ∧
    animation = String.ofList (Text.trimmed rest)

/-- What a piece of an animation line comes to on a stage. -/
inductive Verdict (stage : Stage) (piece : List Char) : Except LineFault Cue → Prop where
  | malformed (h : ¬ [':', ' '] <:+: piece) : Verdict stage piece (.error (.malformedLine cueForm))
  | unknownActor {name animation : String} (h : CallsFor piece name animation)
      (hactor : stage.findActor name = none) : Verdict stage piece (.error (.unknownActor name))
  | unknownAnimation {name animation : String} {actor : ActorId}
      (h : CallsFor piece name animation) (hactor : stage.findActor name = some actor)
      (hanimation : stage.hasAnimation actor animation = false) :
      Verdict stage piece (.error (.unknownAnimation name animation))
  | cue {name animation : String} {actor : ActorId} (h : CallsFor piece name animation)
      (hactor : stage.findActor name = some actor)
      (hanimation : stage.hasAnimation actor animation = true) :
      Verdict stage piece (.ok ⟨⟨name, actor⟩, animation⟩)

theorem callsFor_of_cutAt {piece name rest : List Char}
    (h : Text.cutAt [':', ' '] piece = some (name, rest)) :
    CallsFor piece (String.ofList name) (String.ofList (Text.trimmed rest)) := by
  refine ⟨rest, ?_, ?_, rfl⟩
  · rw [String.toList_ofList, Text.append_of_cutAt h]
  · rw [String.toList_ofList]
    exact Text.bounded_of_cutAt (List.cons_ne_nil _ _) h

/-- A piece is read as its verdict says, whose fault is told of the line. -/
theorem readCue_eq_verdict (stage : Stage) (l : ScriptLine) (piece : List Char) :
    ∃ v, Verdict stage piece v ∧ readCue stage l piece = v.mapError l.error := by
  unfold readCue
  split
  · next hcut =>
    exact ⟨_, .malformed (Text.absent_of_cutAt (List.cons_ne_nil _ _) hcut), rfl⟩
  · next name rest hcut =>
    have hcalls := callsFor_of_cutAt hcut
    rw [findActor]
    dsimp only
    cases hactor : stage.findActor (String.ofList name) with
    | none => exact ⟨_, .unknownActor hcalls hactor, rfl⟩
    | some actor =>
      dsimp only
      split
      · next hanimation => exact ⟨_, .cue hcalls hactor hanimation, rfl⟩
      · next hanimation =>
        exact ⟨_, .unknownAnimation hcalls hactor (by simpa using hanimation), rfl⟩

/-! ## Lines -/

/-- What a verdict finds wrong, if it does. -/
def fault? {α : Type} : Except LineFault α → Option LineFault
  | .ok _ => none
  | .error fault => some fault

/-- What was read of a piece, as it is told of the line. -/
def toldOf (l : ScriptLine) (v : Except LineFault Cue) : Reading Cue :=
  .ofExcept (v.mapError l.error)

theorem exists_verdicts (stage : Stage) (l : ScriptLine) (pieces : List (List Char)) :
    ∃ verdicts, List.Forall₂ (Verdict stage) pieces verdicts ∧
      (pieces.map fun piece => Reading.ofExcept (readCue stage l piece)) =
        verdicts.map (toldOf l) := by
  induction pieces with
  | nil => exact ⟨[], .nil, rfl⟩
  | cons piece rest ih =>
    obtain ⟨v, hv, hread⟩ := readCue_eq_verdict stage l piece
    obtain ⟨verdicts, hverdicts, hreads⟩ := ih
    refine ⟨v :: verdicts, .cons hv hverdicts, ?_⟩
    rw [List.map_cons, List.map_cons, hread, hreads]
    rfl

/-- One error is told for each verdict that finds something wrong, in their order. -/
theorem errors_collect_toldOf (l : ScriptLine) (verdicts : List (Except LineFault Cue)) :
    (Reading.collect (verdicts.map (toldOf l))).errors =
      (verdicts.filterMap fault?).map l.error := by
  rw [Reading.errors_collect, List.flatMap_map]
  induction verdicts with
  | nil => rfl
  | cons v rest ih =>
    rw [List.flatMap_cons, ih]
    cases v <;> rfl

theorem verdicts_of_collect {l : ScriptLine} {verdicts : List (Except LineFault Cue)}
    {cues : List Cue} (h : (Reading.collect (verdicts.map (toldOf l))).result = .ok cues) :
    verdicts = cues.map .ok := by
  have hread := Reading.forall₂_of_collect (fun _ => Reading.explained_ofExcept _) h
  have hsame : List.Forall₂ (fun v cue => v = .ok cue) verdicts cues := by
    refine hread.imp fun v cue hv => ?_
    cases v with
    | error fault => simp [Reading.ofExcept, Except.mapError] at hv
    | ok read => simpa [toldOf, Reading.ofExcept, Except.mapError] using hv
  rw [← List.forall₂_map_right_iff, List.forall₂_eq_eq_eq] at hsame
  exact hsame

/-- All cues are read, in their order, if and only if no verdict finds anything wrong. -/
theorem result_collect_toldOf {l : ScriptLine} {verdicts : List (Except LineFault Cue)}
    {cues : List Cue} :
    (Reading.collect (verdicts.map (toldOf l))).result = .ok cues ↔ verdicts = cues.map .ok := by
  refine ⟨verdicts_of_collect, ?_⟩
  rintro rfl
  have hfine : (Reading.collect ((cues.map .ok).map (toldOf l))).errors = [] := by
    rw [errors_collect_toldOf, List.filterMap_map]
    simp [fault?, Function.comp_def]
  obtain ⟨read, hread⟩ := (Reading.explained_collect _).result_eq_ok hfine
  have hsame : cues = read :=
    List.map_injective_iff.mpr (fun _ _ => Except.ok.inj) (verdicts_of_collect hread)
  rw [hread, hsame]

/-- An animation line is read as what its pieces come to: one error for each of those with something
wrong, and the cues of all of them if there is none. -/
theorem readLine_animation_eq (stage : Stage) {l : ScriptLine} (hkind : l.kind = .animation) :
    ∃ verdicts, List.Forall₂ (Verdict stage) (cuePieces l) verdicts ∧
      (readLine stage l).errors = (verdicts.filterMap fault?).map l.error ∧
      ∀ s, (readLine stage l).result = .ok s ↔
        ∃ cues, s = .animation cues ∧ verdicts = cues.map .ok := by
  obtain ⟨verdicts, hverdicts, hread⟩ := exists_verdicts stage l (cuePieces l)
  have hline : readLine stage l = (Reading.collect (verdicts.map (toldOf l))).map .animation := by
    rw [readLine, hkind, readCues, hread]
  refine ⟨verdicts, hverdicts, ?_, fun s => ?_⟩
  · rw [hline, Reading.errors_map, errors_collect_toldOf]
  · rw [hline]
    constructor
    · intro h
      obtain ⟨cues, hcues, rfl⟩ := Reading.result_map h
      exact ⟨cues, rfl, result_collect_toldOf.mp hcues⟩
    · rintro ⟨cues, rfl, hcues⟩
      rw [Reading.map, result_collect_toldOf.mpr hcues]

/-- The pieces of an animation line are the text behind its marker, cut at every comma with a blank
behind it. -/
theorem cuePieces_spec {l : ScriptLine} (hkind : l.kind = .animation) :
    cuePieces l ≠ [] ∧ l.text.toList = '!' :: Text.joined [',', ' '] (cuePieces l) ∧
      ∀ piece ∈ cuePieces l, ¬ [',', ' '] <:+: piece := by
  refine ⟨Text.pieces_ne_nil _ _, ?_, fun piece hpiece => ?_⟩
  · have htext := ScriptLine.toList_of_kind hkind rfl
    rw [cuePieces, Text.joined_pieces (List.cons_ne_nil _ _), htext, withoutMarker, if_pos rfl]
  · exact Text.absent_of_mem_pieces (List.cons_ne_nil _ _) hpiece

end Promptbook.Script
