import Mathlib.Data.List.Basic
import Promptbook.Proofs.Script.Printing

set_option autoImplicit false

/-!
# The lines of a block

How the body of a block is found and cut into branches, said of the lines themselves: a block ends
at its first terminator, indented lines go to the label above them, and labels that are pairwise
distinct are the branches as they stand.
-/

namespace Promptbook.Script

/-! ## Indentation -/

/-- The line one level further in. -/
def ScriptLine.indented (l : ScriptLine) : ScriptLine := ⟨indent l.text, l.origin⟩

@[simp] theorem toList_indent (t : String) : (indent t).toList = ' ' :: t.toList := by
  simp [indent, String.toList_append]

theorem ScriptLine.isIndented_indented (l : ScriptLine) : l.indented.isIndented = true := by
  simp [isIndented, first?, indented]

theorem ScriptLine.outdented_indented (l : ScriptLine) : l.indented.outdented = l := by
  simp [outdented, indented]

theorem ScriptLine.indented_outdented {l : ScriptLine} (h : l.isIndented = true) :
    l.outdented.indented = l := by
  have hfirst : l.text.toList.head? = some ' ' := by simpa [isIndented, first?] using h
  obtain ⟨cs, hcs⟩ : ∃ cs, l.text.toList = ' ' :: cs := by
    cases hl : l.text.toList with
    | nil => simp [hl] at hfirst
    | cons c cs => exact ⟨cs, by simpa [hl] using hfirst⟩
  have htext : indent (String.ofList l.text.toList.tail) = l.text := by
    apply String.toList_inj.mp
    simp [hcs]
  exact congrArg (fun t => (⟨t, l.origin⟩ : ScriptLine)) htext

/-! ## Bodies -/

/-- A block ends at its first terminator. -/
theorem takeBlock_append_cons {body : List ScriptLine} {last : ScriptLine}
    (hbody : ∀ l ∈ body, l.text ≠ terminator) (hlast : last.text = terminator)
    (after : List ScriptLine) : takeBlock (body ++ last :: after) = some (body, after) := by
  induction body with
  | nil => simp [takeBlock, hlast]
  | cons l body ih =>
    rw [List.cons_append, takeBlock, if_neg (hbody l (by simp)),
      ih fun m hm => hbody m (List.mem_cons_of_mem _ hm)]
    rfl

theorem eq_append_of_takeBlock {lines body after : List ScriptLine}
    (h : takeBlock lines = some (body, after)) :
    ∃ last : ScriptLine, last.text = terminator ∧ lines = body ++ last :: after ∧
      ∀ l ∈ body, l.text ≠ terminator := by
  induction lines generalizing body with
  | nil => simp [takeBlock] at h
  | cons l rest ih =>
    rw [takeBlock] at h
    split at h
    · next hl =>
      simp only [Option.some.injEq, Prod.mk.injEq] at h
      obtain ⟨rfl, rfl⟩ := h
      exact ⟨l, hl, rfl, by simp⟩
    · next hl =>
      obtain ⟨⟨b, a⟩, hb, he⟩ := Option.map_eq_some_iff.mp h
      simp only [Prod.mk.injEq] at he
      obtain ⟨rfl, rfl⟩ := he
      obtain ⟨last, hlast, rfl, hbody⟩ := ih hb
      refine ⟨last, hlast, rfl, ?_⟩
      intro m hm
      rcases List.mem_cons.mp hm with rfl | hm
      · exact hl
      · exact hbody m hm

/-! ## Runs -/

theorem runsOf_cons_label {l : ScriptLine} (h : l.isIndented = false) (rest : List ScriptLine) :
    runsOf (l :: rest) = ([], (l, (runsOf rest).1) :: (runsOf rest).2) := by
  simp [runsOf, h]

/-- Indented lines are content of what comes before them. -/
theorem runsOf_indented_append {content : List ScriptLine}
    (h : ∀ l ∈ content, l.isEmpty = false) (rest : List ScriptLine) :
    runsOf (content.map ScriptLine.indented ++ rest) =
      (content ++ (runsOf rest).1, (runsOf rest).2) := by
  induction content with
  | nil => rfl
  | cons l content ih =>
    have hl : l.isEmpty = false := h l (by simp)
    rw [List.map_cons, List.cons_append, runsOf, ih fun m hm => h m (List.mem_cons_of_mem _ hm)]
    simp [ScriptLine.isIndented_indented, ScriptLine.outdented_indented, hl]

/-! ## Distinct labels -/

theorem repeatedLabels_eq_nil_iff {seen : List String} {runs : List Run} :
    repeatedLabels seen runs = [] ↔
      (runs.map (·.1.text)).Nodup ∧ ∀ r ∈ runs, r.1.text ∉ seen := by
  induction runs generalizing seen with
  | nil => simp [repeatedLabels]
  | cons r runs ih =>
    by_cases h : r.1.text ∈ seen
    · simp [repeatedLabels, h]
    · have hcons : repeatedLabels seen (r :: runs) = repeatedLabels (r.1.text :: seen) runs := by
        simp [repeatedLabels, h]
      rw [hcons, ih]
      simp only [List.map_cons, List.nodup_cons, List.mem_map, List.mem_cons, not_or, not_exists,
        not_and]
      constructor
      · rintro ⟨hnodup, hseen⟩
        refine ⟨⟨fun x hx => (hseen x hx).1, hnodup⟩, ?_⟩
        rintro x (rfl | hx)
        · exact h
        · exact (hseen x hx).2
      · rintro ⟨⟨hne, hnodup⟩, hseen⟩
        exact ⟨hnodup, fun x hx => ⟨hne x hx, hseen x (.inr hx)⟩⟩

theorem freshLabels_of_nodup {seen : List String} {runs : List Run}
    (h : (runs.map (·.1.text)).Nodup) (hseen : ∀ r ∈ runs, r.1.text ∉ seen) :
    freshLabels seen runs = runs.map (·.1) := by
  induction runs generalizing seen with
  | nil => rfl
  | cons r runs ih =>
    have hr : r.1.text ∉ seen := hseen r (by simp)
    have hcons : freshLabels seen (r :: runs) = r.1 :: freshLabels (r.1.text :: seen) runs := by
      simp [freshLabels, hr]
    rw [List.map_cons, List.nodup_cons] at h
    rw [hcons, List.map_cons, ih h.2]
    intro x hx hmem
    rcases List.mem_cons.mp hmem with heq | hmem
    · exact h.1 (List.mem_map.mpr ⟨x, hx, heq⟩)
    · exact hseen x (List.mem_cons_of_mem _ hx) hmem

theorem lastContent_of_nodup {runs : List Run} (h : (runs.map (·.1.text)).Nodup) {r : Run}
    (hr : r ∈ runs) : lastContent r.1.text runs = r.2 := by
  induction runs with
  | nil => simp at hr
  | cons x runs ih =>
    obtain ⟨l, content⟩ := x
    rw [List.map_cons, List.nodup_cons] at h
    rcases List.mem_cons.mp hr with rfl | hr
    · have hall : (runs.all fun r => r.1.text ≠ l.text) = true := by
        rw [List.all_eq_true]
        intro x hx
        exact decide_eq_true fun heq => h.1 (List.mem_map.mpr ⟨x, hx, heq⟩)
      rw [lastContent]
      exact if_pos (by rw [hall, decide_eq_true rfl, Bool.and_self])
    · have hne : l.text ≠ r.1.text := fun heq => h.1 (List.mem_map.mpr ⟨r, hr, heq.symm⟩)
      rw [lastContent]
      simpa [hne] using ih h.2 hr

/-- Distinct labels are the branches, each with its own content. -/
theorem branchesOf_of_nodup {runs : List Run} (h : (runs.map (·.1.text)).Nodup) :
    branchesOf runs = runs := by
  rw [branchesOf, freshLabels_of_nodup h (by simp), List.map_map]
  conv_rhs => rw [← List.map_id runs]
  apply List.map_congr_left
  intro r hr
  simp only [Function.comp_apply, lastContent_of_nodup h hr, id_eq]

end Promptbook.Script
