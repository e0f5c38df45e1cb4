import Mathlib.Data.List.Nodup
import Promptbook.Proofs.Script.LineOrder

set_option autoImplicit false

/-!
# Blank lines

Empty lines and carriage returns do not say anything: two texts with the same non-empty lines read
as the same script, or are broken in the same ways, and only the places differ at which all this
stands.

Lines that say the same are moved onto each other by a function on their places
(`exists_relocate_eq`), and reading does not look at places (`readLines_map`).
-/

namespace Promptbook.Script

/-! ## Non-empty lines -/

/-- The lines of a text on which something is written, without carriage returns, each with the index
that it has among all lines. -/
def nonemptyLines (content : String) : List (String × Nat) :=
  (rawLines (withoutReturns content)).zipIdx.filter fun x => !x.1.toList.isEmpty

/-- Numbered lines are those that are not empty, with their numbers. -/
theorem numbered_eq_map (start : Nat) (ts : List String) :
    numbered start ts =
      ((ts.zipIdx start).filter fun x => !x.1.toList.isEmpty).map fun x =>
        ⟨x.1, Origin.ofIndex x.2⟩ := by
  induction ts generalizing start with
  | nil => rfl
  | cons t ts ih =>
    rw [numbered, List.zipIdx_cons, ih]
    by_cases h : t.toList.isEmpty = true
    · simp [h]
    · simp [h]

theorem scriptLines_eq_map (content : String) :
    scriptLines (withoutReturns content) =
      (nonemptyLines content).map fun x => ⟨x.1, Origin.ofIndex x.2⟩ :=
  numbered_eq_map 0 _

/-- Non-empty lines stand where they are counted. -/
theorem lt_lineCount_of_mem_nonemptyLines {content : String} {x : String × Nat}
    (h : x ∈ nonemptyLines content) : x.2 < lineCount content := by
  have hmem := (List.mem_filter.mp h).1
  simpa [lineCount] using List.snd_lt_of_mem_zipIdx hmem

theorem Origin.toNat_ofIndex {n : Nat} (h : n < UInt32.size) :
    (Origin.ofIndex n).lineIndex.toNat = n := by
  rw [Origin.ofIndex, UInt32.toNat_ofNat', Nat.mod_eq_of_lt h]

/-- Below 2³² lines no two non-empty lines have the same origin. -/
theorem nodup_origins_scriptLines {content : String} (hlen : lineCount content < UInt32.size) :
    ((scriptLines (withoutReturns content)).map (·.origin)).Nodup := by
  refine List.Nodup.of_map Origin.lineIndex ?_
  rw [List.map_map]
  exact nodup_scriptLines hlen

/-! ## Lines that say the same -/

/-- Lines at different places are moved onto any others that say the same. -/
theorem exists_relocate_eq {lines others : List ScriptLine}
    (h : lines.map (·.text) = others.map (·.text)) (hplaces : (lines.map (·.origin)).Nodup) :
    ∃ f : Origin → Origin, lines.map (ScriptLine.relocate f) = others := by
  induction lines generalizing others with
  | nil =>
    exact ⟨id, (List.map_eq_nil_iff.mp h.symm).symm⟩
  | cons l lines ih =>
    cases others with
    | nil => simp at h
    | cons m others =>
      obtain ⟨htext, hrest⟩ := List.cons.inj h
      rw [List.map_cons, List.nodup_cons] at hplaces
      obtain ⟨hnew, hplaces⟩ := hplaces
      obtain ⟨f, rfl⟩ := ih hrest hplaces
      refine ⟨Function.update f l.origin m.origin, ?_⟩
      rw [List.map_cons]
      congr 1
      · have htext : l.text = m.text := htext
        rw [ScriptLine.relocate, Function.update_self, htext]
      · refine List.map_congr_left fun x hx => ?_
        have hne : x.origin ≠ l.origin := fun heq => hnew (heq ▸ List.mem_map_of_mem hx)
        simp only [ScriptLine.relocate, Function.update_of_ne hne]

/-- Whatever is read of some lines has the place of one of them. -/
theorem exists_line_of_mem_origins {stage : Stage} {lines : List ScriptLine} {o : Origin}
    (h : o ∈ (readLines stage lines).origins) : ∃ l ∈ lines, l.origin = o := by
  cases lines with
  | nil => exact absurd h (List.not_mem_nil)
  | cons l rest =>
    exact origins_readLines stage (p := fun o => ∃ m ∈ l :: rest, m.origin = o) (o := l.origin)
      ⟨l, by simp, rfl⟩ (fun m hm => ⟨m, hm, rfl⟩) o h

/-! ## Texts -/

/-- Two texts with the same non-empty lines are read alike: both are accepted as the same
statements, or both are rejected with the same errors in the same order, with the same warnings in
either case.  What stands at the `k`-th non-empty line in the reading of the first text stands at the
`k`-th non-empty line in that of the second. -/
theorem readScript_of_same_lines (stage : Stage) {a b : String}
    (ha : lineCount a < UInt32.size) (hb : lineCount b < UInt32.size)
    (h : (nonemptyLines a).map (·.1) = (nonemptyLines b).map (·.1)) :
    ∃ f : Origin → Origin,
      readScript stage b = (readScript stage a).relocate f (relocateAll f) ∧
      ∀ o ∈ (readScript stage a).origins, ∃ (k : Nat) (x y : String × Nat),
        (nonemptyLines a)[k]? = some x ∧ (nonemptyLines b)[k]? = some y ∧
        o.lineIndex.toNat = x.2 ∧ (f o).lineIndex.toNat = y.2 := by
  have htexts : (scriptLines (withoutReturns a)).map (·.text) =
      (scriptLines (withoutReturns b)).map (·.text) := by
    rw [scriptLines_eq_map, scriptLines_eq_map, List.map_map, List.map_map]
    exact h
  obtain ⟨f, hf⟩ := exists_relocate_eq htexts (nodup_origins_scriptLines ha)
  refine ⟨f, ?_, fun o ho => ?_⟩
  · rw [readScript, ← hf, readLines_map]
    rfl
  · obtain ⟨l, hl, rfl⟩ := exists_line_of_mem_origins ho
    obtain ⟨k, hk⟩ := List.mem_iff_getElem?.mp hl
    have hmoved : (scriptLines (withoutReturns b))[k]? = some (l.relocate f) := by
      rw [← hf, List.getElem?_map, hk]
      rfl
    rw [scriptLines_eq_map, List.getElem?_map, Option.map_eq_some_iff] at hk hmoved
    obtain ⟨x, hx, rfl⟩ := hk
    obtain ⟨y, hy, hline⟩ := hmoved
    have hx' := lt_lineCount_of_mem_nonemptyLines (List.mem_of_getElem? hx)
    have hy' := lt_lineCount_of_mem_nonemptyLines (List.mem_of_getElem? hy)
    refine ⟨k, x, y, hx, hy, Origin.toNat_ofIndex (hx'.trans ha), ?_⟩
    have horigin : Origin.ofIndex y.2 = f (.ofIndex x.2) := congrArg ScriptLine.origin hline
    rw [← horigin, Origin.toNat_ofIndex (hy'.trans hb)]

/-- A text with a warning and two errors inside of a choice. -/
def denseText : String := "?Bo\nYes\n Bo\nNo\n Bo: no\nYes\n Ann: yes\nEND\nBo: bye"

/-- The same lines with blank ones between them, also inside of the choice. -/
def looseText : String :=
  "\r\n?Bo\r\n\nYes\n\n\n Bo\nNo\r\n Bo: no\n\nYes\n\r Ann: yes\nEND\n\nBo: bye\n"

theorem readScript_of_same_lines_looseText :
    lineCount denseText < UInt32.size ∧ lineCount looseText < UInt32.size ∧
      (nonemptyLines denseText).map (·.1) = (nonemptyLines looseText).map (·.1) ∧
      ∃ f : Origin → Origin,
        readScript .bare looseText =
          (readScript .bare denseText).relocate f (relocateAll f) ∧
        ∀ o ∈ (readScript .bare denseText).origins, ∃ (k : Nat) (x y : String × Nat),
          (nonemptyLines denseText)[k]? = some x ∧ (nonemptyLines looseText)[k]? = some y ∧
          o.lineIndex.toNat = x.2 ∧ (f o).lineIndex.toNat = y.2 := by
  have hdense : lineCount denseText < UInt32.size := by decide +kernel
  have hloose : lineCount looseText < UInt32.size := by decide +kernel
  have hlines : (nonemptyLines denseText).map (·.1) = (nonemptyLines looseText).map (·.1) := by
    decide +kernel
  exact ⟨hdense, hloose, hlines, readScript_of_same_lines .bare hdense hloose hlines⟩

end Promptbook.Script
