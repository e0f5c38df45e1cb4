import Promptbook.Proofs.Script.Relocation
import Promptbook.Proofs.Text.Cutting

set_option autoImplicit false

/-!
# Texts one after the other

A text is closed if no choice block is left open at its end.  What is written below a closed text
does not change how the text is read, whatever is wrong with it: the reading of both together is the
reading of the first followed by that of the second, in which every origin is shifted by the number
of lines of the first.
-/

namespace Promptbook.Script

/-! ## Closed texts -/

/-- Whether a block is open after those lines; `inside` tells whether one is open before them.
Outside of blocks a choice opens one, and in a block only its terminator is of interest. -/
def leavesOpen : Bool → List ScriptLine → Bool
  | inside, [] => inside
  | true, l :: rest => leavesOpen (l.text ≠ terminator) rest
  | false, l :: rest => leavesOpen (l.kind = .choice) rest

/-- Whether no block of a text is left open. -/
def isClosed (content : String) : Bool := !leavesOpen false (scriptLines (withoutReturns content))

/-- An open block is closed by the first terminator. -/
theorem leavesOpen_true (lines : List ScriptLine) :
    leavesOpen true lines =
      match takeBlock lines with
      | none => true
      | some (_, after) => leavesOpen false after := by
  induction lines with
  | nil => rfl
  | cons l rest ih =>
    rw [leavesOpen, takeBlock]
    by_cases h : l.text = terminator
    · simp [h]
    · rw [if_neg h, decide_eq_true h, ih]
      cases takeBlock rest <;> rfl

theorem takeBlock_append {lines body after : List ScriptLine}
    (h : takeBlock lines = some (body, after)) (more : List ScriptLine) :
    takeBlock (lines ++ more) = some (body, after ++ more) := by
  induction lines generalizing body with
  | nil => simp [takeBlock] at h
  | cons l rest ih =>
    rw [List.cons_append, takeBlock]
    rw [takeBlock] at h
    split at h
    · next hl =>
      simp only [Option.some.injEq, Prod.mk.injEq] at h
      obtain ⟨rfl, rfl⟩ := h
      rw [if_pos hl]
    · next hl =>
      obtain ⟨⟨b, a⟩, hb, he⟩ := Option.map_eq_some_iff.mp h
      simp only [Prod.mk.injEq] at he
      obtain ⟨rfl, rfl⟩ := he
      rw [if_neg hl, ih hb]
      rfl

/-- The sections of closed lines stay the same whatever is written below them. -/
theorem outline_append {lines : List ScriptLine} (h : leavesOpen false lines = false)
    (more : List ScriptLine) : outline (lines ++ more) = outline lines ++ outline more := by
  -- a block is longer than what comes after it, so the induction is on the number of lines
  induction hn : lines.length using Nat.strongRecOn generalizing lines with
  | _ n ih =>
    cases lines with
    | nil => rfl
    | cons l rest =>
      rw [List.cons_append, outline_cons, outline_cons]
      rw [leavesOpen] at h
      by_cases hl : l.kind = .choice
      · rw [if_pos hl, if_pos hl]
        rw [decide_eq_true hl, leavesOpen_true] at h
        cases hb : takeBlock rest with
        | none => simp [hb] at h
        | some p =>
          obtain ⟨body, after⟩ := p
          rw [hb] at h
          have hlen := length_of_takeBlock hb
          have hafter : outline (after ++ more) = outline after ++ outline more :=
            ih after.length (by rw [← hn, List.length_cons]; omega) h rfl
          simp only [takeBlock_append hb more, hafter, List.cons_append]
      · rw [if_neg hl, if_neg hl, List.cons_append]
        rw [decide_eq_false hl] at h
        rw [ih rest.length (by rw [← hn, List.length_cons]; omega) h rfl]

/-! ## Readings one after the other -/

namespace Reading

variable {α : Type}

/-- Two readings as one: both values, or the errors of both; the notices of both in either case. -/
def followedBy (r t : Reading (List α)) : Reading (List α) :=
  ⟨r.notices ++ t.notices,
    match r.result, t.result with
    | .ok as, .ok bs => .ok (as ++ bs)
    | _, _ => .error (r.errors ++ t.errors)⟩

theorem errors_collect (rs : List (Reading α)) : (collect rs).errors = rs.flatMap errors := by
  by_cases h : (rs.flatMap errors).isEmpty
  · have hnil : rs.flatMap errors = [] := List.isEmpty_iff.mp h
    simp [collect, errors, hnil]
  · simp only [collect, if_neg h]
    rfl

/-- Collecting all parts is collecting the first ones, then the others. -/
theorem collect_append (rs ts : List (Reading α)) :
    collect (rs ++ ts) = (collect rs).followedBy (collect ts) := by
  have herrors : (rs ++ ts).flatMap errors = rs.flatMap errors ++ ts.flatMap errors := by simp
  unfold followedBy
  rw [errors_collect, errors_collect]
  simp only [collect, herrors, List.flatMap_append, List.filterMap_append]
  by_cases hr : rs.flatMap errors = [] <;> by_cases ht : ts.flatMap errors = [] <;>
    simp [hr, ht]

theorem collect_cons_of_ok {r : Reading α} {rs : List (Reading α)} {ns ms : List Notice} {a : α}
    {as : List α} (hr : r = ⟨ns, .ok a⟩) (hrs : collect rs = ⟨ms, .ok as⟩) :
    collect (r :: rs) = ⟨ns ++ ms, .ok (a :: as)⟩ := by
  have hsingle : collect [r] = ⟨ns, .ok [a]⟩ := by
    rw [hr]
    simp [collect, errors, value?]
  rw [← List.singleton_append, collect_append, hsingle, hrs]
  rfl

end Reading

theorem readLines_append {lines : List ScriptLine} (h : leavesOpen false lines = false)
    (stage : Stage) (more : List ScriptLine) :
    readLines stage (lines ++ more) =
      (readLines stage lines).followedBy (readLines stage more) := by
  simp only [readLines, outline_append h more, readSections_eq_map, List.map_append,
    Reading.collect_append]

/-! ## Shifted lines -/

/-- The origin that many lines further down. -/
def Origin.shift (k : Nat) (o : Origin) : Origin := .ofIndex (o.lineIndex.toNat + k)

theorem Origin.shift_ofIndex (k n : Nat) : (ofIndex n).shift k = ofIndex (n + k) := by
  simp only [shift, ofIndex, Origin.mk.injEq]
  apply UInt32.toNat_inj.mp
  simp only [UInt32.toNat_ofNat']
  omega

/-- A shift is exact as long as 32 bits hold the index. -/
theorem Origin.toNat_shift {k : Nat} {o : Origin} (h : o.lineIndex.toNat + k < UInt32.size) :
    (o.shift k).lineIndex.toNat = o.lineIndex.toNat + k := by
  rw [shift, ofIndex, UInt32.toNat_ofNat', Nat.mod_eq_of_lt h]

theorem numbered_add (k start : Nat) (ts : List String) :
    numbered (start + k) ts =
      (numbered start ts).map (ScriptLine.relocate (Origin.shift k)) := by
  induction ts generalizing start with
  | nil => rfl
  | cons t ts ih =>
    rw [numbered, numbered, Nat.add_right_comm, ih (start + 1)]
    split
    · rfl
    · rw [List.map_cons, ScriptLine.relocate, Origin.shift_ofIndex]

/-- The lines of a text are numbered below their count. -/
theorem lineIndex_lt_of_mem_numbered {start : Nat} {ts : List String} {l : ScriptLine}
    (h : l ∈ numbered start ts) (hlen : start + ts.length ≤ UInt32.size) :
    l.origin.lineIndex.toNat < start + ts.length := by
  induction ts generalizing start with
  | nil => simp [numbered] at h
  | cons t ts ih =>
    simp only [List.length_cons] at hlen ⊢
    have htail (hl : l ∈ numbered (start + 1) ts) :
        l.origin.lineIndex.toNat < start + (ts.length + 1) := by
      have := ih hl (by omega)
      omega
    rw [numbered] at h
    split at h
    · exact htail h
    · rcases List.mem_cons.mp h with rfl | h
      · simp only [Origin.ofIndex, UInt32.toNat_ofNat']
        omega
      · exact htail h

/-! ## Texts -/

/-- The number of lines of a text, empty ones included. -/
def lineCount (content : String) : Nat := (rawLines (withoutReturns content)).length

theorem rawLines_append_line_feed (a b : String) :
    rawLines (withoutReturns (a ++ "\n" ++ b)) =
      rawLines (withoutReturns a) ++ rawLines (withoutReturns b) := by
  have hchars : (a ++ "\n" ++ b).toList.filter (· ≠ '\r') =
      a.toList.filter (· ≠ '\r') ++ '\n' :: b.toList.filter (· ≠ '\r') := by
    simp [String.toList_append]
  simp only [rawLines, withoutReturns, String.toList_ofList]
  rw [hchars, Text.pieces_append_cons, List.map_append]

theorem scriptLines_append_line_feed (a b : String) :
    scriptLines (withoutReturns (a ++ "\n" ++ b)) =
      scriptLines (withoutReturns a) ++
        (scriptLines (withoutReturns b)).map
          (ScriptLine.relocate (Origin.shift (lineCount a))) := by
  have hbelow := numbered_add (lineCount a) 0 (rawLines (withoutReturns b))
  rw [Nat.zero_add] at hbelow
  rw [scriptLines, rawLines_append_line_feed, numbered_append, Nat.zero_add]
  rw [scriptLines, scriptLines, ← hbelow, lineCount]

/-- The reading of a text that stands `k` lines further down. -/
def Reading.shift (k : Nat) (r : Reading (List Statement)) : Reading (List Statement) :=
  r.relocate (Origin.shift k) (relocateAll (Origin.shift k))

/-- The origins of a text with at most 2³² lines are below the number of its lines. -/
theorem lineIndex_lt_of_mem_origins {content : String} (hlen : lineCount content ≤ UInt32.size)
    (stage : Stage) :
    ∀ o ∈ (readScript stage content).origins, o.lineIndex.toNat < lineCount content := by
  have hpos : 0 < lineCount content := by
    simpa [lineCount, rawLines, List.length_pos_iff] using Text.pieces_ne_nil _ _
  refine origins_readLines stage (o := ⟨0⟩) hpos fun l hl => ?_
  have hlt := lineIndex_lt_of_mem_numbered hl (by simpa [lineCount] using hlen)
  simpa [lineCount] using hlt

/-- A closed text and a text below it read as the first, then the second at its place.  Below 2³²
lines the place of everything in the second is exactly its place there, further down by the lines of
the first. -/
theorem readScript_append_line_feed {a : String} (h : isClosed a = true) (b : String)
    (stage : Stage) :
    readScript stage (a ++ "\n" ++ b) =
        (readScript stage a).followedBy ((readScript stage b).shift (lineCount a)) ∧
      (lineCount a + lineCount b ≤ UInt32.size →
        ∀ o ∈ (readScript stage b).origins,
          (o.shift (lineCount a)).lineIndex.toNat = o.lineIndex.toNat + lineCount a) := by
  constructor
  · have hopen : leavesOpen false (scriptLines (withoutReturns a)) = false := by
      simpa [isClosed] using h
    rw [readScript, scriptLines_append_line_feed, readLines_append hopen, readLines_map]
    rfl
  · intro hlen o ho
    have hlt := lineIndex_lt_of_mem_origins (by omega) stage o ho
    exact Origin.toNat_shift (by omega)

/-- Below a block with misplaced content, which is broken but closed. -/
theorem readScript_below_misplaced_content :
    isClosed "?Wolf\n Hi\nFox: Hi!\nEND\n" = true ∧
      readScript default ("?Wolf\n Hi\nFox: Hi!\nEND\n" ++ "\n" ++ "?Owl\nBye") =
          (readScript default "?Wolf\n Hi\nFox: Hi!\nEND\n").followedBy
            ((readScript default "?Owl\nBye").shift (lineCount "?Wolf\n Hi\nFox: Hi!\nEND\n")) ∧
        (lineCount "?Wolf\n Hi\nFox: Hi!\nEND\n" + lineCount "?Owl\nBye" ≤ UInt32.size →
          ∀ o ∈ (readScript default "?Owl\nBye").origins,
            (o.shift (lineCount "?Wolf\n Hi\nFox: Hi!\nEND\n")).lineIndex.toNat =
              o.lineIndex.toNat + lineCount "?Wolf\n Hi\nFox: Hi!\nEND\n") := by
  have hclosed : isClosed "?Wolf\n Hi\nFox: Hi!\nEND\n" = true := by decide
  exact ⟨hclosed, readScript_append_line_feed hclosed "?Owl\nBye" default⟩

end Promptbook.Script
