import Promptbook.Performance
import Promptbook.Proofs.Script.Branches

set_option autoImplicit false

/-!
# The heads of statements

A head is a line at which a statement begins: a line that no choice block above it takes along.
Which lines are heads can be told by going through the lines once, with one flag (`headsFrom`), and
reading is reading every head (`readLines_eq_collect`).

No reading fails without an error (`Reading.Explained`), so a statement that could not be read
cannot be left out: an accepted script has a statement for each of its heads, and so has each branch
in it, whereas the errors of a head that was looked at, at any depth, are among those of the script
(`errors_infix_of_readAt`).
-/

namespace Promptbook.Script

variable {stage : Stage}

/-! ## Heads -/

/-- A line at which a statement begins, and the lines below it. -/
structure Head where
  line : ScriptLine
  below : List ScriptLine
  deriving DecidableEq

/-- The heads among those lines; `inside` tells whether a block is open before them.  A choice opens
a block, and in a block only its terminator is of interest. -/
def headsFrom : Bool → List ScriptLine → List Head
  | _, [] => []
  | true, l :: rest => headsFrom (l.text ≠ terminator) rest
  | false, l :: rest => ⟨l, rest⟩ :: headsFrom (l.kind = .choice) rest

/-- The heads of a script. -/
def heads (lines : List ScriptLine) : List Head := headsFrom false lines

/-- The lines between a header and the next terminator. -/
def Head.body (h : Head) : List ScriptLine := h.below.takeWhile fun l => l.text ≠ terminator

/-- The head is one of a choice block that is closed and begins with a label. -/
def Head.Branches (h : Head) : Prop :=
  h.line.kind = .choice ∧ (∃ l ∈ h.below, l.text = terminator) ∧
    ∃ first rest, h.body = first :: rest ∧ first.isIndented = false

/-- The statement that begins at a head. -/
def readHead (stage : Stage) (h : Head) : Reading Statement :=
  if h.line.kind = .choice then (readBlock stage h.line h.below).1 else readLine stage h.line

/-- The first line is a head. -/
theorem heads_eq_nil {lines : List ScriptLine} (h : heads lines = []) : lines = [] := by
  cases lines with
  | nil => rfl
  | cons l rest => exact absurd h (List.cons_ne_nil _ _)

/-- In an open block no statement begins before the first terminator. -/
theorem headsFrom_true (lines : List ScriptLine) :
    headsFrom true lines =
      match takeBlock lines with
      | none => []
      | some (_, after) => heads after := by
  induction lines with
  | nil => rfl
  | cons l rest ih =>
    rw [headsFrom, takeBlock]
    by_cases h : l.text = terminator
    · simp [h, heads]
    · rw [if_neg h, decide_eq_true h, ih]
      cases takeBlock rest <;> rfl

/-- What the sections of an outline are read as is what its heads are read as. -/
theorem map_readSection_outline (lines : List ScriptLine) :
    (outline lines).map (readSection stage) = (heads lines).map (readHead stage) := by
  -- a block is longer than what comes after it, so the induction is on the number of lines
  induction hn : lines.length using Nat.strongRecOn generalizing lines with
  | _ n ih =>
    cases lines with
    | nil => rfl
    | cons l rest =>
      rw [List.length_cons] at hn
      rw [outline_cons, heads, headsFrom, List.map_cons, readHead]
      by_cases hl : l.kind = .choice
      · rw [if_pos hl, if_pos hl, decide_eq_true hl, headsFrom_true, readBlock]
        cases hb : takeBlock rest with
        | none => rfl
        | some parts =>
          obtain ⟨body, after⟩ := parts
          have hlen := length_of_takeBlock hb
          exact congrArg (_ :: ·) (ih after.length (by omega) after rfl)
      · rw [if_neg hl, if_neg hl, decide_eq_false hl, List.map_cons, readSection, ← heads,
          ih rest.length (by omega) rest rfl]

/-- Lines are read head by head. -/
theorem readLines_eq_collect (lines : List ScriptLine) :
    readLines stage lines = Reading.collect ((heads lines).map (readHead stage)) := by
  rw [readLines, readSections_eq_map, map_readSection_outline]

theorem errors_readLines (lines : List ScriptLine) :
    (readLines stage lines).errors = (heads lines).flatMap fun h => (readHead stage h).errors := by
  rw [readLines_eq_collect, Reading.errors_collect, List.flatMap_map]

/-- A head that is not read tells why. -/
theorem explained_readHead (h : Head) : (readHead stage h).Explained := by
  rw [readHead]
  split
  · rw [readBlock]
    split <;> exact explained_readSection _
  · exact explained_readLine h.line

/-! ## Kinds -/

theorem kind_of_readLine {l : ScriptLine} {s : Statement} (hkind : l.kind ≠ .choice)
    (h : (readLine stage l).result = .ok s) : s.kind = l.kind := by
  unfold readLine at h
  split at h
  · next hl =>
    obtain ⟨cues, -, rfl⟩ := Reading.result_map h
    exact hl.symm
  · next hl =>
    obtain ⟨assignment, -, rfl⟩ := Reading.result_map h
    exact hl.symm
  · next hanimation hstore =>
    obtain ⟨speech, -, rfl⟩ := Reading.result_map h
    cases hl : l.kind with
    | dialogue => rfl
    | animation => exact absurd hl hanimation
    | choice => exact absurd hl hkind
    | store => exact absurd hl hstore

/-- What is read of a section that begins a choice is a choice. -/
theorem kind_of_blockSection {header : ScriptLine} {body : List ScriptLine} {s : Statement}
    (h : (readSection stage (blockSection outline header body)).result = .ok s) :
    s.kind = .choice := by
  cases body with
  | nil => exact absurd h result_readFlawed
  | cons l rest =>
    rw [blockSection] at h
    split at h
    · exact absurd h result_readFlawed
    · obtain ⟨asker, branches, -, -, rfl⟩ := result_readChoice h
      rfl

/-- A statement is of the kind that its head begins. -/
theorem kind_of_readHead {h : Head} {s : Statement} (hread : (readHead stage h).result = .ok s) :
    s.kind = h.line.kind := by
  by_cases hkind : h.line.kind = .choice
  · rw [readHead, if_pos hkind, readBlock] at hread
    rw [hkind]
    split at hread
    · exact absurd hread result_readFlawed
    · exact kind_of_blockSection hread
  · rw [readHead, if_neg hkind] at hread
    exact kind_of_readLine hkind hread

/-! ## Branches -/

theorem takeBlock_of_closed {lines : List ScriptLine} (h : ∃ l ∈ lines, l.text = terminator) :
    ∃ after, takeBlock lines = some (lines.takeWhile fun l => l.text ≠ terminator, after) := by
  induction lines with
  | nil => simp at h
  | cons l rest ih =>
    rw [takeBlock]
    by_cases hl : l.text = terminator
    · exact ⟨rest, by simp [hl]⟩
    · obtain ⟨m, hm, hmarked⟩ := h
      have hrest : m ∈ rest := (List.mem_cons.mp hm).resolve_left fun heq => hl (heq ▸ hmarked)
      obtain ⟨after, hafter⟩ := ih ⟨m, hrest, hmarked⟩
      exact ⟨after, by simp [hl, hafter]⟩

/-- A block that is closed and begins with a label is read label by label. -/
theorem readsBranches_readHead {h : Head} (hbranches : h.Branches) :
    ReadsBranches stage h.line h.body (readHead stage h) := by
  obtain ⟨hkind, hclosed, first, rest, hbody, hlabel⟩ := hbranches
  obtain ⟨after, hb⟩ := takeBlock_of_closed hclosed
  rw [← Head.body, hbody] at hb
  rw [readHead, if_pos hkind, readBlock, hb, hbody]
  dsimp only
  rw [readSection_blockSection h.line hlabel rest]
  exact readsBranches_readChoice stage h.line (first :: rest)

/-- Only such a block is read as a choice. -/
theorem branches_of_readHead {h : Head} {s : Statement} (hkind : h.line.kind = .choice)
    (hread : (readHead stage h).result = .ok s) : h.Branches := by
  rw [readHead, if_pos hkind, readBlock] at hread
  cases hb : takeBlock h.below with
  | none =>
    rw [hb] at hread
    exact absurd hread result_readFlawed
  | some parts =>
    obtain ⟨body, after⟩ := parts
    obtain ⟨last, hlast, hbelow, -⟩ := eq_append_of_takeBlock hb
    have hclosed : ∃ l ∈ h.below, l.text = terminator := ⟨last, by simp [hbelow], hlast⟩
    obtain ⟨after', hb'⟩ := takeBlock_of_closed hclosed
    have hbody : h.body = body := by
      rw [hb, Option.some.injEq, Prod.mk.injEq] at hb'
      exact hb'.1.symm
    refine ⟨hkind, hclosed, ?_⟩
    rw [hb] at hread
    dsimp only at hread
    rw [hbody]
    cases body with
    | nil => exact absurd hread result_readFlawed
    | cons first rest =>
      refine ⟨first, rest, rfl, ?_⟩
      by_contra hindented
      rw [blockSection, if_pos (by simpa using hindented)] at hread
      exact absurd hread result_readFlawed

theorem ReadsBranches.errors {header : ScriptLine} {body : List ScriptLine} {r : Reading Statement}
    (h : ReadsBranches stage header body r) :
    r.errors = askerErrors stage header ++ branchErrors stage body := by
  by_cases hfine : askerErrors stage header ++ branchErrors stage body = []
  · obtain ⟨actor, branches, -, hresult, -⟩ := h.accepted hfine
    rw [hfine, Reading.errors, hresult]
  · rw [Reading.errors, h.rejected hfine]

/-- A choice that was read has a branch for each of its labels, and none of them is empty. -/
theorem forall₂_branches {h : Head} {asker : ActorRef} {branches : List (String × List Statement)}
    {origin : Origin} (hread : (readHead stage h).result = .ok (.choice asker branches origin)) :
    List.Forall₂ (fun l b => b.1 = l.text ∧ contentBelow l.text h.body ≠ [] ∧
        (readLines stage (contentBelow l.text h.body)).result = .ok b.2)
      (labelsIn false h.body) branches := by
  have hkind : h.line.kind = .choice := (kind_of_readHead hread).symm
  have hreads : ReadsBranches stage h.line h.body (readHead stage h) :=
    readsBranches_readHead (branches_of_readHead hkind hread)
  have hfine : askerErrors stage h.line ++ branchErrors stage h.body = [] := by
    rw [← hreads.errors, Reading.errors, hread]
  obtain ⟨actor, branches', -, hresult, hforall⟩ := hreads.accepted hfine
  have hsame : branches' = branches := by
    rw [hread] at hresult
    injection hresult with hchoice
    injection hchoice with _ hbranches
    exact hbranches.symm
  have hcontent : ∀ l ∈ labelsIn false h.body, contentBelow l.text h.body ≠ [] := by
    intro l hl hempty
    have hnone := List.flatMap_eq_nil_iff.mp (List.append_eq_nil_iff.mp hfine).2 l hl
    rw [if_pos hempty] at hnone
    exact absurd hnone (List.cons_ne_nil _ _)
  rw [hsame] at hforall
  refine ((List.forall₂_and_left _ _).mpr ⟨hcontent, hforall⟩).imp fun l b h => ?_
  obtain ⟨hne, hlabel, hscript⟩ := h
  exact ⟨hlabel, hne, hscript⟩

/-! ## Accepted scripts -/

/-- The lines are those of a branch of the script, inside of that many branches, and the statements
are what the branch holds: the branch of a choice goes with the label, and the choice with the head,
that stand at the same place among all. -/
inductive Inside (lines : List ScriptLine) (script : List Statement) :
    Nat → List ScriptLine → List Statement → Prop where
  | whole : Inside lines script 0 lines script
  | branch {k : Nat} {ls : List ScriptLine} {ss : List Statement} {h : Head} {asker : ActorRef}
      {branches : List (String × List Statement)} {origin : Origin} {l : ScriptLine}
      {b : String × List Statement} (houter : Inside lines script k ls ss)
      (hhead : (h, Statement.choice asker branches origin) ∈ (heads ls).zip ss)
      (hlabel : (l, b) ∈ (labelsIn false h.body).zip branches) :
      Inside lines script (k + 1) (contentBelow l.text h.body) b.2

/-- Every head of accepted lines was read, as the statement at its place. -/
theorem forall₂_heads {lines : List ScriptLine} {script : List Statement}
    (h : (readLines stage lines).result = .ok script) :
    List.Forall₂ (fun h s => (readHead stage h).result = .ok s) (heads lines) script := by
  rw [readLines_eq_collect] at h
  exact Reading.forall₂_of_collect explained_readHead h

/-- Every branch of an accepted script was accepted, and has something to say. -/
theorem readLines_of_inside {lines : List ScriptLine} {script : List Statement}
    (h : (readLines stage lines).result = .ok script) {k : Nat} {ls : List ScriptLine}
    {ss : List Statement} (hinside : Inside lines script k ls ss) :
    (readLines stage ls).result = .ok ss ∧ (0 < k → ls ≠ []) := by
  induction hinside with
  | whole => exact ⟨h, fun hk => absurd hk (Nat.lt_irrefl 0)⟩
  | branch houter hhead hlabel ih =>
    have hread := List.forall₂_zip (forall₂_heads ih.1) hhead
    obtain ⟨-, hcontent, hresult⟩ := List.forall₂_zip (forall₂_branches hread) hlabel
    exact ⟨hresult, fun _ => hcontent⟩

/-! ## Rejected scripts -/

/-- The lines are looked at, inside of that many branches: all lines, and below a head with branches
the content of each of its labels, whatever else is wrong. -/
inductive ReadAt (lines : List ScriptLine) : Nat → List ScriptLine → Prop where
  | whole : ReadAt lines 0 lines
  | branch {k : Nat} {ls : List ScriptLine} {h : Head} {l : ScriptLine} (houter : ReadAt lines k ls)
      (hhead : h ∈ heads ls) (hbranches : h.Branches) (hlabel : l ∈ labelsIn false h.body) :
      ReadAt lines (k + 1) (contentBelow l.text h.body)

theorem infix_flatMap {α β : Type} {f : α → List β} {as : List α} {a : α} (h : a ∈ as) :
    f a <:+: as.flatMap f := by
  obtain ⟨before, after, rfl⟩ := List.append_of_mem h
  exact ⟨before.flatMap f, after.flatMap f, by simp⟩

/-- What is wrong with a head is told of its lines. -/
theorem errors_infix_of_mem_heads {lines : List ScriptLine} {h : Head} (hh : h ∈ heads lines) :
    (readHead stage h).errors <:+: (readLines stage lines).errors := by
  rw [errors_readLines]
  exact infix_flatMap (f := fun h => (readHead stage h).errors) hh

/-- What is wrong with the content of a label is told of its head. -/
theorem errors_infix_of_label {h : Head} (hbranches : h.Branches) {l : ScriptLine}
    (hl : l ∈ labelsIn false h.body) :
    (readLines stage (contentBelow l.text h.body)).errors <:+: (readHead stage h).errors := by
  rw [(readsBranches_readHead hbranches).errors, branchErrors]
  refine List.IsInfix.trans ?_ (List.suffix_append _ _).isInfix
  refine List.IsInfix.trans ?_ (infix_flatMap hl)
  split
  · next hempty =>
    rw [hempty]
    exact List.nil_infix
  · exact List.infix_rfl

/-- What is wrong with lines that are looked at, at any depth, is told of all lines. -/
theorem errors_infix_of_readAt {lines : List ScriptLine} {k : Nat} {ls : List ScriptLine}
    (h : ReadAt lines k ls) : (readLines stage ls).errors <:+: (readLines stage lines).errors := by
  induction h with
  | whole => exact List.infix_rfl
  | branch _ hhead hbranches hlabel ih =>
    refine List.IsInfix.trans ?_ ih
    exact (errors_infix_of_label hbranches hlabel).trans (errors_infix_of_mem_heads hhead)

/-! ## No statement is left out -/

/-- No statement is left out.  If lines are accepted, there is one statement for each of their heads,
of the kind that its line begins, and the action of the script has as many parts; the same holds in
every branch, at every depth, where there is a branch for each label and something in each branch.
If lines are rejected, then for the errors of their heads, which are not none.  And wherever a head
cannot be read, at any depth, there are errors for it, and all is rejected with these among
others. -/
theorem readLines_leaves_nothing_out (stage : Stage) (lines : List ScriptLine) :
    (∀ script, (readLines stage lines).result = .ok script →
      ∀ k ls ss, Inside lines script k ls ss →
        List.Forall₂ (fun h s => (readHead stage h).result = .ok s ∧ s.kind = h.line.kind)
          (heads ls) ss ∧
        (0 < k → ls ≠ [] ∧ ss ≠ []) ∧
        (∀ h asker branches origin, (h, .choice asker branches origin) ∈ (heads ls).zip ss →
          labelsOf branches = (labelsIn false h.body).map (·.text)) ∧
        ∀ (W κ : Type) (host : Host W κ) (settings : Settings), ∃ parts,
          Action.ofScript host settings ss = .sequence parts ∧ parts.length = (heads ls).length) ∧
    (∀ es, (readLines stage lines).result = .error es →
      es ≠ [] ∧ es = (heads lines).flatMap fun h => (readHead stage h).errors) ∧
    ∀ k ls, ReadAt lines k ls → ∀ h ∈ heads ls, ∀ es, (readHead stage h).result = .error es →
      es ≠ [] ∧ ∃ all, (readLines stage lines).result = .error all ∧ es <:+: all := by
  refine ⟨fun script hread k ls ss hinside => ?_, fun es hread => ?_, ?_⟩
  · obtain ⟨hresult, hcontent⟩ := readLines_of_inside hread hinside
    have hheads := forall₂_heads hresult
    refine ⟨hheads.imp fun h s hs => ⟨hs, kind_of_readHead hs⟩, fun hk => ?_, ?_, ?_⟩
    · have hlines := hcontent hk
      refine ⟨hlines, ?_⟩
      rintro rfl
      exact hlines (heads_eq_nil (List.forall₂_nil_right_iff.mp hheads))
    · intro h asker branches origin hmem
      have hlabels := (forall₂_branches (List.forall₂_zip hheads hmem)).imp fun l b hb => hb.1.symm
      exact (List.forall₂_eq_eq_eq ▸ List.forall₂_map_left_iff.mpr
        (List.forall₂_map_right_iff.mpr hlabels)).symm
    · intro W κ host settings
      refine ⟨_, rfl, ?_⟩
      rw [Action.ofStatements_eq_map, List.length_map, hheads.length_eq]
  · have herrors : (readLines stage lines).errors = es := by rw [Reading.errors, hread]
    exact ⟨fun hnil => Reading.explained_collect _ (hnil ▸ hread),
      by rw [← herrors, errors_readLines]⟩
  · intro k ls hat h hh es hes
    have herrors : (readHead stage h).errors = es := by rw [Reading.errors, hes]
    have hne : es ≠ [] := fun hnil => explained_readHead h (hnil ▸ hes)
    have hinfix : es <:+: (readLines stage lines).errors := by
      rw [← herrors]
      exact (errors_infix_of_mem_heads hh).trans (errors_infix_of_readAt hat)
    have hsome : (readLines stage lines).errors ≠ [] := fun hnil =>
      hne (List.infix_nil.mp (hnil ▸ hinfix))
    exact ⟨hne, _, Reading.result_of_errors_ne_nil hsome, hinfix⟩

/-- A choice in a choice, and a line below both. -/
def toldLines : List ScriptLine :=
  numbered 0
    ["?Bo", "Yes", " ?Ann", " No", "  [True] -> Ann.sad", " END", " Bo: yes", "END", "Bo: bye"]

/-- What it is read as. -/
def toldScript : List Statement :=
  [.choice ⟨"Bo", ⟨2⟩⟩ [("Yes",
    [.choice ⟨"Ann", ⟨3⟩⟩ [("No", [.store ⟨.parameter ⟨"Ann", ⟨3⟩⟩ "sad", true⟩])] (.ofIndex 2),
      .dialogue ⟨⟨"Bo", ⟨2⟩⟩, "yes", .ofIndex 6⟩])] (.ofIndex 0),
    .dialogue ⟨⟨"Bo", ⟨2⟩⟩, "bye", .ofIndex 8⟩]

/-- The same with a broken line in the inner choice. -/
def mistoldLines : List ScriptLine :=
  numbered 0 ["?Bo", "Yes", " ?Ann", " No", "  Ann", " END", " Bo: yes", "END", "Bo: bye"]

theorem readLines_leaves_nothing_out_toldLines :
    (readLines .bare toldLines).result = .ok toldScript ∧
      (∃ ls ss, Inside toldLines toldScript 2 ls ss ∧ ls ≠ [] ∧ ss ≠ [] ∧
        List.Forall₂ (fun h s => (readHead .bare h).result = .ok s ∧ s.kind = h.line.kind)
          (heads ls) ss) ∧
      ∃ ls, ReadAt mistoldLines 2 ls ∧ ∃ h ∈ heads ls, ∃ es, (readHead .bare h).result = .error es ∧
        es ≠ [] ∧ ∃ all, (readLines .bare mistoldLines).result = .error all ∧ es <:+: all := by
  have hread : (readLines .bare toldLines).result = .ok toldScript := rfl
  have hinside : ∃ ls ss, Inside toldLines toldScript 2 ls ss :=
    ⟨_, _, .branch (.branch .whole (.head _) (.head _)) (.head _) (.head _)⟩
  have hat : ReadAt mistoldLines 2 [⟨"Ann", .ofIndex 4⟩] := by
    let outer : Head := ⟨⟨"?Bo", .ofIndex 0⟩, mistoldLines.tail⟩
    let inner : Head := ⟨⟨"?Ann", .ofIndex 2⟩, (contentBelow "Yes" outer.body).tail⟩
    have houter : outer.Branches := ⟨by decide, by decide +kernel, _, _, rfl, by decide⟩
    have hinner : inner.Branches := ⟨by decide, by decide +kernel, _, _, rfl, by decide⟩
    have hhead : inner ∈ heads (contentBelow "Yes" outer.body) := by decide +kernel
    have hyes : ⟨"Yes", .ofIndex 1⟩ ∈ labelsIn false outer.body := by decide +kernel
    have hno : ⟨"No", .ofIndex 3⟩ ∈ labelsIn false inner.body := by decide +kernel
    have hcontent : contentBelow "No" inner.body = [⟨"Ann", .ofIndex 4⟩] := by decide +kernel
    have hbelow : ReadAt mistoldLines 1 (contentBelow "Yes" outer.body) :=
      .branch (h := outer) (l := ⟨"Yes", .ofIndex 1⟩) .whole (.head _) houter hyes
    have hdeep : ReadAt mistoldLines 2 (contentBelow "No" inner.body) :=
      .branch (h := inner) (l := ⟨"No", .ofIndex 3⟩) hbelow hhead hinner hno
    exact hcontent ▸ hdeep
  obtain ⟨haccepted, -, -⟩ := readLines_leaves_nothing_out .bare toldLines
  obtain ⟨-, -, hrejected⟩ := readLines_leaves_nothing_out .bare mistoldLines
  obtain ⟨ls, ss, hinside⟩ := hinside
  obtain ⟨hheads, hcontent, -⟩ := haccepted _ hread 2 ls ss hinside
  obtain ⟨hls, hss⟩ := hcontent (by decide)
  exact ⟨hread, ⟨ls, ss, hinside, hls, hss, hheads⟩, _, hat, _, .head _, _, rfl,
    hrejected 2 _ hat _ (.head _) _ rfl⟩

end Promptbook.Script
