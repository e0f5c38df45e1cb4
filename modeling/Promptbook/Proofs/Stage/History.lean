import Mathlib.Data.List.Induction
import Mathlib.Data.List.Nodup
import Promptbook.Stage.Variables

set_option autoImplicit false

/-!
# The history of a context

Variables are written by whoever holds a handle: by those who add the name again, by those who
restore a snapshot, and by scripts that found the name when they were read and may be running for
long.  An `Inventory` is a context with its cells and all the handles that were given out; a
`History` is what was done to it, told by names only.  `Inventory.Agrees` says that there is never a
difference: a handle stays that of its name, and what it shows is what was written to the name last,
by whomever.
-/

namespace Promptbook

/-! ## Cells that are apart -/

namespace Context

variable {c : Context} {cells : Cells} {name other : String} {id : VariableId} {value : Bool}

/-- No two names are the same, no two of them share a cell, and all their cells exist. -/
structure Separate (c : Context) (cells : Cells) : Prop where
  names : c.names.Nodup
  ids : (c.entries.map (·.2)).Nodup
  live : ∀ e ∈ c.entries, e.2.index < cells.values.length

theorem mem_of_find?_eq_some (h : c.find? name = some id) : (name, id) ∈ c.entries := by
  obtain ⟨e, he, rfl⟩ := Option.map_eq_some_iff.mp h
  have hname : e.1 = name := by simpa using List.find?_some he
  exact hname ▸ List.mem_of_find?_eq_some he

theorem find?_eq_none_iff : c.find? name = none ↔ name ∉ c.names := by
  unfold find? names
  rw [Option.map_eq_none_iff, List.find?_eq_none]
  simp only [beq_iff_eq, List.mem_map, not_exists, not_and]

theorem mem_names_of_find? (h : c.find? name = some id) : name ∈ c.names :=
  List.mem_map.mpr ⟨_, mem_of_find?_eq_some h, rfl⟩

/-- A name that is added is found, and all others are found as before. -/
theorem find?_add (c : Context) (name : String) (value : Bool) (cells : Cells) (other : String) :
    (c.add name value cells).context.find? other =
      if other = name then some (c.add name value cells).id else c.find? other := by
  unfold add
  cases h : c.find? name with
  | some id =>
    dsimp only
    split
    · next heq => rw [heq, h]
    · rfl
  | none =>
    dsimp only
    unfold find? at h ⊢
    rw [List.find?_append]
    by_cases heq : other = name
    · subst heq
      simp [Option.map_eq_none_iff.mp h]
    · have hne : ¬name = other := fun h => heq h.symm
      simp [heq, hne]

/-- What was found is found again, and it is the same. -/
theorem find?_add_of_eq_some (h : c.find? other = some id) (name : String) (value : Bool)
    (cells : Cells) : (c.add name value cells).context.find? other = some id := by
  rw [find?_add]
  split
  · next heq =>
    subst heq
    simp [add, h]
  · exact h

namespace Separate

theorem set (h : c.Separate cells) (id : VariableId) (value : Bool) :
    c.Separate (cells.set id value) := by
  refine ⟨h.names, h.ids, fun e he => ?_⟩
  simpa [Cells.set] using h.live e he

theorem index_lt (h : c.Separate cells) (hfind : c.find? name = some id) :
    id.index < cells.values.length :=
  h.live _ (mem_of_find?_eq_some hfind)

/-- A cell is that of one name only. -/
theorem eq_of_find? (h : c.Separate cells) (hfind : c.find? name = some id)
    (hother : c.find? other = some id) : name = other := by
  have hmem := mem_of_find?_eq_some hfind
  have hmem' := mem_of_find?_eq_some hother
  have heq := List.inj_on_of_nodup_map h.ids hmem hmem' rfl
  exact congrArg Prod.fst heq

/-- A new name gets a cell of its own. -/
theorem add (h : c.Separate cells) (name : String) (value : Bool) :
    (c.add name value cells).context.Separate (c.add name value cells).cells := by
  unfold Context.add
  cases hfind : c.find? name with
  | some id => exact h.set id value
  | none =>
    refine ⟨?_, ?_, ?_⟩
    · rw [Context.names, List.map_append, List.nodup_append]
      refine ⟨h.names, by simp, fun a ha b hb heq => find?_eq_none_iff.mp hfind ?_⟩
      obtain rfl : b = name := by simpa using hb
      exact heq ▸ ha
    · rw [List.map_append, List.nodup_append]
      refine ⟨h.ids, by simp, fun a ha b hb heq => ?_⟩
      obtain rfl : b = (cells.create value).1 := by simpa [Cells.create] using hb
      obtain ⟨e, he, rfl⟩ := List.mem_map.mp ha
      exact Nat.ne_of_lt (h.live e he) (congrArg VariableId.index heq)
    · refine List.forall_mem_append.mpr ⟨fun e he => ?_, ?_⟩
      · exact Nat.lt_of_lt_of_le (h.live e he) (by simp [Cells.create])
      · simp [Cells.create]

/-- Writing the cell of a name changes what that name shows, and nothing else. -/
theorem get?_set (h : c.Separate cells) (hfind : c.find? name = some id) (value : Bool)
    (other : String) : c.get? other (cells.set id value) =
      if other = name then some value else c.get? other cells := by
  split
  · next heq =>
    subst heq
    simp [get?, hfind, Cells.get_set_self (h.index_lt hfind)]
  · next hne =>
    unfold get?
    cases hother : c.find? other with
    | none => rfl
    | some id' =>
      have hids : id' ≠ id := fun heq => hne (h.eq_of_find? hother (heq ▸ hfind))
      simp [Cells.get_set_of_ne cells hids]

/-- Adding a name gives it the value, and nothing else changes. -/
theorem get?_add (h : c.Separate cells) (name : String) (value : Bool) (other : String) :
    (c.add name value cells).context.get? other (c.add name value cells).cells =
      if other = name then some value else c.get? other cells := by
  cases hfind : c.find? name with
  | some id =>
    have hadd : c.add name value cells = ⟨id, c, cells.set id value⟩ := by
      simp [Context.add, hfind]
    rw [hadd]
    exact h.get?_set hfind value other
  | none =>
    unfold get?
    rw [find?_add]
    have hadd : c.add name value cells =
        ⟨⟨cells.values.length⟩, ⟨c.entries ++ [(name, ⟨cells.values.length⟩)]⟩,
          ⟨cells.values ++ [value]⟩⟩ := by
      simp [Context.add, hfind, Cells.create]
    rw [hadd]
    split
    · simp [Cells.get, List.getD_eq_getElem?_getD]
    · cases hother : c.find? other with
      | none => rfl
      | some id =>
        simp [Cells.get, List.getD_eq_getElem?_getD, List.getElem?_append_left (h.index_lt hother)]

end Separate

/-! ## Snapshots -/

theorem restore_cons (e : String × VariableId) (rest : List (String × VariableId))
    (snapshot : List (String × Bool)) (cells : Cells) :
    (⟨e :: rest⟩ : Context).restore snapshot cells =
      (⟨rest⟩ : Context).restore snapshot
        (match snapshot.lookup e.1 with
        | some value => cells.set e.2 value
        | none => cells) := rfl

/-- Restoring adds no cells. -/
theorem length_restore (c : Context) (snapshot : List (String × Bool)) (cells : Cells) :
    (c.restore snapshot cells).values.length = cells.values.length := by
  obtain ⟨entries⟩ := c
  induction entries generalizing cells with
  | nil => rfl
  | cons e rest ih =>
    rw [restore_cons, ih]
    cases snapshot.lookup e.1 <;> simp [Cells.set]

/-- Restoring leaves the cells alone that belong to no name. -/
theorem get_restore_of_not_mem {snapshot : List (String × Bool)} (h : id ∉ c.entries.map (·.2)) :
    (c.restore snapshot cells).get id = cells.get id := by
  obtain ⟨entries⟩ := c
  induction entries generalizing cells with
  | nil => rfl
  | cons e rest ih =>
    simp only [List.map_cons, List.mem_cons, not_or] at h
    rw [restore_cons, ih h.2]
    cases snapshot.lookup e.1 with
    | none => rfl
    | some value => exact Cells.get_set_of_ne cells h.1 value

/-- A name gets the value of the snapshot, or keeps its own if it is not in there. -/
theorem Separate.get_restore (h : c.Separate cells) (hmem : (name, id) ∈ c.entries)
    (snapshot : List (String × Bool)) :
    (c.restore snapshot cells).get id = (snapshot.lookup name).getD (cells.get id) := by
  have hlt : id.index < cells.values.length := h.live _ hmem
  have hids := h.ids
  clear h
  obtain ⟨entries⟩ := c
  induction entries generalizing cells with
  | nil => simp at hmem
  | cons e rest ih =>
    obtain ⟨hfirst, hrest⟩ := List.nodup_cons.mp hids
    rw [restore_cons]
    rcases List.mem_cons.mp hmem with rfl | hmem
    · rw [get_restore_of_not_mem hfirst]
      cases snapshot.lookup name with
      | none => rfl
      | some value => exact Cells.get_set_self hlt value
    · have hne : id ≠ e.2 := by
        rintro rfl
        exact hfirst (List.mem_map.mpr ⟨_, hmem, rfl⟩)
      rw [ih ?_ hmem hrest]
      · cases snapshot.lookup e.1 with
        | none => rfl
        | some value => rw [Cells.get_set_of_ne cells hne]
      · cases snapshot.lookup e.1 with
        | none => exact hlt
        | some value => simpa [Cells.set] using hlt

theorem Separate.restore (h : c.Separate cells) (snapshot : List (String × Bool)) :
    c.Separate (c.restore snapshot cells) := by
  refine ⟨h.names, h.ids, fun e he => ?_⟩
  rw [length_restore]
  exact h.live e he

/-- After restoring, a name shows the value of the snapshot, or its own if it is not in there. -/
theorem Separate.get?_restore (h : c.Separate cells) (snapshot : List (String × Bool))
    (name : String) : c.get? name (c.restore snapshot cells) =
      if name ∈ c.names then (snapshot.lookup name).or (c.get? name cells) else none := by
  unfold get?
  cases hfind : c.find? name with
  | none => rw [if_neg (find?_eq_none_iff.mp hfind), Option.map_none]
  | some id =>
    rw [if_pos (mem_names_of_find? hfind), Option.map_some,
      h.get_restore (mem_of_find?_eq_some hfind)]
    cases snapshot.lookup name <;> rfl

/-- A snapshot has the names of the context and what they show. -/
theorem lookup_values (c : Context) (cells : Cells) (name : String) :
    (c.values cells).lookup name = c.get? name cells := by
  obtain ⟨entries⟩ := c
  unfold values get? find?
  induction entries with
  | nil => rfl
  | cons e rest ih =>
    dsimp only at ih ⊢
    rw [List.map_cons, List.lookup_cons, List.find?_cons, ih]
    by_cases heq : e.1 = name
    · simp [heq]
    · rw [beq_false_of_ne heq, beq_false_of_ne (Ne.symm heq)]

/-! ## Operations -/

/-- What can be done to the variables of a context; a handle is named by its number among those that
were given out. -/
inductive Operation where
  | add (name : String) (value : Bool)
  | find (name : String)
  | restore (snapshot : List (String × Bool))
  | write (handle : Nat) (value : Bool)
  deriving DecidableEq

/-- The name that an operation adds. -/
def Operation.added? : Operation → Option String
  | add name _ => some name
  | find _ | restore _ | write _ _ => none

end Context

open Context (Operation)

/-- A context with the cells of its variables, and the handles that were given out. -/
structure Inventory where
  context : Context
  cells : Cells
  handles : List VariableId

namespace Inventory

/-- An inventory without names, and with cells that are of no concern to it. -/
def new (cells : Cells) : Inventory := ⟨.empty, cells, []⟩

/-- The inventory after an operation.  Adding gives out a handle, and so does finding if there is
anything to be found. -/
def perform (v : Inventory) : Operation → Inventory
  | .add name value =>
    let added := v.context.add name value v.cells
    ⟨added.context, added.cells, v.handles ++ [added.id]⟩
  | .find name => { v with handles := v.handles ++ (v.context.find? name).toList }
  | .restore snapshot => { v with cells := v.context.restore snapshot v.cells }
  | .write handle value =>
    match v.handles[handle]? with
    | some id => { v with cells := v.cells.set id value }
    | none => v

/-- The inventory after some operations. -/
def performAll (v : Inventory) (operations : List Operation) : Inventory :=
  operations.foldl perform v

theorem performAll_append (v : Inventory) (past later : List Operation) :
    v.performAll (past ++ later) = (v.performAll past).performAll later :=
  List.foldl_append

/-- What a name shows. -/
def get? (v : Inventory) (name : String) : Option Bool := v.context.get? name v.cells

/-- What all names show. -/
def snapshot (v : Inventory) : List (String × Bool) := v.context.values v.cells

end Inventory

/-! ## Histories -/

/-- The value that was written to a name last. -/
def lastOf (name : String) (written : List (String × Bool)) : Option Bool :=
  (written.filterMap fun e => if e.1 = name then some e.2 else none).getLast?

theorem lastOf_append (name : String) (written more : List (String × Bool)) :
    lastOf name (written ++ more) = (lastOf name more).or (lastOf name written) := by
  rw [lastOf, List.filterMap_append, List.getLast?_append]
  rfl

theorem lastOf_singleton (name other : String) (value : Bool) :
    lastOf other [(name, value)] = if other = name then some value else none := by
  unfold lastOf
  by_cases heq : other = name
  · simp [heq]
  · have hne : ¬name = other := fun h => heq h.symm
    simp [heq, hne]

/-- What was done to a context: the names that were added, the names for which handles were given
out, and everything that was written to a name, by whomever. -/
structure History where
  names : List String
  held : List String
  written : List (String × Bool)
  deriving DecidableEq

namespace History

/-- Nothing was done. -/
def empty : History := ⟨[], [], []⟩

/-- The history with one more operation.  Adding a name writes it, restoring writes every name that
is in the snapshot, and writing through a handle writes the name for which it was given out. -/
def record (h : History) : Operation → History
  | .add name value =>
    ⟨if name ∈ h.names then h.names else h.names ++ [name], h.held ++ [name],
      h.written ++ [(name, value)]⟩
  | .find name => { h with held := h.held ++ if name ∈ h.names then [name] else [] }
  | .restore snapshot =>
    { h with
      written := h.written ++
        h.names.filterMap fun name => (snapshot.lookup name).map fun value => (name, value) }
  | .write handle value =>
    { h with written := h.written ++ (h.held[handle]?.map fun name => (name, value)).toList }

/-- The history of some operations. -/
def of (operations : List Operation) : History := operations.foldl record empty

theorem of_append (past later : List Operation) :
    of (past ++ later) = later.foldl record (of past) :=
  List.foldl_append

/-- The value that was written to a name last. -/
def last? (h : History) (name : String) : Option Bool := lastOf name h.written

theorem eraseDups_concat (names : List String) (name : String) :
    (names ++ [name]).eraseDups =
      if name ∈ names then names.eraseDups else names.eraseDups ++ [name] := by
  rw [List.eraseDups_append, List.removeAll, List.filter_cons, List.filter_nil]
  by_cases hmem : name ∈ names <;> simp [hmem, List.eraseDups_cons]

/-- The names are those that were added, each where it was added first. -/
theorem names_of (operations : List Operation) :
    (of operations).names = (operations.filterMap Operation.added?).eraseDups := by
  induction operations using List.reverseRecOn with
  | nil => rfl
  | append_singleton past operation ih =>
    rw [of_append, List.filterMap_append, List.foldl_cons, List.foldl_nil, List.filterMap_cons,
      List.filterMap_nil]
    cases operation with
    | add name value =>
      have hmem : name ∈ (of past).names ↔ name ∈ past.filterMap Operation.added? := by
        rw [ih, List.mem_eraseDups]
      simp only [Operation.added?, eraseDups_concat, ← ih, record, hmem]
    | find name | restore snapshot | write handle value =>
      simpa only [Operation.added?, List.append_nil, record] using ih

/-- A restored snapshot writes the names that are known. -/
theorem lastOf_restored (names : List String) (snapshot : List (String × Bool)) (name : String) :
    lastOf name
        (names.filterMap fun name => (snapshot.lookup name).map fun value => (name, value)) =
      if name ∈ names then snapshot.lookup name else none := by
  induction names with
  | nil => rfl
  | cons first rest ih =>
    cases hfirst : snapshot.lookup first with
    | none =>
      simp only [List.filterMap_cons, hfirst, Option.map_none, ih]
      by_cases heq : name = first
      · simp [heq, hfirst]
      · simp [heq]
    | some value =>
      have hwritten : (first :: rest).filterMap (fun name =>
          (snapshot.lookup name).map fun value => (name, value)) =
            [(first, value)] ++ rest.filterMap fun name =>
              (snapshot.lookup name).map fun value => (name, value) := by
        simp [hfirst]
      rw [hwritten, lastOf_append, lastOf_singleton, ih]
      by_cases heq : name = first
      · subst heq
        by_cases hrest : name ∈ rest <;> simp [hrest, hfirst]
      · simp [heq]

end History

/-! ## Agreement -/

/-- An inventory is what its history says: it has the names that were added, every handle is that of
its name, and a name shows what was written to it last. -/
structure Inventory.Agrees (v : Inventory) (h : History) : Prop where
  separate : v.context.Separate v.cells
  names : v.context.names = h.names
  handles : v.handles.map some = h.held.map v.context.find?
  last : ∀ name, v.get? name = h.last? name

namespace Inventory

variable {v : Inventory} {h : History}

/-- Whatever is found stays where it is. -/
theorem find?_perform {name : String} {id : VariableId} (hfind : v.context.find? name = some id)
    (operation : Operation) : (v.perform operation).context.find? name = some id := by
  cases operation with
  | add other value => exact Context.find?_add_of_eq_some hfind other value v.cells
  | find other => exact hfind
  | restore snapshot => exact hfind
  | write handle value =>
    unfold perform
    dsimp only
    split <;> exact hfind

theorem find?_performAll {name : String} {id : VariableId}
    (hfind : v.context.find? name = some id) (operations : List Operation) :
    (v.performAll operations).context.find? name = some id := by
  induction operations generalizing v with
  | nil => exact hfind
  | cons operation later ih => exact ih (find?_perform hfind operation)

/-- Handles are given out and never taken back. -/
theorem handles_perform (v : Inventory) (operation : Operation) :
    v.handles <+: (v.perform operation).handles := by
  cases operation with
  | add name value => exact List.prefix_append _ _
  | find name => exact List.prefix_append _ _
  | restore snapshot => exact List.prefix_refl _
  | write handle value =>
    unfold perform
    dsimp only
    split <;> exact List.prefix_refl _

theorem handles_performAll (v : Inventory) (operations : List Operation) :
    v.handles <+: (v.performAll operations).handles := by
  induction operations generalizing v with
  | nil => exact List.prefix_refl _
  | cons operation later ih => exact (v.handles_perform operation).trans (ih _)

theorem getElem?_handles_performAll {handle : Nat} {id : VariableId}
    (hid : v.handles[handle]? = some id) (operations : List Operation) :
    (v.performAll operations).handles[handle]? = some id := by
  obtain ⟨hlt, -⟩ := List.getElem?_eq_some_iff.mp hid
  obtain ⟨more, hmore⟩ := v.handles_performAll operations
  rw [← hmore, List.getElem?_append_left hlt, hid]

/-- Names are added and never removed. -/
theorem names_perform (v : Inventory) (operation : Operation) :
    v.context.names <+: (v.perform operation).context.names := by
  cases operation with
  | add name value =>
    rw [perform, Context.names_add]
    split
    · exact List.prefix_refl _
    · exact List.prefix_append _ _
  | find name => exact List.prefix_refl _
  | restore snapshot => exact List.prefix_refl _
  | write handle value =>
    unfold perform
    dsimp only
    split <;> exact List.prefix_refl _

theorem names_performAll (v : Inventory) (operations : List Operation) :
    v.context.names <+: (v.performAll operations).context.names := by
  induction operations generalizing v with
  | nil => exact List.prefix_refl _
  | cons operation later ih => exact (v.names_perform operation).trans (ih _)

namespace Agrees

theorem new (cells : Cells) : (Inventory.new cells).Agrees .empty :=
  ⟨⟨.nil, .nil, by simp [Inventory.new, Context.empty]⟩, rfl, rfl, fun _ => rfl⟩

/-- The handles that were given out before still belong to their names. -/
theorem held_perform (ha : v.Agrees h) (operation : Operation) :
    v.handles.map some = h.held.map (v.perform operation).context.find? := by
  have hevery : ∀ name ∈ h.held, ∃ id, v.context.find? name = some id := by
    intro name hname
    have hmem : v.context.find? name ∈ v.handles.map some := ha.handles ▸ List.mem_map_of_mem hname
    obtain ⟨id, -, hid⟩ := List.mem_map.mp hmem
    exact ⟨id, hid.symm⟩
  rw [ha.handles]
  refine List.map_congr_left fun name hname => ?_
  obtain ⟨id, hid⟩ := hevery name hname
  rw [hid, find?_perform hid operation]

/-- The handle of a number is that of the name for which it was given out. -/
theorem exists_held (ha : v.Agrees h) {handle : Nat} {id : VariableId}
    (hid : v.handles[handle]? = some id) :
    ∃ name, h.held[handle]? = some name ∧ v.context.find? name = some id := by
  have heq := congrArg (·[handle]?) ha.handles
  simp only [List.getElem?_map, hid, Option.map_some] at heq
  obtain ⟨name, hname, hfind⟩ := Option.map_eq_some_iff.mp heq.symm
  exact ⟨name, hname, hfind⟩

theorem add (ha : v.Agrees h) (name : String) (value : Bool) :
    (v.perform (.add name value)).Agrees (h.record (.add name value)) := by
  refine ⟨ha.separate.add name value, ?_, ?_, fun other => ?_⟩
  · rw [Inventory.perform, Context.names_add, ha.names, History.record]
  · rw [History.record, List.map_append, ← ha.held_perform (.add name value), Inventory.perform,
      List.map_append, List.map_singleton, List.map_singleton, Context.find?_add, if_pos rfl]
  · rw [History.last?, History.record, lastOf_append, lastOf_singleton, ← History.last?,
      ← ha.last other, Inventory.get?, Inventory.perform, ha.separate.get?_add]
    split <;> rfl

theorem find (ha : v.Agrees h) (name : String) :
    (v.perform (.find name)).Agrees (h.record (.find name)) := by
  refine ⟨ha.separate, ha.names, ?_, ha.last⟩
  rw [History.record, List.map_append, ← ha.held_perform (.find name), Inventory.perform,
    List.map_append, ← ha.names]
  cases hfind : v.context.find? name with
  | none => simp [Context.find?_eq_none_iff.mp hfind]
  | some id =>
    simp [Context.mem_names_of_find? hfind, hfind]

theorem restore (ha : v.Agrees h) (snapshot : List (String × Bool)) :
    (v.perform (.restore snapshot)).Agrees (h.record (.restore snapshot)) := by
  refine ⟨ha.separate.restore snapshot, ha.names, ha.handles, fun name => ?_⟩
  rw [History.last?, History.record, lastOf_append, History.lastOf_restored, ← History.last?,
    ← ha.last name, Inventory.get?, Inventory.perform, ha.separate.get?_restore, ← ha.names]
  split
  · rfl
  · next hunknown =>
    rw [Option.none_or, Inventory.get?, Context.get?, Context.find?_eq_none_iff.mpr hunknown]
    rfl

theorem write (ha : v.Agrees h) (handle : Nat) (value : Bool) :
    (v.perform (.write handle value)).Agrees (h.record (.write handle value)) := by
  rw [Inventory.perform, History.record]
  cases hid : v.handles[handle]? with
  | none =>
    have hheld : h.held[handle]? = none := by
      have heq := congrArg (·[handle]?) ha.handles
      simpa [hid] using heq.symm
    simpa [hheld] using ha
  | some id =>
    obtain ⟨name, hheld, hfind⟩ := ha.exists_held hid
    refine ⟨ha.separate.set id value, ha.names, ha.handles, fun other => ?_⟩
    rw [hheld, Option.map_some, Option.toList_some, History.last?, lastOf_append, lastOf_singleton,
      ← History.last?, ← ha.last other, Inventory.get?, ha.separate.get?_set hfind]
    split <;> rfl

/-- An operation keeps the agreement. -/
theorem perform (ha : v.Agrees h) (operation : Operation) :
    (v.perform operation).Agrees (h.record operation) := by
  cases operation with
  | add name value => exact ha.add name value
  | find name => exact ha.find name
  | restore snapshot => exact ha.restore snapshot
  | write handle value => exact ha.write handle value

theorem performAll (ha : v.Agrees h) (operations : List Operation) :
    (v.performAll operations).Agrees (operations.foldl History.record h) := by
  induction operations generalizing v h with
  | nil => exact ha
  | cons operation later ih => exact ih (ha.perform operation)

/-- Whatever was done since there were no names is what the history says. -/
theorem of_performAll_new (cells : Cells) (operations : List Operation) :
    ((Inventory.new cells).performAll operations).Agrees (.of operations) :=
  (new cells).performAll operations

/-- A handle that was found shows what was written to its name last. -/
theorem last_of_find? (ha : v.Agrees h) {name : String} {id : VariableId}
    (hfind : v.context.find? name = some id) : h.last? name = some (v.cells.get id) := by
  rw [← ha.last, get?, Context.get?, hfind, Option.map_some]

end Agrees

/-! ## Snapshots that are restored later -/

theorem get?_eq_none_iff {name : String} : v.get? name = none ↔ name ∉ v.context.names := by
  rw [get?, Context.get?, Option.map_eq_none_iff, Context.find?_eq_none_iff]

/-- When a snapshot is restored, the names that it has show what they showed when it was taken, and
those that were added since keep what they show.  It may say anything of names that are unknown. -/
theorem get?_restored {u : Inventory} (hu : u.context.Separate u.cells)
    (hnames : v.context.names <+: u.context.names) {saved : List (String × Bool)}
    (hsaved : ∀ name ∈ u.context.names, saved.lookup name = v.snapshot.lookup name)
    (name : String) : (u.perform (.restore saved)).get? name =
      if name ∈ v.context.names then v.get? name else u.get? name := by
  have hsnapshot : v.snapshot.lookup name = v.get? name := Context.lookup_values _ _ _
  rw [get?, perform, hu.get?_restore]
  by_cases hknown : name ∈ u.context.names
  · rw [if_pos hknown, hsaved name hknown, hsnapshot]
    split
    · next hold =>
      have hshown : v.get? name ≠ none := fun hnone => get?_eq_none_iff.mp hnone hold
      obtain ⟨value, hvalue⟩ := Option.ne_none_iff_exists'.mp hshown
      rw [hvalue, Option.some_or]
    · next hnew =>
      rw [get?_eq_none_iff.mpr hnew, Option.none_or]
      rfl
  · have hold : name ∉ v.context.names := fun hmem => hknown (hnames.subset hmem)
    rw [if_neg hknown, if_neg hold, get?_eq_none_iff.mpr hknown]

end Inventory

end Promptbook
