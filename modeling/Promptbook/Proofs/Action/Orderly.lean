import Promptbook.Proofs.Action.Tracking

set_option autoImplicit false

/-!
# Orderly logs

What may happen at a node and below it in one frame.  Every node is entered once at most and only if
it is not over, in a sequence only after those ahead of it; and after an error the nodes above are
left with the same error, and nothing else happens.

`Orderly` says so of a log.  It is put together like the log: one part after another
(`Orderly.append`), what happens below a seat as part of its node (`Orderly.above`), and a node that is
entered first and left last (`Orderly.visit`).
-/

namespace Promptbook

/-! ## Logs -/

/-- The node that is over with an event, if there is one. -/
def Event.ended : Event → List Address
  | left node (.ok .done) => [node]
  | _ => []

/-- The nodes that are over after a log. -/
def ended (log : List Event) : List Address := log.flatMap Event.ended

@[simp]
theorem ended_nil : ended [] = [] := rfl

@[simp]
theorem ended_cons (e : Event) (log : List Event) : ended (e :: log) = e.ended ++ ended log := rfl

@[simp]
theorem ended_append (first second : List Event) :
    ended (first ++ second) = ended first ++ ended second := List.flatMap_append

@[simp]
theorem Event.ended_entered (p : Address) : (entered p).ended = [] := rfl

@[simp]
theorem Event.ended_created (p : Address) : (created p).ended = [] := rfl

theorem Event.ended_left (p : Address) (outcome : Outcome) :
    (left p outcome).ended = if outcome = .ok .done then [p] else [] := by
  unfold ended
  split
  · next heq => cases heq; rfl
  · next hne =>
    rw [if_neg]
    rintro rfl
    exact hne p rfl

@[simp]
theorem mem_ended {q : Address} {log : List Event} :
    q ∈ ended log ↔ .left q (.ok .done) ∈ log := by
  rw [ended, List.mem_flatMap]
  constructor
  · rintro ⟨e, he, hq⟩
    cases e with
    | entered p => simp at hq
    | created p => simp at hq
    | left p outcome =>
      rw [Event.ended_left] at hq
      split at hq
      · next hdone =>
        obtain rfl := List.mem_singleton.mp hq
        rwa [hdone] at he
      · simp at hq
  · exact fun h => ⟨_, h, List.mem_singleton_self q⟩

/-- What an event presupposes at a node and below it, if those nodes are over: what is entered is not,
and in a sequence all that comes earlier is. -/
structure Event.Due (p : Address) (past : List Address) (e : Event) : Prop where
  notOver : ∀ q, e = .entered q → q ∉ past
  inTurn : ∀ index q, p <:+ q → (.child .sequence index :: q) <:+ e.node →
    ∀ earlier < index, .child .sequence earlier :: q ∈ past

/-- Every event of a log is due when it happens. -/
def Timely (p : Address) : List Address → List Event → Prop
  | _, [] => True
  | past, e :: rest => e.Due p past ∧ Timely p (past ++ e.ended) rest

theorem timely_append {p : Address} {past : List Address} {first second : List Event} :
    Timely p past (first ++ second) ↔ Timely p past first ∧ Timely p (past ++ ended first) second := by
  induction first generalizing past with
  | nil => simp [Timely]
  | cons e rest ih =>
    rw [List.cons_append, Timely, Timely, ih, ended_cons, List.append_assoc, and_assoc]

/-! ## Addresses -/

/-- A node is below one seat of another at most. -/
theorem seat_eq_of_suffix {s t : Seat} {p n : Address} (h : (s :: p) <:+ n) (h' : (t :: p) <:+ n) :
    s = t := by
  have hcons := List.suffix_of_suffix_length_le h h' (by simp)
  exact (List.cons.inj (hcons.eq_of_length (by simp))).1

theorem not_cons_suffix {s : Seat} {p q : Address} (h : p <:+ q) : ¬(s :: q) <:+ p := by
  intro h'
  have hle := h.length_le
  have hlt := h'.length_le
  rw [List.length_cons] at hlt
  omega

/-- What is below a seat of `q`, which is not above `p`, is below that very seat of `p`, or `q` is. -/
theorem seat_cases {s t : Seat} {p q n : Address} (h : (s :: p) <:+ n) (hq : p <:+ q)
    (h' : (t :: q) <:+ n) : (q = p ∧ t = s) ∨ (s :: p) <:+ q := by
  by_cases hlength : (s :: p).length ≤ q.length
  · exact .inr (List.suffix_of_suffix_length_le h ((List.suffix_cons t q).trans h') hlength)
  · have heq : q = p := by
      refine (hq.eq_of_length ?_).symm
      have hle := hq.length_le
      rw [List.length_cons] at hlength
      omega
    subst heq
    exact .inl ⟨rfl, seat_eq_of_suffix h' h⟩

/-! ## Orderly logs -/

/-- The first of two events does not let the second be an entry of its node. -/
def Apart (e e' : Event) : Prop := ∀ q, e' = .entered q → e.node ≠ q

/-- After an error only nodes above are left, with the same error. -/
def Fails (e e' : Event) : Prop :=
  ∀ q fault, e = .left q (.error fault) → ∃ above, above <:+ q ∧ e' = .left above (.error fault)

/-- What may happen at a node and below it in a frame that comes to that. -/
structure Orderly (past : List Address) (p : Address) (log : List Event) (outcome : Outcome) : Prop
    where
  below : ∀ e ∈ log, p <:+ e.node
  once : log.Pairwise Apart
  timely : Timely p past log
  fails : log.Pairwise Fails
  failed : ∀ q fault, .left q (.error fault) ∈ log → outcome = .error fault

namespace Orderly

variable {past : List Address} {p : Address} {s : Seat} {log first second : List Event}
  {outcome outcome' : Outcome}

theorem nil (past : List Address) (p : Address) (outcome : Outcome) : Orderly past p [] outcome :=
  ⟨by simp, .nil, trivial, .nil, by simp⟩

theorem ofOutcome (h : Orderly past p log outcome)
    (hfault : ∀ fault, outcome = .error fault → outcome' = .error fault) :
    Orderly past p log outcome' :=
  { h with failed := fun q fault hin => hfault fault (h.failed q fault hin) }

/-- What is in order below a seat is so at its node, if that seat is not out of turn. -/
theorem above (h : Orderly past (s :: p) log outcome)
    (hturn : ∀ index, s = .child .sequence index →
      ∀ earlier < index, .child .sequence earlier :: p ∈ past) : Orderly past p log outcome := by
  refine { h with below := fun e he => (List.suffix_cons s p).trans (h.below e he), timely := ?_ }
  have hbelow := h.below
  have htimely := h.timely
  clear h
  induction log generalizing past with
  | nil => trivial
  | cons e rest ih =>
    obtain ⟨he, hrest⟩ := List.forall_mem_cons.mp hbelow
    refine ⟨⟨htimely.1.notOver, fun index q hq hbelow earlier hlt => ?_⟩, ?_⟩
    · rcases seat_cases he hq hbelow with ⟨rfl, hs⟩ | hq
      · exact hturn index hs.symm earlier hlt
      · exact htimely.1.inTurn index q hq hbelow earlier hlt
    · exact ih (fun index hs earlier hlt => List.mem_append_left _ (hturn index hs earlier hlt))
        hrest htimely.2

/-- One part after another, if the first did not fail and the nodes are not the same. -/
theorem append (h : Orderly past p first outcome) (hok : ∀ fault, outcome ≠ .error fault)
    (h' : Orderly (past ++ ended first) p second outcome')
    (hapart : ∀ e ∈ first, ∀ e' ∈ second, e.node ≠ e'.node) :
    Orderly past p (first ++ second) outcome' where
  below := List.forall_mem_append.mpr ⟨h.below, h'.below⟩
  once := by
    refine List.pairwise_append.mpr ⟨h.once, h'.once, fun e he e' he' q hq => ?_⟩
    exact (hq ▸ hapart e he e' he' :)
  timely := timely_append.mpr ⟨h.timely, h'.timely⟩
  fails := by
    refine List.pairwise_append.mpr ⟨h.fails, h'.fails, fun e he e' he' q fault hq => ?_⟩
    exact absurd (h.failed q fault (hq ▸ he)) (hok fault)
  failed := by
    intro q fault hin
    rcases List.mem_append.mp hin with hin | hin
    · exact absurd (h.failed q fault hin) (hok fault)
    · exact h'.failed q fault hin

/-- A node is entered first and left last. -/
theorem visit (h : Orderly past p log outcome) (hp : p ∉ past)
    (hwithin : ∀ e ∈ log, e = .created p ∨ ∃ s : Seat, (s :: p) <:+ e.node) :
    Orderly past p (.entered p :: (log ++ [.left p outcome])) outcome := by
  have hturn (past : List Address) (e : Event) (he : e.node = p) (index : Nat) (q : Address)
      (hq : p <:+ q) (hbelow : (.child .sequence index :: q) <:+ e.node) (earlier : Nat)
      (_ : earlier < index) : .child .sequence earlier :: q ∈ past :=
    absurd (he ▸ hbelow) (not_cons_suffix hq)
  have hnode : ∀ q, .entered q ∈ log → q ≠ p := by
    rintro q hq rfl
    rcases hwithin _ hq with heq | ⟨s, hs⟩
    · simp at heq
    · exact not_cons_suffix (List.suffix_refl q) hs
  refine ⟨?_, ?_, ⟨⟨?_, hturn _ _ rfl⟩, ?_⟩, ?_, ?_⟩
  · refine List.forall_mem_cons.mpr ⟨List.suffix_refl p, List.forall_mem_append.mpr ⟨h.below, ?_⟩⟩
    exact List.forall_mem_singleton.mpr (List.suffix_refl p)
  · refine List.pairwise_cons.mpr ⟨fun e he q hq => ?_, List.pairwise_append.mpr
      ⟨h.once, List.pairwise_singleton _ _, fun e _ e' he' q hq => ?_⟩⟩
    · subst hq
      rcases List.mem_append.mp he with he | he
      · exact (hnode q he).symm
      · simp at he
    · rw [List.mem_singleton.mp he'] at hq
      simp at hq
  · rintro q hq
    rwa [← Event.entered.inj hq]
  · rw [Event.ended_entered, List.append_nil]
    exact timely_append.mpr ⟨h.timely, ⟨fun q hq => by simp at hq, hturn _ _ rfl⟩, trivial⟩
  · refine List.pairwise_cons.mpr ⟨fun e he q fault hq => by simp at hq, List.pairwise_append.mpr
      ⟨h.fails, List.pairwise_singleton _ _, fun e he e' he' q fault hq => ?_⟩⟩
    subst hq
    exact ⟨p, h.below _ he, by rw [List.mem_singleton.mp he', h.failed q fault he]⟩
  · intro q fault hin
    rcases List.mem_cons.mp hin with hin | hin
    · simp at hin
    · rcases List.mem_append.mp hin with hin | hin
      · exact h.failed q fault hin
      · exact (Event.left.inj (List.mem_singleton.mp hin)).2.symm

end Orderly

end Promptbook
