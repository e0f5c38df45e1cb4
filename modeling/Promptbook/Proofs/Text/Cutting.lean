import Mathlib.Data.List.Infix
import Promptbook.Text.Split

set_option autoImplicit false

/-!
# Cutting what was put together

`Text.Split` says that cuts lose nothing.  This module has the other direction: text that was put
together with a separator is cut again at the same places.  Pieces that are free of the separator
are not enough for that, because an occurrence may begin in a piece and end in the separator behind
it; `Bounded` rules this out, and `bounded_pair` shows that it comes for free when the separator is
two different characters.
-/

namespace Promptbook.Text

variable {separator : List Char}

/-- The first occurrence of `separator` in `s` followed by `separator` is the one behind `s`. -/
def Bounded (separator s : List Char) : Prop := ¬ separator <:+: s ++ separator.dropLast

instance (separator s : List Char) : Decidable (Bounded separator s) :=
  inferInstanceAs (Decidable (¬ _))

theorem Bounded.absent {s : List Char} (h : Bounded separator s) : ¬ separator <:+: s :=
  fun hi => h (hi.trans (List.prefix_append s _).isInfix)

theorem Bounded.tail {c : Char} {s : List Char} (h : Bounded separator (c :: s)) :
    Bounded separator s :=
  fun hi => h (hi.trans (List.suffix_cons c _).isInfix)

/-- A separator of one character is found in a text or behind it. -/
theorem bounded_singleton {c : Char} {s : List Char} (h : c ∉ s) : Bounded [c] s := by
  intro hi
  have hmem : c ∈ s ++ [] := hi.subset (by simp)
  exact h (by simpa using hmem)

/-- Two different characters cannot straddle the end of a text. -/
theorem bounded_pair {c d : Char} {s : List Char} (hne : c ≠ d) (h : ¬ [c, d] <:+: s) :
    Bounded [c, d] s := by
  intro hi
  rcases List.infix_concat_iff.mp hi with hsuffix | hinner
  · rcases List.suffix_concat_iff.mp hsuffix with hnil | ⟨t, ht, -⟩
    · exact absurd hnil (List.cons_ne_nil c [d])
    · obtain ⟨-, hlast⟩ := List.append_inj' (show [c] ++ [d] = t ++ [c] from ht) rfl
      exact hne (List.cons.inj hlast).1.symm
  · exact h hinner

/-- Two characters that occur in neither of two texts do not occur where these meet, unless the
second text begins with the second character. -/
theorem not_pair_infix_append {c d : Char} {s t : List Char} (hs : ¬ [c, d] <:+: s)
    (ht : ¬ [c, d] <:+: t) (hd : t.head? ≠ some d) : ¬ [c, d] <:+: s ++ t := by
  induction s with
  | nil => simpa using ht
  | cons x s ih =>
    rw [List.cons_append, List.infix_cons_iff]
    rintro (hp | hi)
    · obtain ⟨rfl, htail⟩ := List.cons_prefix_cons.mp hp
      cases s with
      | nil =>
        obtain ⟨u, hu⟩ := htail
        exact hd (by rw [show t = d :: u by simpa using hu.symm]; rfl)
      | cons y s =>
        obtain ⟨rfl, -⟩ := List.cons_prefix_cons.mp htail
        exact hs (List.prefix_append [c, d] s).isInfix
    · exact ih (fun h => hs (h.trans (List.suffix_cons x s).isInfix)) hi

/-- In front of its own occurrence a separator does not begin inside a bounded text. -/
theorem Bounded.isPrefixOf_eq_false {c : Char} {s : List Char} (h : Bounded separator (c :: s))
    (rest : List Char) : separator.isPrefixOf (c :: (s ++ separator ++ rest)) = false := by
  rw [Bool.eq_false_iff, ne_eq, List.isPrefixOf_iff_prefix]
  intro hp
  apply h
  have hlen : separator.length ≤ (c :: s ++ separator.dropLast).length := by
    simp only [List.length_append, List.length_cons, List.length_dropLast]
    omega
  have hlong : c :: s ++ separator.dropLast <+: c :: (s ++ separator ++ rest) := by
    rw [List.append_assoc, ← List.cons_append]
    exact (List.prefix_append_right_inj _).mpr
      ((List.dropLast_prefix separator).trans (List.prefix_append _ _))
  exact (List.prefix_of_prefix_length_le hp hlong hlen).isInfix

/-! ## One cut -/

/-- A bounded text is cut at the separator behind it. -/
theorem cutAt_append {s : List Char} (hne : separator ≠ []) (h : Bounded separator s)
    (rest : List Char) : cutAt separator (s ++ separator ++ rest) = some (s, rest) := by
  induction s with
  | nil =>
    obtain ⟨x, xs, rfl⟩ := List.exists_cons_of_ne_nil hne
    have hp : (x :: xs).isPrefixOf (x :: (xs ++ rest)) = true :=
      List.isPrefixOf_iff_prefix.mpr (List.prefix_append (x :: xs) rest)
    simp only [List.nil_append, List.cons_append, cutAt, hp, if_true]
    simp
  | cons c s ih =>
    simp only [List.cons_append, cutAt, h.isPrefixOf_eq_false rest, Bool.false_eq_true, if_false]
    rw [ih h.tail]
    rfl

/-! ## All cuts -/

theorem piecesAfter_append (xs rest : List Char) :
    piecesAfter separator xs.length (xs ++ rest) = pieces separator rest := by
  induction xs with
  | nil => rfl
  | cons x xs ih => simpa [piecesAfter] using ih

theorem pieces_cons_of_not_isPrefixOf {c : Char} {s : List Char}
    (h : separator.isPrefixOf (c :: s) = false) :
    pieces separator (c :: s) = consFirst c (pieces separator s) := by
  rw [pieces, piecesAfter, h]
  rfl

/-- A bounded text is the first piece of what begins with it and a separator. -/
theorem pieces_append {s : List Char} (hne : separator ≠ []) (h : Bounded separator s)
    (rest : List Char) :
    pieces separator (s ++ separator ++ rest) = s :: pieces separator rest := by
  induction s with
  | nil =>
    obtain ⟨x, xs, rfl⟩ := List.exists_cons_of_ne_nil hne
    have hp : (x :: xs).isPrefixOf (x :: (xs ++ rest)) = true :=
      List.isPrefixOf_iff_prefix.mpr (List.prefix_append (x :: xs) rest)
    simp only [List.nil_append, List.cons_append, pieces, piecesAfter, hp, if_true]
    exact congrArg (List.cons []) (piecesAfter_append xs rest)
  | cons c s ih =>
    rw [List.cons_append, List.cons_append,
      pieces_cons_of_not_isPrefixOf (h.isPrefixOf_eq_false rest), ih h.tail]
    rfl

/-- A text without the separator is a single piece. -/
theorem pieces_of_absent {s : List Char} (h : ¬ separator <:+: s) :
    pieces separator s = [s] := by
  induction s with
  | nil => rfl
  | cons c s ih =>
    have hp : separator.isPrefixOf (c :: s) = false := by
      rw [Bool.eq_false_iff, ne_eq, List.isPrefixOf_iff_prefix]
      exact fun hp => h hp.isInfix
    rw [pieces_cons_of_not_isPrefixOf hp, ih fun hi => h (hi.trans (List.suffix_cons c s).isInfix)]
    rfl

/-- Pieces that were joined are found again. -/
theorem pieces_joined {ps : List (List Char)} (hne : separator ≠ []) (hps : ps ≠ [])
    (h : ∀ p ∈ ps, Bounded separator p) : pieces separator (joined separator ps) = ps := by
  induction ps with
  | nil => exact absurd rfl hps
  | cons p ps ih =>
    cases ps with
    | nil => exact pieces_of_absent (h p (by simp)).absent
    | cons q qs =>
      rw [joined_cons _ _ (List.cons_ne_nil q qs), pieces_append hne (h p (by simp)),
        ih (List.cons_ne_nil q qs) fun r hr => h r (List.mem_cons_of_mem _ hr)]

/-- Joining brings in no characters but those of the separator. -/
theorem not_mem_joined {c : Char} {ps : List (List Char)} (hc : c ∉ separator)
    (h : ∀ p ∈ ps, c ∉ p) : c ∉ joined separator ps := by
  induction ps with
  | nil => exact List.not_mem_nil
  | cons p ps ih =>
    have hp : c ∉ p := h p (by simp)
    have hps : c ∉ joined separator ps := ih fun q hq => h q (List.mem_cons_of_mem _ hq)
    cases ps with
    | nil => exact hp
    | cons q qs => simp [joined_cons, hp, hc, hps]

/-- A separator of one character cuts two texts apart wherever else it stands in them. -/
theorem pieces_append_cons (c : Char) (s t : List Char) :
    pieces [c] (s ++ c :: t) = pieces [c] s ++ pieces [c] t := by
  induction s with
  | nil => simp [pieces, piecesAfter]
  | cons x s ih =>
    by_cases hx : c = x
    · subst hx
      simpa [pieces, piecesAfter] using ih
    · have hp (u : List Char) : [c].isPrefixOf (x :: u) = false := by
        simp [List.isPrefixOf, hx]
      rw [List.cons_append, pieces_cons_of_not_isPrefixOf (hp _),
        pieces_cons_of_not_isPrefixOf (hp _), ih]
      obtain ⟨p, ps, hps⟩ := List.exists_cons_of_ne_nil (pieces_ne_nil [c] s)
      rw [hps]
      rfl

/-! ## What is cut off -/

/-- A text is cut where the separator first occurs. -/
theorem bounded_of_cutAt {s before after : List Char} (hne : separator ≠ [])
    (h : cutAt separator s = some (before, after)) : Bounded separator before := by
  induction s generalizing before with
  | nil =>
    obtain ⟨x, xs, rfl⟩ := List.exists_cons_of_ne_nil hne
    simp [cutAt] at h
  | cons c cs ih =>
    have hwhole := append_of_cutAt h
    rw [cutAt] at h
    split at h
    · obtain ⟨rfl, -⟩ := Prod.mk.inj (Option.some.inj h)
      intro hi
      have hlen := hi.length_le
      have hpos := List.length_pos_iff.mpr hne
      rw [List.nil_append, List.length_dropLast] at hlen
      omega
    · next hfirst =>
      obtain ⟨⟨b, a⟩, hcut, heq⟩ := Option.map_eq_some_iff.mp h
      obtain ⟨rfl, rfl⟩ := Prod.mk.inj heq
      rw [Bounded, List.cons_append, List.infix_cons_iff]
      rintro (hp | hi)
      · -- an occurrence in front of the cut would have been found first
        refine hfirst (List.isPrefixOf_iff_prefix.mpr (hp.trans ?_))
        rw [← hwhole, List.cons_append, List.cons_append, List.append_assoc]
        exact (List.prefix_append_right_inj (c :: b)).mpr
          ((List.dropLast_prefix separator).trans (List.prefix_append _ _))
      · exact ih hcut hi

/-- A text that is not cut does not have the separator anywhere. -/
theorem absent_of_cutAt {s : List Char} (hne : separator ≠ []) (h : cutAt separator s = none) :
    ¬ separator <:+: s := by
  induction s with
  | nil => simpa using hne
  | cons c cs ih =>
    rw [cutAt] at h
    split at h
    · exact absurd h (by simp)
    · next hfirst =>
      rw [List.infix_cons_iff]
      rintro (hp | hi)
      · exact hfirst (List.isPrefixOf_iff_prefix.mpr hp)
      · exact ih (Option.map_eq_none_iff.mp h) hi

/-- The first of all pieces is what the text begins with. -/
theorem prefix_of_pieces {s p : List Char} {ps : List (List Char)} (hne : separator ≠ [])
    (h : pieces separator s = p :: ps) : p <+: s := by
  have hjoined := joined_pieces hne s
  rw [h] at hjoined
  cases ps with
  | nil => exact hjoined ▸ List.prefix_rfl
  | cons q qs =>
    rw [joined, List.append_assoc] at hjoined
    exact hjoined ▸ List.prefix_append _ _

theorem absent_of_mem_piecesAfter (hne : separator ≠ []) (skip : Nat) (s : List Char) :
    ∀ p ∈ piecesAfter separator skip s, ¬ separator <:+: p := by
  induction s generalizing skip with
  | nil => simpa [piecesAfter] using hne
  | cons c cs ih =>
    cases skip with
    | succ skip => exact ih skip
    | zero =>
      rw [piecesAfter]
      split
      · exact List.forall_mem_cons.mpr ⟨by simpa using hne, ih _⟩
      · next hfirst =>
        obtain ⟨p, ps, hps⟩ := List.exists_cons_of_ne_nil (pieces_ne_nil separator cs)
        have hrest := ih 0
        rw [← pieces, hps] at hrest ⊢
        obtain ⟨hp, hothers⟩ := List.forall_mem_cons.mp hrest
        refine List.forall_mem_cons.mpr ⟨?_, hothers⟩
        rw [List.infix_cons_iff]
        rintro (hbegin | hi)
        · refine hfirst (List.isPrefixOf_iff_prefix.mpr (hbegin.trans ?_))
          exact (List.prefix_cons_inj c).mpr (prefix_of_pieces hne hps)
        · exact hp hi

/-- No piece has the separator in it. -/
theorem absent_of_mem_pieces {s p : List Char} (hne : separator ≠ [])
    (h : p ∈ pieces separator s) : ¬ separator <:+: p :=
  absent_of_mem_piecesAfter hne 0 s p h

/-- Both sides of a cut are parts of the text. -/
theorem infix_of_cutAt {s before after : List Char}
    (h : cutAt separator s = some (before, after)) : before <:+: s ∧ after <:+: s := by
  rw [← append_of_cutAt h]
  have hbefore : before <+: before ++ separator ++ after :=
    List.prefix_append_of_prefix (List.prefix_append _ _)
  exact ⟨hbefore.isInfix, (List.suffix_append _ _).isInfix⟩

/-- A piece is a part of whatever it is joined into. -/
theorem infix_joined {p : List Char} {ps : List (List Char)} (h : p ∈ ps) :
    p <:+: joined separator ps := by
  induction ps with
  | nil => exact absurd h List.not_mem_nil
  | cons q qs ih =>
    cases qs with
    | nil =>
      obtain rfl := List.mem_singleton.mp h
      exact List.infix_rfl
    | cons r rs =>
      rw [joined_cons _ _ (List.cons_ne_nil r rs)]
      rcases List.mem_cons.mp h with rfl | h
      · exact (List.prefix_append_of_prefix (List.prefix_append _ _)).isInfix
      · exact (ih h).trans (List.suffix_append _ _).isInfix

/-- Every piece is a part of the text that was cut. -/
theorem infix_of_mem_pieces {s p : List Char} (hne : separator ≠ [])
    (h : p ∈ pieces separator s) : p <:+: s := by
  have hpart : p <:+: joined separator (pieces separator s) := infix_joined h
  rwa [joined_pieces hne] at hpart

end Promptbook.Text
