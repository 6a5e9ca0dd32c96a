import TarantoolStorage.Lib.Run

/-!
A queue that is decided from both ends: accepted or released at its front, rejected at its back.
-/
namespace Deque

open Transition List Option

inductive Move (α : Type) where
  | push (a : α)
  | accept (a : α)
  | release (a : α)
  | reject (a : α)
  deriving DecidableEq, Repr

variable {α : Type}

def Move.pushed? : Move α → Option α
  | .push a => some a
  | _ => none

def Move.front? : Move α → Option α
  | .accept a | .release a => some a
  | _ => none

def Move.removed? : Move α → Option α
  | .accept a | .release a | .reject a => some a
  | .push _ => none

def Move.decision? : Move α → Option (α × Bool)
  | .accept a => some (a, true)
  | .reject a => some (a, false)
  | _ => none

variable [DecidableEq α]

def step (queue : List α) : Move α → Option (List α)
  | .push a => some (queue ++ [a])
  | .accept a | .release a => if queue.head? = some a then some queue.tail else none
  | .reject a => if queue.getLast? = some a then some queue.dropLast else none

variable {queue queue' : List α} {moves : List (Move α)}

lemma step_front {m : Move α} {a : α} (hm : m.front? = some a) :
    step (a :: queue) m = some queue := by
  cases m with
  | accept b | release b =>
    obtain rfl : b = a := some.inj hm
    simp [step]
  | push b | reject b => cases hm

lemma step_reject (queue : List α) (a : α) : step (queue ++ [a]) (.reject a) = some queue := by
  simp [step]

lemma front_of_step {m : Move α} {a : α} (hm : m.front? = some a)
    (h : step queue m = some queue') : queue = a :: queue' := by
  have hstep : step queue m = if queue.head? = some a then some queue.tail else none := by
    cases m with
    | accept b | release b =>
      obtain rfl : b = a := some.inj hm
      rfl
    | push b | reject b => cases hm
  rw [hstep] at h
  split at h
  · rename_i hh
    cases queue with
    | nil => cases hh
    | cons b queue =>
      obtain rfl : b = a := some.inj hh
      rw [← some.inj h]
      rfl
  · cases h

lemma back_of_step {a : α} (h : step queue (.reject a) = some queue') : queue = queue' ++ [a] := by
  simp only [step] at h
  split at h
  · rename_i hl
    rw [← some.inj h]
    exact (dropLast_append_getLast? a hl).symm
  · cases h

lemma run_front {β : Type} {key : β → α} {f : β → Move α}
    (hf : ∀ b, (f b).front? = some (key b)) (front : List β) (queue : List α) :
    run step (front.map key ++ queue) (front.map f) = some queue := by
  induction front with
  | nil => rfl
  | cons b front ih =>
    rw [map_cons, map_cons, cons_append, run_cons, step_front (hf b)]
    exact ih

lemma run_back (queue back : List α) :
    run step (queue ++ back) (back.reverse.map .reject) = some queue := by
  induction back using List.reverseRecOn with
  | nil => simp
  | append_singleton back a ih =>
    rw [← append_assoc, reverse_append, reverse_singleton, singleton_append,
      map_cons, run_cons, step_reject]
    exact ih

open Move

/-- Every member is removed once at most: what was removed or is left was pushed. -/
lemma pushed_perm (h : run step queue moves = some queue') :
    (queue ++ moves.filterMap pushed?).Perm (moves.filterMap removed? ++ queue') := by
  induction moves generalizing queue with
  | nil =>
    obtain rfl := some.inj h
    simp
  | cons m moves ih =>
    obtain ⟨q, hstep, hr⟩ := bind_eq_some_iff.mp h
    have hp := ih hr
    cases m with
    | push a =>
      obtain rfl : queue ++ [a] = q := some.inj hstep
      simpa [pushed?, removed?, filterMap_cons] using hp
    | accept a | release a =>
      obtain rfl : queue = a :: q := front_of_step rfl hstep
      simpa [pushed?, removed?, filterMap_cons] using hp
    | reject a =>
      obtain rfl : queue = q ++ [a] := back_of_step hstep
      have hm : (q ++ [a] ++ moves.filterMap pushed?).Perm
          (a :: (q ++ moves.filterMap pushed?)) := by
        rw [append_assoc]
        exact perm_middle
      simpa [pushed?, removed?, filterMap_cons] using hm.trans (hp.cons a)

/-- What leaves at the front leaves in the order of the queue. -/
lemma front_sublist (h : run step queue moves = some queue') :
    (moves.filterMap front? ++ queue').Sublist (queue ++ moves.filterMap pushed?) := by
  induction moves generalizing queue with
  | nil =>
    obtain rfl := some.inj h
    simp
  | cons m moves ih =>
    obtain ⟨q, hstep, hr⟩ := bind_eq_some_iff.mp h
    have hs := ih hr
    cases m with
    | push a =>
      obtain rfl : queue ++ [a] = q := some.inj hstep
      simpa [pushed?, front?, filterMap_cons] using hs
    | accept a | release a =>
      obtain rfl : queue = a :: q := front_of_step rfl hstep
      simpa [pushed?, front?, filterMap_cons] using hs
    | reject a =>
      obtain rfl : queue = q ++ [a] := back_of_step hstep
      have hl : (q ++ moves.filterMap pushed?).Sublist (q ++ [a] ++ moves.filterMap pushed?) := by
        exact Sublist.append (sublist_append_left _ _) (Sublist.refl _)
      simpa [pushed?, front?, filterMap_cons] using hs.trans hl

omit [DecidableEq α] in
lemma decided_sublist (moves : List (Move α)) :
    ((moves.filterMap decision?).map Prod.fst).Sublist (moves.filterMap removed?) := by
  induction moves with
  | nil => exact Sublist.refl _
  | cons m moves ih =>
    cases m with
    | push a => exact ih
    | accept a | reject a => exact ih.cons_cons a
    | release a => exact ih.cons a

omit [DecidableEq α] in
lemma accepted_sublist (moves : List (Move α)) :
    (((moves.filterMap decision?).filter Prod.snd).map Prod.fst).Sublist
      (moves.filterMap front?) := by
  induction moves with
  | nil => exact Sublist.refl _
  | cons m moves ih =>
    cases m with
    | push a | reject a => exact ih
    | accept a => exact ih.cons_cons a
    | release a => exact ih.cons a

omit [DecidableEq α] in
/-- Members that were pushed once each stand in one order only. -/
lemma not_sublist_swap {x y : α} {first middle last : List α}
    (h : (first ++ x :: middle ++ y :: last).Nodup) :
    ¬ [y, x].Sublist (first ++ x :: middle ++ y :: last) := by
  intro hs
  have hd := (nodup_append.mp h).2.2
  have hx : x ∈ first ++ x :: middle := by simp
  obtain ⟨front, back, he, hf, hb⟩ := sublist_append_iff.mp hs
  cases front with
  | nil =>
    rw [← he.trans (nil_append back)] at hb
    exact hd x hx x (hb.subset (by simp)) rfl
  | cons a front =>
    obtain rfl : y = a := (cons_eq_cons.mp he).1
    exact hd y (hf.subset mem_cons_self) y mem_cons_self rfl

/-- Whoever is pushed behind a member that is rejected later has been rejected before it. -/
lemma mem_of_rejected {x y : α} {start middle last : List (Move α)}
    (h : run step [] (start ++ .push x :: middle ++ .push y :: last) = some (queue ++ [x]))
    (hn : ((start ++ .push x :: middle ++ .push y :: last).filterMap pushed?).Nodup) :
    .reject y ∈ start ++ .push x :: middle ++ .push y :: last := by
  have hpe := pushed_perm h
  have hf := front_sublist h
  generalize hmo : start ++ .push x :: middle ++ .push y :: last = moves at *
  have hp : moves.filterMap pushed? = start.filterMap pushed? ++
      x :: middle.filterMap pushed? ++ y :: last.filterMap pushed? := by
    rw [← hmo]
    simp [pushed?]
  rw [hp] at hn
  rw [nil_append, hp] at hpe hf
  have hs := not_sublist_swap hn
  -- a member that left at the front, or that is still in the queue, would stand before `x`
  have hq : y ∉ queue := by
    intro hy
    refine hs (Sublist.trans ?_ ((sublist_append_right _ _).trans hf))
    exact (singleton_sublist.mpr hy).append (Sublist.refl [x])
  have hg : y ∉ moves.filterMap front? := by
    intro hy
    refine hs (Sublist.trans ?_ hf)
    exact (singleton_sublist.mpr hy).append (sublist_append_right queue [x])
  have hne : y ≠ x := by
    rintro rfl
    simp [nodup_append] at hn
  have hr : y ∈ moves.filterMap removed? := by
    have hy := hpe.mem_iff.mp (mem_append_right _ mem_cons_self)
    simpa [hq, hne] using hy
  obtain ⟨m, hm, hmy⟩ := mem_filterMap.mp hr
  cases m with
  | push a => cases hmy
  | accept a | release a => exact absurd (mem_filterMap.mpr ⟨_, hm, by exact hmy⟩) hg
  | reject a =>
    obtain rfl : a = y := some.inj hmy
    exact hm

lemma removed_unique (h : run step [] moves = some queue) (hn : (moves.filterMap pushed?).Nodup) :
    moves.Pairwise fun m m' => ∀ a, m.removed? = some a → m'.removed? ≠ some a := by
  have hr : (moves.filterMap removed?).Nodup := by
    have hp := pushed_perm h
    rw [nil_append] at hp
    exact (nodup_append.mp (hp.nodup_iff.mp hn)).1
  refine (pairwise_filterMap.mp hr).imp fun {m m'} hne a hm hm' => ?_
  exact hne a hm a hm' rfl

end Deque
