import Mathlib

/-!
# Interleavings

Parties send requests, each in its own order, and a server handles them in the order in
which they arrive. When the requests of one commute with those of the others, up to an
equivalence that every request respects, the order of arrival does not matter.

Results:
1. `foldl_comm`: a request moves past all requests of another party.
2. `foldl_interleaving`: for two parties, every order of arrival is as good as one party
   after the other.
3. `foldl_interleavings`: the same for any number of parties.
-/

/-- The third list has the elements of the first two, each in their order. -/
inductive Interleaving {ε : Type} : List ε → List ε → List ε → Prop
  | nil : Interleaving [] [] []
  | left {x : ε} {xs ys us : List ε} : Interleaving xs ys us → Interleaving (x :: xs) ys (x :: us)
  | right {y : ε} {xs ys us : List ε} : Interleaving xs ys us → Interleaving xs (y :: ys) (y :: us)

/-- The list has the elements of all the given ones, each in their order. -/
inductive Interleavings {ε : Type} : List (List ε) → List ε → Prop
  | nil : Interleavings [] []
  | cons {xs vs us : List ε} {xss : List (List ε)} :
      Interleavings xss vs → Interleaving xs vs us → Interleavings (xs :: xss) us

namespace Interleaving

theorem perm {ε : Type} {xs ys us : List ε} (h : Interleaving xs ys us) : us.Perm (xs ++ ys) := by
  induction h with
  | nil => exact .refl []
  | left _ ih => exact ih.cons _
  | right _ ih => exact (ih.cons _).trans List.perm_middle.symm

end Interleaving

namespace Interleavings

theorem perm {ε : Type} {xss : List (List ε)} {us : List ε} (h : Interleavings xss us) :
    us.Perm xss.flatten := by
  induction h with
  | nil => exact .refl []
  | cons _ hus ih => exact hus.perm.trans (ih.append_left _)

end Interleavings

namespace Interleaving

section Requests

variable {σ ε : Type} {f : σ → ε → σ} {R : σ → σ → Prop} {P : ε → Prop}

theorem foldl_congr (hcongr : ∀ e s t, P e → R s t → R (f s e) (f t e)) {es : List ε}
    (hes : ∀ e ∈ es, P e) {s t : σ} (h : R s t) : R (es.foldl f s) (es.foldl f t) := by
  induction es generalizing s t with
  | nil => exact h
  | cons e es ih =>
    exact ih (fun e' he' => hes e' (List.mem_cons_of_mem e he'))
      (hcongr e s t (hes e List.mem_cons_self) h)

theorem foldl_comm (hR : Equivalence R) (hcongr : ∀ e s t, P e → R s t → R (f s e) (f t e))
    {xs : List ε} {y : ε} (hP : ∀ e ∈ xs, P e)
    (hcomm : ∀ x ∈ xs, ∀ s, R (f (f s y) x) (f (f s x) y)) (s : σ) :
    R (xs.foldl f (f s y)) (f (xs.foldl f s) y) := by
  induction xs generalizing s with
  | nil => exact hR.refl _
  | cons x xs ih =>
    have hxs : ∀ e ∈ xs, P e := fun e he => hP e (List.mem_cons_of_mem x he)
    have hfirst := foldl_congr hcongr hxs (hcomm x List.mem_cons_self s)
    exact hR.trans hfirst (ih hxs (fun e he => hcomm e (List.mem_cons_of_mem x he)) (f s x))

/-- When the requests of the parties commute, every order of arrival leads to the same
as one party after the other. -/
theorem foldl_interleaving (hR : Equivalence R)
    (hcongr : ∀ e s t, P e → R s t → R (f s e) (f t e)) {xs ys us : List ε}
    (hP : ∀ e ∈ xs ++ ys, P e)
    (hcomm : ∀ x ∈ xs, ∀ y ∈ ys, ∀ s, R (f (f s y) x) (f (f s x) y))
    (h : Interleaving xs ys us) (s : σ) : R (us.foldl f s) ((xs ++ ys).foldl f s) := by
  induction h generalizing s with
  | nil => exact hR.refl s
  | @left x xs ys us _ ih =>
    exact ih (fun e he => hP e (List.mem_cons_of_mem x he))
      (fun x' hx' => hcomm x' (List.mem_cons_of_mem x hx')) (f s x)
  | @right y xs ys us _ ih =>
    have hxs : ∀ e ∈ xs, P e := fun e he => hP e (List.mem_append_left _ he)
    have hys : ∀ e ∈ ys, P e :=
      fun e he => hP e (List.mem_append_right xs (List.mem_cons_of_mem y he))
    have hrest := ih (fun e he => (List.mem_append.mp he).elim (hxs e) (hys e))
      (fun x hx y' hy' => hcomm x hx y' (List.mem_cons_of_mem y hy')) (f s y)
    have hmove := foldl_comm hR hcongr hxs (fun x hx => hcomm x hx y List.mem_cons_self) s
    rw [List.foldl_append] at hrest
    rw [List.foldl_append, List.foldl_cons]
    exact hR.trans hrest (foldl_congr hcongr hys hmove)

/-- The same for any number of parties. -/
theorem foldl_interleavings (hR : Equivalence R)
    (hcongr : ∀ e s t, P e → R s t → R (f s e) (f t e)) {xss : List (List ε)} {us : List ε}
    (hP : ∀ e ∈ xss.flatten, P e)
    (hcomm : xss.Pairwise fun xs ys => ∀ x ∈ xs, ∀ y ∈ ys, ∀ s, R (f (f s y) x) (f (f s x) y))
    (h : Interleavings xss us) (s : σ) : R (us.foldl f s) (xss.flatten.foldl f s) := by
  induction h generalizing s with
  | nil => exact hR.refl s
  | @cons xs vs us xss hvs hus ih =>
    obtain ⟨hhead, htail⟩ := List.pairwise_cons.mp hcomm
    have hrest : ∀ e ∈ xss.flatten, P e := fun e he => hP e (List.mem_append_right xs he)
    have hfirst : R (us.foldl f s) ((xs ++ vs).foldl f s) := by
      refine foldl_interleaving hR hcongr (fun e he => ?_) (fun x hx y hy => ?_) hus s
      · exact hP e ((hvs.perm.append_left xs).mem_iff.mp he)
      · obtain ⟨ys, hys, hmem⟩ := List.mem_flatten.mp (hvs.perm.mem_iff.mp hy)
        exact hhead ys hys x hx y hmem
    rw [List.foldl_append] at hfirst
    rw [List.flatten_cons, List.foldl_append]
    exact hR.trans hfirst (ih hrest htail (xs.foldl f s))

end Requests

end Interleaving
