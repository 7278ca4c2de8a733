import Mathlib

/-!
# Replacing parts of a text

A text is its list of characters. A regular expression `[...]` matches one
character: one of those between the brackets, or one of a range `a-z` there. A
hyphen that ends the class stands for itself, and so do `+`, `(` and `)`. Negated
and nested classes and escapes are left out. A literal target is looked for from
left to right, each time after the last one that was found.

Results:
1. `deleteAll_eq_filter`: deleting every match of a class keeps the other
   characters, in order.
2. `replaceAll_append`, `replaceAll_target`: a text without the first character of
   the target stays as it is, and a target is replaced.
-/

/-! ## 1. Bracket classes -/

namespace CharClass

/-- What stands between the brackets. -/
inductive Item
  | char (c : Char)
  | range (lo hi : Char)
deriving DecidableEq

def Item.Matches : Item → Char → Bool
  | .char c, d => d == c
  | .range lo hi, d => decide (lo ≤ d) && decide (d ≤ hi)

/-- A class matches what one of its items matches. -/
def Matches (items : List Item) (d : Char) : Bool := items.any (·.Matches d)

/-- The items up to the closing bracket, which ends the expression. -/
def items : List Char → Option (List Item)
  | [] => none
  | [']'] => some []
  | lo :: '-' :: hi :: rest =>
    if hi = ']' then (items ('-' :: hi :: rest)).map (.char lo :: ·)
    else (items rest).map (.range lo hi :: ·)
  | c :: rest => if c ∈ [']', '[', '\\', '&'] then none else (items rest).map (.char c :: ·)

/-- The class that a regular expression is, if it is one. -/
def ofPattern (pattern : List Char) : Option (List Item) :=
  match pattern with
  | '[' :: '^' :: _ => none
  | '[' :: rest => items rest
  | _ => none

/-- Every match replaced, from left to right. -/
def replaceAll (items : List Item) (replacement text : List Char) : List Char :=
  text.flatMap fun c => if Matches items c then replacement else [c]

theorem deleteAll_eq_filter (items : List Item) (text : List Char) :
    replaceAll items [] text = text.filter fun c => !Matches items c := by
  induction text with
  | nil => rfl
  | cons c cs ih =>
    unfold replaceAll at ih ⊢
    rw [List.flatMap_cons, ih, List.filter_cons]
    cases Matches items c <;> rfl

end CharClass

/-! ## 2. Literal targets -/

namespace Literal

/-- Every occurrence of the target replaced; the next `skip` characters are the
rest of one that has been. -/
def replaceFrom (target replacement : List Char) : Nat → List Char → List Char
  | _, [] => []
  | skip + 1, _ :: cs => replaceFrom target replacement skip cs
  | 0, c :: cs =>
    if target.isPrefixOf (c :: cs) then
      replacement ++ replaceFrom target replacement (target.length - 1) cs
    else c :: replaceFrom target replacement 0 cs

def replaceAll (target replacement text : List Char) : List Char :=
  replaceFrom target replacement 0 text

section

variable {t : Char} {target replacement : List Char}

theorem replaceFrom_skip (xs ys : List Char) :
    replaceFrom target replacement xs.length (xs ++ ys) = replaceAll target replacement ys := by
  induction xs with
  | nil => rfl
  | cons x xs ih => exact ih

/-- Where the target does not start, the character stays. -/
theorem replaceAll_cons {c : Char} {cs : List Char} (h : target.isPrefixOf (c :: cs) = false) :
    replaceAll target replacement (c :: cs) = c :: replaceAll target replacement cs := by
  rw [replaceAll, replaceFrom, h]
  rfl

/-- What does not hold the first character of the target stays. -/
theorem replaceAll_append {xs : List Char} (h : t ∉ xs) (ys : List Char) :
    replaceAll (t :: target) replacement (xs ++ ys) =
      xs ++ replaceAll (t :: target) replacement ys := by
  induction xs with
  | nil => rfl
  | cons x xs ih =>
    have hx : t ≠ x := List.ne_of_not_mem_cons h
    have hnot : (t :: target).isPrefixOf (x :: (xs ++ ys)) = false := by
      simp [List.isPrefixOf, hx]
    rw [List.cons_append, replaceAll_cons hnot, ih (List.not_mem_of_not_mem_cons h)]
    rfl

theorem replaceAll_of_not_mem {xs : List Char} (h : t ∉ xs) :
    replaceAll (t :: target) replacement xs = xs := by
  have happend : replaceAll (t :: target) replacement (xs ++ []) = xs ++ [] :=
    replaceAll_append h []
  rwa [List.append_nil] at happend

theorem replaceAll_target (ys : List Char) :
    replaceAll (t :: target) replacement (t :: target ++ ys) =
      replacement ++ replaceAll (t :: target) replacement ys := by
  have hprefix : (t :: target).isPrefixOf (t :: (target ++ ys)) = true := by
    rw [List.isPrefixOf_iff_prefix, ← List.cons_append]
    exact List.prefix_append _ _
  rw [List.cons_append, replaceAll, replaceFrom, if_pos hprefix]
  exact congrArg (replacement ++ ·) (replaceFrom_skip target ys)

end

end Literal
