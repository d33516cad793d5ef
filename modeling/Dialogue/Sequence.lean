/-!
# Sequences

What core does not have for lists: two ways to change the elements, only the last one or all of them
from left to right with a value handed on, and what they come to together.
-/

namespace Dialogue

variable {α σ : Type}

/-- Changes the last element. -/
def modifyLast (f : α → α) : List α → List α
  | [] => []
  | [a] => [f a]
  | a :: b :: rest => a :: modifyLast f (b :: rest)

@[simp] theorem modifyLast_nil (f : α → α) : modifyLast f [] = [] := rfl

@[simp] theorem modifyLast_append_singleton (f : α → α) (l : List α) (a : α) :
    modifyLast f (l ++ [a]) = l ++ [f a] := by
  induction l with
  | nil => rfl
  | cons b rest ih =>
    cases rest with
    | nil => rfl
    | cons c rest => simpa [modifyLast] using ih

/-- Changes every element, handing a value on from each to the next. -/
def carry (f : σ → α → α × σ) (s : σ) : List α → List α × σ
  | [] => ([], s)
  | a :: rest =>
    let (b, s₁) := f s a
    let (bs, s₂) := carry f s₁ rest
    (b :: bs, s₂)

/-- What the elements weigh together. -/
def total (weight : α → Nat) : List α → Nat
  | [] => 0
  | a :: rest => weight a + total weight rest

@[simp] theorem total_nil (weight : α → Nat) : total weight [] = 0 := rfl

@[simp] theorem total_cons (weight : α → Nat) (a : α) (rest : List α) :
    total weight (a :: rest) = weight a + total weight rest := rfl

@[simp] theorem total_append (weight : α → Nat) (l l' : List α) :
    total weight (l ++ l') = total weight l + total weight l' := by
  induction l with
  | nil => simp
  | cons a rest ih => simp only [List.cons_append, total_cons, ih, Nat.add_assoc]

@[simp] theorem total_map {β : Type} (weight : β → Nat) (f : α → β) (l : List α) :
    total weight (l.map f) = total (fun a => weight (f a)) l := by
  induction l with
  | nil => rfl
  | cons a rest ih => rw [List.map_cons, total_cons, ih, total_cons]

end Dialogue
