/-!
Sorting by a key. `sortOn` keeps items of equal key in the order given; `uniqueOn` keeps, of the items
that share a key, only the first given. Both are structural, so that they compute inside a proof.
-/

set_option autoImplicit false

namespace PlanFlow

section

variable {α κ : Type} [LT κ] [DecidableLT κ]

def insertOn (key : α → κ) (item : α) : List α → List α
  | [] => [item]
  | head :: tail =>
      if key head < key item then head :: insertOn key item tail else item :: head :: tail

def sortOn (key : α → κ) : List α → List α
  | [] => []
  | head :: tail => insertOn key head (sortOn key tail)

/-- Inserts into a strictly ascending list, in place of an item of the same key. -/
def insertUniqueOn (key : α → κ) (item : α) : List α → List α
  | [] => [item]
  | head :: tail =>
      if key item < key head then item :: head :: tail
      else if key head < key item then head :: insertUniqueOn key item tail
      else item :: tail

def uniqueOn (key : α → κ) : List α → List α
  | [] => []
  | head :: tail => insertUniqueOn key head (uniqueOn key tail)

end

end PlanFlow
