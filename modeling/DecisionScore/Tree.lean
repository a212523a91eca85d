/-! # Labelled trees

The tree of a parsed text: each node has a kind, the role it plays in its parent, the row its
first token starts on (counted from zero), the text of a leaf, and its children in order. -/

namespace DecisionScore

/-- A tree with kinds `κ` and roles `ρ`. -/
inductive Tree (κ ρ : Type) where
  | node (kind : κ) (role : Option ρ) (row : Nat) (text : String) (children : List (Tree κ ρ))
deriving Repr, Inhabited

namespace Tree

variable {κ ρ : Type}

/-- The kind of the root. -/
def kind : Tree κ ρ → κ
  | node k _ _ _ _ => k

/-- The role of the root in its parent. -/
def role : Tree κ ρ → Option ρ
  | node _ r _ _ _ => r

/-- The row the tree starts on. -/
def row : Tree κ ρ → Nat
  | node _ _ n _ _ => n

/-- The text of a leaf. -/
def text : Tree κ ρ → String
  | node _ _ _ s _ => s

/-- The children in order. -/
def children : Tree κ ρ → List (Tree κ ρ)
  | node _ _ _ _ cs => cs

/-- The tree in another role. -/
def inRole (r : Option ρ) : Tree κ ρ → Tree κ ρ
  | node k _ n s cs => node k r n s cs

/-- The first child in a given role. -/
def child? [DecidableEq ρ] (t : Tree κ ρ) (r : ρ) : Option (Tree κ ρ) :=
  t.children.find? fun c => c.role == some r

mutual

/-- The number of nodes. -/
def size : Tree κ ρ → Nat
  | node _ _ _ _ cs => sizes cs + 1

/-- The number of nodes of several trees. -/
def sizes : List (Tree κ ρ) → Nat
  | [] => 0
  | t :: ts => size t + sizes ts

end

theorem size_eq (t : Tree κ ρ) : t.size = sizes t.children + 1 := by
  cases t; simp [size, children]

@[simp] theorem sizes_nil : sizes ([] : List (Tree κ ρ)) = 0 := by simp [sizes]

@[simp] theorem sizes_cons (t : Tree κ ρ) (ts : List (Tree κ ρ)) :
    sizes (t :: ts) = t.size + sizes ts := by simp [sizes]

theorem sizes_append (ts us : List (Tree κ ρ)) : sizes (ts ++ us) = sizes ts + sizes us := by
  induction ts with
  | nil => simp
  | cons t ts ih => simp [ih, Nat.add_assoc]

theorem size_le_sizes {t : Tree κ ρ} {ts : List (Tree κ ρ)} (h : t ∈ ts) : t.size ≤ sizes ts := by
  induction ts with
  | nil => cases h
  | cons u ts ih =>
    rcases List.mem_cons.mp h with rfl | h
    · simp
    · have := ih h; simp; omega

/-- A child found by its role is a child. -/
theorem mem_of_child? [DecidableEq ρ] {t c : Tree κ ρ} {r : ρ} (h : t.child? r = some c) :
    c ∈ t.children := List.mem_of_find?_eq_some h

end Tree

end DecisionScore
