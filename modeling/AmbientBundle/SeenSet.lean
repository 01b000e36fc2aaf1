/-!
Sets whose members stand in the order in which they first came in.
-/
namespace AmbientBundle

structure SeenSet (α : Type) where
  items : List α
  nodup : items.Nodup

namespace SeenSet

variable {α : Type}

def empty : SeenSet α := ⟨[], List.nodup_nil⟩

instance : Inhabited (SeenSet α) := ⟨empty⟩
instance : EmptyCollection (SeenSet α) := ⟨empty⟩

def size (s : SeenSet α) : Nat := s.items.length

def isEmpty (s : SeenSet α) : Bool := s.items.isEmpty

/-- The members that came in after the set held `n` of them. -/
def addedSince (s : SeenSet α) (n : Nat) : List α := s.items.drop n

variable [DecidableEq α]

def contains (s : SeenSet α) (a : α) : Bool := decide (a ∈ s.items)

def insert (s : SeenSet α) (a : α) : SeenSet α :=
  if h : a ∈ s.items then s
  else ⟨s.items ++ [a], List.nodup_append.2 ⟨s.nodup, by simp,
    fun x hx y hy => by rintro rfl; simp_all⟩⟩

def ofList (l : List α) : SeenSet α := l.foldl insert empty

theorem items_insert (s : SeenSet α) (a : α) :
    (s.insert a).items = if a ∈ s.items then s.items else s.items ++ [a] := by
  unfold insert
  split <;> rfl

theorem contains_insert (s : SeenSet α) (a b : α) :
    (s.insert a).contains b = (s.contains b || decide (b = a)) := by
  by_cases h : a ∈ s.items
  · by_cases hb : b = a
    · subst hb; simp [contains, items_insert, h]
    · simp [contains, items_insert, h, hb]
  · simp [contains, items_insert, h]

theorem mem_foldl_insert (l : List α) (s : SeenSet α) (a : α) :
    a ∈ (l.foldl insert s).items ↔ a ∈ s.items ∨ a ∈ l := by
  induction l generalizing s with
  | nil => simp
  | cons b l ih =>
    rw [List.foldl_cons, ih, items_insert, List.mem_cons]
    by_cases hb : b ∈ s.items
    · rw [if_pos hb]
      constructor
      · rintro (h | h)
        · exact Or.inl h
        · exact Or.inr (Or.inr h)
      · rintro (h | rfl | h)
        · exact Or.inl h
        · exact Or.inl hb
        · exact Or.inr h
    · rw [if_neg hb, List.mem_append, List.mem_singleton, or_assoc]

theorem mem_ofList (l : List α) (a : α) : a ∈ (ofList l).items ↔ a ∈ l := by
  simp [ofList, mem_foldl_insert, empty]

end SeenSet

end AmbientBundle
