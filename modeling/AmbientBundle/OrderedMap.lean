/-!
Finite maps whose entries stand in the order in which their keys first came in. A key has one
entry: a value put again takes the old place.
-/
namespace AmbientBundle

structure OrderedMap (κ α : Type) where
  entries : List (κ × α)
  keys_nodup : (entries.map Prod.fst).Nodup

namespace OrderedMap

variable {κ α : Type}

def empty : OrderedMap κ α := ⟨[], List.nodup_nil⟩

instance : Inhabited (OrderedMap κ α) := ⟨empty⟩
instance : EmptyCollection (OrderedMap κ α) := ⟨empty⟩

def keys (m : OrderedMap κ α) : List κ := m.entries.map Prod.fst

def size (m : OrderedMap κ α) : Nat := m.entries.length

variable [DecidableEq κ]

def find (k : κ) : List (κ × α) → Option α
  | [] => none
  | e :: r => if e.1 = k then some e.2 else find k r

/-- The entries with the key's value replaced, or with a new entry at the end. -/
def place (k : κ) (a : α) : List (κ × α) → List (κ × α)
  | [] => [(k, a)]
  | e :: r => if e.1 = k then (k, a) :: r else e :: place k a r

def get? (m : OrderedMap κ α) (k : κ) : Option α := find k m.entries

def contains (m : OrderedMap κ α) (k : κ) : Bool := (m.get? k).isSome

theorem find_isSome_iff (k : κ) (es : List (κ × α)) :
    (find k es).isSome ↔ k ∈ es.map Prod.fst := by
  induction es with
  | nil => simp [find]
  | cons e r ih =>
    by_cases h : e.1 = k
    · simp [find, h]
    · simp [find, h, ih, Ne.symm h]

theorem keys_place (k : κ) (a : α) (es : List (κ × α)) :
    (place k a es).map Prod.fst =
      if k ∈ es.map Prod.fst then es.map Prod.fst else es.map Prod.fst ++ [k] := by
  induction es with
  | nil => simp [place]
  | cons e r ih =>
    by_cases h : e.1 = k
    · simp [place, h]
    · simp only [place, h, if_false, List.map_cons, ih, List.mem_cons, Ne.symm h, false_or]
      split <;> simp

/-- Gives the key a value; a key that is there keeps its place. -/
def put (m : OrderedMap κ α) (k : κ) (a : α) : OrderedMap κ α :=
  ⟨place k a m.entries, by
    rw [keys_place]
    split
    · exact m.keys_nodup
    · rename_i h
      exact List.nodup_append.2 ⟨m.keys_nodup, by simp,
        fun x hx y hy => by rintro rfl; simp_all⟩⟩

/-- Gives the key a value unless it has one. -/
def putNew (m : OrderedMap κ α) (k : κ) (a : α) : OrderedMap κ α :=
  if m.contains k then m else m.put k a

theorem find_place (k l : κ) (a : α) (es : List (κ × α)) :
    find l (place k a es) = if k = l then some a else find l es := by
  induction es with
  | nil => simp [place, find]
  | cons e r ih =>
    by_cases h : e.1 = k
    · by_cases hl : k = l <;> simp [place, find, h, hl]
    · by_cases hl : k = l
      · subst hl
        simp [place, find, h, ih]
      · simp [place, find, h, ih, hl]

theorem get?_put (m : OrderedMap κ α) (k l : κ) (a : α) :
    (m.put k a).get? l = if k = l then some a else m.get? l :=
  find_place k l a m.entries

theorem get?_putNew (m : OrderedMap κ α) (k l : κ) (a : α) :
    (m.putNew k a).get? l = if k = l then some ((m.get? k).getD a) else m.get? l := by
  unfold putNew contains
  cases h : m.get? k with
  | none => simp [get?_put]
  | some b =>
    by_cases hl : k = l
    · subst hl; simp [h]
    · simp [hl]

theorem keys_put (m : OrderedMap κ α) (k : κ) (a : α) :
    (m.put k a).keys = if k ∈ m.keys then m.keys else m.keys ++ [k] :=
  keys_place k a m.entries

end OrderedMap

end AmbientBundle
