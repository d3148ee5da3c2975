import Criteria.Proofs.Nesting

/-!
# Proofs/Flattening — a group is flattened in as many passes as it holds tokens and groups

A loop keeps a stack of items, takes the last one in every pass, and puts the items of a group back
in reverse (`Flattening.next?`).  A pass takes one token or group off the stack and keeps the texts
read so far, followed by those still to read, as they are (`Flattening.exists_next?`).  So the loop
makes as many passes as there are tokens and groups, empty ones included, and has then read the
texts that the recursion over the group finds: `Flattening.passes_start`.
-/

namespace Criteria

namespace Item

@[simp] theorem weightAll_singleton (item : Item) : weightAll [item] = item.weight := by
  rw [weightAll, weightAll, Nat.add_zero]

@[simp] theorem weightAll_reverse (items : List Item) :
    weightAll items.reverse = weightAll items := by
  induction items with
  | nil => rfl
  | cons item items ih =>
    rw [List.reverse_cons, weightAll_append, ih, weightAll_singleton, weightAll, Nat.add_comm]

@[simp] theorem weightAll_eq_zero_iff {items : List Item} : weightAll items = 0 ↔ items = [] := by
  cases items with
  | nil => simp [weightAll]
  | cons item items =>
    have := item.weight_pos
    simp only [weightAll, reduceCtorEq, iff_false]
    omega

end Item

/-- What the loop holds between two passes: the items still to read, the next one last, and the
texts read so far. -/
structure Flattening where
  pending : List Item
  values : List Text

namespace Flattening

open Item

variable {s : Flattening} {n : Nat}

/-! ## One pass -/

/-- **A pass of the loop**, if any item is pending: the text of a token is read, and a group gives
way to its items, the first of them last. -/
def next? (s : Flattening) : Option Flattening :=
  match s.pending.getLast? with
  | none => none
  | some (.token value) => some ⟨s.pending.dropLast, s.values ++ [value]⟩
  | some (.group items) => some ⟨s.pending.dropLast ++ items.reverse, s.values⟩

/-- The texts read so far, followed by those still to read. -/
def texts (s : Flattening) : List Text := s.values ++ Group.flatten s.pending.reverse

@[simp] theorem next?_nil (values : List Text) : next? ⟨[], values⟩ = none := rfl

@[simp] theorem next?_token (pending : List Item) (value : Text) (values : List Text) :
    next? ⟨pending ++ [.token value], values⟩ = some ⟨pending, values ++ [value]⟩ := by
  simp [next?]

@[simp] theorem next?_group (pending items : List Item) (values : List Text) :
    next? ⟨pending ++ [.group items], values⟩ = some ⟨pending ++ items.reverse, values⟩ := by
  simp [next?]

/-- **A pass takes one token or group off the stack**, and keeps the texts and their order. -/
theorem exists_next? (h : s.pending ≠ []) :
    ∃ s', s.next? = some s' ∧ weightAll s.pending = weightAll s'.pending + 1 ∧
      s'.texts = s.texts := by
  obtain ⟨pending, values⟩ := s
  obtain ⟨before, item, rfl⟩ := (List.eq_nil_or_concat' pending).resolve_left h
  cases item with
  | token value =>
    refine ⟨_, next?_token before value values, ?_, ?_⟩
    · rw [weightAll_append, weightAll_singleton, weight]
    · simp [texts, Group.flatten]
  | group items =>
    -- the stack is read from its end, so items put back in reverse are read in their order
    refine ⟨_, next?_group before items values, ?_, ?_⟩
    · rw [weightAll_append, weightAll_append, weightAll_singleton, weight, weightAll_reverse]
      omega
    · simp [texts, Group.flatten]

/-! ## The whole loop -/

/-- The given number of passes, if the loop makes as many. -/
def passes : Nat → Flattening → Option Flattening
  | 0, s => some s
  | n + 1, s => s.next?.bind (passes n)

/-- **The passes that are made**: each takes one off the weight of the stack, and all texts stay
where they are. -/
theorem exists_passes (h : n ≤ weightAll s.pending) :
    ∃ s', s.passes n = some s' ∧ weightAll s.pending = weightAll s'.pending + n ∧
      s'.texts = s.texts := by
  induction n generalizing s with
  | zero => exact ⟨s, rfl, rfl, rfl⟩
  | succ n ih =>
    have hpending : s.pending ≠ [] := fun hnil => by
      rw [weightAll_eq_zero_iff.2 hnil] at h
      omega
    obtain ⟨s₁, hnext, hweight, htexts⟩ := exists_next? hpending
    obtain ⟨s₂, hpasses, hweight', htexts'⟩ := ih (s := s₁) (by omega)
    refine ⟨s₂, ?_, by omega, htexts'.trans htexts⟩
    rw [passes, hnext, Option.bind_some, hpasses]

/-- **The loop ends**: no more passes are made than the stack weighs. -/
theorem passes_eq_none_iff : s.passes n = none ↔ weightAll s.pending < n := by
  induction n generalizing s with
  | zero => simp [passes]
  | succ n ih =>
    rw [passes]
    by_cases hpending : s.pending = []
    · obtain ⟨pending, values⟩ := s
      obtain rfl : pending = [] := hpending
      simp [weightAll]
    · obtain ⟨s', hnext, hweight, -⟩ := exists_next? hpending
      rw [hnext, Option.bind_some, ih]
      omega

/-- When the loop ends, all texts are read. -/
theorem passes_weightAll (s : Flattening) :
    s.passes (weightAll s.pending) = some ⟨[], s.texts⟩ := by
  obtain ⟨⟨pending, values⟩, hpasses, hweight, htexts⟩ := exists_passes (Nat.le_refl _)
  obtain rfl : pending = [] := weightAll_eq_zero_iff.1 (by simpa using hweight)
  obtain rfl : values = s.texts := by simpa [texts, Group.flatten] using htexts
  exact hpasses

/-- Before the first pass, the group itself is pending. -/
def start (group : Group) : Flattening := ⟨[.group group], []⟩

@[simp] theorem texts_start (group : Group) : (start group).texts = Group.flatten group := by
  simp [texts, start, Group.flatten]

/-- **The loop ends with the texts of the group.**  It makes one pass for every token and every
group, the outermost included, and then nothing is pending: the texts that it has read are those
that the recursion over the group finds, from left to right, and so is its flattening. -/
theorem passes_start (group : Group) :
    (∀ n, (start group).passes n = none ↔ (Item.group group).weight < n) ∧
    (start group).passes (Item.group group).weight = some ⟨[], valuesAll group⟩ ∧
    Group.flatten group = valuesAll group := by
  have hweight : weightAll (start group).pending = (Item.group group).weight :=
    weightAll_singleton _
  have hvalues : Group.flatten group = valuesAll group := Group.flatten_eq_valuesAll group
  refine ⟨fun n => ?_, ?_, hvalues⟩
  · rw [passes_eq_none_iff, hweight]
  · rw [← hweight, passes_weightAll, texts_start, hvalues]

/-- Groups without any token take a pass as well. -/
example : (start [.token ['a'], .group [], .group [.group [.token ['b']], .token ['c']]]).passes 7 =
    some ⟨[], [['a'], ['b'], ['c']]⟩ := rfl

end Flattening

end Criteria
