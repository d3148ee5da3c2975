import Criteria.Proofs.Reading

/-!
# Proofs/Outlining — a tree is determined by its outline

The lines of an outline are the nodes of the tree in pre-order (`Tree.lines_outline`), if no text in
the tree brings line feeds of its own.  The label of a line says whether two subtrees follow or
none, so a list of lines begins with the lines of one tree only (`Tree.rows_append_inj`).  The
indentations of the lines are the levels of the nodes (`Tree.map_indentation_rows`), which are all
the levels of the tree (`Tree.mem_levels_iff`).  Both together are `Tree.outline_determines`.
-/

namespace Criteria

/-! ## Lines -/

/-- The pieces of a text between its line feeds. -/
def Text.lines (s : Text) : List Text := s.splitOn '\n'

/-- How many spaces a line begins with. -/
def Text.indentation (line : Text) : Nat := (line.takeWhile (· = ' ')).length

namespace Tree

/-- **No text in the tree holds a line feed.** -/
def IsUnbroken (t : Tree) : Prop := ∀ s ∈ t.connectives ++ t.clauses, '\n' ∉ s

instance (t : Tree) : Decidable t.IsUnbroken :=
  inferInstanceAs (Decidable (∀ s ∈ t.connectives ++ t.clauses, '\n' ∉ s))

/-- The levels of the nodes in pre-order, from that of the root. -/
def levels (level : Nat) : Tree → List Nat
  | operand _ => [level]
  | operator _ left right => level :: (left.levels (level + 1) ++ right.levels (level + 1))

/-- What is said of the root of a tree, in one line. -/
def heading (level : Int) : Tree → Text
  | operand clause => margin level ++ "Operand: ".toList ++ clause
  | operator word _ _ => margin level ++ "Operator: ".toList ++ word

/-- What is said of the nodes in pre-order, in a line each. -/
def rows (level : Int) : Tree → List Text
  | operand clause => [(operand clause).heading level]
  | operator word left right =>
    (operator word left right).heading level ::
      (left.rows (level + 1) ++ right.rows (level + 1))

variable {level : Int} {t u left right : Tree} {clause word : Text} {xs ys : List Text}

@[simp] theorem isUnbroken_operand : (operand clause).IsUnbroken ↔ '\n' ∉ clause := by
  simp [IsUnbroken]

@[simp] theorem isUnbroken_operator : (operator word left right).IsUnbroken ↔
    '\n' ∉ word ∧ left.IsUnbroken ∧ right.IsUnbroken := by
  simp only [IsUnbroken, List.forall_mem_append, forall_mem_connectives_operator,
    forall_mem_clauses_operator]
  tauto

@[simp] theorem not_mem_margin (level : Int) : '\n' ∉ margin level :=
  fun h => absurd (List.eq_of_mem_replicate h) (by decide)

theorem not_mem_heading (h : t.IsUnbroken) : '\n' ∉ t.heading level := by
  cases t with
  | operand clause =>
    simpa [heading] using h
  | operator word left right =>
    simpa [heading] using (isUnbroken_operator.1 h).1

/-- **The lines of an outline are what is said of the nodes.** -/
theorem lines_outline (h : t.IsUnbroken) : (t.outline level).lines = t.rows level := by
  induction t generalizing level with
  | operand clause => exact List.splitOn_eq_singleton (not_mem_heading h)
  | operator word left right ihleft ihright =>
    obtain ⟨-, hleft, hright⟩ := isUnbroken_operator.1 h
    have hheading : ((operator word left right).heading level).lines =
        [(operator word left right).heading level] :=
      List.splitOn_eq_singleton (not_mem_heading h)
    calc ((operator word left right).outline level).lines
      _ = ((operator word left right).heading level).lines ++
            ((left.outline (level + 1)).lines ++ (right.outline (level + 1)).lines) := by
        rw [outline, Text.lines, List.splitOn_append_cons_self, List.splitOn_append_cons_self]
        rfl
      _ = (operator word left right).rows level := by
        rw [hheading, ihleft hleft, ihright hright, rows, List.singleton_append]

@[simp] theorem length_rows (level : Int) (t : Tree) : (t.rows level).length = t.size := by
  induction t generalizing level with
  | operand => rfl
  | operator word left right ihleft ihright =>
    rw [rows, List.length_cons, List.length_append, ihleft, ihright, size]
    omega

/-! ## The tree of some lines -/

/-- The line of an operand is never that of an operator. -/
theorem heading_operand_ne :
    (operand clause).heading level ≠ (operator word left right).heading level := by
  simp [heading]

/-- **The lines of a tree are followed by others in one way only**: the label of the first line says
whether those of two subtrees come next, and each of these is found in the same way. -/
theorem rows_append_inj (h : t.rows level ++ xs = u.rows level ++ ys) : t = u ∧ xs = ys := by
  induction t generalizing level u xs ys with
  | operand clause =>
    cases u with
    | operand clause' =>
      obtain ⟨hheading, hrest⟩ := List.cons.inj h
      obtain rfl : clause = clause' := by simpa [heading] using hheading
      exact ⟨rfl, hrest⟩
    | operator => exact absurd (List.cons.inj h).1 heading_operand_ne
  | operator word left right ihleft ihright =>
    cases u with
    | operand => exact absurd (List.cons.inj h).1.symm heading_operand_ne
    | operator word' left' right' =>
      simp only [rows, List.cons_append, List.append_assoc] at h
      obtain ⟨hheading, hrest⟩ := List.cons.inj h
      obtain rfl : word = word' := by simpa [heading] using hheading
      -- what follows the lines of the left subtree are those of the right one, and then the others
      obtain ⟨rfl, hright⟩ := ihleft hrest
      obtain ⟨rfl, rfl⟩ := ihright hright
      exact ⟨rfl, rfl⟩

/-- **The outline determines the tree**, from any level on. -/
theorem eq_of_outline_eq (ht : t.IsUnbroken) (hu : u.IsUnbroken)
    (h : t.outline level = u.outline level) : t = u := by
  have hrows : t.rows level ++ [] = u.rows level ++ [] := by
    rw [← lines_outline ht, ← lines_outline hu, h]
  exact (rows_append_inj hrows).1

/-! ## The levels of the lines -/

@[simp] theorem indentation_heading (level : Nat) (t : Tree) :
    (t.heading level).indentation = 2 * level := by
  cases t <;> simp [heading, Text.indentation, margin]

/-- **Every line is indented by two spaces a level.** -/
theorem map_indentation_rows (level : Nat) (t : Tree) :
    (t.rows level).map Text.indentation = (t.levels level).map (2 * ·) := by
  induction t generalizing level with
  | operand clause => simp [rows, levels]
  | operator word left right ihleft ihright =>
    simp only [rows, levels, List.map_cons, List.map_append, indentation_heading]
    rw [← ihleft, ← ihright, Int.natCast_succ]

/-- **A tree has a node on every level**, from that of its root to its depth. -/
@[simp] theorem mem_levels_iff {level k : Nat} :
    k ∈ t.levels level ↔ level ≤ k ∧ k < level + t.depth := by
  induction t generalizing level with
  | operand =>
    rw [levels, depth, List.mem_singleton]
    omega
  | operator word left right ihleft ihright =>
    have := left.depth_pos
    rw [levels, depth, List.mem_cons, List.mem_append, ihleft, ihright]
    omega

/-- The deepest level is as far below the first as the tree is deep. -/
theorem max?_levels (level : Nat) (t : Tree) :
    (t.levels level).max? = some (level + t.depth - 1) := by
  have := t.depth_pos
  refine List.max?_eq_some_iff.2 ⟨mem_levels_iff.2 (by omega), fun k hk => ?_⟩
  have := (mem_levels_iff.1 hk).2
  omega

/-- No level is too far in iff the deepest one is not. -/
theorem forall_levels_lt_iff {level : Nat} {bound : Int} :
    (∀ k ∈ t.levels level, ((2 * k : Nat) : Int) < bound) ↔
      2 * ((level : Int) + t.depth - 1) < bound := by
  have := t.depth_pos
  simp only [mem_levels_iff]
  refine ⟨fun h => ?_, fun h k hk => by omega⟩
  have := h (level + t.depth - 1) (by omega)
  omega

/-- **An outline is refused iff one of its lines is indented too far.** -/
theorem outline?_eq_some_iff {level : Nat} {s : Text} (h : t.IsUnbroken) :
    t.outline? level = some s ↔
      s = t.outline level ∧ ∀ line ∈ s.lines, (line.indentation : Int) < Text.wordBound := by
  have hlevel : -Text.wordBound ≤ (level : Int) := by
    rw [Text.wordBound]
    omega
  have hfits : (∀ line ∈ (t.outline level).lines, (line.indentation : Int) < Text.wordBound) ↔
      2 * ((level : Int) + t.depth - 1) < Text.wordBound := by
    rw [lines_outline h, ← List.forall_mem_map (P := fun n : Nat => (n : Int) < Text.wordBound),
      map_indentation_rows, List.forall_mem_map, forall_levels_lt_iff]
  rw [outline?, Option.ite_none_right_eq_some, Option.some_inj, and_iff_right hlevel, ← hfits,
    and_comm, eq_comm]
  exact and_congr_right fun hs => by rw [hs]

/-! ## The outline as a whole -/

/-- **A tree is determined by its outline.**  Trees without line feeds in their texts have the same
outline only if they are the same.  The outline has a line for every node.  A line is indented by
two spaces for each of its levels, the largest of which is that of the deepest node; and the outline
is made unless a line is indented too far. -/
theorem outline_determines (level : Nat) :
    (∀ t u : Tree, t.IsUnbroken → u.IsUnbroken → t.outline level = u.outline level → t = u) ∧
    ∀ t : Tree, t.IsUnbroken →
      (t.outline level).lines.length = t.size ∧
      (t.outline level).lines.map Text.indentation = (t.levels level).map (2 * ·) ∧
      (t.levels level).max? = some (level + t.depth - 1) ∧
      ∀ s, t.outline? level = some s ↔
        s = t.outline level ∧ ∀ line ∈ s.lines, (line.indentation : Int) < Text.wordBound := by
  refine ⟨fun t u ht hu h => eq_of_outline_eq ht hu h, fun t ht => ⟨?_, ?_, ?_, ?_⟩⟩
  · rw [lines_outline ht, length_rows]
  · rw [lines_outline ht, map_indentation_rows]
  · exact max?_levels level t
  · exact fun s => outline?_eq_some_iff ht

/-- A parsed rule is known by its outline.  Two trees that differ in their shape have different
outlines, although their texts look like labels or begin with spaces. -/
theorem outline_determines_labels :
    let tree := operator andWord (operand "a > 1".toList)
      (operator orWord (operand "b > 2".toList) (operand "c > 3".toList))
    let parsed := (parse {} "a > 1 AND b > 2 OR c > 3".toList).toOption.getD default
    let before := operator "Operand: OR".toList
      (operator [] (operand "  Operand: a".toList) (operand " ".toList)) (operand [])
    let after := operator "Operand: OR".toList
      (operand "  Operand: a".toList) (operator [] (operand " ".toList) (operand []))
    tree.IsUnbroken ∧ parsed.IsUnbroken ∧ before.IsUnbroken ∧ after.IsUnbroken ∧
      parsed.outline (0 : Nat) = tree.outline (0 : Nat) ∧ parsed = tree ∧
      before.outline (3 : Nat) ≠ after.outline (3 : Nat) ∧
      (tree.outline (0 : Nat)).lines.length = 5 ∧
      (tree.outline (0 : Nat)).lines.map Text.indentation = [0, 2, 2, 4, 4] ∧
      (before.levels 3).max? = some 5 ∧
      tree.outline? (0 : Nat) = some ("Operator: AND\n  Operand: a > 1\n  Operator: OR\n".toList ++
        "    Operand: b > 2\n    Operand: c > 3".toList) := by
  intro tree parsed before after
  have htree : tree.IsUnbroken := by decide
  have hparsed : parsed.IsUnbroken := by decide +kernel
  have hbefore : before.IsUnbroken := by decide
  have hafter : after.IsUnbroken := by decide
  have hsame : parsed.outline (0 : Nat) = tree.outline (0 : Nat) := by decide +kernel
  obtain ⟨hlines, hindentation, -, hmade⟩ := (outline_determines 0).2 tree htree
  refine ⟨htree, hparsed, hbefore, hafter, hsame, ?_, ?_, hlines, hindentation, ?_, ?_⟩
  · exact (outline_determines 0).1 parsed tree hparsed htree hsame
  · intro h
    exact absurd ((outline_determines 3).1 before after hbefore hafter h) (by decide)
  · exact ((outline_determines 3).2 before hbefore).2.2.1
  · exact (hmade _).2 ⟨by decide +kernel, by decide +kernel⟩

/-- With line feeds in a text, another tree may have the same outline. -/
example :
    (operator andWord (operand "a\n  Operand: b".toList) (operand "c".toList)).outline 0 =
      (operator andWord (operand "a".toList) (operand "b\n  Operand: c".toList)).outline 0 := by
  decide

end Tree

end Criteria
