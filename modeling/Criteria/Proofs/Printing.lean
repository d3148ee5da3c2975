import Criteria.Tree.Json
import Mathlib.Tactic.SplitIfs

/-!
# Proofs/Printing — a printed tree is read as the object that stores it

Characters come first: what `escape` writes is read as the one character it was
(`string?_escape_append`), so a quoted text is read back whole.  The layout is white space, which
the scanner drops, so a tree is scanned to the same tokens with every indentation
(`scan_printAt_append`), and these are read as its encoding, inside any containers that leave room
for its levels (`readsAs_tokens`).  The text layer changes nothing: `ofJson_toJson`.
-/

namespace Criteria

namespace Json

/-! ## Escapes -/

/-- The four digits of a unit's escape. -/
def unitDigits (n : Nat) : Text := (unitEscape n).drop 2

theorem hexDigit?_hexDigit : ∀ n < 16, Text.hexDigit? (hexDigit n) = some n := by decide

/-- **Four digits write a sixteen-bit unit.** -/
theorem hex4?_unitDigits_append {n : Nat} (h : n < 0x10000) (rest : Text) :
    hex4? (unitDigits n ++ rest) = some (n, rest) := by
  have hd (m : Nat) : Text.hexDigit? (hexDigit (m % 16)) = some (m % 16) :=
    hexDigit?_hexDigit _ (Nat.mod_lt m (by decide))
  simp only [unitDigits, unitEscape, List.drop_succ_cons, List.drop_zero, List.cons_append,
    List.nil_append, hex4?, hd, Option.bind_eq_bind, Option.bind_some, Option.pure_def,
    Option.some.injEq, Prod.mk.injEq, and_true, Text.ofDigits, List.foldl_cons, List.foldl_nil]
  omega

/-- A code point is no surrogate. -/
theorem toNat_bounds (c : Char) :
    c.toNat < 0xD800 ∨ 0xDFFF < c.toNat ∧ c.toNat < 0x110000 := c.valid

@[simp] theorem char?_toNat (c : Char) : Text.Encoding.char? c.toNat = some c := by
  have : c.toNat.isValidChar := c.valid
  rw [Text.Encoding.char?, if_pos this, Char.ofNat_toNat]

/-- A character of the basic plane is read from its unit. -/
theorem escaped?_unit {c : Char} (h : c.toNat < 0x10000) (rest : Text) :
    escaped? ('u' :: unitDigits c.toNat ++ rest) = some (c, rest) := by
  have hhigh : Text.Encoding.isHigh c.toNat = false := by
    have := toNat_bounds c
    simp only [Text.Encoding.isHigh, Bool.and_eq_false_iff, decide_eq_false_iff_not]
    omega
  rw [List.cons_append, escaped?, if_pos rfl, hex4?_unitDigits_append h]
  simp only [hhigh, Bool.false_eq_true, if_false, char?_toNat, Option.map_some]

/-- A character beyond the basic plane is read from two units, a surrogate each. -/
theorem escaped?_pair {c : Char} {high low : Nat} (hh : Text.Encoding.isHigh high)
    (hl : Text.Encoding.isLow low) (hj : Text.Encoding.joinSurrogates high low = c.toNat)
    (rest : Text) :
    escaped? ('u' :: unitDigits high ++ (unitEscape low ++ rest)) = some (c, rest) := by
  have hhigh : high < 0x10000 := by
    simp only [Text.Encoding.isHigh, Bool.and_eq_true, decide_eq_true_eq] at hh
    omega
  have hlow : low < 0x10000 := by
    simp only [Text.Encoding.isLow, Bool.and_eq_true, decide_eq_true_eq] at hl
    omega
  have hrest : unitEscape low ++ rest = '\\' :: 'u' :: (unitDigits low ++ rest) := rfl
  rw [hrest, List.cons_append, escaped?, if_pos rfl, hex4?_unitDigits_append hhigh]
  simp only [hh, if_true, hex4?_unitDigits_append hlow, Option.bind_eq_bind, Option.bind_some, hl,
    hj, Char.ofNat_toNat, Option.pure_def]

/-- **The two surrogates of a character** beyond the basic plane. -/
theorem joinSurrogates_eq_toNat {c : Char} {high low : Nat} (h : 0x10000 ≤ c.toNat)
    (hh : high = 0xD800 + (c.toNat - 0x10000) / 0x400)
    (hl : low = 0xDC00 + (c.toNat - 0x10000) % 0x400) :
    Text.Encoding.isHigh high ∧ Text.Encoding.isLow low ∧
      Text.Encoding.joinSurrogates high low = c.toNat := by
  have := toNat_bounds c
  unfold Text.Encoding.isHigh Text.Encoding.isLow Text.Encoding.joinSurrogates
  simp only [Bool.and_eq_true, decide_eq_true_eq]
  omega

/-- A letter after a backslash is read as the character it stands for. -/
theorem escaped?_shortLetter {c letter : Char} (h : shortLetter? c = some letter) (rest : Text) :
    escaped? (letter :: rest) = some (c, rest) := by
  unfold shortLetter? at h
  split_ifs at h with h₁ h₂ h₃ h₄ h₅ h₆
  · obtain rfl := Option.some.inj h
    rcases h₁ with rfl | rfl <;> rfl
  all_goals
    obtain rfl := Option.some.inj h
    subst c
    rfl

/-! ## Strings -/

/-- An escape in a string stands for one character, and the string goes on behind it. -/
theorem string?_backslash {cs rest : Text} {d : Char} (h : escaped? cs = some (d, rest)) :
    string? ('\\' :: cs) = (string? rest).map fun p => (d :: p.1, p.2) := by
  rw [string?, if_neg (by decide), if_pos rfl]
  split
  · rename_i h'
    obtain ⟨rfl, rfl⟩ := Prod.mk.inj (Option.some.inj (h.symm.trans h'))
    rfl
  · rename_i h'
    exact absurd (h.symm.trans h') (by simp)

/-- **An escaped character is read as itself.** -/
theorem string?_escape_append (c : Char) (rest : Text) :
    string? (escape c ++ rest) = (string? rest).map fun p => (c :: p.1, p.2) := by
  unfold escape
  split
  · rename_i letter hl
    exact string?_backslash (escaped?_shortLetter hl rest)
  · rename_i hl
    dsimp only
    split_ifs with hplain hbasic
    · have hq : c ≠ '"' ∧ c ≠ '\\' := by
        constructor <;> rintro rfl <;> exact absurd hl (by decide)
      rw [List.singleton_append, string?, if_neg hq.1, if_neg hq.2, if_neg (by omega)]
    · exact string?_backslash (escaped?_unit hbasic rest)
    · obtain ⟨hh, hl, hj⟩ := joinSurrogates_eq_toNat (Nat.not_lt.1 hbasic) rfl rfl
      rw [List.append_assoc]
      exact string?_backslash (escaped?_pair hh hl hj rest)

/-- **A quoted text is read back.** -/
@[simp] theorem string?_flatMap_escape (s rest : Text) :
    string? (s.flatMap escape ++ '"' :: rest) = some (s, rest) := by
  induction s with
  | nil => rw [List.flatMap_nil, List.nil_append, string?, if_pos rfl]
  | cons c s ih =>
    rw [List.flatMap_cons, List.append_assoc, string?_escape_append, ih]
    rfl

/-! ## Tokens -/

@[simp] theorem scan_nil : scan [] = [] := by rw [scan]

theorem scan_space {c : Char} (h : isSpace c) (cs : Text) : scan (c :: cs) = scan cs := by
  rw [scan, if_pos h]

theorem scan_mark {c : Char} {token : Token} (hs : isSpace c = false) (h : mark? c = some token)
    (cs : Text) : scan (c :: cs) = token :: scan cs := by
  rw [scan, if_neg (by simp [hs]), h]

/-- A quoted text is one token. -/
@[simp] theorem scan_quote_append (s rest : Text) :
    scan (quote s ++ rest) = .text s :: scan rest := by
  have hs : string? (s.flatMap escape ++ ['"'] ++ rest) = some (s, rest) := by
    rw [List.append_assoc, List.singleton_append, string?_flatMap_escape]
  rw [quote, List.cons_append, List.cons_append, scan, if_neg (by decide)]
  simp only [show mark? '"' = none from rfl, if_true]
  split
  · rename_i s' rest' h'
    obtain ⟨rfl, rfl⟩ := Prod.mk.inj (Option.some.inj (hs.symm.trans h'))
    rfl
  · rename_i h'
    exact absurd (hs.symm.trans h') (by simp)

@[simp] theorem scan_null_append (rest : Text) :
    scan ("null".toList ++ rest) = .scalar .null :: scan rest := by
  have hn : "null".toList ++ rest = 'n' :: ("ull".toList ++ rest) := rfl
  have hs : scalar? ('n' :: ("ull".toList ++ rest)) = some (.null, rest) := rfl
  rw [hn, scan, if_neg (by decide)]
  simp only [show mark? 'n' = none from rfl, if_neg (show 'n' ≠ '"' by decide)]
  split
  · rename_i value rest' h'
    obtain ⟨rfl, rfl⟩ := Prod.mk.inj (Option.some.inj (hs.symm.trans h'))
    rfl
  · rename_i h'
    exact absurd (hs.symm.trans h') (by simp)

/-- **The layout is white space**: with every indentation. -/
@[simp] theorem scan_lineBreak_append (indent : Option Nat) (level : Nat) (rest : Text) :
    scan (lineBreak indent level ++ rest) = scan rest := by
  cases indent with
  | none => rfl
  | some n =>
    rw [lineBreak, List.cons_append, scan_space rfl]
    induction n * level with
    | zero => rfl
    | succ k ih => rw [List.replicate_succ, List.cons_append, scan_space rfl, ih]

@[simp] theorem scan_fieldBreak_append (indent : Option Nat) (level : Nat) (rest : Text) :
    scan (fieldBreak indent level ++ rest) = .comma :: scan rest := by
  cases indent with
  | none =>
    rw [fieldBreak, List.cons_append, scan_mark rfl rfl, List.singleton_append, scan_space rfl]
  | some n => rw [fieldBreak, List.cons_append, scan_mark rfl rfl, scan_lineBreak_append]

@[simp] theorem scan_field_append (name printed rest : Text) :
    scan (field name printed ++ rest) = .text name :: .colon :: scan (printed ++ rest) := by
  rw [field, List.append_assoc, scan_quote_append, List.cons_append, List.cons_append,
    scan_mark rfl rfl, scan_space rfl]

/-- The tokens of a node, given those of its children. -/
def nodeTokens (kind value : Text) (left right : List Token) : List Token :=
  .openObject :: .text "kind".toList :: .colon :: .text kind ::
    .comma :: .text "value".toList :: .colon :: .text value ::
    .comma :: .text "left".toList :: .colon :: left ++
    .comma :: .text "right".toList :: .colon :: right ++ [.closeObject]

/-- **A printed node is scanned to its tokens**, if its children are. -/
theorem scan_node_append {left right : Text} {ls rs : List Token} (indent : Option Nat)
    (level : Nat) (kind value rest : Text) (hl : ∀ rest, scan (left ++ rest) = ls ++ scan rest)
    (hr : ∀ rest, scan (right ++ rest) = rs ++ scan rest) :
    scan (node indent level kind value left right ++ rest) =
      nodeTokens kind value ls rs ++ scan rest := by
  simp only [node, List.cons_append, List.append_assoc]
  rw [scan_mark rfl rfl]
  simp only [scan_lineBreak_append, scan_fieldBreak_append, scan_field_append, scan_quote_append,
    hl, hr]
  rw [List.nil_append, scan_mark rfl rfl]
  simp [nodeTokens]

end Json

namespace Tree

open Json

/-- The tokens that a tree is printed with. -/
def tokens : Tree → List Json.Token
  | operand clause => nodeTokens "operand".toList clause [.scalar .null] [.scalar .null]
  | operator word left right => nodeTokens "operator".toList word left.tokens right.tokens

/-- **A printed tree is scanned to its tokens**, with every indentation. -/
theorem scan_printAt_append (indent : Option Nat) (level : Nat) (tree : Tree) (rest : Text) :
    scan (tree.printAt indent level ++ rest) = tree.tokens ++ scan rest := by
  induction tree generalizing level rest with
  | operand clause =>
    exact scan_node_append indent level _ clause rest scan_null_append scan_null_append
  | operator word left right ihl ihr =>
    exact scan_node_append indent level _ word rest (ihl (level + 1)) (ihr (level + 1))

/-! ## Values -/

/-- The tokens are read as one value inside of any containers that leave room for `depth` more. -/
def ReadsAs (tokens : List Json.Token) (depth : Nat) (v : Value) : Prop :=
  ∀ frames rest, frames.length + depth ≤ maxDepth →
    value frames (tokens ++ rest) = resume v frames rest

theorem readsAs_null : ReadsAs [.scalar .null] 0 .null := fun frames rest _ => by
  rw [List.singleton_append, value]

/-- The four fields of a node have different keys. -/
theorem closeObject_fields (kind word : Text) (l r : Value) :
    closeObject [(.text "right".toList, r), (.text "left".toList, l),
      (.text "value".toList, .text word), (.text "kind".toList, .text kind)] =
      storedNode kind word l r := rfl

/-- **The tokens of a node are read as the object that stores it**, one level above its
children. -/
theorem readsAs_node {ls rs : List Json.Token} {m n : Nat} {l r : Value} (kind word : Text)
    (hl : ReadsAs ls m l) (hr : ReadsAs rs n r) :
    ReadsAs (nodeTokens kind word ls rs) (1 + max m n) (storedNode kind word l r) := by
  intro frames rest h
  have hopen : ¬maxDepth ≤ frames.length := by omega
  have hlen (f : Frame) : (f :: frames).length = frames.length + 1 := List.length_cons
  simp only [nodeTokens, List.cons_append, List.append_assoc, List.nil_append]
  rw [value, if_neg hopen, member, value, resume, member, value, resume, member,
    hl _ _ (by rw [hlen]; omega), resume, member, hr _ _ (by rw [hlen]; omega), resume,
    closeObject_fields]
  simp

/-- **The tokens of a tree are read as the object that stores it.** -/
theorem readsAs_tokens (tree : Tree) : ReadsAs tree.tokens tree.depth tree.encode := by
  induction tree with
  | operand clause => exact readsAs_node _ clause readsAs_null readsAs_null
  | operator word left right ihl ihr => exact readsAs_node _ word ihl ihr

/-! ## Texts -/

/-- **A printed tree is the JSON text of the object that stores it**, unless it has more levels than
are read. -/
theorem read_toJson {tree : Tree} (h : tree.depth ≤ maxDepth) (indent : Option Int) :
    Json.read (tree.toJson indent) = .ok tree.encode := by
  have hs : scan (tree.toJson indent) = tree.tokens ++ [] := by
    have := scan_printAt_append (indent.map Int.toNat) 0 tree []
    rwa [List.append_nil, scan_nil] at this
  rw [Json.read, hs, readsAs_tokens tree [] [] (by simpa using h), resume]

/-- **The text layer is transparent**: a printed tree is read exactly as the object that stores it,
with the same tree or the same error, whatever the indentation and the limits.  There is such a text
for every indentation that a text can have. -/
theorem ofJson_toJson (limits : Limits) (indent : Option Int) (tree : Tree)
    (h : tree.depth ≤ maxDepth) :
    ofJson limits (tree.toJson indent) = decode limits tree.encode ∧
      (indent.all Text.fitsWord → ∃ printed, tree.toJson? indent = some printed ∧
        ofJson limits printed = decode limits tree.encode) := by
  have hread : ofJson limits (tree.toJson indent) = decode limits tree.encode := by
    rw [ofJson, read_toJson h]
  exact ⟨hread, fun hi => ⟨tree.toJson indent, if_pos hi, hread⟩⟩

/-- Quotes, escapes, a surrogate pair and a connective without a meaning, on indented lines. -/
theorem ofJson_toJson_escapes :
    let tree := operator "XOR".toList (operand "a = '\"\\\n\x7f'".toList)
      (operator andWord (operand "b > 1".toList) (operand "c = '😀'".toList))
    tree.depth ≤ maxDepth ∧
      ofJson {} (tree.toJson (some 2)) = decode {} tree.encode := by
  intro tree
  have h : tree.depth ≤ maxDepth := by decide
  exact ⟨h, (ofJson_toJson {} (some 2) tree h).1⟩

end Tree

end Criteria
