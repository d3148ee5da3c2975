import Criteria.Proofs.Reading

/-!
# Proofs/Spacing — single spaces are a normal form of rules

The normal form of a rule joins its tokens by single spaces, whatever stands between them in the
rule (`Text.spaced`).  It has the tokens of the rule (`lexemes_spaced`), so rules have one normal
form iff they have the same tokens, positions apart (`spaced_eq_spaced_iff`).  But for its length a
rule means what its tokens mean: `Tree.parse_spaced_iff`.
-/

namespace Criteria

open Token

namespace Text

/-- **The normal form of a rule**: its tokens, joined by single spaces. -/
def spaced (s : Text) : Text := unwords ((scan s).map Token.value)

variable {s r : Text}

/-- **The tokens of the normal form are those of the rule.** -/
@[simp] theorem lexemes_spaced (s : Text) : s.spaced.lexemes = s.lexemes := by
  rw [spaced, map_value_scan]
  exact lexemes_unwords fun _ => wellFormed_of_mem_lexemes

/-- **Rules have the same normal form iff they have the same tokens.** -/
theorem spaced_eq_spaced_iff : s.spaced = r.spaced ↔ s.lexemes = r.lexemes := by
  constructor
  · intro h
    rw [← lexemes_spaced s, h, lexemes_spaced]
  · intro h
    rw [spaced, spaced, map_value_scan, map_value_scan, h]

end Text

namespace Tree

variable {limits : Limits} {s r : Text} {tree : Tree}

/-- **Rules with the same tokens are parsed to the same trees**, if neither is too long. -/
theorem parse_eq_ok_iff_of_lexemes_eq (h : s.lexemes = r.lexemes)
    (hs : (s.length : Int) ≤ limits.ruleLength) (hr : (r.length : Int) ≤ limits.ruleLength) :
    parse limits s = .ok tree ↔ parse limits r = .ok tree := by
  rw [parse_eq_ok_iff, parse_eq_ok_iff, h, and_iff_right hs, and_iff_right hr]

/-- **Single spaces are a normal form of rules.**  The normal form of a rule has the same kinds and
texts of tokens, in the same order, and it is shared by just the rules that have them.  It is parsed
to the tree of the rule or, like the rule, to none, if neither is too long; and so is every rule
with the same tokens. -/
theorem parse_spaced_iff (source : Text) :
    (scan source.spaced).map lexeme = (scan source).map lexeme ∧
    (∀ limits : Limits, (source.spaced.length : Int) ≤ limits.ruleLength →
      (source.length : Int) ≤ limits.ruleLength → ∀ tree,
        parse limits source.spaced = .ok tree ↔ parse limits source = .ok tree) ∧
    ∀ other : Text,
      (other.spaced = source.spaced ↔ (scan other).map lexeme = (scan source).map lexeme) ∧
      ((scan other).map lexeme = (scan source).map lexeme → ∀ limits : Limits,
        (other.length : Int) ≤ limits.ruleLength → (source.length : Int) ≤ limits.ruleLength →
          ∀ tree, parse limits other = .ok tree ↔ parse limits source = .ok tree) := by
  have hspaced : source.spaced.lexemes = source.lexemes := Text.lexemes_spaced source
  refine ⟨hspaced, fun limits hs hr tree => ?_, fun other => ⟨Text.spaced_eq_spaced_iff, ?_⟩⟩
  · exact parse_eq_ok_iff_of_lexemes_eq hspaced hs hr
  · intro h limits hs hr tree
    exact parse_eq_ok_iff_of_lexemes_eq h hs hr

/-- Tokens without spaces between them, a literal with a parenthesis, a connective and two spaces,
and a quote that is dropped; the other rule drops a character elsewhere. -/
theorem parse_spaced_iff_unspaced :
    let source : Text := "a>'x  AND (y'AND((b<2)) '".toList
    let other : Text := "a\t> 'x  AND (y' AND ( (b & < 2) )".toList
    let tree := operator andWord (operand "a > 'x  AND (y'".toList) (operand "b < 2".toList)
    source.spaced = "a > 'x  AND (y' AND ( ( b < 2 ) )".toList ∧
      (scan other).map lexeme = (scan source).map lexeme ∧
      (source.spaced.length : Int) ≤ ({} : Limits).ruleLength ∧
      (other.length : Int) ≤ ({} : Limits).ruleLength ∧
      (source.length : Int) ≤ ({} : Limits).ruleLength ∧
      parse {} source.spaced = .ok tree ∧ parse {} other = .ok tree := by
  intro source other tree
  have hspaced : source.spaced = "a > 'x  AND (y' AND ( ( b < 2 ) )".toList := by decide +kernel
  have hother : (scan other).map lexeme = (scan source).map lexeme := by decide +kernel
  have hparse : parse {} source = .ok tree := by decide +kernel
  have hlen : (source.spaced.length : Int) ≤ ({} : Limits).ruleLength := by
    rw [hspaced]
    decide
  obtain ⟨-, hnormal, hsame⟩ := parse_spaced_iff source
  exact ⟨hspaced, hother, hlen, by decide, by decide,
    (hnormal {} hlen (by decide) tree).2 hparse,
    ((hsame other).2 hother {} (by decide) (by decide) tree).2 hparse⟩

end Tree

end Criteria
