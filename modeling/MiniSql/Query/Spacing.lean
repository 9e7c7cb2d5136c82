import MiniSql.Query.Grammar

/-!
# Whitespace around statements

The parser skips whitespace in front of every token. So a statement is read as the same
query with whitespace put in front of it or behind it.
-/

namespace MiniSql.Query

theorem keyword_skipWhitespace {word : Bytes} (hword : IsWord word) (s rest : Bytes) :
    Keyword word (skipWhitespace s) rest ↔ Keyword word s rest := by
  rw [← matchKeyword_iff hword, ← matchKeyword_iff hword, matchKeyword, matchKeyword,
    skipWhitespace_idem]

theorem derives_skipWhitespace (s : Bytes) (t : Tree) : t.Derives (skipWhitespace s) ↔ t.Derives s := by
  cases t with
  | select t => exact and_congr_left' (keyword_skipWhitespace (by decide) s _)
  | insert t => exact and_congr_left' (keyword_skipWhitespace (by decide) s _)

/-- A statement begins with a letter of its keyword. -/
theorem Tree.Derives.first {s : Bytes} {t : Tree} (h : t.Derives s) :
    isIdentifierChar (peek (skipWhitespace s)) = true := by
  rw [← isIdentifierChar_tolower]
  cases t with
  | select t =>
    rw [h.1.first (by decide)]
    rfl
  | insert t =>
    rw [h.1.first (by decide)]
    rfl

theorem parseSqlText_iff {s : Bytes} (hs : 0 ∉ s) (query : Query) :
    parseSqlText s .zero = (query, .ok ()) ↔ ∃ t : Tree, t.Derives s ∧ t.query = query := by
  constructor
  · intro h
    obtain ⟨t, ht⟩ := parseSqlText_sound hs (congrArg Prod.snd h)
    exact ⟨t, ht, congrArg Prod.fst ((ht.parseSqlText hs .zero).symm.trans h)⟩
  · rintro ⟨t, ht, rfl⟩
    exact ht.parseSqlText hs .zero

end MiniSql.Query
