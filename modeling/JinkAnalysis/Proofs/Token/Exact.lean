import JinkAnalysis.Proofs.Token.Lexeme
import Mathlib.Data.List.Sort

/-!
# The tokens of a text, exactly

`Token.IsTokenization` says which lists of tokens are right for a text, with no word about how they
are found: the tokens follow each other, each is the piece of the text at its offset, and every
character of the text that is not in a string has the token it should have, or none. **The tokens of
a text are the only list that is right for it** (`Token.isTokenization_iff`).

Being right comes down to having exactly the lexemes that start in no earlier string
(`Token.IsTokenization.mem_iff`, `Token.isTokenization_of_mem_iff`), which asks of a token only what
stands to the left of it. So two right lists agree by induction on the offset
(`Token.mem_iff_mem_of_mem_iff`).
-/

namespace JinkAnalysis

namespace Token

open Text

/-- The character at an offset belongs to a string of a list of tokens. -/
def InString (ts : List Token) (i : Nat) : Prop := ∃ k ∈ ts, k.kind = .string ∧ k.Covers i

/-- A list of tokens is complete and exact for a text. -/
structure IsTokenization (t : Text) (ts : List Token) : Prop where
  /-- The tokens follow each other and do not overlap. -/
  ordered : ts.Pairwise Precedes
  /-- A token has the characters that stand at its offset. -/
  piece : ∀ k ∈ ts, k.text ≠ [] ∧ t.PieceAt k.offset k.text
  /-- A string starts at every quote in no earlier string from which a closing quote is reached, and
  ends there. -/
  string : ∀ k : Token, k.kind = .string →
    (k ∈ ts ↔ t.StringAt k.offset k.text ∧ IsFree ts k.offset)
  /-- A run of word characters that is a name is one token. -/
  word : ∀ i w, t.RunAt i w → ¬ InString ts i → IsName w → ⟨wordKind w, w, i⟩ ∈ ts
  /-- No token has a character of any other run. -/
  run : ∀ i w, t.RunAt i w → ¬ InString ts i → ¬ IsName w →
    ∀ j, i ≤ j → j < i + w.length → ∀ k ∈ ts, ¬ k.Covers j
  /-- An arrow is one token. -/
  arrow : ∀ i, t.ArrowAt i → ¬ InString ts i → ⟨.arrow, ['-', '>'], i⟩ ∈ ts
  /-- Every other mark is a token of its own. -/
  mark : ∀ i c, t[i]? = some c → c ∈ punctuationMarks → ¬ t.InArrow i → ¬ InString ts i →
    ⟨.punctuation, [c], i⟩ ∈ ts
  /-- No token has any other character. -/
  other : ∀ i c, t[i]? = some c → isWordChar c = false → c ∉ punctuationMarks → ¬ InString ts i →
    ∀ k ∈ ts, ¬ k.Covers i

/-! ### Places in strings -/

section

variable {t : Text} {ts : List Token} {i j : Nat}

theorem isFree_of_not_inString (h : ¬ InString ts i) : IsFree ts i :=
  fun k hk hkind _ hcovers => h ⟨k, hk, hkind, hcovers⟩

variable (hstrings : ∀ k ∈ ts, k.kind = .string → t.StringAt k.offset k.text)

include hstrings

theorem not_inString_of_isFree (h : IsFree ts i) (hi : t[i]? ≠ some '"') : ¬ InString ts i := by
  rintro ⟨k, hk, hkind, hcovers⟩
  rcases Nat.lt_or_eq_of_le hcovers.1 with hlt | rfl
  · exact h k hk hkind hlt hcovers
  · exact hi (hstrings k hk hkind).first

/-- A stretch without quotes is in one string or in none. -/
theorem InString.of_plain (h : InString ts j)
    (hplain : ∀ l, min i j ≤ l → l ≤ max i j → t[l]? ≠ some '"') : InString ts i := by
  obtain ⟨k, hk, hkind, hcovers⟩ := h
  exact ⟨k, hk, hkind, (hstrings k hk hkind).covers_of_covers hcovers hplain⟩

theorem InString.of_runAt {i₀ : Nat} {w : Text} (h : InString ts j) (hrun : t.RunAt i₀ w)
    (hi : i₀ ≤ i ∧ i < i₀ + w.length) (hj : i₀ ≤ j ∧ j < i₀ + w.length) : InString ts i := by
  refine h.of_plain hstrings fun l hmin hmax hquote => ?_
  exact not_wordAt_of_getElem? hquote (by decide) (hrun.wordAt (by omega) (by omega))

theorem InString.of_arrowAt (h : InString ts i) (harrow : t.ArrowAt i) : InString ts (i + 1) := by
  refine h.of_plain hstrings fun l hmin hmax hquote => ?_
  obtain rfl | rfl : l = i ∨ l = i + 1 := by omega
  · exact absurd (harrow.first.symm.trans hquote) (by decide)
  · exact absurd (harrow.second.symm.trans hquote) (by decide)

end

/-! ### Lexemes by their characters -/

namespace Lexeme

variable {t : Text} {k : Token}

theorem piece (h : Lexeme t k) : k.text ≠ [] ∧ t.PieceAt k.offset k.text := by
  obtain ⟨u, c, s, v, rfl, htext, hoffset, -⟩ := h.exists_lead?
  rw [htext, hoffset]
  exact ⟨List.cons_ne_nil c s, pieceAt_append u (c :: s) v⟩

theorem stringAt (h : Lexeme t k) (hkind : k.kind = .string) : t.StringAt k.offset k.text := by
  cases h with
  | string h => exact h
  | @word i w h => exact absurd hkind (wordKind_ne_string w)
  | arrow => cases hkind
  | mark => cases hkind

/-- A character of a lexeme is in a string, in a run, or a mark. -/
theorem cases_of_covers (h : Lexeme t k) {i : Nat} (hi : k.Covers i) :
    k.kind = .string ∨ (t.RunAt k.offset k.text ∧ IsName k.text) ∨
      ∃ c ∈ punctuationMarks, t[i]? = some c := by
  cases h with
  | string => exact .inl rfl
  | word h hw => exact .inr (.inl ⟨h, hw⟩)
  | arrow h =>
    obtain ⟨c, hc, hget⟩ := PieceAt.exists_mem h hi.1 hi.2
    refine .inr (.inr ⟨c, ?_, hget⟩)
    rcases List.mem_pair.mp hc with rfl | rfl
    · decide
    · decide
  | @mark i₀ c h hc =>
    obtain rfl : i₀ = i := by
      have hle := hi.1
      have hlt := hi.2
      simp only [List.length_cons, List.length_nil] at hle hlt
      omega
    exact .inr (.inr ⟨c, hc, h⟩)

end Lexeme

/-! ### Right lists have the lexemes in no earlier string -/

namespace IsTokenization

variable {t : Text} {ts : List Token} {k : Token}

theorem stringAt (h : IsTokenization t ts) (hk : k ∈ ts) (hkind : k.kind = .string) :
    t.StringAt k.offset k.text := ((h.string k hkind).mp hk).1

/-- The first character of a token decides what the token is. -/
theorem lexeme_of_mem (h : IsTokenization t ts) (hk : k ∈ ts) : Lexeme t k := by
  have hstrings : ∀ s ∈ ts, s.kind = .string → t.StringAt s.offset s.text :=
    fun _ hs hkind => h.stringAt hs hkind
  have hcovers := covers_offset (h.piece k hk).1
  -- whatever token has the first character is the token itself
  have hself : ∀ k' ∈ ts, k'.Covers k.offset → Lexeme t k' → Lexeme t k := by
    intro k' hk' hcovers' hlexeme
    rwa [eq_of_covers h.ordered hk hk' hcovers hcovers']
  by_cases hkind : k.kind = .string
  · have hlexeme := Lexeme.string (h.stringAt hk hkind)
    rwa [← hkind] at hlexeme
  have hout : ¬ InString ts k.offset := by
    rintro ⟨s, hs, hstring, hcovers'⟩
    rw [eq_of_covers h.ordered hk hs hcovers hcovers'] at hkind
    exact hkind hstring
  obtain ⟨c, -, hc⟩ := (h.piece k hk).2.exists_mem hcovers.1 hcovers.2
  by_cases hword : isWordChar c = true
  · obtain ⟨i, w, hrun, hi, hlt⟩ := WordAt.exists_runAt ⟨c, hc, hword⟩
    have hout' : ¬ InString ts i := fun hin =>
      hout (hin.of_runAt hstrings hrun ⟨hi, hlt⟩ ⟨Nat.le_refl i, by omega⟩)
    by_cases hname : IsName w
    · exact hself _ (h.word i w hrun hout' hname) ⟨hi, hlt⟩ (.word hrun hname)
    · exact absurd hcovers (h.run i w hrun hout' hname _ hi hlt k hk)
  by_cases hmark : c ∈ punctuationMarks
  · by_cases harrow : t.InArrow k.offset
    · rcases harrow with harrow | ⟨j, hj, harrow⟩
      · exact hself _ (h.arrow _ harrow hout) ⟨Nat.le_refl _, by simp⟩ (.arrow harrow)
      · have hout' : ¬ InString ts j := fun hin => hout (hj ▸ hin.of_arrowAt hstrings harrow)
        exact hself _ (h.arrow j harrow hout') ⟨by simp [← hj], by simp [← hj]⟩ (.arrow harrow)
    · exact hself _ (h.mark _ c hc hmark harrow hout) ⟨Nat.le_refl _, by simp⟩
        (.mark hc hmark harrow)
  · exact absurd hcovers (h.other _ c hc (Bool.eq_false_iff.mpr hword) hmark hout k hk)

/-- **A right list has exactly the lexemes that start in no earlier string of it.** -/
theorem mem_iff (h : IsTokenization t ts) : k ∈ ts ↔ Lexeme t k ∧ IsFree ts k.offset := by
  constructor
  · exact fun hk => ⟨h.lexeme_of_mem hk, isFree_of_mem h.ordered hk (h.piece k hk).1⟩
  · rintro ⟨hlexeme, hfree⟩
    have hout : ∀ c, t[k.offset]? = some c → c ≠ '"' → ¬ InString ts k.offset := by
      intro c hc hquote
      refine not_inString_of_isFree (fun _ hs hkind => h.stringAt hs hkind) hfree ?_
      rw [hc]
      exact fun heq => hquote (Option.some.inj heq)
    cases hlexeme with
    | string hstring => exact (h.string _ rfl).mpr ⟨hstring, hfree⟩
    | @word i w hrun hname =>
      obtain ⟨c, hc, hword⟩ :=
        hrun.wordAt (Nat.le_refl i) (Nat.lt_add_of_pos_right (List.length_pos_iff.mpr hrun.ne_nil))
      refine h.word i w hrun (hout c hc ?_) hname
      rintro rfl
      exact absurd hword (by decide)
    | arrow harrow => exact h.arrow _ harrow (hout _ harrow.first (by decide))
    | @mark i c hc hmark harrow =>
      exact h.mark i c hc hmark harrow (hout c hc (ne_of_mem_marks hmark (by decide)))

end IsTokenization

/-- A list with exactly those lexemes, in order, is right. -/
theorem isTokenization_of_mem_iff {t : Text} {ts : List Token}
    (hordered : ts.Pairwise Precedes)
    (hmem : ∀ k, k ∈ ts ↔ Lexeme t k ∧ IsFree ts k.offset) : IsTokenization t ts := by
  have hlexeme : ∀ k ∈ ts, Lexeme t k := fun k hk => ((hmem k).mp hk).1
  have hstrings : ∀ k ∈ ts, k.kind = .string → t.StringAt k.offset k.text :=
    fun k hk hkind => (hlexeme k hk).stringAt hkind
  have hadd : ∀ k : Token, Lexeme t k → ¬ InString ts k.offset → k ∈ ts :=
    fun k hk hout => (hmem k).mpr ⟨hk, isFree_of_not_inString hout⟩
  constructor
  case ordered => exact hordered
  case piece => exact fun k hk => (hlexeme k hk).piece
  case string =>
    rintro ⟨kind, s, i⟩ rfl
    rw [hmem]
    exact and_congr_left fun _ => ⟨fun h => h.stringAt rfl, .string⟩
  case word => exact fun i w hrun hout hname => hadd _ (.word hrun hname) hout
  case run =>
    intro i w hrun hout hname j hi hj k hk hcovers
    rcases (hlexeme k hk).cases_of_covers hcovers with hkind | ⟨hrun', hname'⟩ | ⟨c, hc, hget⟩
    · have hin : InString ts j := ⟨k, hk, hkind, hcovers⟩
      exact hout (hin.of_runAt hstrings hrun ⟨Nat.le_refl i, by omega⟩ ⟨hi, hj⟩)
    · obtain ⟨-, rfl⟩ := hrun.unique hrun' hi hj hcovers.1 hcovers.2
      exact hname hname'
    · exact not_wordAt_of_getElem? hget (isWordChar_of_mem_marks hc) (hrun.wordAt hi hj)
  case arrow => exact fun i harrow hout => hadd _ (.arrow harrow) hout
  case mark => exact fun i c hc hmark harrow hout => hadd _ (.mark hc hmark harrow) hout
  case other =>
    intro i c hc hword hmark hout k hk hcovers
    rcases (hlexeme k hk).cases_of_covers hcovers with hkind | ⟨hrun, -⟩ | ⟨d, hd, hget⟩
    · exact hout ⟨k, hk, hkind, hcovers⟩
    · exact not_wordAt_of_getElem? hc hword (hrun.wordAt hcovers.1 hcovers.2)
    · obtain rfl : c = d := Option.some.inj (hc.symm.trans hget)
      exact hmark hd

/-- **Two such lists have the same tokens**, since what lies to the left decides. -/
theorem mem_iff_mem_of_mem_iff {t : Text} {ts ts' : List Token}
    (h : ∀ k, k ∈ ts ↔ Lexeme t k ∧ IsFree ts k.offset)
    (h' : ∀ k, k ∈ ts' ↔ Lexeme t k ∧ IsFree ts' k.offset) (k : Token) : k ∈ ts ↔ k ∈ ts' := by
  induction hn : k.offset using Nat.strong_induction_on generalizing k with
  | _ n ih =>
    subst hn
    have hfree : IsFree ts k.offset ↔ IsFree ts' k.offset := by
      constructor
      · exact fun hfree s hs hkind hlt => hfree s ((ih _ hlt s rfl).mpr hs) hkind hlt
      · exact fun hfree s hs hkind hlt => hfree s ((ih _ hlt s rfl).mp hs) hkind hlt
    rw [h, h', hfree]

/-- Tokens in order are determined by which they are. -/
theorem eq_of_pairwise_precedes {ts ts' : List Token} (h : ts.Pairwise Precedes)
    (h' : ts'.Pairwise Precedes) (hmem : ∀ k, k ∈ ts ↔ k ∈ ts') : ts = ts' := by
  have hantisymm : Std.Antisymm Precedes :=
    ⟨fun _ _ hab hba => absurd hab.1 (Nat.lt_asymm hba.1)⟩
  have hirrefl : Std.Irrefl Precedes := ⟨fun _ haa => Nat.lt_irrefl _ haa.1⟩
  exact h.eq_of_mem_iff h' hmem

/-- **The tokens of a text are complete and exact**, and no other list is. -/
theorem isTokenization_iff (t : Text) (ts : List Token) :
    IsTokenization t ts ↔ ts = tokenize t := by
  constructor
  · intro h
    refine eq_of_pairwise_precedes h.ordered (pairwise_tokenize t) ?_
    exact mem_iff_mem_of_mem_iff (fun _ => h.mem_iff) (fun _ => mem_tokenize_iff)
  · rintro rfl
    exact isTokenization_of_mem_iff (pairwise_tokenize t) fun _ => mem_tokenize_iff

end Token

end JinkAnalysis
