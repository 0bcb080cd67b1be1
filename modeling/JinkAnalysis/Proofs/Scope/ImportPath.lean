import JinkAnalysis.Import
import JinkAnalysis.Proofs.Scope.Balance
import JinkAnalysis.Proofs.Text.Lines
import JinkAnalysis.Proofs.Token.Reads

/-!
# No word of an import path is a usage

Where a line starts with `import` and a blank, and only path characters and blanks have followed up
to some place, **an identifier at that place is not a usage** (`step_ne_usage_of_importLine`),
however the text before the line looks.

Such a line has no quote, so its start and the end of the word `import` are places that reading
reaches (`Reads.cut`): the first token of the line is the keyword, and it enters an import
statement. The tokens after it are words and dots, and none of them leaves the statement. The
keyword `extern` among them enters another construct, in which identifiers are declared, not used.
-/

namespace JinkAnalysis

open Token (Reads Cuts)

/-! ### Words and dots -/

/-- A word or a dot. -/
def Event.isPathPart : Event → Bool
  | .keyword _ => true
  | .identifier _ _ => true
  | .mark text => decide (text = ['.'])
  | _ => false

/-- The constructs that an import statement is read in. -/
def statementContexts : List Context := [.importing, .externDecl]

namespace Machine

theorem current_keyword (m : Machine) (word : Text) :
    (m.keyword word).current = m.current ∨ (m.keyword word).current ∈ statementContexts := by
  by_cases hplain : (Event.keyword word).isPlain = true
  · left
    exact congrArg (List.headD · Context.normal) (step_plain hplain m).1
  · right
    simp only [Event.isPlain, decide_eq_true_eq, not_not, List.mem_cons, List.not_mem_nil, or_false]
      at hplain
    have himport : (m.keyword "import".toList).current = .importing := rfl
    have hextern : (m.keyword "extern".toList).current = .externDecl := rfl
    rcases hplain with rfl | rfl
    · exact himport ▸ List.mem_cons_self
    · exact hextern ▸ List.mem_cons_of_mem _ List.mem_cons_self

/-- A word or a dot leaves no statement. -/
theorem current_step_of_isPathPart {m : Machine} (hm : m.current ∈ statementContexts) {e : Event}
    (he : e.isPathPart = true) : (m.step e).1.current ∈ statementContexts := by
  have hplain : e.isPlain = true → (m.step e).1.current ∈ statementContexts := fun hplain => by
    rwa [current, (step_plain hplain m).1]
  cases e with
  | string => cases he
  | arrow => cases he
  | keyword word =>
    rcases m.current_keyword word with hcurrent | hcurrent
    · exact hcurrent.symm ▸ hm
    · exact hcurrent
  | mark text =>
    obtain rfl : text = ['.'] := of_decide_eq_true he
    exact hplain rfl
  | identifier name around => exact hplain rfl

/-- Nothing in a statement is a usage. -/
theorem step_ne_usage {m : Machine} (hm : m.current ∈ statementContexts) (e : Event) :
    (m.step e).2 ≠ .classified .usage := by
  intro h
  obtain ⟨name, around, rfl⟩ := exists_identifier_of_classified h
  have hrole : (m.role around).1 = .usage := Effect.classified.inj h
  unfold role at hrole
  split at hrole
  · cases hrole
  · split at hrole
    · cases hrole
    · next himporting =>
      split at hrole
      · cases hrole
      · split at hrole
        · cases hrole
        · next hextern =>
          simp only [statementContexts, List.mem_cons, List.not_mem_nil, or_false] at hm
          rcases hm with hm | hm
          · exact himporting (hm ▸ List.mem_cons_self)
          · exact hextern hm

end Machine

theorem current_advanceAll_of_isPathPart {p : Machine × Scopes}
    (hp : p.1.current ∈ statementContexts) {es : List Event}
    (hes : ∀ e ∈ es, e.isPathPart = true) : (advanceAll p es).1.current ∈ statementContexts := by
  induction es generalizing p with
  | nil => exact hp
  | cons e es ih =>
    obtain ⟨he, hes⟩ := List.forall_mem_cons.mp hes
    exact ih (p.1.current_step_of_isPathPart hp he) hes

/-! ### Lines that start with `import` -/

/-- What may stand between `import` and a place in its path. -/
def IsPathText (w : Text) : Prop := ∀ c ∈ w, isPathChar c = true ∨ isBlank c = true

theorem IsPathText.not_mem {w : Text} (hw : IsPathText w) {c : Char} (hpath : isPathChar c = false)
    (hblank : isBlank c = false) : c ∉ w := by
  intro hc
  have h := hw c hc
  simp [hpath, hblank] at h

/-- The tokens among path characters and blanks are words and dots. -/
theorem isPathPart_of_reads {b a w a' : Text} {ts : List Token} (h : Reads b a ts (b ++ w) a')
    (hw : IsPathText w) (text : Text) {t : Token} (ht : t ∈ ts) :
    (t.event text).isPathPart = true := by
  obtain ⟨left, c, s, v, htext, hlead, hsubset⟩ := h.subset_of_mem ht
  have hmem : c ∈ w := hsubset c List.mem_cons_self
  rcases Token.lead?_cases hlead with ⟨rfl, -⟩ | ⟨-, hkind, -⟩ | ⟨rfl, -⟩ | ⟨hmark, hkind, rfl⟩
  · exact absurd hmem (hw.not_mem (by decide) (by decide))
  · have hword : t.kind = .keyword ∨ t.kind = .identifier := by
      rw [hkind, Token.wordKind]
      split
      · exact .inl rfl
      · exact .inr rfl
    rcases hword with hword | hword <;> rw [Token.event, hword] <;> rfl
  · exact absurd hmem (hw.not_mem (by decide) (by decide))
  · have hdot : c = '.' := by
      simpa [isPathChar, isNameChar_of_mem_marks hmark, isBlank_of_mem_marks hmark] using hw c hmem
    rw [Token.event, hkind, htext, hdot]
    rfl

/-- **No word of an import path is a usage.** -/
theorem step_ne_usage_of_importLine {t u w a : Text} {b : Char} {ts : List Token}
    (hreads : Reads [] t ts (u ++ ("import".toList ++ b :: w)) a) (hu : Text.LineStart u)
    (hb : isBlank b = true) (hw : IsPathText w) (text : Text) (p : Machine × Scopes) (e : Event) :
    ((advanceAll p (ts.map (·.event text))).1.step e).2 ≠ .classified .usage := by
  have hbw : IsPathText (b :: w) := List.forall_mem_cons.mpr ⟨.inr hb, hw⟩
  have hquote : '"' ∉ b :: w := hbw.not_mem (by decide) (by decide)
  have hbname : isWordChar b = false := isWordChar_of_isBlank hb
  have hstart : ∀ p : Char → Bool, p '\n' = false → u.getLast?.any p = false := fun p hp => by
    cases hlast : u.getLast? with
    | none => rfl
    | some c => simpa [hu c hlast] using hp
  -- the line starts at a place that is reached
  obtain ⟨ts₁, ts₂, rfl, -, hline⟩ := hreads.cut rfl (Nat.zero_le _)
    ⟨.inr (by simpa using hquote), .inl (hstart isNameChar (by decide)), .inl fun hlast => by
      exact absurd (hu _ hlast) (by decide)⟩
  -- and so does the rest of it, after the keyword
  obtain ⟨ts₃, ts₄, rfl, hword, hrest⟩ := hline.cut (u := u ++ "import".toList)
    (List.append_assoc _ _ _).symm (by simp)
    ⟨.inr hquote, .inr (by simpa using isNameChar_of_isWordChar_eq_false hbname), .inl (by simp)⟩
  have hkeyword : Reads u ("import".toList ++ (b :: w ++ a))
      [⟨.keyword, "import".toList, u.length⟩] (u ++ "import".toList) (b :: w ++ a) :=
    Reads.word (c := 'i') (s := "mport".toList) (by decide) (List.all_eq_true.mp (by decide))
      (hstart isWordChar (by decide)) (by simpa using hbname)
  obtain rfl := hword.tokens_eq (List.append_assoc _ _ a ▸ hkeyword)
  simp only [List.map_append, List.map_cons, List.map_nil, advanceAll_append, advanceAll_cons,
    advanceAll_nil]
  refine Machine.step_ne_usage (current_advanceAll_of_isPathPart ?_ fun e he => ?_) e
  · exact List.mem_cons_self
  · obtain ⟨t, ht, rfl⟩ := List.mem_map.mp he
    rw [← List.append_assoc] at hrest
    exact isPathPart_of_reads hrest hbw text ht

end JinkAnalysis
