import JinkAnalysis.Completion
import JinkAnalysis.Proofs.Canonical.Declarations
import JinkAnalysis.Proofs.Text.LongerLines

/-!
# Declarations of lines that go on

The declaration of a line is read off its front, up to a mark that decides it. So **what a line
declares it declares as well when it goes on** (`frontProposal?_append`). Where it goes on with
blanks and a slash, or with blanks only, it declares nothing else either
(`frontProposal?_append_stop`). Two forms are the exception: the list of a class and the calling
convention of a foreign function may contain any characters, so that a line that leaves one of them
open is read on (`Head.leavesOpen`).
-/

namespace JinkAnalysis

/-! ### Declarations that start a line -/

namespace Head

/-- The same declared name, and at a stop the same kind of declaration. -/
def SameName (b : Text) (x x' : Span × Form) : Prop :=
  x'.1 = x.1 ∧ (IsStop b → x'.2.proposalKind = x.2.proposalKind)

variable {b : Text} {k : Cursor}

section

variable (hb : b.head?.any isNameChar = false)

include hb

theorem carries_named {stops : Prop} (hstops : stops → IsStop b) {keyword : String}
    (hkeyword : keyword.toList.all isAsked = true) {β : Type} {R : β → β → Prop}
    {g : Span × Cursor → Option β} (hg : ∀ s, Carries stops (Moved b) R fun k => g (s, k))
    (hstuck : ∀ s k, k.AtStop → g (s, k) = none) :
    Carries stops (Moved b) R fun k => (named? keyword k).bind g := by
  have hsteps (k : Cursor) : (named? keyword k).bind g =
      (k.word? keyword.toList).bind fun k => k.blanks?.bind fun k => k.name?.bind fun x =>
        g (x.1, x.2.blanks) := by
    simp only [named?, Option.bind_eq_bind, Option.pure_def, Option.bind_assoc, Option.bind_some]
  simp only [hsteps]
  refine .bind (.word? hstops hkeyword) (.blanks? hstops ?_ fun k hk => by rw [hk.name?]; rfl)
  exact .bind (.name? hb) (.ofName fun s => (hg s).blanks hstops (hstuck s))

/-- A keyword, a name and a mark. -/
theorem carries_marked {keyword : String} (hkeyword : keyword.toList.all isAsked = true) {c : Char}
    (hc : isAsked c = true) (form : Text → Form)
    (hform : ∀ t t', (form t').proposalKind = (form t).proposalKind) :
    Carries (IsStop b) (Moved b) (SameName b) fun k => (named? keyword k).bind fun x =>
      (x.2.char? c).bind fun k => some (x.1, form k.rest) := by
  refine carries_named hb id hkeyword (fun s => ?_) fun s k hk => by rw [hk.char? hc]; rfl
  change Carries (IsStop b) (Moved b) (SameName b) fun k => (k.char? c).bind fun k =>
    some (s, form k.rest)
  exact .bind (.char? id hc) (.result fun k k' _ => ⟨rfl, fun _ => hform k.rest k'.rest⟩)

theorem carries_let? : Carries (IsStop b) (Moved b) (SameName b) let? :=
  carries_marked hb (by decide) (by decide) (fun _ => .var) fun _ _ => rfl

theorem carries_constant? : Carries (IsStop b) (Moved b) (SameName b) constant? :=
  carries_marked hb (by decide) (by decide) (fun _ => .constant) fun _ _ => rfl

theorem carries_function? : Carries (IsStop b) (Moved b) (SameName b) function? :=
  carries_marked hb (by decide) (by decide) .function fun _ _ => rfl

theorem carries_typedConstant? : Carries (IsStop b) (Moved b) (SameName b) typedConstant? := by
  have hname {R : Span × Form → Span × Form → Prop} {g : Span × Cursor → Option (Span × Form)}
      (hg : ∀ s, Carries (IsStop b) (Moved b) R fun k => g (s, k)) :
      Carries (IsStop b) (Moved b) R fun k => k.blanks?.bind fun k => k.name?.bind g :=
    .blanks? id (.bind (.name? hb) (.ofName hg)) fun k hk => by rw [hk.name?]; rfl
  refine .bind (.word? id (by decide)) (hname fun _ => hname fun s => ?_)
  refine .bind (.blanks id (.char? id (by decide)) fun k hk => hk.char? (by decide)) ?_
  exact .result fun _ _ _ => ⟨rfl, fun _ => rfl⟩

theorem carries_type? : Carries (IsStop b) (Moved b) (SameName b) type? := by
  have hbrace : Carries (IsStop b) (Moved b) (Moved b) fun k => k.blanks.char? '\x7b' :=
    .blanks id (.char? id (by decide)) fun k hk => hk.char? (by decide)
  change Carries (IsStop b) (Moved b) (SameName b) fun k => (named? "type" k).bind fun x =>
    (x.2.char? '=').bind fun k => some (x.1, typeForm k)
  refine carries_named hb id (by decide) (fun s => ?_)
    fun s k hk => by rw [hk.char? (by decide)]; rfl
  change Carries (IsStop b) (Moved b) (SameName b) fun k => (k.char? '=').bind fun k =>
    some (s, typeForm k)
  refine .bind (.char? id (by decide)) (.result fun k k' hk => ⟨rfl, fun hstop => ?_⟩)
  cases hfound : k.blanks.char? '\x7b' with
  | none => simp only [typeForm, hfound, hbrace.missed hstop hk hfound]
  | some k₁ =>
    obtain ⟨k₁', hfound', -⟩ := hbrace.found hk hfound
    simp only [typeForm, hfound, hfound', Form.proposalKind]

end

/-! ### Lists and calling conventions -/

/-- Where the list of a class starts. -/
def classList? (k : Cursor) : Option Cursor := (named? "cls" k).bind fun x => x.2.char? '('

/-- Where the calling convention of a foreign function starts. -/
def convention? (k : Cursor) : Option Cursor :=
  (k.word? "extern".toList).bind fun k => k.blanks.word? "(\"".toList

/-- Whether a line leaves the list of a class or the calling convention of a foreign function open
that starts at the given place. -/
def leavesOpenAt (k : Cursor) : Bool :=
  (classList? k).any (fun k => !closesBeforeEquals k.rest) ||
    (convention? k).any fun k => decide ('"' ∉ k.rest)

/-- Whether the declaration that starts a line leaves its list or its calling convention open. -/
def leavesOpen (line : Text) : Bool := leavesOpenAt (visibility (.ofLine line)).2

/-- The class with a given name, from what stands behind the name. -/
def classForm? (x : Span × Cursor) : Option (Span × Form) :=
  match x.2.char? '(' with
  | some k => if closesBeforeEquals k.rest then some (x.1, .classType) else none
  | none => (x.2.char? '=').bind fun _ => some (x.1, .classType)

theorem classType?_eq (k : Cursor) : classType? k = (named? "cls" k).bind classForm? := by
  simp only [classType?, Option.bind_eq_bind, Option.pure_def]
  rfl

/-- A class is read unless its list is left open, or neither a list nor an equals sign stands behind
its name. -/
theorem classType?_eq_none_iff : classType? k = none ↔
    (classList? k).all (fun k => !closesBeforeEquals k.rest) = true ∧
      ((named? "cls" k).bind fun x => x.2.char? '=') = none := by
  rw [classType?_eq, classList?]
  cases hnamed : named? "cls" k with
  | none => simp
  | some x =>
    simp only [Option.bind_some, classForm?]
    cases hparen : x.2.char? '(' with
    | none => cases x.2.char? '=' <;> simp
    | some k₁ =>
      obtain ⟨t, hrest, -⟩ := Cursor.char?_eq_some_iff.mp hparen
      have hequals : x.2.char? '=' = none := Cursor.char?_eq_none (by simp [hrest])
      simp [hequals]

/-- The foreign function whose calling convention has been read. -/
def externForm? (k : Cursor) : Option (Span × Form) :=
  (k.char? ')').bind fun k => k.blanks?.bind fun k => k.name?.bind fun x =>
    (x.2.blanks.char? '(').bind fun k => some (x.1, .externFunction k.rest)

theorem externFunction?_eq (k : Cursor) :
    externFunction? k =
      (convention? k).bind fun k => (k.until? '"').bind fun x => externForm? x.2 := by
  simp only [externFunction?, convention?, externForm?, Option.bind_eq_bind, Option.pure_def,
    Option.bind_assoc]

theorem closesBeforeEquals_append {t : Text} (h : closesBeforeEquals t = true) (b : Text) :
    closesBeforeEquals (t ++ b) = true := by
  induction t with
  | nil => cases h
  | cons c t ih =>
    rw [closesBeforeEquals, Bool.or_eq_true, Bool.and_eq_true] at h
    rw [List.cons_append, closesBeforeEquals, Bool.or_eq_true, Bool.and_eq_true]
    refine h.imp (fun h => ⟨h.1, ?_⟩) ih
    have hne : t.dropWhile isBlank ≠ [] := by
      intro hnil
      rw [Text.trimStart, hnil] at h
      cases h.2
    rw [Text.trimStart, List.dropWhile_append, if_neg (by simpa using hne),
      List.head?_append_of_ne_nil _ hne]
    exact h.2

section

variable (hb : b.head?.any isNameChar = false)

include hb

theorem carries_classType? : Carries False (Moved b) (SameName b) classType? := by
  rw [funext classType?_eq]
  refine carries_named hb False.elim (by decide) (fun s => ⟨?_, False.elim⟩) fun s k hk => ?_
  · rintro k _ x rfl hx
    refine ⟨x, ?_, rfl, fun _ => rfl⟩
    unfold classForm? at hx ⊢
    dsimp only at hx ⊢
    split at hx
    · next k₁ hparen =>
      rw [Cursor.char?_extend hparen]
      dsimp only
      split at hx
      · next hcloses => 
        exact (if_pos (closesBeforeEquals_append hcloses b)).trans hx
      · cases hx
    · next hparen =>
      obtain ⟨k₁, hequals, hx⟩ := Option.bind_eq_some_iff.mp hx
      obtain ⟨t, hrest, -⟩ := Cursor.char?_eq_some_iff.mp hequals
      rw [Cursor.char?_eq_none (by simp [Cursor.extend, hrest]), Cursor.char?_extend hequals]
      exact hx
  · simp only [classForm?, hk.char? (c := '(') (by decide), hk.char? (c := '=') (by decide),
      Option.bind_none]

omit hb in
theorem carries_convention? : Carries (IsStop b) (Moved b) (Moved b) convention? :=
  .bind (.word? id (by decide)) (.blanks id (.word? id (by decide))
    fun k hk => hk.word? (by decide) (by decide))

theorem carries_externForm? : Carries (IsStop b) (Moved b) (SameName b) externForm? := by
  refine .bind (.char? id (by decide)) (.blanks? id ?_ fun k hk => by rw [hk.name?]; rfl)
  refine .bind (.name? hb) (.ofName fun s => ?_)
  change Carries (IsStop b) (Moved b) (SameName b) fun k => (k.blanks.char? '(').bind fun k =>
    some (s, .externFunction k.rest)
  exact .bind (.blanks id (.char? id (by decide)) fun k hk => hk.char? (by decide))
    (.result fun _ _ _ => ⟨rfl, fun _ => rfl⟩)

theorem carries_externFunction? : Carries False (Moved b) (SameName b) externFunction? := by
  rw [funext externFunction?_eq]
  refine .bind (carries_convention?.mono False.elim) (.bind (.until? '"') ⟨?_, False.elim⟩)
  intro x x' y hx hy
  exact (carries_externForm? hb).found hx hy

/-- A class whose list is not left open is not found later. -/
theorem classType?_extend (hstop : IsStop b)
    (hopen : (classList? k).any (fun k => !closesBeforeEquals k.rest) = false)
    (h : classType? k = none) : classType? (k.extend b) = none := by
  have hmark {c : Char} (hc : isAsked c = true) :
      Carries (IsStop b) (Moved b) (Moved b) fun k => (named? "cls" k).bind fun x => x.2.char? c :=
    carries_named hb id (by decide) (fun _ => .char? id hc) fun _ k hk => hk.char? hc
  rw [classType?_eq_none_iff] at h ⊢
  have hlist : classList? k = none := by
    cases hlist : classList? k with
    | none => rfl
    | some k₁ =>
      rw [hlist, Option.any_some] at hopen
      rw [hlist, Option.all_some, hopen] at h
      cases h.1
  have hlist' : classList? (k.extend b) = none := (hmark (by decide)).missed hstop rfl hlist
  exact ⟨by rw [hlist']; rfl, (hmark (by decide)).missed hstop rfl h.2⟩

/-- A foreign function whose calling convention is not left open is not found later. -/
theorem externFunction?_extend (hstop : IsStop b)
    (hopen : (convention? k).any (fun k => decide ('"' ∉ k.rest)) = false)
    (h : externFunction? k = none) : externFunction? (k.extend b) = none := by
  rw [externFunction?_eq] at h ⊢
  cases hquote : convention? k with
  | none => rw [carries_convention?.missed hstop rfl hquote, Option.bind_none]
  | some k₁ =>
    obtain ⟨_, hquote', rfl⟩ := (carries_convention? (b := b)).found rfl hquote
    rw [hquote, Option.bind_some] at h
    rw [hquote', Option.bind_some]
    have hmem : '"' ∈ k₁.rest := by simpa [hquote] using hopen
    obtain ⟨t, u, hrest, ht⟩ := List.eq_append_cons_of_mem hmem
    have huntil := Cursor.until?_of_rest hrest ht
    obtain ⟨x', huntil', hx'⟩ := (Carries.until? (b := b) '"').found rfl huntil
    rw [huntil, Option.bind_some] at h
    rw [huntil', Option.bind_some]
    exact (carries_externForm? hb).missed hstop hx' h

/-! ### All forms -/

/-- **What is read is read as well when the line goes on.** -/
theorem exists_forms?_extend {x : Span × Form} (h : forms? k = some x) :
    ∃ x', forms? (k.extend b) = some x' ∧ SameName b x x' := by
  have hfound : ∀ r ∈ readers, r.2 k = some x →
      ∃ x', r.2 (k.extend b) = some x' ∧ SameName b x x' := by
    simp only [readers, List.forall_mem_cons]
    exact ⟨fun h => (carries_let? hb).found rfl h, fun h => (carries_constant? hb).found rfl h,
      fun h => (carries_typedConstant? hb).found rfl h, fun h => (carries_type? hb).found rfl h,
      fun h => (carries_function? hb).found rfl h,
      fun h => (carries_externFunction? hb).found rfl h,
      fun h => (carries_classType? hb).found rfl h, List.forall_mem_nil _⟩
  obtain ⟨r, hr, hx⟩ := List.exists_of_findSome?_eq_some h
  obtain ⟨x', hx', hsame⟩ := hfound r hr hx
  exact ⟨x', forms?_of_mem_readers hr hx', hsame⟩

/-- **At a stop nothing else is read.** -/
theorem forms?_extend_eq_none (hstop : IsStop b) (hopen : leavesOpenAt k = false)
    (h : forms? k = none) : forms? (k.extend b) = none := by
  rw [leavesOpenAt, Bool.or_eq_false_iff] at hopen
  have hnone := List.findSome?_eq_none_iff.mp h
  refine List.findSome?_eq_none_iff.mpr ?_
  simp only [readers, List.forall_mem_cons] at hnone ⊢
  obtain ⟨hlet, hconstant, htyped, htype, hfunction, hextern, hclass, -⟩ := hnone
  exact ⟨(carries_let? hb).missed hstop rfl hlet, (carries_constant? hb).missed hstop rfl hconstant,
    (carries_typedConstant? hb).missed hstop rfl htyped, (carries_type? hb).missed hstop rfl htype,
    (carries_function? hb).missed hstop rfl hfunction,
    externFunction?_extend hb hstop hopen.2 hextern, classType?_extend hb hstop hopen.1 hclass,
    List.forall_mem_nil _⟩

omit hb in
theorem forms?_of_atStop (hk : k.AtStop) : forms? k = none := by
  refine forms?_eq_none ?_
  cases hrest : k.rest with
  | nil => decide
  | cons c t =>
    rw [Cursor.AtStop, hrest] at hk
    obtain rfl : c = '/' := by simpa using hk
    rw [List.takeWhile_cons_of_neg (by decide)]
    decide

omit hb in
theorem visibility_eq (k : Cursor) : (visibility k).2 =
    (((k.word? "pub".toList).bind Cursor.blanks?).getD k) := by
  unfold visibility
  cases (k.word? "pub".toList).bind Cursor.blanks? <;> rfl

theorem visibility_extend {x : Span × Form} (h : forms? (visibility k).2 = some x) :
    (visibility (k.extend b)).2 = (visibility k).2.extend b := by
  rw [visibility_eq] at h
  rw [visibility_eq, visibility_eq]
  cases hpub : (k.word? "pub".toList).bind Cursor.blanks? with
  | some k' =>
    rw [hpub, Option.getD_some] at h
    obtain ⟨k₁, hword, hblanks⟩ := Option.bind_eq_some_iff.mp hpub
    have hne : k'.rest ≠ [] := by
      intro hnil
      rw [forms?_of_atStop (by rw [Cursor.AtStop, hnil]; rfl)] at h
      cases h
    rw [Cursor.word?_extend hword, Option.bind_some, Cursor.blanks?_extend hblanks hne]
    rfl
  | none =>
    rw [hpub, Option.getD_none] at h
    obtain ⟨x', hx', -⟩ := exists_forms?_extend hb h
    have hfirst : (k.extend b).rest.takeWhile isNameChar ≠ "pub".toList := by
      intro hfirst
      rw [forms?_eq_filter hfirst] at hx'
      cases hx'
    rw [Cursor.word?_bind_blanks?_eq_none (by decide) hfirst]
    rfl

omit hb in
/-- At a stop, blanks are read as before or up to the stop. -/
theorem blanks?_extend_cases (hstop : IsStop b) (k : Cursor) :
    (k.extend b).blanks? = k.blanks?.map (·.extend b) ∨
      ∃ k', (k.extend b).blanks? = some k' ∧ k'.AtStop := by
  have hhead (hne : k.rest ≠ []) : (k.extend b).rest.head? = k.rest.head? :=
    List.head?_append_of_ne_nil _ hne
  by_cases hnil : k.blanks.rest = []
  · by_cases hblank : (k.extend b).rest.head?.any isBlank = true
    · refine .inr ⟨(k.extend b).blanks, if_pos hblank, ?_⟩
      rw [Cursor.AtStop, Cursor.rest_blanks_extend hnil]
      exact hstop
    · have hblank' : ¬ k.rest.head?.any isBlank = true := by
        by_cases hne : k.rest = []
        · simp [hne]
        · rwa [← hhead hne]
      exact .inl (by rw [Cursor.blanks?, Cursor.blanks?, if_neg hblank, if_neg hblank']; rfl)
  · have hne : k.rest ≠ [] := by
      intro hne
      rw [Cursor.rest_blanks, hne] at hnil
      exact hnil rfl
    left
    rw [Cursor.blanks?, Cursor.blanks?, hhead hne, Cursor.blanks_extend hnil]
    split <;> rfl

omit hb in
/-- At a stop, the reading starts where it did or fails. -/
theorem visibility_extend_cases (hstop : IsStop b) (k : Cursor) :
    (visibility (k.extend b)).2 = (visibility k).2.extend b ∨
      (visibility (k.extend b)).2.AtStop := by
  rw [visibility_eq, visibility_eq]
  cases hword : k.word? "pub".toList with
  | none =>
    have hword' := (Carries.word? (fun h : IsStop b => h) (by decide)).missed hstop rfl hword
    rw [hword']
    exact .inl rfl
  | some k₁ =>
    rw [Cursor.word?_extend hword, Option.bind_some, Option.bind_some]
    rcases blanks?_extend_cases hstop k₁ with hblanks | ⟨k₂, hblanks, hk₂⟩
    · rw [hblanks]
      cases k₁.blanks? <;> exact .inl rfl
    · rw [hblanks]
      exact .inr hk₂

end

/-- A declaration of a line is one of the line that goes on, under the same name. -/
theorem exists_ofLine?_append (hb : b.head?.any isNameChar = false) {line : Text} {head : Head}
    (h : ofLine? line = some head) :
    ∃ head', ofLine? (line ++ b) = some head' ∧ head'.name = head.name ∧
      (IsStop b → head'.form.proposalKind = head.form.proposalKind) := by
  rw [ofLine?_eq] at h
  obtain ⟨x, hx, rfl⟩ := Option.map_eq_some_iff.mp h
  obtain ⟨x', hx', hname, hkind⟩ := exists_forms?_extend hb hx
  rw [← visibility_extend hb hx] at hx'
  exact ⟨_, by rw [ofLine?_eq]; exact congrArg _ hx', hname, hkind⟩

theorem ofLine?_append_eq_none (hstop : IsStop b) {line : Text} (hopen : leavesOpen line = false)
    (h : ofLine? line = none) : ofLine? (line ++ b) = none := by
  rw [ofLine?_eq, Option.map_eq_none_iff] at h ⊢
  rcases visibility_extend_cases hstop (.ofLine line) with hsame | hstuck
  · change forms? (visibility ((Cursor.ofLine line).extend b)).2 = none
    rw [hsame]
    exact forms?_extend_eq_none hstop.not_isNameChar hstop hopen h
  · exact forms?_of_atStop hstuck

end Head

/-! ### Typed variables and lines -/

namespace TypedName

variable {b : Text}

/-- Reads the mark behind a typed name. -/
def mark? (k : Cursor) : Option Cursor := k.char? ';' <|> k.char? '='

theorem carries_mark? : Carries (IsStop b) (Moved b) (Moved b) mark? where
  found := by
    rintro k _ k' rfl hk'
    rcases (Option.orElse_eq_some _ _ _).mp hk' with hk' | ⟨-, hk'⟩
    · exact ⟨_, by rw [mark?, Cursor.char?_extend hk']; rfl, rfl⟩
    · obtain ⟨t, hrest, -⟩ := Cursor.char?_eq_some_iff.mp hk'
      have hnone : (k.extend b).char? ';' = none :=
        Cursor.char?_eq_none (by simp [Cursor.extend, hrest])
      exact ⟨_, by rw [mark?, hnone, Cursor.char?_extend hk']; rfl, rfl⟩
  missed := by
    rintro hstop k _ rfl hnone
    obtain ⟨hsemicolon, hequals⟩ := (Option.orElse_eq_none _ _).mp hnone
    rw [mark?, (Carries.char? (fun h : IsStop b => h) (by decide)).missed hstop rfl hsemicolon,
      (Carries.char? (fun h : IsStop b => h) (by decide)).missed hstop rfl hequals]
    rfl

theorem carries_read? (hb : b.head?.any isNameChar = false) :
    Carries (IsStop b) (Moved b) (fun x x' => x'.1 = x.1) read? := by
  refine .bind (.name? hb) (.ofName fun type => ?_)
  refine .blanks? id (.bind (.name? hb) (.ofName fun name => ?_)) fun k hk => by rw [hk.name?]; rfl
  change Carries (IsStop b) (Moved b) _ fun k => (mark? k.blanks).bind fun k =>
    some ((⟨type, name⟩ : TypedName), k.column)
  refine .bind (.blanks id carries_mark? fun k hk => ?_) (.result fun _ _ _ => rfl)
  rw [mark?, hk.char? (by decide), hk.char? (by decide)]
  rfl

/-- The variable that a typed name declares: none where the type is a keyword. -/
def proposal? (x : TypedName × Nat) : Option Proposal :=
  if x.1.type.text ∈ keywords then none else some { label := x.1.name.text, kind := .var }

theorem carries_proposal? (hb : b.head?.any isNameChar = false) :
    Carries (IsStop b) (Moved b) Eq fun k => (read? k).bind proposal? := by
  refine (carries_read? hb).bind ⟨?_, ?_⟩
  · rintro ⟨v, n⟩ ⟨_, n'⟩ p rfl hp
    exact ⟨p, hp, rfl⟩
  · rintro - ⟨v, n⟩ ⟨_, n'⟩ rfl hnone
    exact hnone

theorem takeWhile_of_proposal? {k : Cursor} {p : Proposal}
    (h : (read? k).bind proposal? = some p) : k.rest.takeWhile isNameChar ∉ keywords := by
  obtain ⟨⟨v, n⟩, hread, hp⟩ := Option.bind_eq_some_iff.mp h
  obtain ⟨k₁, -, -, -, htype, -⟩ := exists_of_read? hread
  rw [Cursor.takeWhile_of_name? htype]
  intro hkeyword
  rw [proposal?, if_pos hkeyword] at hp
  cases hp

end TypedName

/-- The declaration of a trimmed line. -/
def frontProposal? (line : Text) : Option Proposal :=
  match Head.ofLine? line with
  | some head => some { label := head.name.text, kind := head.form.proposalKind }
  | none => (TypedName.read? (.ofLine line)).bind TypedName.proposal?

theorem lineProposal?_eq (line : Text) : lineProposal? line = frontProposal? line.trim := by
  unfold lineProposal? frontProposal?
  dsimp only
  cases Head.ofLine? line.trim with
  | some head => rfl
  | none => cases TypedName.read? (.ofLine line.trim) <;> rfl

/-- **What a line declares it declares as well when it goes on**, unless its last word does. -/
theorem frontProposal?_append {line b : Text} (hb : b.head?.any isNameChar = false) {p : Proposal}
    (h : frontProposal? line = some p) :
    ∃ p', frontProposal? (line ++ b) = some p' ∧ p'.label = p.label ∧ (IsStop b → p' = p) := by
  unfold frontProposal? at h
  split at h
  · next head hhead =>
    obtain rfl := Option.some.inj h
    obtain ⟨head', hhead', hname, hkind⟩ := Head.exists_ofLine?_append hb hhead
    refine ⟨_, by rw [frontProposal?, hhead'], by rw [hname], fun hstop => ?_⟩
    rw [hname, hkind hstop]
  · obtain ⟨_, hp, rfl⟩ := (TypedName.carries_proposal? hb).found (moved_ofLine line b) h
    have hfirst : (line ++ b).takeWhile isNameChar ∉ keywords := TypedName.takeWhile_of_proposal? hp
    refine ⟨p, ?_, rfl, fun _ => rfl⟩
    rw [frontProposal?, Head.ofLine?_of_not_mem_keywords hfirst]
    exact hp

/-- **At a stop a line declares what it did**, unless it leaves something open. -/
theorem frontProposal?_append_stop {line b : Text} (hstop : IsStop b)
    (hopen : Head.leavesOpen line = false) : frontProposal? (line ++ b) = frontProposal? line := by
  cases h : frontProposal? line with
  | some p =>
    obtain ⟨p', hp', -, heq⟩ := frontProposal?_append hstop.not_isNameChar h
    rw [hp', heq hstop]
  | none =>
    unfold frontProposal? at h
    split at h
    · cases h
    · next hhead =>
      rw [frontProposal?, Head.ofLine?_append_eq_none hstop hopen hhead]
      exact (TypedName.carries_proposal? hstop.not_isNameChar).missed hstop (moved_ofLine line b) h

/-- Where a list or a calling convention is left open nothing is read, and a reserved word stands
there. -/
theorem Head.forms?_of_leavesOpenAt {k : Cursor} (h : leavesOpenAt k = true) :
    forms? k = none ∧ k.rest.takeWhile isNameChar ∈ keywords := by
  rw [leavesOpenAt, Bool.or_eq_true] at h
  rcases h with h | h
  · cases hlist : classList? k with
    | none =>
      rw [hlist] at h
      cases h
    | some k₁ =>
      obtain ⟨x, hnamed, hparen⟩ := Option.bind_eq_some_iff.mp hlist
      have hfirst : k.rest.takeWhile isNameChar = "cls".toList := by
        by_contra hne
        rw [named?_eq_none (by decide) hne] at hnamed
        cases hnamed
      obtain ⟨t, hrest, -⟩ := Cursor.char?_eq_some_iff.mp hparen
      have hequals : x.2.char? '=' = none := Cursor.char?_eq_none (by simp [hrest])
      have hnone : classType? k = none := by
        rw [classType?_eq_none_iff, hlist, hnamed]
        rw [hlist] at h
        exact ⟨h, hequals⟩
      exact ⟨(forms?_of_single hfirst rfl).trans hnone, hfirst ▸ by decide⟩
  · cases hquote : convention? k with
    | none =>
      rw [hquote] at h
      cases h
    | some k₁ =>
      obtain ⟨k₂, hword, hparen⟩ := Option.bind_eq_some_iff.mp hquote
      have hfirst := takeWhile_of_extern hword hparen
      have hnone : externFunction? k = none := by
        rw [hquote] at h
        rw [externFunction?_eq, hquote, Option.bind_some,
          Cursor.until?_eq_none (of_decide_eq_true h), Option.bind_none]
      exact ⟨(forms?_of_single hfirst rfl).trans hnone, hfirst ▸ by decide⟩

/-- A line that leaves a list or a calling convention open declares nothing. -/
theorem frontProposal?_of_leavesOpen {line : Text} (h : Head.leavesOpen line = true) :
    frontProposal? line = none := by
  obtain ⟨hforms, hkeyword⟩ := Head.forms?_of_leavesOpenAt h
  have hfirst : line.takeWhile isNameChar ∈ keywords := by
    rw [Head.visibility_eq] at hkeyword
    cases hpub : ((Cursor.ofLine line).word? "pub".toList).bind Cursor.blanks? with
    | none =>
      rw [hpub] at hkeyword
      exact hkeyword
    | some k =>
      have hword : line.takeWhile isNameChar = "pub".toList := by
        by_contra hne
        rw [Cursor.word?_bind_blanks?_eq_none (k := .ofLine line) (by decide) hne] at hpub
        cases hpub
      rw [hword]
      decide
  rw [frontProposal?, Head.ofLine?_eq, hforms, Option.map_none]
  exact Option.eq_none_iff_forall_ne_some.mpr fun p hp =>
    TypedName.takeWhile_of_proposal? hp hfirst

end JinkAnalysis
