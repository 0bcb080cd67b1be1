import JinkAnalysis.Proofs.Completion.Hidden

/-!
# What is proposed, exactly

The proposals at a cursor come in two parts, and a label that has been proposed is not proposed
again. The first part are the declarations of the text that go on as typed, each label where it
first appears. The second part are the symbols that are eligible (`Symbol.Eligible`): a name that is
not taken by the first part gets **one proposal if it has an eligible symbol, for the first one that
it has, and none otherwise** (`completions_spec`).

So a declaration of the text takes its name only where it is proposed itself, which depends on what
has been typed. **A declared name is proposed for import all the same, as long as it does not go on
as typed** (`importProposed_iff`, `importProposed_although_declared`).
-/

namespace JinkAnalysis

/-- A symbol that completion proposes unless its name is taken: the document may import it, and its
imports do not make it visible yet. -/
structure Symbol.Eligible (index : Index) (roots : List Text) (uri : Uri) (s : Symbol) : Prop
    extends s.MayBeImported roots uri where
  hidden : isVisible index uri s = false

instance (index : Index) (roots : List Text) (uri : Uri) (s : Symbol) :
    Decidable (s.Eligible index roots uri) :=
  decidable_of_iff (s.MayBeImported roots uri ∧ isVisible index uri s = false)
    ⟨fun h => ⟨h.1, h.2⟩, fun h => ⟨h.toMayBeImported, h.hidden⟩⟩

/-- The proposal to import a symbol from the module of its document. -/
def Symbol.importProposal (roots : List Text) (s : Symbol) : Proposal :=
  ⟨s.name, s.shape.proposalKind, modulePath? roots s.owner⟩

/-- The proposals to import that the eligible symbols of an index lead to. -/
def Index.eligibleProposals (index : Index) (roots : List Text) (uri : Uri) : List Proposal :=
  (index.symbols.filter fun s => decide (s.Eligible index roots uri)).map (·.importProposal roots)

/-- The first proposal of each label, in the order in which the labels appear. -/
def firstOfEach (ps : List Proposal) : List Proposal :=
  filterPast (fun past p => p.label ∉ past.map (·.label)) ps

section

variable {index : Index} {roots : List Text} {uri : Uri}

/-! ### Eligible symbols -/

/-- **A symbol leads to a proposal exactly if it is eligible.** -/
theorem importProposal?_eq_guard (index : Index) (roots : List Text) (uri : Uri) (s : Symbol) :
    importProposal? index roots uri s =
      (Option.guard (fun s => decide (s.Eligible index roots uri)) s).map
        (·.importProposal roots) := by
  cases hproposal : importProposal? index roots uri s with
  | none =>
    have hnot : ¬ s.Eligible index roots uri := fun h =>
      Bool.false_ne_true
        (h.hidden.symm.trans ((importProposal?_eq_none_iff s).mp hproposal h.toMayBeImported))
    rw [Option.guard, decide_eq_false hnot]
    rfl
  | some p =>
    obtain ⟨hother, hpublic, hhidden, -, path, hpath, -⟩ := importProposal?_spec hproposal
    have heligible : s.Eligible index roots uri :=
      ⟨⟨hother, hpublic, by rw [hpath]; exact Option.some_ne_none path⟩, hhidden⟩
    have hvalue : p = s.importProposal roots := by
      have hnot : ¬ (s.owner.lower = uri.lower ∨ s.isPublic = false ∨
          isVisible index uri s = true) := by
        simp [hother, hpublic, hhidden]
      rw [importProposal?, if_neg hnot, hpath, Option.map_some] at hproposal
      rw [Symbol.importProposal, hpath, Option.some.inj hproposal]
    rw [Option.guard, decide_eq_true heligible, hvalue]
    rfl

theorem filterMap_importProposal? (index : Index) (roots : List Text) (uri : Uri) :
    index.symbols.filterMap (importProposal? index roots uri) =
      index.eligibleProposals roots uri := by
  rw [Index.eligibleProposals, funext (importProposal?_eq_guard index roots uri),
    ← List.map_filterMap, List.filterMap_eq_filter]

theorem findSome?_importProposal? (ss : List Symbol) :
    ss.findSome? (importProposal? index roots uri) =
      (ss.find? fun s => decide (s.Eligible index roots uri)).map (·.importProposal roots) := by
  rw [← List.findSome?_guard, List.map_findSome?, funext (importProposal?_eq_guard index roots uri)]
  rfl

/-- A proposal to import adds one statement, for its label. -/
theorem exists_edits_of_mem_eligibleProposals {p : Proposal}
    (h : p ∈ index.eligibleProposals roots uri) :
    ∃ path, p.edits = [⟨.zero, Proposal.importLine path p.label⟩] := by
  obtain ⟨s, hs, rfl⟩ := List.mem_map.mp h
  have heligible : s.Eligible index roots uri := of_decide_eq_true (List.mem_filter.mp hs).2
  obtain ⟨path, hpath⟩ := Option.ne_none_iff_exists'.mp heligible.path
  exact ⟨path, by rw [Symbol.importProposal, hpath]; rfl⟩

theorem mem_labels_eligibleProposals_iff (name : Text) :
    name ∈ (index.eligibleProposals roots uri).map (·.label) ↔
      ∃ s ∈ index.symbols, s.name = name ∧ s.Eligible index roots uri := by
  simp only [Index.eligibleProposals, List.mem_map, List.mem_filter, decide_eq_true_eq]
  constructor
  · rintro ⟨p, ⟨s, ⟨hs, heligible⟩, rfl⟩, rfl⟩
    exact ⟨s, hs, rfl, heligible⟩
  · rintro ⟨s, hs, rfl, heligible⟩
    exact ⟨_, ⟨s, ⟨hs, heligible⟩, rfl⟩, rfl⟩

end

/-! ### New labels -/

/-- Which labels have been seen matters, not in what order. -/
theorem newLabels_congr {seen seen' : List Text} (h : ∀ name, name ∈ seen ↔ name ∈ seen')
    (ps : List Proposal) : newLabels seen ps = newLabels seen' ps := by
  induction ps generalizing seen seen' with
  | nil => rfl
  | cons p rest ih =>
    have hcons : ∀ name, name ∈ p.label :: seen ↔ name ∈ p.label :: seen' := fun name => by
      rw [List.mem_cons, List.mem_cons, h]
    rw [newLabels, newLabels, ih h, ih hcons]
    simp only [h]

/-- What comes later sees all labels that came before. -/
theorem newLabels_append (seen : List Text) (ps qs : List Proposal) :
    newLabels seen (ps ++ qs) =
      newLabels seen ps ++ newLabels (ps.map (·.label) ++ seen) qs := by
  fun_induction newLabels seen ps with
  | case1 => rfl
  | case2 seen p rest hseen ih =>
    rw [List.cons_append, newLabels, if_pos hseen, ih]
    refine congrArg _ (newLabels_congr (fun name => ?_) qs)
    simp only [List.map_cons, List.cons_append, List.mem_cons, List.mem_append]
    constructor
    · exact .inr
    · rintro (rfl | hname)
      · exact .inr hseen
      · exact hname
  | case3 seen p rest hseen ih =>
    rw [List.cons_append, newLabels, if_neg hseen, ih, List.cons_append]
    refine congrArg _ (congrArg _ (newLabels_congr (fun name => ?_) qs))
    simp only [List.map_cons, List.cons_append, List.mem_cons, List.mem_append]
    exact or_left_comm

theorem newLabels_sublist (seen : List Text) (ps : List Proposal) :
    (newLabels seen ps).Sublist ps := by
  fun_induction newLabels seen ps with
  | case1 => exact .slnil
  | case2 seen p rest _ ih => exact ih.cons p
  | case3 seen p rest _ ih => exact ih.cons_cons p

theorem newLabels_eq_filterPast (seen : List Text) (ps : List Proposal) :
    newLabels seen ps =
      filterPast (fun past p => p.label ∉ past.map (·.label) ++ seen) ps := by
  induction ps generalizing seen with
  | nil => rfl
  | cons p rest ih =>
    have hrest : newLabels (p.label :: seen) rest =
        filterPast (fun past q => q.label ∉ (p :: past).map (·.label) ++ seen) rest := by
      rw [ih]
      refine filterPast_congr (fun past q => not_congr ?_) rest
      simp only [List.map_cons, List.cons_append, List.mem_cons, List.mem_append]
      exact or_left_comm
    by_cases hseen : p.label ∈ seen
    · rw [newLabels, if_pos hseen, filterPast_cons_of_neg (by simpa using hseen), ← hrest]
      refine newLabels_congr (fun name => ?_) rest
      rw [List.mem_cons]
      exact ⟨.inr, fun h => h.elim (fun heq => heq ▸ hseen) id⟩
    · rw [newLabels, if_neg hseen, filterPast_cons_of_pos (by simpa using hseen), hrest]

theorem newLabels_nil_eq_firstOfEach (ps : List Proposal) : newLabels [] ps = firstOfEach ps := by
  rw [newLabels_eq_filterPast, firstOfEach]
  exact filterPast_congr (fun past p => by rw [List.append_nil]) ps

theorem mem_labels_newLabels_iff (seen : List Text) (ps : List Proposal) (name : Text) :
    name ∈ (newLabels seen ps).map (·.label) ↔ name ∉ seen ∧ name ∈ ps.map (·.label) := by
  rw [← not_iff_not, ← labelled?_eq_none_iff, labelled?_newLabels]
  by_cases hseen : name ∈ seen
  · simp [hseen]
  · simp [hseen, labelled?_eq_none_iff]

theorem mem_labels_firstOfEach_iff (ps : List Proposal) (name : Text) :
    name ∈ (firstOfEach ps).map (·.label) ↔ name ∈ ps.map (·.label) := by
  rw [← newLabels_nil_eq_firstOfEach, mem_labels_newLabels_iff]
  exact and_iff_right List.not_mem_nil

/-- In a list with distinct labels, the proposals with a label are the first one. -/
theorem filter_label_eq {ps : List Proposal} (hps : (ps.map (·.label)).Nodup) (name : Text) :
    ps.filter (fun p => decide (p.label = name)) = (labelled? ps name).toList := by
  induction ps with
  | nil => rfl
  | cons p rest ih =>
    obtain ⟨hfresh, hps⟩ := List.nodup_cons.mp hps
    rw [labelled?_cons]
    by_cases hname : p.label = name
    · have hnone : labelled? rest name = none :=
        (labelled?_eq_none_iff rest name).mpr (hname ▸ hfresh)
      rw [List.filter_cons_of_pos (by simpa using hname), ih hps, hnone, if_pos hname]
      rfl
    · rw [List.filter_cons_of_neg (by simpa using hname), ih hps, if_neg hname]

/-! ### All proposals -/

/-- The two parts of the proposals. -/
theorem completions_eq_append (index : Index) (roots : List Text) (uri : Uri) (text : Text)
    (caret : Caret) :
    completions index roots uri text caret =
      firstOfEach (typedDeclarations text caret) ++
        newLabels ((typedDeclarations text caret).map (·.label))
          (index.eligibleProposals roots uri) := by
  rw [completions_eq, newLabels_append, List.append_nil, newLabels_nil_eq_firstOfEach,
    filterMap_importProposal?]

theorem edits_of_mem_firstOfEach {text : Text} {caret : Caret} {p : Proposal}
    (h : p ∈ firstOfEach (typedDeclarations text caret)) : p.edits = [] := by
  rw [← newLabels_nil_eq_firstOfEach] at h
  have hlocal := (List.mem_filter.mp (mem_of_mem_newLabels h)).1
  rw [Proposal.edits, source?_of_mem_localDeclarations hlocal]

theorem mem_labels_typedDeclarations_iff (text : Text) (caret : Caret) (name : Text) :
    name ∈ (typedDeclarations text caret).map (·.label) ↔
      name ∈ (localDeclarations text).map (·.label) ∧
        (typedPart text caret).lower.isPrefixOf name.lower = true := by
  constructor
  · intro h
    obtain ⟨p, hp, rfl⟩ := List.mem_map.mp h
    exact ⟨List.mem_map_of_mem (List.mem_filter.mp hp).1, (List.mem_filter.mp hp).2⟩
  · rintro ⟨h, htyped⟩
    obtain ⟨p, hp, rfl⟩ := List.mem_map.mp h
    exact List.mem_map_of_mem (List.mem_filter.mpr ⟨hp, htyped⟩)

/-- The proposals without edits are those of the first part. -/
theorem declarationProposed_iff (index : Index) (roots : List Text) (uri : Uri) (text : Text)
    (caret : Caret) (name : Text) :
    (∃ p ∈ completions index roots uri text caret, p.label = name ∧ p.edits = []) ↔
      name ∈ (localDeclarations text).map (·.label) ∧
        (typedPart text caret).lower.isPrefixOf name.lower = true := by
  rw [← mem_labels_typedDeclarations_iff, ← mem_labels_firstOfEach_iff, completions_eq_append]
  constructor
  · rintro ⟨p, hp, rfl, hedits⟩
    refine List.mem_map_of_mem ((List.mem_append.mp hp).resolve_right fun hp => ?_)
    obtain ⟨path, hpath⟩ := exists_edits_of_mem_eligibleProposals (mem_of_mem_newLabels hp)
    rw [hpath] at hedits
    exact List.cons_ne_nil _ _ hedits
  · intro hname
    obtain ⟨p, hp, rfl⟩ := List.mem_map.mp hname
    exact ⟨p, List.mem_append_left _ hp, rfl, edits_of_mem_firstOfEach hp⟩

/-- **Completion, exactly.** The labels of the proposals are distinct. First come the declarations
of the text whose name starts, in any letter case, with what has been typed: each label where it
first appears, and without edits. Then come proposals to import, each with the one edit that adds
the import: a name has exactly one if it is none of these labels and has an eligible symbol, and it
is that of the first eligible symbol of the name; any other name has none. They stand in the order
in which the index lists the symbols. -/
theorem completions_spec (ops : List Index.Operation) (roots : List Text) (uri : Uri) (text : Text)
    (caret : Caret) :
    let index := Index.ofHistory ops
    let own := firstOfEach (typedDeclarations text caret)
    ∃ imported, completions index roots uri text caret = own ++ imported ∧
      ((own ++ imported).map (·.label)).Nodup ∧
      (∀ p ∈ own, p.edits = []) ∧
      (∀ p ∈ imported, ∃ path, p.edits = [⟨.zero, Proposal.importLine path p.label⟩]) ∧
      (∀ name, imported.filter (fun p => decide (p.label = name)) =
        if name ∈ own.map (·.label) then []
        else (((index.definitions name).find? fun s => decide (s.Eligible index roots uri)).map
          (·.importProposal roots)).toList) ∧
      imported.Sublist (index.eligibleProposals roots uri) := by
  intro index own
  have h : index.Lockstep (Index.live ops) := Index.lockstep_ofHistory ops
  have hsplit := completions_eq_append index roots uri text caret
  refine ⟨_, hsplit, ?_, fun p hp => edits_of_mem_firstOfEach hp,
    fun p hp => exists_edits_of_mem_eligibleProposals (mem_of_mem_newLabels hp), fun name => ?_,
    newLabels_sublist _ _⟩
  · rw [← hsplit]
    exact nodup_labels_completions index roots uri text caret
  · have hlabel : ∀ s p, importProposal? index roots uri s = some p → p.label = s.name :=
      fun s p hp => (importProposal?_spec hp).2.2.2.1
    simp only [own, mem_labels_firstOfEach_iff]
    rw [filter_label_eq (nodup_labels_newLabels _ _), labelled?_newLabels,
      ← filterMap_importProposal?, labelled?_filterMap hlabel, Index.symbols,
      h.groups.filter_flatMap, ← Index.definitions_eq_symbolsUnder, findSome?_importProposal?]
    split <;> rfl

/-! ### Declarations that take their name -/

/-- **Which names are proposed for import.** For any index, a name is proposed for import exactly if
it has an eligible symbol and is not both declared by the text and, in any letter case, a
continuation of what has been typed. -/
theorem importProposed_iff (index : Index) (roots : List Text) (uri : Uri) (text : Text)
    (caret : Caret) (name : Text) :
    (∃ p ∈ completions index roots uri text caret, p.label = name ∧ p.edits ≠ []) ↔
      (∃ s ∈ index.symbols, s.name = name ∧ s.Eligible index roots uri) ∧
      ¬ (name ∈ (localDeclarations text).map (·.label) ∧
        (typedPart text caret).lower.isPrefixOf name.lower = true) := by
  -- the proposals with edits are those of the second part
  have hsecond : (∃ p ∈ completions index roots uri text caret, p.label = name ∧ p.edits ≠ []) ↔
      name ∈ (newLabels ((typedDeclarations text caret).map (·.label))
        (index.eligibleProposals roots uri)).map (·.label) := by
    rw [completions_eq_append]
    constructor
    · rintro ⟨p, hp, rfl, hedits⟩
      refine List.mem_map_of_mem ((List.mem_append.mp hp).resolve_left fun hp => ?_)
      exact hedits (edits_of_mem_firstOfEach hp)
    · intro hname
      obtain ⟨p, hp, rfl⟩ := List.mem_map.mp hname
      obtain ⟨path, hedits⟩ := exists_edits_of_mem_eligibleProposals (mem_of_mem_newLabels hp)
      exact ⟨p, List.mem_append_right _ hp, rfl, by rw [hedits]; exact List.cons_ne_nil _ _⟩
  rw [hsecond, mem_labels_newLabels_iff, mem_labels_eligibleProposals_iff,
    mem_labels_typedDeclarations_iff, and_comm]

/-- **A declaration of the text does not always take its name**: where something else is being
typed, a symbol of the same name is proposed for import. Where nothing has been typed yet, it is
not. -/
theorem importProposed_although_declared :
    let index := Index.ofHistory [.update "file:///ws/src/lib.jk".toList "pub let x = 1;".toList]
    let roots := ["src".toList]
    let main := "file:///ws/src/main.jk".toList
    let text : Text := "let x = 1;\ny".toList
    ['x'] ∈ (localDeclarations text).map (·.label) ∧
    completions index roots main text ⟨1, 1⟩ = [⟨['x'], .var, some "lib".toList⟩] ∧
    completions index roots main text ⟨1, 0⟩ = [⟨['x'], .var, none⟩] := by
  decide +kernel

end JinkAnalysis
