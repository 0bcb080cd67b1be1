import JinkAnalysis.Proofs.Completion.Proposals
import Mathlib.Data.List.Perm.Basic

/-!
# One proposal for each label

Proposals are collected from the text and then from all symbols, and of those with the same label
only the first is kept. So the proposals at a cursor are determined, up to their order, by **what is
proposed under each label** (`perm_of_labelled?_eq`): the first declaration of the text that goes on
as typed, or else what the first symbol of the name leads to that leads to a proposal at all
(`labelled?_completions`). The symbols of a name stand together in an index, and so the second part
is a question to `Index.definitions`; where the names stand among each other does not matter.
-/

namespace JinkAnalysis

/-- The first proposal with a label. -/
def labelled? (ps : List Proposal) (name : Text) : Option Proposal :=
  ps.find? fun p => decide (p.label = name)

theorem labelled?_append (ps qs : List Proposal) (name : Text) :
    labelled? (ps ++ qs) name = (labelled? ps name).or (labelled? qs name) := List.find?_append

theorem labelled?_cons (p : Proposal) (ps : List Proposal) (name : Text) :
    labelled? (p :: ps) name = if p.label = name then some p else labelled? ps name := by
  by_cases h : p.label = name <;> simp [labelled?, h]

/-! ### Lists with distinct labels -/

/-- A label that was seen before is left out, and every other one keeps its first proposal. -/
theorem labelled?_newLabels (seen : List Text) (ps : List Proposal) (name : Text) :
    labelled? (newLabels seen ps) name = if name ∈ seen then none else labelled? ps name := by
  fun_induction newLabels seen ps with
  | case1 => simp [labelled?]
  | case2 seen p rest hseen ih =>
    rw [ih, labelled?_cons]
    by_cases hname : p.label = name
    · rw [if_pos (hname ▸ hseen), if_pos (hname ▸ hseen)]
    · rw [if_neg hname]
  | case3 seen p rest hseen ih =>
    rw [labelled?_cons, labelled?_cons, ih]
    by_cases hname : p.label = name
    · rw [if_pos hname, if_pos hname, if_neg (hname ▸ hseen)]
    · simp [hname, Ne.symm hname]

theorem nodup_labels_newLabels (seen : List Text) (ps : List Proposal) :
    ((newLabels seen ps).map (·.label)).Nodup := by
  fun_induction newLabels seen ps with
  | case1 => exact List.nodup_nil
  | case2 seen p rest _ ih => exact ih
  | case3 seen p rest _ ih =>
    refine List.nodup_cons.mpr ⟨fun hmem => ?_, ih⟩
    obtain ⟨q, hq, hlabel⟩ := List.mem_map.mp hmem
    -- the label of `p` counts as seen in the rest
    have hnone : labelled? (newLabels (p.label :: seen) rest) p.label = none := by
      rw [labelled?_newLabels, if_pos List.mem_cons_self]
    exact List.find?_eq_none.mp hnone q hq (decide_eq_true hlabel)

/-- In a list with distinct labels, a proposal is the only one with its label. -/
theorem mem_iff_labelled? {ps : List Proposal} (hps : (ps.map (·.label)).Nodup) (p : Proposal) :
    p ∈ ps ↔ labelled? ps p.label = some p := by
  refine ⟨fun hp => ?_, List.mem_of_find?_eq_some⟩
  induction ps with
  | nil => cases hp
  | cons q rest ih =>
    obtain ⟨hfresh, hps⟩ := List.nodup_cons.mp hps
    rw [labelled?_cons]
    rcases List.mem_cons.mp hp with rfl | hp
    · rw [if_pos rfl]
    · have hne : q.label ≠ p.label := fun heq => hfresh (List.mem_map.mpr ⟨p, hp, heq.symm⟩)
      rw [if_neg hne, ih hps hp]

/-- **Proposals with distinct labels are determined by what stands under each label.** -/
theorem perm_of_labelled?_eq {ps qs : List Proposal} (hps : (ps.map (·.label)).Nodup)
    (hqs : (qs.map (·.label)).Nodup) (h : ∀ name, labelled? ps name = labelled? qs name) :
    ps.Perm qs := by
  refine (List.perm_ext_iff_of_nodup hps.of_map hqs.of_map).mpr fun p => ?_
  rw [mem_iff_labelled? hps, mem_iff_labelled? hqs, h]

/-! ### What is proposed under a label -/

/-- The declarations of a text whose name goes on as typed before a cursor. -/
def typedDeclarations (text : Text) (caret : Caret) : List Proposal :=
  (localDeclarations text).filter fun p =>
    (typedPart text caret).lower.isPrefixOf p.label.lower

theorem completions_eq (index : Index) (roots : List Text) (uri : Uri) (text : Text)
    (caret : Caret) :
    completions index roots uri text caret =
      newLabels [] (typedDeclarations text caret ++
        index.symbols.filterMap (importProposal? index roots uri)) := rfl

/-- Where proposals bear the names of their symbols, the first with a label comes from the first
symbol of the name that leads to one. -/
theorem labelled?_filterMap {f : Symbol → Option Proposal}
    (hf : ∀ s p, f s = some p → p.label = s.name) (ss : List Symbol) (name : Text) :
    labelled? (ss.filterMap f) name =
      (ss.filter fun s => decide (s.name = name)).findSome? f := by
  induction ss with
  | nil => rfl
  | cons s rest ih =>
    cases hs : f s with
    | none =>
      rw [List.filterMap_cons_none hs, ih, List.filter_cons]
      split
      · rw [List.findSome?_cons, hs]
      · rfl
    | some p =>
      have hlabel := hf s p hs
      rw [List.filterMap_cons_some hs, labelled?_cons, List.filter_cons, hlabel]
      by_cases hname : s.name = name
      · rw [if_pos hname, if_pos (decide_eq_true hname), List.findSome?_cons, hs]
      · rw [if_neg hname, if_neg (by simpa using hname), ih]

/-- **What is proposed under a label**: the first declaration of the text that goes on as typed, or
else what the symbols of the name lead to. -/
theorem labelled?_completions {index : Index} {docs : List (Uri × Text)}
    (h : index.Lockstep docs) (roots : List Text) (uri : Uri) (text : Text) (caret : Caret)
    (name : Text) :
    labelled? (completions index roots uri text caret) name =
      (labelled? (typedDeclarations text caret) name).or
        ((index.definitions name).findSome? (importProposal? index roots uri)) := by
  have hlabel : ∀ s p, importProposal? index roots uri s = some p → p.label = s.name :=
    fun s p hp => (importProposal?_spec hp).2.2.2.1
  rw [completions_eq, labelled?_newLabels, if_neg List.not_mem_nil, labelled?_append,
    labelled?_filterMap hlabel, Index.symbols, h.groups.filter_flatMap,
    Index.definitions_eq_symbolsUnder]

/-- No label is proposed twice. -/
theorem nodup_labels_completions (index : Index) (roots : List Text) (uri : Uri) (text : Text)
    (caret : Caret) : ((completions index roots uri text caret).map (·.label)).Nodup :=
  nodup_labels_newLabels [] _

end JinkAnalysis
