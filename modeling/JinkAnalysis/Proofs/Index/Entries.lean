import JinkAnalysis.Proofs.Index.History

/-!
# The entries of one document

What an index knows of a document stands in three places: whether it is known at all, its outline,
and its symbols among those of each name. `Index.Holds` says that all three are what a text of the
document gives, or that there is nothing in any of them.

A change of an index sets one document to a text or to nothing (`Index.set`). In lockstep with
documents and their texts, **an index holds of every document the text that it has there**
(`Lockstep.holds`), and setting one document changes this text and no other
(`Lockstep.exists_set`).
-/

namespace JinkAnalysis

namespace Index

/-! ### Documents with their texts -/

/-- The text of a document among documents with their texts. -/
def textIn (docs : List (Uri × Text)) (uri : Uri) : Option Text :=
  (docs.find? fun d => decide (d.1 = uri)).map (·.2)

@[simp]
theorem textIn_nil (uri : Uri) : textIn [] uri = none := rfl

theorem textIn_cons (d : Uri × Text) (docs : List (Uri × Text)) (uri : Uri) :
    textIn (d :: docs) uri = if d.1 = uri then some d.2 else textIn docs uri := by
  by_cases h : d.1 = uri <;> simp [textIn, h]

theorem textIn_append (docs docs' : List (Uri × Text)) (uri : Uri) :
    textIn (docs ++ docs') uri = (textIn docs uri).or (textIn docs' uri) := by
  rw [textIn, List.find?_append, Option.map_or]
  rfl

/-- Taking a document out leaves the texts of all others. -/
theorem textIn_filter_ne (docs : List (Uri × Text)) (uri document : Uri) :
    textIn (docs.filter fun d => decide (d.1 ≠ document)) uri =
      if uri = document then none else textIn docs uri := by
  induction docs with
  | nil => simp
  | cons d docs ih =>
    by_cases hd : d.1 = document
    · rw [List.filter_cons_of_neg (by simp [hd]), ih, textIn_cons, hd]
      by_cases huri : uri = document
      · rw [if_pos huri, if_pos huri]
      · rw [if_neg huri, if_neg huri, if_neg (Ne.symm huri)]
    · rw [List.filter_cons_of_pos (by simp [hd]), textIn_cons, textIn_cons, ih]
      by_cases huri : uri = document
      · rw [if_pos huri, if_pos huri, if_neg (huri ▸ hd)]
      · rw [if_neg huri, if_neg huri]

/-- The documents of one name are none or one. -/
theorem filter_eq_of_nodup {docs : List (Uri × Text)} (h : (docs.map (·.1)).Nodup) (uri : Uri) :
    docs.filter (fun d => decide (d.1 = uri)) = (textIn docs uri).toList.map fun t => (uri, t) := by
  induction docs with
  | nil => rfl
  | cons d docs ih =>
    obtain ⟨hfresh, h⟩ := List.nodup_cons.mp h
    rw [textIn_cons]
    by_cases hd : d.1 = uri
    · have hnone : docs.filter (fun d => decide (d.1 = uri)) = [] :=
        List.filter_eq_nil_iff.mpr fun e he heq =>
          hfresh (List.mem_map.mpr ⟨e, he, (of_decide_eq_true heq).trans hd.symm⟩)
      rw [List.filter_cons_of_pos (by simpa using hd), hnone, if_pos hd, ← hd]
      rfl
    · rw [List.filter_cons_of_neg (by simpa using hd), if_neg hd, ih h]

/-! ### What an index holds of a document -/

/-- What the index has of a document is what the text gives: it is known, with the outline of the
text, and its symbols stand under their names in the order of the text. Without a text there is
nothing of it. -/
structure Holds (index : Index) (uri : Uri) (text? : Option Text) : Prop where
  known : uri ∈ index.known ↔ text?.isSome = true
  outline : index.outline uri = (text?.map Outline.ofText).getD ⟨[], []⟩
  definitions : ∀ name, (index.definitions name).filter (fun s => decide (s.owner = uri)) =
    (text?.toList.flatMap fun text => symbolsOf (uri, text)).filter fun s => decide (s.name = name)

/-- Two indexes that hold the same text of a document hold the same of it throughout. -/
theorem Holds.of_holds {index index' : Index} {uri : Uri} {text? text?' : Option Text}
    (h : index.Holds uri text?) (hsame : index.Holds uri text?')
    (hsame' : index'.Holds uri text?') : index'.Holds uri text? where
  known := hsame'.known.trans (hsame.known.symm.trans h.known)
  outline := hsame'.outline.trans (hsame.outline.symm.trans h.outline)
  definitions := fun name =>
    (hsame'.definitions name).trans ((hsame.definitions name).symm.trans (h.definitions name))

/-- The index with a document set to a text, or without the document. -/
def set (index : Index) (uri : Uri) (text? : Option Text) : Index :=
  match text? with
  | some text => index.update uri text
  | none => index.remove uri

namespace Lockstep

variable {index : Index} {docs : List (Uri × Text)}

/-- **An index holds of every document its text.** -/
theorem holds (h : Lockstep index docs) (uri : Uri) : index.Holds uri (textIn docs uri) where
  known := by
    rw [h.known, textIn, Option.isSome_map, List.find?_isSome, List.mem_map]
    simp only [decide_eq_true_eq]
  outline := by
    rw [Index.outline, h.documents, textIn, List.find?_map, Option.map_map, Option.map_map]
    rfl
  definitions := fun name => by
    rw [h.definitions, definitionsIn, ← List.filter_flatMap, List.filter_comm,
      filter_owner_flatMap_symbolsOf fun owner => decide (owner = uri),
      filter_eq_of_nodup h.uris_nodup, List.flatMap_map]

/-- **Setting a document changes its text and no other.** -/
theorem exists_set (h : Lockstep index docs) (uri : Uri) (text? : Option Text) :
    ∃ docs', Lockstep (index.set uri text?) docs' ∧
      ∀ document, textIn docs' document =
        if document = uri then text? else textIn docs document := by
  cases text? with
  | none => exact ⟨_, h.remove uri, fun document => textIn_filter_ne docs document uri⟩
  | some text =>
    refine ⟨_, h.update uri text, fun document => ?_⟩
    rw [textIn_append, textIn_filter_ne, textIn_cons]
    by_cases hdocument : document = uri
    · rw [if_pos hdocument, if_pos hdocument, if_pos hdocument.symm, Option.none_or]
    · rw [if_neg hdocument, if_neg hdocument, if_neg (Ne.symm hdocument), textIn_nil,
        Option.or_none]

end Lockstep

end Index

end JinkAnalysis
