import JinkAnalysis.Proofs.Index.Names
import Mathlib.Algebra.GroupWithZero.Nat
import Mathlib.Data.List.Induction

/-!
# An index and the history of its changes

An index starts empty and is changed by indexing a document, removing one, or clearing everything.
`Index.live` reads off a history which documents are known after it and with which text: the
documents of those updates that nothing later touches, in the order of these updates. It looks at
the history only and never at an index.

The two sides of an index, by document and by name, are changed separately, and names are shared
between documents. The invariant `Index.Lockstep` ties both to the live documents: the by-document
side lists their outlines, and the by-name side groups the symbols of all of them, **document by
document in the order of the last updates**. Every change keeps it (`Lockstep.remove`,
`Lockstep.update`), so every history leads to it (`lockstep_ofHistory`).

* `ofHistory_eq_live`: all that can be asked of an index is a function of the live documents, the
  order of the names apart.
* `last_write_wins`: a change of a document takes back any change of the same document right before
  it, down to the order of the names.
-/

namespace JinkAnalysis

namespace Index

/-- A change of an index. -/
inductive Operation where
  /-- A document is indexed with a text. -/
  | update (uri : Uri) (text : Text)
  /-- A document is removed. -/
  | remove (uri : Uri)
  /-- Everything is forgotten. -/
  | clear
deriving Repr, DecidableEq

/-- The index after a change. -/
def perform (index : Index) : Operation → Index
  | .update uri text => index.update uri text
  | .remove uri => index.remove uri
  | .clear => .empty

/-- The index after a history of changes, the first of which meets the empty index. -/
def ofHistory (ops : List Operation) : Index := ops.foldl perform .empty

theorem ofHistory_concat (ops : List Operation) (op : Operation) :
    ofHistory (ops ++ [op]) = (ofHistory ops).perform op := by
  simp [ofHistory]

/-! ### The live documents of a history -/

/-- Whether a change decides anew what is known of a document. -/
def Operation.touches (uri : Uri) : Operation → Bool
  | .update u _ => decide (u = uri)
  | .remove u => decide (u = uri)
  | .clear => true

/-- The documents that are known after a history, each with its last text: those of the updates that
no later change touches, in order. -/
def live : List Operation → List (Uri × Text)
  | [] => []
  | .update uri text :: later =>
    if later.any (·.touches uri) then live later else (uri, text) :: live later
  | .remove _ :: later => live later
  | .clear :: later => live later

/-- One more change takes out the documents that it touches, and an update puts its document
last. -/
theorem live_concat (ops : List Operation) (op : Operation) :
    live (ops ++ [op]) = (live ops).filter (fun d => !op.touches d.1) ++ live [op] := by
  fun_induction live ops with
  | case1 => rfl
  | case2 uri text later h ih =>
    rw [List.cons_append, live, if_pos (by simp [h]), ih]
  | case3 uri text later h ih =>
    rw [List.cons_append, live, ih]
    by_cases hop : op.touches uri <;> simp [h, hop]
  | case4 _ later ih => rw [List.cons_append, live, ih]
  | case5 later ih => rw [List.cons_append, live, ih]

/-! ### Documents that are not known -/

theorem outline_of_unknown {index : Index} {uri : Uri} (huri : uri ∉ index.known) :
    index.outline uri = ⟨[], []⟩ := by
  have hnone : (index.documents.find? fun d => decide (d.1 = uri)) = none :=
    List.find?_eq_none.mpr fun d hd hdec =>
      huri (List.mem_map.mpr ⟨d, hd, of_decide_eq_true hdec⟩)
  rw [outline, hnone]
  rfl

theorem documents_remove_of_unknown {index : Index} {uri : Uri} (huri : uri ∉ index.known) :
    (index.remove uri).documents = index.documents :=
  List.filter_eq_self.mpr fun d hd => decide_eq_true fun heq =>
    huri (List.mem_map.mpr ⟨d, hd, heq⟩)

/-! ### The two sides of an index in lockstep -/

/-- The symbols of a document with a text. -/
def symbolsOf (d : Uri × Text) : List Symbol :=
  (Outline.ofText d.2).declarations.map (·.inDocument d.1)

theorem owner_of_mem_symbolsOf {d : Uri × Text} {s : Symbol} (h : s ∈ symbolsOf d) :
    s.owner = d.1 := by
  obtain ⟨_, _, rfl⟩ := List.mem_map.mp h
  rfl

/-- Filtering the symbols of some documents by owner is filtering the documents. -/
theorem filter_owner_flatMap_symbolsOf (p : Uri → Bool) (docs : List (Uri × Text)) :
    (docs.flatMap symbolsOf).filter (fun s => p s.owner) =
      (docs.filter fun d => p d.1).flatMap symbolsOf := by
  induction docs with
  | nil => rfl
  | cons d rest ih =>
    rw [List.flatMap_cons, List.filter_append, ih]
    by_cases h : p d.1 = true
    · have hall : (symbolsOf d).filter (fun s => p s.owner) = symbolsOf d :=
        List.filter_eq_self.mpr fun s hs => by rw [owner_of_mem_symbolsOf hs, h]
      rw [hall, List.filter_cons, if_pos h, List.flatMap_cons]
    · have hnone : (symbolsOf d).filter (fun s => p s.owner) = [] :=
        List.filter_eq_nil_iff.mpr fun s hs => by rwa [owner_of_mem_symbolsOf hs]
      rw [hnone, List.filter_cons, if_neg h, List.nil_append]

/-- Both sides of the index say the same about the same documents, in the same order: the one lists
their outlines, the other groups their symbols by name. -/
structure Lockstep (index : Index) (docs : List (Uri × Text)) : Prop where
  uris_nodup : (docs.map (·.1)).Nodup
  documents : index.documents = docs.map fun d => (d.1, Outline.ofText d.2)
  groups : Groups index.names (docs.flatMap symbolsOf)

namespace Lockstep

variable {index : Index} {docs : List (Uri × Text)}

theorem empty : Lockstep .empty [] := ⟨List.nodup_nil, rfl, .nil⟩

theorem known (h : Lockstep index docs) : index.known = docs.map (·.1) := by
  simp [Index.known, h.documents]

/-- The outline of a live document is that of its text. The first entry of a document is its only
one, since no document is listed twice. -/
theorem outline_of_mem (h : Lockstep index docs) {d : Uri × Text} (hd : d ∈ docs) :
    index.outline d.1 = Outline.ofText d.2 := by
  obtain ⟨hnd, hdocs, -⟩ := h
  have hfind : (docs.find? fun e => decide (e.1 = d.1)) = some d := by
    clear hdocs
    induction docs with
    | nil => simp at hd
    | cons e rest ih =>
      obtain ⟨hfresh, hnd⟩ := List.nodup_cons.mp hnd
      rcases List.mem_cons.mp hd with rfl | hmem
      · simp
      · have hne : e.1 ≠ d.1 := fun heq => hfresh (List.mem_map.mpr ⟨d, hmem, heq.symm⟩)
        rw [List.find?_cons_of_neg (by simpa using hne), ih hmem hnd]
  rw [Index.outline, hdocs, List.find?_map]
  change (((docs.find? fun e => decide (e.1 = d.1)).map _).map _).getD _ = _
  rw [hfind]
  rfl

/-- The outline of any other document is empty. -/
theorem outline_of_not_mem (h : Lockstep index docs) {uri : Uri} (huri : uri ∉ docs.map (·.1)) :
    index.outline uri = ⟨[], []⟩ :=
  outline_of_unknown (h.known ▸ huri)

/-- The names that a document declares are those of its symbols, so the loop that forgets the
document visits every group that it has symbols in. -/
theorem names_remove (h : Lockstep index docs) (uri : Uri) :
    (index.remove uri).names = dropOwner uri index.names := by
  refine foldl_dropUnder_eq_dropOwner h.groups.keys_nodup h.groups.ne_nil fun p hp s hs hown => ?_
  obtain ⟨d, hd, hsd⟩ :=
    List.mem_flatMap.mp (h.groups.perm.subset (List.mem_flatMap.mpr ⟨p, hp, hs⟩))
  obtain ⟨declaration, hdeclared, rfl⟩ := List.mem_map.mp hsd
  obtain rfl : d.1 = uri := hown
  rw [List.mem_eraseDups, ← h.groups.name_eq hp hs, declarations, h.outline_of_mem hd]
  exact List.mem_map.mpr ⟨declaration, hdeclared, rfl⟩

theorem remove (h : Lockstep index docs) (uri : Uri) :
    Lockstep (index.remove uri) (docs.filter fun d => decide (d.1 ≠ uri)) where
  uris_nodup := h.uris_nodup.sublist (List.filter_sublist.map _)
  documents := by
    rw [Index.remove, h.documents, List.filter_map]
    rfl
  groups := by
    rw [h.names_remove, ← filter_owner_flatMap_symbolsOf fun owner => decide (owner ≠ uri)]
    exact h.groups.dropOwner uri

/-- A document that is not known yet is put last on both sides. -/
theorem add (h : Lockstep index docs) {uri : Uri} (huri : uri ∉ docs.map (·.1)) (text : Text) :
    Lockstep (index.add uri (Outline.ofText text)) (docs ++ [(uri, text)]) where
  uris_nodup := by
    rw [List.map_append]
    refine List.nodup_append.mpr ⟨h.uris_nodup, List.nodup_singleton _, fun a ha b hb => ?_⟩
    obtain rfl : b = uri := List.mem_singleton.mp hb
    exact fun heq => huri (heq ▸ ha)
  documents := by simp [Index.add, h.documents]
  groups := by
    have hnew := h.groups.foldl_addSymbol (symbolsOf (uri, text))
    simpa [Index.add, List.flatMap_append, symbolsOf] using hnew

theorem update (h : Lockstep index docs) (uri : Uri) (text : Text) :
    Lockstep (index.update uri text) ((docs.filter fun d => decide (d.1 ≠ uri)) ++ [(uri, text)]) :=
  (h.remove uri).add (by simp) text

end Lockstep

/-- **Every history leads to an index in lockstep** with the live documents. -/
theorem lockstep_ofHistory (ops : List Operation) : Lockstep (ofHistory ops) (live ops) := by
  induction ops using List.reverseRecOn with
  | nil => exact .empty
  | append_singleton ops op ih =>
    rw [ofHistory_concat, live_concat]
    cases op with
    | update uri text => simpa [perform, Operation.touches, live, eq_comm] using ih.update uri text
    | remove uri => simpa [perform, Operation.touches, live, eq_comm] using ih.remove uri
    | clear => simpa [perform, Operation.touches, live] using Lockstep.empty

/-! ### What an index answers -/

/-- The symbols of a name in some documents, document by document. -/
def definitionsIn (docs : List (Uri × Text)) (name : Text) : List Symbol :=
  docs.flatMap fun d => (symbolsOf d).filter fun s => decide (s.name = name)

/-- The counts of some documents. -/
def countsOf (docs : List (Uri × Text)) : Stats where
  documents := docs.length
  symbols := (docs.map fun d => (Outline.ofText d.2).declarations.length).sum
  publicSymbols := (docs.map fun d => (Outline.ofText d.2).declarations.countP (·.isPublic)).sum
  imports := (docs.map fun d => (Outline.ofText d.2).imports.length).sum
  uniqueNames :=
    (docs.flatMap fun d => (Outline.ofText d.2).declarations.map (·.name)).dedup.length

namespace Lockstep

variable {index : Index} {docs : List (Uri × Text)}

theorem definitions (h : Lockstep index docs) (name : Text) :
    index.definitions name = definitionsIn docs name := by
  rw [definitions_eq_symbolsUnder, h.groups.under, List.filter_flatMap]
  rfl

theorem mem_keys (h : Lockstep index docs) (name : Text) :
    name ∈ index.names.map (·.1) ↔ definitionsIn docs name ≠ [] := by
  rw [mem_keys_iff h.groups.ne_nil, ← definitions_eq_symbolsUnder, h.definitions]

theorem stats (h : Lockstep index docs) : index.stats = countsOf docs := by
  have hnames : (docs.flatMap symbolsOf).map (·.name) =
      docs.flatMap fun d => (Outline.ofText d.2).declarations.map (·.name) := by
    simp [List.map_flatMap, symbolsOf, Declaration.inDocument, Function.comp_def]
  have hunique : index.names.length = (countsOf docs).uniqueNames := by
    rw [h.groups.length_eq, hnames]
    rfl
  simp only [Index.stats, hunique, h.documents, countsOf, List.length_map, List.flatMap_map,
    List.length_flatMap, List.filter_flatMap, List.countP_eq_length_filter]

end Lockstep

/-- **All that an index answers is a function of the live documents**: which documents are known, in
which order and with which outlines; the symbols of every name, document by document; the names that
have symbols; all symbols, up to the order of the names; and the counts. -/
theorem ofHistory_eq_live (ops : List Operation) :
    (ofHistory ops).known = (live ops).map (·.1) ∧
    (∀ d ∈ live ops,
      (ofHistory ops).declarations d.1 = (Outline.ofText d.2).declarations ∧
      (ofHistory ops).imports d.1 = (Outline.ofText d.2).imports) ∧
    (∀ uri ∉ (live ops).map (·.1),
      (ofHistory ops).declarations uri = [] ∧ (ofHistory ops).imports uri = []) ∧
    (∀ name, (ofHistory ops).definitions name = definitionsIn (live ops) name) ∧
    ((ofHistory ops).names.map (·.1)).Nodup ∧
    (∀ name, name ∈ (ofHistory ops).names.map (·.1) ↔ definitionsIn (live ops) name ≠ []) ∧
    (ofHistory ops).symbols.Perm ((live ops).flatMap symbolsOf) ∧
    (ofHistory ops).stats = countsOf (live ops) := by
  have h := lockstep_ofHistory ops
  refine ⟨h.known, fun d hd => ?_, fun uri huri => ?_, h.definitions, h.groups.keys_nodup,
    h.mem_keys, h.groups.perm, h.stats⟩
  · simp [Index.declarations, Index.imports, h.outline_of_mem hd]
  · simp [Index.declarations, Index.imports, h.outline_of_not_mem huri]

/-- Two documents share a name, and the first of them is indexed again: it comes last, also among
the symbols of the name. -/
theorem ofHistory_eq_live_shared_name :
    let a := "a.jk".toList
    let b := "b.jk".toList
    let ops : List Operation := [.update a "let x = 1;".toList, .update b "let x = 2;".toList,
      .update a "pub let x = 3;".toList, .remove "c.jk".toList]
    (a, "pub let x = 3;".toList) ∈ live ops ∧ "c.jk".toList ∉ (live ops).map (·.1) ∧
    (ofHistory ops).known = [b, a] ∧
    (ofHistory ops).declarations a = [⟨['x'], .var, .onLine 0 8 9, true⟩] ∧
    (ofHistory ops).imports "c.jk".toList = [] ∧
    (ofHistory ops).definitions ['x'] =
      [⟨⟨['x'], .var, .onLine 0 4 5, false⟩, b⟩, ⟨⟨['x'], .var, .onLine 0 8 9, true⟩, a⟩] ∧
    (ofHistory ops).stats = ⟨2, 2, 1, 0, 1⟩ := by
  intro a b ops
  have hmem : (a, "pub let x = 3;".toList) ∈ live ops := by decide
  have hout : "c.jk".toList ∉ (live ops).map (·.1) := by decide
  obtain ⟨hknown, hlive, hother, hdefs, -, -, -, hstats⟩ := ofHistory_eq_live ops
  exact ⟨hmem, hout, hknown.trans (by decide), (hlive _ hmem).1.trans (by decide +kernel),
    (hother _ hout).2, (hdefs _).trans (by decide +kernel), hstats.trans (by decide +kernel)⟩

/-! ### The last change of a document decides -/

/-- Removing a document right after indexing it is removing it. -/
theorem Lockstep.remove_update {index : Index} {docs : List (Uri × Text)} (h : Lockstep index docs)
    (uri : Uri) (text : Text) : (index.update uri text).remove uri = index.remove uri := by
  have hown : ∀ s ∈ (Outline.ofText text).declarations.map (·.inDocument uri), s.owner = uri :=
    fun s hs => owner_of_mem_symbolsOf (d := (uri, text)) hs
  have hnames : ((index.update uri text).remove uri).names = (index.remove uri).names := by
    rw [(h.update uri text).names_remove, Index.update, Index.add, dropOwner_foldl_addSymbol hown,
      h.names_remove, dropOwner_dropOwner]
  have hdocuments :
      ((index.update uri text).remove uri).documents = (index.remove uri).documents := by
    simp [Index.update, Index.add, Index.remove]
  calc (index.update uri text).remove uri
      = ⟨((index.update uri text).remove uri).documents,
          ((index.update uri text).remove uri).names⟩ := rfl
    _ = index.remove uri := by rw [hdocuments, hnames]

/-- Indexing a document twice is indexing it with the last text. -/
theorem Lockstep.update_update {index : Index} {docs : List (Uri × Text)} (h : Lockstep index docs)
    (uri : Uri) (text text' : Text) :
    (index.update uri text).update uri text' = index.update uri text' := by
  rw [Index.update, h.remove_update]
  rfl

/-- A document that is not live can be removed without any change. -/
theorem Lockstep.remove_eq_self {index : Index} {docs : List (Uri × Text)}
    (h : Lockstep index docs) {uri : Uri} (huri : uri ∉ index.known) :
    index.remove uri = index := by
  have hnames : (index.remove uri).names = index.names := by
    rw [h.names_remove]
    refine h.groups.dropOwner_eq fun s hs => ?_
    obtain ⟨d, hd, hsd⟩ := List.mem_flatMap.mp hs
    rw [owner_of_mem_symbolsOf hsd]
    rintro rfl
    exact huri (h.known ▸ List.mem_map_of_mem hd)
  calc index.remove uri
      = ⟨(index.remove uri).documents, (index.remove uri).names⟩ := rfl
    _ = index := by rw [documents_remove_of_unknown huri, hnames]

/-- **The last write wins**: in every index that a history leads to, indexing or removing a document
takes back the change of that document right before it, in content and in order. So indexing twice
is indexing once, and removing undoes the indexing of a document that was not known. -/
theorem last_write_wins (ops : List Operation) (uri : Uri) (text text' : Text) :
    ((ofHistory ops).update uri text).update uri text' = (ofHistory ops).update uri text' ∧
    ((ofHistory ops).update uri text).remove uri = (ofHistory ops).remove uri ∧
    ((ofHistory ops).update uri text).update uri text = (ofHistory ops).update uri text ∧
    (uri ∉ (ofHistory ops).known →
      ((ofHistory ops).update uri text).remove uri = ofHistory ops) := by
  have h := lockstep_ofHistory ops
  refine ⟨h.update_update uri text text', h.remove_update uri text, h.update_update uri text text,
    fun huri => ?_⟩
  rw [h.remove_update, h.remove_eq_self huri]

/-- Removing takes back the indexing of a document that shares a name with a known one. -/
theorem last_write_wins_new_document :
    let ops : List Operation := [.update "a.jk".toList "let x = 1;".toList]
    "b.jk".toList ∉ (ofHistory ops).known ∧
    ((ofHistory ops).update "b.jk".toList "let x = 2;".toList).remove "b.jk".toList =
      ofHistory ops := by
  intro ops
  have hout : "b.jk".toList ∉ (ofHistory ops).known := by decide
  exact ⟨hout, (last_write_wins ops "b.jk".toList "let x = 2;".toList []).2.2.2 hout⟩

end Index

end JinkAnalysis
