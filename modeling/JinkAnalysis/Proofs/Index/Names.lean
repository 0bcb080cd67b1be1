import JinkAnalysis.Index
import Mathlib.Data.List.Dedup

/-!
# Grouping symbols by name

The by-name side of an index is a list of groups, one for each name, and it is changed in two ways
only: `Index.addSymbol` puts one symbol into the group of its name, and a loop of `Index.dropUnder`
takes the symbols of one document out of the groups of the names that it visits. If it visits enough
of them, that is `Index.dropOwner`, which filters every group by owner.

`Index.Groups names all` says what the groups are at any time: **the symbols of `all`, in the order
of `all`, each under its name**, with one group for every name that has a symbol and no group for
any other name. The order of the groups is left open; it depends on when each name came to have
symbols.

* **Steps**: adding a symbol appends it to `all` (`Groups.addSymbol`), and dropping a document
  filters `all` by owner (`Groups.dropOwner`).
* **Reading**: the group of a name, the set of names, and their number are functions of `all`.
* **The loop**: its visits can be made in any order (`foldl_dropUnder_eq_dropOwner`).
* **Undoing**: dropping a document forgets whatever was added for it, and leaves groups without
  symbols of that document as they are, in place and content.
-/

namespace JinkAnalysis

namespace Index

/-- The symbols that a list of groups has under a name. -/
def symbolsUnder (names : List (Text × List Symbol)) (name : Text) : List Symbol :=
  ((names.find? fun n => decide (n.1 = name)).map (·.2)).getD []

theorem definitions_eq_symbolsUnder (index : Index) (name : Text) :
    index.definitions name = symbolsUnder index.names name := rfl

@[simp]
theorem symbolsUnder_nil (name : Text) : symbolsUnder [] name = [] := rfl

@[simp]
theorem symbolsUnder_cons (n : Text) (ss : List Symbol) (rest : List (Text × List Symbol))
    (name : Text) :
    symbolsUnder ((n, ss) :: rest) name = if n = name then ss else symbolsUnder rest name := by
  by_cases h : n = name <;> simp [symbolsUnder, h]

/-- A name without a group has no symbols. -/
theorem symbolsUnder_of_not_mem {names : List (Text × List Symbol)} {name : Text}
    (h : name ∉ names.map (·.1)) : symbolsUnder names name = [] := by
  induction names with
  | nil => rfl
  | cons p rest ih =>
    obtain ⟨n, ss⟩ := p
    simp only [List.map_cons, List.mem_cons, not_or] at h
    rw [symbolsUnder_cons, if_neg (Ne.symm h.1), ih h.2]

/-- A group holds what the list has under its name. -/
theorem symbolsUnder_of_mem {names : List (Text × List Symbol)} (hnd : (names.map (·.1)).Nodup)
    {p : Text × List Symbol} (hp : p ∈ names) : symbolsUnder names p.1 = p.2 := by
  induction names with
  | nil => cases hp
  | cons q rest ih =>
    obtain ⟨hfresh, hnd⟩ := List.nodup_cons.mp hnd
    rw [symbolsUnder_cons]
    rcases List.mem_cons.mp hp with rfl | hp
    · rw [if_pos rfl]
    · have hne : q.1 ≠ p.1 := fun heq => hfresh (List.mem_map.mpr ⟨p, hp, heq.symm⟩)
      rw [if_neg hne, ih hnd hp]

/-- Where no group is empty, the names with a group are the names with symbols. -/
theorem mem_keys_iff {names : List (Text × List Symbol)} (hne : ∀ p ∈ names, p.2 ≠ [])
    (name : Text) : name ∈ names.map (·.1) ↔ symbolsUnder names name ≠ [] := by
  induction names with
  | nil => simp
  | cons p rest ih =>
    obtain ⟨n, ss⟩ := p
    have hss : ss ≠ [] := hne (n, ss) List.mem_cons_self
    have hrest := ih fun q hq => hne q (List.mem_cons_of_mem _ hq)
    by_cases h : n = name
    · simp [h, hss]
    · simp only [List.map_cons, List.mem_cons, Ne.symm h, false_or, symbolsUnder_cons, h, if_false]
      exact hrest

/-! ### Adding a symbol -/

/-- A symbol comes last in the group of its name; all other groups stay. -/
theorem symbolsUnder_addSymbol (names : List (Text × List Symbol)) (s : Symbol) (name : Text) :
    symbolsUnder (addSymbol names s) name =
      symbolsUnder names name ++ if s.name = name then [s] else [] := by
  fun_induction addSymbol names s with
  | case1 => by_cases h : s.name = name <;> simp [h]
  | case2 symbols rest => by_cases h : s.name = name <;> simp [h]
  | case3 n symbols rest hn ih =>
    rw [symbolsUnder_cons, symbolsUnder_cons, ih]
    by_cases h : n = name
    · have hs : s.name ≠ name := fun hs => hn (h.trans hs.symm)
      simp [h, hs]
    · simp [h]

/-- A new name comes last; a name that has a group keeps its place. -/
theorem keys_addSymbol (names : List (Text × List Symbol)) (s : Symbol) :
    (addSymbol names s).map (·.1) =
      if s.name ∈ names.map (·.1) then names.map (·.1) else names.map (·.1) ++ [s.name] := by
  fun_induction addSymbol names s with
  | case1 => simp
  | case2 symbols rest => simp
  | case3 n symbols rest hn ih =>
    rw [List.map_cons, ih, List.map_cons]
    by_cases h : s.name ∈ rest.map (·.1)
    · rw [if_pos h, if_pos (List.mem_cons_of_mem _ h)]
    · have h' : s.name ∉ n :: rest.map (·.1) := by
        simp only [List.mem_cons, not_or]
        exact ⟨Ne.symm hn, h⟩
      rw [if_neg h, if_neg h', List.cons_append]

theorem ne_nil_of_mem_addSymbol {names : List (Text × List Symbol)} {s : Symbol}
    (hne : ∀ p ∈ names, p.2 ≠ []) : ∀ p ∈ addSymbol names s, p.2 ≠ [] := by
  fun_induction addSymbol names s with
  | case1 => simp
  | case2 symbols rest =>
    intro p hp
    rcases List.mem_cons.mp hp with rfl | hp
    · simp
    · exact hne p (List.mem_cons_of_mem _ hp)
  | case3 n symbols rest hn ih =>
    intro p hp
    rcases List.mem_cons.mp hp with rfl | hp
    · exact hne _ List.mem_cons_self
    · exact ih (fun q hq => hne q (List.mem_cons_of_mem _ hq)) p hp

theorem flatMap_addSymbol_perm (names : List (Text × List Symbol)) (s : Symbol) :
    ((addSymbol names s).flatMap (·.2)).Perm (names.flatMap (·.2) ++ [s]) := by
  fun_induction addSymbol names s with
  | case1 => simp
  | case2 symbols rest =>
    simp only [List.flatMap_cons, List.append_assoc]
    exact (List.perm_append_comm).append_left symbols
  | case3 n symbols rest hn ih =>
    simp only [List.flatMap_cons, List.append_assoc]
    exact ih.append_left symbols

/-! ### Dropping the symbols of a document -/

/-- A group without the symbols of a document, if any others are in it. -/
def withoutOwner (uri : Uri) (group : Text × List Symbol) : Option (Text × List Symbol) :=
  match group.2.filter fun s => decide (s.owner ≠ uri) with
  | [] => none
  | others => some (group.1, others)

/-- Takes the symbols of a document out of all groups, and with them the names that have no other
symbol. -/
def dropOwner (uri : Uri) (names : List (Text × List Symbol)) : List (Text × List Symbol) :=
  names.filterMap (withoutOwner uri)

theorem withoutOwner_eq (uri : Uri) (n : Text) (ss : List Symbol) :
    withoutOwner uri (n, ss) =
      if ss.filter (fun s => decide (s.owner ≠ uri)) = [] then none
      else some (n, ss.filter fun s => decide (s.owner ≠ uri)) := by
  unfold withoutOwner
  dsimp only
  generalize ss.filter (fun s => decide (s.owner ≠ uri)) = others
  cases others <;> simp

theorem dropOwner_cons (uri : Uri) (n : Text) (ss : List Symbol)
    (rest : List (Text × List Symbol)) :
    dropOwner uri ((n, ss) :: rest) =
      if ss.filter (fun s => decide (s.owner ≠ uri)) = [] then dropOwner uri rest
      else (n, ss.filter fun s => decide (s.owner ≠ uri)) :: dropOwner uri rest := by
  unfold dropOwner
  rw [List.filterMap_cons, withoutOwner_eq]
  by_cases h : ss.filter (fun s => decide (s.owner ≠ uri)) = []
  · rw [if_pos h, if_pos h]
  · rw [if_neg h, if_neg h]

/-- The symbols of all groups are filtered by owner, in place. -/
theorem flatMap_dropOwner (uri : Uri) (names : List (Text × List Symbol)) :
    (dropOwner uri names).flatMap (·.2) =
      (names.flatMap (·.2)).filter fun s => decide (s.owner ≠ uri) := by
  induction names with
  | nil => rfl
  | cons p rest ih =>
    obtain ⟨n, ss⟩ := p
    rw [dropOwner_cons, List.flatMap_cons, List.filter_append]
    split
    · next h => rw [ih, h, List.nil_append]
    · rw [List.flatMap_cons, ih]

theorem keys_dropOwner_sublist (uri : Uri) (names : List (Text × List Symbol)) :
    ((dropOwner uri names).map (·.1)).Sublist (names.map (·.1)) := by
  induction names with
  | nil => exact .slnil
  | cons p rest ih =>
    obtain ⟨n, ss⟩ := p
    rw [dropOwner_cons]
    split
    · exact ih.cons n
    · exact ih.cons_cons n

theorem ne_nil_of_mem_dropOwner (uri : Uri) (names : List (Text × List Symbol)) :
    ∀ p ∈ dropOwner uri names, p.2 ≠ [] := by
  induction names with
  | nil => simp [dropOwner]
  | cons p rest ih =>
    obtain ⟨n, ss⟩ := p
    rw [dropOwner_cons]
    split
    · exact ih
    · next h =>
      intro q hq
      rcases List.mem_cons.mp hq with rfl | hq
      · exact h
      · exact ih q hq

/-- Every group is filtered by owner. If a name had two groups, dropping the first would uncover the
second; so the names must be distinct. -/
theorem symbolsUnder_dropOwner {names : List (Text × List Symbol)} (hnd : (names.map (·.1)).Nodup)
    (uri : Uri) (name : Text) :
    symbolsUnder (dropOwner uri names) name =
      (symbolsUnder names name).filter fun s => decide (s.owner ≠ uri) := by
  induction names with
  | nil => rfl
  | cons p rest ih =>
    obtain ⟨n, ss⟩ := p
    obtain ⟨hn, hnd⟩ := List.nodup_cons.mp hnd
    have ih := ih hnd
    rw [dropOwner_cons, symbolsUnder_cons]
    by_cases h : n = name
    · subst h
      rw [if_pos rfl]
      split
      · next hnil =>
        have hrest : symbolsUnder rest n = [] := symbolsUnder_of_not_mem hn
        rw [ih, hrest, hnil, List.filter_nil]
      · rw [symbolsUnder_cons, if_pos rfl]
    · rw [if_neg h]
      split
      · exact ih
      · rw [symbolsUnder_cons, if_neg h, ih]

/-- What was added for a document is forgotten when the document is dropped. -/
theorem dropOwner_addSymbol {uri : Uri} {s : Symbol} (hs : s.owner = uri)
    (names : List (Text × List Symbol)) :
    dropOwner uri (addSymbol names s) = dropOwner uri names := by
  fun_induction addSymbol names s with
  | case1 => simp [dropOwner, withoutOwner_eq, hs]
  | case2 symbols rest => simp [dropOwner_cons, hs]
  | case3 n symbols rest hn ih => rw [dropOwner_cons, dropOwner_cons, ih]

theorem dropOwner_foldl_addSymbol {uri : Uri} {ss : List Symbol} (hss : ∀ s ∈ ss, s.owner = uri)
    (names : List (Text × List Symbol)) :
    dropOwner uri (ss.foldl addSymbol names) = dropOwner uri names := by
  induction ss generalizing names with
  | nil => rfl
  | cons s rest ih =>
    rw [List.foldl_cons, ih fun q hq => hss q (List.mem_cons_of_mem _ hq),
      dropOwner_addSymbol (hss s List.mem_cons_self)]

/-- Groups without symbols of a document stay as they are when it is dropped. -/
theorem dropOwner_eq_self {uri : Uri} {names : List (Text × List Symbol)}
    (hne : ∀ p ∈ names, p.2 ≠ []) (hown : ∀ p ∈ names, ∀ s ∈ p.2, s.owner ≠ uri) :
    dropOwner uri names = names := by
  induction names with
  | nil => rfl
  | cons p rest ih =>
    obtain ⟨n, ss⟩ := p
    have hkeep : ss.filter (fun s => decide (s.owner ≠ uri)) = ss :=
      List.filter_eq_self.mpr fun s hs => decide_eq_true (hown (n, ss) List.mem_cons_self s hs)
    have hrest := ih (fun q hq => hne q (List.mem_cons_of_mem _ hq))
      fun q hq => hown q (List.mem_cons_of_mem _ hq)
    rw [dropOwner_cons, hkeep, if_neg (hne (n, ss) List.mem_cons_self), hrest]

theorem dropOwner_dropOwner (uri : Uri) (names : List (Text × List Symbol)) :
    dropOwner uri (dropOwner uri names) = dropOwner uri names := by
  refine dropOwner_eq_self (ne_nil_of_mem_dropOwner uri names) fun p hp s hs => ?_
  have hmem : s ∈ (dropOwner uri names).flatMap (·.2) := List.mem_flatMap.mpr ⟨p, hp, hs⟩
  rw [flatMap_dropOwner] at hmem
  exact of_decide_eq_true (List.mem_filter.mp hmem).2

/-! ### The loop that drops a document

The loop visits the groups of some names, one after another. Which names, and in which order, does
not matter, as long as every group with a symbol of the document is visited. -/

theorem keys_dropUnder_sublist (uri : Uri) (names : List (Text × List Symbol)) (name : Text) :
    ((dropUnder uri names name).map (·.1)).Sublist (names.map (·.1)) := by
  fun_induction dropUnder uri names name with
  | case1 => exact .slnil
  | case2 symbols rest hnone => exact .cons name (.refl _)
  | case3 symbols rest hsome => exact .refl _
  | case4 n symbols rest hn ih => exact ih.cons_cons n

/-- The visit of a name changes its group in place and no other. A second group of the name would
be passed over; so the names must be distinct. -/
theorem dropUnder_eq {names : List (Text × List Symbol)} (hnd : (names.map (·.1)).Nodup)
    (uri : Uri) (name : Text) :
    dropUnder uri names name =
      names.filterMap fun p => if p.1 = name then withoutOwner uri p else some p := by
  induction names with
  | nil => rfl
  | cons p rest ih =>
    obtain ⟨n, ss⟩ := p
    obtain ⟨hn, hnd⟩ := List.nodup_cons.mp hnd
    rw [dropUnder, List.filterMap_cons]
    by_cases h : n = name
    · subst h
      have hrest : (rest.filterMap fun p => if p.1 = n then withoutOwner uri p else some p) =
          rest := by
        refine (List.filterMap_congr fun p hp => ?_).trans List.filterMap_some
        rw [if_neg fun heq => hn (List.mem_map.mpr ⟨p, hp, heq⟩)]
      rw [if_pos rfl, if_pos rfl, hrest, withoutOwner]
      dsimp only
      generalize ss.filter (fun s => decide (s.owner ≠ uri)) = others
      cases others <;> rfl
    · rw [if_neg h, if_neg h, ih hnd]

/-- A group keeps its name, and has no symbol of the document any more. -/
theorem withoutOwner_withoutOwner {uri : Uri} {p q : Text × List Symbol}
    (h : withoutOwner uri p = some q) : q.1 = p.1 ∧ withoutOwner uri q = some q := by
  obtain ⟨n, ss⟩ := p
  rw [withoutOwner_eq] at h
  split at h
  · cases h
  · next hne =>
    obtain rfl := Option.some.inj h
    refine ⟨rfl, ?_⟩
    rw [withoutOwner_eq, List.filter_filter]
    simp only [Bool.and_self, if_neg hne]

/-- The loop changes the groups of the names that it visits, whatever the order. -/
theorem foldl_dropUnder {names : List (Text × List Symbol)} (hnd : (names.map (·.1)).Nodup)
    (uri : Uri) (visited : List Text) :
    visited.foldl (dropUnder uri) names =
      names.filterMap fun p => if p.1 ∈ visited then withoutOwner uri p else some p := by
  induction visited generalizing names with
  | nil => simp
  | cons name later ih =>
    rw [List.foldl_cons, ih (hnd.sublist (keys_dropUnder_sublist uri names name)),
      dropUnder_eq hnd, List.filterMap_filterMap]
    refine List.filterMap_congr fun p _ => ?_
    by_cases hname : p.1 = name
    · rw [if_pos hname, if_pos (List.mem_cons.mpr (.inl hname))]
      cases hp : withoutOwner uri p with
      | none => rfl
      | some q =>
        -- a name that is visited again has nothing left to lose
        obtain ⟨-, hq⟩ := withoutOwner_withoutOwner hp
        simp [hq]
    · simp [hname]

/-- **The loop drops the document from all groups** if it visits every group with a symbol of the
document. -/
theorem foldl_dropUnder_eq_dropOwner {names : List (Text × List Symbol)}
    (hnd : (names.map (·.1)).Nodup) (hne : ∀ p ∈ names, p.2 ≠ []) {uri : Uri} {visited : List Text}
    (hvisited : ∀ p ∈ names, ∀ s ∈ p.2, s.owner = uri → p.1 ∈ visited) :
    visited.foldl (dropUnder uri) names = dropOwner uri names := by
  rw [foldl_dropUnder hnd]
  refine List.filterMap_congr fun p hp => ?_
  split
  · rfl
  · next hout =>
    have hkeep : p.2.filter (fun s => decide (s.owner ≠ uri)) = p.2 :=
      List.filter_eq_self.mpr fun s hs => decide_eq_true fun heq => hout (hvisited p hp s hs heq)
    rw [withoutOwner_eq uri p.1 p.2, hkeep, if_neg (hne p hp)]

/-! ### Groups of a list of symbols -/

/-- The groups hold the symbols of `all`, in the order of `all`, each under its name, and nothing
else: no name stands twice and no group is empty. -/
structure Groups (names : List (Text × List Symbol)) (all : List Symbol) : Prop where
  keys_nodup : (names.map (·.1)).Nodup
  ne_nil : ∀ p ∈ names, p.2 ≠ []
  under : ∀ name, symbolsUnder names name = all.filter fun s => decide (s.name = name)
  perm : (names.flatMap (·.2)).Perm all

namespace Groups

variable {names : List (Text × List Symbol)} {all : List Symbol}

theorem nil : Groups [] [] := ⟨List.nodup_nil, by simp, fun _ => rfl, .nil⟩

/-- Adding a symbol is appending it to the grouped list. -/
theorem addSymbol (h : Groups names all) (s : Symbol) :
    Groups (addSymbol names s) (all ++ [s]) where
  keys_nodup := by
    rw [keys_addSymbol]
    split
    · exact h.keys_nodup
    · next hs =>
      refine List.nodup_append.mpr ⟨h.keys_nodup, List.nodup_singleton _, fun a ha b hb => ?_⟩
      rintro rfl
      exact hs (List.mem_singleton.mp hb ▸ ha)
  ne_nil := ne_nil_of_mem_addSymbol h.ne_nil
  under name := by
    rw [symbolsUnder_addSymbol, h.under, List.filter_append]
    by_cases hs : s.name = name <;> simp [hs]
  perm := (flatMap_addSymbol_perm names s).trans (h.perm.append_right [s])

theorem foldl_addSymbol (h : Groups names all) (ss : List Symbol) :
    Groups (ss.foldl Index.addSymbol names) (all ++ ss) := by
  induction ss generalizing names all with
  | nil => simpa using h
  | cons s rest ih => simpa using ih (h.addSymbol s)

/-- Dropping a document is filtering the grouped list by owner. -/
theorem dropOwner (h : Groups names all) (uri : Uri) :
    Groups (dropOwner uri names) (all.filter fun s => decide (s.owner ≠ uri)) where
  keys_nodup := h.keys_nodup.sublist (keys_dropOwner_sublist uri names)
  ne_nil := ne_nil_of_mem_dropOwner uri names
  under name := by
    rw [symbolsUnder_dropOwner h.keys_nodup, h.under, List.filter_filter, List.filter_filter]
    simp only [Bool.and_comm]
  perm := by
    rw [flatMap_dropOwner]
    exact h.perm.filter _

/-- A list without symbols of a document has groups that dropping the document does not change. -/
theorem dropOwner_eq (h : Groups names all) {uri : Uri} (hown : ∀ s ∈ all, s.owner ≠ uri) :
    Index.dropOwner uri names = names := by
  refine dropOwner_eq_self h.ne_nil fun p hp s hs => hown s ?_
  exact h.perm.subset (List.mem_flatMap.mpr ⟨p, hp, hs⟩)

/-- The names with a group are the names of the grouped symbols. -/
theorem mem_keys (h : Groups names all) (name : Text) :
    name ∈ names.map (·.1) ↔ name ∈ all.map (·.name) := by
  rw [mem_keys_iff h.ne_nil, h.under, Ne, List.filter_eq_nil_iff]
  simp

/-- Every symbol stands in the group of its name. -/
theorem name_eq (h : Groups names all) {p : Text × List Symbol} (hp : p ∈ names) {s : Symbol}
    (hs : s ∈ p.2) : s.name = p.1 := by
  rw [← symbolsUnder_of_mem h.keys_nodup hp, h.under] at hs
  exact of_decide_eq_true (List.mem_filter.mp hs).2

/-- The symbols of a name stand together, in one group. -/
theorem filter_flatMap (h : Groups names all) (name : Text) :
    (names.flatMap (·.2)).filter (fun s => decide (s.name = name)) = symbolsUnder names name := by
  have hnd := h.keys_nodup
  have hname : ∀ p ∈ names, ∀ s ∈ p.2, s.name = p.1 := fun p hp s hs => h.name_eq hp hs
  clear h
  induction names with
  | nil => rfl
  | cons p rest ih =>
    obtain ⟨hfresh, hnd⟩ := List.nodup_cons.mp hnd
    have ih := ih hnd fun q hq => hname q (List.mem_cons_of_mem p hq)
    have hp : ∀ s ∈ p.2, s.name = p.1 := hname p List.mem_cons_self
    rw [List.flatMap_cons, List.filter_append, ih, symbolsUnder_cons]
    split
    · next heq =>
      subst heq
      have hall : p.2.filter (fun s => decide (s.name = p.1)) = p.2 :=
        List.filter_eq_self.mpr fun s hs => decide_eq_true (hp s hs)
      rw [hall, symbolsUnder_of_not_mem hfresh, List.append_nil]
    · next hne =>
      have hnone : p.2.filter (fun s => decide (s.name = name)) = [] :=
        List.filter_eq_nil_iff.mpr fun s hs heq =>
          hne ((hp s hs).symm.trans (of_decide_eq_true heq))
      rw [hnone, List.nil_append]

/-- There are as many groups as there are different names. -/
theorem length_eq (h : Groups names all) : names.length = (all.map (·.name)).dedup.length := by
  have hperm : (names.map (·.1)).Perm (all.map (·.name)).dedup :=
    (List.perm_ext_iff_of_nodup h.keys_nodup (List.nodup_dedup _)).mpr fun name => by
      rw [h.mem_keys, List.mem_dedup]
  rw [← hperm.length_eq, List.length_map]

end Groups

end Index

end JinkAnalysis
