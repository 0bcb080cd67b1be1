import JinkAnalysis.Proofs.ModulePath

/-!
# Documents below a source root

The name of a document lists folders, each with a slash or a backslash behind it, and then a file.
For names in which nothing is escaped (no percent sign), **the module path of a document below a
source root and the document itself lead to each other** (`modulePath?_documentName_resolves`):

* the segments behind the first folder that is a source root are the segments of the module path,
  whichever separators are used, and even if they are names of source roots themselves
  (`segmentsBelow_documentName`);
* joined with slashes they are how the name of a document ends that the path refers to
  (`moduleSuffix_intercalate`), so the path names the document (`isNamedBy_documentName`), and
  where the document is known it refers to the first document that ends like this.
-/

namespace JinkAnalysis

/-- A folder in the name of a document. -/
structure Step where
  /-- The name of the folder. -/
  name : Text
  /-- Whether a backslash stands behind it, and not a slash. -/
  backslash : Bool
deriving Repr, DecidableEq

/-- The folder with the separator behind it. -/
def Step.text (s : Step) : Text := s.name ++ [if s.backslash then '\\' else '/']

/-- The name of a document in the last of some folders. -/
def documentName (folders : List Step) (file : Text) : Uri := folders.flatMap Step.text ++ file

/-! ### Segments -/

/-- Whichever separators are used, the segments are the same. -/
theorem slashed_documentName {folders : List Step} {file : Text}
    (h : ∀ name ∈ folders.map (·.name) ++ [file], '\\' ∉ name) :
    slashed (documentName folders file) =
      ['/'].intercalate (folders.map (·.name) ++ [file]) := by
  have happend : ∀ u v : Text, slashed (u ++ v) = slashed u ++ slashed v :=
    fun u v => List.map_append
  induction folders with
  | nil => exact (Text.replace_of_not_mem (h file (by simp))).trans (by simp)
  | cons s folders ih =>
    obtain ⟨hs, hrest⟩ := List.forall_mem_cons.mp h
    have hname : slashed s.name = s.name := Text.replace_of_not_mem hs
    have hseparator : slashed [if s.backslash then '\\' else '/'] = ['/'] := by
      cases s.backslash <;> rfl
    have hne : folders.map (·.name) ++ [file] ≠ [] := List.concat_ne_nil _ _
    calc slashed (documentName (s :: folders) file)
        = slashed s.text ++ slashed (documentName folders file) := by
          rw [documentName, List.flatMap_cons, List.append_assoc, happend]
          rfl
      _ = s.name ++ '/' :: ['/'].intercalate (folders.map (·.name) ++ [file]) := by
          rw [Step.text, happend, hname, hseparator, ih hrest, List.append_assoc]
          rfl
      _ = ['/'].intercalate ([s.name] ++ (folders.map (·.name) ++ [file])) := by
          rw [Text.intercalate_append '/' (List.cons_ne_nil _ _) hne]
          simp

/-- Joined segments are split into the same segments. -/
theorem split_unescaped_intercalate {segments : List Text} (hne : segments ≠ [])
    (h : ∀ name ∈ segments, '/' ∉ name ∧ '%' ∉ name) :
    Text.split (Text.unescaped (['/'].intercalate segments)) '/' = segments := by
  have hdecoded : segments.map Text.unescaped = segments :=
    (List.map_congr_left fun name hname => Text.unescaped_of_not_mem (h name hname).2).trans
      (List.map_id' segments)
  calc Text.split (Text.unescaped (['/'].intercalate segments)) '/'
      = segments.flatMap (Text.split · '/') := by
        rw [Text.unescaped_intercalate_slash, hdecoded, Text.split_intercalate hne]
    _ = segments.flatMap ([·]) :=
        List.flatMap_congr fun name hname => Text.split_of_not_mem (h name hname).1
    _ = segments := List.flatMap_singleton' segments

/-- **The segments below the source root** are those behind the first folder that is one. -/
theorem segmentsBelow_documentName {roots : List Text} {above below : List Step} {root : Step}
    {file : Text} (hroot : root.name ∈ roots) (habove : ∀ s ∈ above, s.name ∉ roots)
    (hplain : ∀ name ∈ (above ++ root :: below).map (·.name) ++ [file],
      '/' ∉ name ∧ '\\' ∉ name ∧ '%' ∉ name) :
    segmentsBelow roots (documentName (above ++ root :: below) file) =
      below.map (·.name) ++ [file] := by
  have hskip : ∀ name ∈ above.map (·.name), decide (name ∉ roots) = true := by
    intro name hname
    obtain ⟨s, hs, rfl⟩ := List.mem_map.mp hname
    exact decide_eq_true (habove s hs)
  have hstop : ∀ rest : List Text,
      (root.name :: rest).dropWhile (fun name => decide (name ∉ roots)) = root.name :: rest :=
    fun rest => List.dropWhile_cons_of_neg (by simpa using hroot)
  unfold segmentsBelow
  rw [slashed_documentName fun name hname => (hplain name hname).2.1,
    split_unescaped_intercalate (List.concat_ne_nil _ _) fun name hname =>
      ⟨(hplain name hname).1, (hplain name hname).2.2⟩,
    List.map_append, List.append_assoc, List.dropWhile_append_of_pos hskip, List.map_cons,
    List.cons_append, hstop, List.drop_one, List.tail_cons]

/-! ### From the segments to the module path and back -/

/-- The module path of segments, none of which is empty. -/
theorem modulePath?_of_segmentsBelow {roots : List Text} {document : Uri} {folders : List Text}
    {stem : Text} (h : segmentsBelow roots document = folders ++ [stem ++ sourceExtension])
    (hne : ∀ name ∈ folders ++ [stem], name ≠ []) :
    modulePath? roots document = some (['.'].intercalate (folders ++ [stem])) := by
  have hstem : (stem ++ sourceExtension).take
      ((stem ++ sourceExtension).length - sourceExtension.length) = stem := by
    rw [List.length_append, Nat.add_sub_cancel, List.take_left]
  have hall : (folders ++ [stem]).all (!·.isEmpty) = true :=
    List.all_eq_true.mpr fun name hname => by simpa using hne name hname
  have hext : sourceExtension.isSuffixOf (stem ++ sourceExtension) = true :=
    List.isSuffixOf_iff_suffix.mpr (List.suffix_append _ _)
  unfold modulePath?
  rw [h]
  dsimp only
  rw [List.getLast?_concat, List.dropLast_concat]
  dsimp only
  rw [if_pos hext, hstem, if_pos hall]

/-- **How a document ends that a module path names**: with the segments of the path, joined by
slashes, and the extension. -/
theorem moduleSuffix_intercalate {segments : List Text} (h : ∀ name ∈ segments, '.' ∉ name) :
    moduleSuffix (['.'].intercalate segments) = ['/'].intercalate segments ++ sourceExtension := by
  rw [moduleSuffix, Text.replace_intercalate h]

/-- The last segments of the name of a document make a path that names it. -/
theorem isNamedBy_documentName {folders : List Step} {stem : Text} {segments : List Text}
    (hlast : segments <:+ folders.map (·.name) ++ [stem])
    (hplain : ∀ name ∈ folders.map (·.name) ++ [stem ++ sourceExtension], '\\' ∉ name)
    (hdots : ∀ name ∈ segments, '.' ∉ name) :
    isNamedBy (documentName folders (stem ++ sourceExtension)) (['.'].intercalate segments) =
      true := by
  have hname : slashed (documentName folders (stem ++ sourceExtension)) =
      ['/'].intercalate (folders.map (·.name) ++ [stem]) ++ sourceExtension := by
    rw [Text.intercalate_concat_append]
    exact slashed_documentName hplain
  obtain ⟨front, hfront⟩ := Text.intercalate_suffix hlast '/'
  rw [isNamedBy, moduleSuffix_intercalate hdots, List.isSuffixOf_iff_suffix, hname, ← hfront,
    List.append_assoc]
  exact List.suffix_append _ _

/-- A module path refers to the first document that it names. -/
theorem resolveModule?_eq_some_iff {path : Text} {documents : List Uri} {found : Uri} :
    resolveModule? path documents = some found ↔ moduleSuffix path <:+ slashed found ∧
      ∃ before after, documents = before ++ found :: after ∧
        ∀ earlier ∈ before, ¬ moduleSuffix path <:+ slashed earlier := by
  rw [resolveModule?, List.find?_eq_some_iff_append, isNamedBy, List.isSuffixOf_iff_suffix]
  simp only [isNamedBy, Bool.not_eq_true', ← Bool.not_eq_true, List.isSuffixOf_iff_suffix]

/-- **A document below a source root and its module path lead to each other.** If its name has
nothing escaped, and the segments below the root are not empty and have no dots, then its module
path is these segments joined by dots; the path names the document; and among all documents of which
it is one, the path refers to the first that ends with these segments. -/
theorem modulePath?_documentName_resolves {roots : List Text} {above below : List Step}
    {root : Step} {stem : Text}
    (hroot : root.name ∈ roots) (habove : ∀ s ∈ above, s.name ∉ roots)
    (hplain : ∀ name ∈ (above ++ root :: below).map (·.name) ++ [stem],
      '/' ∉ name ∧ '\\' ∉ name ∧ '%' ∉ name)
    (hbelow : ∀ name ∈ below.map (·.name) ++ [stem], name ≠ [] ∧ '.' ∉ name) :
    let document := documentName (above ++ root :: below) (stem ++ sourceExtension)
    let segments := below.map (·.name) ++ [stem]
    let path := ['.'].intercalate segments
    let ending := ['/'].intercalate segments ++ sourceExtension
    modulePath? roots document = some path ∧ isNamedBy document path = true ∧
    ∀ documents, document ∈ documents → ∃ found, resolveModule? path documents = some found ∧
      ending <:+ slashed found ∧ ∃ before after, documents = before ++ found :: after ∧
        ∀ earlier ∈ before, ¬ ending <:+ slashed earlier := by
  intro document segments path ending
  -- the extension keeps the file name as plain as its stem
  have hfile : ∀ name ∈ (above ++ root :: below).map (·.name) ++ [stem ++ sourceExtension],
      '/' ∉ name ∧ '\\' ∉ name ∧ '%' ∉ name := by
    intro name hname
    rcases List.mem_append.mp hname with hname | hname
    · exact hplain name (List.mem_append_left _ hname)
    · obtain rfl := List.mem_singleton.mp hname
      have hstem := hplain stem (List.mem_append_right _ List.mem_cons_self)
      have hext : '/' ∉ sourceExtension ∧ '\\' ∉ sourceExtension ∧ '%' ∉ sourceExtension := by
        decide
      simpa [hext] using hstem
  have hsegments : segmentsBelow roots document = below.map (·.name) ++ [stem ++ sourceExtension] :=
    segmentsBelow_documentName hroot habove hfile
  have hending : moduleSuffix path = ending :=
    moduleSuffix_intercalate fun name hname => (hbelow name hname).2
  have hlast : segments <:+ (above ++ root :: below).map (·.name) ++ [stem] :=
    ⟨(above ++ [root]).map (·.name), by simp [segments]⟩
  have hnamed : isNamedBy document path = true :=
    isNamedBy_documentName hlast (fun name hname => (hfile name hname).2.1)
      fun name hname => (hbelow name hname).2
  refine ⟨modulePath?_of_segmentsBelow hsegments fun name hname => (hbelow name hname).1, hnamed,
    fun documents hmem => ?_⟩
  have hsome : (resolveModule? path documents).isSome = true :=
    List.find?_isSome.mpr ⟨document, hmem, hnamed⟩
  obtain ⟨found, hfound⟩ := Option.isSome_iff_exists.mp hsome
  have hspec := resolveModule?_eq_some_iff.mp hfound
  rw [hending] at hspec
  exact ⟨found, hfound, hspec⟩

/-- A document in a folder that is named like a source root, written with backslashes, and a file
whose stem is made of the letters of the extension. An earlier document ends with the same segments,
so the module path refers to that one. -/
theorem modulePath?_documentName_resolves_inner_root :
    let document : Uri := "ws\\lib/src\\jk.jk".toList
    let other : Uri := "old/src/jk.jk".toList
    "lib".toList ∈ ["src".toList, "lib".toList] ∧ "ws".toList ∉ ["src".toList, "lib".toList] ∧
    modulePath? ["src".toList, "lib".toList] document = some "src.jk".toList ∧
    isNamedBy document "src.jk".toList = true ∧
    document ∈ [other, document] ∧
    resolveModule? "src.jk".toList [other, document] = some other ∧
    "src/jk.jk".toList <:+ slashed other := by
  intro document other
  obtain ⟨hpath, hnamed, hresolve⟩ := @modulePath?_documentName_resolves
    ["src".toList, "lib".toList] [⟨"ws".toList, true⟩] [⟨"src".toList, true⟩]
    ⟨"lib".toList, false⟩ "jk".toList (by decide) (by decide) (by decide) (by decide)
  obtain ⟨found, hfound, hends, -⟩ := hresolve [other, document] (by decide)
  obtain rfl : other = found := Option.some.inj ((by decide : _ = some other).symm.trans hfound)
  exact ⟨by decide, by decide, hpath, hnamed, by decide, hfound, hends⟩

end JinkAnalysis
