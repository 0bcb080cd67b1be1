import JinkAnalysis.ModulePath
import Mathlib.Data.List.Basic
import Mathlib.Data.List.Infix

/-!
# Module paths lead back to their documents

A module path is made of the segments of a document's name below a source root, after percent
escapes have been decoded, and it names the documents whose name ends with its segments, as they are
written. The two meet where decoding changes nothing and no segment has a dot of its own: there **a
document is named by the module path that is derived from it** (`isNamedBy_modulePath?`).

* Decoding goes segment by segment (`unescaped_append_slash`), so what stands above the source root
  does not matter.
* The path of plain segments has its separators where the document's name has them
  (`replace_intercalate`).
-/

namespace JinkAnalysis

namespace Text

/-! ### Percent escapes -/

theorem leadingEscapes_cons_of_ne {c : Char} (hc : c ≠ '%') (t : Text) :
    leadingEscapes (c :: t) = [] := by
  rw [leadingEscapes.eq_def]
  split
  · next h => exact absurd (List.cons.inj h).1 hc
  · rfl

theorem three_mul_length_leadingEscapes_le (t : Text) :
    3 * (leadingEscapes t).length ≤ t.length := by
  fun_induction leadingEscapes t with
  | case1 a b t x y hb ha ih =>
    simp only [List.length_cons]
    omega
  | case2 => exact Nat.zero_le _
  | case3 => exact Nat.zero_le _

/-- A percent sign that a slash follows, before two digits have been read, starts no escape. -/
theorem leadingEscapes_cut (u t : Text) (hu : u.length < 3) :
    leadingEscapes (u ++ '/' :: t) = [] := by
  have hslash : hexValue? '/' = none := by decide
  rw [leadingEscapes.eq_def]
  split
  · next a b t' heq =>
    -- the slash is one of the three characters of the escape
    split
    · next x y ha hb =>
      match u with
      | [] => cases heq
      | [_] =>
        obtain ⟨-, rfl, -⟩ := heq
        rw [hslash] at ha
        cases ha
      | [_, _] =>
        obtain ⟨-, -, rfl, -⟩ := heq
        rw [hslash] at hb
        cases hb
    · rfl
  · rfl

/-- A slash ends every run of escapes. -/
theorem leadingEscapes_append_slash (u t : Text) :
    leadingEscapes (u ++ '/' :: t) = leadingEscapes u := by
  fun_induction leadingEscapes u with
  | case1 a b u x y hx hy ih => simp only [List.cons_append, leadingEscapes, hx, hy, ih]
  | case2 a b u h =>
    rw [List.cons_append, List.cons_append, List.cons_append, leadingEscapes]
    split
    · next x y ha hb => exact absurd hb (h x y ha)
    · rfl
  | case3 u h =>
    match u with
    | [] => exact leadingEscapes_cut [] t (by decide)
    | [a] => exact leadingEscapes_cut [a] t (by simp)
    | [a, b] => exact leadingEscapes_cut [a, b] t (by simp)
    | c :: a :: b :: u =>
      refine leadingEscapes_cons_of_ne (fun hc => ?_) _
      exact h a b u (by rw [hc])

theorem unescaped_cons_of_isEmpty {c : Char} {t : Text}
    (h : (leadingEscapes (c :: t)).isEmpty = true) : unescaped (c :: t) = c :: unescaped t := by
  rw [unescaped, if_pos h]

/-- **Decoding goes segment by segment.** -/
theorem unescaped_append_slash (u t : Text) :
    unescaped (u ++ '/' :: t) = unescaped u ++ '/' :: unescaped t := by
  fun_induction unescaped u with
  | case1 => exact unescaped_cons_of_isEmpty (by rw [leadingEscapes_cons_of_ne (by decide)]; rfl)
  | case2 c u bytes hempty ih =>
    have hnone : (leadingEscapes (c :: (u ++ '/' :: t))).isEmpty = true := by
      rwa [← List.cons_append, leadingEscapes_append_slash]
    rw [List.cons_append, unescaped_cons_of_isEmpty hnone, ih, List.cons_append]
  | case3 c u bytes hempty ih =>
    have hbytes : leadingEscapes (c :: (u ++ '/' :: t)) = bytes :=
      leadingEscapes_append_slash (c :: u) t
    have hlength : 3 * bytes.length - 1 ≤ u.length := by
      have hle := three_mul_length_leadingEscapes_le (c :: u)
      rw [List.length_cons] at hle
      exact Nat.sub_le_of_le_add hle
    rw [List.cons_append, unescaped, hbytes, if_neg hempty,
      List.drop_append_of_le_length hlength, ih, List.append_assoc]

/-- Without percent signs there is nothing to decode. -/
theorem unescaped_of_not_mem {t : Text} (h : '%' ∉ t) : unescaped t = t := by
  induction t with
  | nil => rw [unescaped]
  | cons c t ih =>
    simp only [List.mem_cons, not_or] at h
    have hempty : (leadingEscapes (c :: t)).isEmpty = true := by
      rw [leadingEscapes_cons_of_ne (Ne.symm h.1)]
      rfl
    rw [unescaped_cons_of_isEmpty hempty, ih h.2]

/-! ### Segments -/

theorem split_append_cons (u t : Text) (c : Char) :
    split (u ++ c :: t) c = u.split c ++ t.split c := by
  rw [split, List.splitOn_eq_splitOnP]
  exact List.splitOnP_append_cons u t (beq_self_eq_true c)

theorem split_of_not_mem {t : Text} {c : Char} (h : c ∉ t) : t.split c = [t] := by
  rw [split, List.splitOn_eq_splitOnP]
  refine List.splitOnP_eq_singleton fun d hd => ?_
  rw [beq_eq_false_iff_ne]
  rintro rfl
  exact h hd

/-- What has no separator, and separators or nothing on its sides, is a segment. -/
theorem mem_split_of_bounds {u w v : Text} {c : Char} (hw : c ∉ w)
    (hu : ∀ d ∈ u.getLast?, d = c) (hv : ∀ d ∈ v.head?, d = c) : w ∈ split (u ++ (w ++ v)) c := by
  have hright : w ∈ split (w ++ v) c := by
    cases v with
    | nil => rw [List.append_nil, split_of_not_mem hw]; exact List.mem_cons_self
    | cons d v =>
      obtain rfl : d = c := hv d rfl
      rw [split_append_cons, split_of_not_mem hw]
      exact List.mem_append_left _ List.mem_cons_self
  rcases List.eq_nil_or_concat u with rfl | ⟨u, d, rfl⟩
  · exact hright
  · obtain rfl : d = c := hu d (by simp)
    rw [List.concat_eq_append, List.append_assoc, List.singleton_append, split_append_cons]
    exact List.mem_append_right _ hright

theorem intercalate_split (t : Text) (c : Char) : [c].intercalate (t.split c) = t :=
  List.intercalate_splitOn c

/-- Joining some segments and then others puts a separator between the two. -/
theorem intercalate_append (c : Char) {xs ys : List Text} (hxs : xs ≠ []) (hys : ys ≠ []) :
    [c].intercalate (xs ++ ys) = [c].intercalate xs ++ c :: [c].intercalate ys := by
  obtain ⟨y, ys, rfl⟩ := List.exists_cons_of_ne_nil hys
  induction xs with
  | nil => exact absurd rfl hxs
  | cons x xs ih =>
    cases xs with
    | nil => simp [List.intercalate_cons_cons]
    | cons x' xs =>
      have ih := ih (List.cons_ne_nil x' xs)
      rw [List.cons_append, List.cons_append, List.intercalate_cons_cons, ← List.cons_append, ih,
        List.intercalate_cons_cons]
      simp

/-- Splitting joined texts splits each of them. -/
theorem split_intercalate {xs : List Text} (hxs : xs ≠ []) (c : Char) :
    split ([c].intercalate xs) c = xs.flatMap (·.split c) := by
  induction xs with
  | nil => exact absurd rfl hxs
  | cons x xs ih =>
    cases xs with
    | nil => simp
    | cons x' xs =>
      rw [List.intercalate_cons_cons, List.append_assoc, List.singleton_append, split_append_cons,
        ih (List.cons_ne_nil x' xs)]
      rfl

theorem unescaped_intercalate_slash (xs : List Text) :
    unescaped (['/'].intercalate xs) = ['/'].intercalate (xs.map unescaped) := by
  induction xs with
  | nil => simp [unescaped]
  | cons x xs ih =>
    cases xs with
    | nil => simp
    | cons x' xs =>
      rw [List.intercalate_cons_cons, List.append_assoc, List.singleton_append,
        unescaped_append_slash, ih]
      simp only [List.map_cons, List.intercalate_cons_cons, List.append_assoc,
        List.singleton_append]

/-- The last of some segments end the joined text. -/
theorem intercalate_suffix {xs ys : List Text} (h : ys <:+ xs) (c : Char) :
    [c].intercalate ys <:+ [c].intercalate xs := by
  obtain ⟨zs, rfl⟩ := h
  by_cases hzs : zs = []
  · rw [hzs]
    exact List.suffix_rfl
  · by_cases hys : ys = []
    · rw [hys]
      exact List.nil_suffix
    · rw [intercalate_append c hzs hys]
      exact (List.suffix_cons c _).trans (List.suffix_append _ _)

theorem intercalate_concat_append (c : Char) (xs : List Text) (y z : Text) :
    [c].intercalate (xs ++ [y]) ++ z = [c].intercalate (xs ++ [y ++ z]) := by
  by_cases hxs : xs = []
  · simp [hxs]
  · rw [intercalate_append c hxs (List.cons_ne_nil _ _),
      intercalate_append c hxs (List.cons_ne_nil _ _)]
    simp

/-- A segment has no separator, and separators or nothing on its sides. -/
theorem exists_of_mem_split {t part : Text} {c : Char} (h : part ∈ t.split c) :
    ∃ u v, t = u ++ (part ++ v) ∧ c ∉ part ∧ (∀ d ∈ u.getLast?, d = c) ∧
      ∀ d ∈ v.head?, d = c := by
  induction hlength : t.length using Nat.strong_induction_on generalizing t with
  | _ n ih =>
    by_cases hc : c ∈ t
    · -- cut at the first separator
      obtain ⟨u, v, rfl, hu⟩ := List.eq_append_cons_of_mem hc
      rw [split_append_cons, split_of_not_mem hu] at h
      rcases List.mem_append.mp h with h | h
      · obtain rfl := List.mem_singleton.mp h
        exact ⟨[], c :: v, rfl, hu, nofun, fun d hd => (Option.some.inj hd).symm⟩
      · have hlt : v.length < n := by
          rw [← hlength, List.length_append, List.length_cons]
          omega
        obtain ⟨u', v', rfl, hpart, hu', hv'⟩ := ih v.length hlt h rfl
        refine ⟨u ++ c :: u', v', by simp, hpart, fun d hd => ?_, hv'⟩
        rw [List.getLast?_append, List.getLast?_cons, Option.some_or] at hd
        obtain rfl := Option.some.inj hd
        cases hlast : u'.getLast? with
        | none => rfl
        | some e => exact hu' e hlast
    · rw [split_of_not_mem hc] at h
      obtain rfl := List.mem_singleton.mp h
      exact ⟨[], [], by simp, hc, nofun, nofun⟩

theorem not_mem_of_mem_split {t part : Text} {c : Char} (h : part ∈ t.split c) : c ∉ part := by
  obtain ⟨-, -, -, hpart, -⟩ := exists_of_mem_split h
  exact hpart

theorem replace_of_not_mem {t : Text} {old new : Char} (h : old ∉ t) : replace old new t = t := by
  have hkeep : ∀ c ∈ t, (if c = old then new else c) = c := fun c hc =>
    if_neg (by rintro rfl; exact h hc)
  exact (List.map_congr_left hkeep).trans (List.map_id'' (fun _ => rfl) t)

/-- Replacing the separator joins the same texts with another one. -/
theorem replace_intercalate {xs : List Text} {old new : Char} (h : ∀ x ∈ xs, old ∉ x) :
    replace old new ([old].intercalate xs) = [new].intercalate xs := by
  induction xs with
  | nil => rfl
  | cons x xs ih =>
    obtain ⟨hx, hxs⟩ := List.forall_mem_cons.mp h
    cases xs with
    | nil => simpa using replace_of_not_mem hx
    | cons x' xs =>
      have happend : ∀ u v : Text,
          replace old new (u ++ v) = replace old new u ++ replace old new v :=
        fun u v => List.map_append
      have hseparator : replace old new [old] = [new] := by simp [replace]
      rw [List.intercalate_cons_cons, List.intercalate_cons_cons, happend, happend, ih hxs,
        replace_of_not_mem hx, hseparator]

end Text

/-! ### The segments below a source root -/

/-- The segments of a document's path below the source root, as they are written in its name. -/
def writtenBelow (roots : List Text) (document : Uri) : List Text :=
  (((slashed document).split '/').reverse.take (segmentsBelow roots document).length).reverse

theorem writtenBelow_suffix (roots : List Text) (document : Uri) :
    writtenBelow roots document <:+ (slashed document).split '/' := by
  rw [writtenBelow, ← List.reverse_prefix, List.reverse_reverse]
  exact List.take_prefix _ _

/-- Segments without percent signs are written as they are. -/
theorem segmentsBelow_eq_writtenBelow {roots : List Text} {document : Uri}
    (h : ∀ part ∈ writtenBelow roots document, '%' ∉ part) :
    segmentsBelow roots document = writtenBelow roots document := by
  obtain ⟨above, hraw⟩ := writtenBelow_suffix roots document
  -- decoding the name decodes its segments, and those below the root stay as they are
  have hbelow : (writtenBelow roots document).flatMap (fun part => part.unescaped.split '/') =
      writtenBelow roots document := by
    have hsingle : ∀ part ∈ writtenBelow roots document, part.unescaped.split '/' = [part] :=
      fun part hpart => by
        rw [Text.unescaped_of_not_mem (h part hpart)]
        exact Text.split_of_not_mem (Text.not_mem_of_mem_split
          ((writtenBelow_suffix roots document).subset hpart))
    rw [List.flatMap_congr hsingle, List.flatMap_singleton']
  have hdecoded : (slashed document).unescaped.split '/' =
      above.flatMap (fun part => part.unescaped.split '/') ++ writtenBelow roots document := by
    have hne : ((slashed document).split '/').map Text.unescaped ≠ [] := by
      simp [Text.split, List.splitOn_ne_nil]
    rw [← Text.intercalate_split (slashed document) '/', Text.unescaped_intercalate_slash,
      Text.split_intercalate hne, List.flatMap_map, ← hraw, List.flatMap_append, hbelow]
  have hsegments : segmentsBelow roots document <:+ (slashed document).unescaped.split '/' :=
    (List.drop_suffix _ _).trans (List.dropWhile_suffix _)
  rw [hdecoded] at hsegments
  have hlength : (writtenBelow roots document).length =
      min (segmentsBelow roots document).length ((slashed document).split '/').length := by
    rw [writtenBelow, List.length_reverse, List.length_take, List.length_reverse]
  have hle : (segmentsBelow roots document).length ≤ (writtenBelow roots document).length := by
    by_cases hmany : (segmentsBelow roots document).length ≤ ((slashed document).split '/').length
    · omega
    · -- all of the name is below the root, so there is nothing to decode
      have habove : above = [] := by
        have htotal := congrArg List.length hraw
        rw [List.length_append] at htotal
        exact List.length_eq_zero_iff.mp (by omega)
      rw [habove] at hsegments
      exact hsegments.length_le
  exact (List.suffix_of_suffix_length_le hsegments (List.suffix_append _ _) hle).eq_of_length
    (by omega)

/-- What a module path is made of: the segments below the source root, without the extension of the
last one. -/
theorem modulePath?_spec {roots : List Text} {document : Uri} {path : Text}
    (h : modulePath? roots document = some path) :
    ∃ dirs stem, segmentsBelow roots document = dirs ++ [stem ++ sourceExtension] ∧
      path = ['.'].intercalate (dirs ++ [stem]) ∧ ∀ part ∈ dirs ++ [stem], part ≠ [] := by
  unfold modulePath? at h
  generalize segmentsBelow roots document = segments at h ⊢
  dsimp only at h
  split at h
  · cases h
  · next file hlast =>
    split at h
    · next hext =>
      split at h
      · next hne =>
        obtain ⟨stem, rfl⟩ := List.isSuffixOf_iff_suffix.mp hext
        have hstem : (stem ++ sourceExtension).take
            ((stem ++ sourceExtension).length - sourceExtension.length) = stem := by
          rw [List.length_append, Nat.add_sub_cancel, List.take_left]
        rw [hstem] at h hne
        refine ⟨segments.dropLast, stem, ?_, (Option.some.inj h).symm, ?_⟩
        · exact (List.dropLast_append_getLast? _ hlast).symm
        · intro part hpart
          simpa using List.all_eq_true.mp hne part hpart
      · cases h
    · cases h

/-- **A document is named by the module path that is derived from it**, if below the source root its
name has no percent sign and no dot but that of the extension. -/
theorem isNamedBy_modulePath? {roots : List Text} {document : Uri} {path : Text}
    (h : modulePath? roots document = some path)
    (hescapes : ∀ part ∈ writtenBelow roots document, '%' ∉ part)
    (hdots : (segmentsBelow roots document).flatten.count '.' = 1) :
    isNamedBy document path = true := by
  obtain ⟨dirs, stem, hsegments, rfl, -⟩ := modulePath?_spec h
  have hdotless : ∀ part ∈ dirs ++ [stem], '.' ∉ part := fun part hpart hdot => by
    have hext : sourceExtension.count '.' = 1 := rfl
    have hzero : (dirs ++ [stem]).flatten.count '.' = 0 := by
      rw [hsegments] at hdots
      simp only [List.flatten_append, List.flatten_cons, List.flatten_nil, List.append_nil,
        List.count_append, hext] at hdots ⊢
      omega
    exact List.count_eq_zero.mp hzero (List.mem_flatten.mpr ⟨part, hpart, hdot⟩)
  have hsuffix : moduleSuffix (['.'].intercalate (dirs ++ [stem])) =
      ['/'].intercalate (segmentsBelow roots document) := by
    rw [moduleSuffix, Text.replace_intercalate hdotless, Text.intercalate_concat_append, hsegments]
  have hname := Text.intercalate_suffix (writtenBelow_suffix roots document) '/'
  rw [Text.intercalate_split, ← segmentsBelow_eq_writtenBelow hescapes] at hname
  rw [isNamedBy, hsuffix, List.isSuffixOf_iff_suffix]
  exact hname

end JinkAnalysis
