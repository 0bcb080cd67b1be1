import JinkAnalysis.Host.Standard
import JinkAnalysis.Proofs.Text.Escapes
import Mathlib.Data.List.TakeWhile

/-!
# The standard host decodes the URIs of paths

The URI of a path is written with escapes, and the standard host takes them back. So it gives **the
text of a path for the URI of the path** (`Host.pathOfUri_standard`), with one exception: where a
path starts like a drive of another system, the slash before the drive is taken off.
-/

namespace JinkAnalysis.Host

theorem splitScheme_file (t : Text) : splitScheme ("file:".toList ++ t) = ("file".toList, t) := by
  have hbefore : Text.before ':' ("file:".toList ++ t) = "file".toList := rfl
  unfold splitScheme
  dsimp only
  rw [hbefore, if_pos ⟨by simp, by decide, by decide⟩]
  rfl

/-- A file URI whose host is empty is decoded up to its query or fragment. -/
theorem pathText_file (t : Text) :
    pathText ("file://".toList ++ '/' :: t) =
      withoutDrive (Text.unescaped (('/' :: t).takeWhile fun c => c != '?' && c != '#')) := by
  have hsplit : splitScheme ("file://".toList ++ '/' :: t) =
      ("file".toList, '/' :: '/' :: '/' :: t) := splitScheme_file _
  unfold pathText
  rw [hsplit]
  rfl

/-- No query and no fragment starts in what is written with escapes. -/
theorem takeWhile_escaped (t : Text) :
    (Text.escaped t).takeWhile (fun c => c != '?' && c != '#') = Text.escaped t := by
  refine List.takeWhile_eq_self_iff.mpr fun c hc => ?_
  have hquery : c ≠ '?' := by
    rintro rfl
    exact absurd (Text.mem_escaped hc) (by decide)
  have hfragment : c ≠ '#' := by
    rintro rfl
    exact absurd (Text.mem_escaped hc) (by decide)
  simp [hquery, hfragment]

/-- **The URI of a path is decoded to the text of the path**, less the slash before a drive. -/
theorem pathText_uri (p : Path) : pathText p.uri = withoutDrive p.text := by
  have hslash : Text.escaped p.text = '/' :: Text.escaped (['/'].intercalate p) :=
    Text.escaped_cons_of_unreserved (by decide) _
  have huri : p.uri = "file://".toList ++ '/' :: Text.escaped (['/'].intercalate p) :=
    congrArg ("file://".toList ++ ·) hslash
  rw [huri, pathText_file, ← hslash, takeWhile_escaped, Text.unescaped_escaped]

theorem pathOfUri_standard (working : Path) {p : Path} (hdrive : withoutDrive p.text = p.text) :
    (standard working).pathOfUri p.uri = some p.text :=
  congrArg some ((pathText_uri p).trans hdrive)

end JinkAnalysis.Host
